import PackedBits.Bitmap.Basic

/-!
# Runs of writes

Writers share a bitmap. Each has a job, a list of writes that it makes in order, and a write is
indivisible. `runJobs` lets the writers go one after the other. `Writers` is the general case: the
bitmap, the work that is left and the answers so far, where any writer with work left may go next.
-/

namespace PackedBits.Bitmap

/-- A flag to write: which one, and its new value. -/
structure Write where
  index : UInt64
  value : Bool
  deriving DecidableEq

/-- Makes writes in order. The answers say which of them had a flag to write. -/
def runWrites (a : Bitmap) : List Write → List Bool × Bitmap
  | [] => ([], a)
  | w :: rest =>
    let (found, a') := a.set w.index w.value
    let (answers, last) := a'.runWrites rest
    (found :: answers, last)

/-- Runs whole jobs one after the other. -/
def runJobs (a : Bitmap) : List (List Write) → List (List Bool) × Bitmap
  | [] => ([], a)
  | job :: rest =>
    let (answers, a') := a.runWrites job
    let (others, last) := a'.runJobs rest
    (answers :: others, last)

/-! ## Writers at work -/

/-- A writer's work: the writes it has made, their answers, and the writes it has yet to make. -/
structure Progress where
  done : List Write := []
  answers : List Bool := []
  left : List Write

/-- A shared bitmap and the writers at work on it. -/
structure Writers where
  bitmap : Bitmap
  progress : List Progress

/-- Writers that have not begun. -/
def Writers.start (a : Bitmap) (jobs : List (List Write)) : Writers :=
  ⟨a, jobs.map fun job => ⟨[], [], job⟩⟩

/-- One write of writer `n`. Nothing happens if there is no such writer or it has no work left. -/
def Writers.step (s : Writers) (n : Nat) : Writers :=
  match s.progress[n]? with
  | none => s
  | some p =>
    match p.left with
    | [] => s
    | w :: rest =>
      let (found, a) := s.bitmap.set w.index w.value
      ⟨a, s.progress.set n ⟨p.done ++ [w], p.answers ++ [found], rest⟩⟩

/-- Writers after the steps of a schedule, which names who goes next each time. -/
def Writers.run (s : Writers) (schedule : List Nat) : Writers := schedule.foldl Writers.step s

/-! ## Lemmas -/

theorem runWrites_cons (a : Bitmap) (w : Write) (ws : List Write) :
    a.runWrites (w :: ws) =
      ((a.set w.index w.value).1 :: ((a.set w.index w.value).2.runWrites ws).1,
        ((a.set w.index w.value).2.runWrites ws).2) := rfl

@[simp] theorem size_runWrites (a : Bitmap) (ws : List Write) :
    (a.runWrites ws).2.size = a.size := by
  induction ws generalizing a with
  | nil => rfl
  | cons w rest ih => simp [runWrites, ih]

theorem runWrites_wellFormed {a : Bitmap} (ha : a.WellFormed) (ws : List Write) :
    (a.runWrites ws).2.WellFormed := by
  induction ws generalizing a with
  | nil => exact ha
  | cons w rest ih => exact ih (set_wellFormed ha w.index w.value)

/-- Making writes after others is making them all in one go. -/
theorem runWrites_append (a : Bitmap) (ws vs : List Write) :
    a.runWrites (ws ++ vs) =
      ((a.runWrites ws).1 ++ ((a.runWrites ws).2.runWrites vs).1,
        ((a.runWrites ws).2.runWrites vs).2) := by
  induction ws generalizing a with
  | nil => rfl
  | cons w rest ih => simp [runWrites, ih]

theorem runJobs_wellFormed {a : Bitmap} (ha : a.WellFormed) (jobs : List (List Write)) :
    (a.runJobs jobs).2.WellFormed := by
  induction jobs generalizing a with
  | nil => exact ha
  | cons job rest ih => exact ih (runWrites_wellFormed ha job)

end PackedBits.Bitmap
