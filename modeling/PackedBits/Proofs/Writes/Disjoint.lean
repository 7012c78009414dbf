import PackedBits.Proofs.Writes.History

/-!
# Writers that keep to flags of their own

Writers share a bitmap, and no flag is written to by two of them. Then it makes no difference how
their writes are interleaved: at every moment the words are those that the writers would have left
by doing what they have done one after the other.

The invariant is `Writers.Consistent`. A step adds a write to the work of one writer. In the run of
all work, one writer after the other, this write stands in the middle; in the run that took place it
comes last. Between the two places only other writers' work is done, which is on other flags, so
every flag has the same last value either way (`runWrites_append_cons`,
`runJobs_append_cons_snoc`).

## Main statements

* `Writers.step_cases` — what a step can do
* `Writers.Consistent.step`, `Writers.Consistent.run` — the invariant
* `Writers.run_interleaving` — every interleaving is the run of a schedule
* `disjoint_writers` — the invariant, its final state, and the command that runs jobs
-/

namespace PackedBits

namespace Bitmap

/-! ## Jobs -/

/-- No two jobs write to the same flag. -/
def DisjointJobs (jobs : List (List Write)) : Prop :=
  jobs.Pairwise fun xs ys => ∀ x ∈ xs, ∀ y ∈ ys, x.index ≠ y.index

instance (jobs : List (List Write)) : Decidable (DisjointJobs jobs) :=
  inferInstanceAs (Decidable (jobs.Pairwise fun xs ys => ∀ x ∈ xs, ∀ y ∈ ys, x.index ≠ y.index))

/-- The writes of writer `n` among calls, each of which comes with the number of its writer. -/
def callsOf (n : Nat) (calls : List (Nat × Write)) : List Write :=
  (calls.filter (·.1 = n)).map Prod.snd

/-- Calls that are the writes of some jobs, in an order which keeps the order of each job. -/
def Interleaving (jobs : List (List Write)) (calls : List (Nat × Write)) : Prop :=
  ∀ n, callsOf n calls = jobs.getD n []

theorem callsOf_cons_self (n : Nat) (w : Write) (calls : List (Nat × Write)) :
    callsOf n ((n, w) :: calls) = w :: callsOf n calls := by
  simp [callsOf]

theorem callsOf_cons_of_ne {n m : Nat} (h : n ≠ m) (w : Write) (calls : List (Nat × Write)) :
    callsOf m ((n, w) :: calls) = callsOf m calls := by
  simp [callsOf, h]

theorem callsOf_prefix {before calls : List (Nat × Write)} (h : before <+: calls) (n : Nat) :
    callsOf n before <+: callsOf n calls :=
  (h.filter _).map _

theorem Interleaving.mapIdx_callsOf {jobs : List (List Write)} {calls : List (Nat × Write)}
    (h : Interleaving jobs calls) : (jobs.mapIdx fun n _ => callsOf n calls) = jobs := by
  apply List.ext_getElem?
  intro n
  rw [List.getElem?_mapIdx, h n]
  cases hn : jobs[n]? with
  | none => rfl
  | some job => simp [hn]

theorem runJobs_cons (a : Bitmap) (job : List Write) (jobs : List (List Write)) :
    a.runJobs (job :: jobs) =
      ((a.runWrites job).1 :: ((a.runWrites job).2.runJobs jobs).1,
        ((a.runWrites job).2.runJobs jobs).2) := rfl

/-- Jobs one after the other are one long run. -/
theorem runJobs_snd (a : Bitmap) (jobs : List (List Write)) :
    (a.runJobs jobs).2 = (a.runWrites jobs.flatten).2 := by
  induction jobs generalizing a with
  | nil => rfl
  | cons job rest ih => rw [runJobs_cons, ih, List.flatten_cons, runWrites_append]

/-- A job is answered as if it were alone. -/
theorem runJobs_fst (a : Bitmap) (jobs : List (List Write)) :
    (a.runJobs jobs).1 = jobs.map fun job => (a.runWrites job).1 := by
  induction jobs generalizing a with
  | nil => rfl
  | cons job rest ih =>
    rw [runJobs_cons, ih, List.map_cons]
    simp only [runWrites_fst, size_runWrites]

/-- A write may be put off until after writes to other flags. -/
theorem runWrites_append_cons {a : Bitmap} (ha : a.WellFormed) (xs : List Write) {w : Write}
    {ys : List Write} (h : ∀ y ∈ ys, w.index ≠ y.index) :
    (a.runWrites (xs ++ w :: ys)).2 = (a.runWrites (xs ++ ys ++ [w])).2 := by
  refine runWrites_congr ha fun i _ => ?_
  rw [List.append_assoc, lastValue_append, lastValue_append, lastValue_append, lastValue_cons,
    lastValue_singleton]
  congr 1
  by_cases hi : w.index = i
  · rw [lastValue_eq_none fun y hy hyi => h y hy (hi.trans hyi.symm)]
    simp [hi]
  · simp [hi]

/-- One more write of a job is one more write of all, if the later jobs are on other flags. -/
theorem runJobs_append_cons_snoc {a : Bitmap} (ha : a.WellFormed) (before : List (List Write))
    (job : List Write) {w : Write} {after : List (List Write)}
    (h : ∀ y ∈ after.flatten, w.index ≠ y.index) :
    (a.runJobs (before ++ (job ++ [w]) :: after)).2 =
      ((a.runJobs (before ++ job :: after)).2.set w.index w.value).2 := by
  have hmore : (before ++ (job ++ [w]) :: after).flatten =
      (before.flatten ++ job) ++ w :: after.flatten := by
    simp
  have hless : (before ++ job :: after).flatten = (before.flatten ++ job) ++ after.flatten := by
    simp
  rw [runJobs_snd, runJobs_snd, hmore, hless, runWrites_append_cons ha _ h, runWrites_append]
  rfl

/-! ## Steps -/

namespace Writers

/-- The next write of writer `n`. -/
theorem step_of_left {s : Writers} {n : Nat} {p : Progress} (hp : s.progress[n]? = some p)
    {w : Write} {rest : List Write} (hleft : p.left = w :: rest) :
    s.step n =
      ⟨(s.bitmap.set w.index w.value).2,
        s.progress.set n
          ⟨p.done ++ [w], p.answers ++ [(s.bitmap.set w.index w.value).1], rest⟩⟩ := by
  unfold step
  simp only [hp, hleft]

/-- A step does nothing, or it is the next write of one of the writers. -/
theorem step_cases (s : Writers) (n : Nat) :
    s.step n = s ∨
      ∃ ps p qs w rest, s.progress = ps ++ p :: qs ∧ p.left = w :: rest ∧
        s.step n =
          ⟨(s.bitmap.set w.index w.value).2,
            ps ++ ⟨p.done ++ [w], p.answers ++ [(s.bitmap.set w.index w.value).1], rest⟩ ::
              qs⟩ := by
  cases hp : s.progress[n]? with
  | none => exact Or.inl (by unfold step; simp only [hp])
  | some p =>
    cases hleft : p.left with
    | nil => exact Or.inl (by unfold step; simp only [hp, hleft])
    | cons w rest =>
      obtain ⟨hn, hget⟩ := List.getElem?_eq_some_iff.mp hp
      refine Or.inr ⟨s.progress.take n, p, s.progress.drop (n + 1), w, rest, ?_, hleft, ?_⟩
      · rw [← hget, ← List.drop_eq_getElem_cons hn, List.take_append_drop]
      · rw [step_of_left hp hleft, List.set_eq_take_append_cons_drop, if_pos hn]

/-! ## The invariant -/

/--
What writers have done and have yet to do is their jobs, the bitmap is what they would have left one
after the other, and each of them has been answered as if it were alone.
-/
structure Consistent (a : Bitmap) (jobs : List (List Write)) (s : Writers) : Prop where
  jobs_eq : s.progress.map (fun p => p.done ++ p.left) = jobs
  bitmap_eq : s.bitmap = (a.runJobs (s.progress.map Progress.done)).2
  answers_eq : ∀ p ∈ s.progress, p.answers = (a.runWrites p.done).1

theorem consistent_start (a : Bitmap) (jobs : List (List Write)) :
    (start a jobs).Consistent a jobs where
  jobs_eq := by
    rw [start, List.map_map]
    exact List.map_id jobs
  bitmap_eq := by
    have hflat : ((jobs.map fun job => (⟨[], [], job⟩ : Progress)).map Progress.done).flatten =
        [] := by
      simp
    rw [start, runJobs_snd, hflat]
    rfl
  answers_eq p hp := by
    obtain ⟨job, -, rfl⟩ := List.mem_map.mp hp
    rfl

/-- What is left to one writer is on other flags than what a later one has done. -/
theorem Consistent.index_ne {a : Bitmap} {jobs : List (List Write)} {s : Writers}
    (hs : s.Consistent a jobs) (hjobs : DisjointJobs jobs) {ps qs : List Progress} {p : Progress}
    (hprogress : s.progress = ps ++ p :: qs) {w : Write} (hw : w ∈ p.left) :
    ∀ y ∈ (qs.map Progress.done).flatten, w.index ≠ y.index := by
  intro y hy
  obtain ⟨ds, hds, hyds⟩ := List.mem_flatten.mp hy
  obtain ⟨q, hq, rfl⟩ := List.mem_map.mp hds
  rw [← hs.jobs_eq, hprogress, DisjointJobs, List.map_append, List.map_cons,
    List.pairwise_append, List.pairwise_cons] at hjobs
  have hapart := hjobs.2.1.1 _ (List.mem_map_of_mem hq)
  exact hapart w (List.mem_append_right _ hw) y (List.mem_append_left _ hyds)

/-- A step keeps the invariant. -/
theorem Consistent.step {a : Bitmap} (ha : a.WellFormed) {jobs : List (List Write)}
    (hjobs : DisjointJobs jobs) {s : Writers} (hs : s.Consistent a jobs) (n : Nat) :
    (s.step n).Consistent a jobs := by
  obtain hsame | ⟨ps, p, qs, w, rest, hprogress, hleft, hstep⟩ := s.step_cases n
  · rw [hsame]
    exact hs
  · have hothers := hs.index_ne hjobs hprogress (hleft ▸ List.mem_cons_self)
    have hp : p.answers = (a.runWrites p.done).1 := hs.answers_eq p (by simp [hprogress])
    have hsize : s.bitmap.size = a.size := by rw [hs.bitmap_eq, runJobs_snd, size_runWrites]
    rw [hstep]
    refine ⟨?_, ?_, ?_⟩
    · rw [← hs.jobs_eq, hprogress]
      simp [hleft]
    · rw [List.map_append, List.map_cons, runJobs_append_cons_snoc ha _ _ hothers, hs.bitmap_eq,
        hprogress, List.map_append, List.map_cons]
    · intro q hq
      rw [List.mem_append, List.mem_cons] at hq
      obtain hq | rfl | hq := hq
      · exact hs.answers_eq q (by simp [hprogress, hq])
      · show p.answers ++ [_] = (a.runWrites (p.done ++ [w])).1
        rw [hp, runWrites_fst, runWrites_fst, set_fst, hsize, List.map_append]
        simp [UInt64.lt_iff_toNat_lt]
      · exact hs.answers_eq q (by simp [hprogress, hq])

/-- So does any schedule. -/
theorem Consistent.run {a : Bitmap} (ha : a.WellFormed) {jobs : List (List Write)}
    (hjobs : DisjointJobs jobs) {s : Writers} (hs : s.Consistent a jobs) (schedule : List Nat) :
    (s.run schedule).Consistent a jobs := by
  induction schedule generalizing s with
  | nil => exact hs
  | cons n rest ih => exact ih (hs.step ha hjobs n)

/-! ## Finished work -/

/-- No writer has work left. -/
def Finished (s : Writers) : Prop := ∀ p ∈ s.progress, p.left = []

theorem Consistent.map_done {a : Bitmap} {jobs : List (List Write)} {s : Writers}
    (hs : s.Consistent a jobs) (hfinished : s.Finished) : s.progress.map Progress.done = jobs := by
  rw [← hs.jobs_eq]
  refine List.map_congr_left fun p hp => ?_
  rw [hfinished p hp, List.append_nil]

theorem Consistent.map_answers {a : Bitmap} {jobs : List (List Write)} {s : Writers}
    (hs : s.Consistent a jobs) (hfinished : s.Finished) :
    s.progress.map Progress.answers = jobs.map fun job => (a.runWrites job).1 := by
  rw [← hs.map_done hfinished, List.map_map]
  exact List.map_congr_left hs.answers_eq

theorem Consistent.finished {a : Bitmap} {jobs : List (List Write)} {s : Writers}
    (hs : s.Consistent a jobs) (hdone : s.progress.map Progress.done = jobs) : s.Finished := by
  have hboth := hs.jobs_eq.trans hdone.symm
  intro p hp
  simpa using List.map_inj_left.mp hboth p hp

/-! ## Interleavings -/

/--
Calls are made by the schedule of their writers, as long as each writer has the calls to make that
it is scheduled for.
-/
theorem run_calls {s : Writers} (calls : List (Nat × Write))
    (h : ∀ n, callsOf n calls <+: (s.progress.map Progress.left).getD n []) :
    (s.run (calls.map Prod.fst)).bitmap = (s.bitmap.runWrites (calls.map Prod.snd)).2 ∧
      (s.run (calls.map Prod.fst)).progress.map Progress.done =
        s.progress.mapIdx fun n p => p.done ++ callsOf n calls := by
  induction calls generalizing s with
  | nil => exact ⟨rfl, List.ext_getElem? fun n => by simp [run, callsOf]⟩
  | cons call calls ih =>
    obtain ⟨n, w⟩ := call
    have hn := h n
    rw [callsOf_cons_self] at hn
    cases hp : s.progress[n]? with
    | none => simp [hp] at hn
    | some p =>
      obtain ⟨rest, hrest⟩ := hn
      have hleft : p.left = w :: (callsOf n calls ++ rest) := by simpa [hp] using hrest.symm
      have hstep := step_of_left hp hleft
      have hlt : n < s.progress.length := (List.getElem?_eq_some_iff.mp hp).1
      -- the other writers have left what they had, and this one has one write less
      obtain ⟨hbitmap, hdone⟩ := ih (s := s.step n) fun m => by
        by_cases hnm : n = m
        · subst hnm
          simp [hstep, hlt]
        · have hm := h m
          rw [callsOf_cons_of_ne hnm] at hm
          simpa [hstep, List.getElem?_set, hnm] using hm
      refine ⟨hbitmap.trans (by rw [hstep]; rfl), hdone.trans ?_⟩
      rw [hstep]
      apply List.ext_getElem?
      intro m
      by_cases hnm : n = m
      · subst hnm
        simp [hlt, (List.getElem?_eq_some_iff.mp hp).2, callsOf_cons_self]
      · simp [hnm, callsOf_cons_of_ne hnm]

/-- The same for writers that have not begun, up to any moment of an interleaving. -/
theorem run_interleaving (a : Bitmap) {jobs : List (List Write)} {calls : List (Nat × Write)}
    (h : Interleaving jobs calls) {before : List (Nat × Write)} (hbefore : before <+: calls) :
    ((start a jobs).run (before.map Prod.fst)).bitmap = (a.runWrites (before.map Prod.snd)).2 ∧
      ((start a jobs).run (before.map Prod.fst)).progress.map Progress.done =
        jobs.mapIdx fun n _ => callsOf n before := by
  obtain ⟨hbitmap, hdone⟩ := run_calls (s := start a jobs) before fun n => by
    have hjobs : (start a jobs).progress.map Progress.left = jobs := by
      rw [start, List.map_map]
      exact List.map_id jobs
    rw [hjobs, ← h n]
    exact callsOf_prefix hbefore n
  refine ⟨hbitmap, hdone.trans ?_⟩
  apply List.ext_getElem?
  intro n
  rw [List.getElem?_mapIdx, List.getElem?_mapIdx, start, List.getElem?_map, Option.map_map]
  rfl

end Writers

end Bitmap

namespace Session

/--
**Writers on flags of their own do not disturb each other.**

Writers share a bitmap of a reachable session, and no two of their jobs write to the same flag.
Whoever goes next, at every moment each writer has made the first writes of its job, the words are
those that these writes leave when one writer goes after the other, and each writer has been
answered as if it were alone. So the words are the same in the end whatever the order was, as are
the answers, and they are those of the command that runs the jobs. Every interleaving of the jobs is
among these runs.
-/
theorem disjoint_writers {w : Session} (hw : Reachable w) {name : String} {a : Bitmap}
    (ha : w.slot name = some a) {jobs : List (List Bitmap.Write)}
    (hjobs : Bitmap.DisjointJobs jobs) :
    (∀ schedule : List Nat, ∀ s, s = (Bitmap.Writers.start a jobs).run schedule →
      s.progress.map (fun p => p.done ++ p.left) = jobs ∧
      s.bitmap = (a.runJobs (s.progress.map Bitmap.Progress.done)).2 ∧
      (∀ p ∈ s.progress, p.answers = (a.runWrites p.done).1) ∧
      (s.Finished → s.bitmap = (a.runJobs jobs).2 ∧
        s.progress.map Bitmap.Progress.answers = jobs.map fun job => (a.runWrites job).1)) ∧
    (∀ calls : List (Nat × Bitmap.Write), Bitmap.Interleaving jobs calls →
      (∀ before, before <+: calls →
        ((Bitmap.Writers.start a jobs).run (before.map Prod.fst)).bitmap =
          (a.runWrites (before.map Prod.snd)).2 ∧
        (a.runWrites (before.map Prod.snd)).2 =
          (a.runJobs (jobs.mapIdx fun n _ => Bitmap.callsOf n before)).2) ∧
      ((Bitmap.Writers.start a jobs).run (calls.map Prod.fst)).Finished ∧
      (a.runWrites (calls.map Prod.snd)).2 = (a.runJobs jobs).2) ∧
    w.step (.runJobs name jobs) =
      (.plain (.flagLists (jobs.map fun job => (a.runWrites job).1)),
        w.put name (some (a.runJobs jobs).2)) := by
  have hwf : a.WellFormed := hw.wellFormed name a ha
  have hrun : ∀ schedule, ((Bitmap.Writers.start a jobs).run schedule).Consistent a jobs :=
    fun schedule => (Bitmap.Writers.consistent_start a jobs).run hwf hjobs schedule
  refine ⟨?_, ?_, ?_⟩
  · rintro schedule s rfl
    have hs := hrun schedule
    refine ⟨hs.jobs_eq, hs.bitmap_eq, hs.answers_eq, fun hfinished => ⟨?_, ?_⟩⟩
    · rw [hs.bitmap_eq, hs.map_done hfinished]
    · exact hs.map_answers hfinished
  · intro calls hcalls
    have hmoment : ∀ before, before <+: calls →
        ((Bitmap.Writers.start a jobs).run (before.map Prod.fst)).bitmap =
          (a.runWrites (before.map Prod.snd)).2 ∧
        (a.runWrites (before.map Prod.snd)).2 =
          (a.runJobs (jobs.mapIdx fun n _ => Bitmap.callsOf n before)).2 := by
      intro before hbefore
      obtain ⟨hbitmap, hdone⟩ := Bitmap.Writers.run_interleaving a hcalls hbefore
      exact ⟨hbitmap, by rw [← hbitmap, (hrun _).bitmap_eq, hdone]⟩
    obtain ⟨-, hdone⟩ := Bitmap.Writers.run_interleaving a hcalls List.prefix_rfl
    have hend := (hmoment calls List.prefix_rfl).2
    rw [hcalls.mapIdx_callsOf] at hdone hend
    exact ⟨hmoment, (hrun _).finished hdone, hend⟩
  · simp only [step, ha, Bitmap.runJobs_fst]

/--
Two writers in one word, of which the second makes its first write before the first has begun and
its last one out of range.
-/
theorem disjoint_writers_one_word :
    ∃ w : Session, Reachable w ∧ w.slot "s" = some (Bitmap.zeroed 70) ∧
      Bitmap.DisjointJobs [[⟨0, true⟩, ⟨64, true⟩, ⟨0, false⟩], [⟨1, true⟩, ⟨200, true⟩]] ∧
      ((Bitmap.Writers.start (Bitmap.zeroed 70)
        [[⟨0, true⟩, ⟨64, true⟩, ⟨0, false⟩], [⟨1, true⟩, ⟨200, true⟩]]).run [1, 0, 0]).bitmap =
          ((Bitmap.zeroed 70).runJobs [[⟨0, true⟩, ⟨64, true⟩], [⟨1, true⟩]]).2 ∧
      (w.step (.runJobs "s"
        [[⟨0, true⟩, ⟨64, true⟩, ⟨0, false⟩], [⟨1, true⟩, ⟨200, true⟩]])).1 =
          .plain (.flagLists [[true, true, true], [true, false]]) := by
  have hreach : Reachable (start.step (.create "s" 70)).2 := .step _ .start
  have hslot : (start.step (.create "s" 70)).2.slot "s" = some (Bitmap.zeroed 70) :=
    slot_put_self _ _ _
  have hjobs : Bitmap.DisjointJobs
      [[⟨0, true⟩, ⟨64, true⟩, ⟨0, false⟩], [⟨1, true⟩, ⟨200, true⟩]] := by decide
  obtain ⟨hschedules, -, hcommand⟩ := disjoint_writers hreach hslot hjobs
  refine ⟨_, hreach, hslot, hjobs, (hschedules [1, 0, 0] _ rfl).2.1, ?_⟩
  rw [hcommand]
  rfl

end Session

end PackedBits
