import PackedBits.About
import PackedBits.Slot
import PackedBits.Bitmap.Binary
import PackedBits.Bitmap.Json
import PackedBits.Bitmap.Writers

/-!
# Sessions

A session has slots with names, all of them without a bitmap at first. A command works on one or two
of them and has an outcome: a reply, or the error of a decoder. A command that fails changes nothing.

Some commands need a bitmap. In a slot that has none they only reply so.
-/

namespace PackedBits

/-- The slots of a session, by name. -/
structure Session where
  slot : String → Slot

/-- What can be asked of a session. A result that is kept goes to slot `dest`. -/
inductive Command where
  | about
  | create (dest : String) (bits : UInt64)
  | createEmpty (dest : String)
  | clear (dest : String)
  | fromBytes (dest : String) (bits : UInt64) (bytes : List UInt8)
  | fromJson (dest : String) (text : String)
  | fromJsonOption (dest : String) (text : String)
  | fromBinary (dest : String) (bytes : List UInt8)
  | fromBinaryOption (dest : String) (bytes : List UInt8)
  | size (s : String)
  | test (s : String) (i : UInt64)
  | set (s : String) (i : UInt64) (v : Bool)
  | setAll (s : String) (indices : List UInt64) (v : Bool)
  /-- Sets every `step`-th flag from index `first` on and below index `limit`. -/
  | fill (s : String) (first limit step : UInt64) (v : Bool)
  | isEmpty (s : String)
  | isFull (s : String)
  | toBytes (s : String)
  | render (s : String) (indent : String)
  | copy (s dest : String)
  | update (s src : String)
  | equal (s other : String)
  /-- Asks what is certain about a pick whose draws are not known. -/
  | pickAny (s : String)
  /-- Asks which indices may come up in `n` picks whose draws are not known. -/
  | pickOften (s : String) (n : Nat)
  | toJsonOption (s : String)
  | toBinaryOption (s : String)
  | get (s : String) (i : UInt64)
  | copyBits (s : String) (bits : UInt64) (dest : String)
  | trueIndices (s : String)
  | countTrue (s : String)
  | pick (s : String) (draws : List UInt32)
  | display (s : String)
  | inspect (s : String)
  | inspectLines (s : String)
  | toJson (s : String)
  | toBinary (s : String)
  /-- Begins to encode and breaks off. -/
  | breakOff (s : String)
  | runJobs (s : String) (jobs : List (List Bitmap.Write))

/-- What a session replies. -/
inductive Reply where
  | nothing
  | about
  /-- A bitmap is needed and there is none. -/
  | absent
  | flag (v : Bool)
  | flagOption (v : Option Bool)
  | flags (vs : List Bool)
  | flagLists (vss : List (List Bool))
  | count (n : Nat)
  | indices (is : List UInt64)
  | prospect (p : Prospect)
  | pick (p : Pick)
  | text (s : String)
  | bytes (bs : List UInt8)

/-- The outcome of a command, and the events that arose. -/
abbrev Response := Logged (Except DecodeError Reply)

/-- A reply without events. -/
def Response.plain (r : Reply) : Response := ⟨.ok r, []⟩

namespace Command

/-- The slot that a command may change. -/
def target : Command → Option String
  | create dest _ | createEmpty dest | clear dest | fromBytes dest _ _ | fromJson dest _
  | fromJsonOption dest _ | fromBinary dest _ | fromBinaryOption dest _ | copy _ dest
  | copyBits _ _ dest => some dest
  | set s _ _ | setAll s _ _ | fill s _ _ _ _ | update s _ | breakOff s | runJobs s _ => some s
  | _ => none

/-- The indices from `first` on and below `limit`, `step` apart. -/
def indicesFrom (first limit step : UInt64) : List UInt64 :=
  let count := (limit.toNat - first.toNat + step.toNat - 1) / step.toNat
  (List.range' first.toNat count step.toNat).map UInt64.ofNat

end Command

namespace Session

/-- A session before its first command. -/
def start : Session := ⟨fun _ => none⟩

/-- A session with other content in one slot. -/
def put (w : Session) (name : String) (content : Slot) : Session :=
  ⟨fun other => if other = name then content else w.slot other⟩

@[simp] theorem slot_put_self (w : Session) (name : String) (content : Slot) :
    (w.put name content).slot name = content := by
  simp [put]

theorem slot_put_of_ne (w : Session) {name other : String} (content : Slot) (h : other ≠ name) :
    (w.put name content).slot other = w.slot other := by
  simp [put, h]

/-- Storing what a slot holds already changes nothing. -/
theorem put_slot (w : Session) {name : String} {content : Slot} (h : w.slot name = content) :
    w.put name content = w := by
  have hslot : (fun other => if other = name then content else w.slot other) = w.slot := by
    funext other
    split
    · next ho => rw [ho, h]
    · rfl
  exact congrArg Session.mk hslot

/-- Of two contents stored in one slot the second is left. -/
theorem put_put (w : Session) (name : String) (x y : Slot) :
    (w.put name x).put name y = w.put name y := by
  refine congrArg Session.mk (funext fun other => ?_)
  split
  · rfl
  · next ho => exact w.slot_put_of_ne x ho

/-! ## Kinds of commands -/

/-- Stores a slot and replies whether it holds a bitmap. -/
def store (w : Session) (dest : String) (content : Slot) : Response × Session :=
  (.plain (.flag content.isSome), w.put dest content)

/-- Stores what a decoder gave, if it gave anything. -/
def decoded (w : Session) (dest : String) (x : Logged (Except DecodeError Slot)) :
    Response × Session :=
  match x.value with
  | .error e => (⟨.error e, x.events⟩, w)
  | .ok content => (⟨.ok (.flag content.isSome), x.events⟩, w.put dest content)

/-- Replies, and changes nothing. -/
def ask (w : Session) (r : Reply) : Response × Session := (.plain r, w)

/-- Replies about a bitmap, if there is one. -/
def askPresent (w : Session) (s : String) (f : Bitmap → Reply) : Response × Session :=
  w.ask ((w.slot s).elim .absent f)

/-! ## Steps -/

/-- What a command does. -/
def step (w : Session) : Command → Response × Session
  | .about => w.ask .about
  | .create dest bits => w.store dest (Bitmap.create? bits)
  | .createEmpty dest => w.store dest (some Bitmap.empty)
  | .clear dest => w.store dest none
  | .fromBytes dest bits bytes => w.decoded dest ⟨(Bitmap.ofBytes bits bytes).map some, []⟩
  | .fromJson dest text => w.decoded dest ((Bitmap.ofJson text).map (·.map some))
  | .fromJsonOption dest text => w.decoded dest (Bitmap.optionOfJson text)
  | .fromBinary dest bytes => w.decoded dest ((Bitmap.ofBinary bytes).map (·.map some))
  | .fromBinaryOption dest bytes => w.decoded dest (Bitmap.optionOfBinary bytes)
  | .size s => w.ask (.count (w.slot s).size.toNat)
  | .test s i => w.ask (.flag ((w.slot s).test i))
  | .set s i v =>
    let (found, content) := (w.slot s).set i v
    (.plain (.flag found), w.put s content)
  | .setAll s indices v =>
    let (answers, content) := (w.slot s).setAll v indices
    (.plain (.flags answers), w.put s content)
  | .fill s first limit step v =>
    let (answers, content) := (w.slot s).setAll v (Command.indicesFrom first limit step)
    (.plain (.count (answers.count true)), w.put s content)
  | .isEmpty s => w.ask (.flag (w.slot s).isEmpty)
  | .isFull s => w.ask (.flag (w.slot s).isFull)
  | .toBytes s => w.ask (.bytes (w.slot s).toBytes)
  | .render s indent => w.ask (.text ((w.slot s).render indent))
  | .copy s dest => w.store dest (w.slot s)
  | .update s src =>
    if s = src then w.ask .nothing
    else
      let x := (w.slot s).update (w.slot src)
      (⟨.ok .nothing, x.events⟩, w.put s x.value)
  | .equal s other => w.ask (.flag (w.slot s = w.slot other))
  | .pickAny s => w.ask (.prospect (w.slot s).prospect)
  | .pickOften s n => w.ask (.indices ((w.slot s).eligible n))
  | .toJsonOption s => w.ask (.text (Bitmap.optionToJson (w.slot s)))
  | .toBinaryOption s => w.ask (.bytes (Bitmap.optionToBinary (w.slot s)))
  | .get s i => w.askPresent s fun a => .flagOption (a.get? i)
  | .copyBits s bits dest =>
    match w.slot s with
    | none => w.ask .absent
    | some a =>
      let x := a.copyBits bits
      (⟨.ok (.flag x.value.isSome), x.events⟩, w.put dest x.value)
  | .trueIndices s => w.askPresent s fun a => .indices a.trueIndices
  | .countTrue s => w.askPresent s fun a => .count a.countTrue
  | .pick s draws => w.askPresent s fun a => .pick (a.pick draws)
  | .display s => w.askPresent s fun a => .text (a.render "")
  | .inspect s => w.askPresent s fun a => .text a.inspect
  | .inspectLines s => w.askPresent s fun a => .text a.inspectLines
  | .toJson s => w.askPresent s fun a => .text a.toJson
  | .toBinary s => w.askPresent s fun a => .bytes a.toBinary
  | .breakOff s => w.askPresent s fun _ => .flag true
  | .runJobs s jobs =>
    match w.slot s with
    | none => w.ask .absent
    | some a =>
      let (answers, a) := a.runJobs jobs
      (.plain (.flagLists answers), w.put s (some a))

/-- Runs commands in order. The answers are the outcomes. -/
def run (w : Session) : List Command → List Response × Session
  | [] => ([], w)
  | c :: rest =>
    let (r, w) := w.step c
    let (rs, w) := w.run rest
    (r :: rs, w)

theorem run_cons (w : Session) (c : Command) (cs : List Command) :
    w.run (c :: cs) = ((w.step c).1 :: ((w.step c).2.run cs).1, ((w.step c).2.run cs).2) := rfl

end Session

end PackedBits
