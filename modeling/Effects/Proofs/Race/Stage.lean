import Effects.Proofs.Race.Scene
import Effects.Proofs.Race.Shared
import Effects.Proofs.Run.Ahead

/-!
How far a racer has come, and what is then known of its fiber and of what has been seen of it.
-/

namespace Effects

open Routine

namespace Racing

/-- What the winner delivers. -/
def result (wrap : Except Value Value → Value) : Delivery → Except String Reply
  | .ok (.completed v) => .ok (.outcome (.completed (wrap (.ok v))))
  | .ok (.errored e) => .ok (.outcome (.completed (wrap (.error e))))
  | .ok .canceled => .ok (.outcome .canceled)
  | .error message => .error message

/-- What a racer has been given on its way. -/
structure Lane where
  index : Nat
  fiber : FiberId
  cell : CellId
  callback : LatchId
  wrap : Except Value Value → Value
  node : Node
  run : Run

namespace Lane

variable (x : Lane) (exit : Delivery)

def opening : Code := .perform (.fiber x.fiber .openGate) fun _ => .give .unit

def handing (joiner : LatchId) : Code :=
  .perform (.settle joiner (exit.map .outcome)) fun _ => x.opening

def recording : Code :=
  .perform (.fiber x.fiber (.complete exit)) fun r =>
    match r.toJoiner with
    | some joiner => x.handing exit joiner
    | none => x.opening

def calling : Code := .perform (.settle x.callback (result x.wrap exit)) fun _ => .give .unit

def writing (seen : Cell (Option Nat)) : Code :=
  .perform (.writeCell x.cell seen x.index) fun r =>
    if r.toFlag then x.calling exit else x.recording exit

def reading : Code :=
  .perform (.readCell x.cell) fun r =>
    if r.toSnapshot.value.isSome then x.recording exit else x.writing exit r.toSnapshot

def body : Code := .perform (.drive (.focus x.node []) x.run) .give

def caught (r : Reply) : Code := x.reading r.toDelivery

def task : Code := .perform (.attempt x.body) x.caught

theorem complete_eq : x.fiber.complete exit (fun _ => .give .unit) = x.recording exit := by
  show Code.perform _ _ = Code.perform _ _
  congr 1
  funext r
  cases r with
  | joiner callback => cases callback <;> rfl
  | _ => rfl

/-- Who has won calls back, and who has lost records its exit. -/
theorem settled_eq (won : Bool) :
    (if won then
      match exit with
      | .ok (.completed v) => x.callback.succeed (x.wrap (.ok v))
      | .ok (.errored e) => x.callback.succeed (x.wrap (.error e))
      | .ok .canceled => x.callback.interrupt
      | .error message => x.callback.deliver (.error message)
    else x.fiber.complete exit : Routine Unit) (fun _ => .give .unit) =
      if won then x.calling exit else x.recording exit := by
  cases won with
  | true => rcases exit with message | v | e | _ <;> rfl
  | false => exact x.complete_eq exit

theorem stopped_eq :
    Race.stopped x.cell x.index x.fiber x.callback x.wrap exit (fun _ => .give .unit) =
      x.reading exit := by
  have hclaim : Race.stopped x.cell x.index x.fiber x.callback x.wrap exit
      (fun _ => .give .unit) =
        x.cell.claim x.index fun won => if won then x.calling exit else x.recording exit :=
    congrArg (x.cell.claim x.index) (funext fun won => x.settled_eq exit won)
  rw [hclaim]
  show Code.perform _ _ = Code.perform _ _
  congr 1
  funext r
  cases r with
  | snapshot seen => obtain ⟨value, version⟩ := seen; cases value <;> rfl
  | _ => rfl

end Lane

/-- Code that has nothing left to do. -/
def Gives (c : Code) : Prop := ∃ r, c = .give r

theorem gives_stable : Code.Stable Gives where
  next h := nomatch h.choose_spec
  again _ h := nomatch h.choose_spec

/-- How far a racer has come. -/
inductive Phase where
  | dispatched
  | beginning
  | running
  | reading (exit : Delivery)
  | writing (exit : Delivery)
  | calling (exit : Delivery)
  | won (exit : Delivery)
  | recording (exit : Delivery)
  | handing (exit : Delivery) (joiner : LatchId)
  | opening (exit : Delivery) (joiner : Option LatchId)
  | lost (exit : Delivery) (joiner : Option LatchId)

namespace Phase

/-- What the racer does. -/
def At (x : Lane) (a : Activity) : Phase → Prop
  | .dispatched => a = ⟨.code x.task, []⟩
  | .beginning => a = ⟨.code x.body, [.attempt x.caught]⟩
  | .running => ∃ b, Ahead Gives b ∧ a = b.atop [.attempt x.caught]
  | .reading exit => a = ⟨.code (x.reading exit), []⟩
  | .writing exit => a = ⟨.code (x.writing exit ⟨none, 0⟩), []⟩
  | .calling exit => a = ⟨.code (x.calling exit), []⟩
  | .recording exit => a = ⟨.code (x.recording exit), []⟩
  | .handing exit joiner => a = ⟨.code (x.handing exit joiner), []⟩
  | .opening _ _ => a = ⟨.code x.opening, []⟩
  | .won _ | .lost _ _ => a = ⟨.code (.give .unit), []⟩

/-- What has been seen of the racer. -/
def trace (x : Lane) : Phase → List Sign
  | .dispatched | .beginning => []
  | .running => [.began x.index (.focus x.node []) x.run]
  | .reading exit | .writing exit | .recording exit =>
      [.began x.index (.focus x.node []) x.run, .ended x.index exit]
  | .calling exit =>
      [.began x.index (.focus x.node []) x.run, .ended x.index exit, .claimed x.index]
  | .won exit =>
      [.began x.index (.focus x.node []) x.run, .ended x.index exit, .claimed x.index,
        .called x.index x.callback (result x.wrap exit)]
  | .handing exit _ =>
      [.began x.index (.focus x.node []) x.run, .ended x.index exit,
        .recorded x.index x.fiber exit]
  | .opening exit joiner =>
      [.began x.index (.focus x.node []) x.run, .ended x.index exit,
        .recorded x.index x.fiber exit] ++
        joiner.toList.map fun joiner => .called x.index joiner (exit.map .outcome)
  | .lost exit joiner =>
      [.began x.index (.focus x.node []) x.run, .ended x.index exit,
        .recorded x.index x.fiber exit] ++
        (joiner.toList.map fun joiner => .called x.index joiner (exit.map .outcome)) ++
        [.opened x.index x.fiber]

/-- Another racer has claimed. -/
def Beaten : Phase → Prop
  | .recording _ | .handing _ _ | .opening _ _ | .lost _ _ => True
  | _ => False

end Phase

/-- A fiber that nothing has been recorded on. -/
structure Vacant (l : LatchId) (gone : List Delivery) (s : Fiber.State) : Prop where
  gate : s.gate = .closed
  gone : gone = []
  slot : ∃ joiner, s.slot = .running joiner ∧ joiner ≠ some l

/-- Where the exit of a fiber is that has been recorded: with the joiner that waited for it, else in
the slot or with whoever has taken it out. -/
def Holding (exit : Delivery) (gone : List Delivery) (slot : FiberSlot Delivery LatchId) :
    Option LatchId → Prop
  | some _ => slot = .finished none ∧ gone = []
  | none => slot = .finished (some exit) ∧ gone = [] ∨ slot = .finished none ∧ gone = [exit]

/-- The state of the racer's fiber. -/
def Phase.Fiber (l : LatchId) (gone : List Delivery) (s : Fiber.State) : Phase → Prop
  | .handing exit joiner =>
      s.gate = .closed ∧ joiner ≠ l ∧ Holding exit gone s.slot (some joiner)
  | .opening exit joiner =>
      s.gate = .closed ∧ joiner ≠ some l ∧ Holding exit gone s.slot joiner
  | .lost exit joiner => s.gate = .opened ∧ joiner ≠ some l ∧ Holding exit gone s.slot joiner
  | _ => Vacant l gone s

/-- What is known of a racer. -/
structure Stage (x : Lane) (w : World) (seen : List Sign) (a : Activity) (phase : Phase) : Prop where
  at_ : phase.At x a
  trace : course x.index seen = phase.trace x
  fiber : ∃ s, w.fibers[x.fiber]? = some s ∧ s.connection = x.run.connection ∧
    phase.Fiber x.callback (taken x.fiber seen) s
  beaten : phase.Beaten → claims seen ≠ []

/-- The cell that is claimed. -/
def Claimed (k : CellId) (w : World) (seen : List Sign) : Prop :=
  claims seen = [] ∧ w.cells[k]? = some ⟨none, 0⟩ ∨
    ∃ i, claims seen = [i] ∧ w.cells[k]? = some ⟨some i, 1⟩

section Seen

variable (i : Nat) (f : FiberId) (a b : List Sign)

theorem course_append : course i (a ++ b) = course i a ++ course i b := List.filter_append ..

theorem claims_append : claims (a ++ b) = claims a ++ claims b := List.filterMap_append

theorem taken_append : taken f (a ++ b) = taken f a ++ taken f b := List.filterMap_append

end Seen

end Racing
end Effects
