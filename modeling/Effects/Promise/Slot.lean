import Effects.Cell

/-!
A promise is pending, with those who wait for it, until it is resolved once with a value or an
error. An operation runs in atomic steps: it reads the state, tries to replace what it read by a
compare-and-set, starting over if that fails, and then notifies one after the other those who
waited.
-/

namespace Effects.Promise

structure Joiner (κ : Type) where
  id : Nat
  callback : κ
  deriving DecidableEq

inductive State (ε α κ : Type) where
  | pending (joiners : List (Joiner κ))
  | complete (value : α)
  | errored (error : ε)
  deriving DecidableEq

inductive Request (ε α κ : Type) where
  | complete (value : α)
  | fail (error : ε)
  | get (callback : κ)
  | tryGet
  | leave (id : Nat)

inductive Answer (ε α : Type) where
  | served
  | queued (id : Nat)
  | flag (b : Bool)
  | resolution (r : Option (Except ε α))

abbrev Call (ε α κ : Type) := κ × Except ε α

/-- Where an operation stands. -/
inductive Phase (ε α κ : Type) where
  | reading
  | writing (seen : Cell (State ε α κ)) (next : State ε α κ) (calls : List (Call ε α κ))
      (answer : Answer ε α)
  | notifying (calls : List (Call ε α κ)) (answer : Answer ε α)
  | done (answer : Answer ε α)

structure Slot (ε α κ : Type) where
  cell : Cell (State ε α κ)
  nextId : Nat
  cancelable : Bool

variable {ε α κ : Type}

namespace State

def resolved (r : Except ε α) : State ε α κ :=
  match r with
  | .ok a => .complete a
  | .error e => .errored e

def resolution? : State ε α κ → Option (Except ε α)
  | .pending _ => none
  | .complete a => some (.ok a)
  | .errored e => some (.error e)

theorem resolution?_resolved (r : Except ε α) :
    (resolved r : State ε α κ).resolution? = some r := by
  cases r <;> rfl

def text : State ε α κ → String
  | .pending joiners => "pending (joiners: " ++ toString joiners.length ++ ")"
  | .complete _ => "complete"
  | .errored _ => "errored"

end State

namespace Slot

def new (cancelable : Bool) : Slot ε α κ := ⟨⟨.pending [], 0⟩, 0, cancelable⟩

def state (s : Slot ε α κ) : State ε α κ := s.cell.value

def stateText (s : Slot ε α κ) : String := s.state.text

def text (s : Slot ε α κ) : String := "Promise \x7b state: \"" ++ s.stateText ++ "\" \x7d"

end Slot

namespace Request

/-- The phase after the state was read in order to resolve the promise. -/
def resolve (s : Slot ε α κ) (r : Except ε α) : Phase ε α κ :=
  match s.state with
  | .pending joiners =>
      .writing s.cell (.resolved r) (joiners.map fun j => (j.callback, r)) (.flag true)
  | _ => .done (.flag false)

/-- The phase after the state was read. -/
def serve (s : Slot ε α κ) : Request ε α κ → Slot ε α κ × Phase ε α κ
  | .complete a => (s, resolve s (.ok a))
  | .fail e => (s, resolve s (.error e))
  | .tryGet => (s, .done (.resolution s.state.resolution?))
  | .get callback =>
      match s.state with
      | .pending joiners =>
          ({ s with nextId := s.nextId + 1 },
            .writing s.cell (.pending (joiners ++ [⟨s.nextId, callback⟩])) [] (.queued s.nextId))
      | .complete a => (s, .notifying [(callback, .ok a)] .served)
      | .errored e => (s, .notifying [(callback, .error e)] .served)
  | .leave id =>
      match s.state with
      | .pending joiners =>
          if joiners.any (·.id == id) then
            (s, .writing s.cell (.pending (joiners.filter (·.id != id))) [] (.flag true))
          else (s, .done (.flag false))
      | _ => (s, .done (.flag false))

end Request

namespace Phase

/-- One atomic step of the operation that `r` asks for: the promise and the phase after it, and the
callback called in it. -/
def step (r : Request ε α κ) (s : Slot ε α κ) :
    Phase ε α κ → Slot ε α κ × Phase ε α κ × Option (Call ε α κ)
  | .reading =>
      let (s, p) := r.serve s
      (s, p, none)
  | .writing seen next calls answer =>
      match s.cell.compareAndSet seen next with
      | (cell, true) => ({ s with cell }, .notifying calls answer, none)
      | (_, false) => (s, .reading, none)
  | .notifying [] answer => (s, .done answer, none)
  | .notifying (call :: rest) answer => (s, .notifying rest answer, some call)
  | .done answer => (s, .done answer, none)

end Phase
end Effects.Promise
