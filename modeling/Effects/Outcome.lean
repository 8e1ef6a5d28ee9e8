/-!
How a computation ends: with a value, with a typed error, or stopped by cancellation.
-/

namespace Effects

inductive Outcome (ε α : Type) where
  | completed (value : α)
  | errored (error : ε)
  | canceled
  deriving DecidableEq

/-- How the use of a resource ended. -/
inductive ExitCase (ε : Type) where
  | completed
  | errored (error : ε)
  | canceled
  deriving DecidableEq

namespace Outcome

variable {ε α : Type}

def isCompleted : Outcome ε α → Bool
  | .completed _ => true
  | _ => false

def isErrored : Outcome ε α → Bool
  | .errored _ => true
  | _ => false

def isCanceled : Outcome ε α → Bool
  | .canceled => true
  | _ => false

def result? : Outcome ε α → Option (Except ε α)
  | .completed a => some (.ok a)
  | .errored e => some (.error e)
  | .canceled => none

def ofExcept : Except ε α → Outcome ε α
  | .ok a => .completed a
  | .error e => .errored e

theorem result?_ofExcept (r : Except ε α) : (ofExcept r).result? = some r := by
  cases r <;> rfl

theorem result?_eq_none_iff {o : Outcome ε α} : o.result? = none ↔ o = .canceled := by
  cases o <;> simp [result?]

def map {δ β : Type} (f : ε → δ) (g : α → β) : Outcome ε α → Outcome δ β
  | .completed a => .completed (g a)
  | .errored e => .errored (f e)
  | .canceled => .canceled

def exitCase : Outcome ε α → ExitCase ε
  | .completed _ => .completed
  | .errored e => .errored e
  | .canceled => .canceled

end Outcome

namespace ExitCase

variable {ε : Type}

def isCompleted : ExitCase ε → Bool
  | .completed => true
  | _ => false

def isCanceled : ExitCase ε → Bool
  | .canceled => true
  | _ => false

def map {δ : Type} (f : ε → δ) : ExitCase ε → ExitCase δ
  | .completed => .completed
  | .errored e => .errored (f e)
  | .canceled => .canceled

def error? : ExitCase ε → Option ε
  | .errored e => some e
  | _ => none

end ExitCase
end Effects
