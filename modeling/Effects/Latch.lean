/-!
Where a thread waits for another: a latch holds at most one item, put there by the first who sets
it and taken out by the one who waits; a gate is opened once and then lets everyone through.
-/

namespace Effects

inductive Latch (α : Type) where
  | empty
  | full (item : α)
  | drained
  deriving DecidableEq

namespace Latch

variable {α : Type}

/-- The first item put in stays; whether this was it. -/
def set (item : α) : Latch α → Latch α × Bool
  | .empty => (.full item, true)
  | l => (l, false)

def item? : Latch α → Option α
  | .full a => some a
  | _ => none

def isFull (l : Latch α) : Bool := l.item?.isSome

theorem set_fst_of_isFull {l : Latch α} (h : l.isFull = true) (a : α) : l.set a = (l, false) := by
  cases l <;> simp_all [set, isFull, item?]

end Latch

inductive Gate where
  | closed
  | opened
  deriving DecidableEq

def Gate.isOpen : Gate → Bool
  | .closed => false
  | .opened => true

end Effects
