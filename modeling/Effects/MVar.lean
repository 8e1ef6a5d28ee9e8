import Effects.Effect

/-!
Effects on a slot that is empty or full. Waiters of each kind are served in the order in which they
came; at a cancelable slot one whose run is canceled leaves the queue.
-/

namespace Effects

structure MVar (α : Type) where
  id : SlotId
  cancelable : Bool
  deriving DecidableEq

variable {ε α : Type} [Datum ε] [Datum α]

namespace MVar

instance : Datum (MVar α) where
  write m := .arr [.nat m.id, .bool m.cancelable]
  read v := ⟨v.parts.1.toNat, v.parts.2.truth⟩
  read_write m := by
    cases m with
    | mk id cancelable =>
        cases cancelable <;> simp [Value.parts, Value.nat, Value.toNat, Value.truth]

def create (contents : Contents Value LatchId) (cancelable : Bool) : Effect ε (MVar α) :=
  .delay do return ⟨(← Routine.perform (.openSlot contents cancelable)).toId, cancelable⟩

def empty (cancelable : Bool) : Effect ε (MVar α) := create (.empty [] []) cancelable

def of (a : α) (cancelable : Bool) : Effect ε (MVar α) := create (.full (write a) []) cancelable

def run (m : MVar α) (r : Request Value LatchId) : Routine (Answer Value) :=
  return (← Routine.perform (.slot m.id r .reading)).toSlot

/-- Leaves the queue; a waiter that was served before keeps what it got. -/
def leave (m : MVar α) (id : Nat) (callback : LatchId) : Code :=
  Routine.task do
    if (← m.run (.leave id)) = .flag true then callback.interrupt

def wait {β : Type} (m : MVar α) (r : LatchId → Request Value LatchId) : Effect ε β :=
  .register fun callback => do
    match ← m.run (r callback) with
    | .queued id => return if m.cancelable then some (m.leave id callback) else none
    | _ => return none

/-- Fills the slot, waiting while it is full. -/
def put (m : MVar α) (a : α) : Effect ε Unit := m.wait (.put (write a))

/-- Empties the slot, waiting while it is empty. -/
def take (m : MVar α) : Effect ε α := m.wait .take

/-- The value in the slot, which stays there, waiting while there is none. -/
def read (m : MVar α) : Effect ε α := m.wait .read

def flag (m : MVar α) (r : Request Value LatchId) : Routine Bool := do
  return (← m.run r) = .flag true

def item (m : MVar α) (r : Request Value LatchId) : Routine (Option α) := do
  match ← m.run r with
  | .item a => return a.map Datum.read
  | _ => return none

/-- Fills the slot if it is empty; whether it was. -/
def tryPut (m : MVar α) (a : α) : Effect ε Bool := .delay (m.flag (.tryPut (write a)))

def tryTake (m : MVar α) : Effect ε (Option α) := .delay (m.item .tryTake)

def tryRead (m : MVar α) : Effect ε (Option α) := .delay (m.item .tryRead)

def isEmpty (m : MVar α) : Effect ε Bool := .delay (m.flag .isEmpty)

def describe (m : MVar α) : Routine Value :=
  return (← Routine.perform (.describeSlot m.id)).toValue

/-- Blocks until the slot is in the state with that text. -/
def awaitState (m : MVar α) (state : String) : Routine Unit := do
  let _ ← Routine.perform (.awaitSlot m.id state)

end MVar
end Effects
