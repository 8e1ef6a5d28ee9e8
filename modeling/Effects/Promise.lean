import Effects.Effect

/-!
Effects on a promise, which is resolved once. Those who get it wait until then; at a cancelable
promise one whose run is canceled leaves the queue.
-/

namespace Effects

structure Promise (ε α : Type) where
  id : PromiseId
  cancelable : Bool
  deriving DecidableEq

variable {ε δ α : Type} [Datum ε] [Datum δ] [Datum α]

namespace Promise

instance : Datum (Promise ε α) where
  write p := .arr [.nat p.id, .bool p.cancelable]
  read v := ⟨v.parts.1.toNat, v.parts.2.truth⟩
  read_write p := by
    cases p with
    | mk id cancelable =>
        cases cancelable <;> simp [Value.parts, Value.nat, Value.toNat, Value.truth]

def create (cancelable : Bool) : Effect δ (Promise ε α) :=
  .delay do return ⟨(← Routine.perform (.openPromise cancelable)).toId, cancelable⟩

def run (p : Promise ε α) (r : Request Value Value LatchId) : Routine (Answer Value Value) :=
  return (← Routine.perform (.promise p.id r .reading)).toPromise

def flag (p : Promise ε α) (r : Request Value Value LatchId) : Routine Bool := do
  match ← p.run r with
  | .flag b => return b
  | _ => return false

/-- The request to resolve a promise with a value or an error. -/
def resolution (r : Except ε α) : Request Value Value LatchId :=
  match r with
  | .ok a => .complete (write a)
  | .error e => .fail (write e)

/-- Resolves the promise, and fails if it was resolved before. -/
def resolve (p : Promise ε α) (r : Except ε α) : Effect PromiseError Unit :=
  .invoke do return if ← p.flag (resolution r) then .ok () else .error .alreadyFulfilled

/-- Resolves the promise if that was not done before; whether it was this. -/
def tryResolve (p : Promise ε α) (r : Except ε α) : Effect δ Bool := .delay (p.flag (resolution r))

def leave (p : Promise ε α) (id : Nat) (callback : LatchId) : Code :=
  Routine.task do
    if ← p.flag (.leave id) then callback.interrupt

/-- Waits for the resolution; an error is raised. -/
def get (p : Promise ε α) : Effect ε α :=
  .register fun callback => do
    match ← p.run (.get callback) with
    | .queued id => return if p.cancelable then some (p.leave id callback) else none
    | _ => return none

def tryGet (p : Promise ε α) : Effect δ (Option (Except ε α)) :=
  .delay do
    match ← p.run .tryGet with
    | .resolution r => return r.map fun
        | .ok v => .ok (read v)
        | .error e => .error (read e)
    | _ => return none

def describe (p : Promise ε α) : Routine Value :=
  return (← Routine.perform (.describePromise p.id)).toValue

/-- Blocks until the promise is in the state with that text. -/
def awaitState (p : Promise ε α) (state : String) : Routine Unit := do
  let _ ← Routine.perform (.awaitPromise p.id state)

end Promise
end Effects
