import Effects.Effect

/-!
Fibers: effects that were started and go on by themselves. A fiber has a connection of its own, so
it is not canceled with the effect that started it.
-/

namespace Effects

structure Fiber (ε α : Type) where
  id : FiberId
  deriving DecidableEq

variable {ε δ α : Type}

instance : Datum (Fiber ε α) where
  write f := .nat f.id
  read v := ⟨v.toNat⟩
  read_write f := by simp [Value.nat, Value.toNat]

namespace Fiber

/-- Starts the effect on the context; on the inline one it runs to its end first. -/
def spawn (e : Effect ε α) (c : ContextId) : Routine (Fiber ε α) := do
  let id ← FiberId.fresh
  Routine.spawn e.node ⟨c, ← id.connection⟩ id.complete
  return ⟨id⟩

/-- Waits for the exit of the fiber. Canceling the wait leaves the fiber alone. -/
def join [Datum ε] [Datum α] (f : Fiber ε α) : Effect ε α :=
  .register fun callback => do
    match ← f.id.listen callback with
    | .ended exit =>
        callback.deliver exit
        return none
    | .taken =>
        callback.interrupt
        return none
    | .waiting =>
        return some (Routine.task do
          if ← f.id.detach then callback.interrupt)

/-- Cancels the fiber and waits until it has stopped; the wait cannot be interrupted. -/
def cancel [Datum δ] (f : Fiber ε α) : Effect δ Unit :=
  .delay do
    (← f.id.connection).cancel
    f.id.awaitFinished

def text (f : Fiber ε α) (finished : Bool) : String :=
  "Fiber \x7b id: " ++ toString f.id ++ ", finished: " ++ (if finished then "true" else "false") ++
    " \x7d"

end Fiber

def Effect.startOn [Datum δ] (e : Effect ε α) (c : ContextId) : Effect δ (Fiber ε α) :=
  .delay (Fiber.spawn e c)

def Effect.start [Datum δ] (e : Effect ε α) : Effect δ (Fiber ε α) := e.startOn .global

end Effects
