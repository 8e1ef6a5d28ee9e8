import Effects.Fiber

/-!
Races. Every racer is a fiber; the first one to stop claims the race and its end is the end of the
race, while the others go on as fibers, to be handed out or canceled.
-/

namespace Effects

variable {ε α β γ : Type} [Datum ε] [Datum α] [Datum β] [Datum γ]

inductive OneOfThree (α β γ : Type) where
  | first (a : α)
  | second (b : β)
  | third (c : γ)
  deriving DecidableEq

instance : Datum (OneOfThree α β γ) where
  write
    | .first a => .tagged "first" (write a)
    | .second b => .tagged "second" (write b)
    | .third c => .tagged "third" (write c)
  read v :=
    match v.field? "first", v.field? "second" with
    | some a, _ => .first (read a)
    | none, some b => .second (read b)
    | none, none => .third (read (v.field "third"))
  read_write o := by cases o <;> simp [Value.tagged, Value.field, Value.field?]

namespace Race

/-- A racer that has stopped: the first one hands its end to the callback, a value or an error made
into a value by `wrap`; any other records it on its own fiber. -/
def stopped (claim : CellId) (index : Nat) (fiber : FiberId) (callback : LatchId)
    (wrap : Except Value Value → Value) (exit : Delivery) : Routine Unit := do
  if ← claim.claim index then
    match exit with
    | .ok (.completed v) => callback.succeed (wrap (.ok v))
    | .ok (.errored e) => callback.succeed (wrap (.error e))
    | .ok .canceled => callback.interrupt
    | .error message => callback.deliver (.error message)
  else fiber.complete exit

def fork (node : Node) (c : ContextId) (claim : CellId) (index : Nat) (fiber : FiberId)
    (callback : LatchId) (wrap : Except Value Value → Value) : Routine Unit := do
  Routine.spawn node ⟨c, ← fiber.connection⟩ (stopped claim index fiber callback wrap)

/-- Cancels the racers one after the other and then wakes the caller. -/
def token (fibers : List FiberId) (callback : LatchId) : Code :=
  Routine.task do
    Routine.forEach (fun f => do (← f.connection).cancel) fibers
    callback.interrupt

/-- Forks the racers in order; `wraps` says what the winner's end comes to, given all fibers. -/
def start (nodes : List Node) (c : ContextId)
    (wrap : List FiberId → Nat → Except Value Value → Value) (callback : LatchId) :
    Routine (Option Code) := do
  let claim ← CellId.fresh
  let fibers ← Routine.collect (fun _ => FiberId.fresh) nodes
  Routine.forEach
    (fun racer => fork racer.1.1 c claim racer.2 racer.1.2 callback (wrap fibers racer.2))
    (nodes.zip fibers).zipIdx
  return some (token fibers callback)

abbrev PairEnd (ε α β : Type) := (Except ε α × Fiber ε β) ⊕ (Fiber ε α × Except ε β)

def pairWrap (fibers : List FiberId) (index : Nat) (r : Except Value Value) : Value :=
  match fibers with
  | [a, b] =>
      let fiber := fun id => (⟨id⟩ : Fiber Value Value)
      match index with
      | 0 => write (.inl (r, fiber b) : PairEnd Value Value Value)
      | _ => write (.inr (fiber a, r) : PairEnd Value Value Value)
  | _ => .null

/-- Races two, the winner's typed error as a value. -/
def pairEnd (c : ContextId) (a : Effect ε α) (b : Effect ε β) : Effect ε (PairEnd ε α β) :=
  .register (start [a.node, b.node] c pairWrap)

abbrev TripleEnd (ε α β γ : Type) :=
  OneOfThree (Except ε α × Fiber ε β × Fiber ε γ) (Fiber ε α × Except ε β × Fiber ε γ)
    (Fiber ε α × Fiber ε β × Except ε γ)

def tripleWrap (fibers : List FiberId) (index : Nat) (r : Except Value Value) : Value :=
  match fibers with
  | [a, b, c] =>
      let fiber := fun id => (⟨id⟩ : Fiber Value Value)
      match index with
      | 0 => write (.first (r, fiber b, fiber c) : TripleEnd Value Value Value Value)
      | 1 => write (.second (fiber a, r, fiber c) : TripleEnd Value Value Value Value)
      | _ => write (.third (fiber a, fiber b, r) : TripleEnd Value Value Value Value)
  | _ => .null

def tripleEnd (x : ContextId) (a : Effect ε α) (b : Effect ε β) (c : Effect ε γ) :
    Effect ε (TripleEnd ε α β γ) :=
  .register (start [a.node, b.node, c.node] x tripleWrap)

end Race

open Race

/-- The winner's value and the loser as a fiber. If the winner fails, its error is raised and the
loser goes on. -/
def racePair (c : ContextId) (a : Effect ε α) (b : Effect ε β) :
    Effect ε ((α × Fiber ε β) ⊕ (Fiber ε α × β)) :=
  (pairEnd c a b).flatMap fun
    | .inl (.ok a, loser) => .pure (.inl (a, loser))
    | .inr (loser, .ok b) => .pure (.inr (loser, b))
    | .inl (.error e, _) => .raise e
    | .inr (_, .error e) => .raise e

/-- The winner's value; the loser is canceled before it is returned, or the error raised. -/
def race (c : ContextId) (a : Effect ε α) (b : Effect ε β) : Effect ε (α ⊕ β) :=
  (pairEnd c a b).flatMap fun
    | .inl (r, loser) => loser.cancel.followedBy (.ofExcept (r.map .inl))
    | .inr (loser, r) => loser.cancel.followedBy (.ofExcept (r.map .inr))

abbrev RaceTriple (ε α β γ : Type) :=
  OneOfThree (α × Fiber ε β × Fiber ε γ) (Fiber ε α × β × Fiber ε γ) (Fiber ε α × Fiber ε β × γ)

def raceTriple (x : ContextId) (a : Effect ε α) (b : Effect ε β) (c : Effect ε γ) :
    Effect ε (RaceTriple ε α β γ) :=
  (tripleEnd x a b c).flatMap fun
    | .first (.ok a, b, c) => .pure (.first (a, b, c))
    | .second (a, .ok b, c) => .pure (.second (a, b, c))
    | .third (a, b, .ok c) => .pure (.third (a, b, c))
    | .first (.error e, _, _) => .raise e
    | .second (_, .error e, _) => .raise e
    | .third (_, _, .error e) => .raise e

def race₃ (x : ContextId) (a : Effect ε α) (b : Effect ε β) (c : Effect ε γ) :
    Effect ε (OneOfThree α β γ) :=
  (tripleEnd x a b c).flatMap fun
    | .first (r, b, c) =>
        (b.cancel.followedBy c.cancel).followedBy (.ofExcept (r.map .first))
    | .second (a, r, c) =>
        (a.cancel.followedBy c.cancel).followedBy (.ofExcept (r.map .second))
    | .third (a, b, r) =>
        (a.cancel.followedBy b.cancel).followedBy (.ofExcept (r.map .third))

/-- Fails if the effect, run on the context, has not ended in time; it is then canceled. -/
def Effect.timeout (e : Effect ε α) (c : ContextId) (d : Duration) : Effect (TimeoutError ε) α :=
  (race c (e.mapError .inner) (.sleep d)).flatMap fun
    | .inl a => .pure a
    | .inr () => .raise (.timeout d)

end Effects
