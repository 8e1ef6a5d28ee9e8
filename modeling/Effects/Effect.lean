import Effects.Failure
import Effects.Routine

/-!
Effects: descriptions of computations that give an `α`, fail with an `ε`, or are canceled. Building
one runs nothing.
-/

namespace Effects

structure Effect (ε α : Type) where
  node : Node

variable {ε δ α β γ : Type}

/-- The code of a closure that computes an effect. -/
def Routine.effect (r : Routine (Effect ε α)) : Code := r fun e => .build e.node

namespace Effect

/-- The same computation, its value and error taken for what they are written as. -/
def written (e : Effect ε α) : Effect Value Value := ⟨e.node⟩

section Constructors

variable [Datum ε] [Datum α]

def pure (a : α) : Effect ε α := ⟨.pure (write a)⟩

def raise (e : ε) : Effect ε α := ⟨.raise (write e)⟩

def ofExcept : Except ε α → Effect ε α
  | .ok a => pure a
  | .error e => raise e

/-- Builds the effect when the run gets there. -/
def defer (r : Routine (Effect ε α)) : Effect ε α := ⟨.suspend r.effect⟩

def delay (r : Routine α) : Effect ε α := defer (do return pure (← r))

def invoke (r : Routine (Except ε α)) : Effect ε α := defer (do return ofExcept (← r))

/-- Suspends on a registration that may answer with a token; the token has to wake the callback. -/
def register (r : LatchId → Routine (Option Code)) : Effect ε α :=
  ⟨.async fun callback => r callback .guard⟩

/-- Suspends until the callback is called, and cannot be interrupted meanwhile. -/
def async (r : LatchId → Routine Unit) : Effect ε α :=
  register fun callback => do
    r callback
    return none

/-- Suspends until the callback is called or the run is canceled, when the token is run. -/
def cancelable (r : LatchId → Routine Code) : Effect ε α :=
  register fun callback => do
    let token ← r callback
    return some (Routine.interrupting token callback)

/-- Suspends until the run is canceled. -/
def never : Effect ε α := register fun callback => return some (Routine.task callback.interrupt)

/-- Ends as the outcome says. -/
def ofOutcome : Outcome ε α → Effect ε α
  | .completed a => pure a
  | .errored e => raise e
  | .canceled => async LatchId.interrupt

def unit : Effect ε Unit := pure ()

def sleep (d : Duration) : Effect ε Unit :=
  register fun callback => do
    let seq ← Routine.schedule d (callback.succeed .null)
    return some (Routine.interrupting (Routine.task (Routine.unschedule seq)) callback)

/-- Ends the run here if it has been canceled. -/
def boundary : Effect ε Unit := async fun callback => callback.succeed .null

end Constructors

section Sequencing

variable [Datum ε] [Datum δ] [Datum α] [Datum β] [Datum γ]

/-- Transforms the value by a closure that may do more than compute. -/
def mapRunning (e : Effect ε α) (f : α → Routine β) : Effect ε β :=
  ⟨.map e.node fun v => (f (read v)) fun b => .build (.pure (write b))⟩

def map (e : Effect ε α) (f : α → β) : Effect ε β := e.mapRunning fun a => Pure.pure (f a)

def flatMap (e : Effect ε α) (f : α → Effect ε β) : Effect ε β :=
  ⟨.flatMap e.node fun v => .build (f (read v)).node⟩

def followedBy (e : Effect ε α) (next : Effect ε β) : Effect ε β := e.flatMap fun _ => next

def zip (e : Effect ε α) (other : Effect ε β) : Effect ε (α × β) :=
  e.flatMap fun a => other.map fun b => (a, b)

def void (e : Effect ε α) : Effect ε Unit := e.map fun _ => ()

/-- The value in its written form. -/
def shown (e : Effect ε α) : Effect ε Value := e.map write

def handleErrorWith (e : Effect ε α) (f : ε → Effect δ α) : Effect δ α :=
  ⟨.handleErrorWith e.node fun v => .build (f (read v)).node⟩

def handleError (e : Effect ε α) (f : ε → α) : Effect δ α :=
  e.handleErrorWith fun error => pure (f error)

def mapError (e : Effect ε α) (f : ε → δ) : Effect δ α :=
  e.handleErrorWith fun error => raise (f error)

/-- Shows a typed error as a value. -/
def attempt (e : Effect ε α) : Effect δ (Except ε α) :=
  ((e.map Except.ok : Effect ε (Except ε α))).handleErrorWith fun error => pure (.error error)

/-- Annotates the error with what was being done. -/
def annotate (e : Effect ε α) (message : String) : Effect (Annotated ε) α :=
  e.mapError fun error => (Annotated.of error).note message

def annotateFurther (e : Effect (Annotated ε) α) (message : String) : Effect (Annotated ε) α :=
  e.mapError (Annotated.note message)

/-- Runs what comes after on the context. -/
def continueOn (e : Effect ε α) (c : ContextId) : Effect ε α := ⟨.continueOn e.node c⟩

/-- Shields from cancellation; it is seen at the first point that can be canceled afterwards. -/
def uncancelable (e : Effect ε α) : Effect ε α := ⟨.uncancelable e.node⟩

def instrument (e : Effect ε α) : Effect ε α := ⟨.instrument e.node⟩

/-- Runs `body` again and again, from the state it gives, until it gives a value. -/
def loop (body : α → Effect ε (α ⊕ β)) (seed : α) : Effect ε β :=
  ⟨.loop (fun v => (body (read v)).node) (write seed)⟩

end Sequencing

section Brackets

variable [Datum ε] [Datum α] [Datum β]

/-- Acquires, uses and releases. The acquire and the release cannot be canceled; the release always
follows a successful acquire, and is told how the use ended. -/
def bracketCase (acquire : Effect ε α) (release : α → ExitCase ε → Effect ε Unit)
    (use : α → Effect ε β) : Effect ε β :=
  ⟨.bracket acquire.node (fun v => .build (use (read v)).node)
    fun v c => .build (release (read v) (c.map read)).node⟩

def bracket (acquire : Effect ε α) (release : α → Effect ε Unit) (use : α → Effect ε β) :
    Effect ε β :=
  acquire.bracketCase (fun a _ => release a) use

/-- Runs a finalizer chosen by how the effect ended. -/
def guaranteeCase (e : Effect ε α) (finalizer : ExitCase ε → Effect ε Unit) : Effect ε α :=
  (unit : Effect ε Unit).bracketCase (fun _ c => finalizer c) fun _ => e

def guarantee (e : Effect ε α) (finalizer : Effect ε Unit) : Effect ε α :=
  e.guaranteeCase fun _ => finalizer

/-- Runs a finalizer only if the effect is canceled. -/
def onCancel (e : Effect ε α) (finalizer : Effect ε Unit) : Effect ε α :=
  e.guaranteeCase fun
    | .canceled => finalizer
    | .completed | .errored _ => unit

end Brackets

section Parallel

variable [Datum ε] [Datum α] [Datum β] [Datum γ]

def parMap₂ (a : Effect ε α) (b : Effect ε β) (f : α → β → γ) : Effect ε γ :=
  ⟨.parMap [a.node, b.node] fun
    | [v, w] => .build (.pure (write (f (read v) (read w))))
    | _ => .panic "two values expected"⟩

def parMap₃ {κ : Type} [Datum κ] (a : Effect ε α) (b : Effect ε β) (c : Effect ε γ)
    (f : α → β → γ → κ) : Effect ε κ :=
  ⟨.parMap [a.node, b.node, c.node] fun
    | [v, w, x] => .build (.pure (write (f (read v) (read w) (read x))))
    | _ => .panic "three values expected"⟩

def parZip (a : Effect ε α) (b : Effect ε β) : Effect ε (α × β) := parMap₂ a b Prod.mk

/-- Runs all in parallel and collects the values in order. -/
def parSequence : List (Effect ε α) → Effect ε (List α)
  | [] => pure []
  | branches => ⟨.parSequence (branches.map node)⟩

def parTraverse (items : List β) (f : β → Effect ε α) : Effect ε (List α) :=
  parSequence (items.map f)

end Parallel

section Running

variable [Datum ε] [Datum α]

/-- Runs the effect, starting on the context, and tells how it ended. -/
def outcomeOn (e : Effect ε α) (c : ContextId) : Routine (Outcome ε α) := do
  let connection ← ConnectionId.fresh
  return (← Routine.eval e.node ⟨c, connection⟩).map read read

/-- Like `outcomeOn`, for callers who do not expect the run to be canceled. -/
def resultOn (e : Effect ε α) (c : ContextId) : Routine (Except ε α) := do
  match (← e.outcomeOn c).result? with
  | some r => return r
  | none => Routine.panic "unsafe_run_sync: the computation was canceled"

/-- Like `outcomeOn`, but driven from a thread of its own. -/
def outcomeApart (e : Effect ε α) (c : ContextId) : Routine (Outcome ε α) := do
  let ended ← LatchId.fresh
  Routine.fork do
    ended.settle (← Routine.attempt ((e.outcomeOn c) fun o => .give (.outcome (o.map write write))))
  return (← Routine.rethrow (← ended.await)).toExit.map read read

/-- Starts the run without waiting; the callback gets the outcome. A panic goes on where it
happened, after `dropped`, and the callback is never called. Answers with a token that cancels the
run. -/
def runAsync (e : Effect ε α) (c : ContextId) (callback : Outcome ε α → Routine Unit)
    (dropped : Routine Unit) : Routine Code := do
  let connection ← ConnectionId.fresh
  Routine.spawn e.node ⟨c, connection⟩ fun
    | .ok exit => callback (exit.map read read)
    | .error message => do
        dropped
        Routine.panic message
  return Routine.task connection.cancel

end Running
end Effect
end Effects
