import Effects.Node

/-!
A routine is code that goes on with what it computed: it takes the code to follow and puts itself in
front. The operations of `Op` are given here with the types of their answers.
-/

namespace Effects

def Routine (α : Type) : Type := (α → Code) → Code

instance : Monad Routine where
  pure a := fun k => k a
  bind r f := fun k => r fun a => f a k

instance : LawfulMonad Routine :=
  LawfulMonad.mk' Routine (fun _ => rfl) (fun _ _ => rfl) (fun _ _ _ => rfl)

namespace Reply

def toFlag : Reply → Bool
  | .flag b => b
  | _ => false

def toId : Reply → Nat
  | .id n => n
  | _ => 0

def toValue : Reply → Value
  | .value v => v
  | _ => .null

def toExit : Reply → Exit
  | .outcome exit => exit
  | .ended exit _ => exit
  | _ => .canceled

def toCaught : Reply → Except String Reply
  | .caught r => r
  | r => .ok r

def toDelivery (r : Reply) : Delivery := r.toCaught.map toExit

def toSnapshot : Reply → Cell (Option Nat)
  | .snapshot seen => seen
  | _ => ⟨none, 0⟩

def toJoiner : Reply → Option LatchId
  | .joiner callback => callback
  | _ => none

def toHeard : Reply → Heard Delivery
  | .heard what => what
  | _ => .taken

def toSlot : Reply → MVar.Answer Value
  | .slot a => a
  | _ => .served

def toPromise : Reply → Promise.Answer Value Value
  | .promise a => a
  | _ => .served

def toContext : Reply → String × ContextKind
  | .context name kind => (name, kind)
  | _ => ("", .inline)

def toFactor : Reply → Float
  | .factor x => x
  | _ => 0

end Reply

namespace Routine

variable {α : Type}

def perform (op : Op) : Routine Reply := fun k => .perform op k

def panic (message : String) : Routine α := fun _ => .panic message

/-- The result, or the panic that came instead, once more. -/
def rethrow : Except String α → Routine α
  | .ok a => pure a
  | .error message => panic message

/-- Goes on with the answer of the code. -/
def embed (c : Code) : Routine Answer := fun k => c.andThen k

/-- Code that is run for what it does. -/
def task (r : Routine Unit) : Code := r fun _ => .give .unit

/-- Code that answers with a value. -/
def answer (r : Routine Value) : Code := r fun v => .give (.value v)

/-- Calls the code and goes on with its reply. -/
def call (body : Code) : Routine Reply := perform (.call body)

/-- The reply of the code, or the message of the panic that ended it. -/
def attempt (body : Code) : Routine (Except String Reply) := return (← perform (.attempt body)).toCaught

def forEach (f : α → Routine Unit) : List α → Routine Unit
  | [] => pure ()
  | a :: rest => do
      f a
      forEach f rest

def collect {β : Type} (f : α → Routine β) : List α → Routine (List β)
  | [] => pure []
  | a :: rest => do
      let b ← f a
      return b :: (← collect f rest)

end Routine

open Routine

namespace ConnectionId

def fresh : Routine ConnectionId := return (← perform .openConnection).toId

def isCanceled (c : ConnectionId) : Routine Bool := return (← perform (.connection c .isCanceled)).toFlag

def isUncancelable (c : ConnectionId) : Routine Bool :=
  return (← perform (.connection c .isUncancelable)).toFlag

/-- Installs a token; on a canceled connection it runs at once. -/
def push (c : ConnectionId) (token : Code) : Routine Unit := do
  let _ ← perform (.connection c (.push token))

/-- Takes out the most recent token without running it; whether there was one. -/
def pop (c : ConnectionId) : Routine Bool := return (← perform (.connection c .pop)).toFlag

def popAndRun (c : ConnectionId) : Routine Bool := return (← perform (.connection c .popAndRun)).toFlag

/-- Cancels and runs every token, each on its own; the first panic among them comes at the end. -/
def cancel (c : ConnectionId) : Routine Unit := do
  let _ ← perform (.connection c .cancel)

def reactivate (c : ConnectionId) : Routine Bool :=
  return (← perform (.connection c .reactivate)).toFlag

def describe (c : ConnectionId) : Routine Value := return (← perform (.connection c .describe)).toValue

/-- Cancels the child when this connection is canceled. -/
def pushConnection (c child : ConnectionId) : Routine Unit := c.push (task child.cancel)

end ConnectionId

namespace LatchId

def fresh : Routine LatchId := return (← perform .openLatch).toId

def settle (l : LatchId) (result : Except String Reply) : Routine Unit := do
  let _ ← perform (.settle l result)

def await (l : LatchId) : Routine (Except String Reply) := return (← perform (.await l)).toCaught

/-- Hands a delivery to whoever waits; only the first one counts. -/
def deliver (l : LatchId) (d : Delivery) : Routine Unit := l.settle (d.map .outcome)

def complete (l : LatchId) (exit : Exit) : Routine Unit := l.deliver (.ok exit)

def succeed (l : LatchId) (v : Value) : Routine Unit := l.complete (.completed v)

def fail (l : LatchId) (error : Value) : Routine Unit := l.complete (.errored error)

/-- Wakes the one who waits as canceled, unless something was delivered before. -/
def interrupt (l : LatchId) : Routine Unit := l.complete .canceled

/-- Blocks until something is delivered; a delivered panic goes on here. -/
def wait (l : LatchId) : Routine Exit := do
  let reply ← rethrow (← l.await)
  return reply.toExit

end LatchId

namespace CellId

def fresh : Routine CellId := return (← perform .openCell).toId

def read (c : CellId) : Routine (Cell (Option Nat)) := return (← perform (.readCell c)).toSnapshot

def compareAndSet (c : CellId) (seen : Cell (Option Nat)) (next : Nat) : Routine Bool :=
  return (← perform (.writeCell c seen next)).toFlag

/-- Puts `n` into the cell if nothing is there; whether that was it. -/
def claim (c : CellId) (n : Nat) : Routine Bool := do
  let seen ← c.read
  if seen.value.isSome then return false else c.compareAndSet seen n

end CellId

namespace FiberId

def fresh : Routine FiberId := return (← perform .openFiber).toId

def connection (f : FiberId) : Routine ConnectionId := return (← perform (.fiber f .connection)).toId

/-- Records the exit and hands it to a waiting joiner, then lets those through who wait for the end. -/
def complete (f : FiberId) (exit : Delivery) : Routine Unit := do
  match (← perform (.fiber f (.complete exit))).toJoiner with
  | some joiner => joiner.deliver exit
  | none => pure ()
  let _ ← perform (.fiber f .openGate)

def listen (f : FiberId) (callback : LatchId) : Routine (Heard Delivery) :=
  return (← perform (.fiber f (.listen callback))).toHeard

def detach (f : FiberId) : Routine Bool := return (← perform (.fiber f .detach)).toFlag

def isFinished (f : FiberId) : Routine Bool := return (← perform (.fiber f .isFinished)).toFlag

def awaitFinished (f : FiberId) : Routine Unit := do
  let _ ← perform (.fiber f .awaitFinished)

end FiberId

namespace ContextId

def fresh (name : String) (serial : Bool) (stackSize : Option Nat) : Routine ContextId :=
  return (← perform (.openContext name serial stackSize)).toId

/-- Whether the calling thread belongs to the context. -/
def isCurrent (c : ContextId) : Routine Bool := return (← perform (.context c .isCurrent)).toFlag

/-- Dispatches a task without waiting for it. -/
def execute (c : ContextId) (task : Code) : Routine Unit := do
  let _ ← perform (.context c (.execute task))

def derive (c : ContextId) (label : String) : Routine ContextId :=
  return (← perform (.context c (.derive label))).toId

def describe (c : ContextId) : Routine (String × ContextKind) :=
  return (← perform (.context c .describe)).toContext

def close (c : ContextId) : Routine Unit := do
  let _ ← perform (.context c .close)

/-- Runs the code on the context and blocks until it has replied; a panic in it goes on here. -/
def runSync (c : ContextId) (body : Code) : Routine Reply := do
  if ← c.isCurrent then
    Routine.call body
  else
    let latch ← LatchId.fresh
    c.execute (task do latch.settle (← attempt body))
    rethrow (← latch.await)

end ContextId

namespace Routine

def threadName : Routine Value := return (← perform .threadName).toValue

def fork (r : Routine Unit) : Routine Unit := do
  let _ ← perform (.fork (task r))

def schedule (delay : Duration) (r : Routine Unit) : Routine Nat :=
  return (← perform (.schedule delay (task r))).toId

def unschedule (seq : Nat) : Routine Unit := do
  let _ ← perform (.unschedule seq)

def log (v : Value) : Routine Unit := do
  let _ ← perform (.log v)

def remember (key : String) (v : Value) : Routine Unit := do
  let _ ← perform (.remember key v)

def remembered (key : String) : Routine Value := return (← perform (.remembered key)).toValue

def key (kind name : String) : String := kind ++ " " ++ name

/-- Remembers something under a name of its kind. -/
def keep [Datum α] (kind name : String) (a : α) : Routine Unit := remember (key kind name) (write a)

def forget (kind name : String) : Routine Unit := remember (key kind name) .null

def missing (kind name : String) : Routine α := panic ("no " ++ key kind name)

def find [Datum α] (kind name : String) : Routine α := do
  match ← remembered (key kind name) with
  | .null => missing kind name
  | v => return read v

def signal (name : String) : Routine Unit := do
  let _ ← perform (.signal name)

def awaitSignal (name : String) : Routine Unit := do
  let _ ← perform (.awaitSignal name)

def now : Routine Nat := return (← perform .now).toId

def factorBetween (low high : Float) : Routine Float :=
  return (← perform (.factorBetween low high)).toFactor

/-- Drives a machine to its end on this thread. -/
def drive (machine : Machine) (run : Run) : Routine Reply := perform (.drive machine run)

def eval (node : Node) (run : Run) : Routine Exit := return (← drive (.focus node []) run).toExit

/-- Finishes a machine on the run's context. -/
def hop (machine : Machine) (run : Run) : Routine Reply :=
  run.context.runSync (drive machine run .give)

/-- Dispatches a computation and reports its exit, or the panic that ended it, on the thread that
ran it. -/
def spawn (node : Node) (run : Run) (onDone : Delivery → Routine Unit) : Routine Unit :=
  run.context.execute (task do
    let result ← attempt (drive (.focus node []) run .give)
    onDone (result.map Reply.toExit))

/-- Registers with the outside world and blocks until called back. A token that the registration
answers with stays on the connection meanwhile. -/
def suspend (register : LatchId → Code) (connection : ConnectionId) : Routine Exit := do
  if ← connection.isCanceled then
    return .canceled
  else
    let callback ← LatchId.fresh
    match ← embed (register callback) with
    | .token (some token) =>
        connection.push token
        let exit ← callback.wait
        let _ ← connection.pop
        return exit
    | _ => callback.wait

/-- A token that runs the given one and then wakes the callback as canceled. -/
def interrupting (token : Code) (callback : LatchId) : Code :=
  task do
    let _ ← call token
    callback.interrupt

end Routine
end Effects
