import Effects.Connection
import Effects.Datum
import Effects.Fiber.Slot
import Effects.MVar.Slot
import Effects.Promise.Slot

/-!
Computations and the code they run. A `Node` describes a computation; nothing happens before a
machine takes it into focus. `Code` is straight-line code that a thread runs between two such
steps: it performs operations one at a time, may panic, and ends with an answer.
-/

namespace Effects

abbrev ConnectionId := Nat
abbrev LatchId := Nat
abbrev CellId := Nat
abbrev FiberId := Nat
abbrev ContextId := Nat
abbrev SlotId := Nat
abbrev PromiseId := Nat

/-- The connection of regions that cannot be interrupted. -/
def ConnectionId.uncancelable : ConnectionId := 0

/-- The context that runs everything where it is asked to. -/
def ContextId.inline : ContextId := 0

/-- The context for those without a preference. -/
def ContextId.global : ContextId := 1

abbrev Exit := Outcome Value Value

/-- An exit, or the message of the panic that came instead. -/
abbrev Delivery := Except String Exit

/-- Where a run goes on and which connection can cancel it. -/
structure Run where
  context : ContextId
  connection : ConnectionId
  deriving DecidableEq

inductive ContextKind where
  | inline
  | concurrent
  | serial
  deriving DecidableEq

/-- What an operation answers. -/
inductive Reply where
  | unit
  | flag (b : Bool)
  | id (n : Nat)
  | value (v : Value)
  | outcome (exit : Exit)
  | ended (exit : Exit) (run : Run)
  | caught (result : Except String Reply)
  | snapshot (seen : Cell (Option Nat))
  | joiner (callback : Option LatchId)
  | heard (what : Heard Delivery)
  | slot (answer : MVar.Answer Value)
  | promise (answer : Promise.Answer Value Value)
  | context (name : String) (kind : ContextKind)
  | factor (x : Float)

/-- Operations on a connection; `τ` is what its tokens are. -/
inductive ConnectionOp (τ : Type) where
  | isCanceled
  | isUncancelable
  | push (token : τ)
  | pop
  | popAndRun
  | cancel
  | reactivate
  | describe

inductive FiberOp where
  | connection
  | complete (exit : Delivery)
  | listen (callback : LatchId)
  | detach
  | openGate
  | isFinished
  | awaitFinished

/-- Operations on a context; `τ` is what its tasks are. -/
inductive ContextOp (τ : Type) where
  | isCurrent
  | execute (task : τ)
  | derive (label : String)
  | describe
  | close

mutual

inductive Node where
  | pure (v : Value)
  | raise (error : Value)
  | suspend (thunk : Code)
  | async (register : LatchId → Code)
  | map (inner : Node) (f : Value → Code)
  | flatMap (inner : Node) (f : Value → Code)
  | handleErrorWith (inner : Node) (f : Value → Code)
  | continueOn (inner : Node) (target : ContextId)
  | uncancelable (inner : Node)
  | bracket (acquire : Node) (use : Value → Code) (release : Value → ExitCase Value → Code)
  | bracketUse (resource : Value) (use : Value → Code) (release : Value → ExitCase Value → Code)
  | bracketRelease (finalizer : Node) (exit : Exit)
  | parMap (branches : List Node) (combine : List Value → Code)
  | parSequence (branches : List Node)
  | instrument (inner : Node)
  | loop (body : Value → Node) (seed : Value)

/-- A closure of a computation answers with a node, a registration with its cancel token if it has
one, and any other code with a reply. -/
inductive Code where
  | give (reply : Reply)
  | build (node : Node)
  | guard (token : Option Code)
  | panic (message : String)
  | perform (op : Op) (next : Reply → Code)

inductive Op where
  | openConnection
  | connection (c : ConnectionId) (op : ConnectionOp Code)
  | openLatch
  | settle (l : LatchId) (result : Except String Reply)
  | await (l : LatchId)
  | openCell
  | readCell (c : CellId)
  | writeCell (c : CellId) (seen : Cell (Option Nat)) (next : Nat)
  | openFiber
  | fiber (f : FiberId) (op : FiberOp)
  | openContext (name : String) (serial : Bool) (stackSize : Option Nat)
  | context (c : ContextId) (op : ContextOp Code)
  | threadName
  | fork (body : Code)
  | schedule (delay : Duration) (task : Code)
  | unschedule (seq : Nat)
  | openSlot (contents : MVar.Contents Value LatchId) (cancelable : Bool)
  | slot (s : SlotId) (request : MVar.Request Value LatchId) (phase : MVar.Phase Value LatchId)
  | describeSlot (s : SlotId)
  | awaitSlot (s : SlotId) (state : String)
  | openPromise (cancelable : Bool)
  | promise (p : PromiseId) (request : Promise.Request Value Value LatchId)
      (phase : Promise.Phase Value Value LatchId)
  | describePromise (p : PromiseId)
  | awaitPromise (p : PromiseId) (state : String)
  | drive (machine : Machine) (run : Run)
  | call (body : Code)
  | attempt (body : Code)
  | log (v : Value)
  | remember (key : String) (v : Value)
  | remembered (key : String)
  | signal (name : String)
  | awaitSignal (name : String)
  | now
  | factorBetween (low high : Float)

/-- What remains to be done with the exit of the node in focus. -/
inductive Cont where
  | map (f : Value → Code)
  | flatMap (f : Value → Code)
  | recover (f : Value → Code)
  | switch (target : ContextId)
  | restore (saved : ConnectionId)

inductive Machine where
  | focus (node : Node) (next : List Cont)
  | unwind (exit : Exit) (next : List Cont)

end

namespace Node

/-- The name of the outermost constructor. -/
def kind : Node → String
  | .pure _ => "Pure"
  | .raise _ => "RaiseError"
  | .suspend _ => "Suspend"
  | .async _ => "Async"
  | .map _ _ => "Map"
  | .flatMap _ _ => "FlatMap"
  | .handleErrorWith _ _ => "HandleErrorWith"
  | .continueOn _ _ => "ContinueOn"
  | .uncancelable _ => "Uncancelable"
  | .bracket _ _ _ | .bracketUse _ _ _ | .bracketRelease _ _ => "Bracket"
  | .parMap branches _ => "ParMap" ++ toString branches.length
  | .parSequence _ => "ParSequence"
  | .instrument _ => "Instrument"
  | .loop _ _ => "Loop"

def text (n : Node) : String := "IO(\"" ++ n.kind ++ "\")"

end Node

inductive Answer where
  | reply (r : Reply)
  | node (n : Node)
  | token (t : Option Code)

/-- Goes on with the answer, in the same code. -/
def Code.andThen (k : Answer → Code) : Code → Code
  | .give r => k (.reply r)
  | .build n => k (.node n)
  | .guard t => k (.token t)
  | .panic message => .panic message
  | .perform op next => .perform op fun r => (next r).andThen k

end Effects
