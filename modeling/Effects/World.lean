import Effects.Context
import Effects.Machine
import Effects.Timer

/-!
The world of a program: its threads and all that they share. A step is a step of one thread; in what
order the threads take theirs is not laid down here.
-/

namespace Effects

/-- What a thread does when nothing is left to do. -/
inductive Role where
  | task
  | worker (context : ContextId)
  | timer

structure Thread where
  name : String
  /-- The context that the thread belongs to. -/
  home : Option ContextId
  role : Role
  activity : Activity

/-- What code can find out about the thread that it runs on. -/
structure Place where
  name : String
  home : Option ContextId

def Thread.place (t : Thread) : Place := ⟨t.name, t.home⟩

structure Fiber.State where
  connection : ConnectionId
  slot : FiberSlot Delivery LatchId
  gate : Gate

abbrev Slots := MVar.Slot Value LatchId
abbrev Promises := Promise.Slot Value Value LatchId

structure World where
  threads : Array Thread
  contexts : Array Context
  connections : Array (Connection Code)
  latches : Array (Latch (Except String Reply))
  cells : Array (Cell (Option Nat))
  fibers : Array Fiber.State
  slots : Array Slots
  promises : Array Promises
  timer : Timer Code
  /-- Nanoseconds since the start; it moves on only when no thread can take a step. -/
  clock : Nat
  /-- The latest entry first. -/
  log : List Value
  signals : List String
  memory : List (String × Value)
  seed : Nat

abbrev ThreadId := Nat

/-- The thread that a program is started from. -/
def ThreadId.caller : ThreadId := 0

namespace World

def idle : Activity := ⟨.ended (.ok .unit), []⟩

def start : World where
  threads := #[⟨"caller", none, .task, idle⟩, ⟨"timer", none, .timer, idle⟩]
  contexts := #[.inline, .global]
  connections := #[.uncancelable]
  latches := #[]
  cells := #[]
  fibers := #[]
  slots := #[]
  promises := #[]
  timer := .new
  clock := 0
  log := []
  signals := []
  memory := []
  seed := 0

def isCurrent (w : World) (home : Option ContextId) (c : ContextId) : Bool :=
  match w.contexts[c]? with
  | some context => context.kind == .inline || home == some c
  | none => true

def isCanceled (w : World) (c : ConnectionId) : Bool :=
  match w.connections[c]? with
  | some connection => connection.isCanceled
  | none => false

def surroundings (w : World) (home : Option ContextId) : Surroundings :=
  ⟨w.isCurrent home, w.isCanceled⟩

def setActivity (w : World) (t : ThreadId) (a : Activity) : World :=
  { w with threads := w.threads.modify t fun thread => { thread with activity := a } }

def addThread (w : World) (thread : Thread) : World := { w with threads := w.threads.push thread }

def setConnection (w : World) (c : ConnectionId) (s : Connection Code) : World :=
  { w with connections := w.connections.setIfInBounds c s }

def setFiber (w : World) (f : FiberId) (s : Fiber.State) : World :=
  { w with fibers := w.fibers.setIfInBounds f s }

def setLatch (w : World) (l : LatchId) (s : Latch (Except String Reply)) : World :=
  { w with latches := w.latches.setIfInBounds l s }

/-- Puts something into a latch; only the first time counts. -/
def settle (w : World) (l : LatchId) (r : Except String Reply) : World :=
  { w with latches := w.latches.modify l fun latch => (latch.set r).1 }

def remember (w : World) (key : String) (v : Value) : World :=
  { w with memory := (key, v) :: w.memory.filter (·.1 != key) }

def remembered (w : World) (key : String) : Value := (w.memory.lookup key).getD .null

end World
end Effects
