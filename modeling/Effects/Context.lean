import Effects.Context.Queue
import Effects.Node
import Effects.Text.Quoted

/-!
Execution contexts: where tasks run. The inline context runs them in place, a concurrent one each on
a thread of its own, a serial one all on a single worker, in order.
-/

namespace Effects

structure Context where
  name : String
  kind : ContextKind
  stackSize : Option Nat
  spawned : Nat
  queue : SerialQueue Code

namespace Context

def new (name : String) (kind : ContextKind) (stackSize : Option Nat) : Context :=
  ⟨name, kind, stackSize, 0, .new⟩

def inline : Context := new "inline" .inline none

def global : Context := new "undertow-global" .concurrent none

/-- A stack that does not fit into the address space cannot be had. -/
def canSpawn (c : Context) : Bool :=
  match c.stackSize with
  | some size => size < 140737488355328
  | none => true

/-- A context for one branch of a computation, on threads of its own. -/
def derive (label : String) (c : Context) : Context :=
  new (c.name ++ "." ++ label) .concurrent c.stackSize

/-- Why no thread can have the name, if so: it would end at the first zero byte. -/
def nameFault? (name : String) : Option String :=
  let bytes := name.toUTF8.toList.map UInt8.toNat
  (bytes.findIdx? (· == 0)).map fun i =>
    "thread name may not contain interior null bytes: NulError(" ++ toString i ++ ", [" ++
      ", ".intercalate (bytes.map fun b => toString b) ++ "])"

def threadName (c : Context) : String := c.name ++ "-" ++ toString c.spawned

end Context

def ContextKind.text : ContextKind → String
  | .inline => "inline"
  | .concurrent => "concurrent"
  | .serial => "serial"

def Context.text (name : String) (kind : ContextKind) : String :=
  "ExecutionContext \x7b name: " ++ Text.quoted name ++ ", mode: \"" ++ kind.text ++ "\" \x7d"

end Effects
