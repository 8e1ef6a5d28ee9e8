import Effects.Expr
import Effects.Fiber
import Effects.MVar
import Effects.Promise

/-!
Commands: the steps of a script that name things. Fibers, slots and promises are kept in the world's
memory under their names, flags are signals, and a name may refer to a context.
-/

namespace Effects

/-- What the names of a script refer to besides what it makes itself. -/
structure Setting where
  contexts : List (String × ContextId)
  /-- Holds the token that cancels the run, if there is one. -/
  holder : Option ConnectionId

namespace Setting

def context (s : Setting) (name : String) : ContextId := (s.contexts.lookup name).getD .inline

def flag (name : String) : String := "flag " ++ name

/-- Raised when the holder has got its token. -/
def held : String := "token"

end Setting

inductive FiberCommand where
  | join
  | cancel
  | isFinished
  | awaitFinished
  | describe

inductive SlotCommand where
  | create (value : Option Expr) (cancelable : Bool)
  | put (v : Expr)
  | take
  | read
  | tryPut (v : Expr)
  | tryTake
  | tryRead
  | isEmpty
  | describe
  | awaitState (state : String)

inductive PromiseCommand where
  | create (cancelable : Bool)
  | resolve (r : Except Expr Expr)
  | tryResolve (r : Except Expr Expr)
  | get
  | tryGet
  | describe
  | awaitState (state : String)

inductive Command where
  | log (v : Expr)
  | panic (v : Expr)
  | threadName
  | isCurrent (context : String)
  | signal (flag : String)
  | await (flag : String)
  | cancelRun
  | fiber (name : String) (c : FiberCommand)
  | slot (name : String) (c : SlotCommand)
  | promise (name : String) (c : PromiseCommand)

/-- What a name gives of a fiber: all of it, or, once it has been joined, one cancellation. -/
inductive FiberHold where
  | whole (f : Fiber Value Value)
  | joined (f : Fiber Value Value)
  deriving DecidableEq

namespace FiberHold

instance : Datum FiberHold where
  write
    | .whole f => .tagged "whole" (write f)
    | .joined f => .tagged "joined" (write f)
  read v :=
    match v.field? "whole" with
    | some f => .whole (read f)
    | none => .joined (read (v.field "joined"))
  read_write h := by cases h <;> simp [Value.tagged, Value.field, Value.field?]

def keep (name : String) (f : Fiber Value Value) : Routine Unit :=
  Routine.keep "fiber" name (FiberHold.whole f)

def find (name : String) : Routine FiberHold := Routine.find "fiber" name

end FiberHold

namespace Command

def fiber? (name : String) : Routine (Fiber Value Value) := do
  match ← FiberHold.find name with
  | .whole f => return f
  | .joined _ => Routine.missing "fiber" name

/-- The fiber to be joined, which then can only be canceled. -/
def joining (name : String) : Routine (Fiber Value Value) := do
  let f ← fiber? name
  Routine.keep "fiber" name (FiberHold.joined f)
  return f

/-- The fiber to be canceled; one that was joined is let go of. -/
def canceling (name : String) : Routine (Fiber Value Value) := do
  match ← FiberHold.find name with
  | .whole f => return f
  | .joined f => do
      Routine.forget "fiber" name
      return f

def slot? (name : String) : Routine (MVar Value) := Routine.find "mvar" name

def promise? (name : String) : Routine (Promise Value Value) := Routine.find "promise" name

end Command

open Command

/-- What the expressions of a result evaluate to. -/
def Expr.result (env : Bindings) : Except Expr Expr → Except Value Value
  | .ok v => .ok (v.eval env)
  | .error e => .error (e.eval env)

/-- Goes without the number, which hangs on what was started before. -/
def withoutDigits (s : String) : String := String.ofList (s.toList.filter fun c => !c.isDigit)

def FiberCommand.meaning (name : String) : FiberCommand → Effect Value Value
  | .join => .defer do return (← joining name).join
  | .cancel => .defer do return ((← canceling name).cancel : Effect Value Unit).written
  | .isFinished => .delay do return .bool (← (← fiber? name).id.isFinished)
  | .awaitFinished => .delay do
      (← fiber? name).id.awaitFinished
      return .null
  | .describe => .delay do
      let f ← fiber? name
      return .str (withoutDigits (f.text (← f.id.isFinished)))

def SlotCommand.meaning (name : String) (env : Bindings) : SlotCommand → Effect Value Value
  | .create value cancelable =>
      let made : Effect Value (MVar Value) :=
        match value with
        | some v => MVar.of (v.eval env) cancelable
        | none => MVar.empty cancelable
      made.mapRunning fun m => do
        Routine.keep "mvar" name m
        return .null
  | .put v => .defer do return ((← slot? name).put (v.eval env) : Effect Value Unit).written
  | .take => .defer do return (← slot? name).take
  | .read => .defer do return (← slot? name).read
  | .tryPut v => .defer do return ((← slot? name).tryPut (v.eval env) : Effect Value Bool).written
  | .tryTake => .defer do return ((← slot? name).tryTake : Effect Value _).written
  | .tryRead => .defer do return ((← slot? name).tryRead : Effect Value _).written
  | .isEmpty => .defer do return ((← slot? name).isEmpty : Effect Value Bool).written
  | .describe => .delay do (← slot? name).describe
  | .awaitState state => .delay do
      (← slot? name).awaitState state
      return .null

def PromiseCommand.meaning (name : String) (env : Bindings) : PromiseCommand → Effect Value Value
  | .create cancelable =>
      (Promise.create cancelable : Effect Value (Promise Value Value)).mapRunning fun p => do
        Routine.keep "promise" name p
        return .null
  | .resolve r => .defer do return ((← promise? name).resolve (Expr.result env r)).written
  | .tryResolve r => .defer do
      return ((← promise? name).tryResolve (Expr.result env r) : Effect Value Bool).written
  | .get => .defer do return (← promise? name).get
  | .tryGet => .defer do return ((← promise? name).tryGet : Effect Value _).written
  | .describe => .delay do (← promise? name).describe
  | .awaitState state => .delay do
      (← promise? name).awaitState state
      return .null

def Command.meaning (s : Setting) (env : Bindings) : Command → Effect Value Value
  | .log v => .delay do
      Routine.log (v.eval env)
      return .null
  | .panic v => .delay (Routine.panic (v.eval env).text)
  | .threadName => .delay Routine.threadName
  | .isCurrent context => .delay do return .bool (← (s.context context).isCurrent)
  | .signal flag => .delay do
      Routine.signal (Setting.flag flag)
      return .null
  | .await flag => .delay do
      Routine.awaitSignal (Setting.flag flag)
      return .null
  | .cancelRun => .delay do
      match s.holder with
      | some holder =>
          Routine.awaitSignal Setting.held
          holder.cancel
      | none => pure ()
      return .null
  | .fiber name c => c.meaning name
  | .slot name c => c.meaning name env
  | .promise name c => c.meaning name env

end Effects
