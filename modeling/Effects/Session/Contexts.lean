import Effects.Routine
import Effects.Session.Connections

/-!
Working on execution contexts by handles. A context can have several handles; the one dropped last
closes its queue.
-/

namespace Effects.Session

open Routine

inductive ContextStep where
  | create (c name : String) (serial : Bool) (stackSize : Option Nat)
  | standing (c : String) (id : ContextId)
  | derive (c label d : String)
  | clone (c d : String)
  | drop (c : String)
  | info (c : String)
  | same (c d : String)
  | runSync (c : String) (steps : List ContextStep)
  | execute (c : String) (steps : List ContextStep)
  | log (v : Value)
  | threadName
  | panic (v : Value)

namespace ContextStep

/-- The handles, by their names. -/
def handles : Routine (List (String × ContextId)) := do
  return (← remembered "handles").fields.map fun f => (f.1, f.2.toNat)

def hold (c : String) (id : ContextId) : Routine Unit := do
  remember "handles" (.obj (Value.insertField c (.nat id) (← remembered "handles").fields))

def context (c : String) : Routine ContextId := do
  match (← handles).lookup c with
  | some id => return id
  | none => Routine.missing "context" c

/-- Lets go of a handle, and of the context if it was the last one. -/
def letGo (c : String) : Routine Unit := do
  let id ← context c
  let rest := (← handles).filter (·.1 != c)
  remember "handles" (.obj (rest.map fun h => (h.1, .nat h.2)))
  if rest.any (·.2 == id) then pure () else id.close

def describe (id : ContextId) : Routine Value := do
  let (name, kind) ← id.describe
  return .record [("name", .str name), ("inline", .bool (kind == .inline)),
    ("serial", .bool (kind == .serial)), ("current", .bool (← id.isCurrent)),
    ("debug", .str (Context.text name kind))]

mutual

def run : ContextStep → Routine Value
  | .create c name serial stackSize => do
      hold c (← ContextId.fresh name serial stackSize)
      return .null
  | .standing c id => do
      hold c id
      return .null
  | .derive c label d => do
      hold d (← (← context c).derive label)
      return .null
  | .clone c d => do
      hold d (← context c)
      return .null
  | .drop c => do
      letGo c
      return .null
  | .info c => do describe (← context c)
  | .same c d => return .bool ((← context c) == (← context d))
  | .runSync c steps => do
      let reply ← (← context c).runSync (Routine.answer (runAll steps))
      return reply.toValue
  | .execute c steps => do
      (← context c).execute (task do let _ ← runAll steps)
      return .null
  | .log v => do
      Routine.log v
      return .null
  | .threadName => Routine.threadName
  | .panic v => Routine.panic v.text

/-- What the steps give, in order. -/
def runAll (steps : List ContextStep) : Routine Value := return .arr (← runList steps)

def runList : List ContextStep → Routine (List Value)
  | [] => return []
  | s :: rest => do
      let v ← s.run
      return v :: (← runList rest)

end

mutual

def ofValue : Value → Except String ContextStep
  | .arr [.str "new", .str c, .str name, kind, size] =>
      .ok (.create c name (kind == .str "serial") (size.int?.map Int.toNat))
  | .arr [.str "serial", .str c, .str name] => .ok (.create c name true none)
  | .arr [.str "concurrent", .str c, .str name] => .ok (.create c name false none)
  | .arr [.str "inline", .str c] => .ok (.standing c .inline)
  | .arr [.str "global", .str c] => .ok (.standing c .global)
  | .arr [.str "derive", .str c, .str label, .str d] => .ok (.derive c label d)
  | .arr [.str "clone", .str c, .str d] => .ok (.clone c d)
  | .arr [.str "drop", .str c] => .ok (.drop c)
  | .arr [.str "info", .str c] => .ok (.info c)
  | .arr [.str "eq", .str c, .str d] => .ok (.same c d)
  | .arr [.str "run_sync", .str c, .arr steps] => return .runSync c (← ofValues steps)
  | .arr [.str "execute", .str c, .arr steps] => return .execute c (← ofValues steps)
  | .arr [.str "log", v] => .ok (.log v)
  | .arr [.str "where"] => .ok .threadName
  | .arr [.str "panic", v] => .ok (.panic v)
  | v => .error ("no such step on a context: " ++ v.compact)

def ofValues : List Value → Except String (List ContextStep)
  | [] => .ok []
  | v :: rest => do return (← ofValue v) :: (← ofValues rest)

end

end ContextStep

def contextReplies : List ContextStep → World → World × List Value
  | [], w => (w, [])
  | s :: rest, w =>
      let (w, r) := w.call (Routine.answer s.run)
      let (w, later) := contextReplies rest w
      (w, stepValue r :: later)

/-- What the caller's steps give, and the log when nothing goes on any more. -/
def contextsAnswer (v : Value) : Except String Value := do
  let steps ← ContextStep.ofValues (v.field "steps").items
  let (w, replies) := contextReplies steps .start
  return .record [("steps", .arr replies), ("log", .arr w.quiesce.log.reverse)]

end Effects.Session
