import Effects.Routine
import Effects.Value.Compact
import Effects.World.Turns

/-!
Working on connections by their names. A token logs its label and then takes steps of its own, each
of which is logged with what it gave.
-/

namespace Effects.Session

open Routine

inductive ConnectionStep where
  | create (c : String)
  | uncancelable (c : String)
  | push (c : String) (label : Value) (steps : List ConnectionStep)
  | pushNothing (c : String)
  | pushConnection (c child : String)
  | pop (c : String)
  | popAndRun (c : String)
  | popText (c : String)
  | cancel (c : String)
  | reactivate (c : String)
  | isCanceled (c : String)
  | isUncancelable (c : String)
  | describe (c : String)
  | panic (v : Value)

namespace ConnectionStep

def name : ConnectionStep → String
  | .create _ => "new"
  | .uncancelable _ => "uncancelable"
  | .push _ _ _ => "push"
  | .pushNothing _ => "push_noop"
  | .pushConnection _ _ => "push_connection"
  | .pop _ => "pop"
  | .popAndRun _ => "pop_run"
  | .popText _ => "pop_debug"
  | .cancel _ => "cancel"
  | .reactivate _ => "reactivate"
  | .isCanceled _ => "is_canceled"
  | .isUncancelable _ => "is_uncancelable"
  | .describe _ => "state"
  | .panic _ => "panic"

def connection (c : String) : Routine ConnectionId := find "connection" c

def tokenText : Bool → String
  | true => "Some(CancelToken \x7b action: \"<function>\" \x7d)"
  | false => "None"

mutual

def run : ConnectionStep → Routine Value
  | .create c => do
      keep "connection" c (← ConnectionId.fresh)
      return .null
  | .uncancelable c => do
      keep "connection" c ConnectionId.uncancelable
      return .null
  | .push c label steps => do
      (← connection c).push (task do
        Routine.log label
        runAll steps)
      return .null
  | .pushNothing c => do
      (← connection c).push (task (return ()))
      return .null
  | .pushConnection c child => do
      (← connection c).pushConnection (← connection child)
      return .null
  | .pop c => return .bool (← (← connection c).pop)
  | .popAndRun c => return .bool (← (← connection c).popAndRun)
  | .popText c => return .str (tokenText (← (← connection c).pop))
  | .cancel c => do
      (← connection c).cancel
      return .null
  | .reactivate c => return .bool (← (← connection c).reactivate)
  | .isCanceled c => return .bool (← (← connection c).isCanceled)
  | .isUncancelable c => return .bool (← (← connection c).isUncancelable)
  | .describe c => do (← connection c).describe
  | .panic v => Routine.panic v.text

def runAll : List ConnectionStep → Routine Unit
  | [] => return ()
  | s :: rest => do
      Routine.log (.arr [.str s.name, ← s.run])
      runAll rest

end

def named (name c : String) : Except String ConnectionStep :=
  match name with
  | "new" => .ok (.create c)
  | "uncancelable" => .ok (.uncancelable c)
  | "push_noop" => .ok (.pushNothing c)
  | "pop" => .ok (.pop c)
  | "pop_run" => .ok (.popAndRun c)
  | "pop_debug" => .ok (.popText c)
  | "cancel" => .ok (.cancel c)
  | "reactivate" => .ok (.reactivate c)
  | "is_canceled" => .ok (.isCanceled c)
  | "is_uncancelable" => .ok (.isUncancelable c)
  | "state" => .ok (.describe c)
  | name => .error ("no such step on a connection: " ++ name)

mutual

def ofValue : Value → Except String ConnectionStep
  | .arr [.str "push", .str c, label, .arr steps] => return .push c label (← ofValues steps)
  | .arr [.str "push_connection", .str c, .str child] => .ok (.pushConnection c child)
  | .arr [.str "panic", v] => .ok (.panic v)
  | .arr [.str name, .str c] => named name c
  | v => .error ("no such step on a connection: " ++ v.compact)

def ofValues : List Value → Except String (List ConnectionStep)
  | [] => .ok []
  | v :: rest => do return (← ofValue v) :: (← ofValues rest)

end

end ConnectionStep

/-- The reply of a step taken by the caller: a value, or the panic that reached it. -/
def stepValue : Option (Except String Reply) → Value
  | some (.ok r) => r.toValue
  | some (.error message) => .tagged "panic" (.str message)
  | none => .null

def connectionAnswers (w : World) : List ConnectionStep → List Value
  | [] => []
  | s :: rest =>
      let (w', r) := w.call (Routine.answer s.run)
      let logged := (w'.log.take (w'.log.length - w.log.length)).reverse
      .record [("r", stepValue r), ("log", .arr logged)] :: connectionAnswers w' rest

/-- Every step with what was logged in it. -/
def connectionsAnswer (v : Value) : Except String Value :=
  return .arr (connectionAnswers .start (← ConnectionStep.ofValues (v.field "steps").items))

end Effects.Session
