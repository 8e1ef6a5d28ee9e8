import Effects.Session.Cells
import Effects.Session.Contexts
import Effects.Session.Feeding
import Effects.Session.Plain
import Effects.Session.Program
import Effects.Session.Waiting

/-!
Sessions: a request names what it is about, and each kind has its answer.
-/

namespace Effects.Session

/-- The answer to a request, or why there is none. -/
def answer (v : Value) : Except String Value :=
  match v.field "op" with
  | .str "io" => return (← Program.ofValue v).answer
  | .str "schedule" => do (← Feeding.ofValue v).answer
  | .str "mvar" => slotAnswer v
  | .str "promise" => promiseAnswer v
  | .str "conn" => connectionsAnswer v
  | .str "cell" => cellAnswer v
  | .str "context" => contextsAnswer v
  | .str "either" => choiceAnswer v
  | .str "outcome" => .ok (outcomeAnswer v)
  | .str "exit_case" => .ok (exitCaseAnswer v)
  | .str "decision" => decisionAnswer v
  | .str "error" => errorAnswer v
  | .str "assert" => expectationAnswer v
  | op => .error ("unknown op: " ++ op.compact)

end Effects.Session
