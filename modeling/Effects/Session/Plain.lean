import Effects.Expr.Reading
import Effects.Failure
import Effects.Outcome.Expectation
import Effects.Schedule.Decision

/-!
Questions about plain data: choices between two, outcomes, exit cases, decisions, errors and
expectations.
-/

namespace Effects.Session

abbrev Choice := Value ⊕ Value

def apply (f : Expr) (v : Value) : Value := f.eval [("x", v)]

/-- Something done to a choice: what it becomes, and what is answered. -/
def choiceCall (c : Choice) : Value → Except String (Choice × Value)
  | .arr [.str "is_left"] => .ok (c, .bool c.isLeft)
  | .arr [.str "is_right"] => .ok (c, .bool c.isRight)
  | .arr [.str "into_left"] => .ok (c, write c.getLeft?)
  | .arr [.str "into_right"] => .ok (c, write c.getRight?)
  | .arr [.str "as_ref"] => .ok (c, write c)
  | .arr [.str "into_inner"] => .ok (c, c.elim id id)
  | .arr [.str "fold", f, g] => return (c, c.elim (apply (← Expr.ofValue f)) (apply (← Expr.ofValue g)))
  | .arr [.str "to_result"] => .ok (c, write (c.elim .error .ok : Except Value Value))
  | .arr [.str "from_result", .str "ok", v] => .ok (c, write (.inr v : Choice))
  | .arr [.str "from_result", .str "err", v] => .ok (c, write (.inl v : Choice))
  | .arr [.str "eq", other] => .ok (c, .bool (c = (read other : Choice)))
  | .arr [.str "map_left", f] => return replaced (c.map (apply (← Expr.ofValue f)) id)
  | .arr [.str "map_right", f] => return replaced (c.map id (apply (← Expr.ofValue f)))
  | .arr [.str "bimap", f, g] =>
      return replaced (c.map (apply (← Expr.ofValue f)) (apply (← Expr.ofValue g)))
  | .arr [.str "swap"] => .ok (replaced c.swap)
  | v => .error ("no such call: " ++ v.compact)
where
  replaced (c : Choice) : Choice × Value := (c, write c)

def choiceCalls : Choice → List Value → Except String (List Value)
  | _, [] => .ok []
  | c, call :: rest => do
      let (c, r) ← choiceCall c call
      return r :: (← choiceCalls c rest)

def choiceAnswer (v : Value) : Except String Value :=
  return .arr (← choiceCalls (read (v.field "value")) (v.field "calls").items)

def outcomeAnswer (v : Value) : Value :=
  let o : Outcome Value Value := read (v.field "value")
  .record [("completed", .bool o.isCompleted), ("errored", .bool o.isErrored),
    ("canceled", .bool o.isCanceled), ("result", write o.result?),
    ("eq", .bool (o = (read (v.field "other") : Outcome Value Value)))]

def exitCaseAnswer (v : Value) : Value :=
  let c : ExitCase Value := read (v.field "value")
  .record [("completed", .bool c.isCompleted), ("canceled", .bool c.isCanceled),
    ("error", write c.error?), ("eq", .bool (c = (read (v.field "other") : ExitCase Value)))]

def decisionAnswer (v : Value) : Except String Value := do
  let f ← Expr.ofValue (v.field "f")
  let d : Decision Value :=
    match v.field? "now" with
    | some state => .now state
    | none => read (v.field "value")
  return .record [("decision", write d), ("continue", .bool d.continues),
    ("delay", write d.delay?), ("mapped", write (d.mapState (apply f)))]

def annotatedAnswer (v : Value) : Value :=
  let a : Annotated String :=
    ⟨(v.field "error").text, (v.field "trail").items.map Value.text⟩
  .record [("text", .str (a.text id)), ("inner", .str a.inner), ("trail", write a.trail),
    ("source", write (some a.inner)), ("into_inner", .str a.inner)]

def timeoutAnswer (v : Value) : Value :=
  let e : TimeoutError String :=
    match v.field? "duration" with
    | some d => .timeout (read d)
    | none => .inner (v.field "error").text
  .record [("text", .str (e.text id)), ("is_timeout", .bool e.isTimeout),
    ("is_inner", .bool !e.isTimeout), ("source", write e.inner?), ("into_inner", write e.inner?)]

def retryAnswer (v : Value) : Value :=
  let e : RetryExhausted String :=
    ⟨(v.field "error").text, (v.field "attempts").toNat, read (v.field "duration")⟩
  let wrapped := e.mapError fun error => "<" ++ error ++ ">"
  .record [("text", .str (e.text id)), ("retries", .nat e.retries),
    ("attempts", .nat e.attempts), ("error", .str e.error), ("source", write (some e.error)),
    ("mapped", .str (wrapped.text id)), ("total", write e.elapsed), ("into_error", .str e.error)]

def promiseErrorAnswer : Value :=
  .record [("text", .str PromiseError.alreadyFulfilled.text),
    ("source", write (none : Option String))]

def errorAnswer (v : Value) : Except String Value :=
  match v.field "type" with
  | .str "context" => .ok (annotatedAnswer v)
  | .str "timeout" => .ok (timeoutAnswer v)
  | .str "retry" => .ok (retryAnswer v)
  | .str "promise" => .ok promiseErrorAnswer
  | kind => .error ("no such error: " ++ kind.compact)

def passed {α : Type} [Datum α] : Except String α → Value
  | .ok a => .tagged "passed" (write a)
  | .error message => .tagged "panic" (.str message)

def expectationAnswer (v : Value) : Except String Value :=
  let o : Outcome Value Value := read (v.field "outcome")
  match v.field "macro", v.field? "expected" with
  | .str "completes", none => .ok (passed (o.expectCompleted Value.compact Value.compact))
  | .str "completes", some w => .ok (passed (o.expectValue Value.compact Value.compact w))
  | .str "errored", none => .ok (passed (o.expectErrored Value.compact Value.compact))
  | .str "errored", some w => .ok (passed (o.expectError Value.compact Value.compact w))
  | .str "canceled", _ => .ok (passed (o.expectCanceled Value.compact Value.compact))
  | kind, _ => .error ("no such expectation: " ++ kind.compact)

end Effects.Session
