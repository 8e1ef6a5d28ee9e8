import Effects.Session.Program

/-!
Feeding a schedule: each input is given to an update from the state then held, and the output is
shown for the state held after it. A schedule that stops or fails keeps its state and is fed on.
-/

namespace Effects.Session

open Routine

structure Feeding where
  plan : Plan
  inputs : List Value
  /-- Where to start in place of the initial state. -/
  state : Option Value
  /-- What is shown of a delay instead of itself: whether it lies between the two. -/
  bounds : Option (Duration × Duration)

namespace Feeding

def showDecision (f : Feeding) : Outcome Value (Decision Value) → Value
  | .completed (.again state delay) =>
      match f.bounds with
      | some (low, high) => .tagged "in_bounds" (.bool (low ≤ delay && delay ≤ high))
      | none => write (Decision.again state delay)
  | .completed .done => write (.done : Decision Value)
  | .errored e => .tagged "errored" e
  | .canceled => .str "canceled"

/-- The state held after an update. -/
def held (state : Value) : Outcome Value (Decision Value) → Value
  | .completed (.again next _) => next
  | _ => state

def steps (f : Feeding) (state : Value) : List Value → Routine (List Value)
  | [] => return []
  | input :: rest => do
      let decision ← (f.plan.update input state).outcomeOn .inline
      let next := held state decision
      let shown := Value.record [("decision", f.showDecision decision),
        ("output", f.plan.extract input next)]
      return shown :: (← f.steps next rest)

def run (f : Feeding) : Routine Value := do
  let initial ←
    match f.state with
    | some state => pure (.completed state)
    | none => f.plan.initial.outcomeOn .inline
  match initial with
  | .completed state =>
      return .record [("initial", write initial), ("steps", .arr (← f.steps state f.inputs))]
  | initial => return .record [("initial", write initial)]

/-- The answer; a panic that reaches the caller is answered in its place. -/
def answer (f : Feeding) : Except String Value :=
  match World.start.call (Routine.answer f.run) with
  | (w, some (.ok (.value (.obj fields)))) =>
      .ok (.obj (Value.insertField "log" (.arr w.log.reverse) fields))
  | (_, some (.error message)) =>
      .ok (.record [("error", .str "panic"), ("message", .str message)])
  | _ => .error "the schedule did not answer"

def ofValue (v : Value) : Except String Feeding := do
  return {
    plan := (← Policy.ofValue (v.field "schedule")).meaning ⟨standing, none⟩ []
    inputs := (v.field "inputs").items
    state := v.field? "state"
    bounds :=
      match v.field "bounds" with
      | .arr [low, high] => some (read low, read high)
      | _ => none }

end Feeding
end Effects.Session
