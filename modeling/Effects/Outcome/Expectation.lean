import Effects.Outcome

/-!
Expectations on outcomes: what a test that expects an ending says when there was another.
-/

namespace Effects.Outcome

variable {ε α : Type}

def text (showError : ε → String) (showValue : α → String) : Outcome ε α → String
  | .completed a => "Completed(" ++ showValue a ++ ")"
  | .errored e => "Errored(" ++ showError e ++ ")"
  | .canceled => "Canceled"

def expected (what actual : String) : String := "Expected " ++ what ++ ", got " ++ actual

def unequal (left right : String) : String :=
  "assertion \x60left == right\x60 failed\n  left: " ++ left ++ "\n right: " ++ right

/-- The message of a comparison, or nothing where both are the same. -/
def compare {β : Type} [DecidableEq β] (render : β → String) (actual wanted : β) :
    Except String Unit :=
  if actual = wanted then .ok () else .error (unequal (render actual) (render wanted))

variable (showError : ε → String) (showValue : α → String)

def expectCompleted : Outcome ε α → Except String α
  | .completed a => .ok a
  | o => .error (expected "Completed" (o.text showError showValue))

def expectErrored : Outcome ε α → Except String ε
  | .errored e => .ok e
  | o => .error (expected "Errored" (o.text showError showValue))

def expectCanceled : Outcome ε α → Except String Unit
  | .canceled => .ok ()
  | o => .error (expected "Canceled" (o.text showError showValue))

def expectValue [DecidableEq α] (wanted : α) : Outcome ε α → Except String Unit
  | .completed a => compare showValue a wanted
  | o => .error (expected ("Completed(" ++ showValue wanted ++ ")") (o.text showError showValue))

def expectError [DecidableEq ε] (wanted : ε) : Outcome ε α → Except String Unit
  | .errored e => compare showError e wanted
  | o => .error (expected ("Errored(" ++ showError wanted ++ ")") (o.text showError showValue))

end Effects.Outcome
