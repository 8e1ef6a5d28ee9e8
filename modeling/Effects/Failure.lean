import Effects.Datum

/-!
The errors that combinators raise in place of, or around, a computation's own error, and their
texts.
-/

namespace Effects

/-- An error and what was being done, the innermost first. -/
structure Annotated (ε : Type) where
  inner : ε
  trail : List String
  deriving DecidableEq

/-- A computation under a deadline failed by itself or ran over it. -/
inductive TimeoutError (ε : Type) where
  | timeout (deadline : Duration)
  | inner (error : ε)
  deriving DecidableEq

/-- A schedule declined to go on after `attempts` runs, the last of which failed with `error`. -/
structure RetryExhausted (ε : Type) where
  error : ε
  attempts : Nat
  elapsed : Duration
  deriving DecidableEq

/-- A promise can be resolved once. -/
inductive PromiseError where
  | alreadyFulfilled
  deriving DecidableEq

variable {ε δ : Type}

namespace Annotated

def of (error : ε) : Annotated ε := ⟨error, []⟩

def note (message : String) (a : Annotated ε) : Annotated ε :=
  { a with trail := a.trail ++ [message] }

def text (render : ε → String) (a : Annotated ε) : String :=
  a.trail.foldl (fun acc message => acc ++ "\n  -> " ++ message) ("Error: " ++ render a.inner)

end Annotated

namespace TimeoutError

def isTimeout : TimeoutError ε → Bool
  | .timeout _ => true
  | .inner _ => false

def inner? : TimeoutError ε → Option ε
  | .timeout _ => none
  | .inner e => some e

def text (render : ε → String) : TimeoutError ε → String
  | .timeout d => "timed out after " ++ d.text
  | .inner e => render e

end TimeoutError

namespace RetryExhausted

def retries (r : RetryExhausted ε) : Nat := r.attempts - 1

def mapError (f : ε → δ) (r : RetryExhausted ε) : RetryExhausted δ :=
  { r with error := f r.error }

def text (render : ε → String) (r : RetryExhausted ε) : String :=
  "schedule stopped after " ++ toString r.attempts ++
    (if r.attempts = 1 then " attempt in " else " attempts in ") ++
    r.elapsed.text ++ "; last error: " ++ render r.error

end RetryExhausted

def PromiseError.text : PromiseError → String
  | .alreadyFulfilled => "promise already fulfilled"

instance [Datum ε] : Datum (Annotated ε) where
  write a := .obj [("inner", write a.inner), ("trail", write a.trail)]
  read v := ⟨read (v.field "inner"), read (v.field "trail")⟩
  read_write a := by simp [Value.field, Value.field?]

instance [Datum ε] : Datum (TimeoutError ε) where
  write
    | .timeout d => .tagged "timeout" (write d)
    | .inner e => .tagged "inner" (write e)
  read v :=
    match v.field? "timeout" with
    | some d => .timeout (read d)
    | none => .inner (read (v.field "inner"))
  read_write e := by cases e <;> simp [Value.tagged, Value.field, Value.field?]

instance [Datum ε] : Datum (RetryExhausted ε) where
  write r := .obj [("attempts", write r.attempts), ("elapsed", write r.elapsed),
    ("error", write r.error)]
  read v := ⟨read (v.field "error"), read (v.field "attempts"), read (v.field "elapsed")⟩
  read_write r := by simp [Value.field, Value.field?]

instance : Datum PromiseError where
  write e := .str e.text
  read _ := .alreadyFulfilled
  read_write e := by cases e; rfl

end Effects
