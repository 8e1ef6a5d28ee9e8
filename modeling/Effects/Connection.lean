/-!
The cancellation state of a run. While it is active it holds the tokens that interrupt whatever the
run waits for, the most recent first. Canceling takes all of them out at once; after that a token
pushed is a token to run. A connection can also be immune, and then it keeps nothing.
-/

namespace Effects

inductive Connection (τ : Type) where
  | uncancelable
  | active (tokens : List τ)
  | canceled

namespace Connection

variable {τ : Type}

def new : Connection τ := .active []

def isCanceled : Connection τ → Bool
  | .canceled => true
  | _ => false

def isUncancelable : Connection τ → Bool
  | .uncancelable => true
  | _ => false

/-- Keeps the token, or gives it back to be run at once. -/
def push (token : τ) : Connection τ → Connection τ × Option τ
  | .uncancelable => (.uncancelable, none)
  | .active tokens => (.active (token :: tokens), none)
  | .canceled => (.canceled, some token)

/-- Takes out the most recent token. -/
def pop : Connection τ → Connection τ × Option τ
  | .active (token :: rest) => (.active rest, some token)
  | c => (c, none)

/-- The tokens to run, in the order to run them. -/
def cancel : Connection τ → Connection τ × List τ
  | .uncancelable => (.uncancelable, [])
  | .active tokens => (.canceled, tokens)
  | .canceled => (.canceled, [])

/-- Makes a canceled connection active again, without tokens; whether it was canceled. -/
def reactivate : Connection τ → Connection τ × Bool
  | .canceled => (.active [], true)
  | c => (c, false)

def stateText : Connection τ → String
  | .uncancelable => "uncancelable"
  | .active tokens => "active(" ++ toString tokens.length ++ ")"
  | .canceled => "canceled"

def text (c : Connection τ) : String :=
  "Connection \x7b state: \"" ++ c.stateText ++ "\" \x7d"

def tokens : Connection τ → List τ
  | .active tokens => tokens
  | _ => []

@[simp] theorem tokens_cancel (c : Connection τ) : c.cancel.1.tokens = [] := by
  cases c <;> rfl

@[simp] theorem cancel_snd (c : Connection τ) : c.cancel.2 = c.tokens := by
  cases c <;> rfl

theorem pop_push {c : Connection τ} {token : τ} (h : (c.push token).2 = none)
    (hc : c.isUncancelable = false) : (c.push token).1.pop = (c, some token) := by
  cases c <;> simp_all [push, pop, isUncancelable]

end Connection
end Effects
