import Effects.Script.Command

/-!
Scripts: computations written down, with expressions in the places of functions. A name between a
script and what follows it is bound there.
-/

namespace Effects

/-- One call of a callback. -/
inductive Delivering where
  | success (v : Expr)
  | failure (v : Expr)
  | describe

/-- One layer of a tower of like layers. -/
inductive Layer where
  | map
  | flatMap
  | mapError
  | handleErrorWith
  | uncancelable
  | attempt

mutual

inductive Script where
  | result (r : Except Expr Expr)
  | outcome (v : Expr)
  | unit
  | never
  | boundary
  | sleep (d : Expr)
  | defer (p : Script)
  | delay (v : Expr)
  | invoke (r : Except Expr Expr)
  | async (onThread : Bool) (calls : List Delivering)
  | cancelable (label : String) (calls : List Delivering)
  | command (c : Command)
  | cond (c : Expr) (p q : Script)
  | runSync (p : Script)
  | runOutcome (p : Script)
  | took (p : Script) (d : Expr)
  | describe (p : Script)
  | map (p : Script) (x : String) (v : Expr)
  | flatMap (p : Script) (x : String) (q : Script)
  | followedBy (p q : Script)
  | zip (p q : Script)
  | void (p : Script)
  | handleErrorWith (p : Script) (e : String) (q : Script)
  | handleError (p : Script) (e : String) (v : Expr)
  | mapError (p : Script) (e : String) (v : Expr)
  | attempt (p : Script)
  | annotate (p : Script) (message : String) (further : List String)
  | continueOn (p : Script) (context : String)
  | uncancelable (p : Script)
  | instrument (p : Script)
  | tower (layer : Layer) (height : Nat) (p : Script) (x : String) (v : Expr)
  | tailRecursion (n : Nat) (acc : Expr) (x : String) (v : Expr)
  | countdown (n : Nat)
  | bracketCase (acquire : Script) (r c : String) (release use : Script)
  | bracket (acquire : Script) (r : String) (release use : Script)
  | guarantee (p finalizer : Script)
  | guaranteeCase (p : Script) (c : String) (finalizer : Script)
  | onCancel (p finalizer : Script)
  | parMap₂ (p q : Script) (x y : String) (v : Expr)
  | parMap₃ (p q r : Script) (x y z : String) (v : Expr)
  | parZip (p q : Script)
  | parSequence (branches : List Script)
  | parTraverse (items : Expr) (x : String) (p : Script)
  | start (p : Script) (context fiber : String)
  | race (context : String) (p q : Script)
  | racePair (context : String) (p q : Script) (loser : String)
  | race₃ (context : String) (p q r : Script)
  | raceTriple (context : String) (p q r : Script) (loser₁ loser₂ : String)
  | timeout (p : Script) (context : String) (d : Expr)
  | repeated (p : Script) (policy : Policy)
  | retried (p : Script) (policy : Policy)
  | retriedOrElse (p : Script) (policy : Policy) (e o : String) (q : Script)

/-- A schedule written down. -/
inductive Policy where
  | forever
  | recurs (limit : Nat)
  | spaced (d : Duration)
  | once
  | identity
  | exponential (base : Duration) (factor : Float)
  | linear (base : Duration)
  | fibonacci (base : Duration)
  | and (a b : Policy)
  | or (a b : Policy)
  | andThen (a b : Policy)
  | andThenEither (a b : Policy)
  | pipe (a b : Policy)
  | addDelay (a : Policy) (d : Expr)
  | untilOutput (a : Policy) (p : Expr)
  | whileOutput (a : Policy) (p : Expr)
  | untilInput (a : Policy) (p : Expr)
  | whileInput (a : Policy) (p : Expr)
  | fold (a : Policy) (zero : Value) (f : Expr)
  | collectAll (a : Policy)
  | map (a : Policy) (f : Expr)
  | contramap (a : Policy) (f : Expr)
  | withMaxDelay (a : Policy) (limit : Duration)
  | jittered (a : Policy)
  | jitteredBetween (a : Policy) (low high : Float)
  | custom (initial : Script) (output : Expr) (update : Script)
  | computed (initial : Value) (output decision : Expr)

end

end Effects
