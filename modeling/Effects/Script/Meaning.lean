import Effects.Race
import Effects.Schedule.Recurrence
import Effects.Script

/-!
What a script means: the effect that it describes, and for a policy its schedule.
-/

namespace Effects

open Routine

/-- The callback's own description. -/
def LatchId.text : String := "Callback \x7b .. \x7d"

def Delivering.run (env : Bindings) (callback : LatchId) : Delivering → Routine Unit
  | .success v => callback.succeed (v.eval env)
  | .failure v => callback.fail (v.eval env)
  | .describe => callback.succeed (.str LatchId.text)

def Delivering.runAll (env : Bindings) (calls : List Delivering) (callback : LatchId) :
    Routine Unit :=
  forEach (Delivering.run env callback) calls

namespace Effect

/-- Logs its steps, so that it can be seen when it is registered and when its token is run. -/
def traced (label : String) (deliver : LatchId → Routine Unit) : Effect Value Value :=
  .cancelable fun callback => do
    Routine.log (.str (label ++ ":registered"))
    deliver callback
    Routine.signal (Setting.flag label)
    return task (Routine.log (.str (label ++ ":token")))

/-- One more layer around an effect. -/
def layered (e : Effect Value Value) (f : Value → Value) : Layer → Effect Value Value
  | .map => e.map f
  | .flatMap => e.flatMap fun v => .pure (f v)
  | .mapError => e.mapError f
  | .handleErrorWith => e.handleErrorWith fun v => .raise (f v)
  | .uncancelable => e.uncancelable
  | .attempt => (e.attempt : Effect Value (Except Value Value)).flatMap fun
      | .ok v => .raise (f v)
      | .error v => .pure (f v)

def tower (layer : Layer) (f : Nat → Value → Value) (height : Nat) (e : Effect Value Value) :
    Effect Value Value :=
  (List.range height).foldl (fun e i => e.layered (f i) layer) e

/-- Applies a function `n` times, each time in a further step. -/
def tailRecursion (f : Value → Value) : Nat → Value → Effect Value Value
  | 0, acc => .defer do return .pure acc
  | n + 1, acc => .defer do return (.pure (f acc) : Effect Value Value).flatMap (tailRecursion f n)

/-- Counts the steps down to zero when it is done with those below. -/
def countdown : Nat → Effect Value Nat
  | 0 => .pure 0
  | n + 1 => ((unit : Effect Value Unit).flatMap fun _ => countdown n).map (· + 1)

/-- Whether at least `d` passed. -/
def took (e : Effect Value Value) (d : Duration) : Effect Value Value :=
  .defer do
    let since ← Routine.now
    return e.mapRunning fun _ => do
      return .bool (d.nanos ≤ (← Routine.now) - since)

def annotateAll (e : Effect Value Value) (message : String) (further : List String) :
    Effect Value Value :=
  (further.foldl annotateFurther (e.annotate message)).mapError fun a =>
    .record [("inner", a.inner), ("text", .str (a.text Value.text)), ("trail", write a.trail)]

def startAs (e : Effect Value Value) (c : ContextId) (name : String) : Effect Value Value :=
  (e.startOn c : Effect Value (Fiber Value Value)).mapRunning fun f => do
    FiberHold.keep name f
    return .null

/-- The winner's value; the loser is kept under a name. -/
def racePairAs (c : ContextId) (a b : Effect Value Value) (name : String) : Effect Value Value :=
  (racePair c a b).mapRunning fun
    | .inl (v, loser) => do
        FiberHold.keep name loser
        return .tagged "left" v
    | .inr (loser, v) => do
        FiberHold.keep name loser
        return .tagged "right" v

/-- The winner's value; the losers are kept under two names, in their order. -/
def raceTripleAs (x : ContextId) (a b c : Effect Value Value) (name₁ name₂ : String) :
    Effect Value Value :=
  (raceTriple x a b c).mapRunning fun r => do
    let (v, loser₁, loser₂) :=
      match r with
      | .first (v, f, g) => (Value.tagged "first" v, f, g)
      | .second (f, v, g) => (.tagged "second" v, f, g)
      | .third (f, g, v) => (.tagged "third" v, f, g)
    FiberHold.keep name₁ loser₁
    FiberHold.keep name₂ loser₂
    return v

def retriedUnder (make : Nat → Effect Value Value) (s : Schedule Value Value Value Value) :
    Effect Value Value :=
  (Schedule.retry make s).mapError fun r =>
    .tagged "exhausted" (.record [("attempts", .nat r.attempts), ("error", r.error),
      ("retries", .nat r.retries)])

end Effect

abbrev Plan := Schedule Value Value Value Value

mutual

def Script.meaning (s : Setting) (env : Bindings) : Script → Effect Value Value
  | .result r => .ofExcept (Expr.result env r)
  | .outcome v => .ofOutcome (read (v.eval env))
  | .unit => (Effect.unit : Effect Value Unit).shown
  | .never => .never
  | .boundary => (Effect.boundary : Effect Value Unit).shown
  | .sleep d => (Effect.sleep (read (d.eval env)) : Effect Value Unit).shown
  | .defer p => .defer do return p.meaning s env
  | .delay v => .delay do return v.eval env
  | .invoke r => .invoke do return Expr.result env r
  | .async onThread calls =>
      .async fun callback =>
        let deliver := Delivering.runAll env calls callback
        if onThread then fork deliver else deliver
  | .cancelable label calls => .traced label (Delivering.runAll env calls)
  | .command c => c.meaning s env
  | .cond c p q => if (c.eval env).truth then p.meaning s env else q.meaning s env
  | .runSync p => .delay do return write (← (p.meaning s env).resultOn .inline)
  | .runOutcome p => .delay do return write (← (p.meaning s env).outcomeOn .inline)
  | .took p d => (p.meaning s env).took (read (d.eval env))
  | .describe p => .delay do return .str (p.meaning s env).node.text
  | .map p x v => (p.meaning s env).map fun a => v.eval ((x, a) :: env)
  | .flatMap p x q => (p.meaning s env).flatMap fun a => q.meaning s ((x, a) :: env)
  | .followedBy p q => (p.meaning s env).followedBy (q.meaning s env)
  | .zip p q => ((p.meaning s env).zip (q.meaning s env)).shown
  | .void p => (p.meaning s env).void.shown
  | .handleErrorWith p e q =>
      (p.meaning s env).handleErrorWith fun a => q.meaning s ((e, a) :: env)
  | .handleError p e v => (p.meaning s env).handleError fun a => v.eval ((e, a) :: env)
  | .mapError p e v => (p.meaning s env).mapError fun a => v.eval ((e, a) :: env)
  | .attempt p => ((p.meaning s env).attempt : Effect Value (Except Value Value)).shown
  | .annotate p message further => (p.meaning s env).annotateAll message further
  | .continueOn p c => (p.meaning s env).continueOn (s.context c)
  | .uncancelable p => (p.meaning s env).uncancelable
  | .instrument p => (p.meaning s env).instrument
  | .tower layer height p x v =>
      .tower layer (fun i a => v.eval ((x, a) :: ("i", .nat i) :: env)) height (p.meaning s env)
  | .tailRecursion n acc x v =>
      .tailRecursion (fun a => v.eval ((x, a) :: env)) n (acc.eval env)
  | .countdown n => ⟨(Effect.countdown n).node⟩
  | .bracketCase acquire r c release use =>
      (acquire.meaning s env).bracketCase
        (fun a exit => (release.meaning s ((c, write exit) :: (r, a) :: env)).void)
        fun a => use.meaning s ((r, a) :: env)
  | .bracket acquire r release use =>
      (acquire.meaning s env).bracket (fun a => (release.meaning s ((r, a) :: env)).void)
        fun a => use.meaning s ((r, a) :: env)
  | .guarantee p finalizer => (p.meaning s env).guarantee (finalizer.meaning s env).void
  | .guaranteeCase p c finalizer =>
      (p.meaning s env).guaranteeCase fun exit => (finalizer.meaning s ((c, write exit) :: env)).void
  | .onCancel p finalizer => (p.meaning s env).onCancel (finalizer.meaning s env).void
  | .parMap₂ p q x y v =>
      .parMap₂ (p.meaning s env) (q.meaning s env) fun a b => v.eval ((y, b) :: (x, a) :: env)
  | .parMap₃ p q r x y z v =>
      .parMap₃ (p.meaning s env) (q.meaning s env) (r.meaning s env) fun a b c =>
        v.eval ((z, c) :: (y, b) :: (x, a) :: env)
  | .parZip p q => (Effect.parZip (p.meaning s env) (q.meaning s env)).shown
  | .parSequence branches => (Effect.parSequence (Script.meanings s env branches)).shown
  | .parTraverse items x p =>
      (Effect.parTraverse (items.eval env).items fun a => p.meaning s ((x, a) :: env)).shown
  | .start p c name => (p.meaning s env).startAs (s.context c) name
  | .race c p q => (Effects.race (s.context c) (p.meaning s env) (q.meaning s env)).shown
  | .racePair c p q name =>
      .racePairAs (s.context c) (p.meaning s env) (q.meaning s env) name
  | .race₃ c p q r =>
      (Effects.race₃ (s.context c) (p.meaning s env) (q.meaning s env) (r.meaning s env)).shown
  | .raceTriple c p q r name₁ name₂ =>
      .raceTripleAs (s.context c) (p.meaning s env) (q.meaning s env) (r.meaning s env) name₁ name₂
  | .timeout p c d =>
      ((p.meaning s env).timeout (s.context c) (read (d.eval env))).mapError write
  | .repeated p policy =>
      Schedule.repeat (fun n => p.meaning s (("n", .nat n) :: env)) (policy.meaning s env)
  | .retried p policy =>
      .retriedUnder (fun n => p.meaning s (("n", .nat n) :: env)) (policy.meaning s env)
  | .retriedOrElse p policy e o q =>
      Schedule.retryOrElse (fun n => p.meaning s (("n", .nat n) :: env)) (policy.meaning s env)
        fun error output => q.meaning s ((o, write output) :: (e, error) :: env)

def Script.meanings (s : Setting) (env : Bindings) : List Script → List (Effect Value Value)
  | [] => []
  | p :: rest => p.meaning s env :: Script.meanings s env rest

def Policy.meaning (s : Setting) (env : Bindings) : Policy → Plan
  | .forever => (Schedule.forever : Schedule Value Value Nat Nat).written
  | .recurs limit => (Schedule.recurs limit : Schedule Value Value Nat Nat).written
  | .spaced d => (Schedule.spaced d : Schedule Value Value Nat Nat).written
  | .once => (Schedule.once : Schedule Value Value Nat Unit).written
  | .identity => (Schedule.identity : Schedule Value Value Unit Value).written
  | .exponential base factor =>
      (Schedule.exponential base factor : Schedule Value Value Nat Duration).written
  | .linear base => (Schedule.linear base : Schedule Value Value Nat Duration).written
  | .fibonacci base =>
      (Schedule.fibonacci base : Schedule Value Value (Duration × Duration) Duration).written
  | .and a b => ((a.meaning s env).and (b.meaning s env)).written
  | .or a b => ((a.meaning s env).or (b.meaning s env)).written
  | .andThen a b => ((a.meaning s env).andThen (b.meaning s env)).written
  | .andThenEither a b => ((a.meaning s env).andThenEither (b.meaning s env)).written
  | .pipe a b => ((a.meaning s env).pipe (b.meaning s env)).written
  | .addDelay a d => (a.meaning s env).addDelay fun x => read (d.eval (("x", x) :: env))
  | .untilOutput a p => (a.meaning s env).untilOutput fun x => (p.eval (("x", x) :: env)).truth
  | .whileOutput a p => (a.meaning s env).whileOutput fun x => (p.eval (("x", x) :: env)).truth
  | .untilInput a p => (a.meaning s env).untilInput fun x => (p.eval (("x", x) :: env)).truth
  | .whileInput a p => (a.meaning s env).whileInput fun x => (p.eval (("x", x) :: env)).truth
  | .fold a zero f =>
      ((a.meaning s env).fold zero fun z x => f.eval (("x", x) :: ("z", z) :: env)).written
  | .collectAll a => (a.meaning s env).collectAll.written
  | .map a f => (a.meaning s env).map fun x => f.eval (("x", x) :: env)
  | .contramap a f => (a.meaning s env).contramap fun x => f.eval (("x", x) :: env)
  | .withMaxDelay a limit => (a.meaning s env).withMaxDelay limit
  | .jittered a => (a.meaning s env).jittered
  | .jitteredBetween a low high => (a.meaning s env).jitteredBetween low high
  | .custom initial output update =>
      { initial := initial.meaning s env
        extract := fun x state => output.eval (("s", state) :: ("x", x) :: env)
        update := fun x state => ⟨(update.meaning s (("s", state) :: ("x", x) :: env)).node⟩ }
  | .computed initial output decision =>
      .pure initial (fun x state => output.eval (("s", state) :: ("x", x) :: env))
        fun x state => read (decision.eval (("s", state) :: ("x", x) :: env))

end

end Effects
