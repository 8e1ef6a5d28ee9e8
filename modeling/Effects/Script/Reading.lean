import Effects.Expr.Reading
import Effects.Script

/-!
The written form of scripts and policies: an array whose first item is the name of a form. What the
other items are depends on the form, so each is read in every way that it could be meant.
-/

namespace Effects

/-- A number as a factor; it can also be spelled out where it is none. -/
def Value.factor : Value → Float
  | .int n => Float.ofInt n
  | .decimal m places =>
      let size := Float.ofScientific m.natAbs true places
      if m < 0 then -size else size
  | .str "inf" => 1.0 / 0.0
  | .str "-inf" => -1.0 / 0.0
  | _ => 0.0 / 0.0

namespace Script

/-- An item of a form. -/
structure Item where
  value : Value
  script : Except String Script
  policy : Except String Policy

namespace Item

def expr (i : Item) : Except String Expr := Expr.ofValue i.value

def name (i : Item) : Except String String :=
  match i.value with
  | .str s => .ok s
  | v => .error ("a name expected: " ++ v.compact)

def text (i : Item) : String := i.value.text

def number (i : Item) : Except String Nat :=
  match i.value with
  | .int n => .ok n.toNat
  | v => .error ("a number expected: " ++ v.compact)

def duration (i : Item) : Duration := read i.value

def factor (i : Item) : Float := i.value.factor

/-- The second item as the value or, after `err`, the error of a result. -/
def result (side v : Item) : Except String (Except Expr Expr) := do
  match side.value with
  | .str "ok" => return .ok (← v.expr)
  | .str "err" => return .error (← v.expr)
  | w => throw ("ok or err expected: " ++ w.compact)

def calls (i : Item) : Except String (List Delivering) :=
  i.value.items.mapM fun
    | .arr [.str "success", v] => return .success (← Expr.ofValue v)
    | .arr [.str "failure", v] => return .failure (← Expr.ofValue v)
    | .arr [.str "call", .str "ok", v] => return .success (← Expr.ofValue v)
    | .arr [.str "call", .str "err", v] => return .failure (← Expr.ofValue v)
    | .arr [.str "debug"] => return .describe
    | v => throw ("no such delivery: " ++ v.compact)

def layer (i : Item) : Except String Layer :=
  match i.value with
  | .str "map" => .ok .map
  | .str "flat_map" => .ok .flatMap
  | .str "map_err" => .ok .mapError
  | .str "handle_error_with" => .ok .handleErrorWith
  | .str "uncancelable" => .ok .uncancelable
  | .str "attempt" => .ok .attempt
  | v => .error ("no such layer: " ++ v.compact)

end Item

/-- A reading of a form; none where the form is not of the family. -/
abbrev Family (α : Type) := String → List Item → Option (Except String α)

def constructors : Family Script
  | "pure", [v] => some do return .result (.ok (← v.expr))
  | "raise", [v] => some do return .result (.error (← v.expr))
  | "from_result", [side, v] => some do return .result (← side.result v)
  | "unit", [] => some (.ok .unit)
  | "defer", [p] => some do return .defer (← p.script)
  | "delay", [v] => some do return .delay (← v.expr)
  | "invoke", [side, v] => some do return .invoke (← side.result v)
  | "never", [] => some (.ok .never)
  | "sleep", [d] => some do return .sleep (← d.expr)
  | "boundary", [] => some (.ok .boundary)
  | "future", [side, v, _] => some do return .invoke (← side.result v)
  | "outcome", [v] => some do return .outcome (← v.expr)
  | "async", [place, calls] => some do return .async (place.value == .str "thread") (← calls.calls)
  | "cancelable", [label, calls] => some do return .cancelable label.text (← calls.calls)
  | _, _ => none

def steps : Family Script
  | "log", [v] => some do return .command (.log (← v.expr))
  | "panic", [v] => some do return .command (.panic (← v.expr))
  | "where", [] => some (.ok (.command .threadName))
  | "is_current", [c] => some do return .command (.isCurrent (← c.name))
  | "signal", [f] => some do return .command (.signal (← f.name))
  | "await", [f] => some do return .command (.await (← f.name))
  | "cancel_run", [] => some (.ok (.command .cancelRun))
  | "if", [c, p, q] => some do return .cond (← c.expr) (← p.script) (← q.script)
  | "run_sync", [p] => some do return .runSync (← p.script)
  | "run_outcome", [p] => some do return .runOutcome (← p.script)
  | "took", [p, d] => some do return .took (← p.script) (← d.expr)
  | "show", [p] => some do return .describe (← p.script)
  | _, _ => none

def sequencing : Family Script
  | "map", [p, x, v] => some do return .map (← p.script) (← x.name) (← v.expr)
  | "flat_map", [p, x, q] => some do return .flatMap (← p.script) (← x.name) (← q.script)
  | "flatten", [p, x, q] => some do return .flatMap (← p.script) (← x.name) (← q.script)
  | "followed_by", [p, q] => some do return .followedBy (← p.script) (← q.script)
  | "seq", [] => some (.ok .unit)
  | "seq", p :: rest => some do rest.foldlM (fun p q => return p.followedBy (← q.script)) (← p.script)
  | "zip", [p, q] => some do return .zip (← p.script) (← q.script)
  | "void", [p] => some do return .void (← p.script)
  | "handle_error_with", [p, e, q] =>
      some do return .handleErrorWith (← p.script) (← e.name) (← q.script)
  | "handle_error", [p, e, v] => some do return .handleError (← p.script) (← e.name) (← v.expr)
  | "map_err", [p, e, v] => some do return .mapError (← p.script) (← e.name) (← v.expr)
  | "attempt", [p] => some do return .attempt (← p.script)
  | "context", p :: message :: further =>
      some do return .annotate (← p.script) message.text (further.map Item.text)
  | "continue_on", [p, c] => some do return .continueOn (← p.script) (← c.name)
  | "uncancelable", [p] => some do return .uncancelable (← p.script)
  | "instrument", [p] => some do return .instrument (← p.script)
  | "iterate", [layer, n, p, x, v] =>
      some do return .tower (← layer.layer) (← n.number) (← p.script) (← x.name) (← v.expr)
  | "tailrec", [n, acc, x, v] =>
      some do return .tailRecursion (← n.number) (← acc.expr) (← x.name) (← v.expr)
  | "countdown", [n] => some do return .countdown (← n.number)
  | _, _ => none

def resources : Family Script
  | "bracket_case", [p, r, c, release, use] => some do
      return .bracketCase (← p.script) (← r.name) (← c.name) (← release.script) (← use.script)
  | "bracket", [p, r, release, use] => some do
      return .bracket (← p.script) (← r.name) (← release.script) (← use.script)
  | "guarantee", [p, finalizer] => some do return .guarantee (← p.script) (← finalizer.script)
  | "guarantee_case", [p, c, finalizer] => some do
      return .guaranteeCase (← p.script) (← c.name) (← finalizer.script)
  | "on_cancel", [p, finalizer] => some do return .onCancel (← p.script) (← finalizer.script)
  | _, _ => none

def parallel : Family Script
  | "par_map2", [p, q, x, y, v] => some do
      return .parMap₂ (← p.script) (← q.script) (← x.name) (← y.name) (← v.expr)
  | "par_map3", [p, q, r, x, y, z, v] => some do
      return .parMap₃ (← p.script) (← q.script) (← r.script) (← x.name) (← y.name) (← z.name)
        (← v.expr)
  | "par_zip", [p, q] => some do return .parZip (← p.script) (← q.script)
  | "par_sequence", branches => some do return .parSequence (← branches.mapM Item.script)
  | "par_traverse", [items, x, p] => some do
      return .parTraverse (← items.expr) (← x.name) (← p.script)
  | "race", [c, p, q] => some do return .race (← c.name) (← p.script) (← q.script)
  | "race_pair", [c, p, q, loser] => some do
      return .racePair (← c.name) (← p.script) (← q.script) (← loser.name)
  | "race3", [c, p, q, r] => some do
      return .race₃ (← c.name) (← p.script) (← q.script) (← r.script)
  | "race_triple", [c, p, q, r, loser₁, loser₂] => some do
      return .raceTriple (← c.name) (← p.script) (← q.script) (← r.script) (← loser₁.name)
        (← loser₂.name)
  | "timeout", [p, c, d] => some do return .timeout (← p.script) (← c.name) (← d.expr)
  | _, _ => none

def fiber (name : Item) (c : FiberCommand) : Option (Except String Script) :=
  some do return .command (.fiber (← name.name) c)

def fibers : Family Script
  | "start", [p, c, name] => some do return .start (← p.script) (← c.name) (← name.name)
  | "join", [f] => fiber f .join
  | "cancel", [f] => fiber f .cancel
  | "finished", [f] => fiber f .isFinished
  | "settled", [f] => fiber f .awaitFinished
  | "fiber_debug", [f] => fiber f .describe
  | _, _ => none

def slot (name : Item) (c : Except String SlotCommand) : Option (Except String Script) :=
  some do return .command (.slot (← name.name) (← c))

/-- How a slot is made; one that is full from the start has a value. -/
def slotKind (kind : String) (v : Except String Expr) : Except String SlotCommand :=
  match kind with
  | "empty" => .ok (.create none true)
  | "of" => return .create (some (← v)) true
  | "uncancelable_empty" => .ok (.create none false)
  | "uncancelable_of" => return .create (some (← v)) false
  | kind => .error ("no such slot: " ++ kind)

def slots : Family Script
  | "mvar", [m, kind] => slot m do slotKind (← kind.name) (.ok (.literal .null))
  | "mvar", [m, kind, v] => slot m do slotKind (← kind.name) v.expr
  | "put", [m, v] => slot m do return .put (← v.expr)
  | "take", [m] => slot m (.ok .take)
  | "read", [m] => slot m (.ok .read)
  | "try_put", [m, v] => slot m do return .tryPut (← v.expr)
  | "try_take", [m] => slot m (.ok .tryTake)
  | "try_read", [m] => slot m (.ok .tryRead)
  | "is_empty", [m] => slot m (.ok .isEmpty)
  | "mvar_state", [m] => slot m (.ok .describe)
  | "mvar_wait", [m, state] => slot m do return .awaitState (← state.name)
  | _, _ => none

def promise (name : Item) (c : Except String PromiseCommand) : Option (Except String Script) :=
  some do return .command (.promise (← name.name) (← c))

def promises : Family Script
  | "promise", [p, kind] => promise p do return .create ((← kind.name) != "uncancelable")
  | "complete", [p, v] => promise p do return .resolve (.ok (← v.expr))
  | "fail", [p, v] => promise p do return .resolve (.error (← v.expr))
  | "try_complete", [p, v] => promise p do return .tryResolve (.ok (← v.expr))
  | "try_fail", [p, v] => promise p do return .tryResolve (.error (← v.expr))
  | "get", [p] => promise p (.ok .get)
  | "try_get", [p] => promise p (.ok .tryGet)
  | "promise_state", [p] => promise p (.ok .describe)
  | "promise_wait", [p, state] => promise p do return .awaitState (← state.name)
  | _, _ => none

def drivers : Family Script
  | "repeat", [p, policy] => some do return .repeated (← p.script) (← policy.policy)
  | "retry", [p, policy] => some do return .retried (← p.script) (← policy.policy)
  | "retry_or_else", [p, policy, e, o, q] => some do
      return .retriedOrElse (← p.script) (← policy.policy) (← e.name) (← o.name) (← q.script)
  | _, _ => none

def timing : Family Policy
  | "forever", [] => some (.ok .forever)
  | "recurs", [n] => some do return .recurs (← n.number)
  | "spaced", [d] => some (.ok (.spaced d.duration))
  | "once", [] => some (.ok .once)
  | "identity", [] => some (.ok .identity)
  | "exponential", [d, factor] => some (.ok (.exponential d.duration factor.factor))
  | "linear", [d] => some (.ok (.linear d.duration))
  | "fibonacci", [d] => some (.ok (.fibonacci d.duration))
  | "custom", [initial, output, update] => some do
      return .custom (← initial.script) (← output.expr) (← update.script)
  | "pure", [initial, output, decision] => some do
      return .computed initial.value (← output.expr) (← decision.expr)
  | _, _ => none

def both (make : Policy → Policy → Policy) (a b : Item) : Option (Except String Policy) :=
  some do return make (← a.policy) (← b.policy)

def composing : Family Policy
  | "and", [a, b] => both .and a b
  | "zip", [a, b] => both .and a b
  | "or", [a, b] => both .or a b
  | "either", [a, b] => both .or a b
  | "and_then", [a, b] => both .andThen a b
  | "and_then_either", [a, b] => both .andThenEither a b
  | "pipe", [a, b] => both .pipe a b
  | _, _ => none

def adjusted (make : Policy → Expr → Policy) (a v : Item) : Option (Except String Policy) :=
  some do return make (← a.policy) (← v.expr)

def adjusting : Family Policy
  | "add_delay", [a, v] => adjusted .addDelay a v
  | "until_output", [a, v] => adjusted .untilOutput a v
  | "while_output", [a, v] => adjusted .whileOutput a v
  | "until_input", [a, v] => adjusted .untilInput a v
  | "while_input", [a, v] => adjusted .whileInput a v
  | "map", [a, v] => adjusted .map a v
  | "contramap", [a, v] => adjusted .contramap a v
  | "fold", [a, zero, v] => some do return .fold (← a.policy) zero.value (← v.expr)
  | "collect_all", [a] => some do return .collectAll (← a.policy)
  | "with_max_delay", [a, d] => some do return .withMaxDelay (← a.policy) d.duration
  | "jittered", [a] => some do return .jittered (← a.policy)
  | "jittered_between", [a, low, high] =>
      some do return .jitteredBetween (← a.policy) low.factor high.factor
  | _, _ => none

def form {α : Type} (kind : String) (families : List (Family α)) (name : String)
    (items : List Item) : Except String α :=
  (families.findSome? fun family => family name items).getD
    (.error ("no such " ++ kind ++ ": " ++ name))

def script (name : String) (items : List Item) : Except String Script :=
  form "program" [constructors, steps, sequencing, resources, parallel, fibers, slots, promises,
    drivers] name items

def policy (name : String) (items : List Item) : Except String Policy :=
  form "schedule" [timing, composing, adjusting] name items

mutual

def item : Value → Item
  | .arr (.str name :: rest) =>
      let parts := items rest
      ⟨.arr (.str name :: rest), script name parts, policy name parts⟩
  | v => ⟨v, .error "a program starts with a name", .error "a schedule starts with a name"⟩

def items : List Value → List Item
  | [] => []
  | v :: rest => item v :: items rest

end

def ofValue (v : Value) : Except String Script := (item v).script

end Script

def Policy.ofValue (v : Value) : Except String Policy := (Script.item v).policy

end Effects
