import Effects.Proofs.Run.Walk

/-!
What an activity does when each of its steps finds whatever world the others have made, on whatever
thread it has come to: only the operations that it performs are seen. A machine does the same over
any continuations and frames, until it has ended.
-/

namespace Effects

/-- An operation, and where it is performed. -/
structure Operation where
  world : World
  place : Place
  op : Op

abbrev Trace := List Operation

namespace Activity

def Able (w : World) (here : Place) (a : Activity) : Prop :=
  match a.control with
  | .ended _ => False
  | .drive _ run => w.isCurrent here.home run.context = true
  | .code (.perform op _) => w.ready op = true
  | _ => True

def performs (w : World) (here : Place) (a : Activity) : Trace :=
  match a.control with
  | .code (.perform op _) => [⟨w, here, op⟩]
  | _ => []

/-- In that many steps. -/
inductive Reaches : Nat → Activity → Trace → Activity → Prop
  | stay (a : Activity) : Reaches 0 a [] a
  | act {n : Nat} {w : World} {here : Place} {a b : Activity} {t : Trace} (h : a.Able w here)
      (rest : Reaches n (w.act here a).2 t b) : Reaches (n + 1) a (a.performs w here ++ t) b

/-- Has answered with the exit of a machine, or has left it with a panic. -/
def yielding : Except String (Exit × Run) → Activity
  | .ok (exit, run) => ⟨.code (.give (.ended exit run)), []⟩
  | .error message => ⟨.unwinding message, []⟩

variable {m n : Nat} {a b c : Activity} {s t : Trace} {x y : Except String (Exit × Run)}

theorem Reaches.trans (h : Reaches m a s b) (h' : Reaches n b t c) :
    Reaches (m + n) a (s ++ t) c := by
  induction h with
  | stay => simpa using h'
  | act hable _ ih =>
    rw [List.append_assoc, Nat.add_right_comm]
    exact .act hable (ih h')

theorem yielding_inj : yielding x = yielding y ↔ x = y := by
  constructor
  · intro h
    cases x <;> cases y <;> simp_all [yielding, Prod.ext_iff]
  · rintro rfl
    rfl

theorem reaches_of_ended {r : Except String Reply} (hc : a.control = .ended r)
    (h : Reaches n a t b) : b = a := by
  cases h with
  | stay => rfl
  | act hable => simp [Able, hc] at hable

/-- An end is reached from itself only. -/
theorem yielding_reaches : Reaches n (yielding x) t (yielding y) ↔ n = 0 ∧ t = [] ∧ x = y := by
  constructor
  · intro h
    generalize ha : yielding x = a at h
    generalize hb : yielding y = b at h
    cases h with
    | stay => exact ⟨rfl, rfl, yielding_inj.1 (ha.trans hb.symm)⟩
    | @act _ w here _ _ _ _ rest =>
      have hended : ∃ r, (w.act here a).2.control = .ended r := by
        subst ha
        cases x with
        | ok p => exact ⟨_, rfl⟩
        | error message => exact ⟨_, rfl⟩
      obtain ⟨r, hr⟩ := hended
      obtain rfl := reaches_of_ended hr rest
      rw [← hb] at hr
      cases y <;> simp [yielding] at hr
  · rintro ⟨rfl, rfl, rfl⟩
    exact .stay _

/-- Takes one step, that shows nothing and does not depend on where it is taken. -/
structure Silent (a b : Activity) : Prop where
  performs : ∀ w here, a.performs w here = []
  act : ∀ w here, a.Able w here → (w.act here a).2 = b
  able : ∃ w here, a.Able w here
  not_yielding : ∀ x, a ≠ yielding x

theorem Silent.reaches_of (h : Silent a b) (hr : Reaches n a t (yielding x)) :
    ∃ m, n = m + 1 ∧ Reaches m b t (yielding x) := by
  generalize hc : yielding x = c at hr
  cases hr with
  | stay => exact absurd hc.symm (h.not_yielding x)
  | @act n w here _ _ _ hable rest =>
    rw [h.act w here hable] at rest
    rw [h.performs]
    exact ⟨n, rfl, rest⟩

theorem Silent.reaches (h : Silent a b) (hr : Reaches n b t c) : Reaches (n + 1) a t c := by
  obtain ⟨w, here, hable⟩ := h.able
  rw [← h.act w here hable] at hr
  have hall := Reaches.act hable hr
  rwa [h.performs] at hall

end Activity

namespace Machine

/-- The same machine with more to do after its end. -/
def upon (next : List Cont) : Machine → Machine
  | .focus node rest => .focus node (rest ++ next)
  | .unwind exit rest => .unwind exit (rest ++ next)

end Machine

namespace Frame

def upon (next : List Cont) : Frame → Frame
  | .node rest run => .node (rest ++ next) run
  | .acquiring use release saved rest => .acquiring use release saved (rest ++ next)
  | .opening resource release rest run => .opening resource release (rest ++ next) run
  | .using resource release rest => .using resource release (rest ++ next)
  | .releasing exit saved rest => .releasing exit saved (rest ++ next)
  | .instrumented rest => .instrumented (rest ++ next)
  | frame => frame

end Frame

/-- The second activity does what the first one does, over these continuations and frames. -/
inductive Onto (next : List Cont) (below : List Frame) : Activity → Activity → Prop
  | machine (m : Machine) (run : Run) :
      Onto next below ⟨.drive m run, []⟩ ⟨.drive (m.upon next) run, below⟩
  | frame (control : Control) (above : List Frame) (f : Frame) (h : f.isCode = false) :
      Onto next below ⟨control, above ++ [f]⟩ ⟨control, above ++ f.upon next :: below⟩
  | ended (env : Surroundings) (exit : Exit) (run : Run) :
      Onto next below (.yielding (.ok (exit, run)))
        (.after (Machine.resume env exit next run) below)
  | panicked (message : String) :
      Onto next below (.yielding (.error message)) ⟨.unwinding message, below⟩

namespace Onto

variable {next : List Cont} {below : List Frame} {a b c : Activity} {t : Trace}

open Activity Machine

theorem continueInto (env : Surroundings) (closure : Code) (rest : List Cont) (run : Run) :
    Onto next below (after (continueInto env closure rest run) [])
      (after (continueInto env closure (rest ++ next) run) below) := by
  unfold Machine.continueInto
  split
  · exact frame (.code closure) [] (.node rest run) rfl
  · exact machine (.focus (.suspend closure) rest) run

theorem resume (env : Surroundings) (exit : Exit) (rest : List Cont) (run : Run) :
    Onto next below (after (resume env exit rest run) [])
      (after (resume env exit (rest ++ next) run) below) := by
  cases rest with
  | nil => exact ended env exit run
  | cons cont rest =>
    cases cont <;> cases exit <;>
      first
        | exact continueInto env _ rest run
        | exact machine (.unwind _ rest) _

theorem step (env : Surroundings) (m : Machine) (run : Run) :
    Onto next below (after (m.step env run) []) (after ((m.upon next).step env run) below) := by
  cases m with
  | unwind exit rest => exact resume env exit rest run
  | focus node rest =>
    cases node with
    | pure | raise => exact resume env _ rest run
    | suspend | async | parMap | parSequence =>
      exact frame (.code _) [] (.node rest run) rfl
    | map inner f => exact machine (.focus inner (.map f :: rest)) run
    | flatMap inner f => exact machine (.focus inner (.flatMap f :: rest)) run
    | handleErrorWith inner f => exact machine (.focus inner (.recover f :: rest)) run
    | continueOn inner target => exact machine (.focus inner (.switch target :: rest)) run
    | uncancelable inner =>
      exact machine (.focus inner (.restore run.connection :: rest)) (shielded run)
    | loop body seed => exact machine (.focus (.flatMap (body seed) _) rest) run
    | bracket acquire use release =>
      simp only [upon, Machine.step]
      split
      · exact resume env .canceled rest run
      · exact frame (.drive (.focus acquire []) (shielded run)) []
          (.acquiring use release run.connection rest) rfl
    | bracketUse resource use release =>
      simp only [upon, Machine.step]
      split
      · exact machine (.focus (.bracketRelease _ .canceled) rest) run
      · exact frame (.code (use resource)) [] (.opening resource release rest run) rfl
    | bracketRelease finalizer exit =>
      exact frame (.drive (.focus finalizer []) (shielded run)) []
        (.releasing exit run.connection rest) rfl
    | instrument inner =>
      exact frame (.drive (.focus inner []) run) [] (.instrumented rest) rfl

theorem exited (env : Surroundings) (exit : Exit) (run : Run) (f : Frame)
    (h : f.isCode = false) :
    Onto next below (finish env exit run f []) (finish env exit run (f.upon next) below) := by
  cases f with
  | node rest run => exact resume env exit rest run
  | acquiring use release saved rest =>
    cases exit with
    | completed resource => exact machine (.focus (.bracketUse resource use release) rest) _
    | errored | canceled => exact resume env _ rest _
  | opening => exact panicked _
  | «using» resource release rest => exact machine (.focus (.bracketRelease _ exit) rest) run
  | releasing exit saved rest => exact resume env exit rest _
  | instrumented rest => exact resume env exit rest run
  | call | attempt | tokens => cases h

theorem reply (env : Surroundings) (answer : Answer) (f : Frame) (h : f.isCode = false) :
    Onto next below (Activity.reply env answer f [])
      (Activity.reply env answer (f.upon next) below) := by
  cases answer with
  | node n =>
    cases f with
    | node rest run => exact machine (.focus n rest) run
    | opening resource release rest run =>
      exact frame (.drive (.focus n []) run) [] (.using resource release rest) rfl
    | tokens => cases h
    | _ => exact panicked _
  | token => cases f <;> first | exact panicked _ | cases h
  | reply r =>
    cases r with
    | ended exit run =>
      cases f with
      | tokens => cases h
      | _ => exact exited env exit run _ h
    | outcome exit =>
      cases f with
      | node rest run => exact resume env exit rest run
      | call | attempt | tokens => cases h
      | _ => exact panicked _
    | _ => cases f <;> first | exact panicked _ | cases h

/-- Has not come to its end. -/
def Open (a : Activity) : Prop := a.stack ≠ [] ∨ a.control.settles = false

theorem act_atop {w : World} {here : Place} (h : Open a) (fs : List Frame) :
    (w.act here (a.atop fs)).2 = (w.act here a).2.atop fs :=
  congrArg Prod.snd (World.act_atop w here a fs h)

theorem act (h : Onto next below a b) (ha : Open a) (w : World) (here : Place) :
    (a.Able w here ↔ b.Able w here) ∧ a.performs w here = b.performs w here ∧
      (a.Able w here → Onto next below (w.act here a).2 (w.act here b).2) := by
  cases h with
  | machine m run =>
    refine ⟨Iff.rfl, rfl, fun hable => ?_⟩
    have hcurrent : w.isCurrent here.home run.context = true := hable
    simp only [World.act, hcurrent, if_true]
    exact step _ m run
  | frame control above f hf =>
    refine ⟨Iff.rfl, rfl, fun _ => ?_⟩
    by_cases hs : Open ⟨control, above⟩
    · have hact : (w.act here ⟨control, above ++ [f]⟩).2 =
          (w.act here ⟨control, above⟩).2.atop [f] :=
        act_atop hs [f]
      have hact' : (w.act here ⟨control, above ++ f.upon next :: below⟩).2 =
          (w.act here ⟨control, above⟩).2.atop (f.upon next :: below) :=
        act_atop hs (f.upon next :: below)
      rw [hact, hact']
      exact frame _ _ f hf
    · obtain ⟨hstack, hc⟩ := not_or.1 hs
      obtain rfl : above = [] := by simpa using hstack
      have hupon : (f.upon next).isCode = false := by cases f <;> first | rfl | cases hf
      cases control with
      | drive => simp [Control.settles] at hc
      | code c =>
        cases c with
        | perform | panic => simp [Control.settles] at hc
        | give r => exact reply (w.surroundings here.home) (.reply r) f hf
        | build n => exact reply (w.surroundings here.home) (.node n) f hf
        | guard t => exact reply (w.surroundings here.home) (.token t) f hf
      | unwinding message =>
        simp only [List.nil_append, World.act_unwinding w here hf,
          World.act_unwinding w here hupon]
        exact panicked message
      | ended r => exact frame (.ended r) [] f hf
  | ended | panicked => simp [Open, yielding, Control.settles] at ha

theorem of_yielding {x : Except String (Exit × Run)} (h : Onto next below a (yielding x)) :
    ∃ y, a = yielding y := by
  generalize hb : yielding x = b at h
  cases h with
  | machine | frame => cases x <;> simp [yielding] at hb
  | ended env exit run => exact ⟨.ok (exit, run), rfl⟩
  | panicked message => exact ⟨.error message, rfl⟩

theorem open_or (h : Onto next below a b) : Open a ∨ ∃ y, a = yielding y := by
  cases h with
  | machine => exact .inl (.inr rfl)
  | frame => exact .inl (.inl (by simp))
  | ended env exit run => exact .inr ⟨.ok (exit, run), rfl⟩
  | panicked message => exact .inr ⟨.error message, rfl⟩

theorem of_ended {exit : Exit} {run : Run} (h : Onto next below (yielding (.ok (exit, run))) b) :
    ∃ env, b = after (Machine.resume env exit next run) below := by
  generalize ha : yielding (.ok (exit, run)) = a at h
  cases h with
  | machine | panicked => simp [yielding] at ha
  | frame => simp [yielding] at ha
  | ended env =>
    obtain ⟨rfl, rfl⟩ := Prod.mk.inj (Except.ok.inj (yielding_inj.1 ha))
    exact ⟨env, rfl⟩

theorem of_panicked {message : String} (h : Onto next below (yielding (.error message)) b) :
    b = ⟨.unwinding message, below⟩ := by
  generalize ha : yielding (.error message) = a at h
  cases h with
  | machine | ended => simp [yielding] at ha
  | frame => simp [yielding] at ha
  | panicked =>
    obtain rfl := Except.error.inj (yielding_inj.1 ha)
    rfl

end Onto

namespace Activity.Reaches

variable {n : Nat} {next : List Cont} {below : List Frame} {a b : Activity} {t : Trace}
  {x : Except String (Exit × Run)}

theorem onto (h : Reaches n a t (yielding x)) (hab : Onto next below a b) :
    ∃ d, Reaches n b t d ∧ Onto next below (yielding x) d := by
  generalize hc : yielding x = c at h ⊢
  induction h generalizing b with
  | stay => exact ⟨b, .stay b, hab⟩
  | @act n w here a c t hable rest ih =>
    obtain ha | ⟨y, rfl⟩ := hab.open_or
    · obtain ⟨hiff, hperforms, hact⟩ := hab.act ha w here
      obtain ⟨d, hd, hcd⟩ := ih (hact hable) hc
      rw [hperforms]
      exact ⟨d, .act (hiff.1 hable) hd, hcd⟩
    · subst hc
      exact absurd (yielding_reaches.1 (Reaches.act hable rest)).1 (Nat.succ_ne_zero n)

/-- The machine comes to its end before what is below goes on. -/
theorem split (h : Reaches n b t (yielding x)) (hab : Onto next below a b) :
    ∃ n₁ n₂ t₁ t₂ y d, Reaches n₁ a t₁ (yielding y) ∧ Onto next below (yielding y) d ∧
      Reaches n₂ d t₂ (yielding x) ∧ n = n₁ + n₂ ∧ t = t₁ ++ t₂ := by
  generalize hc : yielding x = c at h ⊢
  induction h generalizing a with
  | stay =>
    subst hc
    obtain ⟨y, rfl⟩ := hab.of_yielding
    exact ⟨0, 0, [], [], y, _, .stay _, hab, .stay _, rfl, rfl⟩
  | @act n w here b c t hable rest ih =>
    obtain ha | ⟨y, rfl⟩ := hab.open_or
    · obtain ⟨hiff, hperforms, hact⟩ := hab.act ha w here
      obtain ⟨n₁, n₂, t₁, t₂, y, d, hfirst, hd, hrest, rfl, rfl⟩ := ih (hact (hiff.2 hable)) hc
      refine ⟨n₁ + 1, n₂, _, t₂, y, d, .act (hiff.2 hable) hfirst, hd, hrest, by omega, ?_⟩
      rw [hperforms, List.append_assoc]
    · exact ⟨0, n + 1, [], _, y, b, .stay _, hab, .act hable rest, by omega, rfl⟩

end Activity.Reaches
end Effects
