import Effects.Proofs.Yield.Turns
import Mathlib.Logic.Relation

/-!
An activity that is always where its machine wants to be: a hop is nothing, and a closure is called
at once. Whatever thread it really is on, it comes to the same, if need be a step later.
-/

namespace Effects

/-- All contexts are the thread's own. -/
def World.everywhere (w : World) : Surroundings := ⟨fun _ => true, w.isCanceled⟩

/-- One step of an activity where all contexts are its own. -/
def World.flow (w : World) (here : Place) (a : Activity) : World × Activity :=
  match a.control with
  | .drive machine run => (w, .after (machine.step w.everywhere run) a.stack)
  | .code (.perform op next) => ((w.perform here op).1, .respond next a.stack (w.perform here op).2)
  | .code (.give r) => (w, .close w.everywhere (.reply r) a.stack)
  | .code (.build n) => (w, .close w.everywhere (.node n) a.stack)
  | .code (.guard token) => (w, .close w.everywhere (.token token) a.stack)
  | .code (.panic message) => (w, ⟨.unwinding message, a.stack⟩)
  | .unwinding message => (w, .unwind message a.stack)
  | .ended _ => (w, a)

/-- The reply depends on the thread that performs the operation. -/
inductive Op.Observes : Op → Prop
  | threadName : Observes .threadName
  | isCurrent (c : ContextId) : Observes (.context c .isCurrent)

variable {w : World} {here : Place}

theorem World.perform_place {op : Op} (h : ¬ op.Observes) (here' : Place) :
    w.perform here op = w.perform here' op := by
  cases op with
  | threadName => exact absurd .threadName h
  | context c op =>
    cases op with
    | isCurrent => exact absurd (.isCurrent c) h
    | _ => rfl
  | _ => rfl

namespace Machine

/-- Only whether the run's context is the thread's own matters to what an exit is handed to. -/
theorem resume_current {env env' : Surroundings} {run : Run}
    (h : env.current run.context = env'.current run.context) (exit : Exit) (next : List Cont) :
    resume env exit next run = resume env' exit next run := by
  cases next with
  | nil => rfl
  | cons cont next =>
    cases cont <;> cases exit <;> simp only [resume, continueInto, h]

theorem step_current {env env' : Surroundings} {run : Run}
    (h : env.current run.context = env'.current run.context) (hcanceled : env.canceled = env'.canceled)
    (m : Machine) : m.step env run = m.step env' run := by
  have hresume := resume_current h
  cases m with
  | unwind exit next => exact hresume exit next
  | focus node next =>
    cases node with
    | bracket | bracketUse => simp only [step, hcanceled, hresume]
    | _ => first | rfl | exact hresume _ next

end Machine

namespace Activity

/-- The closure is to be called as the next step, and then is called. -/
inductive Defers : Activity → Activity → Prop
  | mk (closure : Code) (next : List Cont) (run : Run) (fs : List Frame) :
      Defers ⟨.drive (.focus (.suspend closure) next) run, fs⟩ ⟨.code closure, .node next run :: fs⟩

variable {a b c : Activity}

theorem resume_defers (env : Surroundings) (exit : Exit) (next : List Cont) (run : Run)
    (fs : List Frame) :
    after (Machine.resume env exit next run) fs = after (Machine.resume w.everywhere exit next run) fs ∨
      Defers (after (Machine.resume env exit next run) fs)
        (after (Machine.resume w.everywhere exit next run) fs) := by
  have hinto : ∀ (f : Value → Code) (v : Value) (rest : List Cont),
      after (Machine.continueInto env (f v) rest run) fs =
        after (Machine.continueInto w.everywhere (f v) rest run) fs ∨
      Defers (after (Machine.continueInto env (f v) rest run) fs)
        (after (Machine.continueInto w.everywhere (f v) rest run) fs) := by
    intro f v rest
    unfold Machine.continueInto
    split
    · exact .inl rfl
    · exact .inr (.mk (f v) rest run fs)
  cases next with
  | nil => exact .inl rfl
  | cons cont next =>
    cases cont <;> cases exit <;> first | exact .inl rfl | exact hinto _ _ next

theorem reply_defers (env : Surroundings) (answer : Answer) (f : Frame) (fs : List Frame) :
    reply env answer f fs = reply w.everywhere answer f fs ∨
      Defers (reply env answer f fs) (reply w.everywhere answer f fs) := by
  have hfinish : ∀ exit run, finish env exit run f fs = finish w.everywhere exit run f fs ∨
      Defers (finish env exit run f fs) (finish w.everywhere exit run f fs) := by
    intro exit run
    cases f with
    | acquiring use release saved next =>
      cases exit with
      | completed => exact .inl rfl
      | errored | canceled => exact resume_defers env _ next _ fs
    | node next run => exact resume_defers env exit next run fs
    | releasing exit saved next => exact resume_defers env exit next _ fs
    | instrumented next => exact resume_defers env exit next run fs
    | _ => exact .inl rfl
  cases answer with
  | node | token => cases f <;> exact .inl rfl
  | reply r =>
    cases r with
    | ended exit run =>
      cases f with
      | tokens => exact .inl rfl
      | _ => exact hfinish exit run
    | outcome exit =>
      cases f with
      | node next run => exact resume_defers env exit next run fs
      | _ => exact .inl rfl
    | _ => cases f <;> exact .inl rfl

/-- On its thread an activity does the same, but that it may have to call the closure yet. -/
theorem act_defers (h : a.Able w here) :
    w.act here a = w.flow here a ∨
      (w.act here a).1 = (w.flow here a).1 ∧ Defers (w.act here a).2 (w.flow here a).2 := by
  obtain ⟨control, stack⟩ := a
  have hclose : ∀ answer, close (w.surroundings here.home) answer stack =
        close w.everywhere answer stack ∨
      Defers (close (w.surroundings here.home) answer stack) (close w.everywhere answer stack) := by
    intro answer
    cases stack with
    | nil => exact .inl rfl
    | cons f fs => exact reply_defers _ answer f fs
  cases control with
  | drive m run =>
    have hcurrent : w.isCurrent here.home run.context = true := h
    have hstep : m.step (w.surroundings here.home) run = m.step w.everywhere run :=
      @Machine.step_current (w.surroundings here.home) w.everywhere run hcurrent rfl m
    refine .inl ?_
    simp only [World.act, World.flow, hcurrent, if_true, hstep]
  | code x =>
    cases x with
    | perform | panic => exact .inl rfl
    | give | build | guard => exact (hclose _).imp (congrArg (Prod.mk w)) fun h => ⟨rfl, h⟩
  | unwinding | ended => exact .inl rfl

/-- Takes one step, wherever and whenever it is taken, of which nothing is seen. -/
structure Glides (a b : Activity) : Prop where
  op : a.op? = none
  flow : ∀ w here, World.flow w here a = (w, b)
  ends : ∀ r, b.control ≠ .ended r

abbrev GlidesTo : Activity → Activity → Prop := Relation.ReflTransGen Glides

theorem Defers.glides (h : Defers a b) : Glides a b := by
  cases h
  exact ⟨rfl, fun _ _ => rfl, nofun⟩

variable {m m' : Machine} {run run' : Run} {fs : List Frame}

theorem glides_go (h : ∀ w : World, m.step w.everywhere run = .go m' run') :
    Glides ⟨.drive m run, fs⟩ ⟨.drive m' run', fs⟩ where
  op := rfl
  flow w _ := congrArg (fun t => (w, after t fs)) (h w)
  ends := nofun

theorem glides_call {closure : Code} {f : Frame}
    (h : ∀ w : World, m.step w.everywhere run = .call closure f) :
    Glides ⟨.drive m run, fs⟩ ⟨.code closure, f :: fs⟩ where
  op := rfl
  flow w _ := congrArg (fun t => (w, after t fs)) (h w)
  ends := nofun

theorem glides_build (node : Node) (next : List Cont) (run : Run) (fs : List Frame) :
    Glides ⟨.code (.build node), .node next run :: fs⟩ ⟨.drive (.focus node next) run, fs⟩ :=
  ⟨rfl, fun _ _ => rfl, nofun⟩

theorem glides_resume {exit : Exit} {next : List Cont}
    (h : ∀ w : World, m.step w.everywhere run = Machine.resume w.everywhere exit next run') :
    Glides ⟨.drive m run, fs⟩ (after (Machine.resume World.start.everywhere exit next run') fs) where
  op := rfl
  flow w _ := by
    have hresume : m.step w.everywhere run =
        Machine.resume World.start.everywhere exit next run' :=
      (h w).trans (Machine.resume_current rfl exit next)
    exact congrArg (fun t => (w, after t fs)) hresume
  ends _ := after_ne_ended _ fs _

end Activity
end Effects
