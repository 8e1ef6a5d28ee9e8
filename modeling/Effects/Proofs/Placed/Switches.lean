import Effects.Proofs.Placed.Kinds
import Effects.Proofs.Balance.Scopes

/-!
The switches of a run from context to context: each is made by the exit of a computation, whatever
it is, on its way to what follows.
-/

namespace Effects

/-- The exit gets to a switch to this context. -/
def Cont.switches : List Cont → List ContextId
  | .switch target :: _ => [target]
  | _ => []

def Machine.switches (env : Surroundings) (run : Run) : Machine → List ContextId
  | .unwind _ next | .focus (.pure _) next | .focus (.raise _) next => Cont.switches next
  | .focus (.bracket _ _ _) next =>
      if env.canceled run.connection then Cont.switches next else []
  | .focus _ _ => []

def Frame.switches (exit : Exit) : Frame → List ContextId
  | .acquiring _ _ _ next =>
      match exit with
      | .completed _ => []
      | _ => Cont.switches next
  | .releasing _ _ next | .instrumented next | .node next _ => Cont.switches next
  | _ => []

/-- The switch that the next step of an activity makes. -/
def World.switches (w : World) (here : Place) (a : Activity) : List ContextId :=
  match a.control, a.stack with
  | .drive m run, _ =>
      if w.isCurrent here.home run.context then m.switches (w.surroundings here.home) run else []
  | .code (.give (.ended exit _)), frame :: _ => frame.switches exit
  | .code (.give (.outcome exit)), .node next run :: _ => (Frame.node next run).switches exit
  | _, _ => []

/-- The run that the code above the frame has been called by. -/
def Frame.lends? : Frame → Option Run
  | .node _ run | .opening _ _ _ run => some run
  | _ => none

namespace Relay

/-- The switch of the run in the next step; what the code that it has called does is none. -/
def switches (t : Relay) : List ContextId :=
  if t.flat.inside then [] else t.world.switches t.place t.activity

/-- A run on whatever threads, among the threads of its world, and the contexts that it has switched
to, which exist. -/
inductive Travels (s : Relay) : List ContextId → Relay → Prop
  | start : Travels s [] s
  | own {switched : List ContextId} {t u : Relay} (before : Travels s switched t) (h : t.Moves u)
      (exist : ∀ d ∈ t.switches, d < t.world.contexts.size) : Travels s (switched ++ t.switches) u
  | thread {switched : List ContextId} {t : Relay} (before : Travels s switched t) (i : ThreadId) :
      Travels s switched { t with world := t.world.step i }
  | passing {switched : List ContextId} {t : Relay} (before : Travels s switched t) (nanos : Nat) :
      Travels s switched { t with world := { t.world with clock := t.world.clock + nanos } }

end Relay

/-- The context that a run is on: the one it has switched to last. -/
def ContextId.after (start : ContextId) (switched : List ContextId) : ContextId :=
  switched.getLast?.getD start

theorem ContextId.after_append (start : ContextId) (switched more : List ContextId) :
    start.after (switched ++ more) = (start.after switched).after more := by
  rw [after, List.getLast?_append, Option.getD_or]
  rfl

open Evaluation (isEval)

/-- The run is on that context from then on, and closures are called on a thread of it. -/
def Transition.On (env : Surroundings) (d : ContextId) : Transition → Prop
  | .go _ run | .finished _ run => run.context = d
  | .enter _ run frame => run.context = d ∧ isEval frame = true
  | .call _ frame => env.current d = true ∧ ∃ run, frame.lends? = some run ∧ run.context = d

variable {env : Surroundings} {exit : Exit} {run : Run} {next : List Cont} {frame : Frame}
  {t : Transition}

namespace Machine

theorem continueInto_on (env : Surroundings) (closure : Code) (next : List Cont) (run : Run) :
    (continueInto env closure next run).On env run.context := by
  unfold continueInto
  split
  · exact ⟨‹_›, run, rfl, rfl⟩
  · rfl

theorem resume_on (env : Surroundings) (exit : Exit) (next : List Cont) (run : Run) :
    (resume env exit next run).On env (run.context.after (Cont.switches next)) := by
  cases next with
  | nil => rfl
  | cons cont rest =>
    cases cont with
    | map f | flatMap f | recover f =>
      cases exit <;> first | rfl | exact continueInto_on env _ rest run
    | switch target | restore saved => rfl

theorem step_on (m : Machine) (h : env.current run.context = true) :
    (m.step env run).On env (run.context.after (m.switches env run)) := by
  cases m with
  | unwind exit next => exact resume_on env exit next run
  | focus node next =>
    cases node with
    | pure v => exact resume_on env (.completed v) next run
    | raise e => exact resume_on env (.errored e) next run
    | suspend | async | parMap | parSequence => exact ⟨h, run, rfl, rfl⟩
    | map | flatMap | handleErrorWith | continueOn | uncancelable | loop => rfl
    | bracketRelease | instrument => exact ⟨rfl, rfl⟩
    | bracket acquire use release =>
      simp only [step, switches]
      split
      · exact resume_on env .canceled next run
      · exact ⟨rfl, rfl⟩
    | bracketUse resource use release =>
      simp only [step]
      split
      · rfl
      · exact ⟨h, run, rfl, rfl⟩

theorem resume_calls (run : Run) (h : (resume env exit next run).calls ≠ []) :
    env.current run.context = true := by
  by_contra hc
  apply h
  have hlater : ∀ closure rest, (continueInto env closure rest run).calls = [] := by
    intro closure rest
    rw [continueInto, if_neg hc]
    rfl
  cases next with
  | nil => rfl
  | cons cont rest =>
    cases cont with
    | map f | flatMap f | recover f => cases exit <;> first | rfl | exact hlater _ rest
    | switch target | restore saved => rfl

end Machine

namespace Frame

/-- An evaluation hands over the context that it has ended on. -/
theorem exited_on (hf : isEval frame = true) (h : frame.exited env exit run = some t) :
    t.On env (run.context.after (frame.switches exit)) := by
  cases frame with
  | acquiring use release saved next =>
    cases exit <;> obtain rfl := Option.some.inj h
    case completed resource => rfl
    all_goals exact Machine.resume_on env _ next { run with connection := saved }
  | releasing kept saved next =>
    obtain rfl := Option.some.inj h
    exact Machine.resume_on env kept next _
  | instrumented next =>
    obtain rfl := Option.some.inj h
    exact Machine.resume_on env exit next run
  | node | opening | call | attempt | tokens => cases hf
  | _ =>
    obtain rfl := Option.some.inj h
    rfl

theorem exited_calls (hf : isEval frame = true)
    (h : ((frame.exited env exit run).map Transition.calls).getD [] ≠ []) :
    env.current run.context = true := by
  cases frame with
  | acquiring use release saved next =>
    cases exit with
    | completed resource => exact absurd rfl h
    | _ => exact Machine.resume_calls { run with connection := saved } h
  | releasing kept saved next =>
    exact Machine.resume_calls { run with connection := saved } h
  | instrumented next => exact Machine.resume_calls run h
  | node | opening | call | attempt | tokens => cases hf
  | _ => exact absurd rfl h

theorem isCode_of_isEval (hf : isEval frame = true) : frame.isCode = false := by
  cases frame <;> first | rfl | cases hf

theorem isCode_of_lends (hf : frame.lends? = some run) : frame.isCode = false := by
  cases frame <;> first | rfl | cases hf

end Frame
end Effects
