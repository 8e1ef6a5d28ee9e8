import Effects.Proofs.Bracket.Composed
import Effects.Proofs.Bracket.Events

/-!
Brackets that have been opened, the innermost first, and what has to follow before all of them are
closed. Whatever a run of composed computations is at, its frames tell which brackets are open.
-/

namespace Effects

inductive Pending where
  | held (release : Value → ExitCase Value → Code) (resource : Value)
  | due (release : Value → ExitCase Value → Code) (resource : Value) (exit : Exit)
  | calling (release : Code) (exit : Exit)
  | cleaning (exit : Exit)

/-- The cleanup, the exit of the bracket, and whatever comes after it. -/
def Cleaned (exit : Exit) (after : List Event → Prop) (events : List Event) : Prop :=
  ∃ cleanup rest, Bracketed cleanup ∧ after rest ∧ events = cleanup ++ .closed exit :: rest

def Closing : List Pending → List Event → Prop
  | [], events => Bracketed events
  | .cleaning exit :: pending, events => Cleaned exit (Closing pending) events
  | .calling release exit :: pending, events =>
      ∃ rest, Cleaned exit (Closing pending) rest ∧ events = .called release :: rest
  | .due release resource exit :: pending, events =>
      ∃ rest, Cleaned exit (Closing pending) rest ∧
        events = .releasing (.suspend (release resource exit.exitCase)) ::
          .called (release resource exit.exitCase) :: rest
  | .held release resource :: pending, events =>
      ∃ use exit rest, Bracketed use ∧ Cleaned exit (Closing pending) rest ∧
        events = use ++ .used exit :: .releasing (.suspend (release resource exit.exitCase)) ::
          .called (release resource exit.exitCase) :: rest

/-- Parts of the computation run, and not what a bracket does between them. -/
def Steady : List Pending → Prop
  | .due _ _ _ :: _ | .calling _ _ :: _ => False
  | _ => True

namespace Closing

variable {pending : List Pending} {events : List Event}
  {release : Value → ExitCase Value → Code} {resource : Value} {exit : Exit}

theorem after_bracketed (hs : Steady pending) {first : List Event} (hf : Bracketed first)
    (h : Closing pending events) : Closing pending (first ++ events) := by
  match pending, hs with
  | [], _ => exact hf.append h
  | .held release resource :: pending, _ =>
    obtain ⟨use, exit, rest, hu, hc, rfl⟩ := h
    exact ⟨first ++ use, exit, rest, hf.append hu, hc, (List.append_assoc ..).symm⟩
  | .cleaning exit :: pending, _ =>
    obtain ⟨cleanup, rest, hc, ha, rfl⟩ := h
    exact ⟨first ++ cleanup, rest, hf.append hc, ha, (List.append_assoc ..).symm⟩

theorem after_called (hs : Steady pending) (code : Code) (h : Closing pending events) :
    Closing pending (.called code :: events) :=
  after_bracketed hs (.called code .nil) h

theorem after_calls (hs : Steady pending) (calls : List Code) (h : Closing pending events) :
    Closing pending (calls.map .called ++ events) := by
  induction calls with
  | nil => exact h
  | cons code calls ih => exact after_called hs code ih

theorem after_acquired (hs : Steady pending)
    (h : Closing (.held release resource :: pending) events) :
    Closing pending (.acquired release resource :: events) := by
  obtain ⟨use, exit, _, hu, ⟨cleanup, rest, hc, ha, rfl⟩, rfl⟩ := h
  simpa only [List.cons_append, List.append_assoc, List.nil_append] using
    after_bracketed hs (.bracket release resource exit hu hc .nil) ha

theorem after_used (exit : Exit) (h : Closing (.due release resource exit :: pending) events) :
    Closing (.held release resource :: pending) (.used exit :: events) := by
  obtain ⟨rest, hc, rfl⟩ := h
  exact ⟨[], exit, rest, .nil, hc, rfl⟩

theorem after_releasing
    (h : Closing (.calling (release resource exit.exitCase) exit :: pending) events) :
    Closing (.due release resource exit :: pending)
      (.releasing (.suspend (release resource exit.exitCase)) :: events) := by
  obtain ⟨rest, hc, rfl⟩ := h
  exact ⟨rest, hc, rfl⟩

theorem after_release {code : Code} (h : Closing (.cleaning exit :: pending) events) :
    Closing (.calling code exit :: pending) (.called code :: events) :=
  ⟨events, h, rfl⟩

theorem after_closed (h : Closing pending events) :
    Closing (.cleaning exit :: pending) (.closed exit :: events) :=
  ⟨[], events, .nil, h, rfl⟩

/-- All that is open can be closed. -/
theorem nonempty : (pending : List Pending) → ∃ events, Closing pending events
  | [] => ⟨[], .nil⟩
  | .cleaning _ :: pending =>
    have ⟨_, h⟩ := nonempty pending
    ⟨_, after_closed h⟩
  | .calling _ _ :: pending =>
    have ⟨_, h⟩ := nonempty pending
    ⟨_, after_release (after_closed h)⟩
  | .due _ _ _ :: pending =>
    have ⟨_, h⟩ := nonempty pending
    ⟨_, after_releasing (after_release (after_closed h))⟩
  | .held _ _ :: pending =>
    have ⟨_, h⟩ := nonempty pending
    ⟨_, after_used .canceled (after_releasing (after_release (after_closed h)))⟩

end Closing

def Cont.Composed : Cont → Prop
  | .map f | .flatMap f | .recover f => ∀ v, (f v).Builds
  | .switch _ | .restore _ => True

/-- The open brackets of a machine that waits in these frames. -/
inductive Pends : List Frame → List Pending → Prop
  | nil : Pends [] []
  | node {next : List Cont} {run : Run} {fs : List Frame} {ps : List Pending}
      (h : ∀ cont ∈ next, cont.Composed) (below : Pends fs ps) : Pends (.node next run :: fs) ps
  | acquiring {use : Value → Code} {release : Value → ExitCase Value → Code}
      {saved : ConnectionId} {next : List Cont} {fs : List Frame} {ps : List Pending}
      (hu : ∀ v, (use v).Builds) (hr : ∀ v c, (release v c).Builds)
      (h : ∀ cont ∈ next, cont.Composed) (below : Pends fs ps) :
      Pends (.acquiring use release saved next :: fs) ps
  | opening {resource : Value} {release : Value → ExitCase Value → Code} {next : List Cont}
      {run : Run} {fs : List Frame} {ps : List Pending} (hr : ∀ v c, (release v c).Builds)
      (h : ∀ cont ∈ next, cont.Composed) (below : Pends fs ps) :
      Pends (.opening resource release next run :: fs) (.held release resource :: ps)
  | inUse {resource : Value} {release : Value → ExitCase Value → Code} {next : List Cont}
      {fs : List Frame} {ps : List Pending} (hr : ∀ v c, (release v c).Builds)
      (h : ∀ cont ∈ next, cont.Composed) (below : Pends fs ps) :
      Pends (.using resource release next :: fs) (.held release resource :: ps)
  | releasing {exit : Exit} {saved : ConnectionId} {next : List Cont} {fs : List Frame}
      {ps : List Pending} (h : ∀ cont ∈ next, cont.Composed) (below : Pends fs ps) :
      Pends (.releasing exit saved next :: fs) (.cleaning exit :: ps)
  | instrumented {next : List Cont} {fs : List Frame} {ps : List Pending}
      (h : ∀ cont ∈ next, cont.Composed) (below : Pends fs ps) :
      Pends (.instrumented next :: fs) ps

/-- What a run is at, and the brackets that are open then. -/
inductive Stands : Activity → List Pending → Prop
  | focus {n : Node} {next : List Cont} {run : Run} {fs : List Frame} {ps : List Pending}
      (hn : n.Composed) (h : ∀ cont ∈ next, cont.Composed) (below : Pends fs ps) :
      Stands ⟨.drive (.focus n next) run, fs⟩ ps
  | unwind {exit : Exit} {next : List Cont} {run : Run} {fs : List Frame} {ps : List Pending}
      (h : ∀ cont ∈ next, cont.Composed) (below : Pends fs ps) :
      Stands ⟨.drive (.unwind exit next) run, fs⟩ ps
  | use {resource : Value} {use : Value → Code} {release : Value → ExitCase Value → Code}
      {next : List Cont} {run : Run} {fs : List Frame} {ps : List Pending}
      (hu : ∀ v, (use v).Builds) (hr : ∀ v c, (release v c).Builds)
      (h : ∀ cont ∈ next, cont.Composed) (below : Pends fs ps) :
      Stands ⟨.drive (.focus (.bracketUse resource use release) next) run, fs⟩
        (.held release resource :: ps)
  | release (exit : Exit) {resource : Value} {release : Value → ExitCase Value → Code}
      {next : List Cont} {run : Run} {fs : List Frame} {ps : List Pending}
      (hr : ∀ v c, (release v c).Builds) (h : ∀ cont ∈ next, cont.Composed)
      (below : Pends fs ps) :
      Stands ⟨.drive (.focus (.bracketRelease (.suspend (release resource exit.exitCase)) exit)
        next) run, fs⟩ (.due release resource exit :: ps)
  | finalizer {release : Code} {exit : Exit} {saved : ConnectionId} {next : List Cont} {run : Run}
      {fs : List Frame} {ps : List Pending} (hr : release.Builds)
      (h : ∀ cont ∈ next, cont.Composed) (below : Pends fs ps) :
      Stands ⟨.drive (.focus (.suspend release) []) run, .releasing exit saved next :: fs⟩
        (.calling release exit :: ps)
  | ahead {a : Activity} {fs : List Frame} {ps : List Pending} (ha : Ahead Code.Builds a)
      (hm : ∀ message, a ≠ ⟨.unwinding message, []⟩) (below : Pends fs ps) :
      Stands (a.atop fs) ps
  | ended {r : Reply} {fs : List Frame} {ps : List Pending} (below : Pends fs ps) :
      Stands ⟨.ended (.ok r), fs⟩ ps

theorem Stands.code {c : Code} {fs : List Frame} {ps : List Pending} (hc : c.Builds)
    (below : Pends fs ps) : Stands ⟨.code c, fs⟩ ps :=
  .ahead (.code hc) (by simp) below

namespace Pends

variable {fs : List Frame} {ps : List Pending}

theorem plain (h : Pends fs ps) (control : Control) : Activity.inside ⟨control, fs⟩ = false := by
  induction h with
  | nil => rfl
  | node _ _ ih | releasing _ _ ih | instrumented _ _ ih => exact ih
  | opening _ _ _ ih | inUse _ _ _ ih => exact ih
  | acquiring _ _ _ _ ih => exact ih

theorem not_inside (h : Pends fs ps) {control : Control} {p : Prop}
    (hi : Activity.inside ⟨control, fs⟩ = true) : p := by
  simp [h.plain] at hi

theorem steady (h : Pends fs ps) : Steady ps := by
  induction h with
  | nil | opening | inUse | releasing => trivial
  | node _ _ ih | acquiring _ _ _ _ ih | instrumented _ _ ih => exact ih

end Pends

/-- What the run is at after a transition, and what is seen of the transition. -/
def Transition.Leads (t : Transition) (fs : List Frame) (ps : List Pending) : Prop :=
  t.marks = [] ∧ Stands (Activity.after t fs) ps

section Steps

variable {env : Surroundings} {exit : Exit} {next : List Cont} {run : Run} {fs : List Frame}
  {ps : List Pending}

theorem Machine.continueInto_leads {closure : Code} (hc : closure.Builds)
    (h : ∀ cont ∈ next, cont.Composed) (below : Pends fs ps) :
    (Machine.continueInto env closure next run).Leads fs ps := by
  unfold Machine.continueInto
  split
  · exact ⟨rfl, .code hc (.node h below)⟩
  · exact ⟨rfl, .focus (.suspend hc) h below⟩

theorem Machine.resume_leads (h : ∀ cont ∈ next, cont.Composed) (below : Pends fs ps) :
    (Machine.resume env exit next run).Leads fs ps := by
  cases next with
  | nil => exact ⟨by cases exit <;> rfl, by cases exit <;> exact .code (.give _) below⟩
  | cons cont rest =>
    obtain ⟨hcont, hrest⟩ := List.forall_mem_cons.1 h
    cases cont with
    | map f | flatMap f =>
      cases exit with
      | completed v => exact continueInto_leads (hcont v) hrest below
      | errored | canceled => exact ⟨rfl, .unwind hrest below⟩
    | recover f =>
      cases exit with
      | errored e => exact continueInto_leads (hcont e) hrest below
      | completed | canceled => exact ⟨rfl, .unwind hrest below⟩
    | switch | restore => cases exit <;> exact ⟨rfl, .unwind hrest below⟩

theorem Machine.step_leads {n : Node} (hn : n.Composed) (h : ∀ cont ∈ next, cont.Composed)
    (below : Pends fs ps) : ((Machine.focus n next).step env run).Leads fs ps := by
  cases hn with
  | pure v | raise e => exact resume_leads h below
  | suspend hc => exact ⟨rfl, .code hc (.node h below)⟩
  | async register =>
    exact ⟨rfl, .code (Routine.Leads.suspend _ _ _ fun _ => .give _) (.node h below)⟩
  | map hn hf | flatMap hn hf | handleErrorWith hn hf =>
    exact ⟨rfl, .focus hn (List.forall_mem_cons.2 ⟨hf, h⟩) below⟩
  | continueOn target hn => exact ⟨rfl, .focus hn (List.forall_mem_cons.2 ⟨trivial, h⟩) below⟩
  | uncancelable hn => exact ⟨rfl, .focus hn (List.forall_mem_cons.2 ⟨trivial, h⟩) below⟩
  | bracket ha hu hr =>
    simp only [step]
    split
    · exact resume_leads h below
    · exact ⟨rfl, .focus ha (by simp) (.acquiring hu hr h below)⟩
  | parMap branches hf => exact ⟨rfl, .code (Group.builds_code _ hf _) (.node h below)⟩
  | parSequence branches =>
    exact ⟨rfl, .code (Group.builds_code _ (fun _ => .give _) _) (.node h below)⟩
  | instrument hn => exact ⟨rfl, .focus hn (by simp) (.instrumented h below)⟩
  | loop seed hb =>
    refine ⟨rfl, .focus (.flatMap (hb seed) fun v => .build ?_) h below⟩
    unfold nextRound
    split
    · exact .loop _ hb
    · exact .pure _

end Steps
end Effects
