import Effects.Proofs.Run.Answers

/-!
What can be seen of the brackets of a run, while other threads may cancel its connection, or change
anything else in the world, between any two of its steps.
-/

namespace Effects

inductive Event where
  /-- An acquire ended with a resource. -/
  | acquired (release : Value → ExitCase Value → Code) (resource : Value)
  /-- A use ended, or was passed over. -/
  | used (exit : Exit)
  /-- A finalizer begins. -/
  | releasing (finalizer : Node)
  | called (code : Code)
  /-- A bracket hands an exit to what is outside it. -/
  | closed (exit : Exit)

/-- Every acquired resource is released once its use has ended, with the resource and the way the
use ended; the brackets of the use and of the release are closed by then; and the exit of the use is
what the bracket ends with. -/
inductive Bracketed : List Event → Prop
  | nil : Bracketed []
  | called (code : Code) {rest : List Event} (h : Bracketed rest) : Bracketed (.called code :: rest)
  | bracket (release : Value → ExitCase Value → Code) (resource : Value) (exit : Exit)
      {use cleanup rest : List Event} (hu : Bracketed use) (hc : Bracketed cleanup)
      (h : Bracketed rest) :
      Bracketed (.acquired release resource :: (use ++ .used exit ::
        .releasing (.suspend (release resource exit.exitCase)) ::
        .called (release resource exit.exitCase) :: (cleanup ++ .closed exit :: rest)))

theorem Bracketed.append {events rest : List Event} (h : Bracketed events)
    (hr : Bracketed rest) : Bracketed (events ++ rest) := by
  induction h with
  | nil => exact hr
  | called code _ ih => exact .called code ih
  | bracket release resource exit hu hc _ _ _ ih =>
    simpa only [List.cons_append, List.append_assoc] using
      Bracketed.bracket release resource exit hu hc ih

def Transition.marks : Transition → List Event
  | .enter finalizer _ (.releasing _ _ _) => [.releasing finalizer]
  | _ => []

def Machine.marks (env : Surroundings) (run : Run) (m : Machine) : List Event :=
  match m with
  | .focus (.bracketUse _ _ _) _ =>
      if env.canceled run.connection then [.used .canceled] else (m.step env run).marks
  | m => (m.step env run).marks

/-- The exit that a machine ends with, nothing else being left to do, when what it waits for in the
frame has ended. -/
def Frame.passed? (env : Surroundings) (exit : Exit) (run : Run) (frame : Frame) : Option Exit :=
  match frame.exited env exit run with
  | some (.finished exit _) => some exit
  | _ => none

def Frame.marks (env : Surroundings) (exit : Exit) (run : Run) : Frame → List Event
  | .acquiring _ release _ _ =>
      match exit with
      | .completed resource => [.acquired release resource]
      | _ => []
  | .using _ _ _ => [.used exit]
  | .releasing kept saved _ =>
      (((Frame.releasing kept saved []).passed? env exit run).map Event.closed).toList
  | _ => []

def World.marks (w : World) (here : Place) (a : Activity) : List Event :=
  let env := w.surroundings here.home
  match a.control, a.stack with
  | .drive m run, _ => if w.isCurrent here.home run.context then m.marks env run else []
  | .code (.give (.ended exit run)), frame :: _ => frame.marks env exit run
  | _, _ => []

theorem World.marks_atop (w : World) (here : Place) (a : Activity) (below : List Frame)
    (h : a.stack ≠ [] ∨ a.control.settles = false) :
    w.marks here (a.atop below) = w.marks here a := by
  obtain ⟨control, stack⟩ := a
  cases stack with
  | cons frame stack =>
      cases control with
      | code c =>
          cases c with
          | give r => cases r <;> rfl
          | _ => rfl
      | _ => rfl
  | nil =>
      cases control with
      | code c => cases c <;> first | rfl | simp [Control.settles] at h
      | _ => rfl

theorem World.marks_answering (w : World) (here : Place) (res : Except String Answer) :
    w.marks here ⟨.answering res, []⟩ = [] := by
  rcases res with _ | ((_ | _ | _ | _ | _ | _ | _ | _ | _ | _ | _ | _ | _ | _) | _ | _) <;> rfl

namespace Activity

/-- Inside code that the run has called; what runs there is not a part of it. -/
def inside (a : Activity) : Bool := a.stack.any Frame.isCode

/-- No panic goes through the run. -/
def Calm (a : Activity) : Prop := a.inside = false → ∀ message, a.control ≠ .unwinding message

end Activity

namespace Relay

/-- All that the run goes back to, on this thread and on those that wait for it. -/
def frames (s : Relay) : List Frame := s.activity.stack ++ s.left.flatMap Prod.snd

/-- The activity as it would be if one thread did it all. -/
def flat (s : Relay) : Activity := ⟨s.activity.control, s.frames⟩

/-- What is seen in the next step. -/
def events (s : Relay) : List Event :=
  if s.flat.inside then [] else s.world.marks s.place s.activity ++ s.calls.map .called

/-- A step of the run: of its own, to a thread of its context, or back to the one that waits. -/
inductive Moves : Relay → Relay → Prop
  | act {s : Relay} (h : s.activity.Acts s.world s.place) : Moves s s.own
  | hop {w : World} {here : Place} {machine : Machine} {run : Run} {stack : List Frame}
      {left : List (Place × List Frame)} (there : Place)
      (h : w.isCurrent here.home run.context = false) :
      Moves ⟨w, here, ⟨.drive machine run, stack⟩, left⟩
        ⟨w, there, ⟨.drive machine run, []⟩, (here, stack) :: left⟩
  | back {w : World} {here place : Place} {r : Except String Reply} {stack : List Frame}
      {left : List (Place × List Frame)} :
      Moves ⟨w, here, ⟨.ended r, []⟩, (place, stack) :: left⟩
        ⟨w, place, ⟨.returning r, stack⟩, left⟩

/-- A run without panics, and what is seen of it. Others do whatever they like between its steps. -/
inductive Runs (s : Relay) : List Event → Relay → Prop
  | start : Runs s [] s
  | move {events : List Event} {t u : Relay} (before : Runs s events t) (h : t.Moves u)
      (calm : u.flat.Calm) : Runs s (events ++ t.events) u
  | others {events : List Event} {t : Relay} (before : Runs s events t) (w : World) :
      Runs s events { t with world := w }

/-- What changes when an answer is handed from thread to thread. -/
inductive Passes : Control → Control → Prop
  | drive (machine : Machine) (run : Run) : Passes (.drive machine run) (.drive machine run)
  | give (r : Reply) : Passes (.code (.give r)) (.ended (.ok r))
  | build (n : Node) : Passes (.code (.build n)) (.ended (.ok .unit))
  | guard (token : Option Code) : Passes (.code (.guard token)) (.ended (.ok .unit))
  | unwinding (message : String) : Passes (.unwinding message) (.ended (.error message))
  | reply (r : Reply) : Passes (.ended (.ok r)) (.code (.give r))
  | failure (message : String) : Passes (.ended (.error message)) (.unwinding message)

/-- A step hands the control on as it is, or is the step of one thread that does it all. -/
theorem Moves.flat_cases {s t : Relay} (h : s.Moves t) :
    t.frames = s.frames ∧ Passes s.activity.control t.activity.control ∧ s.events = [] ∨
    t.flat = (s.world.act s.place s.flat).2 ∧
      s.events = (if s.flat.inside then [] else s.world.marks s.place s.flat ++
        (s.world.calls s.place s.flat).map .called) ∧ s.activity.Acts s.world s.place := by
  cases h with
  | hop there h =>
    refine .inl ⟨by simp [frames], .drive _ _, ?_⟩
    simp [events, calls, World.calls, World.marks, h]
  | back =>
    refine .inl ⟨by simp [frames], ?_, by simp [events, calls, World.calls, World.marks]⟩
    rename_i r _ _
    cases r <;> constructor
  | act h =>
    obtain ⟨w, here, ⟨control, stack⟩, left⟩ := s
    obtain ⟨res, hres⟩ | ⟨r, hr⟩ | hs := Activity.settled_or ⟨control, stack⟩
    · cases hres
      refine .inl ⟨?_, ?_, ?_⟩
      · simp [frames, own, World.act_answering]
      · simp only [own, World.act_answering]
        rcases res with message | (r | n | t) <;> constructor
      · simp [events, calls, World.calls_answering, World.marks_answering]
    · cases hr
      exact h.elim
    · have hflat : flat ⟨w, here, ⟨control, stack⟩, left⟩ =
          Activity.atop ⟨control, stack⟩ (left.flatMap Prod.snd) := rfl
      refine .inr ⟨?_, ?_, h⟩
      · rw [hflat, World.act_atop _ _ _ _ hs]
        rfl
      · rw [hflat, World.marks_atop _ _ _ _ hs, World.calls_atop _ _ _ _ hs]
        rfl

end Relay
end Effects
