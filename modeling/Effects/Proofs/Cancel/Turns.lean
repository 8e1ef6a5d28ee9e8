import Effects.Proofs.Cancel.Regions

/-!
A step of a run, as one thread that does it all would take it.
-/

namespace Effects

open Suspension

variable {c : ConnectionId} {ts : List Code} {run : Run} {next : List Cont} {fs : List Frame}
  {s : Connection Code} {a b : Activity} {awaited : Option (LatchId → Code)} {w : World}
  {here : Place} {control control' : Control} {hosts : Hosts}

/-- The run goes on elsewhere: on a thread that takes a machine over, or on the one that waits. -/
inductive Hands (w : World) (here : Place) : Control → Control → Prop
  | hop (m : Machine) {run : Run} (h : w.isCurrent here.home run.context = false) :
      Hands w here (.drive m run) (.drive m run)
  | answer (res : Except String Answer) : Hands w here (.answering res) (.ended (ending res))
  | back (r : Except String Reply) : Hands w here (.ended r) (.returning r)
  | idle (r : Except String Reply) : Hands w here (.ended r) (.ended r)

namespace Hands

theorem of_drive {m : Machine} {run : Run} (h : Hands w here (.drive m run) control') :
    control' = .drive m run := by
  generalize hk : Control.drive m run = k at h
  cases h with
  | hop => cases hk; rfl
  | answer res => rcases res with message | (r | n | t) <;> cases hk
  | back | idle => cases hk

theorem of_give {r : Reply} (h : Hands w here (.code (.give r)) control') :
    control' = .ended (.ok r) := by
  generalize hk : Control.code (.give r) = k at h
  cases h with
  | answer res =>
    rcases res with message | (r | n | t) <;> cases hk
    rfl
  | _ => cases hk

theorem of_unwinding {message : String} (h : Hands w here (.unwinding message) control') :
    control' = .ended (.error message) := by
  generalize hk : Control.unwinding message = k at h
  cases h with
  | answer res =>
    rcases res with message | (r | n | t) <;> cases hk
    rfl
  | _ => cases hk

theorem of_ended {r : Except String Reply} (h : Hands w here (.ended r) control') :
    control' = .ended r ∨ control' = .returning r := by
  generalize hk : Control.ended r = k at h
  cases h with
  | answer res => rcases res with message | (r | n | t) <;> cases hk
  | hop => cases hk
  | back => cases hk; exact .inr rfl
  | idle => cases hk; exact .inl rfl

theorem settles {x : Code} (h : Hands w here (.code x) control') :
    Control.settles (.code x) = true := by
  generalize hk : Control.code x = k at h
  cases h with
  | answer res => exact Control.settles_answering res
  | _ => cases hk

theorem passes (h : Hands w here control control') :
    control' = control ∨ Relay.Passes control control' := by
  cases h with
  | hop => exact .inl rfl
  | answer res => rcases res with message | (r | n | t) <;> exact .inr (by constructor)
  | back r => cases r <;> exact .inr (by constructor)
  | idle => exact .inl rfl

theorem fails (hf : Activity.Fails ⟨control, fs⟩) (h : Hands w here control control') :
    Activity.Fails ⟨control', fs⟩ := by
  obtain ⟨hi, message, rfl | rfl⟩ := hf
  · exact ⟨hi, message, .inr h.of_unwinding⟩
  · exact ⟨hi, message, h.of_ended.symm⟩

end Hands

theorem Relay.step_proper (hosts : Hosts) {t : Relay} (h : t.activity.Proper) :
    (t.step hosts).activity.Proper := by
  obtain ⟨w, here, ⟨control, stack⟩, left⟩ := t
  cases control with
  | drive m run =>
    simp only [step]
    split
    · exact World.proper_act w here h
    · exact Activity.proper_of_ne fun _ => by simp
  | ended r =>
    cases left with
    | nil => exact h
    | cons p left => exact proper_returning r p.2
  | code | unwinding => exact World.proper_act w here h

/-- What is seen of a step. -/
def World.events (w : World) (here : Place) (a : Activity) : List Event :=
  if a.inside then [] else w.marks here a ++ (w.calls here a).map .called

theorem Relay.own_flat {t : Relay}
    (hs : t.activity.stack ≠ [] ∨ t.activity.control.settles = false) :
    t.own.world = (t.world.act t.place t.flat).1 ∧ t.own.flat = (t.world.act t.place t.flat).2 ∧
      t.events = t.world.events t.place t.flat := by
  have hflat : t.flat = t.activity.atop (t.left.flatMap Prod.snd) := rfl
  rw [World.events, hflat, World.act_atop _ _ _ _ hs, World.marks_atop _ _ _ _ hs,
    World.calls_atop _ _ _ _ hs]
  exact ⟨rfl, rfl, rfl⟩

namespace Relay

/-- Nothing is left to do, on any thread. -/
def Over (t : Relay) : Prop := ∃ r, t.activity = ⟨.ended r, []⟩ ∧ t.left = []

/-- For how long the control may still go from thread to thread, or a panic from frame to frame. -/
def pace (t : Relay) : Nat :=
  match t.activity.control with
  | .drive _ run => if t.place.home = some run.context then 0 else 1
  | .ended _ => t.frames.length + 2 * t.left.length
  | .code _ | .unwinding _ => t.frames.length + 2 * t.left.length + 1

/-- The next step hands the control on, until the run is over. -/
structure Handed (hosts : Hosts) (t : Relay) : Prop where
  world : (t.step hosts).world = t.world
  frames : (t.step hosts).frames = t.frames
  events : t.events = []
  hands : Hands t.world t.place t.activity.control (t.step hosts).activity.control
  pace : t.Over ∨ (t.step hosts).pace < t.pace

/-- The next step is the step of one thread that does it all. -/
structure Acted (hosts : Hosts) (t : Relay) : Prop where
  world : (t.step hosts).world = (t.world.act t.place t.flat).1
  flat : (t.step hosts).flat = (t.world.act t.place t.flat).2
  events : t.events = t.world.events t.place t.flat
  left : (t.step hosts).left = t.left
  acts : t.flat.Acts t.world t.place
  unsettled : t.flat.stack ≠ [] ∨ t.flat.control.settles = false

theorem handed_of_answering (res : Except String Answer) {place : Place}
    {left : List (Place × List Frame)} :
    Handed hosts ⟨w, place, ⟨.answering res, []⟩, left⟩ := by
  have hstep : step hosts ⟨w, place, ⟨.answering res, []⟩, left⟩ =
      ⟨w, place, ⟨.ended (ending res), []⟩, left⟩ := by
    rcases res with message | (r | n | token) <;> rfl
  refine ⟨by rw [hstep], by rw [hstep]; rfl, ?_, by rw [hstep]; exact .answer res, .inr ?_⟩
  · simp [Relay.events, calls, World.calls_answering, World.marks_answering]
  · rw [hstep]
    rcases res with message | (r | n | token) <;> exact Nat.lt_succ_self _

theorem handed_of_ended (r : Except String Reply) {place : Place}
    {left : List (Place × List Frame)} : Handed hosts ⟨w, place, ⟨.ended r, []⟩, left⟩ := by
  have hevents : Relay.events ⟨w, place, ⟨.ended r, []⟩, left⟩ = [] := by
    simp [Relay.events, calls, World.calls, World.marks]
  cases left with
  | nil => exact ⟨rfl, rfl, hevents, .idle r, .inl ⟨r, rfl, rfl⟩⟩
  | cons p left =>
    refine ⟨rfl, by simp [step, Relay.frames], hevents, .back r, .inr ?_⟩
    cases r <;> simp [pace, step, Control.returning, Relay.frames] <;> omega

theorem handed_of_hop {m : Machine} {place : Place} {stack : List Frame}
    {left : List (Place × List Frame)} (hc : w.isCurrent place.home run.context = false) :
    Handed hosts ⟨w, place, ⟨.drive m run, stack⟩, left⟩ := by
  have hhome : place.home ≠ some run.context := by
    intro hhome
    simp only [World.isCurrent, hhome] at hc
    split at hc <;> simp at hc
  have hstep := @step_hop hosts w place m run stack left hc
  refine ⟨by rw [hstep], by rw [hstep]; simp [Relay.frames], ?_, by rw [hstep]; exact .hop m hc,
    .inr ?_⟩
  · simp [Relay.events, calls, World.calls, World.marks, hc]
  · rw [hstep]
    simp [pace, hhome]

theorem acted_of_acts {t : Relay} (hacts : t.activity.Acts t.world t.place)
    (hs : t.activity.stack ≠ [] ∨ t.activity.control.settles = false) : Acted hosts t := by
  obtain ⟨hworld, hflat, hevents⟩ := own_flat hs
  have hstep : t.step hosts = t.own := step_of_acts hacts
  refine ⟨hstep ▸ hworld, hstep ▸ hflat, hevents, hstep ▸ rfl, hacts, hs.imp_left fun hs => ?_⟩
  simp [Relay.flat, Relay.frames, hs]

/-- A step hands the control on as it is, or is the step of one thread that does it all. -/
theorem step_cases (hosts : Hosts) {t : Relay} (hp : t.activity.Proper) :
    t.Handed hosts ∨ t.Acted hosts := by
  obtain ⟨w, here, a, left⟩ := t
  obtain ⟨res, rfl⟩ | ⟨r, rfl⟩ | hs := a.settled_or
  · exact .inl (handed_of_answering res)
  · exact .inl (handed_of_ended r)
  · obtain ⟨control, stack⟩ := a
    cases control with
    | drive m run =>
      cases hc : w.isCurrent here.home run.context with
      | false => exact .inl (handed_of_hop hc)
      | true => exact .inr (acted_of_acts hc hs)
    | ended r =>
      have hstack : stack = [] := hp r rfl
      simp [hstack, Control.settles] at hs
    | code x => exact .inr (acted_of_acts trivial hs)
    | unwinding message => exact .inr (acted_of_acts trivial hs)

end Relay

end Effects
