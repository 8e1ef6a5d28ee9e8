import Effects.Proofs.Yield.Turns

/-!
The moments of a run at which it matters what there is around it: those when a machine takes a step,
and those when an operation is performed. The run goes on wherever its context is. Where that can
have no thread, because of its name, the machine is left with a panic.
-/

namespace Effects

/-- What a step finds, and the operation that it performs, if it is not a machine's. -/
structure Moment where
  world : World
  place : Place
  op : Option Op

abbrev Passage := List Moment

/-- It takes a dispatch to get from here to the context, and that panics. -/
def World.Refuses (w : World) (here : Place) (c : ContextId) (message : String) : Prop :=
  w.isCurrent here.home c = false ∧
    ∃ task, (w.perform here (.context c (.execute task))).2 = .panic message

namespace Activity

def moments (w : World) (here : Place) (a : Activity) : Passage :=
  match a.control with
  | .code (.perform op _) => [⟨w, here, some op⟩]
  | .drive _ _ => [⟨w, here, none⟩]
  | _ => []

inductive Proceeds : Activity → Passage → Activity → Prop
  | stay (a : Activity) : Proceeds a [] a
  | act {w : World} {here : Place} {a b : Activity} {s : Passage} (h : a.Able w here)
      (rest : Proceeds (w.act here a).2 s b) : Proceeds a (a.moments w here ++ s) b
  | refused {w : World} {here : Place} {m : Machine} {run : Run} {stack : List Frame}
      {message : String} {b : Activity} {s : Passage} (h : w.Refuses here run.context message)
      (rest : Proceeds ⟨.unwinding message, stack⟩ s b) :
      Proceeds ⟨.drive m run, stack⟩ (⟨w, here, none⟩ :: s) b

/-- Has come to its end. -/
def atEnd (r : Except String Reply) : Activity := ⟨.ended r, []⟩

variable {a b c : Activity} {s t : Passage} {r : Except String Reply} {fs : List Frame}
  {x : Except String (Exit × Run)} {m : Machine} {run : Run}

theorem Proceeds.trans (h : Proceeds a s b) (h' : Proceeds b t c) : Proceeds a (s ++ t) c := by
  induction h with
  | stay => exact h'
  | act hable _ ih =>
    rw [List.append_assoc]
    exact .act hable (ih h')
  | refused hr _ ih => exact .refused hr (ih h')

theorem Proceeds.one {w : World} {here : Place} (h : a.Able w here) :
    Proceeds a (a.moments w here) (w.act here a).2 := by
  have hact := Proceeds.act h (.stay _)
  rwa [List.append_nil] at hact

theorem proceeds_of_ended (hc : a.control = .ended r) (h : Proceeds a s b) : b = a := by
  cases h with
  | stay => rfl
  | act hable => simp [Able, hc] at hable
  | refused => cases hc

/-- Takes one step, that goes by unseen and does not depend on where it is taken. -/
structure Quiet (a b : Activity) : Prop where
  moments : ∀ w here, a.moments w here = []
  act : ∀ (w : World) here, (w.act here a).2 = b
  able : ∀ w here, a.Able w here

theorem Quiet.proceeds_iff (h : Quiet a b) :
    Proceeds a s (atEnd r) ↔ Proceeds b s (atEnd r) := by
  constructor
  · intro ha
    generalize hc : atEnd r = c at ha ⊢
    cases ha with
    | stay =>
      subst hc
      exact (h.able .start ⟨"", none⟩).elim
    | @act w here _ _ s _ rest =>
      rw [h.moments, List.nil_append]
      rwa [h.act] at rest
    | @refused w here => exact absurd (h.moments w here) (List.cons_ne_nil _ _)
  · intro hb
    rw [← h.act .start ⟨"", none⟩] at hb
    have ha := Proceeds.act (h.able .start ⟨"", none⟩) hb
    rwa [h.moments, List.nil_append] at ha

/-- Code performs its operation, and goes on with the response. -/
theorem perform_proceeds_iff {op : Op} {next : Reply → Code} :
    Proceeds ⟨.code (.perform op next), fs⟩ s (atEnd r) ↔
      ∃ w here t, s = ⟨w, here, some op⟩ :: t ∧ w.ready op = true ∧
        Proceeds (.respond next fs (w.perform here op).2) t (atEnd r) := by
  constructor
  · intro h
    generalize hc : atEnd r = c at h
    cases h with
    | stay => cases hc
    | @act w here _ _ t hable rest => exact ⟨w, here, t, rfl, hable, hc ▸ rest⟩
  · rintro ⟨w, here, t, rfl, hready, rest⟩
    exact @Proceeds.act w here ⟨.code (.perform op next), fs⟩ _ t hready rest

theorem quiet_yielding (y : Except String (Exit × Run)) :
    Quiet (yielding y) (atEnd (resultOf y)) := by
  obtain message | ⟨exit, run⟩ := y <;>
    exact ⟨fun _ _ => rfl, fun _ _ => rfl, fun _ _ => trivial⟩

theorem atEnd_proceeds {r' : Except String Reply} (h : Proceeds (atEnd r) s (atEnd r')) :
    s = [] ∧ r' = r := by
  generalize hc : atEnd r' = c at h
  cases h with
  | stay => exact ⟨rfl, Control.ended.inj (congrArg Activity.control hc)⟩
  | act hable => exact hable.elim

theorem Proceeds.ends {y : Except String (Exit × Run)}
    (h : Proceeds a s (yielding y)) : Proceeds a s (atEnd (resultOf y)) := by
  rw [← List.append_nil s]
  exact h.trans ((quiet_yielding y).proceeds_iff.2 (.stay _))

/-- A machine takes a step on a thread of its context, or is left. -/
theorem machine_proceeds (h : Proceeds ⟨.drive m run, fs⟩ s (atEnd r)) :
    ∃ w here t, s = ⟨w, here, none⟩ :: t ∧
      (Proceeds (.after (m.step (w.surroundings here.home) run) fs) t (atEnd r) ∨
        ∃ message, w.Refuses here run.context message) := by
  generalize hc : atEnd r = c at h
  cases h with
  | stay => cases hc
  | @act w here _ _ t hable rest =>
    rw [act_drive hable] at rest
    exact ⟨w, here, t, rfl, .inl (hc ▸ rest)⟩
  | @refused w here _ _ _ message _ t hr rest => exact ⟨w, here, t, rfl, .inr ⟨message, hr⟩⟩

theorem Based.ne_atEnd (h : a.Based) : a ≠ atEnd r := by
  cases h with
  | machine | frame => simp [atEnd]
  | yielding x => cases x <;> simp [atEnd, Activity.yielding]

/-- The machine comes to its end before what is below goes on. -/
theorem Proceeds.split (ha : a.Based) (h : Proceeds (a.atop fs) s (atEnd r)) :
    ∃ s₁ s₂ x, s = s₁ ++ s₂ ∧ Proceeds a s₁ (yielding x) ∧
      Proceeds ((yielding x).atop fs) s₂ (atEnd r) := by
  generalize hb : a.atop fs = b at h
  generalize hc : atEnd r = c at h ⊢
  induction h generalizing a with
  | stay =>
    subst hc
    obtain ⟨control, stack⟩ := a
    obtain ⟨rfl, hstack⟩ := Activity.mk.inj hb
    obtain ⟨rfl, -⟩ := List.append_eq_nil_iff.1 hstack
    exact absurd rfl ha.ne_atEnd
  | @act w here b _ s hable rest ih =>
    subst hb
    obtain hopen | ⟨x, rfl⟩ := ha.open_or
    · obtain ⟨s₁, s₂, x, rfl, hfirst, hrest⟩ :=
        ih (ha.act hopen hable) (Onto.act_atop hopen fs).symm hc
      exact ⟨_, s₂, x, (List.append_assoc _ _ _).symm, .act hable hfirst, hrest⟩
    · exact ⟨[], _, x, rfl, .stay _, .act hable rest⟩
  | @refused w here m run stack message _ s hr rest ih =>
    obtain ⟨control, above⟩ := a
    obtain ⟨rfl, rfl⟩ := Activity.mk.inj hb
    have habove : Based ⟨.unwinding message, above⟩ := .of_frames (x := .error message) ha.frames
    obtain ⟨s₁, s₂, x, rfl, hfirst, hrest⟩ := ih habove rfl hc
    exact ⟨_ :: s₁, s₂, x, rfl, .refused hr hfirst, hrest⟩

/-- What is below lets the machine come to its end. -/
theorem Proceeds.atop {x : Except String (Exit × Run)} (ha : a.Based)
    (h : Proceeds a s (yielding x)) (fs : List Frame) :
    Proceeds (a.atop fs) s ((yielding x).atop fs) := by
  generalize hc : yielding x = c at h ⊢
  induction h with
  | stay => exact .stay _
  | @act w here a _ s hable rest ih =>
    obtain hopen | ⟨y, rfl⟩ := ha.open_or
    · have hrest := ih (ha.act hopen hable) hc
      rw [← Onto.act_atop hopen fs] at hrest
      exact .act hable hrest
    · have hended : (w.act here (yielding y)).2.control = .ended (resultOf y) := by
        obtain message | ⟨exit, run⟩ := y <;> rfl
      have hsame := proceeds_of_ended hended rest
      subst hc
      rw [← hsame] at hended
      cases x <;> cases hended
  | @refused w here m run stack message _ s hr rest ih =>
    have hstack : Based ⟨.unwinding message, stack⟩ := .of_frames (x := .error message) ha.frames
    exact .refused hr (ih hstack hc)

end Activity
end Effects
