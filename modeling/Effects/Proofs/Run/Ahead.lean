import Effects.Proofs.Run.Local

/-!
What is known of code, whatever it is answered, is known of all that an activity still does on its
own level: the code in the frame below everything that runs above it is of the same kind.
-/

namespace Effects

variable {P : Code → Prop}

/-- Kinds of code that do not depend on what is performed or on what it is answered with. -/
structure Code.Stable (P : Code → Prop) : Prop where
  next : ∀ {op : Op} {next : Reply → Code}, P (.perform op next) → ∀ r, P (next r)
  again : ∀ {op : Op} {next : Reply → Code} (op' : Op), P (.perform op next) →
    P (.perform op' next)

/-- Waits below code for a reply, and goes on with code of the kind. -/
def Frame.Awaits (P : Code → Prop) : Frame → Prop
  | .call next | .attempt next | .tokens _ _ next => ∀ r, P (next r)
  | _ => False

theorem Frame.Awaits.isCode {frame : Frame} (h : frame.Awaits P) : frame.isCode = true := by
  cases frame <;> first | rfl | exact h.elim

inductive Ahead (P : Code → Prop) : Activity → Prop
  | code {c : Code} (h : P c) : Ahead P ⟨.code c, []⟩
  | unwinding (message : String) : Ahead P ⟨.unwinding message, []⟩
  | inside (a : Activity) {frame : Frame} (h : frame.Awaits P) : Ahead P (a.atop [frame])

namespace Ahead

variable {next : Reply → Code}

theorem of_code {c : Code} (h : Ahead P ⟨.code c, []⟩) : P c := by
  generalize hx : (⟨.code c, []⟩ : Activity) = x at h
  cases h with
  | code h => cases hx; exact h
  | unwinding => cases hx
  | inside a hf => simp [Activity.atop] at hx

theorem stack_ne_nil {r : Except String Reply} {stack : List Frame}
    (h : Ahead P ⟨.ended r, stack⟩) : stack ≠ [] := by
  generalize hx : (⟨.ended r, stack⟩ : Activity) = x at h
  cases h with
  | code | unwinding => cases hx
  | inside a hf =>
    obtain ⟨-, rfl⟩ := Activity.mk.inj hx
    simp

theorem runTokens (hnext : ∀ r, P (next r)) (tokens : List Code) (failure : Option String) :
    Ahead P (Activity.runTokens tokens failure next []) := by
  cases tokens with
  | nil =>
    cases failure with
    | none => exact .code (hnext .unit)
    | some message => exact .unwinding message
  | cons token rest =>
    have hf : (Frame.tokens rest failure next).Awaits P := hnext
    exact .inside ⟨.code token, []⟩ hf

theorem respond (hnext : ∀ r, P (next r)) (response : Response)
    (hagain : ∀ op, P (.perform op next)) : Ahead P (Activity.respond next [] response) := by
  have hcall : (Frame.call next).Awaits P := hnext
  cases response with
  | reply r => exact .code (hnext r)
  | panic message => exact .unwinding message
  | call body => exact .inside ⟨.code body, []⟩ hcall
  | inPlace body r =>
    have hlate : (Frame.call fun _ => next r).Awaits P := fun _ => hnext r
    exact .inside ⟨.code body, []⟩ hlate
  | attempt body =>
    have hcaught : (Frame.attempt next).Awaits P := hnext
    exact .inside ⟨.code body, []⟩ hcaught
  | drive machine run => exact .inside ⟨.drive machine run, []⟩ hcall
  | tokens tokens => exact runTokens hnext tokens none
  | again op => exact .code (hagain op)

theorem reply (env : Surroundings) (answer : Answer) {frame : Frame} (hf : frame.Awaits P) :
    Ahead P (Activity.reply env answer frame []) := by
  cases frame with
  | tokens rest failure next => exact runTokens hf rest failure
  | call next | attempt next =>
    cases answer with
    | reply r => cases r <;> exact .code (hf _)
    | node n => exact .unwinding _
    | token t => exact .unwinding _
  | _ => exact hf.elim

theorem unwind (message : String) {frame : Frame} (hf : frame.Awaits P) :
    Ahead P (Activity.unwind message [frame]) := by
  cases frame with
  | tokens rest failure next => exact runTokens hf rest _
  | call next => exact .unwinding message
  | attempt next => exact .code (hf _)
  | _ => exact hf.elim

/-- What runs above a frame that waits comes back to it. -/
theorem act_inside (w : World) (here : Place) (a : Activity) {frame : Frame}
    (hf : frame.Awaits P) : Ahead P (w.act here (a.atop [frame])).2 := by
  by_cases hs : a.stack ≠ [] ∨ a.control.settles = false
  · rw [World.act_atop _ _ _ _ hs]
    exact .inside _ hf
  · obtain ⟨control, stack⟩ := a
    obtain ⟨hstack, hc⟩ := not_or.1 hs
    obtain rfl : stack = [] := by simpa using hstack
    cases control with
    | drive machine run => simp [Control.settles] at hc
    | code c =>
      cases c with
      | perform op next => simp [Control.settles] at hc
      | panic message => simp [Control.settles] at hc
      | give r => exact reply (w.surroundings here.home) (.reply r) hf
      | build n => exact reply (w.surroundings here.home) (.node n) hf
      | guard t => exact reply (w.surroundings here.home) (.token t) hf
    | unwinding message => exact unwind message hf
    | ended r => exact .inside ⟨.ended r, []⟩ hf

theorem act (hP : Code.Stable P) (w : World) (here : Place) {a : Activity} (h : Ahead P a)
    (ha : a.stack ≠ [] ∨ a.control.settles = false) : Ahead P (w.act here a).2 := by
  cases h with
  | code h =>
    rename_i c
    cases c with
    | perform op next => exact respond (hP.next h) _ fun op' => hP.again op' h
    | panic message => exact .unwinding message
    | _ => simp [Control.settles] at ha
  | unwinding message => simp [Control.settles] at ha
  | inside a hf => exact act_inside w here a hf

end Ahead
end Effects
