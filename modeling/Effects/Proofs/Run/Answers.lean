import Effects.Proofs.Run.Walk

/-!
What a part of a run does is the same wherever the part stands: a piece of code, or a machine, that
runs above other frames runs as it would alone, up to its answer.
-/

namespace Effects

/-- The answer of code, or the panic that came instead, about to be handed down. -/
def Control.answering : Except String Answer → Control
  | .ok (.reply r) => .code (.give r)
  | .ok (.node n) => .code (.build n)
  | .ok (.token t) => .code (.guard t)
  | .error message => .unwinding message

/-- What an answer is to whoever waits for the end of the thread. -/
def ending : Except String Answer → Except String Reply
  | .ok (.reply r) => .ok r
  | .ok _ => .ok .unit
  | .error message => .error message

def Control.following (k : Answer → Code) : Except String Answer → Control
  | .ok answer => .code (k answer)
  | .error message => .unwinding message

theorem Control.settles_answering (res : Except String Answer) :
    (Control.answering res).settles = true := by
  rcases res with _ | (_ | _ | _) <;> rfl

/-- On its own, the code comes to the answer, with these calls. -/
def Code.Answers (hosts : Hosts) (w : World) (here : Place) (c : Code) (calls : List Code)
    (res : Except String Answer) (w' : World) : Prop :=
  ∃ n, Walk hosts n w here ⟨.code c, []⟩ calls w' ⟨.answering res, []⟩

variable {hosts : Hosts} {w w₁ w' : World} {here : Place} {a b : Activity}
  {below : List Frame} {calls : List Code} {k : Answer → Code}

namespace Activity

/-- Either the answer is about to be handed down, or the next step does not depend on what is
below. -/
theorem settled_or (a : Activity) :
    (∃ res, a = ⟨.answering res, []⟩) ∨ (∃ r, a = ⟨.ended r, []⟩) ∨
      (a.stack ≠ [] ∨ a.control.settles = false) := by
  obtain ⟨control, stack⟩ := a
  cases stack with
  | cons frame stack => exact .inr (.inr (.inl (List.cons_ne_nil frame stack)))
  | nil =>
      cases control with
      | drive machine run => exact .inr (.inr (.inr rfl))
      | unwinding message => exact .inl ⟨.error message, rfl⟩
      | ended r => exact .inr (.inl ⟨r, rfl⟩)
      | code c =>
          cases c with
          | give r => exact .inl ⟨.ok (.reply r), rfl⟩
          | build n => exact .inl ⟨.ok (.node n), rfl⟩
          | guard t => exact .inl ⟨.ok (.token t), rfl⟩
          | panic message => exact .inr (.inr (.inr rfl))
          | perform op next => exact .inr (.inr (.inr rfl))

end Activity

theorem World.act_answering (w : World) (here : Place) (res : Except String Answer) :
    w.act here ⟨.answering res, []⟩ = (w, ⟨.ended (ending res), []⟩) := by
  rcases res with _ | (_ | _ | _) <;> rfl

theorem World.calls_answering (w : World) (here : Place) (res : Except String Answer) :
    w.calls here ⟨.answering res, []⟩ = [] := by
  rcases res with _ | ((_ | _ | _ | _ | _ | _ | _ | _ | _ | _ | _ | _ | _ | _) | _ | _) <;> rfl

theorem World.calls_atop (w : World) (here : Place) (a : Activity) (below : List Frame)
    (h : a.stack ≠ [] ∨ a.control.settles = false) :
    w.calls here (a.atop below) = w.calls here a := by
  obtain ⟨control, stack⟩ := a
  cases stack with
  | cons frame stack =>
      cases control with
      | code c =>
          cases c with
          | give r => cases r <;> cases frame <;> rfl
          | _ => rfl
      | _ => rfl
  | nil =>
      cases control with
      | code c => cases c <;> first | rfl | simp [Control.settles] at h
      | _ => rfl

theorem Followed.calls_eq (h : Followed k a b) (ha : a.stack ≠ [] ∨ a.control.settles = false) :
    w.calls here b = w.calls here a := by
  cases h with
  | code c => cases c <;> first | rfl | simp [Control.settles] at ha
  | unwinding message => rfl
  | above a frame hf =>
      by_cases hs : a.stack ≠ [] ∨ a.control.settles = false
      · rw [World.calls_atop _ _ _ _ hs, World.calls_atop _ _ _ _ hs]
      · obtain ⟨control, stack⟩ := a
        obtain ⟨hstack, -⟩ := not_or.1 hs
        obtain rfl : stack = [] := by simpa using hstack
        cases control with
        | code c =>
            cases c with
            | give r => cases r <;> cases frame <;> rfl
            | _ => rfl
        | _ => rfl

/-- Only an answer with nothing below it ends a thread. -/
theorem World.act_ne_ended (w : World) (here : Place)
    (h : a.stack ≠ [] ∨ a.control.settles = false) (r : Except String Reply)
    (ha : a.control ≠ .ended r) : (w.act here a).2.control ≠ .ended r := by
  obtain ⟨control, stack⟩ := a
  cases control with
  | drive machine run =>
      simp only [World.act]
      split
      · exact Activity.after_ne_ended _ _ r
      · simp
  | ended r' => exact ha
  | unwinding message =>
      cases stack with
      | nil => simp [Control.settles] at h
      | cons frame stack =>
          cases frame with
          | tokens rest failure next => exact Activity.runTokens_ne_ended _ _ _ _ r
          | _ => simp [World.act, Activity.unwind]
  | code c =>
      cases c with
      | perform op next => exact Activity.respond_ne_ended _ _ _ r
      | panic message => simp [World.act]
      | _ =>
          cases stack with
          | nil => simp [Control.settles] at h
          | cons frame stack => exact Activity.reply_ne_ended _ _ frame stack r

namespace Followed

theorem of_answering {res : Except String Answer}
    (h : Followed k ⟨.answering res, []⟩ b) : b = ⟨.following k res, []⟩ := by
  generalize hx : (⟨.answering res, []⟩ : Activity) = x at h
  cases h with
  | code c =>
      rcases res with _ | (_ | _ | _) <;> simp [Control.answering] at hx <;> subst hx <;> rfl
  | unwinding message =>
      rcases res with _ | (_ | _ | _) <;> simp [Control.answering] at hx
      subst hx; rfl
  | above a frame hf => simp [Activity.atop] at hx

theorem of_drive {machine : Machine} {run : Run} {stack : List Frame}
    (h : Followed k ⟨.drive machine run, stack⟩ b) :
    ∃ stack', b = ⟨.drive machine run, stack'⟩ ∧
      ∀ control, Followed k ⟨control, stack⟩ ⟨control, stack'⟩ := by
  generalize hx : (⟨.drive machine run, stack⟩ : Activity) = x at h
  cases h with
  | code c => simp at hx
  | unwinding message => simp at hx
  | above a frame hf =>
      obtain ⟨control, own⟩ := a
      simp only [Activity.atop, Activity.mk.injEq] at hx
      obtain ⟨rfl, rfl⟩ := hx
      exact ⟨_, rfl, fun control => .above ⟨control, own⟩ frame hf⟩

theorem of_drive' {machine : Machine} {run : Run} {stack : List Frame}
    (h : Followed k a ⟨.drive machine run, stack⟩) :
    ∃ stack', a = ⟨.drive machine run, stack'⟩ ∧
      ∀ control, Followed k ⟨control, stack'⟩ ⟨control, stack⟩ := by
  generalize hx : (⟨.drive machine run, stack⟩ : Activity) = x at h
  cases h with
  | code c => simp at hx
  | unwinding message => simp at hx
  | above a frame hf =>
      obtain ⟨control, own⟩ := a
      simp only [Activity.atop, Activity.mk.injEq] at hx
      obtain ⟨rfl, rfl⟩ := hx
      exact ⟨_, rfl, fun control => .above ⟨control, own⟩ frame hf⟩

/-- Code that has not come to its answer is followed by something that has not either. -/
theorem ne_answering {res : Except String Answer} (h : Followed k a b)
    (ha : a.stack ≠ [] ∨ a.control.settles = false) : b ≠ ⟨.answering res, []⟩ := by
  intro hb
  have hs := Control.settles_answering res
  cases h with
  | code c =>
      rw [← (Activity.mk.inj hb).1] at hs
      cases c with
      | perform op next => simp [Control.settles, Code.andThen] at hs
      | panic message => simp [Control.settles, Code.andThen] at hs
      | _ => simp [Control.settles] at ha
  | unwinding message => simp [Control.settles] at ha
  | above a frame hf => simp [Activity.atop] at hb

theorem acts (h : Followed k a b) : a.Acts w here ↔ b.Acts w here := by
  cases h with
  | code c => rfl
  | unwinding message => rfl
  | above a frame hf => rfl

theorem cost_eq (h : Followed k a b) : b.cost = a.cost := by
  cases h <;> rfl

end Followed

theorem Activity.cost_answering (res : Except String Answer) :
    cost ⟨.answering res, []⟩ = 0 := by
  rcases res with _ | (_ | _ | _) <;> rfl

namespace Walk

open Activity (cost_answering)

theorem of_ended {n : Nat} {r : Except String Reply} {stack : List Frame}
    (h : Walk hosts n w here ⟨.ended r, stack⟩ calls w' b) :
    n = 0 ∧ calls = [] ∧ w' = w ∧ b = ⟨.ended r, stack⟩ := by
  cases h with
  | stay => exact ⟨rfl, rfl, rfl, rfl⟩
  | act ha => exact ha.elim

theorem of_answering {n : Nat} {res : Except String Answer}
    (h : Walk hosts n w here ⟨.answering res, []⟩ calls w' b) :
    calls = [] ∧ w' = w ∧
      n = 0 ∧ (b = ⟨.answering res, []⟩ ∨ b = ⟨.ended (ending res), []⟩) := by
  generalize hx : (⟨.answering res, []⟩ : Activity) = x at h
  cases h with
  | stay => exact ⟨rfl, rfl, rfl, .inl rfl⟩
  | act ha rest =>
      subst hx
      rw [World.act_answering] at rest
      obtain ⟨rfl, rfl, rfl, rfl⟩ := of_ended rest
      refine ⟨?_, rfl, (Nat.zero_add _).trans (cost_answering res), .inr rfl⟩
      rw [World.calls_answering]
      rfl
  | hop hn away rest =>
      have hs := Control.settles_answering res
      rw [(Activity.mk.inj hx).1] at hs
      simp [Control.settles] at hs

theorem ended_of_answering {n : Nat} (res : Except String Answer)
    (h : Walk hosts n w here a calls w' ⟨.answering res, []⟩) :
    Walk hosts n w here a calls w' ⟨.ended (ending res), []⟩ := by
  have hacts : (⟨.answering res, []⟩ : Activity).Acts w' here := by
    rcases res with _ | (_ | _ | _) <;> trivial
  have hlast : Walk hosts _ w' here ⟨.answering res, []⟩ _ w' ⟨.ended (ending res), []⟩ :=
    .act hacts (by rw [World.act_answering]; exact .stay _ _ _)
  rw [World.calls_answering, cost_answering] at hlast
  simpa using h.trans hlast

/-- Code or a machine that runs alone to its answer does so above other frames. -/
theorem atop {n : Nat} {res : Except String Answer}
    (h : Walk hosts n w here a calls w' ⟨.answering res, []⟩) (below : List Frame) :
    Walk hosts n w here (a.atop below) calls w' ⟨.answering res, below⟩ := by
  generalize hx : (⟨.answering res, []⟩ : Activity) = x at h
  induction h with
  | stay => subst hx; exact .stay _ _ _
  | @act n w w' here a b calls ha rest ih =>
      subst hx
      rcases a.settled_or with ⟨res', rfl⟩ | ⟨r, rfl⟩ | hs
      · rw [World.act_answering] at rest
        have hb := (of_ended rest).2.2.2
        rcases res with _ | (_ | _ | _) <;> simp [Control.answering] at hb
      · exact ha.elim
      · have hw : Walk hosts (n + a.cost) w here (a.atop below)
            (w.calls here (a.atop below) ++ calls) w' ⟨.answering res, below⟩ := by
          refine .act (a := a.atop below) ha ?_
          rw [World.act_atop _ _ _ _ hs]
          exact ih rfl
        rwa [World.calls_atop _ _ _ _ hs] at hw
  | hop hn away rest _ ih => exact .hop hn away (ih hx)

/-- A walk that leaves other frames behind first comes to the answer to hand down to them. -/
theorem split {n : Nat} (hbelow : below ≠ []) (hb : b.stack = [])
    (h : Walk hosts n w here (a.atop below) calls w' b) :
    ∃ res m k w₁ calls₁ calls₂, m + k = n ∧ calls = calls₁ ++ calls₂ ∧
      Walk hosts m w here a calls₁ w₁ ⟨.answering res, []⟩ ∧
      Walk hosts k w₁ here ⟨.answering res, below⟩ calls₂ w' b := by
  generalize hx : a.atop below = x at h
  induction h generalizing a with
  | stay =>
      subst hx
      simp only [Activity.atop, List.append_eq_nil_iff] at hb
      exact absurd hb.2 hbelow
  | @act n w w' here x y calls ha rest ih =>
      subst hx
      rcases a.settled_or with ⟨res, rfl⟩ | ⟨r, rfl⟩ | hs
      · exact ⟨res, 0, _, w, [], _, Nat.zero_add _, rfl, .stay _ _ _, .act ha rest⟩
      · exact ha.elim
      · rw [World.act_atop _ _ _ _ hs] at rest ih
        obtain ⟨res, m, k, w₁, c₁, c₂, rfl, rfl, hw, hk⟩ := ih hb rfl
        refine ⟨res, m + a.cost, k, w₁, _, c₂, Nat.add_right_comm m _ k, ?_, .act ha hw, hk⟩
        rw [World.calls_atop _ _ _ _ hs, List.append_assoc]
  | @hop i j w w₀ w' here machine run stack r y c c' hn away rest _ ih =>
      obtain ⟨control, own⟩ := a
      simp only [Activity.atop, Activity.mk.injEq] at hx
      obtain ⟨rfl, rfl⟩ := hx
      obtain ⟨res, m, k, w₁, c₁, c₂, rfl, rfl, hw, hk⟩ := ih (a := ⟨.returning r, own⟩) hb rfl
      exact ⟨res, i + m, k, w₁, _, c₂, Nat.add_assoc i m k, (List.append_assoc _ _ _).symm,
        .hop hn away hw, hk⟩

/-- A walk to the end hands an answer to whoever waits for it. -/
theorem answers {n : Nat} {d : Except String Reply} (ha : ∀ r, a.control ≠ .ended r)
    (h : Walk hosts n w here a calls w' ⟨.ended d, []⟩) :
    ∃ res, d = ending res ∧ Walk hosts n w here a calls w' ⟨.answering res, []⟩ := by
  generalize hy : (⟨.ended d, []⟩ : Activity) = y at h
  induction h with
  | stay => subst hy; exact absurd rfl (ha d)
  | @act n w w' here a y calls hacts rest ih =>
      subst hy
      rcases a.settled_or with ⟨res, rfl⟩ | ⟨r, rfl⟩ | hs
      · rw [World.act_answering] at rest
        obtain ⟨rfl, rfl, rfl, hd⟩ := of_ended rest
        simp only [Activity.mk.injEq, Control.ended.injEq] at hd
        refine ⟨res, hd.1, ?_⟩
        rw [World.calls_answering, cost_answering]
        exact .stay _ _ _
      · exact hacts.elim
      · by_cases hend : ∃ r, (w.act here a).2.control = .ended r
        · obtain ⟨r, hr⟩ := hend
          exact absurd hr (World.act_ne_ended w here hs r (ha r))
        · obtain ⟨res, rfl, hw⟩ := ih (fun r hr => hend ⟨r, hr⟩) rfl
          exact ⟨res, rfl, .act hacts hw⟩
  | @hop i j w w₀ w' here machine run stack r y c c' hn away rest _ ih =>
      subst hy
      obtain ⟨res, rfl, hw⟩ :=
        ih (fun r' hr => by cases r <;> simp [Control.returning] at hr) rfl
      exact ⟨res, rfl, .hop hn away hw⟩

/-- Code that goes on with `k` runs like the code alone, up to its answer. -/
theorem followed {n : Nat} {res : Except String Answer} (hf : Followed k a b)
    (h : Walk hosts n w here a calls w' ⟨.answering res, []⟩) :
    Walk hosts n w here b calls w' ⟨.following k res, []⟩ := by
  generalize hx : (⟨.answering res, []⟩ : Activity) = x at h
  induction h generalizing b with
  | stay => subst hx; rw [hf.of_answering]; exact .stay _ _ _
  | @act n w w' here a x calls ha rest ih =>
      subst hx
      rcases a.settled_or with ⟨res', rfl⟩ | ⟨r, rfl⟩ | hs
      · rw [World.act_answering] at rest
        have hb := (of_ended rest).2.2.2
        rcases res with _ | (_ | _ | _) <;> simp [Control.answering] at hb
      · exact ha.elim
      · obtain ⟨hw, hf'⟩ := hf.act w here hs
        have hgo := ih hf' rfl
        rw [← hw] at hgo
        have hall := Walk.act (hf.acts.1 ha) hgo
        rwa [hf.calls_eq hs, hf.cost_eq] at hall
  | @hop i j w w₀ w' here machine run stack r y c c' hn away rest _ ih =>
      subst hx
      obtain ⟨stack', rfl, hf'⟩ := hf.of_drive
      exact .hop hn away (ih (hf' _) rfl)

/-- Code that goes on with `k` first comes to the answer of the code alone. -/
theorem unfollowed {n : Nat} {res : Except String Answer} (hf : Followed k a b)
    (ha : ∀ r, a.control ≠ .ended r)
    (h : Walk hosts n w here b calls w' ⟨.answering res, []⟩) :
    ∃ res' m j w₁ calls₁ calls₂, m + j = n ∧ calls = calls₁ ++ calls₂ ∧
      Walk hosts m w here a calls₁ w₁ ⟨.answering res', []⟩ ∧
      Walk hosts j w₁ here ⟨.following k res', []⟩ calls₂ w' ⟨.answering res, []⟩ := by
  generalize hx : (⟨.answering res, []⟩ : Activity) = x at h
  induction h generalizing a with
  | @stay w here b =>
      rcases a.settled_or with ⟨res', rfl⟩ | ⟨r, rfl⟩ | hs
      · subst hx
        refine ⟨res', 0, 0, w, [], [], rfl, rfl, .stay _ _ _, ?_⟩
        rw [hf.of_answering]
        exact .stay _ _ _
      · exact absurd rfl (ha r)
      · subst hx
        exact absurd rfl (hf.ne_answering hs)
  | @act n w w' here b x calls hacts rest ih =>
      subst hx
      rcases a.settled_or with ⟨res', rfl⟩ | ⟨r, rfl⟩ | hs
      · refine ⟨res', 0, n + b.cost, w, [], _, Nat.zero_add _, rfl, .stay _ _ _, ?_⟩
        rw [hf.of_answering] at hacts rest ⊢
        exact .act hacts rest
      · exact absurd rfl (ha r)
      · obtain ⟨hw, hf'⟩ := hf.act w here hs
        rw [hw] at rest ih
        obtain ⟨res', m, j, w₁, c₁, c₂, rfl, rfl, hm, hj⟩ :=
          ih hf' (fun r => World.act_ne_ended w here hs r (ha r)) rfl
        refine ⟨res', m + a.cost, j, w₁, _, c₂, ?_, ?_, .act (hf.acts.2 hacts) hm, hj⟩
        · rw [hf.cost_eq]
          exact Nat.add_right_comm m _ j
        · rw [hf.calls_eq hs, List.append_assoc]
  | @hop i j w w₀ w' here machine run stack r y c c' hn away rest _ ih =>
      subst hx
      obtain ⟨stack', rfl, hf'⟩ := hf.of_drive'
      obtain ⟨res', m, k', w₁, c₁, c₂, rfl, rfl, hm, hk⟩ :=
        ih (hf' _) (fun r' hr => by cases r <;> simp [Control.returning] at hr) rfl
      exact ⟨res', i + m, k', w₁, _, c₂, Nat.add_assoc i m k', (List.append_assoc _ _ _).symm,
        .hop hn away hm, hk⟩

end Walk
end Effects
