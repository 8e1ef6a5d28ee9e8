import Effects.Proofs.Suspend.Canceler

/-!
A wait is over with the first delivery, its token runs at most once and is the only one that the
wait takes out, and no cancellation is lost, whatever the order of the steps.
-/

namespace Effects.Suspension

open Routine

variable {register : LatchId → Code} {c : ConnectionId} {l : LatchId} {s₀ s s' : Connection Code}
  {held held' : List Code} {seen more : List Sign} {t u : Scene}

/-- What has been seen from the beginning, where `held` have yet to run. -/
structure Orderly (s₀ : Connection Code) (held : List Code) (seen : List Sign) : Prop where
  tokens : (starts seen ++ held).Subperm (pushes seen ++ s₀.tokens)
  woken : ∀ r, .woken r ∈ seen → first seen = some r
  popped : ∀ before after, .popped before after ∈ seen → after = before ∨
    ∃ token ∈ pushes seen, before = .active (token :: s₀.tokens) ∧ after = .active s₀.tokens

theorem Orderly.append (h : Orderly s₀ held seen) (hm : Legal s₀ held held' seen more) :
    Orderly s₀ held' (seen ++ more) where
  tokens := by
    have hstep : (starts seen ++ (starts more ++ held')).Subperm
        (starts seen ++ (pushes more ++ held)) := (List.subperm_append_left _).2 hm.tokens
    have hseen : (pushes more ++ (starts seen ++ held)).Subperm
        (pushes more ++ (pushes seen ++ s₀.tokens)) := (List.subperm_append_left _).2 h.tokens
    have hswap : (starts seen ++ (pushes more ++ held)).Perm
        (pushes more ++ (starts seen ++ held)) := List.perm_append_comm_assoc ..
    have hback : (pushes more ++ (pushes seen ++ s₀.tokens)).Perm
        (pushes seen ++ (pushes more ++ s₀.tokens)) := List.perm_append_comm_assoc ..
    rw [starts_append, pushes_append, List.append_assoc, List.append_assoc]
    exact ((hstep.trans hswap.subperm).trans hseen).trans hback.subperm
  woken r hr := by
    refine Spared.first_of_some ?_
    obtain hr | hr := List.mem_append.1 hr
    · exact h.woken r hr
    · exact hm.woken r hr
  popped before after hp := by
    have hpopped : after = before ∨
        ∃ token ∈ pushes seen, before = .active (token :: s₀.tokens) ∧ after = .active s₀.tokens := by
      obtain hp | hp := List.mem_append.1 hp
      · exact h.popped before after hp
      · exact hm.popped before after hp
    obtain hsame | ⟨token, ht, hbefore⟩ := hpopped
    · exact .inl hsame
    · exact .inr ⟨token, by simp [pushes_append, ht], hbefore⟩

/-- Others hold tokens as well. -/
theorem Legal.among (h : Legal s₀ held held' seen more) {all all' : List Code} (others : List Code)
    (hall : all.Perm (others ++ held)) (hall' : all'.Perm (others ++ held')) :
    Legal s₀ all all' seen more where
  tokens := by
    have hbefore : (starts more ++ all').Perm (others ++ (starts more ++ held')) :=
      (hall'.append_left _).trans (List.perm_append_comm_assoc ..)
    have hafter : (others ++ (pushes more ++ held)).Perm (pushes more ++ all) :=
      (List.perm_append_comm_assoc ..).trans (hall.symm.append_left _)
    have hstep : (others ++ (starts more ++ held')).Subperm (others ++ (pushes more ++ held)) :=
      (List.subperm_append_left _).2 h.tokens
    exact (hbefore.subperm.trans hstep).trans hafter.subperm
  woken := h.woken
  popped := h.popped

/-- Somebody has yet to wake the callback. -/
def Owed (l : LatchId) (cancelers : List (Place × Activity)) : Prop :=
  ∃ p ∈ cancelers, Owes l p.2

/-- The tokens that have yet to run. -/
def outstanding (s : Connection Code) (cancelers : List (Place × Activity)) : List Code :=
  cancelers.flatMap (fun p => remaining p.2) ++ s.tokens

theorem outstanding_perm (s : Connection Code) (before after : List (Place × Activity))
    (p : Place × Activity) :
    (outstanding s (before ++ p :: after)).Perm
      (outstanding .canceled (before ++ after) ++ (remaining p.2 ++ s.tokens)) := by
  simp only [outstanding, List.flatMap_append, List.flatMap_cons, Connection.tokens,
    List.append_assoc, List.nil_append]
  exact (List.perm_append_comm_assoc ..).append_left _

/-- What holds in every scene of a wait, where `s` is the state of the connection. -/
structure Stands (register : LatchId → Code) (c : ConnectionId) (l : LatchId)
    (s₀ s : Connection Code) (seen : List Sign) (t : Scene) : Prop where
  connection : t.world.connections[c]? = some s
  waiter : ∃ phase : Phase, phase.At register c l t.waiter ∧
    phase.Facts l s₀ s t.world (Owed l t.cancelers) seen
  cancelers : ∀ p ∈ t.cancelers, Canceling c s p.2
  orderly : Orderly s₀ (outstanding s t.cancelers) seen

namespace Stands

theorem asked {w : World} (hc : w.connections[c]? = some s₀) (place : Place)
    (below : List Frame) :
    Stands register c l s₀ s₀ [] (asked register c w place below) where
  connection := hc
  waiter := ⟨.before, .inl rfl, .inr rfl, .inl rfl, rfl⟩
  cancelers := by simp [Suspension.asked]
  orderly := ⟨.refl _, by simp, by simp⟩

theorem waiter_moves (hg : ∀ l, (register l).Guards l) (h : Stands register c l s₀ s seen t)
    {w : World} {a : Activity} (hs : t.waiter.stack ≠ [] ∨ t.waiter.control.settles = false)
    (hact : t.world.act t.place (t.waiter.atop t.below) = (w, a.atop t.below))
    (hown : ∀ op, t.waiter.op? = some op → Spares c l op ∨ Own c l t.waiter)
    (hfresh : t.waiter = ⟨.code (opening register c), []⟩ → t.world.latches.size = l)
    (hreturns : a.Returns l) :
    ∃ s', Stands register c l s₀ s' (seen ++ view t.world c l t.waiter)
      { t with world := w, waiter := a } := by
  rw [World.act_atop _ _ _ _ hs] at hact
  obtain ⟨rfl, ha⟩ := Prod.mk.inj hact
  obtain rfl := Activity.atop_inj.1 ha
  obtain ⟨phase, hat, hf⟩ := h.waiter
  obtain ⟨s', phase', hc', hat', hf', hcanceled, hlegal⟩ :=
    waiter_step hg hs h.connection hat hf hown hfresh hreturns
  refine ⟨s', hc', ⟨phase', hat', hf'⟩, fun p hp => (h.cancelers p hp).mono hcanceled, ?_⟩
  exact h.orderly.append (hlegal.among (outstanding .canceled t.cancelers)
    (by simp [outstanding, Connection.tokens]) (by simp [outstanding, Connection.tokens]))

theorem canceler_moves (h : Stands register c l s₀ s seen t)
    {before after : List (Place × Activity)} {place : Place} {a : Activity}
    (hc : t.cancelers = before ++ (place, a) :: after)
    (hspares : ∀ op, a.op? = some op → Spares c l op)
    (hreturns : (t.world.act place a).2.Returns l) :
    ∃ s', Stands register c l s₀ s' (seen ++ shown t.world c l a (started t.world c a))
      { t with
        world := (t.world.act place a).1
        cancelers := before ++ (place, (t.world.act place a).2) :: after } := by
  have hmem : (place, a) ∈ t.cancelers := hc ▸ List.mem_append_right _ (List.mem_cons_self ..)
  obtain ⟨s', hstep⟩ := canceler_step (h.cancelers _ hmem) h.connection hspares hreturns seen
  have hothers : ∀ p, p ∈ before ∨ p ∈ after → p ∈ t.cancelers := by
    rintro p (hp | hp) <;> simp [hc, hp]
  obtain ⟨phase, hat, hf⟩ := h.waiter
  refine ⟨s', hstep.connection, ⟨phase, hat, ?_⟩, fun p hp => ?_, ?_⟩
  · refine hstep.spared.facts (fun hl => ?_) hf fun token rest _ ht hs hs' => ?_
    · rintro ⟨p, hp, howes⟩
      obtain hp | rfl | hp : p ∈ before ∨ p = (place, a) ∨ p ∈ after := by simpa [hc] using hp
      · exact .inr ⟨p, List.mem_append_left _ hp, howes⟩
      · obtain hfirst | howes := hstep.owes howes hl
        · exact .inl hfirst
        · exact .inr ⟨_, List.mem_append_right _ (List.mem_cons_self ..), howes⟩
      · exact .inr ⟨p, List.mem_append_right _ (List.mem_cons_of_mem _ hp), howes⟩
    · exact ⟨_, List.mem_append_right _ (List.mem_cons_self ..), hstep.takes token rest ht hs hs'⟩
  · obtain hp | rfl | hp : p ∈ before ∨ p = (place, (t.world.act place a).2) ∨ p ∈ after := by
      simpa using hp
    · exact (h.cancelers p (hothers p (.inl hp))).mono hstep.spared.canceled
    · exact hstep.canceling
    · exact (h.cancelers p (hothers p (.inr hp))).mono hstep.spared.canceled
  · have hlegal : Legal s₀ (remaining a ++ s.tokens)
        (remaining (t.world.act place a).2 ++ s'.tokens) seen
        (shown t.world c l a (started t.world c a)) := by
      refine hstep.spared.foreign.legal ?_
      rw [starts_shown hspares, ← List.append_assoc]
      exact hstep.tokens
    refine h.orderly.append (hlegal.among _ ?_ (outstanding_perm s' before after _))
    rw [hc]
    exact outstanding_perm s before after _

/-- A step that only others take part in. -/
theorem others_move (h : Stands register c l s₀ s seen t) {w : World}
    (hsp : Spared l s s t.world w seen more) (hc : w.connections[c]? = t.world.connections[c]?)
    (hmore : starts more = []) :
    Stands register c l s₀ s (seen ++ more) { t with world := w } where
  connection := hc.trans h.connection
  waiter := by
    obtain ⟨phase, hat, hf⟩ := h.waiter
    refine ⟨phase, hat, hsp.facts (fun _ => .inr) hf fun token rest _ _ hs hs' => ?_⟩
    rw [hs] at hs'
    cases hs'
  cancelers := h.cancelers
  orderly := by
    refine h.orderly.append (hsp.foreign.legal ?_)
    rw [hmore]
    exact .refl _

theorem joins (h : Stands register c l s₀ s seen t) (place : Place) :
    Stands register c l s₀ s (seen ++ [])
      { t with cancelers := t.cancelers ++ [(place, ⟨.code (task c.cancel), []⟩)] } where
  connection := h.connection
  waiter := by
    obtain ⟨phase, hat, hf⟩ := h.waiter
    have hsp : Spared l s s t.world t.world seen [] :=
      ⟨.inl rfl, by simp [Foreign], fun hl => by rwa [List.append_nil], id, .inl rfl⟩
    refine ⟨phase, hat, hsp.facts (fun _ => ?_) hf fun token rest _ _ hs hs' => ?_⟩
    · rintro ⟨p, hp, howes⟩
      exact .inr ⟨p, List.mem_append_left _ hp, howes⟩
    · rw [hs] at hs'
      cases hs'
  cancelers p hp := by
    obtain hp | rfl : p ∈ t.cancelers ∨ p = (place, ⟨.code (task c.cancel), []⟩) := by
      simpa using hp
    · exact h.cancelers p hp
    · exact .start
  orderly := by
    simpa [outstanding] using h.orderly

theorem step (hg : ∀ l, (register l).Guards l) (h : Stands register c l s₀ s seen t)
    (hm : Moves register c l t more u) : ∃ s', Stands register c l s₀ s' (seen ++ more) u := by
  cases hm with
  | waiter hs hact hown hfresh hreturns =>
    exact h.waiter_moves hg hs hact hown hfresh hreturns
  | canceler hc hspares hreturns => exact h.canceler_moves hc hspares hreturns
  | joins place => exact ⟨s, h.joins place⟩
  | others w hc hl =>
    refine ⟨s, h.others_move ⟨.inl rfl, by simp [Foreign], fun hl' => ?_, fun hl' => ?_, .inl rfl⟩
      hc rfl⟩
    · rw [List.append_nil]
      exact hl _ hl'
    · exact (Array.getElem?_eq_some_iff.1 (hl _ (Array.getElem?_eq_getElem hl'))).1
  | delivers w hc r hl hw =>
    have hknown := (Array.getElem?_eq_some_iff.1 hl).1
    have hknown' := (Array.getElem?_eq_some_iff.1 hw).1
    refine ⟨s, h.others_move ⟨.inl rfl, by simp [Foreign], fun hl' => ?_, fun _ => hknown',
      .inr hknown⟩ hc rfl⟩
    obtain rfl := Option.some.inj (hl.symm.trans hl')
    rw [hw]
    exact congrArg some (holding_after seen (some r))

end Stands

theorem Runs.stands (hg : ∀ l, (register l).Guards l) {w : World}
    (hc : w.connections[c]? = some s₀) {place : Place} {below : List Frame}
    (h : Runs register c l (asked register c w place below) seen t) :
    ∃ s, Stands register c l s₀ s seen t := by
  induction h with
  | start => exact ⟨s₀, .asked hc place below⟩
  | move _ hm ih =>
    obtain ⟨s, ih⟩ := ih
    exact ih.step hg hm

end Effects.Suspension
