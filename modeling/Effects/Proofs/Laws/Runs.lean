import Effects.Proofs.Laws.Steps

/-!
Runs of programs that are alike, among the threads of a world. One does what the other does, in the
same turns of all others, and ends as the other ends.
-/

namespace Effects

open Activity

/-- The operations, each with the world that it finds. -/
def Trace.effects (t : Trace) : List (World × Op) := t.map fun o => (o.world, o.op)

namespace Activity

variable {w : World} {here : Place} {a b : Activity} {x : Except String (Exit × Run)}

/-- On its thread an activity does the same, if need be a step later. -/
theorem act_glides (h : a.Able w here) :
    (w.act here a).1 = (w.flow here a).1 ∧ GlidesTo (w.act here a).2 (w.flow here a).2 := by
  obtain heq | ⟨hworld, hdefers⟩ := act_defers h
  · rw [heq]
    exact ⟨rfl, .refl⟩
  · exact ⟨hworld, .single hdefers.glides⟩

theorem Defers.act (h : Defers a b) (hable : a.Able w here) : w.act here a = (w, b) := by
  cases h with
  | mk closure next run fs =>
    have hcurrent : w.isCurrent here.home run.context = true := hable
    simp only [World.act, hcurrent, if_true]
    rfl

/-- Where nothing is left to run, the next step is the end. -/
theorem flow_of_not_open (h : ¬ Onto.Open a) : ∃ r, (w.flow here a).2.control = .ended r := by
  obtain ⟨control, stack⟩ := a
  obtain ⟨hstack, hcontrol⟩ := not_or.1 h
  obtain rfl : stack = [] := not_not.1 hstack
  cases control with
  | drive => exact absurd rfl hcontrol
  | code x =>
    cases x with
    | perform | panic => exact absurd rfl hcontrol
    | give | build | guard => exact ⟨_, rfl⟩
  | unwinding message => exact ⟨_, rfl⟩
  | ended r => exact ⟨r, rfl⟩

theorem Glides.open (h : Glides a b) : Onto.Open a := by
  by_contra hopen
  obtain ⟨r, hr⟩ : ∃ r, (World.start.flow ⟨"", none⟩ a).2.control = .ended r :=
    flow_of_not_open hopen
  rw [h.flow] at hr
  exact h.ends r hr

theorem GlidesTo.of_not_open (h : GlidesTo a b) (ha : ¬ Onto.Open a) : b = a := by
  obtain rfl | ⟨c, hc, -⟩ := h.cases_head
  · rfl
  · exact absurd hc.open ha

theorem not_open_yielding (x : Except String (Exit × Run)) : ¬ Onto.Open (.yielding x) := by
  obtain message | ⟨exit, run⟩ := x <;> simp [Onto.Open, yielding, Control.settles]

theorem Glides.unended (h : Glides a b) (r : Except String Reply) : a.control ≠ .ended r := by
  intro hr
  have hflow : (World.start.flow ⟨"", none⟩ a).2 = a := by simp only [World.flow, hr]
  rw [h.flow] at hflow
  obtain rfl : b = a := hflow
  exact h.ends r hr

theorem GlidesTo.ended (h : GlidesTo a b) {r : Except String Reply} (hb : b.control = .ended r) :
    a = b := by
  obtain heq | ⟨d, -, hdb⟩ := h.cases_tail
  · exact heq.symm
  · exact absurd hb (hdb.ends r)

theorem Kin.ended (h : a.Kin b) {r : Except String Reply} (hb : b.control = .ended r) :
    a.control = .ended r := by
  obtain ⟨a', b', ha, hb', ⟨hcontrol, -⟩⟩ := h
  obtain rfl | ⟨d, hd, -⟩ := hb'.cases_head
  · have hend : a'.control = .ended r := by
      rw [hb] at hcontrol
      generalize a'.control = k at hcontrol
      cases hcontrol
      rfl
    exact (GlidesTo.ended ha hend) ▸ hend
  · exact absurd hb (hd.unended r)

theorem op?_yielding (x : Except String (Exit × Run)) : (yielding x).op? = none := by
  obtain message | ⟨exit, run⟩ := x <;> rfl

theorem Kin.yielding (h : Kin (.yielding x) b) : GlidesTo b (.yielding x) := by
  obtain ⟨a', b', ha, hb, ⟨hcontrol, hstack⟩⟩ := h
  obtain rfl := GlidesTo.of_not_open ha (not_open_yielding x)
  have heq : b' = .yielding x := by
    obtain ⟨control, stack⟩ := b'
    obtain message | ⟨exit, run⟩ := x
    · cases hcontrol
      cases hstack
      rfl
    · cases hcontrol with
      | code hcode =>
        cases hcode
        cases hstack
        rfl
  exact heq ▸ hb

end Activity

namespace Relay

variable {c : ConnectionId} {hosts : Hosts} {s t u v : Relay} {b : Activity} {o o' : Trace}

/-- Nothing is left to do, and the run has ended like this. -/
def EndsAs (s : Relay) (r : Except String Reply) : Prop := s.activity = ⟨.ended r, []⟩ ∧ s.left = []

/-- Comes there in turns of its own. -/
def Comes (c : ConnectionId) (hosts : Hosts) (s : Relay) (o : Trace) (t : Relay) : Prop :=
  ∃ n, turns c hosts (List.replicate n .own) s = (o, t)

namespace Comes

theorem refl (s : Relay) : Comes c hosts s [] s := ⟨0, rfl⟩

theorem trans (h : Comes c hosts s o t) (h' : Comes c hosts t o' u) :
    Comes c hosts s (o ++ o') u := by
  obtain ⟨m, hm⟩ := h
  obtain ⟨n, hn⟩ := h'
  refine ⟨m + n, ?_⟩
  rw [List.replicate_add]
  exact turns_append hm hn

theorem step (hready : s.ready = true) :
    Comes c hosts s (s.activity.performs s.world s.place) (s.step hosts) := by
  refine ⟨1, ?_⟩
  simp [turns, performed, Relay.turn, hready]

end Comes

/-- Comes there in turns of its own of which nothing is seen. -/
structure Drifts (c : ConnectionId) (hosts : Hosts) (s u : Relay) : Prop where
  comes : Comes c hosts s [] u
  based : u.Based
  world : u.world = s.world

theorem Drifts.refl (h : s.Based) : Drifts c hosts s s := ⟨.refl s, h, rfl⟩

theorem Drifts.trans (h : Drifts c hosts s t) (h' : Drifts c hosts t u) : Drifts c hosts s u :=
  ⟨h.comes.trans h'.comes, h'.based, h'.world.trans h.world⟩

theorem Kept.drifts (h : s.Kept hosts) (hready : s.ready = true) :
    Drifts c hosts s (s.step hosts) := by
  have hstep : Comes c hosts s (s.activity.performs s.world s.place) (s.step hosts) := .step hready
  rw [h.performs] at hstep
  exact ⟨hstep, h.based, h.world⟩

/-- May take its next step, if need be on another thread. -/
def Unblocked (s : Relay) : Prop := ∀ op, s.whole.op? = some op → s.world.ready op = true

theorem Unblocked.ready (h : s.Unblocked) : s.ready = true := by
  obtain ⟨w, here, ⟨control, stack⟩, left⟩ := s
  cases control with
  | code x =>
    cases x with
    | perform op next => exact h op rfl
    | _ => rfl
  | _ => rfl

theorem Unblocked.congr (h : s.Unblocked) (hworld : t.world = s.world) (hwhole : t.whole = s.whole) :
    t.Unblocked := by
  unfold Unblocked
  rw [hworld, hwhole]
  exact h

namespace Based

/-- The control goes from thread to thread until there is a step to take, or the run is over. -/
theorem drifts_on (h : s.Based) (hfree : s.Unblocked) :
    ∃ u, Drifts c hosts s u ∧ u.whole = s.whole ∧ (u.Over ∨ u.Moved hosts) := by
  induction hn : s.pace using Nat.strongRecOn generalizing s with
  | ind n ih =>
    obtain hkept | hmoved : s.Kept hosts ∨ s.Moved hosts := h.step_cases hfree.ready
    · obtain hover | hnears := hkept.nears
      · exact ⟨s, .refl h, rfl, .inl hover⟩
      · obtain ⟨u, hu, hwhole, hlast⟩ := ih _ (hn ▸ hnears) hkept.based
          (hfree.congr hkept.world hkept.whole) rfl
        exact ⟨u, (hkept.drifts hfree.ready).trans hu, hwhole.trans hkept.whole, hlast⟩
    · exact ⟨s, .refl h, rfl, .inr hmoved⟩

theorem not_open_of_over (h : s.Over) : ¬ Onto.Open s.whole := by
  obtain ⟨w, here, a, left⟩ := s
  obtain ⟨r, rfl, rfl⟩ := h
  cases r <;> simp [Onto.Open, whole, Relay.frames, Control.handed, Control.returning,
    Control.settles]

/-- A step of the whole is taken on some thread. -/
theorem comes_act (h : s.Based) (hfree : s.Unblocked) (hopen : Onto.Open s.whole) :
    ∃ here o u, s.whole.Able s.world here ∧ Comes c hosts s o u ∧ u.Based ∧
      (u.world, u.whole) = s.world.act here s.whole ∧
      o.effects = s.whole.op?.toList.map (Prod.mk s.world) := by
  obtain ⟨u, ⟨hcomes, hu, hworld⟩, hwhole, hlast⟩ :
      ∃ u, Drifts c hosts s u ∧ u.whole = s.whole ∧ (u.Over ∨ u.Moved hosts) := h.drifts_on hfree
  have hmoved := hlast.resolve_left fun hover => not_open_of_over hover (hwhole ▸ hopen)
  have hstep : Comes c hosts u (u.activity.performs u.world u.place) (u.step hosts) :=
    .step (hfree.congr hworld hwhole).ready
  have hable := hmoved.able
  have hact := hmoved.act
  rw [hmoved.performs, hwhole, hworld] at hstep
  rw [hwhole, hworld] at hable hact
  refine ⟨u.place, _, _, hable, hcomes.trans hstep, hmoved.based, hact, ?_⟩
  simp [Trace.effects, performs_eq, Function.comp_def]

theorem unblocked_of_op? (h : s.whole.op? = none) : s.Unblocked := fun op hop => by simp [h] at hop

theorem drifts_act (h : s.Based) (hopen : Onto.Open s.whole) (hop : s.whole.op? = none) :
    ∃ here u, s.whole.Able s.world here ∧ Drifts c hosts s u ∧
      u.whole = (s.world.act here s.whole).2 := by
  obtain ⟨here, o, u, hable, hcomes, hu, hact, ho⟩ :
      ∃ here o u, s.whole.Able s.world here ∧ Comes c hosts s o u ∧ u.Based ∧
        (u.world, u.whole) = s.world.act here s.whole ∧
        o.effects = s.whole.op?.toList.map (Prod.mk s.world) :=
    h.comes_act (unblocked_of_op? hop) hopen
  obtain rfl : o = [] := by simpa [Trace.effects, hop] using ho
  have hworld : (s.world.act here s.whole).1 = s.world := by
    rw [World.act_world, hop]
    rfl
  rw [← hact] at hworld
  exact ⟨here, u, hable, ⟨hcomes, hu, hworld⟩, congrArg Prod.snd hact⟩

theorem drifts_glide (h : s.Based) (hb : Glides s.whole b) :
    ∃ u, Drifts c hosts s u ∧ u.whole = b := by
  obtain ⟨here, u, hable, hu, hwhole⟩ : ∃ here u, s.whole.Able s.world here ∧
      Drifts c hosts s u ∧ u.whole = (s.world.act here s.whole).2 := h.drifts_act hb.open hb.op
  obtain heq | ⟨-, hdefers⟩ := act_defers hable
  · rw [heq, hb.flow] at hwhole
    exact ⟨u, hu, hwhole⟩
  · -- the closure is called in the step after
    rw [hb.flow, ← hwhole] at hdefers
    have hglides := Defers.glides hdefers
    obtain ⟨here', v, hable', hv, hwhole'⟩ : ∃ here v, u.whole.Able u.world here ∧
        Drifts c hosts u v ∧ v.whole = (u.world.act here u.whole).2 :=
      hu.based.drifts_act hglides.open hglides.op
    rw [Defers.act hdefers hable'] at hwhole'
    exact ⟨v, hu.trans hv, hwhole'⟩

theorem drifts_glides (h : s.Based) (hb : GlidesTo s.whole b) :
    ∃ u, Drifts c hosts s u ∧ u.whole = b := by
  generalize ha : s.whole = a at hb
  induction hb using Relation.ReflTransGen.head_induction_on generalizing s with
  | refl => exact ⟨s, .refl h, ha⟩
  | head hac _ ih =>
    obtain ⟨u, hu, hwhole⟩ := h.drifts_glide (ha ▸ hac)
    obtain ⟨v, hv, hwhole'⟩ := ih hu.based hwhole
    exact ⟨v, hu.trans hv, hwhole'⟩

theorem yielding_of_ends (h : s.Based) {r : Except String Reply} (hs : s.EndsAs r) :
    ∃ x, r = resultOf x ∧ s.whole = .yielding x := by
  obtain ⟨hactivity, hleft⟩ := hs
  have hwhole : s.whole = ⟨.returning r, []⟩ := by
    rw [whole, Relay.frames, hactivity, hleft]
    rfl
  obtain hbased | ⟨x, hx⟩ := h.activity
  · rw [hactivity] at hbased
    obtain hopen | ⟨x, hx⟩ := hbased.open_or
    · simp [Onto.Open, Control.settles] at hopen
    · obtain message | ⟨exit, run⟩ := x <;> cases hx
  · rw [hactivity] at hx
    cases hx
    refine ⟨x, rfl, hwhole.trans ?_⟩
    obtain message | ⟨exit, run⟩ := x <;> rfl

end Based

theorem ends_of_yielding {x : Except String (Exit × Run)} (h : s.Over)
    (hwhole : s.whole = .yielding x) : s.EndsAs (resultOf x) := by
  obtain ⟨r, hr, hleft⟩ := h
  rw [whole, Relay.frames, hr, hleft] at hwhole
  refine ⟨?_, hleft⟩
  obtain message | ⟨exit, run⟩ := x <;> cases r <;> cases hwhole <;> exact hr

/-- In the same world, and what is left to run becomes alike without being seen. -/
structure Sim (s t : Relay) : Prop where
  left : s.Based
  right : t.Based
  world : t.world = s.world
  kin : s.whole.Kin t.whole

namespace Sim

/-- What the first run does in a step of its own, the second one does in some. -/
theorem own (h : Sim s t) (hready : s.ready = true)
    (hop : ∀ op, s.activity.op? = some op → ¬ op.Observes) :
    ∃ o u, Comes c hosts t o u ∧ Sim (s.step hosts) u ∧
      o.effects = (s.activity.performs s.world s.place).effects := by
  obtain hkept | hmoved : s.Kept hosts ∨ s.Moved hosts := h.left.step_cases hready
  · rw [hkept.performs]
    exact ⟨[], t, .refl t, ⟨hkept.based, h.right, h.world.trans hkept.world.symm,
      hkept.whole ▸ h.kin⟩, rfl⟩
  · have hop' : ∀ op, s.whole.op? = some op → ¬ op.Observes := by
      intro op hwhole
      refine hop op ?_
      unfold Activity.op? at hwhole ⊢
      rwa [← hmoved.control]
    have hact := hmoved.act
    obtain ⟨hworld, hglides⟩ := act_glides hmoved.able
    rw [← hact] at hworld hglides
    rw [hmoved.performs, performs_eq]
    obtain ⟨a', ha', hkin⟩ | ⟨b', hb', hmatches⟩ :
        Advances s.world s.place s.whole t.whole := h.kin.advances hop'
    · rw [ha'.flow] at hworld hglides
      rw [ha'.op]
      exact ⟨[], t, .refl t, ⟨hmoved.based, h.right, h.world.trans hworld.symm,
        hkin.of_glides hglides .refl⟩, rfl⟩
    · obtain ⟨v, ⟨hv, hbased, hvworld⟩, rfl⟩ : ∃ v, Drifts c hosts t v ∧ v.whole = b' :=
        h.right.drifts_glides hb'
      have hsame : v.world = s.world := hvworld.trans h.world
      have hvop : v.whole.op? = s.whole.op? := (hmatches s.place).op
      have hfree : v.Unblocked := by
        intro op hop
        rw [hsame]
        have hable := hmoved.able
        rw [hvop] at hop
        generalize s.whole = a at hable hop
        obtain ⟨_ | x | _ | _, _⟩ := a <;> try cases hop
        cases x <;> cases hop
        exact hable
      have hopen : Onto.Open v.whole := by
        by_contra hopen
        obtain ⟨r, hr⟩ : ∃ r, (s.world.flow s.place v.whole).2.control = .ended r :=
          flow_of_not_open hopen
        have hend := (hmatches s.place).kin.ended hr
        have hnot : ∀ r, (s.step hosts).whole.control ≠ .ended r := by
          intro r hr
          simp only [whole] at hr
          generalize (s.step hosts).activity.control = k at hr
          obtain _ | _ | _ | r := k <;> try cases hr
          cases r <;> cases hr
        have heq : (s.step hosts).whole = (s.world.flow s.place s.whole).2 :=
          GlidesTo.ended hglides hend
        exact hnot r (heq ▸ hend)
      obtain ⟨here, o, u, hable, hu, hubased, huact, ho⟩ := hbased.comes_act hfree hopen
      obtain ⟨huworld, huglides⟩ := act_glides hable
      rw [hsame] at huworld huglides huact ho
      rw [← huact] at huworld huglides
      obtain ⟨-, hflow, hkin⟩ := hmatches here
      refine ⟨o, u, hv.trans hu, ⟨hmoved.based, hubased, ?_, hkin.of_glides hglides huglides⟩, ?_⟩
      · exact huworld.trans (hflow.trans hworld.symm)
      · rw [ho, hvop]
        simp [Trace.effects, Function.comp_def]

/-- A turn of the first run, or of another. -/
theorem turn (h : Sim s t) (turn : Turn)
    (hop : ∀ o ∈ s.performed turn, ¬ o.op.Observes) :
    ∃ ts, ts.filter (· ≠ .own) = [turn].filter (· ≠ .own) ∧
      (turns c hosts ts t).1.effects = (s.performed turn).effects ∧
      Sim (s.turn c hosts turn) (turns c hosts ts t).2 := by
  have hother : turn ≠ .own → (turns c hosts [turn] t).1.effects = (s.performed turn).effects := by
    cases turn <;> simp [turns, performed]
  cases turn with
  | own =>
    simp only [performed] at hop ⊢
    split at hop <;> rename_i hready
    · rw [performs_eq] at hop
      obtain ⟨o, u, ⟨n, hn⟩, hsim, ho⟩ := h.own hready fun op hop' =>
        hop ⟨s.world, s.place, op⟩ (by simp [hop'])
      refine ⟨List.replicate n .own, by simp, ?_, ?_⟩
      · rw [hn, if_pos hready]
        exact ho
      · rw [hn, Relay.turn, if_pos hready]
        exact hsim
    · rw [Relay.turn, if_neg hready, if_neg hready]
      exact ⟨[], rfl, rfl, h⟩
  | thread i =>
    refine ⟨[.thread i], rfl, hother (by simp), ?_⟩
    simp only [turns, Relay.turn, h.world]
    split
    · exact ⟨⟨h.left.proper, h.left.activity, h.left.left⟩,
        ⟨h.right.proper, h.right.activity, h.right.left⟩, rfl, h.kin⟩
    · exact h
  | passing nanos =>
    refine ⟨[.passing nanos], rfl, hother (by simp), ⟨h.left.proper, h.left.activity, h.left.left⟩,
      ⟨h.right.proper, h.right.activity, h.right.left⟩, ?_, h.kin⟩
    simp only [turns, Relay.turn, h.world]
  | cancel =>
    refine ⟨[.cancel], rfl, hother (by simp), ⟨h.left.proper, h.left.activity, h.left.left⟩,
      ⟨h.right.proper, h.right.activity, h.right.left⟩, ?_, h.kin⟩
    simp only [turns, Relay.turn, canceled, h.world]

theorem turns (h : Sim s t) (ts : List Turn)
    (hop : ∀ o ∈ (turns c hosts ts s).1, ¬ o.op.Observes) :
    ∃ ts', ts'.filter (· ≠ .own) = ts.filter (· ≠ .own) ∧
      (turns c hosts ts' t).1.effects = (turns c hosts ts s).1.effects ∧
      Sim (turns c hosts ts s).2 (turns c hosts ts' t).2 := by
  induction ts generalizing s t with
  | nil => exact ⟨[], rfl, rfl, h⟩
  | cons turn ts ih =>
    simp only [Relay.turns, List.mem_append] at hop
    obtain ⟨ts₁, hfilter₁, heffects₁, hsim₁⟩ := h.turn turn fun o ho => hop o (.inl ho)
    obtain ⟨ts₂, hfilter₂, heffects₂, hsim₂⟩ := ih hsim₁ fun o ho => hop o (.inr ho)
    have happend : Relay.turns c hosts (ts₁ ++ ts₂) t = _ := turns_append (Prod.eta _) (Prod.eta _)
    refine ⟨ts₁ ++ ts₂, ?_, ?_, ?_⟩
    · rw [List.filter_append, hfilter₁, hfilter₂, ← List.filter_append]
      rfl
    · rw [happend]
      simp only [Relay.turns, Trace.effects, List.map_append] at heffects₁ heffects₂ ⊢
      rw [heffects₁, heffects₂]
    · rw [happend]
      exact hsim₂

/-- The second run comes to the end of the first one, without being seen. -/
theorem ends (h : Sim s t) {r : Except String Reply} (hs : s.EndsAs r) :
    ∃ u, Drifts c hosts t u ∧ u.EndsAs r := by
  obtain ⟨x, rfl, hwhole⟩ := h.left.yielding_of_ends hs
  have hkin := h.kin
  rw [hwhole] at hkin
  obtain ⟨v, hv, hvwhole⟩ : ∃ v, Drifts c hosts t v ∧ v.whole = .yielding x :=
    h.right.drifts_glides hkin.yielding
  obtain ⟨u, hu, huwhole, hlast⟩ : ∃ u, Drifts c hosts v u ∧ u.whole = v.whole ∧
      (u.Over ∨ u.Moved hosts) := hv.based.drifts_on (Based.unblocked_of_op? (hvwhole ▸ op?_yielding x))
  rw [hvwhole] at huwhole
  obtain hover | hmoved := hlast
  · exact ⟨u, hv.trans hu, ends_of_yielding hover huwhole⟩
  · exact absurd (huwhole ▸ hmoved.unended) (not_open_yielding x)

end Sim

/-- Whatever the first run does, unless it performs an operation that is left out: with the same
turns of all others, the second run performs the same operations, each in the same world, and the
world is the same after it. If the first run has ended, so has the second one, in the same way. -/
def Follows (leaves : Op → Prop) (c : ConnectionId) (hosts : Hosts) (s t : Relay) : Prop :=
  ∀ ts, (∀ o ∈ (turns c hosts ts s).1, ¬ leaves o.op) →
    ∃ ts', ts'.filter (· ≠ .own) = ts.filter (· ≠ .own) ∧
      (turns c hosts ts' t).1.effects = (turns c hosts ts s).1.effects ∧
      (turns c hosts ts' t).2.world = (turns c hosts ts s).2.world ∧
      ∀ r, (turns c hosts ts s).2.EndsAs r → (turns c hosts ts' t).2.EndsAs r

theorem Sim.follows (h : Sim s t) : Follows Op.Observes c hosts s t := by
  intro ts hop
  obtain ⟨ts', hfilter, heffects, hsim⟩ := h.turns ts hop
  by_cases hend : ∃ r, (Relay.turns c hosts ts s).2.EndsAs r
  · obtain ⟨r, hr⟩ := hend
    obtain ⟨u, ⟨⟨n, hn⟩, -, hworld⟩, hu⟩ := hsim.ends hr
    refine ⟨ts' ++ List.replicate n .own, by simpa using hfilter, ?_⟩
    rw [turns_append (Prod.eta _) hn]
    refine ⟨by simpa using heffects, hworld.trans hsim.world, fun r' hr' => ?_⟩
    obtain rfl : r' = r := by
      have heq := hr'.1.symm.trans hr.1
      cases heq
      rfl
    exact hu
  · exact ⟨ts', hfilter, heffects, hsim.world, fun r hr => absurd ⟨r, hr⟩ hend⟩

/-- The run of a program, at its start. -/
def starting (w : World) (here : Place) (node : Node) (run : Run) : Relay :=
  ⟨w, here, ⟨.drive (.focus node []) run, []⟩, []⟩

theorem Based.starting (w : World) (here : Place) (node : Node) (run : Run) :
    (Relay.starting w here node run).Based :=
  ⟨proper_of_ne (by simp [Relay.starting]), .inl (.machine _ run), by simp [Relay.starting]⟩

/-- Each of the two runs does what the other one does. -/
def Agree (leaves : Op → Prop) (c : ConnectionId) (hosts : Hosts) (s t : Relay) : Prop :=
  Follows leaves c hosts s t ∧ Follows leaves c hosts t s

end Relay

variable {node node' : Node}

theorem Node.Alike.sim (h : node.Alike node') (w : World) (here : Place) (run : Run) :
    (Relay.starting w here node run).Sim (.starting w here node' run) where
  left := .starting w here node run
  right := .starting w here node' run
  world := rfl
  kin := kin_drive (.focus h .nil) .nil run

/-- Wherever the sides of the laws stand in a program, unless it asks on what thread it is. -/
theorem Node.alike_runs_agree (h : node.Alike node') (c : ConnectionId) (hosts : Hosts) (w : World)
    (here : Place) (run : Run) :
    Relay.Agree Op.Observes c hosts (.starting w here node run) (.starting w here node' run) :=
  ⟨(h.sim w here run).follows, (h.symm.sim w here run).follows⟩

/-- The sides of a law after a hop and in an uncancelable region, with an effect to follow. -/
theorem Node.attempted_runs_agree : Relay.Agree Op.Observes 0 (fun _ _ => "worker")
    (.starting .start ⟨"caller", none⟩
      ((((Effect.raise .null).continueOn .global).attempt.flatMap Effect.ofExcept :
        Effect Value Value).uncancelable.followedBy Effect.unit).node ⟨.inline, 0⟩)
    (.starting .start ⟨"caller", none⟩
      ((((Effect.raise .null).continueOn .global) :
        Effect Value Value).uncancelable.followedBy Effect.unit).node ⟨.inline, 0⟩) :=
  Node.alike_runs_agree (.flatMap (.uncancelable (.law (.attempt_ofExcept _))) fun _ => .refl _) _ _ _
    _ _

section Asking

variable {c : ConnectionId} {hosts : Hosts} {s t u u' : Relay} {o o' : Trace}
  {r r' : Except String Reply}

theorem Relay.EndsAs.turns (h : s.EndsAs r) (n : Nat) :
    turns c hosts (List.replicate n .own) s = ([], s) := by
  obtain ⟨w, here, a, left⟩ := s
  obtain ⟨rfl, rfl⟩ := h
  induction n with
  | zero => rfl
  | succ n ih =>
    rw [List.replicate_succ]
    exact Prod.ext (congrArg Prod.fst ih) (congrArg Prod.snd ih)

theorem Relay.Comes.ends_as (h : Comes c hosts s o t) (ht : t.EndsAs r) (h' : Comes c hosts s o' u)
    (hu : u.EndsAs r') : r = r' := by
  obtain ⟨m, hm⟩ := h
  obtain ⟨n, hn⟩ := h'
  have hlate : ∀ {k v o q}, Relay.turns c hosts (List.replicate k .own) s = (o, v) → v.EndsAs q →
      ∀ l, (Relay.turns c hosts (List.replicate (k + l) .own) s).2 = v := by
    intro k v o q hk hv l
    rw [List.replicate_add, turns_append hk (hv.turns l)]
  have htu : t = u := by
    rw [← hlate hm ht n, ← hlate hn hu m, Nat.add_comm]
  have heq := ht.1.symm.trans (htu ▸ hu.1)
  cases heq
  rfl

/-- With no turns but its own, a run ends in one way. -/
theorem Relay.Follows.ends_as {leaves : Op → Prop} (h : Follows leaves c hosts s t)
    (hs : Comes c hosts s o u) (ho : ∀ p ∈ o, ¬ leaves p.op) (hu : u.EndsAs r)
    (ht : Comes c hosts t o' u') (hu' : u'.EndsAs r') : r = r' := by
  obtain ⟨n, hn⟩ := hs
  obtain ⟨ts, hfilter, -, -, hends⟩ := h (List.replicate n .own) (by rwa [hn])
  have hown : ts = List.replicate ts.length .own := by
    refine List.eq_replicate_of_mem fun turn hturn => ?_
    by_contra hne
    have hmem : turn ∈ ts.filter (· ≠ .own) := List.mem_filter.2 ⟨hturn, by simpa using hne⟩
    rw [hfilter] at hmem
    simp at hmem
  rw [hn] at hends
  have hcomes : Comes c hosts t (Relay.turns c hosts ts t).1 (Relay.turns c hosts ts t).2 :=
    ⟨ts.length, by rw [← hown]⟩
  exact hcomes.ends_as (hends r hu) ht hu'

/-- Leads to the context, from where only the machine that runs it goes there. -/
def Effect.excursion (c : ContextId) : Effect Value Value :=
  ((Effect.pure .null : Effect Value Value).continueOn c).instrument

/-- Whether the thread belongs to the context, asked after the effect and back on any thread. -/
def Effect.placedAfter (c : ContextId) (e : Effect Value Value) : Effect Value Bool :=
  (e.continueOn .inline).flatMap fun _ => delay c.isCurrent

/-- Asking whether the thread belongs to a context tells the sides of a law apart: the closure that
the one side has in place goes to the thread that the context wants, and what follows stays there. -/
theorem Relay.asking_tells_apart :
    ((Effect.excursion 2).flatMap Effect.pure).Law (Effect.excursion 2) ∧
    ¬ Agree (· = .threadName) 0 (fun _ _ => "b")
      (.starting (World.start.openContext "b" true none).1 ⟨"caller", none⟩
        (Effect.placedAfter 2 ((Effect.excursion 2).flatMap Effect.pure)).node ⟨.inline, 0⟩)
      (.starting (World.start.openContext "b" true none).1 ⟨"caller", none⟩
        (Effect.placedAfter 2 (Effect.excursion 2)).node ⟨.inline, 0⟩) := by
  refine ⟨.flatMap_pure _, fun ⟨h, _⟩ => ?_⟩
  let run (e : Effect Value Value) (n : Nat) : Trace × Relay :=
    turns 0 (fun _ _ => "b") (List.replicate n .own)
      (.starting (World.start.openContext "b" true none).1 ⟨"caller", none⟩
        (Effect.placedAfter 2 e).node ⟨.inline, 0⟩)
  let ending (answer : Bool) : Activity :=
    ⟨.ended (.ok (.ended (.completed (.bool answer)) ⟨.inline, 0⟩)), []⟩
  have hleft : (run ((Effect.excursion 2).flatMap Effect.pure) 24).2.activity = ending true := rfl
  have hright : (run (Effect.excursion 2) 17).2.activity = ending false := rfl
  have hops : (run ((Effect.excursion 2).flatMap Effect.pure) 24).1.map Operation.op =
      [.context 2 .isCurrent] := rfl
  have hnames : ∀ p ∈ (run ((Effect.excursion 2).flatMap Effect.pure) 24).1,
      ¬ p.op = .threadName := by
    intro p hp heq
    have hmem := List.mem_map_of_mem (f := Operation.op) hp
    rw [hops, heq] at hmem
    cases hmem with
    | tail _ hmem => cases hmem
  have hends := h.ends_as ⟨24, rfl⟩ hnames ⟨hleft, rfl⟩ ⟨17, rfl⟩ ⟨hright, rfl⟩
  cases hends

end Asking

end Effects
