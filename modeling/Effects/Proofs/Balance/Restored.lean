import Effects.Proofs.Balance.Steps

/-!
Whatever happens in an evaluation, it gives back the connection that it has begun with, with the
tokens that were there, or canceled.
-/

namespace Effects.Evaluation

variable {c : ConnectionId} {own : FiberId → Prop} {w : World} {here place : Place}
  {s t : Connection Code} {run : Run} {fs stack : List Frame} {ds : List ConnectionId}
  {depth : Nat} {u v : Relay} {left : List (Place × List Frame)}

section Threads

theorem cancels_self (c : ConnectionId) (w : World) : cancels c w w = [] := by
  simp [cancels]

/-- The thread that the run began on has come to its end. -/
def Over (u : Relay) : Prop := u.left = [] ∧ ∃ r, u.activity = ⟨.ended r, []⟩

/-- What is to be known of a run, which has not come to an end before its evaluations have. -/
structure Holds (c : ConnectionId) (own : FiberId → Prop) (t : Connection Code)
    (ds : List ConnectionId) (u : Relay) : Prop where
  calm : u.flat.Calm
  stands : (∃ depth, Rests c own t depth u.world ∧ Stands c own depth u.flat ds ∧ ¬ Over u) ∨
    Rests c own t 0 u.world ∧ Over u ∧ ds = []

/-- A thread that has been hopped to hands over what it has ended with. -/
theorem handing_replays (here : Place) {r : Except String Reply} (hw : Rests c own t depth w)
    (h : Stands c own depth ⟨.ended r, fs⟩ ds) :
    Stands c own depth ⟨.returning r, fs⟩ ds ∧
      Replays (scopes c t ds)
        (if Activity.inside ⟨.ended r, fs⟩ then [] else handing w fs r) (scopes c t ds) := by
  generalize ha : (⟨.ended r, fs⟩ : Activity) = a at h
  cases h with
  | focus | unwind | given => cases ha
  | ended exit h =>
    obtain ⟨hr, rfl⟩ := Activity.mk.inj ha
    obtain rfl := Control.ended.inj hr
    refine ⟨.given exit h, ?_⟩
    obtain ⟨s, hkept, hp⟩ := hw
    obtain rfl := hp.eq_of_zero
    obtain ⟨rest, rfl⟩ := h.innermost
    rw [if_neg (by simp [Activity.inside, h.plain]), handing, if_pos h.head,
      seen_of hkept h.connection]
    exact .single (.handed _ _ _)
  | @called _ a frame next run fs' _ hcalled hf h =>
    cases hcalled with
    | code | unwinding => cases ha
    | @lent r' hr =>
      obtain ⟨hr', rfl⟩ := Activity.mk.inj ha
      obtain rfl := Control.ended.inj hr'
      refine ⟨.called (.code (.give hr)) hf h, ?_⟩
      have hnone : handing w (frame :: fs') (.ok r') = [] := by
        cases r' with
        | ended exit run => exact if_neg (by simp [hf.isEval])
        | _ => rfl
      rw [List.nil_append, hnone, ite_self]
      exact .nil _
    | @inside _ a frame' helse hframe =>
      obtain ⟨control, stack⟩ := a
      obtain ⟨rfl, rfl⟩ := Activity.mk.inj ha
      have hback := Relay.hands_keeps helse (.back r : Hands w here _ _)
      refine ⟨.called (.inside hback hframe) hf h, ?_⟩
      rw [if_pos (by simp [Activity.inside, Activity.atop, hframe.isCode])]
      exact .nil _

/-- What comes to its end on a thread is on its way to the one that waits for it. -/
theorem answering_stands (w : World) (here : Place) {res : Except String Answer}
    (h : Stands c own depth ⟨.answering res, fs⟩ ds)
    (calm : Activity.Calm ⟨.answering res, fs⟩) :
    Stands c own depth ⟨.ended (ending res), fs⟩ ds := by
  generalize ha : (⟨.answering res, fs⟩ : Activity) = a at h
  cases h with
  | focus | unwind | ended => rcases res with message | (r | n | token) <;> cases ha
  | given exit h =>
    rcases res with message | (r | n | token) <;> cases ha
    exact .ended exit h
  | @called _ a frame next run fs' _ hcalled hf h =>
    cases hcalled with
    | code hx =>
      rcases res with message | (r | n | token) <;> cases ha
      · cases hx with
        | give hr => exact .called (.lent hr) hf h
      · cases hx with
        | build => exact .called (.lent Reply.not_carries_unit) hf h
      · cases hx with
        | guard => exact .called (.lent Reply.not_carries_unit) hf h
    | unwinding message =>
      rcases res with message | (r | n | token) <;> cases ha
      exact absurd calm (not_calm (by simp [hf.isCode, h.plain]) message)
    | lent => rcases res with message | (r | n | token) <;> cases ha
    | @inside _ a frame' helse hframe =>
      obtain ⟨control, stack⟩ := a
      obtain ⟨rfl, rfl⟩ := Activity.mk.inj ha
      have hends := Relay.hands_keeps helse (.answer res : Hands w here _ _)
      exact .called (.inside hends hframe) hf h

/-- Only the run itself comes to its end with nothing below it. -/
theorem answering_top {res : Except String Answer} (h : Stands c own depth ⟨.answering res, []⟩ ds) :
    ∃ exit run, res = .ok (.reply (.ended exit run)) ∧ depth = 0 ∧ run.connection = c ∧
      ds = [c] := by
  generalize ha : (⟨.answering res, []⟩ : Activity) = a at h
  cases h with
  | focus | unwind | ended => rcases res with message | (r | n | token) <;> cases ha
  | called => simp [Activity.atop] at ha
  | @given exit run fs _ h =>
    obtain ⟨hcontrol, rfl⟩ := Activity.mk.inj ha
    rcases res with message | (r | n | token) <;> cases hcontrol
    generalize hd : run.connection = d at h
    cases h with
    | nil => exact ⟨exit, run, rfl, rfl, hd, rfl⟩

theorem ends_unsettled (ha : u.activity.stack ≠ [] ∨ u.activity.control.settles = false)
    (hacts : u.activity.Acts w here) : ends u = [] := by
  obtain ⟨w', place, ⟨control, stack⟩, left⟩ := u
  cases control with
  | ended => exact hacts.elim
  | drive | unwinding => rfl
  | code x =>
    cases x with
    | give r =>
      cases stack with
      | nil => simp [Control.settles] at ha
      | cons => cases r <;> rfl
    | _ => rfl

/-- What is known after a step, and what is seen of it. -/
def Keeps (c : ConnectionId) (own : FiberId → Prop) (t : Connection Code) (ds : List ConnectionId)
    (seen : List Passage) (u : Relay) : Prop :=
  ∃ t' ds', Holds c own t' ds' u ∧ Replays (scopes c t ds) seen (scopes c t' ds')

theorem Goes.keeps {seen : List Passage} (h : Goes c own t w u.world u.flat seen ds)
    (calm : u.flat.Calm) (hu : ¬ Over u) : Keeps c own t ds (seen ++ cancels c w u.world) u := by
  obtain ⟨depth, t', ds', hw, -, hs, hr⟩ := h
  exact ⟨t', ds', ⟨calm, .inl ⟨depth, hw, hs, hu⟩⟩, hr⟩

/-- Nothing changes but who runs what. -/
theorem Stands.keeps {seen : List Passage} (hw : Rests c own t depth u.world)
    (h : Stands c own depth u.flat ds) (calm : u.flat.Calm) (hu : ¬ Over u)
    (hr : Replays (scopes c t ds) seen (scopes c t ds)) :
    Keeps c own t ds (seen ++ cancels c u.world u.world) u := by
  rw [cancels_self, List.append_nil]
  exact ⟨t, ds, ⟨calm, .inl ⟨depth, hw, h, hu⟩⟩, hr⟩

/-- A step that is the run's own. -/
theorem act_keeps (hw : Rests c own t depth u.world) (h0 : c ≠ .uncancelable)
    (h : Stands c own depth u.flat ds) (calm : u.flat.Calm) (hacts : u.activity.Acts u.world u.place)
    (hcalm : u.own.flat.Calm) :
    Keeps c own t ds (passages u ++ cancels c u.world u.own.world) u.own := by
  obtain ⟨w, here, a, left⟩ := u
  obtain ⟨res, rfl⟩ | ⟨r, rfl⟩ | hs := a.settled_or
  · have hown : Relay.own ⟨w, here, ⟨.answering res, []⟩, left⟩ =
        ⟨w, here, ⟨.ended (ending res), []⟩, left⟩ := by
      simp only [Relay.own, World.act_answering]
    rw [hown] at hcalm ⊢
    cases left with
    | nil =>
      obtain ⟨exit, run, rfl, rfl, hc, rfl⟩ := answering_top h
      obtain ⟨s, hkept, hp⟩ := id hw
      obtain rfl := hp.eq_of_zero
      refine ⟨s, [], ⟨hcalm, .inr ⟨hw, ⟨rfl, _, rfl⟩, rfl⟩⟩, ?_⟩
      rw [cancels_self, List.append_nil]
      have hpassages : passages ⟨w, here, ⟨.answering (.ok (.reply (.ended exit run))), []⟩, []⟩ =
          [seen w .returned run] := rfl
      rw [hpassages, seen_of hkept (.inl hc), hc]
      exact .single (.returned _ _ _)
    | cons p left =>
      have hpassages : passages ⟨w, here, ⟨.answering res, []⟩, p :: left⟩ = [] := by
        simp only [passages, shows_answering]
        rcases res with message | (r | n | token)
        · exact ite_self _
        · cases r <;> exact ite_self _
        · exact ite_self _
        · exact ite_self _
      rw [hpassages]
      have hnot : ¬ Over ⟨w, here, ⟨.ended (ending res), []⟩, p :: left⟩ := by
        rintro ⟨hleft, -⟩
        cases hleft
      exact Stands.keeps hw (answering_stands w here h calm) hcalm hnot (.nil _)
  · exact hacts.elim
  · have hflat : Relay.flat ⟨w, here, a, left⟩ = a.atop (left.flatMap Prod.snd) := rfl
    have hact := World.act_atop w here a (left.flatMap Prod.snd) hs
    have hown : Relay.flat (Relay.own ⟨w, here, a, left⟩) =
        (w.act here (a.atop (left.flatMap Prod.snd))).2 := by
      rw [hact]
      rfl
    have hworld : (Relay.own ⟨w, here, a, left⟩).world =
        (w.act here (a.atop (left.flatMap Prod.snd))).1 := by
      rw [hact]
      rfl
    have hpassages : passages ⟨w, here, a, left⟩ =
        if (a.atop (left.flatMap Prod.snd)).inside then []
        else shows w here (a.atop (left.flatMap Prod.snd)) := by
      simp only [passages, hflat, ends_unsettled hs hacts, List.append_nil, shows_atop _ _ _ _ hs]
    have hs' : (a.atop (left.flatMap Prod.snd)).stack ≠ [] ∨
        (a.atop (left.flatMap Prod.snd)).control.settles = false := by
      refine hs.imp_left fun hne hnil => hne ?_
      exact (List.append_eq_nil_iff.1 hnil).1
    have hnot : ¬ Over (Relay.own ⟨w, here, a, left⟩) := by
      rintro ⟨-, r, hr⟩
      refine World.act_ne_ended w here hs r (fun hended => ?_) (congrArg Activity.control hr)
      rw [Activity.Acts, hended] at hacts
      exact hacts
    rw [hpassages]
    refine Goes.keeps ?_ hcalm hnot
    rw [hown, hworld]
    exact Stands.act hw h0 h hs' hacts (hown ▸ hcalm)

theorem Holds.moves (h : Holds c own t ds u) (h0 : c ≠ .uncancelable) (hm : u.Moves v)
    (calm : v.flat.Calm) : Keeps c own t ds (passages u ++ cancels c u.world v.world) v := by
  obtain ⟨depth, hw, hst, -⟩ | ⟨-, ⟨hleft, r, hr⟩, -⟩ := h.stands
  · cases hm with
    | act hacts => exact act_keeps hw h0 hst h.calm hacts calm
    | @hop w here machine run stack left there hno =>
      have hnone : passages ⟨w, here, ⟨.drive machine run, stack⟩, left⟩ = [] := by
        simp [passages, shows, hno, ends]
      have hnot : ¬ Over ⟨w, there, ⟨.drive machine run, []⟩, (here, stack) :: left⟩ := by
        rintro ⟨hleft, -⟩
        cases hleft
      rw [hnone]
      refine Stands.keeps hw ?_ calm hnot (.nil _)
      simpa [Relay.flat, Relay.frames] using hst
    | @back w here place r stack left =>
      obtain ⟨hback, hr⟩ := handing_replays here hw hst
      have hnot : ¬ Over ⟨w, place, ⟨.returning r, stack⟩, left⟩ := by
        rintro ⟨-, r', hr'⟩
        rcases r with message | r <;> cases hr'
      exact Stands.keeps hw hback calm hnot hr
  · cases hm with
    | act hacts =>
      rw [hr] at hacts
      exact hacts.elim
    | hop => cases hr
    | back => cases hleft

/-- What others do, among it that they cancel the run. -/
theorem Holds.others (h : Holds c own t ds u) {w : World}
    (hw : ∀ s, u.world.Kept c own s → ∃ s', w.Kept c own s' ∧ s.Spared s') :
    Keeps c own t ds (cancels c u.world w) { u with world := w } := by
  have hrests : ∀ depth, Rests c own t depth u.world → ∃ t', Rests c own t' depth w ∧
      Replays (scopes c t ds) (cancels c u.world w) (scopes c t' ds) := by
    rintro depth ⟨s, hkept, hp⟩
    obtain ⟨s', hkept', hs⟩ := hw s hkept
    obtain ⟨t', hp', ht⟩ := hp.spared hs
    exact ⟨t', ⟨s', hkept', hp'⟩, cancels_replays hkept hkept' hp hp' ht ds⟩
  obtain ⟨depth, hrest, hst⟩ | ⟨hrest, hover⟩ := h.stands
  · obtain ⟨t', hrest', hr⟩ := hrests depth hrest
    exact ⟨t', ds, ⟨h.calm, .inl ⟨depth, hrest', hst⟩⟩, hr⟩
  · obtain ⟨t', hrest', hr⟩ := hrests 0 hrest
    exact ⟨t', ds, ⟨h.calm, .inr ⟨hrest', hover⟩⟩, hr⟩

theorem Keeps.trans {ps qs : List Passage} (h : Keeps c own t ds ps u)
    (hv : ∀ t' ds', Holds c own t' ds' u → Keeps c own t' ds' qs v) :
    Keeps c own t ds (ps ++ qs) v := by
  obtain ⟨t', ds', hh, hr⟩ := h
  obtain ⟨t'', ds'', hh', hr'⟩ := hv t' ds' hh
  exact ⟨t'', ds'', hh', hr.append hr'⟩

theorem Holds.runs {ps : List Passage} (h : Holds c own t ds u) (h0 : c ≠ .uncancelable)
    (hr : Runs c u ps v) : Keeps c own t ds ps v := by
  induction hr with
  | start => exact ⟨t, ds, h, .nil _⟩
  | own _ hm calm ih => exact ih.trans fun _ _ hh => hh.moves h0 hm calm
  | thread _ i ih => exact ih.trans fun _ _ hh => hh.others fun _ hk => hk.step h0 i
  | @passing ps v _ nanos ih =>
    obtain ⟨t', ds', hh, hr⟩ := ih
    have hclock : ∀ s, v.world.Kept c own s →
        ∃ s', World.Kept c own s' { v.world with clock := v.world.clock + nanos } ∧
          s.Spared s' := fun s hk =>
      ⟨s, hk.of_calm { hk.apart with } hk.state hk.immune, .refl s⟩
    obtain ⟨t'', ds'', hh', hr'⟩ := hh.others hclock
    have hnone : cancels c v.world { v.world with clock := v.world.clock + nanos } = [] :=
      cancels_self c v.world
    rw [hnone] at hr'
    exact ⟨t'', ds'', hh', by simpa using hr.append hr'⟩

end Threads

/-- Each evaluation of a run that does not panic returns with the connection that it began with,
and so does each hop; the tokens on it are those that were there, unless it has been canceled. -/
theorem connection_restored {n : Node} (hn : n.Apart run.connection own)
    (h0 : run.connection ≠ .uncancelable) (hw : w.Kept run.connection own s) {ps : List Passage}
    (h : Runs run.connection ⟨w, place, ⟨.drive (.focus n []) run, []⟩, []⟩ ps u) :
    ∃ scopes, Replays [⟨run.connection, s⟩] ps scopes ∧ (Over u → scopes = []) := by
  have hnot : ¬ Over ⟨w, place, ⟨.drive (.focus n []) run, []⟩, []⟩ := by
    rintro ⟨-, r, hr⟩
    cases hr
  have hstart : Holds run.connection own s [run.connection]
      ⟨w, place, ⟨.drive (.focus n []) run, []⟩, []⟩ :=
    { calm := fun _ _ h => by cases h
      stands := .inl ⟨0, ⟨s, hw, .refl s⟩, .focus hn .nil, hnot⟩ }
  obtain ⟨t, ds, hh, hr⟩ := hstart.runs h0 h
  refine ⟨scopes run.connection t ds, ?_, fun hover => ?_⟩
  · simpa [scopes] using hr
  · obtain ⟨_, -, -, hnot⟩ | ⟨-, -, rfl⟩ := hh.stands
    · exact absurd hover hnot
    · rfl

/-- A run that cancels its own connection, on which there is a token, in an evaluation. -/
theorem connection_restored_of_canceled :
    let token : Code := .give .unit
    let n : Node := .instrument (.suspend (.perform (.connection 1 .cancel) fun _ =>
      .build (.pure .null)))
    let run : Run := ⟨.inline, 1⟩
    let w : World := { World.start with connections := #[.uncancelable, .active [token]] }
    ∃ u : Relay,
      Runs 1 ⟨w, ⟨"caller", none⟩, ⟨.drive (.focus n []) run, []⟩, []⟩
        [.entered 1 (.active [token]), .canceled 1, .returned 1 .canceled, .returned 1 .canceled]
        u ∧ Over u ∧
      ∃ scopes, Replays [⟨1, .active [token]⟩] [.entered 1 (.active [token]), .canceled 1,
        .returned 1 .canceled, .returned 1 .canceled] scopes ∧ (Over u → scopes = []) := by
  intro token n run w
  have hapart : n.Apart 1 fun _ => False :=
    .instrument (.suspend (.perform (.cancel 1) fun _ _ => .build (.pure _)))
  have hw : World.Kept 1 (fun _ => False) (.active [token]) w :=
    { apart := World.start_apart
      state := rfl
      tokens := fun x hx => List.mem_singleton.1 hx ▸ .give Reply.not_carries_unit
      immune := rfl }
  let w' : World := { World.start with connections := #[.uncancelable, .canceled] }
  let is (w : World) (control : Control) (stack : List Frame) : Relay :=
    ⟨w, ⟨"caller", none⟩, ⟨control, stack⟩, []⟩
  let next : Reply → Code := fun _ => .build (.pure .null)
  let thunk : Code := .perform (.connection 1 .cancel) next
  let s := is w (.drive (.focus n []) run) []
  have acts : ∀ {ps more : List Passage} {t u : Relay}, Runs 1 s ps t → t.own = u →
      t.activity.Acts t.world t.place → passages t ++ cancels 1 t.world u.world = more →
        u.flat.Calm → Runs 1 s (ps ++ more) u := by
    rintro ps _ t _ h rfl ha rfl hc
    exact .own h (.act ha) hc
  have entered : Runs 1 s [.entered 1 (.active [token])]
      (is w (.drive (.focus (.suspend thunk) []) run) [.instrumented []]) :=
    acts .start rfl rfl rfl nofun
  have called : Runs 1 s [.entered 1 (.active [token])]
      (is w (.code thunk) [.node [] run, .instrumented []]) :=
    acts entered rfl rfl rfl nofun
  have canceled : Runs 1 s [.entered 1 (.active [token]), .canceled 1]
      (is w' (.code token) [.tokens [] none next, .node [] run, .instrumented []]) :=
    acts called rfl trivial rfl nofun
  have ran : Runs 1 s [.entered 1 (.active [token]), .canceled 1]
      (is w' (.code (.build (.pure .null))) [.node [] run, .instrumented []]) :=
    acts canceled rfl trivial rfl nofun
  have built : Runs 1 s [.entered 1 (.active [token]), .canceled 1]
      (is w' (.drive (.focus (.pure .null) []) run) [.instrumented []]) :=
    acts ran rfl trivial rfl nofun
  have given : Runs 1 s [.entered 1 (.active [token]), .canceled 1]
      (is w' (.code (.give (.ended (.completed .null) run))) [.instrumented []]) :=
    acts built rfl rfl rfl nofun
  have returned : Runs 1 s [.entered 1 (.active [token]), .canceled 1, .returned 1 .canceled]
      (is w' (.code (.give (.ended (.completed .null) run))) []) :=
    acts given rfl trivial rfl nofun
  have ended : Runs 1 s [.entered 1 (.active [token]), .canceled 1, .returned 1 .canceled,
      .returned 1 .canceled] (is w' (.ended (.ok (.ended (.completed .null) run))) []) :=
    acts returned rfl trivial rfl nofun
  have hover : Over (is w' (.ended (.ok (.ended (.completed .null) run))) []) := ⟨rfl, _, rfl⟩
  have h0 : (Run.mk .inline 1).connection ≠ .uncancelable := by decide
  exact ⟨_, ended, hover, connection_restored hapart h0 hw ended⟩

end Effects.Evaluation
