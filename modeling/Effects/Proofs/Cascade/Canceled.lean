import Effects.Proofs.Cascade.Graph

/-!
Canceling a connection of a graph comes to an end, and on the way it cancels what can be reached and
runs the tokens there.
-/

namespace Effects.Cascade

variable {G : Graph} {here : Place} {I : World → Prop} {live : Finset ConnectionId}
  {items : List Item} {w : World} {s : Trail} {c o : ConnectionId} {fs : List Frame}
  {next : Reply → Code}

/-- The tokens that are no links come to an end and keep away from these connections. They can rely
on the rest of the world, which a cancel of these does not concern. -/
structure Tame (G : Graph) (here : Place) (I : World → Prop) : Prop where
  canceled : ∀ w, I w → ∀ c ∈ G.nodes, I (w.setConnection c .canceled)
  quiet : ∀ c ∈ G.nodes, ∀ x, .token x ∈ G.stack c → ∀ w, I w →
    ∃ w' res, Quiet here G.nodes w (.start x) w' res ∧ I w'

/-- The thread is about to run something above that many frames. -/
structure Ready (G : Graph) (I : World → Prop) (live : Finset ConnectionId) (depth : Nat)
    (s : Trail) : Prop where
  holds : G.At live s.world
  rest : I s.world
  clear : Clear G.nodes depth s.running

/-- From the one trail to the other one it has run the items. -/
structure Swept (G : Graph) (here : Place) (I : World → Prop) (depth : Nat)
    (live : Finset ConnectionId) (items : List Item) (own : ConnectionId → List Code) (s : Trail)
    (visits : List Visit) (t : Trail) (live' : Finset ConnectionId) : Prop where
  leads : Leads here s t
  noted : t.visits = s.visits ++ visits
  under : ∀ k < depth, t.running k = s.running k
  ready : Ready G I live' depth t
  blames : G.Blames visits
  sweep : G.Sweep live items own visits live'

/-- A cancel comes to its end if these connections have their tokens. -/
def Cancels (G : Graph) (here : Place) (I : World → Prop) (live : Finset ConnectionId) : Prop :=
  ∀ c ∈ G.nodes, ∀ s next fs, Ready G I live fs.length s →
    s.activity = ⟨.code (.perform (.connection c .cancel) next), fs⟩ →
      ∃ visits t live', Swept G here I fs.length live [.link c] (fun _ => []) s visits t live' ∧
        t.activity = .runTokens [] (G.failure visits) next fs

theorem item_swept (fs : List Frame) (hT : Tame G here I) (hC : Cancels G here I live)
    (ho : o ∈ G.nodes) {item : Item} (hitem : item ∈ G.stack o) (hr : Ready G I live fs.length s)
    (hs : s.activity = ⟨.code item.code, fs⟩) :
    ∃ visits t live' res, Swept G here I fs.length live [item] (fun _ => []) s visits t live' ∧
      t.activity = ⟨.answering res, fs⟩ ∧
      (G.failure visits).or (Control.answering res).failure = (Control.answering res).failure ∧
      G.Blames (visits ++ [⟨o, item.code, (Control.answering res).failure⟩]) := by
  obtain ⟨w, a, running, before⟩ := s
  obtain rfl : a = _ := hs
  cases item with
  | link d =>
    obtain ⟨visits, t, live', hswept, ht⟩ := hC d (G.closed o ho d hitem) _ _ fs hr rfl
    have hblames := hswept.blames.link o d
    cases hf : G.failure visits with
    | none =>
      rw [hf] at ht hblames
      exact ⟨visits, t, live', .ok (.reply .unit), hswept, ht, by rw [hf]; rfl, hblames⟩
    | some message =>
      rw [hf] at ht hblames
      exact ⟨visits, t, live', .error message, hswept, ht, by rw [hf]; rfl, hblames⟩
  | token x =>
    obtain ⟨w', res, hq, hI⟩ := hT.quiet o ho x hitem w hr.rest
    obtain ⟨running', more, hleads, hunder, hclear, hmore⟩ := hq.leads hr.clear before
    have hholds : G.At live w' := fun c hc => hq.connection hc (hr.holds c hc)
    have hsweep : G.Sweep live [.token x] (fun _ => []) more live :=
      .none (fun d hd => by simp at hd) hmore
    have hnone : G.panicked more = none := Graph.panicked_eq_none hmore
    refine ⟨more, _, live, res, ⟨hleads, rfl, hunder, ⟨hholds, hI, hclear⟩, .none hnone, hsweep⟩,
      rfl, ?_, ?_⟩
    · rw [Graph.failure, hnone, Option.bind_none, Option.none_or]
    · refine Graph.Blames.append (.none hnone) fun v hv => ?_
      rw [Graph.panicked_singleton ho] at hv
      obtain ⟨_, -, rfl⟩ := Option.map_eq_some_iff.1 hv
      exact hitem

/-- The thread that has canceled a connection goes through its tokens. -/
theorem items_swept (hT : Tame G here I) (hC : ∀ live' ⊆ live, Cancels G here I live')
    (ho : o ∈ G.nodes) (hlive : o ∉ live) (hitems : ∀ item ∈ items, item ∈ G.stack o)
    {failure : Option String} (hholds : G.At live s.world) (hI : I s.world)
    (hrunning : s.running fs.length = (items.map Item.code).head?.map (o, ·))
    (hclear : Clear G.nodes (fs.length + 1) s.running)
    (hs : s.activity = .runTokens (items.map Item.code) failure next fs) :
    ∃ visits t live',
      Swept G here I fs.length live items (Graph.only o (items.map Item.code)) s visits t live' ∧
        t.activity = .runTokens [] (failure.or (G.failure visits)) next fs := by
  induction items generalizing s live failure with
  | nil =>
    have hclear : Clear G.nodes fs.length s.running := by
      intro k c x hk hx
      obtain hk | rfl := hk.lt_or_eq
      · exact hclear k c x hk hx
      · rw [hrunning] at hx
        cases hx
    refine ⟨[], s, live, ⟨.refl s, (List.append_nil _).symm, fun _ _ => rfl, ⟨hholds, hI, hclear⟩,
      .none rfl, ?_⟩, ?_⟩
    · exact Graph.only_nil o ▸ .none (fun _ h => absurd h List.not_mem_nil)
        fun _ h => absurd h List.not_mem_nil
    · rw [hs, show G.failure [] = none from rfl, Option.or_none]
      rfl
  | cons item items ih =>
    have hitem : item ∈ G.stack o := hitems item List.mem_cons_self
    let rest := items.map Item.code
    obtain ⟨visits, ⟨w, a, running, before⟩, live₁, res, hitem, ha, hres, hblames⟩ :=
      item_swept (.tokens rest failure next :: fs) hT (hC live (Finset.Subset.refl live)) ho
        hitem ⟨hholds, hI, hclear⟩ hs
    obtain rfl : a = _ := ha
    -- what is noted above has not changed what is noted here
    have hown : running fs.length = some (o, item.code) :=
      (hitem.under fs.length (Nat.lt_succ_self _)).trans hrunning
    let f := (Control.answering res).failure
    let v : Visit := ⟨o, item.code, f⟩
    let u : Trail := ⟨w, .runTokens rest (failure.or f) next fs,
      Function.update running fs.length (rest.head?.map (o, ·)), before ++ [v]⟩
    have hu : Leads here s u := hitem.leads.trans (.step (Trail.step_answering w res hown))
    have hsub : live₁ ⊆ live := hitem.sweep.sub
    obtain ⟨more, t, live', hrest, ht⟩ := ih (s := u) (fun live' h => hC live' (h.trans hsub))
      (fun h => hlive (hsub h)) (fun item h => hitems item (List.mem_cons_of_mem _ h))
      hitem.ready.holds hitem.ready.rest (Function.update_self ..)
      (hitem.ready.clear.update_below (Nat.lt_succ_self _) _) rfl
    refine ⟨visits ++ [v] ++ more, t, live', ⟨hu.trans hrest.leads, ?_, fun k hk => ?_, hrest.ready,
      hblames.append hrest.blames, ?_⟩, ?_⟩
    · rw [hrest.noted, show u.visits = before ++ [v] from rfl, show before = _ from hitem.noted]
      simp only [List.append_assoc]
    · rw [hrest.under k hk, show u.running k = running k from Function.update_of_ne hk.ne _ _]
      exact hitem.under k (Nat.lt_succ_of_lt hk)
    · have hone := hitem.sweep.visit hlive f
      have hall := hone.trans hrest.sweep fun c hc => if_neg fun (h : c = o) => hlive (h ▸ hc)
      rwa [Graph.only_append] at hall
    · rw [ht, G.failure_append, G.failure_append, Graph.failure_singleton ho, hres, Option.or_assoc]

theorem cancels (hT : Tame G here I) (live : Finset ConnectionId) : Cancels G here I live := by
  -- a connection is canceled before its tokens are run, so fewer of them are left for these
  induction hn : live.card using Nat.strong_induction_on generalizing live with
  | _ n ih =>
    rintro c hc ⟨w, a, running, before⟩ next fs ⟨hholds, hI, hclear⟩ rfl
    let tokens := if c ∈ live then G.codes c else []
    let u : Trail := ⟨w.setConnection c .canceled, .runTokens tokens none next fs,
      Function.update running fs.length (tokens.head?.map (c, ·)), before⟩
    have hu : Leads here ⟨w, ⟨.code (.perform (.connection c .cancel) next), fs⟩, running, before⟩
        u := by
      refine .step ((Trail.step_cancel (hholds c hc) next).trans ?_)
      by_cases hlive : c ∈ live <;> simp [u, tokens, hlive, Connection.cancel, Connection.tokens]
    have hcanceled : G.At (live.erase c) u.world := hholds.cancel hc
    have hI : I u.world := hT.canceled w hI c hc
    have hbelow : ∀ k < fs.length, u.running k = running k :=
      fun k hk => Function.update_of_ne hk.ne _ _
    by_cases hlive : c ∈ live
    · have htokens : tokens = (G.stack c).map Item.code := if_pos hlive
      have hless : ∀ live' ⊆ live.erase c, Cancels G here I live' := fun live' h =>
        ih live'.card (hn ▸ (Finset.card_le_card h).trans_lt (Finset.card_erase_lt_of_mem hlive))
          live' rfl
      obtain ⟨visits, t, live', hswept, ht⟩ := items_swept hT hless hc (Finset.notMem_erase c live)
        (fun _ h => h) hcanceled hI (htokens ▸ Function.update_self ..)
        ((hclear.mono (Nat.le_succ _)).update_below (Nat.lt_succ_self _) _)
        (show u.activity = .runTokens _ none next fs from htokens ▸ rfl)
      refine ⟨visits, t, live', ⟨hu.trans hswept.leads, hswept.noted, fun k hk => ?_, hswept.ready,
        hswept.blames, .link hlive hswept.sweep⟩, by rw [ht, Option.none_or]⟩
      rw [hswept.under k hk, hbelow k hk]
    · have htokens : tokens = [] := if_neg hlive
      have hsame : live.erase c = live := Finset.erase_eq_of_notMem hlive
      refine ⟨[], u, live, ⟨hu, (List.append_nil _).symm, hbelow, ⟨hsame ▸ hcanceled, hI, ?_⟩,
        .none rfl, .none ?_ ?_⟩, ?_⟩
      · refine hclear.update _ fun c x hx => ?_
        rw [htokens] at hx
        cases hx
      · intro d hd
        obtain rfl : d = c := by simpa using hd
        exact hlive
      · exact fun _ h => absurd h List.not_mem_nil
      · exact htokens ▸ rfl

/-- Canceling one of the connections comes to an end. What its links reach, directly or not, is
canceled, and has had each of its tokens run once, the most recent first; the others are as before.
The cancel panics if one of the tokens did, and with what the first one that did panicked with. -/
theorem cancel_cascades (hG : G.Held w) (hT : Tame G here I) (hI : I w) (hc : c ∈ G.nodes)
    (next : Reply → Code) (fs : List Frame) :
    ∃ n, ∃ t, t = (Trail.step here)^[n]
        (.start w ⟨.code (.perform (.connection c .cancel) next), fs⟩) ∧
      (∀ d, G.Reaches c d → t.world.connections[d]? = some .canceled ∧
        ran t.visits d = G.codes d) ∧
      (∀ d ∈ G.nodes, ¬ G.Reaches c d → t.world.connections[d]? = w.connections[d]? ∧
        ran t.visits d = []) ∧
      (∀ v, G.panicked t.visits = some v → .token v.token ∈ G.stack v.owner) ∧
      t.activity = match G.failure t.visits with
        | none => ⟨.code (next .unit), fs⟩
        | some message => ⟨.unwinding message, fs⟩ := by
  have hready : Ready G I (G.active w) fs.length
      (.start w ⟨.code (.perform (.connection c .cancel) next), fs⟩) :=
    ⟨hG.at, hI, fun _ _ _ _ h => by cases h⟩
  obtain ⟨visits, t, live', ⟨⟨n, hn⟩, hnoted, -, hready', hblames, hsweep⟩, ht⟩ :=
    cancels hT (G.active w) c hc _ next fs hready rfl
  obtain rfl : t.visits = visits := hnoted.trans (List.nil_append _)
  have hempty : ∀ d ∈ G.nodes, d ∉ G.active w → G.codes d = [] := fun d hd hnot =>
    ((hG.cases hd).resolve_left fun h => hnot h.1).2.2
  refine ⟨n, t, hn.symm, fun d hd => ?_, fun d hd hnot => ?_, hblames, ?_⟩
  · have hgone : d ∉ live' := hsweep.gone_of_reaches hempty hc hd
    have hd : d ∈ G.nodes := hd.mem_nodes hc
    refine ⟨by rw [hready'.holds d hd, if_neg hgone], ?_⟩
    rw [hsweep.ran d hd, List.nil_append]
    by_cases hlive : d ∈ G.active w
    · exact if_pos ⟨hlive, hgone⟩
    · rw [if_neg fun h => hlive h.1, hempty d hd hlive]
  · have hstays : d ∈ G.active w → d ∈ live' := by
      intro hlive
      by_contra hgone
      obtain ⟨e, he, hr⟩ := hsweep.reached d hlive hgone
      obtain rfl : e = c := by simpa using he
      exact hnot hr
    have hsame : d ∈ live' ↔ d ∈ G.active w := ⟨fun h => hsweep.sub h, hstays⟩
    refine ⟨?_, ?_⟩
    · rw [hready'.holds d hd, hG.at d hd]
      simp only [hsame]
    · rw [hsweep.ran d hd, List.nil_append, if_neg fun h => h.2 (hstays h.1)]
  · rw [ht]
    cases G.failure t.visits <;> rfl

/-- Two connections that cancel each other, and both of them a third one, whose token panics before
another one does. -/
theorem cancel_cascades_of_cycle :
    let a : Code := .panic "a"
    let b : Code := .panic "b"
    let stack : ConnectionId → List Item := fun c =>
      if c = 1 then [.link 2, .token a, .link 3] else if c = 2 then [.link 3, .link 1] else
        if c = 3 then [.token b] else []
    let codes (c : ConnectionId) : Connection Code := .active ((stack c).map Item.code)
    let w : World :=
      { World.start with connections := #[.uncancelable, codes 1, codes 2, codes 3] }
    ∃ G : Graph, G.nodes = {1, 2, 3} ∧ G.stack = stack ∧ G.Held w ∧
      Tame G ⟨"caller", none⟩ (fun _ => True) ∧ 1 ∈ G.nodes ∧
      ∃ n, ∃ t, t = (Trail.step ⟨"caller", none⟩)^[n]
          (.start w ⟨.code (.perform (.connection 1 .cancel) fun _ => .give .unit), []⟩) ∧
        (∀ d, G.Reaches 1 d → t.world.connections[d]? = some .canceled ∧
          ran t.visits d = G.codes d) ∧
        (∀ d ∈ G.nodes, ¬ G.Reaches 1 d → t.world.connections[d]? = w.connections[d]? ∧
          ran t.visits d = []) ∧
        (∀ v, G.panicked t.visits = some v → .token v.token ∈ G.stack v.owner) ∧
        t.activity = match G.failure t.visits with
          | none => ⟨.code (.give .unit), []⟩
          | some message => ⟨.unwinding message, []⟩ := by
  intro a b stack codes w
  let G : Graph :=
    { nodes := {1, 2, 3}
      stack := stack
      closed := by
        intro c hc d hd
        simp only [Finset.mem_insert, Finset.mem_singleton] at hc ⊢
        obtain rfl | rfl | rfl := hc <;> simp [stack] at hd <;> tauto }
  have hG : G.Held w := by
    intro c hc
    simp only [G, Finset.mem_insert, Finset.mem_singleton] at hc
    obtain rfl | rfl | rfl := hc <;> exact ⟨_, rfl, nofun, rfl⟩
  have hT : Tame G ⟨"caller", none⟩ fun _ => True := by
    refine ⟨fun _ _ _ _ => trivial, fun c hc x hx w _ => ?_⟩
    obtain ⟨message, rfl⟩ : ∃ message, x = .panic message := by
      simp only [G, Finset.mem_insert, Finset.mem_singleton] at hc
      obtain rfl | rfl | rfl := hc <;> simp [G, stack] at hx
      · exact ⟨"a", hx⟩
      · exact ⟨"b", hx⟩
    exact ⟨w, .error message, .step (.inr rfl) nofun (.answers w (.error message)), trivial⟩
  have hc : 1 ∈ G.nodes := by simp [G]
  exact ⟨G, rfl, rfl, hG, hT, hc, cancel_cascades hG hT trivial hc _ []⟩

end Effects.Cascade
