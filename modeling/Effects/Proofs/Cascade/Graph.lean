import Effects.Proofs.Cascade.Trail
import Mathlib.Logic.Relation

/-!
Connections whose stacks hold tokens that cancel each other, in any shape, next to other tokens, and
what a part of a cancel has done among them.
-/

namespace Effects.Cascade

inductive Item where
  | link (child : ConnectionId)
  | token (x : Code)

def Item.code : Item → Code
  | .link child => Routine.task child.cancel
  | .token x => x

structure Graph where
  nodes : Finset ConnectionId
  /-- The most recent first. -/
  stack : ConnectionId → List Item
  closed : ∀ c ∈ nodes, ∀ d, .link d ∈ stack c → d ∈ nodes

/-- Tokens of a connection, in the order in which they have been run. -/
def ran (visits : List Visit) (c : ConnectionId) : List Code :=
  (visits.filter (·.owner = c)).map (·.token)

@[simp] theorem ran_append (visits more : List Visit) (c : ConnectionId) :
    ran (visits ++ more) c = ran visits c ++ ran more c := by
  simp [ran]

theorem ran_eq_nil {visits : List Visit} {c : ConnectionId} (h : ∀ v ∈ visits, v.owner ≠ c) :
    ran visits c = [] := by
  rw [ran, List.filter_eq_nil_iff.2 fun v hv => by simpa using h v hv, List.map_nil]

namespace Graph

variable {G : Graph} {live live' live'' : Finset ConnectionId} {items items' : List Item}
  {own own' : ConnectionId → List Code} {visits more : List Visit} {w : World}
  {c d o : ConnectionId}

def codes (G : Graph) (c : ConnectionId) : List Code := (G.stack c).map Item.code

def Reaches (G : Graph) : ConnectionId → ConnectionId → Prop :=
  Relation.ReflTransGen fun c d => .link d ∈ G.stack c

/-- The first of its tokens that panicked. -/
def panicked (G : Graph) (visits : List Visit) : Option Visit :=
  (visits.filter (·.owner ∈ G.nodes)).find? (·.failure.isSome)

def failure (G : Graph) (visits : List Visit) : Option String :=
  (G.panicked visits).bind (·.failure)

/-- It is no link, which panics only with what comes from the other connection. -/
def Blames (G : Graph) (visits : List Visit) : Prop :=
  ∀ v, G.panicked visits = some v → .token v.token ∈ G.stack v.owner

/-- These connections have their tokens, and the others have been canceled. -/
def At (G : Graph) (live : Finset ConnectionId) (w : World) : Prop :=
  ∀ c ∈ G.nodes, w.connections[c]? = some (if c ∈ live then .active (G.codes c) else .canceled)

theorem Reaches.mem_nodes (h : G.Reaches c d) (hc : c ∈ G.nodes) : d ∈ G.nodes := by
  induction h with
  | refl => exact hc
  | tail _ hd ih => exact G.closed _ ih _ hd

theorem panicked_append (visits more : List Visit) :
    G.panicked (visits ++ more) = (G.panicked visits).or (G.panicked more) := by
  rw [panicked, List.filter_append, List.find?_append]
  rfl

theorem panicked_eq_none (h : ∀ v ∈ visits, v.owner ∉ G.nodes) : G.panicked visits = none := by
  rw [panicked, List.filter_eq_nil_iff.2 fun v hv => by simpa using h v hv, List.find?_nil]

theorem panicked_singleton (ho : o ∈ G.nodes) (x : Code) (f : Option String) :
    G.panicked [⟨o, x, f⟩] = f.map fun _ => ⟨o, x, f⟩ := by
  cases f <;> simp [panicked, ho]

theorem panicked_eq_none_of_failure (h : G.failure visits = none) : G.panicked visits = none := by
  obtain h | ⟨v, hv⟩ := Option.eq_none_or_eq_some (G.panicked visits)
  · exact h
  · rw [failure, hv, Option.bind_some] at h
    rw [panicked, List.find?_eq_some_iff_append] at hv
    simp [h] at hv

theorem failure_append (visits more : List Visit) :
    G.failure (visits ++ more) = (G.failure visits).or (G.failure more) := by
  cases h : G.failure visits with
  | none =>
    rw [failure, panicked_append, panicked_eq_none_of_failure h, Option.none_or, Option.none_or,
      failure]
  | some f =>
    obtain ⟨v, hv, hf⟩ := Option.bind_eq_some_iff.1 h
    rw [failure, panicked_append, hv, Option.some_or, Option.bind_some, hf, Option.some_or]

theorem failure_singleton (ho : o ∈ G.nodes) (x : Code) (f : Option String) :
    G.failure [⟨o, x, f⟩] = f := by
  rw [failure, panicked_singleton ho]
  cases f <;> rfl

theorem Blames.append (h : G.Blames visits) (h' : G.Blames more) : G.Blames (visits ++ more) := by
  intro v hv
  rw [panicked_append] at hv
  exact (Option.or_eq_some_iff.1 hv).elim (h v) fun ⟨_, hv⟩ => h' v hv

theorem Blames.none (h : G.panicked visits = none) : G.Blames visits := by
  intro v hv
  rw [h] at hv
  cases hv

/-- A link panics with what the token that is to blame did with. -/
theorem Blames.link (h : G.Blames visits) (o d : ConnectionId) :
    G.Blames (visits ++ [⟨o, (Item.link d).code, G.failure visits⟩]) := by
  cases hf : G.failure visits with
  | none =>
    refine h.append (.none ?_)
    simp [panicked]
  | some f =>
    obtain ⟨v, hv, -⟩ := Option.bind_eq_some_iff.1 hf
    intro v' hv'
    rw [panicked_append, hv, Option.some_or] at hv'
    exact h v' (hv.trans hv')

theorem At.cancel (h : G.At live w) (hc : c ∈ G.nodes) :
    G.At (live.erase c) (w.setConnection c .canceled) := by
  intro d hd
  by_cases hcd : d = c
  · subst hcd
    rw [World.setConnection_getElem? (h d hd), if_neg (Finset.notMem_erase d live)]
  · have hother : (w.setConnection c .canceled).connections[d]? = w.connections[d]? := by
      simp [World.setConnection, Ne.symm hcd]
    rw [hother, h d hd]
    simp [hcd]

/-- The connections can be canceled and hold these tokens; one that has been canceled holds none. -/
def Held (G : Graph) (w : World) : Prop :=
  ∀ c ∈ G.nodes, ∃ s, w.connections[c]? = some s ∧ s ≠ .uncancelable ∧ s.tokens = G.codes c

/-- Those that have not been canceled. -/
def active (G : Graph) (w : World) : Finset ConnectionId :=
  G.nodes.filter fun c => w.isCanceled c = false

theorem Held.cases (h : G.Held w) (hc : c ∈ G.nodes) :
    c ∈ G.active w ∧ w.connections[c]? = some (.active (G.codes c)) ∨
      c ∉ G.active w ∧ w.connections[c]? = some .canceled ∧ G.codes c = [] := by
  obtain ⟨s, hs, himmune, htokens⟩ := h c hc
  have hlive : c ∈ G.active w ↔ s.isCanceled = false := by
    rw [active, Finset.mem_filter, World.isCanceled, hs]
    exact and_iff_right hc
  cases s with
  | uncancelable => exact absurd rfl himmune
  | active tokens => exact .inl ⟨hlive.2 rfl, htokens ▸ hs⟩
  | canceled => exact .inr ⟨fun h => (by cases hlive.1 h), hs, htokens.symm⟩

theorem Held.at (h : G.Held w) : G.At (G.active w) w := by
  intro c hc
  obtain ⟨hlive, hs⟩ | ⟨hlive, hs, -⟩ := h.cases hc
  · rw [if_pos hlive, hs]
  · rw [if_neg hlive, hs]

/-- What the items come to when they are run: of the connections that had their tokens at first,
these still have them; the tokens of the others have been run, and those of the items' owner. -/
structure Sweep (G : Graph) (live : Finset ConnectionId) (items : List Item)
    (own : ConnectionId → List Code) (visits : List Visit) (live' : Finset ConnectionId) :
    Prop where
  sub : live' ⊆ live
  gone : ∀ d, .link d ∈ items → d ∉ live'
  closed : ∀ c ∈ live, c ∉ live' → ∀ d, .link d ∈ G.stack c → d ∉ live'
  reached : ∀ c ∈ live, c ∉ live' → ∃ d, .link d ∈ items ∧ G.Reaches d c
  ran : ∀ c ∈ G.nodes, ran visits c = own c ++ if c ∈ live ∧ c ∉ live' then G.codes c else []

/-- One connection's part of the tokens. -/
def only (o : ConnectionId) (xs : List Code) (c : ConnectionId) : List Code :=
  if c = o then xs else []

theorem only_nil (o : ConnectionId) : only o [] = fun _ => [] :=
  funext fun _ => ite_self _

theorem only_append (o : ConnectionId) (xs ys : List Code) :
    (fun c => only o xs c ++ only o ys c) = only o (xs ++ ys) := by
  funext c
  by_cases h : c = o <;> simp [only, h]

namespace Sweep

/-- Nothing among the items concerns a connection that still has its tokens. -/
theorem none (hitems : ∀ d, .link d ∈ items → d ∉ live)
    (hvisits : ∀ v ∈ visits, v.owner ∉ G.nodes) :
    G.Sweep live items (fun _ => []) visits live where
  sub := Finset.Subset.refl live
  gone := hitems
  closed := fun _ h h' => absurd h h'
  reached := fun _ h h' => absurd h h'
  ran := fun c hc => by
    have hnone : Cascade.ran visits c = [] := ran_eq_nil fun v hv ho => hvisits v hv (ho ▸ hc)
    simp [hnone]

theorem trans (h : G.Sweep live items own visits live')
    (h' : G.Sweep live' items' own' more live'') (hown : ∀ c ∈ live, own' c = []) :
    G.Sweep live (items ++ items') (fun c => own c ++ own' c) (visits ++ more) live'' where
  sub := h'.sub.trans h.sub
  gone := fun d hd => (List.mem_append.1 hd).elim (fun hd hd' => h.gone d hd (h'.sub hd'))
    (h'.gone d)
  closed := by
    intro c hc hc'' d hd
    by_cases hc' : c ∈ live'
    · exact h'.closed c hc' hc'' d hd
    · exact fun hd'' => h.closed c hc hc' d hd (h'.sub hd'')
  reached := by
    intro c hc hc''
    by_cases hc' : c ∈ live'
    · obtain ⟨d, hd, hr⟩ := h'.reached c hc' hc''
      exact ⟨d, List.mem_append_right _ hd, hr⟩
    · obtain ⟨d, hd, hr⟩ := h.reached c hc hc'
      exact ⟨d, List.mem_append_left _ hd, hr⟩
  ran := by
    intro c hc
    rw [ran_append, h.ran c hc, h'.ran c hc]
    -- the tokens of a connection are run in the part in which it has been canceled
    by_cases hlive : c ∈ live
    · by_cases hlive' : c ∈ live'
      · simp [hlive, hlive', hown c hlive]
      · have hlive'' : c ∉ live'' := fun h => hlive' (h'.sub h)
        simp [hlive, hlive', hlive'', hown c hlive]
    · have hlive' : c ∉ live' := fun h' => hlive (h.sub h')
      simp [hlive, hlive']

/-- The token of that connection that has done this has come to its end. -/
theorem visit {item : Item} (h : G.Sweep live [item] (fun _ => []) visits live') (ho : o ∉ live)
    (f : Option String) :
    G.Sweep live [item] (only o [item.code]) (visits ++ [⟨o, item.code, f⟩]) live' where
  sub := h.sub
  gone := h.gone
  closed := h.closed
  reached := h.reached
  ran := by
    intro c hc
    rw [ran_append, h.ran c hc]
    by_cases hco : c = o
    · subst hco
      simp [Cascade.ran, only, ho]
    · simp [Cascade.ran, only, hco, Ne.symm hco]

/-- A connection has been canceled, and its tokens have been run. -/
theorem link (hc : c ∈ live)
    (h : G.Sweep (live.erase c) (G.stack c) (only c (G.codes c)) visits live') :
    G.Sweep live [.link c] (fun _ => []) visits live' where
  sub := h.sub.trans (Finset.erase_subset c live)
  gone := fun d hd hd' => by
    obtain rfl : d = c := by simpa using hd
    exact Finset.notMem_erase d live (h.sub hd')
  closed := by
    intro d hd hd'
    by_cases hdc : d = c
    · subst hdc
      exact h.gone
    · exact h.closed d (Finset.mem_erase.2 ⟨hdc, hd⟩) hd'
  reached := by
    intro d hd hd'
    refine ⟨c, List.mem_singleton_self _, ?_⟩
    by_cases hdc : d = c
    · subst hdc
      exact .refl
    · obtain ⟨e, he, hr⟩ := h.reached d (Finset.mem_erase.2 ⟨hdc, hd⟩) hd'
      exact .head he hr
  ran := by
    intro d hd
    rw [h.ran d hd]
    by_cases hdc : d = c
    · subst hdc
      have hgone : d ∉ live' := fun h' => Finset.notMem_erase d live (h.sub h')
      simp [only, hc, hgone]
    · simp [only, hdc]

/-- From a connection that has been canceled nothing is reached through its links. -/
theorem gone_of_reaches (h : G.Sweep live [.link c] own visits live')
    (hempty : ∀ d ∈ G.nodes, d ∉ live → G.codes d = []) (hc : c ∈ G.nodes) {d : ConnectionId}
    (hd : G.Reaches c d) : d ∉ live' := by
  induction hd with
  | refl => exact h.gone c (List.mem_singleton_self _)
  | @tail d e hd he ih =>
    by_cases hlive : d ∈ live
    · exact h.closed d hlive ih e he
    · have hnone := hempty d (Reaches.mem_nodes hd hc) hlive
      rw [List.map_eq_nil_iff.1 hnone] at he
      cases he

end Sweep
end Graph
end Effects.Cascade
