import Mathlib.Data.List.Perm.Basic
import Effects.Proofs.Service.Runs

/-!
An account of requests and of the calls that are due for what has been done: whatever is due is told
once, by whoever has to tell it.
-/

namespace Effects.Service

variable {γ σ ν ρ φ α : Type} {S : Subject γ σ ν} {P : Procedure γ σ ν ρ φ α}

/-- What is known of what is shared and of every request, by what has been done so far. -/
structure Account (P : Procedure γ σ ν ρ φ α) where
  /-- What may have been done at all. -/
  Only : List ν → Prop
  Legal : List ν → σ → Prop
  /-- The callbacks that have been accepted. -/
  callbacks : List ν → List LatchId
  /-- The calls that have to be made for what has been done. -/
  dues : List ν → List Telling
  Known : List ν → ρ → Prop
  Sound : List ν → σ → ρ → φ ⊕ α → Prop
  /-- The calls that a request has yet to make. -/
  pending : ρ → φ ⊕ α → List Telling
  /-- Whom a request has called back. -/
  callback? : ρ → Option LatchId
  /-- The requests that take others back. -/
  Token : ρ → Prop

namespace Account

/-- What a step of a request does, to itself and to the others. -/
structure Advances (A : Account P) (h : List ν) (s : σ) (r : ρ) (q : φ) : Prop where
  legal : A.Legal (h ++ P.note r q s) (P.step r q s).1
  sound : A.Sound (h ++ P.note r q s) (P.step r q s).1 r (P.step r q s).2.1
  calls : ∃ due, A.dues (h ++ P.note r q s) = A.dues h ++ due ∧
    (P.step r q s).2.2.toList ++ A.pending r (P.step r q s).2.1 = A.pending r (.inl q) ++ due
  /-- Only the one who asks is accepted. -/
  own : ∀ l ∈ A.callbacks (h ++ P.note r q s), l ∈ A.callbacks h ∨ A.callback? r = some l
  known : ∀ {r'}, A.Known h r' → A.Known (h ++ P.note r q s) r'
  others : ∀ {r' next}, A.Sound h s r' next →
    (∀ l, A.callback? r' = some l → A.callback? r ≠ some l) →
    A.Sound (h ++ P.note r q s) (P.step r q s).1 r' next

/-- The request may be made. -/
structure Opens (A : Account P) (h : List ν) (s : σ) (r : ρ) : Prop where
  known : A.Known h r
  sound : A.Sound h s r (.inl P.start)
  pending : A.pending r (.inl P.start) = []

structure Keeps (A : Account P) : Prop where
  only : ∀ {h more}, A.Only (h ++ more) → A.Only h
  acts : ∀ {h s r q}, A.Legal h s → A.Known h r → A.Sound h s r (.inl q) →
    A.Only (h ++ P.note r q s) → A.Advances h s r q
  now : ∀ {g r k} (h : List ν) (s : σ), P.asked g = .now r k →
    A.Opens h s r ∧ A.callback? r = none ∧ ¬ A.Token r
  wait : ∀ {g r l} {h : List ν} (s : σ), P.asked g = .wait r → l ∉ A.callbacks h →
    A.Opens h s (r l) ∧ A.callback? (r l) = some l ∧ ¬ A.Token (r l)
  token : ∀ {h r} (s : σ), A.Token r → A.Known h r → A.Opens h s r ∧ A.callback? r = none
  undo : ∀ {h s r a r'}, A.Sound h s r (.inr a) → P.undo r a = some r' →
    A.Token r' ∧ A.Known h r'
  /-- Whoever has an answer has made all calls. -/
  answered : ∀ (r : ρ) (a : α), A.pending r (.inr a) = []
  dues_callbacks : ∀ {h s call}, A.Legal h s → call ∈ A.dues h → call.1 ∈ A.callbacks h
  dues_nodup : ∀ {h s}, A.Legal h s → ((A.dues h).map (·.1)).Nodup
  /-- Requests do not wait. -/
  moves : ∀ (r : ρ) (q : φ) (l : LatchId), P.op r q ≠ .await l

def waiting (A : Account P) : Agent ρ φ α → List Telling
  | .idle => []
  | .at r next => A.pending r next

structure Inv (A : Account P) (f : Floor σ ν ρ φ α) : Prop where
  legal : A.Legal (notes f.seen) f.state
  agents : ∀ {i : Nat} {r : ρ} {next : φ ⊕ α}, f.agents[i]? = some (.at r next) →
    A.Known (notes f.seen) r ∧ A.Sound (notes f.seen) f.state r next
  given : ∀ r ∈ f.given, A.Token r ∧ A.Known (notes f.seen) r ∧ .pushed (P.token r) ∈ f.seen
  tokens : ∀ {i : Nat} {r : ρ} {next : φ ⊕ α}, f.agents[i]? = some (.at r next) → A.Token r → r ∈ f.given
  asker : ∀ {i : Nat} {r : ρ} {next : φ ⊕ α} {l : LatchId}, f.agents[i]? = some (.at r next) →
    A.callback? r = some l → .opened i l ∈ f.seen
  opened : ∀ {i j l}, .opened i l ∈ f.seen → .opened j l ∈ f.seen → i = j
  accepted : ∀ l ∈ A.callbacks (notes f.seen), ∃ i, .opened i l ∈ f.seen
  /-- Whatever is due has been told, or is yet to be told by somebody. -/
  ledger : (tolds f.seen ++ f.agents.flatMap A.waiting).Perm (A.dues (notes f.seen))

end Account

/-- What the turn of one request leaves to another. -/
theorem getElem?_set_cases {β : Type} {l : List β} {i j : Nat} {x y : β}
    (h : (l.set i x)[j]? = some y) : (j = i ∧ y = x) ∨ (j ≠ i ∧ l[j]? = some y) := by
  by_cases hj : i = j
  · subst hj
    by_cases hlt : i < l.length
    · rw [List.getElem?_set_self hlt] at h
      exact .inl ⟨rfl, (Option.some.inj h).symm⟩
    · rw [List.set_eq_of_length_le (Nat.le_of_not_lt hlt)] at h
      exact absurd (List.getElem?_eq_some_iff.1 h).1 hlt
  · rw [List.getElem?_set_ne hj] at h
    exact .inr ⟨Ne.symm hj, h⟩

/-- Whoever is there is the one who has just come, or was there before. -/
theorem getElem?_concat_cases {β : Type} {l : List β} {i : Nat} {x y : β}
    (h : (l ++ [x])[i]? = some y) : l[i]? = some y ∨ y = x := by
  by_cases hlt : i < l.length
  · rw [List.getElem?_append_left hlt] at h
    exact .inl h
  · rw [List.getElem?_append_right (Nat.le_of_not_lt hlt)] at h
    exact .inr (List.mem_singleton.1 (List.mem_of_getElem? h))

/-- The items of all but one, and of that one. -/
theorem flatMap_set {β δ : Type} {l : List β} {i : Nat} {x : β} (hi : l[i]? = some x) (y : β)
    (f : β → List δ) :
    ∃ rest, (l.flatMap f).Perm (f x ++ rest) ∧ ((l.set i y).flatMap f).Perm (f y ++ rest) := by
  obtain ⟨hlt, rfl⟩ := List.getElem?_eq_some_iff.1 hi
  refine ⟨(l.eraseIdx i).flatMap f, ?_, ?_⟩
  · exact (List.getElem_cons_eraseIdx_perm hlt).symm.flatMap_right _
  · exact (List.set_perm_cons_eraseIdx hlt y).flatMap_right _

/-- Calls move from those that are yet to be made to those that have been, and new ones come. -/
theorem perm_moved {β : Type} {T told F F' own own' rest dues due : List β}
    (h : (T ++ F).Perm dues) (hF : F.Perm (own ++ rest)) (hF' : F'.Perm (own' ++ rest))
    (hown : told ++ own' = own ++ due) : (T ++ told ++ F').Perm (dues ++ due) := by
  have hnew : (T ++ told ++ F').Perm (T ++ ((told ++ own') ++ rest)) := by
    simpa only [List.append_assoc] using (hF'.append_left told).append_left T
  have hback : ((own ++ due) ++ rest).Perm ((own ++ rest) ++ due) := by
    simpa only [List.append_assoc] using (@List.perm_append_comm _ due rest).append_left own
  have hold : (T ++ ((own ++ rest) ++ due)).Perm (dues ++ due) := by
    rw [← List.append_assoc]
    exact ((hF.symm.append_left T).trans h).append_right due
  rw [hown] at hnew
  exact (hnew.trans (hback.append_left T)).trans hold

theorem Turn.seen {f f' : Floor σ ν ρ φ α} (h : Turn P f f') :
    ∃ more, f'.seen = f.seen ++ more := by
  cases h with
  | acts | opens | pushes => exact ⟨_, rfl⟩
  | asks | comes | returns | runs => exact ⟨[], (List.append_nil _).symm⟩

namespace Account.Inv

variable {A : Account P} {f f' : Floor σ ν ρ φ α} {i : Nat} {r r' : ρ} {q : φ} {next : φ ⊕ α}
  {a : α} {agent : Agent ρ φ α} {l : LatchId} {more : List (Sign ν)}

theorem advances (hA : A.Keeps) (hf : A.Inv f) (h : f.agents[i]? = some (.at r (.inl q)))
    (ho : A.Only (notes f.seen ++ P.note r q f.state)) :
    A.Advances (notes f.seen) f.state r q := by
  obtain ⟨hk, hs⟩ := hf.agents h
  exact hA.acts hf.legal hk hs ho

theorem acts (hA : A.Keeps) (hf : A.Inv f) (h : f.agents[i]? = some (.at r (.inl q)))
    (ho : A.Only (notes f.seen ++ P.note r q f.state)) :
    A.Inv { f with
      state := (P.step r q f.state).1
      agents := f.agents.set i (.at r (P.step r q f.state).2.1)
      seen := f.seen ++ added (P.note r q f.state) (P.step r q f.state).2.2.toList } := by
  have ha := hf.advances hA h ho
  have hnotes : notes (f.seen ++ added (P.note r q f.state) (P.step r q f.state).2.2.toList) =
      notes f.seen ++ P.note r q f.state := by
    rw [notes_append, notes_added]
  have hopened : ∀ {j l}, .opened j l ∈ f.seen ++ added (P.note r q f.state)
      (P.step r q f.state).2.2.toList → .opened j l ∈ f.seen :=
    fun hm => (List.mem_append.1 hm).resolve_right (opened_added _ _ _ _)
  have hset : ∀ {j : Nat} {r' : ρ} {next : φ ⊕ α}, (f.agents.set i (.at r (P.step r q f.state).2.1))[j]? =
      some (.at r' next) → (j = i ∧ r' = r ∧ next = (P.step r q f.state).2.1) ∨
        (j ≠ i ∧ f.agents[j]? = some (.at r' next)) := by
    intro j r' next hj
    refine (getElem?_set_cases hj).imp_left fun ⟨hji, heq⟩ => ?_
    exact ⟨hji, (Agent.at.inj heq).1, (Agent.at.inj heq).2⟩
  constructor
  · rw [hnotes]
    exact ha.legal
  · intro j r' next hj
    rw [hnotes]
    obtain ⟨rfl, rfl, rfl⟩ | ⟨hne, hj⟩ := hset hj
    · exact ⟨ha.known (hf.agents h).1, ha.sound⟩
    · obtain ⟨hk, hs⟩ := hf.agents hj
      refine ⟨ha.known hk, ha.others hs fun l hl hl' => hne ?_⟩
      exact hf.opened (hf.asker hj hl) (hf.asker h hl')
  · intro r' hr
    rw [hnotes]
    obtain ⟨ht, hk, hp⟩ := hf.given r' hr
    exact ⟨ht, ha.known hk, List.mem_append_left _ hp⟩
  · intro j r' next hj ht
    obtain ⟨-, rfl, -⟩ | ⟨-, hj⟩ := hset hj
    · exact hf.tokens h ht
    · exact hf.tokens hj ht
  · intro j r' next l hj hl
    refine List.mem_append_left _ ?_
    obtain ⟨rfl, rfl, -⟩ | ⟨-, hj⟩ := hset hj
    · exact hf.asker h hl
    · exact hf.asker hj hl
  · intro j k l hj hk
    exact hf.opened (hopened hj) (hopened hk)
  · intro l hl
    rw [hnotes] at hl
    obtain hl | hl := ha.own l hl
    · obtain ⟨j, hj⟩ := hf.accepted l hl
      exact ⟨j, List.mem_append_left _ hj⟩
    · exact ⟨i, List.mem_append_left _ (hf.asker h hl)⟩
  · obtain ⟨due, hdues, hcalls⟩ := ha.calls
    rw [hnotes, hdues, tolds_append, tolds_added]
    obtain ⟨rest, hold, hnew⟩ := flatMap_set h (.at r (P.step r q f.state).2.1) A.waiting
    exact perm_moved hf.ledger hold hnew hcalls

/-- Nothing is done, and nobody is told anything. -/
theorem rests (hf : A.Inv f) (hstate : f'.state = f.state)
    (hnotes : notes f'.seen = notes f.seen) (htolds : tolds f'.seen = tolds f.seen)
    (hseen : ∀ {sign}, sign ∈ f.seen → sign ∈ f'.seen)
    (hopened : ∀ {i j l}, .opened i l ∈ f'.seen → .opened j l ∈ f'.seen → i = j)
    (hgiven : ∀ r ∈ f.given, r ∈ f'.given)
    (hnew : ∀ r ∈ f'.given, r ∈ f.given ∨
      A.Token r ∧ A.Known (notes f.seen) r ∧ .pushed (P.token r) ∈ f'.seen)
    (hwaiting : f'.agents.flatMap A.waiting = f.agents.flatMap A.waiting)
    (hagents : ∀ {i : Nat} {r : ρ} {next : φ ⊕ α}, f'.agents[i]? = some (.at r next) →
      f.agents[i]? = some (.at r next) ∨
        A.Known (notes f.seen) r ∧ A.Sound (notes f.seen) f.state r next ∧
          (A.Token r → r ∈ f'.given) ∧ ∀ l, A.callback? r = some l → .opened i l ∈ f'.seen) :
    A.Inv f' where
  legal := by
    rw [hnotes, hstate]
    exact hf.legal
  agents := by
    intro i r next hi
    rw [hnotes, hstate]
    obtain hi | ⟨hk, hs, -⟩ := hagents hi
    · exact hf.agents hi
    · exact ⟨hk, hs⟩
  given := by
    intro r hr
    rw [hnotes]
    obtain hr | hr := hnew r hr
    · obtain ⟨ht, hk, hp⟩ := hf.given r hr
      exact ⟨ht, hk, hseen hp⟩
    · exact hr
  tokens := by
    intro i r next hi ht
    obtain hi | ⟨-, -, htoken, -⟩ := hagents hi
    · exact hgiven r (hf.tokens hi ht)
    · exact htoken ht
  asker := by
    intro i r next l hi hl
    obtain hi | ⟨-, -, -, hask⟩ := hagents hi
    · exact hseen (hf.asker hi hl)
    · exact hask l hl
  opened := hopened
  accepted := by
    intro l hl
    rw [hnotes] at hl
    obtain ⟨i, hi⟩ := hf.accepted l hl
    exact ⟨i, hseen hi⟩
  ledger := by
    rw [hnotes, htolds, hwaiting]
    exact hf.ledger

/-- One more request is made. -/
theorem joins (hf : A.Inv f) (hagent : ∀ r next, agent = .at r next →
      A.Known (notes f.seen) r ∧ A.Sound (notes f.seen) f.state r next ∧
        (A.Token r → r ∈ f.given) ∧ A.callback? r = none)
    (hwaiting : A.waiting agent = []) : A.Inv { f with agents := f.agents ++ [agent] } := by
  refine hf.rests rfl rfl rfl id hf.opened (fun _ => id) (fun r hr => .inl hr) (by simp [hwaiting]) ?_
  intro i r next hi
  refine (getElem?_concat_cases hi).imp_right fun heq => ?_
  obtain ⟨hk, hs, ht, hl⟩ := hagent r next heq.symm
  exact ⟨hk, hs, ht, fun l hl' => by rw [hl] at hl'; cases hl'⟩

/-- An agent that has nothing to tell goes on with something else. -/
theorem turnsTo (more : List (Sign ν)) (hf : A.Inv f) (hi : f.agents[i]? = some agent) (hold : A.waiting agent = [])
    (hr : A.Opens (notes f.seen) f.state r) (hnotes : notes more = []) (htolds : tolds more = [])
    (hopened : ∀ {j k l}, .opened j l ∈ f.seen ++ more → .opened k l ∈ f.seen ++ more → j = k)
    (htoken : A.Token r → r ∈ f.given)
    (hask : ∀ l, A.callback? r = some l → .opened i l ∈ f.seen ++ more) :
    A.Inv { f with
      agents := f.agents.set i (.at r (.inl P.start)), seen := f.seen ++ more } := by
  have hlt := (List.getElem?_eq_some_iff.1 hi).1
  have hwaiting : (f.agents.set i (.at r (.inl P.start))).flatMap A.waiting =
      f.agents.flatMap A.waiting := by
    have hget : f.agents[i] = agent := (List.getElem?_eq_some_iff.1 hi).2
    have hnew : A.waiting (.at r (.inl P.start)) = [] := hr.pending
    rw [List.set_eq_take_append_cons_drop, if_pos hlt]
    conv_rhs => rw [← List.take_append_drop i f.agents, List.drop_eq_getElem_cons hlt, hget]
    simp [hold, hnew]
  refine hf.rests rfl (by simp [notes_append, hnotes]) (by simp [tolds_append, htolds])
    (List.mem_append_left more) hopened (fun _ => id) (fun r hr => .inl hr) hwaiting ?_
  intro j r' next hj
  obtain ⟨rfl, heq⟩ | ⟨-, hj⟩ := getElem?_set_cases hj
  · obtain ⟨rfl, rfl⟩ := Agent.at.inj heq
    exact .inr ⟨hr.known, hr.sound, htoken, hask⟩
  · exact .inl hj

theorem turn (hA : A.Keeps) (hf : A.Inv f) (h : Turn P f f') (ho : A.Only (notes f'.seen)) :
    A.Inv f' := by
  cases h with
  | acts h =>
    rw [notes_append, notes_added] at ho
    exact hf.acts hA h ho
  | @asks g r k hg =>
    obtain ⟨hr, hl, ht⟩ := hA.now (notes f.seen) f.state hg
    refine hf.joins ?_ hr.pending
    rintro r' next heq
    obtain ⟨rfl, rfl⟩ := Agent.at.inj heq
    exact ⟨hr.known, hr.sound, fun h => absurd h ht, hl⟩
  | comes =>
    refine hf.joins ?_ rfl
    intro r next heq
    cases heq
  | @opens i l g r h hg hfresh =>
    have hnew : l ∉ A.callbacks (notes f.seen) := by
      intro hl
      obtain ⟨j, hj⟩ := hf.accepted l hl
      exact hfresh j hj
    obtain ⟨hr, hl, ht⟩ := hA.wait f.state hg hnew
    refine turnsTo [.opened i l] hf h rfl hr rfl rfl ?_ (fun h => absurd h ht) ?_
    · intro j k l' hj hk
      obtain hj' | hj' := List.mem_append.1 hj <;> obtain hk' | hk' := List.mem_append.1 hk
      · exact hf.opened hj' hk'
      · obtain ⟨-, rfl⟩ : k = i ∧ l' = l := by simpa using hk'
        exact absurd hj' (hfresh j)
      · obtain ⟨-, rfl⟩ : j = i ∧ l' = l := by simpa using hj'
        exact absurd hk' (hfresh k)
      · obtain ⟨rfl, -⟩ : j = i ∧ l' = l := by simpa using hj'
        obtain ⟨rfl, -⟩ : k = j ∧ l' = l := by simpa using hk'
        rfl
    · intro l' hl'
      obtain rfl : l = l' := Option.some.inj (hl.symm.trans hl')
      exact List.mem_append_right _ (List.mem_singleton_self _)
  | @pushes i r r' a h hu =>
    obtain ⟨ht, hk⟩ := hA.undo (hf.agents h).2 hu
    refine hf.rests rfl (by simp [notes, List.filterMap_append])
      (by simp [tolds, List.filterMap_append]) (List.mem_append_left _) ?_
      (fun _ => List.mem_append_left _) ?_ rfl (fun hi => .inl hi)
    · intro j k l hj hk
      exact hf.opened (by simpa using hj) (by simpa using hk)
    · intro r'' hr
      obtain hr | hr := List.mem_append.1 hr
      · exact .inl hr
      · obtain rfl := List.mem_singleton.1 hr
        exact .inr ⟨ht, hk, List.mem_append_right _ (List.mem_singleton_self _)⟩
  | @returns i r r' a h hu hr =>
    obtain ⟨ht, hk, -⟩ := hf.given r' hr
    obtain ⟨hopens, hl⟩ := hA.token f.state ht hk
    have hnew := turnsTo [] hf h (hA.answered r a) hopens rfl rfl
      (by simpa using @hf.opened) (fun _ => hr) (fun l h => by rw [hl] at h; cases h)
    rw [List.append_nil] at hnew
    exact hnew
  | @runs r hr =>
    obtain ⟨ht, hk, -⟩ := hf.given r hr
    obtain ⟨hopens, hl⟩ := hA.token f.state ht hk
    refine hf.joins ?_ hopens.pending
    intro r' next heq
    obtain ⟨rfl, rfl⟩ := Agent.at.inj heq
    exact ⟨hopens.known, hopens.sound, fun _ => hr, hl⟩

theorem start {s : σ} (hs : A.Legal [] s) (hc : A.callbacks [] = []) (hd : A.dues [] = []) :
    A.Inv (Floor.start s) where
  legal := hs
  agents := by
    intro i r next hi
    simp [Floor.start] at hi
  given := by
    intro r hr
    cases hr
  tokens := by
    intro i r next hi
    simp [Floor.start] at hi
  asker := by
    intro i r next l hi
    simp [Floor.start] at hi
  opened := by
    intro i j l hi
    cases hi
  accepted := by
    intro l hl
    rw [show notes (Floor.start s : Floor σ ν ρ φ α).seen = [] from rfl, hc] at hl
    cases hl
  ledger := .of_eq hd.symm

/-- Whatever has been told was due. -/
theorem told_due (hf : A.Inv f) {x : Except String Reply} (hm : .told l x ∈ f.seen) :
    (l, x) ∈ A.dues (notes f.seen) :=
  hf.ledger.mem_iff.1 (List.mem_append_left _ ((mem_tolds _).2 hm))

theorem first_due (hf : A.Inv f) {x : Except String Reply} (h : first l f.seen = some x) :
    (l, x) ∈ A.dues (notes f.seen) := by
  rw [first_eq, Option.map_eq_some_iff] at h
  obtain ⟨call, hfind, rfl⟩ := h
  obtain rfl : call.1 = l := by simpa using List.find?_some hfind
  exact hf.told_due ((mem_tolds _).1 (List.mem_of_find?_eq_some hfind))

theorem told_opened (hA : A.Keeps) (hf : A.Inv f) (l : LatchId) (x : Except String Reply)
    (hm : .told l x ∈ f.seen) : ∃ i, .opened i l ∈ f.seen :=
  hf.accepted l (hA.dues_callbacks hf.legal (hf.told_due hm))

/-- Whatever has been told, and whatever is yet to be, is told to different callbacks. -/
theorem callbacks_nodup (hA : A.Keeps) (hf : A.Inv f) :
    ((tolds f.seen ++ f.agents.flatMap A.waiting).map (·.1)).Nodup :=
  (hf.ledger.map _).nodup_iff.2 (hA.dues_nodup hf.legal)

/-- Nobody is told twice. -/
theorem told_once (hA : A.Keeps) (hf : A.Inv f) : ((tolds f.seen).map (·.1)).Nodup := by
  have hnodup := hf.callbacks_nodup hA
  rw [List.map_append] at hnodup
  exact (List.nodup_append.1 hnodup).1

theorem told (hf : A.Inv f) : (tolds f.seen).Subperm (A.dues (notes f.seen)) :=
  (List.sublist_append_left _ _).subperm.trans hf.ledger.subperm

/-- Once everybody is through, whatever is due has been told. -/
theorem told_all (hA : A.Keeps) (hf : A.Inv f) {t : Scene γ ν} (hS : Stands P S f t)
    (hr : ∀ q ∈ t.parties, q.Rests) : (tolds f.seen).Perm (A.dues (notes f.seen)) := by
  have hnone : f.agents.flatMap A.waiting = [] := by
    rw [List.flatMap_eq_nil_iff]
    intro agent hm
    obtain ⟨i, hi⟩ := List.mem_iff_getElem?.1 hm
    have hlt := (List.getElem?_eq_some_iff.1 hi).1
    rw [hS.length] at hlt
    cases agent with
    | idle => rfl
    | «at» r next =>
      cases next with
      | inr a => exact hA.answered r a
      | inl q =>
        have hq := List.getElem?_eq_getElem hlt
        obtain ⟨l, hl⟩ := hS.rested hq (hr _ (List.getElem_mem hlt)) hi
        exact absurd hl (hA.moves r q l)
  have hledger := hf.ledger
  rwa [hnone, List.append_nil] at hledger

/-- What only tokens do has been done by one that was given. -/
theorem by_token {D : ν → ρ → Prop}
    (hD : ∀ {h r q s n}, A.Known h r → n ∈ P.note r q s → (∃ r', D n r') → A.Token r ∧ D n r)
    (hf : A.Inv f)
    (hd : ∀ n ∈ notes f.seen, (∃ r, D n r) → ∃ r ∈ f.given, D n r) (h : Turn P f f') :
    ∀ n ∈ notes f'.seen, (∃ r, D n r) → ∃ r ∈ f'.given, D n r := by
  cases h with
  | @acts i r q h =>
    intro n hn hex
    rw [notes_append, notes_added] at hn
    obtain hn | hn := List.mem_append.1 hn
    · exact hd n hn hex
    · obtain ⟨ht, hr⟩ := hD (hf.agents h).1 hn hex
      exact ⟨r, hf.tokens h ht, hr⟩
  | opens =>
    intro n hn hex
    exact hd n (by simpa [notes] using hn) hex
  | pushes =>
    intro n hn hex
    obtain ⟨r, hr, hdone⟩ := hd n (by simpa [notes] using hn) hex
    exact ⟨r, List.mem_append_left _ hr, hdone⟩
  | asks | comes | returns | runs => exact hd

end Account.Inv


end Effects.Service
