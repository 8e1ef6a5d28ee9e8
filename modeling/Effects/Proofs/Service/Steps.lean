import Effects.Proofs.Service.Standing

/-!
A step of a thread is nothing to the others, or a turn of the party.
-/

namespace Effects.Service

open Suspension

variable {γ σ ν ρ φ α : Type} {S : Subject γ σ ν} {P : Procedure γ σ ν ρ φ α}
  {f f' : Floor σ ν ρ φ α} {t u : Scene γ ν} {i : Nat} {p : Party γ} {w : World} {here : Place}
  {seen more : List (Sign ν)} {agent agent' : Agent ρ φ α} {a : Activity} {l : LatchId}

def Turns (P : Procedure γ σ ν ρ φ α) : Floor σ ν ρ φ α → Floor σ ν ρ φ α → Prop :=
  Relation.ReflTransGen (Turn P)

theorem act_wait (hl : w.latches[l]? = some (.full r)) (k : Exit → Code) :
    w.act here ⟨.code (l.wait k), []⟩ =
      (w.setLatch l .drained, ⟨.code (match r with
        | .ok reply => k reply.toExit
        | .error message => .panic message), []⟩) := by
  show ((w.perform here (.await l)).1, Activity.respond _ [] (w.perform here (.await l)).2) = _
  simp only [World.perform, hl, Option.bind_some, Latch.item?]
  cases r <;> rfl

theorem Holds.drains {l' : LatchId} {o : Option (Except String Reply)} (h : Holds w l' o) :
    Holds (w.setLatch l .drained) l' o := by
  by_cases hl : l = l'
  · subst hl
    right
    have hlt : l < w.latches.size := by
      obtain h | h := h <;> exact (Array.getElem?_eq_some_iff.1 h).1
    simp [World.setLatch, hlt]
  · simpa [Holds, World.setLatch, Array.getElem?_setIfInBounds, hl] using h

/-- The party goes on, and everything else is as it was. -/
theorem Stands.goes (more : List (Sign ν)) (h : Stands P S f t) (hp : t.parties[i]? = some p)
    (hstate : S.state w = some f'.state) (hseen : f'.seen = f.seen ++ more)
    (hlength : f'.agents.length = f.agents.length) (hagent : f'.agents[i]? = some agent')
    (hothers : ∀ j, j ≠ i → f'.agents[j]? = f.agents[j]?)
    (hat : At P (f.seen ++ more) i p.call agent' a)
    (hmore : (∀ j l, .opened j l ∉ more) ∨
      ∃ l, more = [.opened i l] ∧ ∀ l', .opened i l' ∉ f.seen)
    (hgiven : ∀ r ∈ f.given, r ∈ f'.given)
    (htokens : ∀ token, .pushed token ∈ more → ∃ r ∈ f'.given, token = P.token r)
    (hlatches : ∀ {j l}, .opened j l ∈ f.seen ++ more → Holds w l (first l (f.seen ++ more))) :
    Stands P S f' ⟨w, t.parties.set i { p with activity := a }, t.seen ++ more⟩ where
  state := hstate
  seen := by rw [hseen, ← h.seen]
  length := by rw [hlength, h.length, List.length_set]
  party := by
    intro j q hq
    rw [hseen]
    by_cases hj : i = j
    · subst hj
      rw [List.getElem?_set_self' , hp] at hq
      obtain rfl := Option.some.inj hq
      exact ⟨agent', hagent, hat⟩
    · rw [List.getElem?_set_ne hj] at hq
      obtain ⟨agent, hagent, hat⟩ := h.party hq
      refine ⟨agent, by rw [hothers j (Ne.symm hj), hagent], hat.mono fun l hl => ?_⟩
      obtain hnone | ⟨l', rfl, -⟩ := hmore
      · exact hnone j l hl
      · simp [Ne.symm hj] at hl
  tokens := by
    intro token ht
    rw [hseen] at ht
    obtain ht | ht := List.mem_append.1 ht
    · obtain ⟨r, hr, he⟩ := h.tokens ht
      exact ⟨r, hgiven r hr, he⟩
    · exact htokens token ht
  latches := by
    intro j l hl
    rw [hseen] at hl ⊢
    exact hlatches hl
  opened := by
    intro j l hl
    rw [List.length_set]
    rw [hseen] at hl
    obtain hl | hl := List.mem_append.1 hl
    · exact h.opened hl
    · obtain hnone | ⟨l', rfl, -⟩ := hmore
      · exact absurd hl (hnone j l)
      · obtain ⟨rfl, -⟩ : j = i ∧ l = l' := by simpa using hl
        exact (List.getElem?_eq_some_iff.1 hp).1
  single := by
    intro j l l' hl hl'
    rw [hseen] at hl hl'
    obtain hnone | ⟨l₀, rfl, hfirst⟩ := hmore
    · exact h.single ((List.mem_append.1 hl).resolve_right (hnone j l))
        ((List.mem_append.1 hl').resolve_right (hnone j l'))
    · by_cases hj : j = i
      · subst hj
        obtain rfl : l = l₀ := by simpa [hfirst] using hl
        obtain rfl : l' = l := by simpa [hfirst] using hl'
        rfl
      · exact h.single (by simpa [hj] using hl) (by simpa [hj] using hl')

/-- Nobody's turn, and nothing to be seen. -/
theorem Stands.rests (h : Stands P S f t) (hp : t.parties[i]? = some p)
    (hagent : f.agents[i]? = some agent) (hstate : S.state w = S.state t.world)
    (hat : At P f.seen i p.call agent a)
    (hlatches : ∀ {l o}, Holds t.world l o → Holds w l o) :
    Stands P S f ⟨w, t.parties.set i { p with activity := a }, t.seen ++ []⟩ := by
  refine goes [] h hp (hstate.trans h.state) (List.append_nil _).symm rfl hagent (fun _ _ => rfl) ?_
    (by simp) (fun _ hr => hr) (by simp) ?_
  · rwa [List.append_nil]
  · intro j l hl
    rw [List.append_nil] at hl ⊢
    exact hlatches (h.latches hl)

/-- The party takes a step of its request. -/
theorem Stands.serves (hS : P.Serves S) (h : Stands P S f t) (hp : t.parties[i]? = some p)
    {r : ρ} {q : φ} (hagent : f.agents[i]? = some (.at r (.inl q))) {k : α → Code}
    {stack : List Frame} (ha : p.activity = ⟨.code (P.code r q k), stack⟩)
    (hat : ∀ {seen' next}, (∀ {l}, .opened i l ∈ f.seen → .opened i l ∈ seen') →
      At P seen' i p.call (.at r next) ⟨.code (P.codeAt r k next), stack⟩) :
    ∃ f', Turns P f f' ∧ Stands P S f'
      ⟨(t.world.act p.place p.activity).1,
        t.parties.set i { p with activity := (t.world.act p.place p.activity).2 },
        t.seen ++ (p.activity.op?.map (signs S i t.world)).getD []⟩ := by
  obtain ⟨w', hstate, hlatches, hact⟩ := hS.performs h.state p.place r q
  have hsigns : (p.activity.op?.map (signs S i t.world)).getD [] =
      added (P.note r q f.state) (P.step r q f.state).2.2.toList := by
    rw [ha]
    exact hS.signs h.state i r q
  have hopened := opened_added (P.note r q f.state) (P.step r q f.state).2.2.toList
  have hnoted : ∀ l, first l ((P.note r q f.state).map (Sign.noted (ν := ν))) = none := by
    intro l
    simp [first]
  rw [hsigns, ha, hact k stack]
  refine ⟨_, .single (.acts hagent), goes _ h hp hstate rfl List.length_set ?_ ?_ (hat ?_) ?_ ?_ ?_ ?_⟩
  · exact List.getElem?_set_self (List.getElem?_eq_some_iff.1 hagent).1
  · intro j hj
    exact List.getElem?_set_ne (Ne.symm hj)
  · exact fun hl => List.mem_append_left _ hl
  · exact .inl hopened
  · exact fun _ hr => hr
  · exact fun token ht => absurd ht (pushed_added _ _ token)
  · intro j l hl
    have hl := (List.mem_append.1 hl).resolve_right (hopened j l)
    have hseen : ∀ l, first l (f.seen ++ (P.note r q f.state).map .noted) = first l f.seen := by
      intro l
      rw [first_append, hnoted, Option.or_none]
    rw [added, ← List.append_assoc]
    refine tell_latches hlatches ?_
    rw [hseen]
    exact h.latches hl

theorem signs_aside (hS : P.Serves S) {op : Op} (hop : Aside op) (i : Nat) (w : World) :
    signs S i w op = match op with
      | .openLatch => [.opened i w.latches.size]
      | .connection _ (.push token) => [.pushed token]
      | _ => [] := by
  have hnote := (hS.aside hop w ⟨"", none⟩).2
  cases op with
  | connection c op => cases op <;> simp [signs, hnote, World.told?, added]
  | openLatch => rfl
  | await l => simp [signs, hnote, World.told?, added]
  | _ => exact hop.elim

section Waiter

variable {call : Option γ} {place : Place} {g : γ} {r : LatchId → ρ} {c : ConnectionId}

/-- The waiting party does something that is not for the others to see. -/
theorem Stands.stays (hS : P.Serves S) (h : Stands P S f t)
    (hp : t.parties[i]? = some ⟨call, place, ⟨.code (.perform op next), []⟩⟩)
    (hagent : f.agents[i]? = some agent) (hop : Aside op)
    (hsigns : signs S i t.world op = [])
    (hlatches : ∀ {l o}, Holds t.world l o → Holds (t.world.perform place op).1 l o)
    (hat : At P f.seen i call agent (t.world.act place ⟨.code (.perform op next), []⟩).2) :
    Stands P S f
      ⟨(t.world.act place ⟨.code (.perform op next), []⟩).1,
        t.parties.set i ⟨call, place, (t.world.act place ⟨.code (.perform op next), []⟩).2⟩,
        t.seen ++ ((⟨.code (.perform op next), []⟩ : Activity).op?.map
          (signs S i t.world)).getD []⟩ := by
  have hview : ((⟨.code (.perform op next), []⟩ : Activity).op?.map
      (signs S i t.world)).getD [] = [] := hsigns
  rw [hview]
  exact h.rests hp hagent (hS.aside hop t.world place).1 hat hlatches

theorem Stands.opens (hS : P.Serves S) (h : Stands P S f t)
    (hp : t.parties[i]? =
      some ⟨some g, place, ⟨.code (Suspension.opening (P.register r) c), []⟩⟩)
    (hagent : f.agents[i]? = some .idle) (hg : P.asked g = .wait r)
    (hn : ∀ l, .opened i l ∉ f.seen)
    (htold : ∀ l r, .told l r ∈ f.seen → ∃ j, .opened j l ∈ f.seen) :
    ∃ f', Turns P f f' ∧ Stands P S f'
      ⟨{ t.world with latches := t.world.latches.push .empty },
        t.parties.set i ⟨some g, place, ⟨.code ((P.register r t.world.latches.size).andThen
          (after c t.world.latches.size)), []⟩⟩,
        t.seen ++ [.opened i t.world.latches.size]⟩ := by
  have hfresh : ∀ j, .opened j t.world.latches.size ∉ f.seen := by
    intro j hj
    obtain hl | hl := h.latches hj <;>
      exact absurd (Array.getElem?_eq_some_iff.1 hl).1 (Nat.lt_irrefl _)
  have hop : Aside .openLatch := trivial
  have hstate : S.state (t.world.perform place .openLatch).1 = S.state t.world :=
    (hS.aside hop t.world place).1
  have hcode : (P.register r t.world.latches.size).andThen (after c t.world.latches.size) =
      P.codeAt (r t.world.latches.size)
        (fun a => (P.guard (r t.world.latches.size) a).andThen (after c t.world.latches.size))
        (.inl P.start) := hS.andThen _ _ _ _
  have hlt : i < f.agents.length := (List.getElem?_eq_some_iff.1 hagent).1
  refine ⟨_, .single (.opens hagent hg hfresh),
    goes [.opened i t.world.latches.size] h hp (hstate.trans h.state) rfl
      List.length_set (List.getElem?_set_self hlt) ?_ ?_ ?_ ?_ ?_ ?_⟩
  · intro j hj
    exact List.getElem?_set_ne (Ne.symm hj)
  · rw [hcode]
    exact .registering hg (List.mem_append_right _ (List.mem_singleton_self _))
  · exact .inr ⟨_, rfl, hn⟩
  · exact fun _ hr => hr
  · simp
  · intro j l hl
    have hfirst : first l (f.seen ++ [.opened i t.world.latches.size]) = first l f.seen := by
      simp [first]
    rw [hfirst]
    obtain hl | hl := List.mem_append.1 hl
    · obtain hl | hl := h.latches hl
      · exact .inl (World.push_getElem? hl)
      · exact .inr (World.push_getElem? hl)
    · obtain ⟨-, rfl⟩ : j = i ∧ l = t.world.latches.size := by simpa using hl
      have hnone : first t.world.latches.size f.seen = none := by
        rw [first_eq, List.find?_eq_none.2, Option.map_none]
        rintro ⟨l, r⟩ hm hl
        obtain rfl : l = t.world.latches.size := by simpa using hl
        obtain ⟨j, hj⟩ := htold _ r ((mem_tolds _).1 hm)
        exact hfresh j hj
      rw [hnone]
      exact .inl Array.getElem?_push_size

theorem act_push (w : World) (place : Place) (c : ConnectionId) (token x : Code) :
    (w.act place ⟨.code (.perform (.connection c (.push token)) fun _ => x), []⟩).2 =
        ⟨.code x, []⟩ ∨
      (w.act place ⟨.code (.perform (.connection c (.push token)) fun _ => x), []⟩).2 =
        ⟨.code token, [.call fun _ => x]⟩ := by
  show Activity.respond _ [] (w.onConnection c (.push token)).2 = _ ∨
    Activity.respond _ [] (w.onConnection c (.push token)).2 = _
  simp only [World.onConnection]
  cases hpush : (w.connections[c]?.getD .uncancelable).push token with
  | mk s late =>
    cases late with
    | none => exact .inl rfl
    | some late =>
      have hlate : late = token := by
        cases hs : w.connections[c]?.getD .uncancelable <;> rw [hs] at hpush <;> cases hpush
        rfl
      subst hlate
      exact .inr rfl

/-- A token is put on the connection, or it comes too late and runs. -/
theorem Stands.pushes (hS : P.Serves S) (h : Stands P S f t) {r' : ρ} {a : α}
    (hp : t.parties[i]? =
      some ⟨some g, place, ⟨.code (Suspension.pushing c l (P.token r')), []⟩⟩)
    (hagent : f.agents[i]? = some (.at (r l) (.inr a))) (hg : P.asked g = .wait r)
    (hl : .opened i l ∈ f.seen) (hu : P.undo (r l) a = some r') :
    ∃ f', Turns P f f' ∧ Stands P S f'
      ⟨(t.world.act place ⟨.code (Suspension.pushing c l (P.token r')), []⟩).1,
        t.parties.set i ⟨some g, place,
          (t.world.act place ⟨.code (Suspension.pushing c l (P.token r')), []⟩).2⟩,
        t.seen ++ [.pushed (P.token r')]⟩ := by
  have hop : Aside (.connection c (.push (P.token r'))) := trivial
  have hstate := (hS.aside hop t.world place).1.trans h.state
  have hfirst : ∀ l, first l (f.seen ++ [.pushed (P.token r')]) = first l f.seen := by
    intro l
    simp [first]
  have hlatches : ∀ {j l}, .opened j l ∈ f.seen ++ [.pushed (P.token r')] →
      Holds (t.world.perform place (.connection c (.push (P.token r')))).1 l
        (first l (f.seen ++ [.pushed (P.token r')])) := by
    intro j l hl
    rw [hfirst, Holds, World.perform, World.onConnection_latches]
    exact h.latches (by simpa using hl)
  have htokens : ∀ token, .pushed token ∈ [(.pushed (P.token r') : Sign ν)] →
      ∃ r ∈ f.given ++ [r'], token = P.token r := by
    intro token ht
    exact ⟨r', by simp, by simpa using ht⟩
  have hmem : .opened i l ∈ f.seen ++ [.pushed (P.token r')] := List.mem_append_left _ hl
  have hlt : i < f.agents.length := (List.getElem?_eq_some_iff.1 hagent).1
  have hturn := Turn.pushes hagent hu
  obtain hact | hact := act_push t.world place c (P.token r') (Suspension.waiting c l)
  · refine ⟨_, .single hturn, goes _ h hp hstate rfl rfl hagent (fun _ _ => rfl) ?_ (by simp) ?_
      htokens hlatches⟩
    · exact hact ▸ .waiting hg hmem
    · exact fun r hr => List.mem_append_left _ hr
  · refine ⟨_, .tail (.single hturn) (.returns hagent hu (List.mem_append_right _
      (List.mem_singleton_self r'))), goes _ h hp hstate rfl List.length_set
      (List.getElem?_set_self hlt) ?_ ?_ (by simp) ?_ htokens hlatches⟩
    · intro j hj
      exact List.getElem?_set_ne (Ne.symm hj)
    · have hlate : At P (f.seen ++ [.pushed (P.token r')]) i (some g) (.at r' (.inl P.start))
          ⟨.code (P.codeAt r' (fun _ => .give .unit) (.inl P.start)),
            [.call fun _ => Suspension.waiting c l]⟩ := .late hg hmem
      exact hact ▸ hlate
    · exact fun r hr => List.mem_append_left _ hr

theorem onConnection_holds {op : ConnectionOp Code} {d : ConnectionId}
    {o : Option (Except String Reply)} (h : Holds w l o) :
    Holds (w.perform here (.connection d op)).1 l o := by
  rw [Holds, World.perform, World.onConnection_latches]
  exact h

/-- The callback has been called, and the wait is over. -/
theorem Stands.wakes (hS : P.Serves S) (h : Stands P S f t) {k : Exit → Code} {r' : ρ} {a : α}
    (hp : t.parties[i]? = some ⟨some g, place, ⟨.code (l.wait k), []⟩⟩)
    (hagent : f.agents[i]? = some (.at r' (.inr a))) (hg : P.asked g = .wait r)
    (hl : .opened i l ∈ f.seen) (hready : t.world.ready (.await l) = true)
    (hat : ∀ reply : Reply, first l f.seen = some (.ok reply) →
      At P f.seen i (some g) (.at r' (.inr a)) ⟨.code (k reply.toExit), []⟩) :
    ∃ f', Turns P f f' ∧ Stands P S f'
      ⟨(t.world.act place ⟨.code (l.wait k), []⟩).1,
        t.parties.set i ⟨some g, place, (t.world.act place ⟨.code (l.wait k), []⟩).2⟩,
        t.seen ++ ((⟨.code (l.wait k), []⟩ : Activity).op?.map (signs S i t.world)).getD []⟩ := by
  have hop : Aside (.await l) := trivial
  have hview : ((⟨.code (l.wait k), []⟩ : Activity).op?.map (signs S i t.world)).getD [] = [] :=
    signs_aside hS hop i t.world
  obtain ⟨result, hfirst, hfull⟩ : ∃ result, first l f.seen = some result ∧
      t.world.latches[l]? = some (.full result) := by
    obtain hlatch | hlatch := h.latches hl
    · cases hf : first l f.seen with
      | none =>
        rw [hf] at hlatch
        simp [World.ready, hlatch, Latch.holding, Latch.isFull, Latch.item?] at hready
      | some result =>
        rw [hf] at hlatch
        exact ⟨result, rfl, hlatch⟩
    · simp [World.ready, hlatch, Latch.isFull, Latch.item?] at hready
  have hstate : S.state (t.world.setLatch l .drained) = S.state t.world := by
    have := (hS.aside hop t.world place).1
    simpa only [World.perform, hfull, Option.bind_some, Latch.item?, World.replying] using this
  rw [hview, act_wait hfull]
  refine ⟨f, .refl, h.rests hp hagent hstate ?_ fun hl => hl.drains⟩
  cases result with
  | ok reply => exact hat reply hfirst
  | error message => exact .panicking hg hl hfirst

end Waiter

theorem settles_codeAt (hS : P.Serves S) {g : γ} {r : ρ} {k : α → Code} (hg : P.asked g = .now r k)
    {answer : α} (h : ([] : List Frame) ≠ [] ∨ (Control.code (P.codeAt r k (.inr answer))).settles = false) :
    False := by
  have hs := (hS.now hg).2 answer
  obtain h | h := h
  · exact h rfl
  · exact absurd (h.symm.trans hs) Bool.false_ne_true

theorem Stands.acts (hS : P.Serves S) (h : Stands P S f t)
    (htold : ∀ l r, .told l r ∈ f.seen → ∃ j, .opened j l ∈ f.seen)
    (hp : t.parties[i]? = some p)
    (hs : p.activity.stack ≠ [] ∨ p.activity.control.settles = false)
    (hready : ∀ op, p.activity.op? = some op → t.world.ready op = true) :
    ∃ f', Turns P f f' ∧ Stands P S f'
      ⟨(t.world.act p.place p.activity).1,
        t.parties.set i { p with activity := (t.world.act p.place p.activity).2 },
        t.seen ++ (p.activity.op?.map (signs S i t.world)).getD []⟩ := by
  obtain ⟨agent, hagent, hat⟩ := h.party hp
  obtain ⟨call, place, a⟩ := p
  cases hat with
  | @now g r k next hg =>
    cases next with
    | inl q => exact h.serves hS hp hagent rfl fun _ => .now hg
    | inr a => exact (settles_codeAt hS hg hs).elim
  | @token r next =>
    cases next with
    | inl q => exact h.serves hS hp hagent rfl fun _ => .token
    | inr a => simp [Procedure.codeAt, Control.settles] at hs
  | @asking g r c hg hn =>
    have hop : Aside (.connection c .isCanceled) := trivial
    have hact : t.world.act place ⟨.code (Suspension.asking (P.register r) c), []⟩ = _ :=
      asking_act t.world place
    rw [asking_eq] at hp hact ⊢
    refine ⟨f, .refl, h.stays hS hp hagent hop (signs_aside hS hop i _) onConnection_holds ?_⟩
    refine (congrArg (At P f.seen i (some g) .idle) (congrArg Prod.snd hact)).mpr ?_
    cases (t.world.connection c).isCanceled with
    | true => exact .refused hg hn
    | false => exact .opening hg hn
  | @opening g r c hg hn => exact h.opens hS hp hagent hg hn htold
  | refused hg hn => simp [Control.settles] at hs
  | @registering g r c l next hg hl =>
    cases next with
    | inl q => exact h.serves hS hp hagent rfl fun hmem => .registering hg (hmem hl)
    | inr a =>
      cases hu : P.undo (r l) a with
      | none =>
        have hcode : P.codeAt (r l) (fun a => (P.guard (r l) a).andThen (after c l)) (.inr a) =
            l.wait fun exit => .give (.outcome exit) := by
          simp [Procedure.codeAt, Procedure.guard, hu, Code.andThen, after, Routine.registered]
        simp only [hcode] at hp hready ⊢
        exact h.wakes hS hp hagent hg hl (hready _ rfl) fun reply hf => .ended hg hl hf
      | some r' =>
        have hcode : P.codeAt (r l) (fun a => (P.guard (r l) a).andThen (after c l)) (.inr a) =
            Suspension.pushing c l (P.token r') := by
          simp [Procedure.codeAt, Procedure.guard, hu, Code.andThen, after, Routine.registered]
          rfl
        simp only [hcode] at hp ⊢
        exact h.pushes hS hp hagent hg hl hu
  | @late g r c l r' next hg hl =>
    cases next with
    | inl q => exact h.serves hS hp hagent rfl fun hmem => .late hg (hmem hl)
    | inr a =>
      refine ⟨f, .refl, h.rests hp hagent rfl (.waiting hg hl) id⟩
  | @waiting g r c l r' a hg hl =>
    exact h.wakes hS hp hagent hg hl (hready _ rfl) fun reply hf => .leaving hg hl hf
  | @leaving g r c l r' a reply hg hl hf =>
    have hop : Aside (.connection c .pop) := trivial
    exact ⟨f, .refl, h.stays hS hp hagent hop (signs_aside hS hop i _) onConnection_holds
      (.ended hg hl hf)⟩
  | ended hg hl hf => simp [Control.settles] at hs
  | panicking hg hl hf => exact ⟨f, .refl, h.rests hp hagent rfl (.panicked hg hl hf) id⟩
  | panicked hg hl hf => simp [Control.settles] at hs

end Effects.Service
