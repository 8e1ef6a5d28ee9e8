import Effects.Proofs.Promise.Standing

/-!
The one who resolves a promise notifies those who wait, in the order in which they came.
-/

namespace Effects.Promise

open Service History

variable {ε α : Type} [Datum ε] [Datum α] {p : Promise ε α} {f f' : PromiseFloor} {i j : Nat}
  {d : Deed} {stage : Stage} {next : Stage ⊕ Reported}

/-- What has been told to those who waited at the end. -/
def heard (h : History) (tolds : List Telling) : List Telling :=
  tolds.filter fun call => (h.waiting.map (·.callback)).contains call.1

def notices (h : History) (r : Resolution) : List Telling :=
  h.waiting.map fun j => (j.callback, told r)

structure Ordered (f : PromiseFloor) : Prop where
  winner : ∀ r ∈ resolutions (notes f.seen), ∃ (i : Nat) (next : Stage ⊕ Reported),
    f.agents[i]? = some (.at (.resolve r) next) ∧ hasWon (.resolve r) next = true
  only : ∀ {i j : Nat} {d d' : Deed} {next next' : Stage ⊕ Reported},
    f.agents[i]? = some (.at d next) → f.agents[j]? = some (.at d' next') →
    hasWon d next = true → hasWon d' next' = true → i = j
  order : ∀ {i : Nat} {r : Resolution} {next : Stage ⊕ Reported},
    f.agents[i]? = some (.at (.resolve r) next) → hasWon (.resolve r) next = true →
    heard (notes f.seen) (tolds f.seen) ++ pending (.resolve r) next = notices (notes f.seen) r

/-- Whoever has resolved the promise has reported it, or is about to. -/
theorem resolutions_of_hasWon {h : History} {s : Promises} (hs : Sound h s d next)
    (hw : hasWon d next = true) : ∃ r, d = .resolve r ∧ h.resolutions = [r] := by
  have hreports : ∀ {a : Reported} {r}, Reports h (.resolve r) a → a.isTrue = true →
      h.resolutions = [r] := by
    intro a r hr ha
    cases hr with
    | won hr => exact hr
    | lost hr => cases ha
  cases d with
  | resolve r =>
    refine ⟨r, rfl, ?_⟩
    cases next with
    | inr a => exact hreports hs hw
    | inl stage =>
      cases stage with
      | waking l a => cases hw
      | «at» phase =>
        cases phase with
        | notifying calls a => exact hreports hs hw
        | _ => cases hw
  | _ => cases hw

theorem Ordered.start (s : Promises) : Ordered (Floor.start s) where
  winner := by
    intro r hr
    cases hr
  only := by
    intro i j d d' next next' hi
    simp [Floor.start] at hi
  order := by
    intro i r next hi
    simp [Floor.start] at hi

theorem heard_append (h : History) (a b : List Telling) : heard h (a ++ b) = heard h a ++ heard h b :=
  List.filter_append ..

/-- Those who wait have not been told anything. -/
theorem Inv.heard_nil (hf : Inv p f) (hr : resolutions (notes f.seen) = []) :
    heard (notes f.seen) (tolds f.seen) = [] := by
  rw [heard, List.filter_eq_nil_iff]
  intro call hcall hc
  obtain ⟨j, hj, he⟩ := List.mem_map.1 (List.contains_iff_mem.1 hc)
  have hdue : call ∈ dues (notes f.seen) :=
    hf.ledger.mem_iff.1 (List.mem_append_left _ hcall)
  exact hf.legal.1.dues_waiting hr hj (he ▸ List.mem_map_of_mem hdue)

theorem heard_notices {h : History} {r : Resolution} {calls : List Telling}
    (hcalls : ∀ call ∈ calls, call ∈ notices h r) : heard h calls = calls := by
  rw [heard, List.filter_eq_self]
  intro call hcall
  obtain ⟨j, hj, rfl⟩ := List.mem_map.1 (hcalls call hcall)
  exact List.contains_iff_mem.2 (List.mem_map_of_mem hj)

/-- Nobody else is told what the winner has to tell. -/
theorem heard_of_others {T own other : List Telling} {h : History} {r : Resolution}
    (hnodup : ((T ++ (other ++ own)).map (·.1)).Nodup) (horder : heard h T ++ own = notices h r) :
    heard h other = [] := by
  rw [heard, List.filter_eq_nil_iff]
  intro call hcall hc
  obtain ⟨j, hj, he⟩ := List.mem_map.1 (List.contains_iff_mem.1 hc)
  have hm : (j.callback, told r) ∈ heard h T ++ own := by
    rw [horder]
    exact List.mem_map_of_mem hj
  rw [List.map_append, List.map_append] at hnodup
  obtain ⟨-, hown, hT⟩ := List.nodup_append.1 hnodup
  have hfst : call.1 ∈ other.map (·.1) := List.mem_map_of_mem hcall
  obtain hm | hm := List.mem_append.1 hm
  · have hmT : call.1 ∈ T.map (·.1) := by
      rw [← he]
      exact List.mem_map_of_mem (List.mem_filter.1 hm).1
    exact hT _ hmT _ (List.mem_append_left _ hfst) rfl
  · have hmo : call.1 ∈ own.map (·.1) := by
      rw [← he]
      exact List.mem_map_of_mem hm
    exact (List.nodup_append.1 hown).2.2 _ hfst _ hmo rfl

section Acts

variable {x : Promises × (Stage ⊕ Reported) × Told} {new : History}

/-- After the resolution the queue stays as it is. -/
theorem waiting_kept (ha : Advance (notes f.seen) f.state d stage x new) {r : Resolution}
    (hr : resolutions (notes f.seen) = [r]) :
    History.waiting (notes f.seen ++ new) = History.waiting (notes f.seen) := by
  obtain rfl | ⟨n, rfl, hn⟩ := ha.notes
  · rw [List.append_nil]
  · obtain ⟨l, rfl, -⟩ := hn.of_resolved hr
    exact waiting_served _ l r

theorem heard_congr {h h' : History} (hw : h'.waiting = h.waiting) (T : List Telling) :
    heard h' T = heard h T := by
  rw [heard, heard, hw]

theorem notices_congr {h h' : History} (hw : h'.waiting = h.waiting) (r : Resolution) :
    notices h' r = notices h r := by
  rw [notices, notices, hw]

/-- Before the resolution nobody has won. -/
theorem Inv.hasWon_false (hf : Inv p f) (hr : resolutions (notes f.seen) = [])
    (hi : f.agents[i]? = some (.at d next)) : hasWon d next = false := by
  cases hw : hasWon d next with
  | false => rfl
  | true =>
    obtain ⟨r, -, hres⟩ := resolutions_of_hasWon (hf.agents hi).2 hw
    rw [hr] at hres
    cases hres

theorem new_of_resolver {h : History} {s : Promises} {r r₀ : Resolution}
    (ha : Advance h s (.resolve r) stage x new) (hr : h.resolutions = [r₀]) : new = [] := by
  obtain hnew | ⟨n, rfl, hn⟩ := ha.notes
  · exact hnew
  · obtain ⟨l, rfl, hl⟩ := hn.of_resolved hr
    have hnot : ¬ Fresh (h ++ [.served l r₀]) (.get l) := by simp [Fresh, callbacks, late]
    cases ha.own l hl hnot

/-- One of the agents acts, and the promise has been resolved before. -/
theorem Ordered.acts_resolved (ho : Ordered f) {f' : PromiseFloor} (hf' : Inv p f')
    (hi : f.agents[i]? = some (.at d (.inl stage)))
    (ha : Advance (notes f.seen) f.state d stage x new)
    (hagents : f'.agents = f.agents.set i (.at d x.2.1))
    (hnotes : notes f'.seen = notes f.seen ++ new)
    (htolds : tolds f'.seen = tolds f.seen ++ x.2.2.toList) {r₀ : Resolution}
    (hr : resolutions (notes f.seen) = [r₀]) : Ordered f' := by
  have hwaiting := waiting_kept ha hr
  have hquiet : ∀ r, .resolved r ∉ new := by
    intro r hm
    obtain rfl | ⟨n, rfl, hn⟩ := ha.notes
    · cases hm
    · obtain ⟨l, rfl, -⟩ := hn.of_resolved hr
      simp at hm
  have hwon : hasWon d x.2.1 = hasWon d (.inl stage) := by
    rw [Bool.eq_iff_iff, ha.won]
    simp [hquiet]
  have hset : f'.agents[i]? = some (.at d x.2.1) := by
    rw [hagents]
    exact List.getElem?_set_self (List.getElem?_eq_some_iff.1 hi).1
  have hback : ∀ {j : Nat} {d' : Deed} {next' : Stage ⊕ Reported},
      f'.agents[j]? = some (.at d' next') → hasWon d' next' = true →
        ∃ next'' : Stage ⊕ Reported,
          f.agents[j]? = some (.at d' next'') ∧ hasWon d' next'' = true := by
    intro j d' next' hj hw
    rw [hagents] at hj
    obtain ⟨rfl, heq⟩ | ⟨-, hj'⟩ := getElem?_set_cases hj
    · obtain ⟨rfl, rfl⟩ := Agent.at.inj heq
      exact ⟨_, hi, hwon ▸ hw⟩
    · exact ⟨_, hj', hw⟩
  refine ⟨?_, ?_, ?_⟩
  · intro r hm
    rw [hnotes, ha.resolutions hr, ← hr] at hm
    obtain ⟨j, next', hj, hw⟩ := ho.winner r hm
    by_cases hji : j = i
    · subst hji
      obtain ⟨rfl, rfl⟩ := Agent.at.inj (Option.some.inj (hi.symm.trans hj))
      exact ⟨j, _, hset, hwon ▸ hw⟩
    · refine ⟨j, next', ?_, hw⟩
      rw [hagents, List.getElem?_set_ne (Ne.symm hji)]
      exact hj
  · intro j k d' d'' next' next'' hj hk hwj hwk
    obtain ⟨_, hj', hwj'⟩ := hback hj hwj
    obtain ⟨_, hk', hwk'⟩ := hback hk hwk
    exact ho.only hj' hk' hwj' hwk'
  · intro j r next' hj hw
    rw [hnotes, htolds, heard_append, heard_congr hwaiting, heard_congr hwaiting,
      notices_congr hwaiting]
    by_cases hji : j = i
    · subst hji
      obtain ⟨rfl, rfl⟩ := Agent.at.inj (Option.some.inj (hset.symm.trans hj))
      have horder := ho.order hi (hwon ▸ hw)
      have hcalls : x.2.2.toList ++ pending (.resolve r) x.2.1 =
          pending (.resolve r) (.inl stage) := by
        rw [ha.calls, new_of_resolver ha hr, List.flatMap_nil, List.append_nil]
      have hown : heard (notes f.seen) x.2.2.toList = x.2.2.toList := by
        refine heard_notices (r := r) fun call hcall => ?_
        rw [← horder, ← hcalls]
        exact List.mem_append_right _ (List.mem_append_left _ hcall)
      rw [hown, List.append_assoc, hcalls]
      exact horder
    · have hj' := hj
      rw [hagents, List.getElem?_set_ne (Ne.symm hji)] at hj'
      have horder := ho.order hj' hw
      obtain ⟨rest, hperm, -⟩ := flatMap_set hj .idle (account p).waiting
      have hperm : (f'.agents.flatMap (account p).waiting).Perm
          (pending (.resolve r) next' ++ rest) := hperm
      have hnodup : ((tolds f.seen ++ (x.2.2.toList ++ pending (.resolve r) next')).map
          (·.1)).Nodup := by
        have hall : ((tolds f.seen ++ (x.2.2.toList ++ pending (.resolve r) next') ++ rest).map
            (·.1)).Nodup := by
          have hsame := (((hperm.append_left (tolds f'.seen)).map (·.1)).nodup_iff).1
            (hf'.callbacks_nodup (keeps p))
          simpa only [htolds, List.append_assoc] using hsame
        rw [List.map_append] at hall
        exact (List.nodup_append.1 hall).1
      rw [heard_of_others hnodup horder, List.append_nil]
      exact horder

theorem pending_of_open {h : History} {s : Promises} {r : Resolution}
    (hs : Sound h s (.resolve r) (.inl stage)) (hr : h.resolutions = []) :
    pending (.resolve r) (.inl stage) = [] := by
  cases stage with
  | waking l a =>
    obtain ⟨-, id, hd, -⟩ := hs
    cases hd
  | «at» phase =>
    cases phase with
    | notifying calls a =>
      have hreports : Reports h (.resolve r) a := hs
      cases hreports with
      | won hr' => rw [hr] at hr'; cases hr'
      | lost hr' => rw [hr] at hr'; cases hr'
    | _ => rfl

/-- One of the agents acts, and the promise has not been resolved before. -/
theorem Ordered.acts_pending (hf : Inv p f) {f' : PromiseFloor} (hf' : Inv p f')
    (hi : f.agents[i]? = some (.at d (.inl stage)))
    (ha : Advance (notes f.seen) f.state d stage x new)
    (hagents : f'.agents = f.agents.set i (.at d x.2.1))
    (hnotes : notes f'.seen = notes f.seen ++ new)
    (htolds : tolds f'.seen = tolds f.seen ++ x.2.2.toList)
    (hr : resolutions (notes f.seen) = []) : Ordered f' := by
  have hset : f'.agents[i]? = some (.at d x.2.1) := by
    rw [hagents]
    exact List.getElem?_set_self (List.getElem?_eq_some_iff.1 hi).1
  by_cases hnew : ∃ r, .resolved r ∈ new
  · obtain ⟨r, hm⟩ := hnew
    obtain rfl : new = [.resolved r] := by
      obtain rfl | ⟨n, rfl, -⟩ := ha.notes
      · cases hm
      · rw [List.mem_singleton.1 hm]
    obtain rfl := ha.resolver r hm
    have hwon : hasWon (.resolve r) x.2.1 = true := ha.won.2 (.inr ⟨r, hm⟩)
    have honly : ∀ {j : Nat} {d' : Deed} {next' : Stage ⊕ Reported},
        f'.agents[j]? = some (.at d' next') → hasWon d' next' = true → j = i := by
      intro j d' next' hj hw
      by_contra hji
      rw [hagents, List.getElem?_set_ne (Ne.symm hji)] at hj
      rw [hf.hasWon_false hr hj] at hw
      cases hw
    have hwaiting : History.waiting (notes f'.seen) = History.waiting (notes f.seen) := by
      rw [hnotes, waiting_resolved]
    have hcalls : x.2.2.toList ++ pending (.resolve r) x.2.1 = notices (notes f.seen) r := by
      rw [ha.calls, pending_of_open (hf.agents hi).2 hr, List.nil_append, List.flatMap_singleton]
      rfl
    refine ⟨?_, ?_, ?_⟩
    · intro r' hm'
      rw [hnotes, resolutions_append, hr] at hm'
      obtain rfl : r' = r := List.mem_singleton.1 hm'
      exact ⟨i, _, hset, hwon⟩
    · intro j k d' d'' next' next'' hj hk hwj hwk
      rw [honly hj hwj, honly hk hwk]
    · intro j r' next' hj hw
      obtain rfl := honly hj hw
      obtain ⟨hd, rfl⟩ := Agent.at.inj (Option.some.inj (hset.symm.trans hj))
      obtain rfl := Deed.resolve.inj hd
      have hown : heard (notes f.seen) x.2.2.toList = x.2.2.toList := by
        refine heard_notices (r := r) fun call hcall => ?_
        rw [← hcalls]
        exact List.mem_append_left _ hcall
      rw [htolds, heard_congr hwaiting, notices_congr hwaiting, heard_append, hf.heard_nil hr, hown,
        List.nil_append]
      exact hcalls
  · have hr' : resolutions (notes f'.seen) = [] := by
      rw [hnotes, resolutions_append, hr, List.nil_append, History.resolutions,
        List.filterMap_eq_nil_iff]
      intro n hn
      cases n with
      | resolved r => exact absurd ⟨r, hn⟩ hnew
      | _ => rfl
    refine ⟨?_, ?_, ?_⟩
    · intro r hm
      rw [hr'] at hm
      cases hm
    · intro j k d' d'' next' next'' hj hk hwj
      rw [hf'.hasWon_false hr' hj] at hwj
      cases hwj
    · intro j r next' hj hw
      rw [hf'.hasWon_false hr' hj] at hw
      cases hw

end Acts

theorem Ordered.keeps (ho : Ordered f) (hnotes : notes f'.seen = notes f.seen)
    (htolds : tolds f'.seen = tolds f.seen)
    (hagents : ∀ {i : Nat} {d : Deed} {next : Stage ⊕ Reported}, hasWon d next = true →
      (f'.agents[i]? = some (.at d next) ↔ f.agents[i]? = some (.at d next))) : Ordered f' where
  winner := by
    intro r hm
    rw [hnotes] at hm
    obtain ⟨i, next, hi, hw⟩ := ho.winner r hm
    exact ⟨i, next, (hagents hw).2 hi, hw⟩
  only := by
    intro i j d d' next next' hi hj hwi hwj
    exact ho.only ((hagents hwi).1 hi) ((hagents hwj).1 hj) hwi hwj
  order := by
    intro i r next hi hw
    rw [hnotes, htolds]
    exact ho.order ((hagents hw).1 hi) hw

theorem Ordered.joins (ho : Ordered f) {agent : Agent Deed Stage Reported}
    (hagent : ∀ d next, agent = .at d next → hasWon d next = false) :
    Ordered { f with agents := f.agents ++ [agent] } := by
  refine ho.keeps rfl rfl ?_
  intro i d next hw
  by_cases hlt : i < f.agents.length
  · rw [List.getElem?_append_left hlt]
  · constructor
    · intro hi
      rw [List.getElem?_append_right (Nat.le_of_not_lt hlt)] at hi
      have heq := (List.mem_singleton.1 (List.mem_of_getElem? hi)).symm
      rw [hagent d next heq] at hw
      cases hw
    · intro hi
      exact absurd (List.getElem?_eq_some_iff.1 hi).1 hlt

theorem Ordered.turnsTo (ho : Ordered f) {agent : Agent Deed Stage Reported}
    (next : Stage ⊕ Reported) (more : List (Sign Note))
    (hi : f.agents[i]? = some agent)
    (hold : ∀ d next, agent = .at d next → hasWon d next = false)
    (hnew : hasWon d next = false) (hnotes : notes more = []) (htolds : tolds more = []) :
    Ordered { f with agents := f.agents.set i (.at d next), seen := f.seen ++ more } := by
  refine ho.keeps (by simp [notes_append, hnotes]) (by simp [tolds_append, htolds]) ?_
  intro j d' next' hw
  by_cases hj : i = j
  · subst hj
    constructor
    · intro h
      rw [List.getElem?_set_self (List.getElem?_eq_some_iff.1 hi).1] at h
      obtain ⟨rfl, rfl⟩ := Agent.at.inj (Option.some.inj h)
      rw [hnew] at hw
      cases hw
    · intro h
      rw [hold d' next' (Option.some.inj (hi.symm.trans h))] at hw
      cases hw
  · rw [List.getElem?_set_ne hj]

theorem Ordered.turn (hf : Inv p f) (ho : Ordered f) (h : Turn (procedure p) f f') : Ordered f' := by
  have hf' := hf.turn (Promise.keeps p) h trivial
  cases h with
  | @acts i d stage h =>
    have ha := hf.advance (p := p) h
    have hnotes : notes (f.seen ++ added ((procedure p).note d stage f.state)
        ((procedure p).step d stage f.state).2.2.toList) =
          notes f.seen ++ (procedure p).note d stage f.state := by
      rw [notes_append, notes_added]
    have htolds : tolds (f.seen ++ added ((procedure p).note d stage f.state)
        ((procedure p).step d stage f.state).2.2.toList) =
          tolds f.seen ++ ((procedure p).step d stage f.state).2.2.toList := by
      rw [tolds_append, tolds_added]
    obtain ⟨hr, -⟩ | ⟨r, hr, -⟩ := state_cases hf.legal.1
    · exact .acts_pending hf hf' h ha rfl hnotes htolds hr
    · exact ho.acts_resolved hf' h ha rfl hnotes htolds hr
  | @asks g r k hg =>
    refine ho.joins ?_
    rintro d next heq
    obtain ⟨rfl, rfl⟩ := Agent.at.inj heq
    cases g <;> cases hg <;> rfl
  | comes =>
    refine ho.joins ?_
    intro d next heq
    cases heq
  | @opens i l g r h hg hfresh =>
    have hr : r l = .get l := by cases g <;> cases hg; rfl
    rw [hr]
    exact ho.turnsTo _ _ h (fun d next heq => by cases heq) rfl rfl rfl
  | @pushes i d d' a h hu =>
    exact ho.keeps (by simp [notes, List.filterMap_append]) (by simp [tolds, List.filterMap_append])
      fun _ => Iff.rfl
  | @returns i d d' a h hu hr =>
    obtain ⟨⟨id, l, rfl⟩, -, -⟩ := hf.given d' hr
    have hold : ∀ d₁ next, Agent.at d (.inr a) = .at d₁ next → hasWon d₁ next = false := by
      rintro d₁ next heq
      obtain ⟨rfl, rfl⟩ := Agent.at.inj heq
      cases d with
      | resolve r => cases hu
      | _ => rfl
    have hnew := ho.turnsTo (d := .leave id l) (.inl (.at .reading)) [] h hold rfl
      rfl rfl
    rw [List.append_nil] at hnew
    exact hnew
  | @runs d hr =>
    obtain ⟨⟨id, l, rfl⟩, -, -⟩ := hf.given d hr
    refine ho.joins ?_
    intro d' next heq
    obtain ⟨rfl, rfl⟩ := Agent.at.inj heq
    rfl

/-- What the promise is resolved with was written as a value or an error of its own. -/
def Typed (ε α : Type) [Datum ε] [Datum α] (f : PromiseFloor) : Prop :=
  ∀ {i : Nat} {r : Resolution} {next : Stage ⊕ Reported},
    f.agents[i]? = some (.at (.resolve r) next) → ∃ r₀ : Except ε α, r = written r₀

theorem Typed.turn {p : Promise ε α} {f f' : PromiseFloor} (hf : Inv p f) (ht : Typed ε α f)
    (h : Turn (procedure p) f f') : Typed ε α f' := by
  have hset : ∀ {i j : Nat} {d : Deed} {next next' : Stage ⊕ Reported} {r : Resolution},
      (∀ r, d = .resolve r → ∃ r₀ : Except ε α, r = written r₀) →
      (f.agents.set i (.at d next))[j]? = some (.at (.resolve r) next') →
        ∃ r₀ : Except ε α, r = written r₀ := by
    intro i j d next next' r hd hj
    obtain ⟨-, heq⟩ | ⟨-, hj⟩ := getElem?_set_cases hj
    · obtain ⟨rfl, -⟩ := Agent.at.inj heq
      exact hd r rfl
    · exact ht hj
  have hjoin : ∀ {j : Nat} {agent : Agent Deed Stage Reported} {next' : Stage ⊕ Reported} {r : Resolution},
      (∀ r next, agent = .at (.resolve r) next → ∃ r₀ : Except ε α, r = written r₀) →
      (f.agents ++ [agent])[j]? = some (.at (.resolve r) next') →
        ∃ r₀ : Except ε α, r = written r₀ := by
    intro j agent next' r hagent hj
    obtain hm | hm := List.mem_append.1 (List.mem_of_getElem? hj)
    · obtain ⟨k, hk⟩ := List.mem_iff_getElem?.1 hm
      exact ht hk
    · exact hagent r next' (List.mem_singleton.1 hm).symm
  intro i r next hi
  cases h with
  | acts h =>
    refine hset (fun r hr => ?_) hi
    subst hr
    exact ht h
  | @asks g r' k hg =>
    refine hjoin ?_ hi
    intro r'' next' heq
    obtain ⟨rfl, -⟩ := Agent.at.inj heq
    cases g with
    | resolve r₀ =>
      obtain ⟨hr, -⟩ := Asked.now.inj hg
      exact ⟨r₀, (Deed.resolve.inj hr).symm⟩
    | tryResolve r₀ =>
      obtain ⟨hr, -⟩ := Asked.now.inj hg
      exact ⟨r₀, (Deed.resolve.inj hr).symm⟩
    | _ => cases hg
  | comes => exact hjoin (fun r' next' heq => by cases heq) hi
  | @opens i l g r' h hg hfresh =>
    refine hset (fun r'' hr => ?_) hi
    cases g <;> cases hg
    cases hr
  | pushes h hu => exact ht hi
  | @returns i d d' a h hu hr =>
    obtain ⟨⟨id, l, rfl⟩, -, -⟩ := hf.given d' hr
    exact hset (fun r'' hr => by cases hr) hi
  | @runs d hr =>
    obtain ⟨⟨id, l, rfl⟩, -, -⟩ := hf.given d hr
    exact hjoin (fun r' next' heq => by cases heq) hi

/-- It is a token that removes a getter. -/
def Removes : Note → Deed → Prop
  | .removed id, .leave id' _ => id = id'
  | _, _ => False

theorem eq_of_removed {d : Deed} {stage : Stage} {s : Promises} {id : Nat}
    (hn : .removed id ∈ (procedure p).note d stage s) : ∃ l, d = .leave id l := by
  cases stage with
  | waking l a => cases hn
  | «at» phase =>
    have hn : .removed id ∈ phase.notes d.request s := hn
    cases phase with
    | reading =>
      simp only [Phase.notes] at hn
      split at hn <;> simp at hn
    | writing seen state calls a =>
      cases d with
      | leave id' l =>
        obtain ⟨-, rfl⟩ : _ ∧ id = id' := by simpa [Phase.notes, Deed.request] using hn
        exact ⟨l, rfl⟩
      | resolve r => cases r <;> simp [Phase.notes, Deed.request] at hn
      | get l => cases a <;> simp [Phase.notes, Deed.request] at hn
      | tryGet => simp [Phase.notes, Deed.request] at hn
    | _ => cases hn

theorem removes_token {h : History} {d : Deed} {stage : Stage} {s : Promises} {n : Note}
    (_ : Known h d) (hn : n ∈ (procedure p).note d stage s) (hex : ∃ d', Removes n d') :
    (account p).Token d ∧ Removes n d := by
  obtain ⟨d', hd'⟩ := hex
  cases n with
  | removed id =>
    obtain ⟨l, rfl⟩ := eq_of_removed hn
    exact ⟨⟨id, l, rfl⟩, rfl⟩
  | _ => exact hd'.elim

/-- What holds after every turn. -/
structure Holds (p : Promise ε α) (f : PromiseFloor) : Prop where
  inv : Inv p f
  ordered : Ordered f
  typed : Typed ε α f
  removed : ∀ n ∈ notes f.seen, (∃ d, Removes n d) → ∃ d ∈ f.given, Removes n d

theorem Holds.start {s : Promises} (hs : s.state = .pending []) : Holds p (Floor.start s) where
  inv := .start ⟨.nil _, hs⟩ rfl rfl
  ordered := .start s
  typed := by
    intro i r next hi
    simp [Floor.start] at hi
  removed := by
    intro n hn
    cases hn

theorem kept (p : Promise ε α) : Kept (procedure p) (Holds p) where
  turn hf h := ⟨hf.inv.turn (keeps p) h trivial, hf.ordered.turn hf.inv h, Typed.turn hf.inv hf.typed h,
    hf.inv.by_token removes_token hf.removed h⟩
  told hf := hf.inv.told_opened (keeps p)

/-- What holds after the resolution, where `n` threads had asked until then. -/
structure Later (p : Promise ε α) (n : Nat) (s : Promises) (r : Resolution)
    (f : PromiseFloor) : Prop where
  holds : Holds p f
  state : f.state = s
  resolved : resolutions (notes f.seen) = [r]
  /-- Those who look later find it. -/
  looks : ∀ {i : Nat} {next : Stage ⊕ Reported}, n ≤ i → f.agents[i]? = some (.at .tryGet next) →
    next = .inl (.at .reading) ∨ next = .inr (.resolution (some r))

theorem later (p : Promise ε α) (n : Nat) (s : Promises) (r : Resolution) :
    Kept (procedure p) (Later p n s r) where
  told hf := hf.holds.inv.told_opened (keeps p)
  turn := by
    intro f f' hf h
    have hholds := (kept p).turn hf.holds h
    have hjoin : ∀ {i : Nat} {agent : Agent Deed Stage Reported} {next : Stage ⊕ Reported},
        (∀ next, agent = .at .tryGet next → next = .inl (.at .reading)) → n ≤ i →
        (f.agents ++ [agent])[i]? = some (.at .tryGet next) →
          next = .inl (.at .reading) ∨ next = .inr (.resolution (some r)) := by
      intro i agent next hagent hn hi
      by_cases hlt : i < f.agents.length
      · rw [List.getElem?_append_left hlt] at hi
        exact hf.looks hn hi
      · rw [List.getElem?_append_right (Nat.le_of_not_lt hlt)] at hi
        exact .inl (hagent next (List.mem_singleton.1 (List.mem_of_getElem? hi)).symm)
    have hset : ∀ {i j : Nat} {d : Deed} {next next' : Stage ⊕ Reported}, d ≠ .tryGet → n ≤ j →
        (f.agents.set i (.at d next))[j]? = some (.at .tryGet next') →
          next' = .inl (.at .reading) ∨ next' = .inr (.resolution (some r)) := by
      intro i j d next next' hd hn hj
      obtain ⟨-, heq⟩ | ⟨-, hj⟩ := getElem?_set_cases hj
      · exact absurd (Agent.at.inj heq).1.symm hd
      · exact hf.looks hn hj
    cases h with
    | @acts i d stage h =>
      have ha := hf.holds.inv.advance (p := p) h
      have hstill := ha.still (by simp [hf.resolved])
      refine ⟨hholds, hstill.trans hf.state, ?_, ?_⟩
      · rw [notes_append, notes_added]
        exact ha.resolutions hf.resolved
      · intro j next hn hj
        by_cases hd : d = .tryGet
        · subst hd
          obtain ⟨rfl, heq⟩ | ⟨-, hj⟩ := getElem?_set_cases hj
          · obtain ⟨-, rfl⟩ := Agent.at.inj heq
            obtain hstage | hstage := hf.looks hn h
            · obtain rfl := Sum.inl.inj hstage
              have hresolution : f.state.state.resolution? = some r := by
                rw [hf.holds.inv.legal.2, History.state, hf.resolved]
                exact State.resolution?_resolved r
              right
              simp [step_at, Phase.step, Deed.request, Request.serve, Store.after,
                Store.answered, store, Deed.wakes?, hresolution]
            · cases hstage
          · exact hf.looks hn hj
        · exact hset hd hn hj
    | @asks g r' k hg =>
      refine ⟨hholds, hf.state, hf.resolved, fun hn hi => hjoin ?_ hn hi⟩
      intro next heq
      exact (Agent.at.inj heq).2.symm
    | comes => exact ⟨hholds, hf.state, hf.resolved, hjoin fun next heq => by cases heq⟩
    | @opens i l g r' h hg hfresh =>
      refine ⟨hholds, hf.state, ?_, hset ?_⟩
      · rw [notes_append]
        simpa [notes] using hf.resolved
      · cases g <;> cases hg
        simp
    | @pushes i d d' a h hu =>
      refine ⟨hholds, hf.state, ?_, hf.looks⟩
      rw [notes_append]
      simpa [notes] using hf.resolved
    | @returns i d d' a h hu hr =>
      obtain ⟨⟨id, l, rfl⟩, -, -⟩ := hf.holds.inv.given d' hr
      exact ⟨hholds, hf.state, hf.resolved, hset (by simp)⟩
    | @runs d hr =>
      obtain ⟨⟨id, l, rfl⟩, -, -⟩ := hf.holds.inv.given d hr
      exact ⟨hholds, hf.state, hf.resolved, hjoin fun next heq => by cases heq⟩

end Effects.Promise
