import Effects.Proofs.Run.Drives

/-!
What the code of a registration and of the wait after it comes to.
-/

namespace Effects

variable {hosts : Hosts} {w w₁ w' : World} {here : Place} {c : ConnectionId} {calls : List Code}
  {n : Nat} {res res' : Except String Answer} {next : Reply → Code} {op : Op} {r : Reply}

theorem Control.answering_injective (h : Control.answering res = Control.answering res') :
    res = res' := by
  rcases res with _ | (_ | _ | _) <;> rcases res' with _ | (_ | _ | _) <;>
    simp [Control.answering] at h <;> rw [h]

theorem Walk.answered_iff :
    Walk hosts n w here ⟨.answering res', []⟩ calls w' ⟨.answering res, []⟩ ↔
      n = 0 ∧ calls = [] ∧ w' = w ∧ res = res' := by
  constructor
  · intro h
    obtain ⟨rfl, rfl, rfl, hb | hb⟩ := Walk.of_answering h
    · exact ⟨rfl, rfl, rfl, Control.answering_injective (Activity.mk.inj hb).1⟩
    · rcases res with _ | (_ | _ | _) <;> simp [Control.answering] at hb
  · rintro ⟨rfl, rfl, rfl, rfl⟩
    exact .stay _ _ _

namespace Code.Answers

open Routine

theorem of_answering_iff (res' : Except String Answer) :
    (∃ n, Walk hosts n w here ⟨.answering res', []⟩ calls w' ⟨.answering res, []⟩) ↔
      calls = [] ∧ w' = w ∧ res = res' := by
  simp [Walk.answered_iff]

theorem give_iff :
    (Code.give r).Answers hosts w here calls res w' ↔
      calls = [] ∧ w' = w ∧ res = .ok (.reply r) :=
  of_answering_iff (.ok (.reply r))

/-- The step of an activity that neither is an answer nor drives a machine. -/
theorem step_iff {a : Activity} (hacts : a.Acts w here) (hcost : a.cost = 0)
    (hcalls : w.calls here a = []) (ha : a ≠ ⟨.answering res, []⟩) :
    (∃ n, Walk hosts n w here a calls w' ⟨.answering res, []⟩) ↔
      ∃ n, Walk hosts n (w.act here a).1 here (w.act here a).2 calls w' ⟨.answering res, []⟩ := by
  simp only [Walk.acts_iff hacts ha, hcost, hcalls]
  constructor
  · rintro ⟨_, k, rest, -, rfl, hw⟩
    exact ⟨k, hw⟩
  · rintro ⟨k, hw⟩
    exact ⟨k, k, calls, rfl, rfl, hw⟩

theorem panic_iff {message : String} :
    (Code.panic message).Answers hosts w here calls res w' ↔
      calls = [] ∧ w' = w ∧ res = .error message := by
  have ha : (⟨.code (.panic message), []⟩ : Activity) ≠ ⟨.answering res, []⟩ := by
    rcases res with _ | (_ | _ | _) <;> simp [Control.answering]
  refine Iff.trans (step_iff (a := ⟨.code (.panic message), []⟩) trivial rfl rfl ha) ?_
  exact of_answering_iff (.error message)

theorem perform_iff :
    (Code.perform op next).Answers hosts w here calls res w' ↔
      ∃ n, Walk hosts n (w.perform here op).1 here (.respond next [] (w.perform here op).2) calls w'
        ⟨.answering res, []⟩ := by
  have ha : (⟨.code (.perform op next), []⟩ : Activity) ≠ ⟨.answering res, []⟩ := by
    rcases res with _ | (_ | _ | _) <;> simp [Control.answering]
  exact step_iff trivial rfl rfl ha

theorem reply_iff (h : w.perform here op = (w₁, .reply r)) :
    (Code.perform op next).Answers hosts w here calls res w' ↔
      (next r).Answers hosts w₁ here calls res w' := by
  rw [perform_iff, h]
  rfl

theorem inPlace_iff {body : Code} (h : w.perform here op = (w₁, .inPlace body r)) :
    (Code.perform op next).Answers hosts w here calls res w' ↔
      ∃ late calls₁ calls₂ w₂, calls = calls₁ ++ calls₂ ∧
        body.Answers hosts w₁ here calls₁ late w₂ ∧
        match late.bind Answer.task with
        | .ok () => (next r).Answers hosts w₂ here calls₂ res w'
        | .error message => calls₂ = [] ∧ w' = w₂ ∧ res = .error message := by
  have handed : ∀ {late w₂ calls₂}, (∃ k, Walk hosts k w₂ here
      ⟨.answering late, [.call fun _ => next r]⟩ calls₂ w' ⟨.answering res, []⟩) ↔
      match late.bind Answer.task with
      | .ok () => (next r).Answers hosts w₂ here calls₂ res w'
      | .error message => calls₂ = [] ∧ w' = w₂ ∧ res = .error message := by
    intro late w₂ calls₂
    simp only [Walk.handed_iff (b := ⟨.answering res, []⟩) rfl]
    have hcalls : w₂.calls here ⟨.answering late, [.call fun _ => next r]⟩ = [] := by
      rcases late with _ | (r | _ | _)
      · rfl
      · cases r <;> rfl
      all_goals rfl
    simp only [hcalls, List.nil_append, exists_eq_left']
    rcases late with message | (r' | node | token)
    · exact of_answering_iff (.error message)
    · cases r' <;> rfl
    · exact of_answering_iff (.error "a computation has no place here")
    · exact of_answering_iff (.error "a token has no place here")
  rw [perform_iff, h]
  have habove : ∀ n, Walk hosts n w₁ here
      (Activity.atop ⟨.code body, []⟩ [.call fun _ => next r]) calls w' ⟨.answering res, []⟩ ↔ _ :=
    fun _ => Walk.above_iff rfl
  constructor
  · rintro ⟨n, hw⟩
    obtain ⟨late, m, k, w₂, calls₁, calls₂, -, hcalls, hm, hk⟩ := (habove n).1 hw
    exact ⟨late, calls₁, calls₂, w₂, hcalls, ⟨m, hm⟩, handed.1 ⟨k, hk⟩⟩
  · rintro ⟨late, calls₁, calls₂, w₂, hcalls, ⟨m, hm⟩, hnext⟩
    obtain ⟨k, hk⟩ := handed.2 hnext
    exact ⟨m + k, (habove _).2 ⟨late, m, k, w₂, calls₁, calls₂, rfl, hcalls, hm, hk⟩⟩

theorem andThen_iff (code : Code) {k : Answer → Code} :
    (code.andThen k).Answers hosts w here calls res w' ↔
      ∃ first calls₁ calls₂ w₁, calls = calls₁ ++ calls₂ ∧
        code.Answers hosts w here calls₁ first w₁ ∧
        match first with
        | .ok answer => (k answer).Answers hosts w₁ here calls₂ res w'
        | .error message => calls₂ = [] ∧ w' = w₁ ∧ res = .error message := by
  constructor
  · rintro ⟨n, hw⟩
    obtain ⟨first, m, j, w₁, calls₁, calls₂, -, hcalls, hm, hj⟩ :=
      Walk.unfollowed (.code code) (by simp) hw
    refine ⟨first, calls₁, calls₂, w₁, hcalls, ⟨m, hm⟩, ?_⟩
    cases first with
    | ok answer => exact ⟨j, hj⟩
    | error message => exact (of_answering_iff (.error message)).1 ⟨j, hj⟩
  · rintro ⟨first, calls₁, calls₂, w₁, rfl, ⟨m, hm⟩, hnext⟩
    have hgo := Walk.followed (.code (k := k) code) hm
    cases first with
    | ok answer =>
      obtain ⟨j, hj⟩ := hnext
      exact ⟨m + j, hgo.trans hj⟩
    | error message =>
      obtain ⟨rfl, rfl, rfl⟩ := hnext
      exact ⟨m + 0, hgo.trans (.stay _ _ _)⟩

/-- A wait that nobody delivers to goes on for ever. -/
theorem await_iff {l : LatchId} :
    (Code.perform (.await l) next).Answers hosts w here calls res w' ↔
      ∃ item, w.latches[l]? = some (.full item) ∧
        (next (.caught item)).Answers hosts (w.setLatch l .drained) here calls res w' := by
  cases hl : (w.latches[l]?).bind Latch.item? with
  | some item =>
    have hfull : w.latches[l]? = some (.full item) := by
      obtain ⟨latch, hlatch, hitem⟩ := Option.bind_eq_some_iff.1 hl
      cases latch <;> simp [Latch.item?] at hitem
      rw [hlatch, hitem]
    have hperform : w.perform here (.await l) = (w.setLatch l .drained, .reply (.caught item)) := by
      simp [World.perform, hl, World.replying]
    rw [reply_iff hperform]
    simp [hfull]
  | none =>
    have again : w.act here ⟨.code (.perform (.await l) next), []⟩ =
        (w, ⟨.code (.perform (.await l) next), []⟩) := by
      simp [World.act, World.perform, hl, Activity.respond]
    constructor
    · rintro ⟨n, hw⟩
      generalize hx : (⟨.code (.perform (.await l) next), []⟩ : Activity) = x at hw
      generalize hy : (⟨.answering res, []⟩ : Activity) = y at hw
      induction hw with
      | stay =>
        subst hx
        rcases res with _ | (_ | _ | _) <;> simp [Control.answering] at hy
      | act ha rest ih =>
        subst hx
        rw [again] at ih
        exact ih hl again rfl hy
      | hop => simp at hx
    · rintro ⟨item, hfull, -⟩
      simp [hfull, Latch.item?] at hl

theorem wait_iff {l : LatchId} {k : Exit → Code} :
    (l.wait k).Answers hosts w here calls res w' ↔
      (∃ message, w.latches[l]? = some (.full (.error message)) ∧
        calls = [] ∧ w' = w.setLatch l .drained ∧ res = .error message) ∨
      ∃ reply, w.latches[l]? = some (.full (.ok reply)) ∧
        (k reply.toExit).Answers hosts (w.setLatch l .drained) here calls res w' := by
  refine Iff.trans await_iff ?_
  constructor
  · rintro ⟨message | reply, hl, h⟩
    · exact .inl ⟨message, hl, panic_iff.1 h⟩
    · exact .inr ⟨reply, hl, h⟩
  · rintro (⟨message, hl, h⟩ | ⟨reply, hl, h⟩)
    · exact ⟨.error message, hl, panic_iff.2 h⟩
    · exact ⟨.ok reply, hl, h⟩

theorem push_iff {token : Code} {k : Unit → Code} :
    ((c.push token) k).Answers hosts w here calls res w' ↔
      ∃ done calls₁ calls₂ w₁, calls = calls₁ ++ calls₂ ∧
        Installs hosts c w here (some token) calls₁ done w₁ ∧
        match done with
        | .ok () => (k ()).Answers hosts w₁ here calls₂ res w'
        | .error message => calls₂ = [] ∧ w' = w₁ ∧ res = .error message := by
  rcases hp : (w.connection c).push token with ⟨s, _ | late⟩
  · have hreply : w.perform here (.connection c (.push token)) =
        (w.setConnection c s, .reply .unit) := by
      simp only [World.connection] at hp
      simp [World.perform, World.onConnection, hp, World.replying]
    refine Iff.trans (reply_iff hreply) ?_
    constructor
    · intro h
      exact ⟨.ok (), [], calls, _, rfl, .kept hp, h⟩
    · rintro ⟨done, calls₁, calls₂, w₁, rfl, hi, h⟩
      cases hi with
      | kept hs =>
        rw [hp] at hs
        cases hs
        exact h
      | late hs => simp [hp] at hs
  · have hrun : w.perform here (.connection c (.push token)) =
        (w.setConnection c s, .inPlace late .unit) := by
      simp only [World.connection] at hp
      simp [World.perform, World.onConnection, hp]
    refine Iff.trans (inPlace_iff hrun) ?_
    constructor
    · rintro ⟨res₁, calls₁, calls₂, w₁, hcalls, hl, h⟩
      exact ⟨_, calls₁, calls₂, w₁, hcalls, .late hp hl, h⟩
    · rintro ⟨done, calls₁, calls₂, w₁, hcalls, hi, h⟩
      cases hi with
      | kept hs => simp [hp] at hs
      | late hs hl =>
        rw [hp] at hs
        cases hs
        exact ⟨_, calls₁, calls₂, w₁, hcalls, hl, h⟩

theorem pop_iff {k : Bool → Code} :
    (c.pop k).Answers hosts w here calls res w' ↔
      (k (w.connection c).pop.2.isSome).Answers hosts
        (w.setConnection c (w.connection c).pop.1) here calls res w' := by
  have hperform : w.perform here (.connection c .pop) = (w.setConnection c (w.connection c).pop.1,
      .reply (.flag (w.connection c).pop.2.isSome)) := rfl
  exact reply_iff hperform

theorem registered_iff {l : LatchId} {answer : Answer} :
    (registered c l (fun exit => .give (.outcome exit)) answer).Answers hosts w here calls res w' ↔
      ∃ done calls₁ w₁, Installs hosts c w here answer.token? calls₁ done w₁ ∧ calls = calls₁ ∧
        match done with
        | .error message => w' = w₁ ∧ res = .error message
        | .ok () =>
            (∃ message, w₁.latches[l]? = some (.full (.error message)) ∧
              w' = w₁.setLatch l .drained ∧ res = .error message) ∨
            ∃ reply, w₁.latches[l]? = some (.full (.ok reply)) ∧
              w' = (w₁.setLatch l .drained).popped c answer.token? ∧
              res = .ok (.reply (.outcome reply.toExit)) := by
  have untouched : answer.token? = none →
      registered c l (fun exit => .give (.outcome exit)) answer =
        l.wait fun exit => .give (.outcome exit) := by
    intro h
    rcases answer with r | node | (_ | token) <;> first | rfl | simp [Answer.token?] at h
  cases ht : answer.token? with
  | none =>
    rw [untouched ht, wait_iff]
    simp only [give_iff, World.popped]
    constructor
    · rintro (⟨message, hl, rfl, hw, hr⟩ | ⟨reply, hl, rfl, hw, hr⟩)
      · exact ⟨.ok (), [], w, .none, rfl, .inl ⟨message, hl, hw, hr⟩⟩
      · exact ⟨.ok (), [], w, .none, rfl, .inr ⟨reply, hl, hw, hr⟩⟩
    · rintro ⟨done, calls₁, w₁, hi, rfl, h⟩
      cases hi
      rcases h with ⟨message, hl, hw, hr⟩ | ⟨reply, hl, hw, hr⟩
      · exact .inl ⟨message, hl, rfl, hw, hr⟩
      · exact .inr ⟨reply, hl, rfl, hw, hr⟩
  | some token =>
    obtain rfl : answer = .token (some token) := by
      rcases answer with r | node | (_ | token) <;> simp [Answer.token?] at ht
      rw [ht]
    simp only [registered, push_iff, wait_iff, pop_iff, give_iff, World.popped]
    constructor
    · rintro ⟨message | ⟨⟩, calls₁, calls₂, w₁, rfl, hi, h⟩
      · obtain ⟨rfl, rfl, rfl⟩ := h
        exact ⟨.error message, calls₁, w', hi, by simp, rfl, rfl⟩
      · rcases h with ⟨message, hl, rfl, hw, hr⟩ | ⟨reply, hl, rfl, hw, hr⟩
        · exact ⟨.ok (), calls₁, w₁, hi, by simp, .inl ⟨message, hl, hw, hr⟩⟩
        · exact ⟨.ok (), calls₁, w₁, hi, by simp, .inr ⟨reply, hl, hw, hr⟩⟩
    · rintro ⟨message | ⟨⟩, calls₁, w₁, hi, rfl, h⟩
      · exact ⟨.error message, calls, [], w₁, by simp, hi, rfl, h⟩
      · refine ⟨.ok (), calls, [], w₁, by simp, hi, ?_⟩
        rcases h with ⟨message, hl, hw, hr⟩ | ⟨reply, hl, hw, hr⟩
        · exact .inl ⟨message, hl, rfl, hw, hr⟩
        · exact .inr ⟨reply, hl, rfl, hw, hr⟩

/-- The code that a machine calls for an asynchronous computation. -/
theorem suspend_iff {register : LatchId → Code} :
    (Routine.suspend register c fun exit => .give (.outcome exit)).Answers hosts w here calls res
        w' ↔
      ∃ result, res = result.map (fun exit => .reply (.outcome exit)) ∧
        Waits hosts c register w here
          ((if w.isCanceled c then [] else [register w.latches.size]) ++ calls) result w' := by
  have hcanceled : (w.connection c).isCanceled = w.isCanceled c := by
    unfold World.connection World.isCanceled
    cases w.connections[c]? <;> rfl
  have hfirst :
      w.perform here (.connection c .isCanceled) = (w, .reply (.flag (w.isCanceled c))) := by
    rw [← hcanceled]
    rfl
  rw [suspend_eq]
  refine Iff.trans (reply_iff hfirst) ?_
  cases hc : w.isCanceled c with
  | true =>
    refine Iff.trans (give_iff (r := .outcome .canceled)) ?_
    constructor
    · rintro ⟨rfl, rfl, rfl⟩
      exact ⟨.ok .canceled, rfl, .canceled hc⟩
    · rintro ⟨result, rfl, h⟩
      cases h with
      | canceled => exact ⟨rfl, rfl, rfl⟩
      | _ => simp_all
  | false =>
    have hopen : w.perform here .openLatch = (w.withLatch, .reply (.id w.latches.size)) := rfl
    refine Iff.trans (reply_iff hopen) ?_
    refine Iff.trans (andThen_iff (register w.latches.size)) ?_
    simp only [Bool.false_eq_true, if_false, List.singleton_append]
    constructor
    · rintro ⟨message | answer, calls₁, calls₂, w₁, rfl, hr, h⟩
      · obtain ⟨rfl, rfl, rfl⟩ := h
        rw [List.append_nil]
        exact ⟨.error message, rfl, .panics hc hr⟩
      · obtain ⟨message | ⟨⟩, calls', w₂, hi, rfl, h⟩ := registered_iff.1 h
        · obtain ⟨rfl, rfl⟩ := h
          exact ⟨.error message, rfl, .token_panics hc hr hi⟩
        · rcases h with ⟨message, hl, rfl, rfl⟩ | ⟨reply, hl, rfl, rfl⟩
          · exact ⟨.error message, rfl, .delivered_panic hc hr hi hl⟩
          · exact ⟨.ok reply.toExit, rfl, .delivered hc hr hi hl⟩
    · rintro ⟨result, rfl, h⟩
      cases h with
      | panics _ hr => exact ⟨_, _, [], _, (List.append_nil _).symm, hr, rfl, rfl, rfl⟩
      | token_panics _ hr hi =>
        exact ⟨_, _, _, _, rfl, hr, registered_iff.2 ⟨_, _, _, hi, rfl, rfl, rfl⟩⟩
      | delivered_panic _ hr hi hl =>
        exact ⟨_, _, _, _, rfl, hr,
          registered_iff.2 ⟨_, _, _, hi, rfl, .inl ⟨_, hl, rfl, rfl⟩⟩⟩
      | delivered _ hr hi hl =>
        exact ⟨_, _, _, _, rfl, hr,
          registered_iff.2 ⟨_, _, _, hi, rfl, .inr ⟨_, hl, rfl, rfl⟩⟩⟩

end Code.Answers
end Effects
