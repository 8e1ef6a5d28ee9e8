import Effects.Proofs.Run.Loop

/-!
A run comes to its end exactly where the computation it runs has one, with the same exit and after
the same calls.
-/

namespace Effects

variable {hosts : Hosts} {w w₁ w' : World} {s : Spot} {c c' : ConnectionId}
  {calls calls' : List Code} {d : Except String Reply} {n k : Nat} {next : List Cont}
  {res : Except String Answer} {node inner : Node} {e : Ending}

namespace Machine

theorem drives_pure {v : Value} :
    (Machine.focus (.pure v) next).Drives hosts n w s.place (s.run c) calls d w' ↔
      ∃ k, n = k + 1 ∧
        Continues hosts c k next w (.ok (.completed v, s.arrive hosts w)) calls d w' := by
  rw [drives_step (by simp)]
  simp [Machine.step, Continues]

theorem drives_raise {v : Value} :
    (Machine.focus (.raise v) next).Drives hosts n w s.place (s.run c) calls d w' ↔
      ∃ k, n = k + 1 ∧
        Continues hosts c k next w (.ok (.errored v, s.arrive hosts w)) calls d w' := by
  rw [drives_step (by simp)]
  simp [Machine.step, Continues]

theorem drives_loop {body : Value → Node} {seed : Value} :
    (Machine.focus (.loop body seed) next).Drives hosts n w s.place (s.run c) calls d w' ↔
      ∃ k, n = k + 1 ∧
        (Machine.focus (.flatMap (body seed) fun v => .build (nextRound body v)) next).Drives hosts
          k w s.place (s.run c) calls d w' :=
  drives_go fun _ => rfl

theorem drives_first (hosts : Hosts) (h : node.first? c = some (c', inner)) (next : List Cont) :
    ∃ cont, ∀ {n w calls d w'} {s : Spot},
      (Machine.focus node next).Drives hosts n w s.place (s.run c) calls d w' ↔
        ∃ k, n = k + 1 ∧
          (Machine.focus inner (cont :: next)).Drives hosts k w s.place (s.run c') calls d w' := by
  cases node <;> simp only [Node.first?, Option.some.injEq, Prod.mk.injEq, reduceCtorEq] at h <;>
    obtain ⟨rfl, rfl⟩ := h
  · exact ⟨_, drives_go fun _ => rfl⟩
  · exact ⟨_, drives_go fun _ => rfl⟩
  · exact ⟨_, drives_go fun _ => rfl⟩
  · exact ⟨_, drives_go fun _ => rfl⟩
  · exact ⟨.restore c, drives_go fun _ => rfl⟩

end Machine

namespace Computes

theorem error_iff {message : String} (h : res.bind Answer.computation = .error message) :
    Computes hosts c n next w s res calls d w' ↔
      Continues hosts c n next w (.error message) calls d w' := by
  rw [Computes, h]

theorem node_iff (h : res.bind Answer.computation = .ok (.inl node)) :
    Computes hosts c n next w s res calls d w' ↔
      (Machine.focus node next).Drives hosts n w s.place (s.run c) calls d w' := by
  rw [Computes, h]

theorem exit_iff {exit : Exit} (h : res.bind Answer.computation = .ok (.inr exit)) :
    Computes hosts c n next w s res calls d w' ↔
      Continues hosts c n next w (.ok (exit, s)) calls d w' := by
  rw [Computes, h]

end Computes

theorem Continues.error_any {message : String} {next' : List Cont} {c' : ConnectionId}
    (h : Continues hosts c n next w (.error message) calls d w') :
    Continues hosts c' n next' w (.error message) calls d w' := h

theorem Waits.calls_eq {register : LatchId → Code} {here : Place} {r : Except String Exit}
    (h : Waits hosts c register w here calls r w') :
    ∃ rest, calls = (if w.isCanceled c then [] else [register w.latches.size]) ++ rest := by
  cases h with
  | canceled h => exact ⟨[], by simp [h]⟩
  | _ => simp [*]

/-- A computation alone, from how it goes on above any continuations. -/
theorem Ending.walk
    (h : ∀ {next k calls' d w'}, Continues hosts c k next w₁ e calls' d w' →
      ∃ n, (Machine.focus node next).Drives hosts n w s.place (s.run c) (calls ++ calls') d w') :
    ∃ n, Walk hosts n w s.place ⟨.drive (.focus node []) (s.run c), []⟩ calls w₁
      ⟨.answering (e.answer c), []⟩ := by
  obtain ⟨n, hn⟩ := h (Continues.nil_iff.2 ⟨rfl, rfl, rfl, rfl⟩)
  rw [List.append_nil] at hn
  exact ⟨n, Machine.drives_result_iff.1 hn⟩

namespace Machine

variable {s₁ t : Spot} {cont : Cont} {exit : Exit} {b : ConnectionId}

/-- A computation whose first part ends with an exit that a closure is called for. -/
theorem drives_called {code : Code}
    (hgo : ∀ env, (Machine.focus node next).step env (s.run c) =
      .go (.focus inner (cont :: next)) (s.run b))
    (hinto : ∀ env, Machine.resume env exit (cont :: next) (s₁.run b) =
      Machine.continueInto env code next (s₁.run c))
    (ih : ∀ {next k calls' d w'}, Continues hosts b k next w₁ (.ok (exit, s₁)) calls' d w' →
      ∃ n, (Machine.focus inner next).Drives hosts n w s.place (s.run b) (calls ++ calls') d w')
    (hf : (Machine.focus (.suspend code) next).Drives hosts n w₁ s₁.place (s₁.run c) calls' d
      w') :
    ∃ n, (Machine.focus node next).Drives hosts n w s.place (s.run c) (calls ++ calls') d w' := by
  obtain ⟨i, hi⟩ := Continues.exists_into hf
  have hnext : Continues hosts b i (cont :: next) w₁ (.ok (exit, s₁)) calls' d w' := by
    rw [Continues, hinto]
    exact hi
  obtain ⟨j, hj⟩ := ih hnext
  exact ⟨j + 1, (drives_go hgo).2 ⟨j, rfl, hj⟩⟩

/-- A computation whose first part ends with an exit that only passes on. -/
theorem drives_passed
    (hgo : ∀ env, (Machine.focus node next).step env (s.run c) =
      .go (.focus inner (cont :: next)) (s.run b))
    (ht : t.place = s₁.place)
    (hpass : ∀ env, Machine.resume env exit (cont :: next) (s₁.run b) =
      .go (.unwind exit next) (t.run c))
    (ih : ∀ {next k calls' d w'}, Continues hosts b k next w₁ (.ok (exit, s₁)) calls' d w' →
      ∃ n, (Machine.focus inner next).Drives hosts n w s.place (s.run b) (calls ++ calls') d w')
    (hk : Continues hosts c k next w₁ (.ok (exit, t.arrive hosts w₁)) calls' d w') :
    ∃ n, (Machine.focus node next).Drives hosts n w s.place (s.run c) (calls ++ calls') d w' := by
  obtain ⟨j, hj⟩ := ih ((Continues.pass_iff ht hpass).2 ⟨k, rfl, hk⟩)
  exact ⟨j + 1, (drives_go hgo).2 ⟨j, rfl, hj⟩⟩

end Machine

/-- The computation in focus ends, and then what is left of the way begins. -/
theorem Node.Ends.drives (h : node.Ends hosts c w s calls e w₁)
    (hk : Continues hosts c k next w₁ e calls' d w') :
    ∃ n, (Machine.focus node next).Drives hosts n w s.place (s.run c) (calls ++ calls') d w' := by
  induction h generalizing next k calls' d w' with
  | pure => exact ⟨k + 1, Machine.drives_pure.2 ⟨k, rfl, hk⟩⟩
  | raise => exact ⟨k + 1, Machine.drives_raise.2 ⟨k, rfl, hk⟩⟩
  | suspend_panics h hr =>
    obtain ⟨m, hm⟩ := h
    exact ⟨_, Machine.drives_suspend.2
      ⟨_, m, k, _, _, _, rfl, rfl, hm, (Computes.error_iff hr).2 hk⟩⟩
  | suspend_exits h hr =>
    obtain ⟨m, hm⟩ := h
    exact ⟨_, Machine.drives_suspend.2
      ⟨_, m, k, _, _, _, rfl, rfl, hm, (Computes.exit_iff hr).2 hk⟩⟩
  | suspend h hr _ ih =>
    obtain ⟨m, hm⟩ := h
    obtain ⟨j, hj⟩ := ih hk
    exact ⟨_, Machine.drives_suspend.2
      ⟨_, m, j, _, _, _, rfl, by simp, hm, (Computes.node_iff hr).2 hj⟩⟩
  | async h =>
    obtain ⟨rest, rfl⟩ := h.calls_eq
    obtain ⟨m, hm⟩ := Code.Answers.suspend_iff.2 ⟨_, rfl, h⟩
    exact ⟨_, Machine.drives_async.2
      ⟨_, m, k, _, rest, calls', rfl, List.append_assoc _ _ _, hm, hk⟩⟩
  | first_panics h _ ih =>
    obtain ⟨cont, hfirst⟩ := Machine.drives_first hosts h next
    obtain ⟨j, hj⟩ := ih hk.error_any
    exact ⟨j + 1, hfirst.2 ⟨j, rfl, hj⟩⟩
  | map _ _ ih ihf =>
    obtain ⟨i, hi⟩ := ihf hk
    rw [List.append_assoc]
    exact Machine.drives_called (fun _ => rfl) (fun _ => rfl) ih hi
  | flatMap _ _ ih ihf =>
    obtain ⟨i, hi⟩ := ihf hk
    rw [List.append_assoc]
    exact Machine.drives_called (fun _ => rfl) (fun _ => rfl) ih hi
  | recover _ _ ih ihf =>
    obtain ⟨i, hi⟩ := ihf hk
    rw [List.append_assoc]
    exact Machine.drives_called (fun _ => rfl) (fun _ => rfl) ih hi
  | @map_passes _ _ _ _ _ _ exit _ _ he _ ih =>
    cases exit with
    | completed v => cases he
    | errored error => exact Machine.drives_passed (fun _ => rfl) rfl (fun _ => rfl) ih hk
    | canceled => exact Machine.drives_passed (fun _ => rfl) rfl (fun _ => rfl) ih hk
  | @flatMap_passes _ _ _ _ _ _ exit _ _ he _ ih =>
    cases exit with
    | completed v => cases he
    | errored error => exact Machine.drives_passed (fun _ => rfl) rfl (fun _ => rfl) ih hk
    | canceled => exact Machine.drives_passed (fun _ => rfl) rfl (fun _ => rfl) ih hk
  | @recover_passes _ _ _ _ _ _ exit _ _ he _ ih =>
    cases exit with
    | completed v => exact Machine.drives_passed (fun _ => rfl) rfl (fun _ => rfl) ih hk
    | errored error => cases he
    | canceled => exact Machine.drives_passed (fun _ => rfl) rfl (fun _ => rfl) ih hk
  | @continueOn _ _ target _ _ _ _ s₁ _ _ ih =>
    exact Machine.drives_passed (t := ⟨s₁.place, target⟩) (fun _ => rfl) (Eq.refl s₁.place)
      (fun _ => rfl) ih hk
  | uncancelable _ ih =>
    exact Machine.drives_passed (b := .uncancelable) (fun _ => rfl) rfl (fun _ => rfl) ih hk
  | bracket_canceled h =>
    refine ⟨k + 1, Machine.drives_bracket.2 ⟨k, rfl, ?_⟩⟩
    rw [if_pos h]
    exact hk
  | acquire_panics h _ ih =>
    obtain ⟨m, hm⟩ := Ending.walk ih
    refine ⟨m + k + 1, Machine.drives_bracket.2 ⟨m + k, rfl, ?_⟩⟩
    rw [if_neg (by simp [h])]
    exact Transition.goes_enter.2 ⟨_, m, k, _, _, _, rfl, rfl, hm, Walk.acquired_iff.2 hk⟩
  | @acquire_passes _ _ _ _ _ _ _ exit _ _ h he _ ih =>
    obtain ⟨m, hm⟩ := Ending.walk ih
    refine ⟨m + k + 1, Machine.drives_bracket.2 ⟨m + k, rfl, ?_⟩⟩
    rw [if_neg (by simp [h])]
    refine Transition.goes_enter.2 ⟨_, m, k, _, _, _, rfl, rfl, hm, Walk.acquired_iff.2 ?_⟩
    cases exit <;> first | exact hk | cases he
  | bracket h _ _ ih ihu =>
    obtain ⟨m, hm⟩ := Ending.walk ih
    obtain ⟨j, hj⟩ := ihu hk
    refine ⟨m + j + 1, Machine.drives_bracket.2 ⟨m + j, rfl, ?_⟩⟩
    rw [if_neg (by simp [h]), List.append_assoc]
    exact Transition.goes_enter.2 ⟨_, m, j, _, _, _, rfl, rfl, hm, Walk.acquired_iff.2 hj⟩
  | use_canceled h _ ih =>
    obtain ⟨j, hj⟩ := ih hk
    refine ⟨j + 1, Machine.drives_bracketUse.2 ⟨j, rfl, ?_⟩⟩
    rw [if_pos h]
    exact hj
  | use_misused h hu hr =>
    obtain ⟨m, hm⟩ := hu
    refine ⟨m + k + 1, Machine.drives_bracketUse.2 ⟨m + k, rfl, ?_⟩⟩
    rw [if_neg (by simp [h])]
    refine Transition.goes_call.2 ⟨_, m, k, _, _, calls', rfl, rfl, hm, Walk.opened_iff.2 ?_⟩
    rw [hr]
    exact hk
  | @use_panics _ _ _ _ _ _ _ _ _ _ calls₁ _ _ h hu hr _ ih =>
    obtain ⟨m, hm⟩ := hu
    obtain ⟨j, hj⟩ := Ending.walk ih
    refine ⟨m + (j + k) + 1, Machine.drives_bracketUse.2 ⟨m + (j + k), rfl, ?_⟩⟩
    rw [if_neg (by simp [h])]
    refine Transition.goes_call.2
      ⟨_, m, j + k, _, _, calls₁ ++ calls', rfl, by simp, hm, Walk.opened_iff.2 ?_⟩
    rw [hr]
    exact (Walk.above_iff (a := ⟨.drive (.focus _ []) _, []⟩) rfl).2
      ⟨_, j, k, _, _, _, rfl, rfl, hj, Walk.used_iff.2 hk⟩
  | @use _ _ _ _ _ _ _ _ _ _ calls₁ _ _ _ calls₂ _ _ h hu hr _ _ ih ihr =>
    obtain ⟨m, hm⟩ := hu
    obtain ⟨j, hj⟩ := Ending.walk ih
    obtain ⟨i, hi⟩ := ihr hk
    refine ⟨m + (j + i) + 1, Machine.drives_bracketUse.2 ⟨m + (j + i), rfl, ?_⟩⟩
    rw [if_neg (by simp [h])]
    refine Transition.goes_call.2
      ⟨_, m, j + i, _, _, calls₁ ++ (calls₂ ++ calls'), rfl, by simp, hm, Walk.opened_iff.2 ?_⟩
    rw [hr]
    exact (Walk.above_iff (a := ⟨.drive (.focus _ []) _, []⟩) rfl).2
      ⟨_, j, i, _, _, _, rfl, rfl, hj, Walk.used_iff.2 hi⟩
  | release_panics _ ih =>
    obtain ⟨m, hm⟩ := Ending.walk ih
    exact ⟨m + k + 1, Machine.drives_bracketRelease.2 ⟨m + k, rfl, Transition.goes_enter.2
      ⟨_, m, k, _, _, _, rfl, rfl, hm, Walk.released_iff.2 hk⟩⟩⟩
  | release _ ih =>
    obtain ⟨m, hm⟩ := Ending.walk ih
    exact ⟨m + k + 1, Machine.drives_bracketRelease.2 ⟨m + k, rfl, Transition.goes_enter.2
      ⟨_, m, k, _, _, _, rfl, rfl, hm, Walk.released_iff.2 hk⟩⟩⟩
  | instrument_panics _ ih =>
    obtain ⟨m, hm⟩ := Ending.walk ih
    exact ⟨m + k + 1, Machine.drives_instrument.2 ⟨m + k, rfl, Transition.goes_enter.2
      ⟨_, m, k, _, _, _, rfl, rfl, hm, Walk.instrumented_iff.2 hk⟩⟩⟩
  | instrument _ ih =>
    obtain ⟨m, hm⟩ := Ending.walk ih
    exact ⟨m + k + 1, Machine.drives_instrument.2 ⟨m + k, rfl, Transition.goes_enter.2
      ⟨_, m, k, _, _, _, rfl, rfl, hm, Walk.instrumented_iff.2 hk⟩⟩⟩
  | loop _ ih =>
    obtain ⟨j, hj⟩ := ih hk
    exact ⟨j + 1, Machine.drives_loop.2 ⟨j, rfl, hj⟩⟩
  | parMap _ ih =>
    obtain ⟨j, hj⟩ := ih hk
    exact ⟨j, Machine.drives_parMap.2 hj⟩
  | parSequence _ ih =>
    obtain ⟨j, hj⟩ := ih hk
    exact ⟨j, Machine.drives_parSequence.2 hj⟩

/-- The way of a machine to the end begins with the end of the computation in focus. -/
def Parts (hosts : Hosts) (n : Nat) (c : ConnectionId) (node : Node) (w : World) (s : Spot)
    (next : List Cont) (calls : List Code) (d : Except String Reply) (w' : World) : Prop :=
  ∃ e w₁ calls₁ calls₂ k, k < n ∧ calls = calls₁ ++ calls₂ ∧
    node.Ends hosts c w s calls₁ e w₁ ∧ Continues hosts c k next w₁ e calls₂ d w'

/-- The ways of fewer than `n` steps of machines all do. -/
def PartsBelow (hosts : Hosts) (n : Nat) : Prop :=
  ∀ m < n, ∀ {c node w s next calls d w'},
    (Machine.focus node next).Drives hosts m w s.place (s.run c) calls d w' →
      Parts hosts m c node w s next calls d w'

namespace PartsBelow

variable (ih : PartsBelow hosts n)

include ih

theorem nested {m : Nat} (hm : m < n)
    (h : Walk hosts m w s.place ⟨.drive (.focus node []) (s.run c), []⟩ calls w'
      ⟨.answering res, []⟩) :
    ∃ e, res = e.answer c ∧ node.Ends hosts c w s calls e w' := by
  obtain ⟨e, w₁, calls₁, calls₂, k, -, rfl, he, hk⟩ := ih m hm (Walk.ended_of_answering res h)
  obtain ⟨-, rfl, rfl, hd⟩ := Continues.nil_iff.1 hk
  rw [List.append_nil]
  exact ⟨e, ending_eq_result hd, he⟩

theorem of_call {thunk : Code}
    (h : (Machine.focus (.suspend thunk) next).Drives hosts n w s.place (s.run c) calls d w') :
    Parts hosts n c (.suspend thunk) w s next calls d w' := by
  obtain ⟨res, m, k, w₁, calls₁, calls₂, rfl, rfl, hm, hk⟩ := Machine.drives_suspend.1 h
  cases hres : res.bind Answer.computation with
  | error message =>
    rw [Computes.error_iff hres] at hk
    exact ⟨_, _, _, _, k, by omega, rfl, .suspend_panics ⟨m, hm⟩ hres, hk⟩
  | ok answer =>
    cases answer with
    | inl node =>
      rw [Computes.node_iff hres] at hk
      obtain ⟨e, w₂, calls₃, calls₄, j, hj, rfl, he, hj'⟩ := ih k (by omega) hk
      exact ⟨e, w₂, _, calls₄, j, by omega, by simp, .suspend ⟨m, hm⟩ hres he, hj'⟩
    | inr exit =>
      rw [Computes.exit_iff hres] at hk
      exact ⟨_, _, _, _, k, by omega, rfl, .suspend_exits ⟨m, hm⟩ hres, hk⟩

/-- A closure called by a continuation. -/
theorem of_into {code : Code} {m : Nat} (hm : m + 1 < n)
    (h : (Machine.continueInto (w.surroundings s.place.home) code next (s.run c)).Goes hosts m w
      s.place calls d w') :
    Parts hosts n c (.suspend code) w s next calls d w' := by
  obtain ⟨j, hj, hd⟩ := Continues.into_iff.1 h
  have hjn : j < n := by
    split at hj <;> omega
  obtain ⟨e, w₁, calls₁, calls₂, k, hk, hcalls, he, hnext⟩ := ih j hjn hd
  exact ⟨e, w₁, calls₁, calls₂, k, by omega, hcalls, he, hnext⟩

/-- A computation with a first part, from what becomes of each exit of that part. -/
theorem of_sequence {cont : Cont} {b : ConnectionId}
    (hgo : ∀ env, (Machine.focus node next).step env (s.run c) =
      .go (.focus inner (cont :: next)) (s.run b))
    (hpanic : ∀ {message calls w₁}, inner.Ends hosts b w s calls (.error message) w₁ →
      node.Ends hosts c w s calls (.error message) w₁)
    (hexit : ∀ exit s₁ calls w₁, inner.Ends hosts b w s calls (.ok (exit, s₁)) w₁ →
      (∃ code, (∀ env, Machine.resume env exit (cont :: next) (s₁.run b) =
          Machine.continueInto env code next (s₁.run c)) ∧
        ∀ {calls' e w₂}, (Node.suspend code).Ends hosts c w₁ s₁ calls' e w₂ →
          node.Ends hosts c w s (calls ++ calls') e w₂) ∨
      ∃ t : Spot, t.place = s₁.place ∧
        (∀ env, Machine.resume env exit (cont :: next) (s₁.run b) =
          .go (.unwind exit next) (t.run c)) ∧
        node.Ends hosts c w s calls (.ok (exit, t.arrive hosts w₁)) w₁)
    (h : (Machine.focus node next).Drives hosts n w s.place (s.run c) calls d w') :
    Parts hosts n c node w s next calls d w' := by
  obtain ⟨m, rfl, hm⟩ := (Machine.drives_go hgo).1 h
  obtain ⟨e, w₁, calls₁, calls₂, k, hk, rfl, he, hnext⟩ := ih m (by omega) hm
  rcases e with message | ⟨exit, s₁⟩
  · exact ⟨_, w₁, calls₁, calls₂, k, by omega, rfl, hpanic he, hnext⟩
  · rcases hexit exit s₁ calls₁ w₁ he with ⟨code, hinto, hends⟩ | ⟨t, ht, hpass, hends⟩
    · rw [Continues, hinto] at hnext
      obtain ⟨e, w₂, calls₃, calls₄, j, hj, rfl, hf, hnext⟩ := ih.of_into (by omega) hnext
      exact ⟨e, w₂, _, calls₄, j, hj, (List.append_assoc _ _ _).symm, hends hf, hnext⟩
    · obtain ⟨j, rfl, hj⟩ := (Continues.pass_iff ht hpass).1 hnext
      exact ⟨_, w₁, calls₁, calls₂, j, by omega, rfl, hends, hj⟩

end PartsBelow

theorem Machine.Drives.parts
    (h : (Machine.focus node next).Drives hosts n w s.place (s.run c) calls d w') :
    Parts hosts n c node w s next calls d w' := by
  induction n using Nat.strongRecOn generalizing c node w s next calls d w' with
  | ind n rec =>
  have ih : PartsBelow hosts n := fun m hm _ _ _ _ _ _ _ _ hd => rec m hm hd
  cases node with
  | pure v =>
    obtain ⟨k, rfl, hk⟩ := Machine.drives_pure.1 h
    exact ⟨_, w, [], calls, k, by omega, rfl, .pure, hk⟩
  | raise error =>
    obtain ⟨k, rfl, hk⟩ := Machine.drives_raise.1 h
    exact ⟨_, w, [], calls, k, by omega, rfl, .raise, hk⟩
  | suspend thunk => exact ih.of_call h
  | async register =>
    obtain ⟨result, m, k, w₁, calls₁, calls₂, rfl, rfl, hm, hk⟩ := Machine.drives_async.1 h
    obtain ⟨result', hres, hw⟩ := Code.Answers.suspend_iff.1 ⟨m, hm⟩
    obtain rfl : result = result' := by
      cases result <;> cases result' <;> simp_all [Except.map]
    exact ⟨_, w₁, _, calls₂, k, by omega, (List.append_assoc _ _ _).symm, .async hw, hk⟩
  | map inner f =>
    refine ih.of_sequence (fun _ => rfl) (.first_panics rfl) ?_ h
    rintro (v | error | _) s₁ calls₁ w₁ he
    · exact .inl ⟨f v, fun _ => rfl, .map he⟩
    · exact .inr ⟨s₁, rfl, fun _ => rfl, .map_passes rfl he⟩
    · exact .inr ⟨s₁, rfl, fun _ => rfl, .map_passes rfl he⟩
  | flatMap inner f =>
    refine ih.of_sequence (fun _ => rfl) (.first_panics rfl) ?_ h
    rintro (v | error | _) s₁ calls₁ w₁ he
    · exact .inl ⟨f v, fun _ => rfl, .flatMap he⟩
    · exact .inr ⟨s₁, rfl, fun _ => rfl, .flatMap_passes rfl he⟩
    · exact .inr ⟨s₁, rfl, fun _ => rfl, .flatMap_passes rfl he⟩
  | handleErrorWith inner f =>
    refine ih.of_sequence (fun _ => rfl) (.first_panics rfl) ?_ h
    rintro (v | error | _) s₁ calls₁ w₁ he
    · exact .inr ⟨s₁, rfl, fun _ => rfl, .recover_passes rfl he⟩
    · exact .inl ⟨f error, fun _ => rfl, .recover he⟩
    · exact .inr ⟨s₁, rfl, fun _ => rfl, .recover_passes rfl he⟩
  | continueOn inner target =>
    refine ih.of_sequence (fun _ => rfl) (.first_panics rfl) ?_ h
    intro exit s₁ calls₁ w₁ he
    exact .inr ⟨⟨s₁.place, target⟩, rfl, fun _ => rfl, .continueOn he⟩
  | uncancelable inner =>
    refine ih.of_sequence (b := .uncancelable) (fun _ => rfl) (.first_panics rfl) ?_ h
    intro exit s₁ calls₁ w₁ he
    exact .inr ⟨s₁, rfl, fun _ => rfl, .uncancelable he⟩
  | bracket acquire use release =>
    obtain ⟨m, rfl, hm⟩ := Machine.drives_bracket.1 h
    cases hc : w.isCanceled c with
    | true =>
      rw [if_pos hc] at hm
      exact ⟨_, w, [], calls, m, by omega, rfl, .bracket_canceled hc, hm⟩
    | false =>
      rw [if_neg (by simp [hc])] at hm
      obtain ⟨res, i, j, w₁, calls₁, calls₂, rfl, rfl, hi, hj⟩ := Transition.goes_enter.1 hm
      obtain ⟨e, rfl, he⟩ := ih.nested (by omega) hi
      rw [Walk.acquired_iff] at hj
      rcases e with message | ⟨resource | error | _, s₁⟩
      · exact ⟨_, w₁, calls₁, calls₂, j, by omega, rfl, .acquire_panics hc he, hj⟩
      · obtain ⟨e, w₂, calls₃, calls₄, k, hk, rfl, hu, hnext⟩ :=
          ih j (by omega) (s := (s.arrive hosts w).back s₁) hj
        exact ⟨e, w₂, _, calls₄, k, by omega, (List.append_assoc _ _ _).symm, .bracket hc he hu,
          hnext⟩
      · exact ⟨_, w₁, calls₁, calls₂, j, by omega, rfl, .acquire_passes hc rfl he, hj⟩
      · exact ⟨_, w₁, calls₁, calls₂, j, by omega, rfl, .acquire_passes hc rfl he, hj⟩
  | bracketUse resource use release =>
    obtain ⟨m, rfl, hm⟩ := Machine.drives_bracketUse.1 h
    cases hc : w.isCanceled c with
    | true =>
      rw [if_pos hc] at hm
      obtain ⟨e, w₁, calls₁, calls₂, k, hk, rfl, he, hnext⟩ := ih m (by omega) hm
      exact ⟨e, w₁, calls₁, calls₂, k, by omega, rfl, .use_canceled hc he, hnext⟩
    | false =>
      rw [if_neg (by simp [hc])] at hm
      obtain ⟨res, i, j, w₁, calls₁, calls₂, rfl, rfl, hi, hj⟩ := Transition.goes_call.1 hm
      rw [Walk.opened_iff] at hj
      cases hres : res.bind Answer.use with
      | error message =>
        rw [hres] at hj
        exact ⟨.error message, w₁, _, calls₂, j, by omega, rfl, .use_misused hc ⟨i, hi⟩ hres, hj⟩
      | ok node =>
        rw [hres] at hj
        obtain ⟨res', i', k, w₂, calls₃, calls₄, rfl, rfl, hi', hk⟩ :=
          (Walk.above_iff (a := ⟨.drive (.focus node []) _, []⟩) rfl).1 hj
        obtain ⟨e, rfl, he⟩ := ih.nested (by omega) hi'
        rw [Walk.used_iff] at hk
        rcases e with message | ⟨exit, s₁⟩
        · exact ⟨_, w₂, _, calls₄, k, by omega, by simp, .use_panics hc ⟨i, hi⟩ hres he, hk⟩
        · obtain ⟨e, w₃, calls₅, calls₆, l, hl, rfl, hr, hnext⟩ :=
            ih k (by omega) (s := (s.arrive hosts w).back s₁) hk
          exact ⟨e, w₃, _, calls₆, l, by omega, by simp, .use hc ⟨i, hi⟩ hres he hr, hnext⟩
  | bracketRelease finalizer exit =>
    obtain ⟨m, rfl, hm⟩ := Machine.drives_bracketRelease.1 h
    obtain ⟨res, i, j, w₁, calls₁, calls₂, rfl, rfl, hi, hj⟩ := Transition.goes_enter.1 hm
    obtain ⟨e, rfl, he⟩ := ih.nested (by omega) hi
    rw [Walk.released_iff] at hj
    rcases e with message | ⟨ignored, s₁⟩
    · exact ⟨_, w₁, calls₁, calls₂, j, by omega, rfl, .release_panics he, hj⟩
    · exact ⟨_, w₁, calls₁, calls₂, j, by omega, rfl, .release he, hj⟩
  | instrument inner =>
    obtain ⟨m, rfl, hm⟩ := Machine.drives_instrument.1 h
    obtain ⟨res, i, j, w₁, calls₁, calls₂, rfl, rfl, hi, hj⟩ := Transition.goes_enter.1 hm
    obtain ⟨e, rfl, he⟩ := ih.nested (by omega) hi
    rw [Walk.instrumented_iff] at hj
    rcases e with message | ⟨exit, s₁⟩
    · exact ⟨_, w₁, calls₁, calls₂, j, by omega, rfl, .instrument_panics he, hj⟩
    · exact ⟨_, w₁, calls₁, calls₂, j, by omega, rfl, .instrument he, hj⟩
  | parMap branches combine =>
    obtain ⟨e, w₁, calls₁, calls₂, k, hk, hcalls, he, hnext⟩ :=
      ih.of_call (Machine.drives_parMap.1 h)
    exact ⟨e, w₁, calls₁, calls₂, k, hk, hcalls, .parMap he, hnext⟩
  | parSequence branches =>
    obtain ⟨e, w₁, calls₁, calls₂, k, hk, hcalls, he, hnext⟩ :=
      ih.of_call (Machine.drives_parSequence.1 h)
    exact ⟨e, w₁, calls₁, calls₂, k, hk, hcalls, .parSequence he, hnext⟩
  | loop body seed =>
    obtain ⟨m, rfl, hm⟩ := (Machine.drives_loop).1 h
    obtain ⟨e, w₁, calls₁, calls₂, k, hk, hcalls, he, hnext⟩ := ih m (by omega) hm
    exact ⟨e, w₁, calls₁, calls₂, k, by omega, hcalls, .loop he, hnext⟩

namespace Relay

/-- The start of a run at the spot. -/
def start (w : World) (s : Spot) (c : ConnectionId) (node : Node) : Relay :=
  ⟨w, s.place, ⟨.drive (.focus node []) (s.run c), []⟩, []⟩

/-- The run loop ends exactly where the computation has an end, and then with its exit, in its
context and after its calls. -/
theorem loop_agrees (hosts : Hosts) (w : World) (s : Spot) (c : ConnectionId) (node : Node)
    (calls : List Code) (d : Except String Reply) (w' : World) :
    (start w s c node).Ends hosts calls d w' ↔
      ∃ e, node.Ends hosts c w s calls e w' ∧ d = e.result c := by
  rw [start, ends_iff (Activity.proper_of_ne (by simp))]
  constructor
  · rintro ⟨n, hn⟩
    obtain ⟨e, w₁, calls₁, calls₂, k, -, rfl, he, hk⟩ := Machine.Drives.parts hn
    obtain ⟨-, rfl, rfl, hd⟩ := Continues.nil_iff.1 hk
    rw [List.append_nil]
    exact ⟨e, he, hd⟩
  · rintro ⟨e, he, rfl⟩
    obtain ⟨n, hn⟩ := Ending.walk he.drives
    exact ⟨n, Machine.drives_result_iff.2 hn⟩

end Relay
end Effects
