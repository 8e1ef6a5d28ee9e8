import Effects.Proofs.Run.Waits

/-!
The run loop and the direct reading of a computation come to the same end.
-/

namespace Effects

variable {hosts : Hosts} {w w₁ w' : World} {here : Place} {s : Spot} {c : ConnectionId}
  {calls : List Code} {d : Except String Reply} {n : Nat} {next : List Cont} {machine : Machine}
  {res : Except String Answer} {node : Node} {e : Ending}

/-- What is left of the way to the end when a closure has answered to a machine. -/
def Computes (hosts : Hosts) (c : ConnectionId) (n : Nat) (next : List Cont) (w : World) (s : Spot)
    (res : Except String Answer) (calls : List Code) (d : Except String Reply) (w' : World) :
    Prop :=
  match res.bind Answer.computation with
  | .error message => Continues hosts c n next w (.error message) calls d w'
  | .ok (.inl node) => (Machine.focus node next).Drives hosts n w s.place (s.run c) calls d w'
  | .ok (.inr exit) => Continues hosts c n next w (.ok (exit, s)) calls d w'

namespace Machine

/-- A machine that calls a closure for a computation. -/
theorem drives_call {code : Code} (hm : ∀ register next, machine ≠ .focus (.async register) next)
    (h : ∀ env, machine.step env (s.run c) = .call code (.node next (s.run c))) :
    machine.Drives hosts n w s.place (s.run c) calls d w' ↔
      ∃ res m k w₁ calls₁ calls₂, m + k + 1 = n ∧ calls = code :: (calls₁ ++ calls₂) ∧
        Walk hosts m w (s.arrive hosts w).place ⟨.code code, []⟩ calls₁ w₁ ⟨.answering res, []⟩ ∧
        Computes hosts c k next w₁ (s.arrive hosts w) res calls₂ d w' := by
  have hanswer : ∀ {k w₁ calls₂ res}, Walk hosts k w₁ (s.arrive hosts w).place
      ⟨.answering res, [.node next (s.run c)]⟩ calls₂ w' ⟨.ended d, []⟩ ↔
      Computes hosts c k next w₁ (s.arrive hosts w) res calls₂ d w' := by
    intro k w₁ calls₂ res
    rw [Walk.computed_iff, Computes]
    rcases res.bind Answer.computation with message | (node | exit) <;> simp [Continues]
  rw [drives_step hm]
  simp only [h, Transition.goes_call, hanswer]
  constructor
  · rintro ⟨_, rfl, res, m, k, w₁, calls₁, calls₂, rfl, hcalls, hm, hk⟩
    exact ⟨res, m, k, w₁, calls₁, calls₂, rfl, hcalls, hm, hk⟩
  · rintro ⟨res, m, k, w₁, calls₁, calls₂, rfl, hcalls, hm, hk⟩
    exact ⟨m + k, rfl, res, m, k, w₁, calls₁, calls₂, rfl, hcalls, hm, hk⟩

theorem drives_suspend {thunk : Code} :
    (Machine.focus (.suspend thunk) next).Drives hosts n w s.place (s.run c) calls d w' ↔
      ∃ res m k w₁ calls₁ calls₂, m + k + 1 = n ∧ calls = thunk :: (calls₁ ++ calls₂) ∧
        Walk hosts m w (s.arrive hosts w).place ⟨.code thunk, []⟩ calls₁ w₁
          ⟨.answering res, []⟩ ∧
        Computes hosts c k next w₁ (s.arrive hosts w) res calls₂ d w' :=
  drives_call (by simp) fun _ => rfl

/-- A group runs as a closure that starts its branches and waits for them. -/
theorem drives_parMap {branches : List Node} {combine : List Value → Code} :
    (Machine.focus (.parMap branches combine) next).Drives hosts n w s.place (s.run c) calls d
        w' ↔
      (Machine.focus (.suspend (Group.code branches combine (s.run c))) next).Drives hosts n w
        s.place (s.run c) calls d w' := by
  rw [drives_suspend]
  exact drives_call (by simp) fun _ => rfl

theorem drives_parSequence {branches : List Node} :
    (Machine.focus (.parSequence branches) next).Drives hosts n w s.place (s.run c) calls d w' ↔
      (Machine.focus (.suspend (Group.code branches
        (fun vs => .give (.outcome (.completed (.arr vs)))) (s.run c))) next).Drives hosts n w
        s.place (s.run c) calls d w' := by
  rw [drives_suspend]
  exact drives_call (by simp) fun _ => rfl

theorem drives_async {register : LatchId → Code} :
    (Machine.focus (.async register) next).Drives hosts n w s.place (s.run c) calls d w' ↔
      ∃ (result : Except String Exit) (m k : Nat) (w₁ : World) (calls₁ calls₂ : List Code),
        m + k + 1 = n ∧
        calls = (if w.isCanceled c then [] else [register w.latches.size]) ++
          (calls₁ ++ calls₂) ∧
        Walk hosts m w (s.arrive hosts w).place
          ⟨.code (Routine.suspend register c fun exit => .give (.outcome exit)), []⟩ calls₁ w₁
          ⟨.answering (result.map fun exit => .reply (.outcome exit)), []⟩ ∧
        Continues hosts c k next w₁ (result.map (·, s.arrive hosts w)) calls₂ d w' := by
  have hanswer : ∀ {k w₁ calls₂} {result : Except String Exit}, Walk hosts k w₁
      (s.arrive hosts w).place
      ⟨.answering (result.map fun exit => .reply (.outcome exit)), [.node next (s.run c)]⟩ calls₂ w'
        ⟨.ended d, []⟩ ↔
      Continues hosts c k next w₁ (result.map (·, s.arrive hosts w)) calls₂ d w' := by
    intro k w₁ calls₂ result
    rw [Walk.computed_iff]
    cases result <;> simp [Except.bind, Except.map, Answer.computation, Continues]
  have habove : ∀ {k rest}, Walk hosts k w (s.arrive hosts w).place
      (Activity.atop ⟨.code (Routine.suspend register c fun exit => .give (.outcome exit)), []⟩
        [.node next (s.run c)]) rest w' ⟨.ended d, []⟩ ↔ _ := Walk.above_iff rfl
  rw [drives_calls]
  constructor
  · rintro ⟨_, rest, rfl, rfl, hw⟩
    obtain ⟨res, m, k, w₁, calls₁, calls₂, rfl, rfl, hm, hk⟩ := habove.1 hw
    obtain ⟨result, rfl, -⟩ := Code.Answers.suspend_iff.1 ⟨m, hm⟩
    exact ⟨result, m, k, w₁, calls₁, calls₂, rfl, rfl, hm, hanswer.1 hk⟩
  · rintro ⟨result, m, k, w₁, calls₁, calls₂, rfl, rfl, hm, hk⟩
    exact ⟨m + k, calls₁ ++ calls₂, rfl, rfl,
      habove.2 ⟨_, m, k, w₁, calls₁, calls₂, rfl, rfl, hm, hanswer.2 hk⟩⟩

theorem drives_bracket {acquire : Node} {use : Value → Code}
    {release : Value → ExitCase Value → Code} :
    (Machine.focus (.bracket acquire use release) next).Drives hosts n w s.place (s.run c) calls d
        w' ↔
      ∃ k, n = k + 1 ∧
        if w.isCanceled c then
          Continues hosts c k next w (.ok (.canceled, s.arrive hosts w)) calls d w'
        else
          (Transition.enter acquire ((s.arrive hosts w).run .uncancelable)
            (.acquiring use release c next)).Goes hosts k w (s.arrive hosts w).place calls d w' := by
  have hcanceled : ∀ home, (w.surroundings home).canceled c = w.isCanceled c := fun _ => rfl
  rw [drives_step (by simp)]
  cases hc : w.isCanceled c <;>
    simp [Machine.step, hcanceled, hc, Continues, shielded, Spot.run]

theorem drives_bracketUse {resource : Value} {use : Value → Code}
    {release : Value → ExitCase Value → Code} :
    (Machine.focus (.bracketUse resource use release) next).Drives hosts n w s.place (s.run c) calls
        d w' ↔
      ∃ k, n = k + 1 ∧
        if w.isCanceled c then
          (Machine.focus (.bracketRelease (.suspend (release resource .canceled)) .canceled)
            next).Drives hosts k w (s.arrive hosts w).place ((s.arrive hosts w).run c) calls d w'
        else
          (Transition.call (use resource)
            (.opening resource release next ((s.arrive hosts w).run c))).Goes hosts k w
            (s.arrive hosts w).place calls d w' := by
  have hcanceled : ∀ home, (w.surroundings home).canceled (s.run c).connection = w.isCanceled c :=
    fun _ => rfl
  rw [drives_step (by simp)]
  cases hc : w.isCanceled c <;> simp [Machine.step, hcanceled, hc, Transition.goes_go]

theorem drives_bracketRelease {finalizer : Node} {exit : Exit} :
    (Machine.focus (.bracketRelease finalizer exit) next).Drives hosts n w s.place (s.run c) calls d
        w' ↔
      ∃ k, n = k + 1 ∧
        (Transition.enter finalizer ((s.arrive hosts w).run .uncancelable)
          (.releasing exit c next)).Goes hosts k w (s.arrive hosts w).place calls d w' := by
  rw [drives_step (by simp)]
  simp [Machine.step, shielded, Spot.run]

theorem drives_instrument {inner : Node} :
    (Machine.focus (.instrument inner) next).Drives hosts n w s.place (s.run c) calls d w' ↔
      ∃ k, n = k + 1 ∧
        (Transition.enter inner ((s.arrive hosts w).run c) (.instrumented next)).Goes hosts k w
          (s.arrive hosts w).place calls d w' := by
  rw [drives_step (by simp)]
  simp [Machine.step]

end Machine

namespace Walk

variable {c' : ConnectionId} {use : Value → Code} {release : Value → ExitCase Value → Code}
  {resource : Value}

theorem acquired_iff :
    Walk hosts n w s.place ⟨.answering (e.answer c'), [.acquiring use release c next]⟩ calls w'
        ⟨.ended d, []⟩ ↔
      match e with
      | .error message => Continues hosts c n next w (.error message) calls d w'
      | .ok (.completed resource, t) =>
          (Machine.focus (.bracketUse resource use release) next).Drives hosts n w s.place
            ((s.back t).run c) calls d w'
      | .ok (exit, t) => Continues hosts c n next w (.ok (exit, s.back t)) calls d w' := by
  rcases e with message | ⟨_ | _ | _, t⟩
  · exact panicked_iff rfl
  · exact exited_iff rfl |>.trans Transition.goes_go
  · exact exited_iff rfl
  · exact exited_iff rfl

theorem used_iff :
    Walk hosts n w s.place ⟨.answering (e.answer c), [.using resource release next]⟩ calls w'
        ⟨.ended d, []⟩ ↔
      match e with
      | .error message => Continues hosts c n next w (.error message) calls d w'
      | .ok (exit, t) =>
          (Machine.focus (.bracketRelease (.suspend (release resource exit.exitCase)) exit)
            next).Drives hosts n w s.place ((s.back t).run c) calls d w' := by
  rcases e with message | ⟨exit, t⟩
  · exact panicked_iff rfl
  · exact exited_iff rfl |>.trans Transition.goes_go

theorem released_iff {exit : Exit} :
    Walk hosts n w s.place ⟨.answering (e.answer c'), [.releasing exit c next]⟩ calls w'
        ⟨.ended d, []⟩ ↔
      match e with
      | .error message => Continues hosts c n next w (.error message) calls d w'
      | .ok (_, t) => Continues hosts c n next w (.ok (exit, s.back t)) calls d w' := by
  rcases e with message | ⟨ignored, t⟩
  · exact panicked_iff rfl
  · exact exited_iff rfl

theorem instrumented_iff :
    Walk hosts n w s.place ⟨.answering (e.answer c), [.instrumented next]⟩ calls w'
        ⟨.ended d, []⟩ ↔
      match e with
      | .error message => Continues hosts c n next w (.error message) calls d w'
      | .ok (exit, t) => Continues hosts c n next w (.ok (exit, s.back t)) calls d w' := by
  rcases e with message | ⟨exit, t⟩
  · exact panicked_iff rfl
  · exact exited_iff rfl

end Walk
end Effects
