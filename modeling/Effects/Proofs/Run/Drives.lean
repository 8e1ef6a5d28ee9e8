import Effects.Proofs.Run.Ends

/-!
What one step of a machine, or one answer handed to a frame, leaves of the way to the end.
-/

namespace Effects

variable {hosts : Hosts} {w w₁ w' : World} {here : Place} {s : Spot} {c : ConnectionId}
  {calls : List Code} {d : Except String Reply} {n : Nat} {run : Run} {next : List Cont}
  {machine : Machine} {a b : Activity} {res : Except String Answer} {frame : Frame}

namespace Walk

theorem acts_iff (hacts : a.Acts w here) (hb : a ≠ b) :
    Walk hosts n w here a calls w' b ↔
      ∃ k rest, n = k + a.cost ∧ calls = w.calls here a ++ rest ∧
        Walk hosts k (w.act here a).1 here (w.act here a).2 rest w' b := by
  constructor
  · intro h
    cases h with
    | stay => exact absurd rfl hb
    | act _ rest => exact ⟨_, _, rfl, rfl, rest⟩
    | hop hn =>
      have hc : w.isCurrent here.home _ = true := hacts
      rw [hn] at hc
      cases hc
  · rintro ⟨k, rest, rfl, rfl, hw⟩
    exact .act hacts hw

theorem answering_iff (res : Except String Answer) :
    Walk hosts n w here ⟨.answering res, []⟩ calls w' ⟨.ended d, []⟩ ↔
      n = 0 ∧ calls = [] ∧ w' = w ∧ d = ending res := by
  constructor
  · intro h
    obtain ⟨rfl, rfl, rfl, hb | hb⟩ := of_answering h
    · rcases res with _ | (_ | _ | _) <;> simp [Control.answering] at hb
    · simp only [Activity.mk.injEq, Control.ended.injEq] at hb
      exact ⟨rfl, rfl, rfl, hb.1⟩
  · rintro ⟨rfl, rfl, rfl, rfl⟩
    exact ended_of_answering res (.stay _ _ _)

theorem above_iff (hb : b.stack = []) :
    Walk hosts n w here (a.atop [frame]) calls w' b ↔
      ∃ res m k w₁ calls₁ calls₂, m + k = n ∧ calls = calls₁ ++ calls₂ ∧
        Walk hosts m w here a calls₁ w₁ ⟨.answering res, []⟩ ∧
        Walk hosts k w₁ here ⟨.answering res, [frame]⟩ calls₂ w' b := by
  constructor
  · exact split (List.cons_ne_nil frame []) hb
  · rintro ⟨res, m, k, w₁, calls₁, calls₂, rfl, rfl, hm, hk⟩
    exact (hm.atop [frame]).trans hk

end Walk

/-- The machine, with nothing below it, ends its thread. -/
def Machine.Drives (hosts : Hosts) (n : Nat) (w : World) (here : Place) (m : Machine) (run : Run)
    (calls : List Code) (d : Except String Reply) (w' : World) : Prop :=
  Walk hosts n w here ⟨.drive m run, []⟩ calls w' ⟨.ended d, []⟩

/-- What a step of a machine comes to ends the thread. -/
def Transition.Goes (hosts : Hosts) (n : Nat) (w : World) (here : Place) (t : Transition)
    (calls : List Code) (d : Except String Reply) (w' : World) : Prop :=
  ∃ rest, calls = t.calls ++ rest ∧
    Walk hosts n w here (.after t []) rest w' ⟨.ended d, []⟩

namespace Walk

/-- An answer handed to a frame. -/
theorem handed_iff (hb : b.stack = []) :
    Walk hosts n w here ⟨.answering res, [frame]⟩ calls w' b ↔
      ∃ rest, calls = w.calls here ⟨.answering res, [frame]⟩ ++ rest ∧
        Walk hosts n w here (w.act here ⟨.answering res, [frame]⟩).2 rest w' b := by
  have hacts : (⟨.answering res, [frame]⟩ : Activity).Acts w here := by
    rcases res with _ | (_ | _ | _) <;> trivial
  have hcost : (⟨.answering res, [frame]⟩ : Activity).cost = 0 := by
    rcases res with _ | (_ | _ | _) <;> rfl
  have hworld : (w.act here ⟨.answering res, [frame]⟩).1 = w := by
    rcases res with _ | (_ | _ | _) <;> rfl
  have hne : (⟨.answering res, [frame]⟩ : Activity) ≠ b := by
    rintro rfl
    exact List.cons_ne_nil frame [] hb
  rw [acts_iff hacts hne, hcost, hworld]
  constructor
  · rintro ⟨k, rest, rfl, rfl, hw⟩
    exact ⟨rest, rfl, hw⟩
  · rintro ⟨rest, rfl, hw⟩
    exact ⟨n, rest, rfl, rfl, hw⟩

theorem error_iff {message : String} :
    Walk hosts n w here ⟨.unwinding message, []⟩ calls w' ⟨.ended d, []⟩ ↔
      n = 0 ∧ calls = [] ∧ w' = w ∧ d = .error message :=
  answering_iff (.error message)

/-- A panic that no frame catches. -/
theorem panicked_iff {message : String} (hf : frame.isCode = false) :
    Walk hosts n w here ⟨.unwinding message, [frame]⟩ calls w' ⟨.ended d, []⟩ ↔
      n = 0 ∧ calls = [] ∧ w' = w ∧ d = .error message := by
  have hact : (w.act here ⟨.unwinding message, [frame]⟩).2 = ⟨.unwinding message, []⟩ := by
    cases frame <;> first | rfl | simp [Frame.isCode] at hf
  have hcalls : w.calls here ⟨.unwinding message, [frame]⟩ = [] := rfl
  show Walk hosts n w here ⟨.answering (.error message), [frame]⟩ calls w' ⟨.ended d, []⟩ ↔ _
  rw [handed_iff rfl]
  simp only [Control.answering, hact, hcalls, List.nil_append, error_iff, exists_eq_left']

end Walk

namespace Transition

theorem goes_iff {t : Transition} (h : t.calls = []) : t.Goes hosts n w here calls d w' ↔
    Walk hosts n w here (.after t []) calls w' ⟨.ended d, []⟩ := by
  simp [Goes, h]

theorem goes_go : (Transition.go machine run).Goes hosts n w here calls d w' ↔
    machine.Drives hosts n w here run calls d w' :=
  goes_iff rfl

theorem goes_finished {exit : Exit} :
    (Transition.finished exit run).Goes hosts n w here calls d w' ↔
      n = 0 ∧ calls = [] ∧ w' = w ∧ d = .ok (.ended exit run) :=
  (goes_iff rfl).trans (Walk.answering_iff (.ok (.reply (.ended exit run))))

theorem goes_enter {node : Node} :
    (Transition.enter node run frame).Goes hosts n w here calls d w' ↔
      ∃ res m k w₁ calls₁ calls₂, m + k = n ∧ calls = calls₁ ++ calls₂ ∧
        Walk hosts m w here ⟨.drive (.focus node []) run, []⟩ calls₁ w₁ ⟨.answering res, []⟩ ∧
        Walk hosts k w₁ here ⟨.answering res, [frame]⟩ calls₂ w' ⟨.ended d, []⟩ :=
  (goes_iff rfl).trans (Walk.above_iff (a := ⟨.drive (.focus node []) run, []⟩) rfl)

theorem goes_call {code : Code} :
    (Transition.call code frame).Goes hosts n w here calls d w' ↔
      ∃ res m k w₁ calls₁ calls₂, m + k = n ∧ calls = code :: (calls₁ ++ calls₂) ∧
        Walk hosts m w here ⟨.code code, []⟩ calls₁ w₁ ⟨.answering res, []⟩ ∧
        Walk hosts k w₁ here ⟨.answering res, [frame]⟩ calls₂ w' ⟨.ended d, []⟩ := by
  have h : ∀ rest, Walk hosts n w here (Activity.atop ⟨.code code, []⟩ [frame]) rest w'
      ⟨.ended d, []⟩ ↔ _ := fun _ => Walk.above_iff rfl
  constructor
  · rintro ⟨rest, rfl, hw⟩
    obtain ⟨res, m, k, w₁, calls₁, calls₂, rfl, rfl, hm, hk⟩ := (h rest).1 hw
    exact ⟨res, m, k, w₁, calls₁, calls₂, rfl, rfl, hm, hk⟩
  · rintro ⟨res, m, k, w₁, calls₁, calls₂, rfl, rfl, hm, hk⟩
    exact ⟨_, rfl, (h _).2 ⟨res, m, k, w₁, calls₁, calls₂, rfl, rfl, hm, hk⟩⟩

end Transition

namespace Walk

/-- An exit handed to a frame in which a machine waits for it. -/
theorem exited_iff {exit : Exit} {t : Transition}
    (ht : frame.exited (w.surroundings here.home) exit run = some t) :
    Walk hosts n w here ⟨.code (.give (.ended exit run)), [frame]⟩ calls w' ⟨.ended d, []⟩ ↔
      t.Goes hosts n w here calls d w' := by
  have hcalls : w.calls here ⟨.code (.give (.ended exit run)), [frame]⟩ = t.calls := by
    simp [World.calls, ht]
  have hact : (w.act here ⟨.code (.give (.ended exit run)), [frame]⟩).2 = .after t [] := by
    cases frame <;> simp [Frame.exited] at ht <;>
      simp [World.act, Activity.close, Activity.reply, Activity.finish, Frame.exited, ht]
  show Walk hosts n w here ⟨.answering (.ok (.reply (.ended exit run))), [frame]⟩ calls w'
    ⟨.ended d, []⟩ ↔ _
  rw [handed_iff rfl]
  simp only [Control.answering, hact, hcalls]
  rfl

/-- The answer of a closure handed to the machine that waits for it. -/
theorem computed_iff :
    Walk hosts n w here ⟨.answering res, [.node next run]⟩ calls w' ⟨.ended d, []⟩ ↔
      match res.bind Answer.computation with
      | .error message => n = 0 ∧ calls = [] ∧ w' = w ∧ d = .error message
      | .ok (.inl node) => (Machine.focus node next).Drives hosts n w here run calls d w'
      | .ok (.inr exit) =>
          (Machine.resume (w.surroundings here.home) exit next run).Goes hosts n w here calls d
            w' := by
  have misused : ∀ {res message}, w.calls here ⟨.answering res, [.node next run]⟩ = [] →
      (w.act here ⟨.answering res, [.node next run]⟩).2 = ⟨.unwinding message, []⟩ →
      (Walk hosts n w here ⟨.answering res, [.node next run]⟩ calls w' ⟨.ended d, []⟩ ↔
        n = 0 ∧ calls = [] ∧ w' = w ∧ d = .error message) := by
    intro res message hcalls hact
    rw [handed_iff rfl]
    simp [hcalls, hact, error_iff]
  rcases res with message | (r | node | token)
  · exact panicked_iff rfl
  · cases r with
    | ended exit run' =>
      show Walk hosts n w here ⟨.code (.give (.ended exit run')), [.node next run]⟩ calls w'
        ⟨.ended d, []⟩ ↔ _
      exact exited_iff rfl
    | outcome exit =>
      rw [handed_iff rfl]
      rfl
    | _ => exact misused rfl rfl
  · rw [handed_iff rfl]
    simp [Control.answering, World.calls, World.act, Activity.close, Activity.reply,
      Machine.Drives, Except.bind, Answer.computation]
  · exact misused rfl rfl

end Walk

namespace Spot

@[simp] theorem arrive_context (hosts : Hosts) (w : World) (s : Spot) :
    (s.arrive hosts w).context = s.context := by
  unfold arrive
  split <;> rfl

@[simp] theorem arrive_run (hosts : Hosts) (w : World) (s : Spot) (c : ConnectionId) :
    (s.arrive hosts w).run c = s.run c := by
  simp [run]

theorem isCurrent_self (w : World) (context : ContextId) :
    w.isCurrent (some context) context = true := by
  unfold World.isCurrent
  split <;> simp

theorem isCurrent_arrive (hosts : Hosts) (w : World) (s : Spot) :
    w.isCurrent (s.arrive hosts w).place.home s.context = true := by
  unfold arrive
  split
  · assumption
  · exact isCurrent_self w s.context

end Spot

namespace Machine

theorem drives_arrive : machine.Drives hosts n w s.place (s.run c) calls d w' ↔
    machine.Drives hosts n w (s.arrive hosts w).place (s.run c) calls d w' := by
  unfold Spot.arrive
  split
  · rfl
  · rename_i hn
    have hn : w.isCurrent s.place.home s.context = false := by simpa using hn
    constructor
    · intro h
      cases h with
      | act ha =>
        have hc : w.isCurrent s.place.home s.context = true := ha
        rw [hn] at hc
        cases hc
      | @hop m k _ w₁ _ _ _ _ _ r _ _ _ _ away rest =>
        -- The thread that hopped only hands on what the machine ended with.
        have hr : (⟨.returning r, []⟩ : Activity) = ⟨.answering (r.map .reply), []⟩ := by
          cases r <;> rfl
        rw [hr, Walk.answering_iff] at rest
        obtain ⟨rfl, rfl, rfl, rfl⟩ := rest
        have hd : ending (r.map .reply) = r := by cases r <;> rfl
        rw [hd, List.append_nil]
        exact away
    · intro h
      have hd : Walk hosts 0 w' s.place ⟨.returning d, []⟩ [] w' ⟨.ended d, []⟩ := by
        cases d with
        | ok r => exact Walk.ended_of_answering (.ok (.reply r)) (.stay _ _ _)
        | error message => exact Walk.ended_of_answering (.error message) (.stay _ _ _)
      have hall : Walk hosts (n + 0) w s.place ⟨.drive machine (s.run c), []⟩ (calls ++ []) w'
          ⟨.ended d, []⟩ := .hop hn h hd
      rwa [List.append_nil] at hall

theorem drives_calls : machine.Drives hosts n w s.place (s.run c) calls d w' ↔
    ∃ k rest, n = k + 1 ∧
      calls = machine.calls w (w.surroundings (s.arrive hosts w).place.home) (s.run c) ++ rest ∧
      Walk hosts k w (s.arrive hosts w).place
        (.after (machine.step (w.surroundings (s.arrive hosts w).place.home) (s.run c)) []) rest
        w' ⟨.ended d, []⟩ := by
  have hc := Spot.isCurrent_arrive hosts w s
  have hacts : (⟨.drive machine (s.run c), []⟩ : Activity).Acts w (s.arrive hosts w).place := hc
  rw [drives_arrive, Drives, Walk.acts_iff hacts (by simp)]
  simp [World.calls, World.act, Spot.run, hc, Activity.cost]

theorem drives_step (hm : ∀ register next, machine ≠ .focus (.async register) next) :
    machine.Drives hosts n w s.place (s.run c) calls d w' ↔
      ∃ k, n = k + 1 ∧
        (machine.step (w.surroundings (s.arrive hosts w).place.home) (s.run c)).Goes hosts k w
          (s.arrive hosts w).place calls d w' := by
  have hcalls : ∀ env run, machine.calls w env run = (machine.step env run).calls := by
    intro env run
    unfold Machine.calls
    split
    · exact absurd rfl (hm _ _)
    · rfl
  rw [drives_calls]
  simp only [hcalls, Transition.Goes]
  constructor
  · rintro ⟨k, rest, hk, hrest, hw⟩
    exact ⟨k, hk, rest, hrest, hw⟩
  · rintro ⟨k, hk, rest, hrest, hw⟩
    exact ⟨k, rest, hk, hrest, hw⟩

/-- A step that only looks at the computation in focus. -/
theorem drives_go {m : Machine} {c' : ConnectionId}
    (h : ∀ env, machine.step env (s.run c) = .go m (s.run c')) :
    machine.Drives hosts n w s.place (s.run c) calls d w' ↔
      ∃ k, n = k + 1 ∧ m.Drives hosts k w s.place (s.run c') calls d w' := by
  have hm : ∀ register next, machine ≠ .focus (.async register) next := by
    rintro register next rfl
    exact absurd (h (w.surroundings none)) (by simp [Machine.step])
  simp only [drives_step hm, h, Transition.goes_go, ← drives_arrive]

end Machine

/-- The result of the thread that ran a computation to its end. -/
def Ending.result (c : ConnectionId) (e : Ending) : Except String Reply :=
  e.map fun end_ => .ended end_.1 (end_.2.run c)

/-- What is left of the way to the end when a computation has ended above some continuations. -/
def Continues (hosts : Hosts) (c : ConnectionId) (n : Nat) (next : List Cont) (w : World) :
    Ending → List Code → Except String Reply → World → Prop
  | .error message, calls, d, w' => n = 0 ∧ calls = [] ∧ w' = w ∧ d = .error message
  | .ok (exit, s), calls, d, w' =>
      (Machine.resume (w.surroundings s.place.home) exit next (s.run c)).Goes hosts n w s.place
        calls d w'

namespace Continues

theorem nil_iff {e : Ending} : Continues hosts c n [] w e calls d w' ↔
    n = 0 ∧ calls = [] ∧ w' = w ∧ d = e.result c := by
  cases e with
  | error message => rfl
  | ok x => exact Transition.goes_finished

theorem unwind_iff {exit : Exit} :
    (Machine.unwind exit next).Drives hosts n w s.place (s.run c) calls d w' ↔
      ∃ k, n = k + 1 ∧ Continues hosts c k next w (.ok (exit, s.arrive hosts w)) calls d w' := by
  simp [Machine.drives_step, Continues, Machine.step]

/-- A closure called by a continuation is a computation like any other. -/
theorem into_iff {code : Code} :
    (Machine.continueInto (w.surroundings s.place.home) code next (s.run c)).Goes hosts n w
        s.place calls d w' ↔
      ∃ m, (m = if w.isCurrent s.place.home s.context then n + 1 else n) ∧
        (Machine.focus (.suspend code) next).Drives hosts m w s.place (s.run c) calls d w' := by
  by_cases hc : w.isCurrent s.place.home s.context = true
  · have ha : s.arrive hosts w = s := by simp [Spot.arrive, hc]
    have hr : w.isCurrent s.place.home (s.run c).context = true := hc
    simp [Machine.drives_step, Machine.continueInto, World.surroundings, Machine.step, hc, hr, ha]
  · simp [Machine.continueInto, World.surroundings, Spot.run, hc, Transition.goes_go]

theorem exists_into {code : Code}
    (h : (Machine.focus (.suspend code) next).Drives hosts n w s.place (s.run c) calls d w') :
    ∃ k, (Machine.continueInto (w.surroundings s.place.home) code next (s.run c)).Goes hosts k w
      s.place calls d w' := by
  by_cases hc : w.isCurrent s.place.home s.context = true
  · obtain ⟨k, rfl, -⟩ := (Machine.drives_step (by simp)).1 h
    exact ⟨k, into_iff.2 ⟨k + 1, by simp [hc], h⟩⟩
  · exact ⟨n, into_iff.2 ⟨n, by simp [hc], h⟩⟩

/-- An exit that the first continuation is not for. -/
theorem pass_iff {exit : Exit} {cont : Cont} {t : Spot} {c' : ConnectionId}
    (ht : t.place = s.place) (h : ∀ env, Machine.resume env exit (cont :: next) (s.run c) =
      .go (.unwind exit next) (t.run c')) :
    Continues hosts c n (cont :: next) w (.ok (exit, s)) calls d w' ↔
      ∃ k, n = k + 1 ∧ Continues hosts c' k next w (.ok (exit, t.arrive hosts w)) calls d w' := by
  rw [← unwind_iff, ht]
  simp [Continues, h, Transition.goes_go]

end Continues

/-- The answer of the machine that ran a computation to its end. -/
def Ending.answer (c : ConnectionId) (e : Ending) : Except String Answer :=
  e.map fun x => .reply (.ended x.1 (x.2.run c))

theorem ending_eq_result {e : Ending} (h : ending res = e.result c) : res = e.answer c := by
  cases e <;> rcases res with _ | (_ | _ | _) <;>
    simp_all [ending, Ending.result, Ending.answer, Except.map]

theorem Machine.drives_result_iff {e : Ending} :
    machine.Drives hosts n w here run calls (e.result c) w' ↔
      Walk hosts n w here ⟨.drive machine run, []⟩ calls w' ⟨.answering (e.answer c), []⟩ := by
  constructor
  · intro h
    obtain ⟨res, hres, hw⟩ := Walk.answers (by simp) h
    rwa [ending_eq_result hres.symm] at hw
  · intro h
    have hd : ending (e.answer c) = e.result c := by cases e <;> rfl
    rw [← hd]
    exact Walk.ended_of_answering _ h

/-- The answer of a closure that uses a resource, handed to the machine that called it. -/
theorem Walk.opened_iff {resource : Value} {release : Value → ExitCase Value → Code} :
    Walk hosts n w here ⟨.answering res, [.opening resource release next run]⟩ calls w'
        ⟨.ended d, []⟩ ↔
      match res.bind Answer.use with
      | .error message => n = 0 ∧ calls = [] ∧ w' = w ∧ d = .error message
      | .ok node =>
          Walk hosts n w here ⟨.drive (.focus node []) run, [.using resource release next]⟩ calls
            w' ⟨.ended d, []⟩ := by
  have misused : ∀ {res message},
      w.calls here ⟨.answering res, [.opening resource release next run]⟩ = [] →
      (w.act here ⟨.answering res, [.opening resource release next run]⟩).2 =
        ⟨.unwinding message, []⟩ →
      (Walk hosts n w here ⟨.answering res, [.opening resource release next run]⟩ calls w'
          ⟨.ended d, []⟩ ↔ n = 0 ∧ calls = [] ∧ w' = w ∧ d = .error message) := by
    intro res message hcalls hact
    rw [handed_iff rfl]
    simp [hcalls, hact, error_iff]
  rcases res with message | (r | node | token)
  · exact panicked_iff rfl
  · cases r <;> exact misused rfl rfl
  · rw [handed_iff rfl]
    simp [Control.answering, World.calls, World.act, Activity.close, Activity.reply, Except.bind,
      Answer.use]
  · exact misused rfl rfl

end Effects
