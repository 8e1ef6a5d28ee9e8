import Effects.Proofs.Run.Local

/-!
A run followed from thread to thread. A hop is taken as running the rest of the machine on a thread
of the target: the machine goes on there, and the thread that hopped waits for its end.

The steps of a run with each hop made in one: the machine comes back with what it ended with on the
other thread. Ending is the same with hops made in one and with hops followed.
-/

namespace Effects

def Transition.calls : Transition → List Code
  | .call code _ => [code]
  | _ => []

/-- The closures that a machine calls in its next step, each with its arguments. -/
def Machine.calls (w : World) (env : Surroundings) (run : Run) : Machine → List Code
  | .focus (.async register) _ =>
      if env.canceled run.connection then [] else [register w.latches.size]
  | m => (m.step env run).calls

/-- The closures that the machines of an activity call in its next step. -/
def World.calls (w : World) (here : Place) (a : Activity) : List Code :=
  let env := w.surroundings here.home
  match a.control, a.stack with
  | .drive m run, _ => if w.isCurrent here.home run.context then m.calls w env run else []
  | .code (.give (.ended exit run)), frame :: _ =>
      ((frame.exited env exit run).map Transition.calls).getD []
  | .code (.give (.outcome exit)), .node next run :: _ => (Machine.resume env exit next run).calls
  | _, _ => []

/-- The name of the thread of a context that takes over a machine. -/
abbrev Hosts := World → ContextId → String

def Control.returning : Except String Reply → Control
  | .ok r => .code (.give r)
  | .error message => .unwinding message

structure Relay where
  world : World
  place : Place
  activity : Activity
  /-- Threads that wait for the end of a machine, the latest first. -/
  left : List (Place × List Frame)

namespace Relay

variable (hosts : Hosts)

def own (s : Relay) : Relay :=
  let next := s.world.act s.place s.activity
  { s with world := next.1, activity := next.2 }

def step (s : Relay) : Relay :=
  match s.activity.control, s.left with
  | .ended _, [] => s
  | .ended r, (place, stack) :: left => { s with place, activity := ⟨.returning r, stack⟩, left }
  | .drive machine run, left =>
      if s.world.isCurrent s.place.home run.context then s.own
      else
        { s with
          place := ⟨hosts s.world run.context, some run.context⟩
          activity := ⟨.drive machine run, []⟩
          left := (s.place, s.activity.stack) :: left }
  | _, _ => s.own

def calls (s : Relay) : List Code := s.world.calls s.place s.activity

/-- The closures called in the next steps, and the state after them. -/
def run : Nat → Relay → List Code × Relay
  | 0, s => ([], s)
  | n + 1, s => (s.calls ++ (run n (s.step hosts)).1, (run n (s.step hosts)).2)

/-- The run comes to its end, after these calls and in this world. -/
def Ends (s : Relay) (calls : List Code) (r : Except String Reply) (w : World) : Prop :=
  ∃ n place, s.run hosts n = (calls, ⟨w, place, ⟨.ended r, []⟩, []⟩)

end Relay

namespace Activity

/-- The thread takes a step of its own, and does not hop. -/
def Acts (w : World) (here : Place) (a : Activity) : Prop :=
  match a.control with
  | .ended _ => False
  | .drive _ run => w.isCurrent here.home run.context = true
  | _ => True

/-- The steps of machines are the ones that count. -/
def cost (a : Activity) : Nat :=
  match a.control with
  | .drive _ _ => 1
  | _ => 0

/-- Ends with no frame left. -/
def Proper (a : Activity) : Prop := ∀ r, a.control = .ended r → a.stack = []

theorem after_ne_ended (t : Transition) (stack : List Frame) (r : Except String Reply) :
    (after t stack).control ≠ .ended r := by
  cases t <;> simp [after]

theorem runTokens_ne_ended (tokens : List Code) (failure : Option String) (next : Reply → Code)
    (stack : List Frame) (r : Except String Reply) :
    (runTokens tokens failure next stack).control ≠ .ended r := by
  cases tokens <;> cases failure <;> simp [runTokens]

theorem respond_ne_ended (next : Reply → Code) (stack : List Frame) (response : Response)
    (r : Except String Reply) : (respond next stack response).control ≠ .ended r := by
  cases response with
  | tokens tokens => exact runTokens_ne_ended _ _ _ _ _
  | _ => simp [respond]

theorem finish_ne_ended (env : Surroundings) (exit : Exit) (run : Run) (frame : Frame)
    (stack : List Frame) (r : Except String Reply) :
    (finish env exit run frame stack).control ≠ .ended r := by
  unfold finish
  split
  · exact after_ne_ended _ _ _
  all_goals simp

theorem reply_ne_ended (env : Surroundings) (answer : Answer) (frame : Frame) (stack : List Frame)
    (r : Except String Reply) : (reply env answer frame stack).control ≠ .ended r := by
  unfold reply
  split
  · exact runTokens_ne_ended _ _ _ _ _
  · split
    all_goals first
      | exact finish_ne_ended _ _ _ _ _ _
      | exact after_ne_ended _ _ _
      | simp

theorem proper_of_ne {a : Activity} (h : ∀ r, a.control ≠ .ended r) : a.Proper :=
  fun r hr => absurd hr (h r)

theorem proper_close (env : Surroundings) (answer : Answer) (stack : List Frame) :
    (close env answer stack).Proper := by
  cases stack with
  | nil => intro r _; cases answer <;> rfl
  | cons frame stack => exact proper_of_ne (reply_ne_ended env answer frame stack)

theorem proper_unwind (message : String) (stack : List Frame) : (unwind message stack).Proper := by
  cases stack with
  | nil => intro r _; rfl
  | cons frame stack =>
      refine proper_of_ne fun r => ?_
      cases frame with
      | tokens rest failure next => exact runTokens_ne_ended _ _ _ _ _
      | _ => simp [unwind]

end Activity

theorem World.proper_act (w : World) (here : Place) {a : Activity} (h : a.Proper) :
    (w.act here a).2.Proper := by
  obtain ⟨control, stack⟩ := a
  cases control with
  | drive machine run =>
      simp only [World.act]
      split
      · exact Activity.proper_of_ne (Activity.after_ne_ended _ _)
      · intro r hr; simp at hr
  | code c =>
      cases c with
      | perform op next => exact Activity.proper_of_ne (Activity.respond_ne_ended _ _ _)
      | panic message => intro r hr; simp [World.act] at hr
      | _ => exact Activity.proper_close _ _ _
  | unwinding message => exact Activity.proper_unwind _ _
  | ended r => exact h

/-- The steps of one thread, with what its machines do on other threads taken as one step. -/
inductive Walk (hosts : Hosts) :
    Nat → World → Place → Activity → List Code → World → Activity → Prop
  | stay (w : World) (here : Place) (a : Activity) : Walk hosts 0 w here a [] w a
  | act {n : Nat} {w w' : World} {here : Place} {a b : Activity} {calls : List Code}
      (h : a.Acts w here)
      (rest : Walk hosts n (w.act here a).1 here (w.act here a).2 calls w' b) :
      Walk hosts (n + a.cost) w here a (w.calls here a ++ calls) w' b
  | hop {m n : Nat} {w w₁ w' : World} {here : Place} {machine : Machine} {run : Run}
      {stack : List Frame} {r : Except String Reply} {b : Activity} {calls₁ calls₂ : List Code}
      (h : w.isCurrent here.home run.context = false)
      (away : Walk hosts m w ⟨hosts w run.context, some run.context⟩ ⟨.drive machine run, []⟩ calls₁
        w₁ ⟨.ended r, []⟩)
      (rest : Walk hosts n w₁ here ⟨.returning r, stack⟩ calls₂ w' b) :
      Walk hosts (m + n) w here ⟨.drive machine run, stack⟩ (calls₁ ++ calls₂) w' b

variable {hosts : Hosts} {w w₁ w' : World} {here : Place} {a b : Activity} {calls : List Code}

theorem Walk.trans {m n : Nat} {c : Activity} {calls' : List Code}
    (h : Walk hosts m w here a calls w₁ b) (h' : Walk hosts n w₁ here b calls' w' c) :
    Walk hosts (m + n) w here a (calls ++ calls') w' c := by
  induction h with
  | stay => simpa using h'
  | @act k _ _ _ _ _ _ ha _ ih =>
      have hw := Walk.act ha (ih h')
      rwa [← List.append_assoc, Nat.add_right_comm] at hw
  | @hop i j _ _ _ _ _ _ _ _ _ _ _ hn away _ _ ih =>
      have hw := Walk.hop hn away (ih h')
      rw [← List.append_assoc] at hw
      rwa [Nat.add_assoc]

namespace Relay

theorem run_add (m n : Nat) (s : Relay) :
    s.run hosts (m + n) =
      ((s.run hosts m).1 ++ ((s.run hosts m).2.run hosts n).1,
        ((s.run hosts m).2.run hosts n).2) := by
  induction m generalizing s with
  | zero => simp [run]
  | succ m ih =>
      rw [Nat.add_right_comm]
      simp only [run, ih, List.append_assoc]

theorem run_trans {m n : Nat} {s t u : Relay} {calls₁ calls₂ : List Code}
    (h : s.run hosts m = (calls₁, t)) (h' : t.run hosts n = (calls₂, u)) :
    s.run hosts (m + n) = (calls₁ ++ calls₂, u) := by
  rw [run_add, h]
  simp [h']

theorem run_one {s t : Relay} (hs : s.step hosts = t) : s.run hosts 1 = (s.calls, t) := by
  simp [run, hs]

theorem step_of_acts {left : List (Place × List Frame)} (h : a.Acts w here) :
    Relay.step hosts ⟨w, here, a, left⟩ = ⟨(w.act here a).1, here, (w.act here a).2, left⟩ := by
  obtain ⟨control, stack⟩ := a
  cases control with
  | drive machine run =>
      have hc : w.isCurrent here.home run.context = true := h
      simp [Relay.step, own, hc]
  | ended r => exact h.elim
  | _ => rfl

theorem step_hop {machine : Machine} {run : Run} {stack : List Frame}
    {left : List (Place × List Frame)} (h : w.isCurrent here.home run.context = false) :
    Relay.step hosts ⟨w, here, ⟨.drive machine run, stack⟩, left⟩ =
      ⟨w, ⟨hosts w run.context, some run.context⟩, ⟨.drive machine run, []⟩,
        (here, stack) :: left⟩ := by
  simp [Relay.step, h]

theorem calls_hop {machine : Machine} {run : Run} {stack : List Frame}
    (h : w.isCurrent here.home run.context = false) :
    w.calls here ⟨.drive machine run, stack⟩ = [] := by
  simp [World.calls, h]

theorem calls_ended (r : Except String Reply) (stack : List Frame) :
    w.calls here ⟨.ended r, stack⟩ = [] := rfl

theorem run_of_walk {n : Nat} (h : Walk hosts n w here a calls w' b)
    (left : List (Place × List Frame)) :
    ∃ k, Relay.run hosts k ⟨w, here, a, left⟩ = (calls, ⟨w', here, b, left⟩) := by
  induction h generalizing left with
  | stay => exact ⟨0, rfl⟩
  | act ha _ ih =>
      obtain ⟨k, hk⟩ := ih left
      exact ⟨1 + k, run_trans (run_one (step_of_acts ha)) hk⟩
  | @hop _ _ w w₁ _ here machine run stack r _ _ _ hn _ _ ihaway ihrest =>
      obtain ⟨i, hi⟩ := ihaway ((here, stack) :: left)
      obtain ⟨j, hj⟩ := ihrest left
      have hgo : Relay.run hosts 1 ⟨w, here, ⟨.drive machine run, stack⟩, left⟩ = _ :=
        run_one (step_hop hn)
      have hback : Relay.run hosts 1 ⟨w₁, ⟨hosts w run.context, some run.context⟩, ⟨.ended r, []⟩,
          (here, stack) :: left⟩ = ([], ⟨w₁, here, ⟨.returning r, stack⟩, left⟩) := rfl
      rw [show Relay.calls ⟨w, here, ⟨.drive machine run, stack⟩, left⟩ = [] from calls_hop hn] at hgo
      have hall := run_trans hgo (run_trans hi (run_trans hback hj))
      simp only [List.nil_append] at hall
      exact ⟨_, hall⟩

theorem run_ended (n : Nat) (r : Except String Reply) (stack : List Frame) :
    Relay.run hosts n ⟨w, here, ⟨.ended r, stack⟩, []⟩ = ([], ⟨w, here, ⟨.ended r, stack⟩, []⟩) := by
  induction n with
  | zero => rfl
  | succ n ih =>
      have hs : Relay.step hosts ⟨w, here, ⟨.ended r, stack⟩, []⟩ =
          ⟨w, here, ⟨.ended r, stack⟩, []⟩ := rfl
      simp [run, hs, ih, Relay.calls, calls_ended]

theorem run_succ_eq {n : Nat} {s t : Relay} (h : s.run hosts (n + 1) = (calls, t)) :
    ∃ rest, (s.step hosts).run hosts n = (rest, t) ∧ calls = s.calls ++ rest := by
  simp only [run, Prod.mk.injEq] at h
  exact ⟨_, Prod.ext rfl h.2, h.1.symm⟩

theorem proper_returning (r : Except String Reply) (stack : List Frame) :
    (⟨.returning r, stack⟩ : Activity).Proper := by
  intro r' hr
  cases r <;> simp [Control.returning] at hr

/-- A run that comes to its end ends the work of every thread on the way, the current one first. -/
theorem walk_of_run (N : Nat) {left : List (Place × List Frame)} {t : Relay} (ha : a.Proper)
    (h : Relay.run hosts N ⟨w, here, a, left⟩ = (calls, t))
    (ht : t.left = [] ∧ ∃ r, t.activity.control = .ended r) :
    ∃ n r w₁ M calls₁ calls₂, M ≤ N ∧ calls = calls₁ ++ calls₂ ∧
      Walk hosts n w here a calls₁ w₁ ⟨.ended r, []⟩ ∧
      Relay.run hosts M ⟨w₁, here, ⟨.ended r, []⟩, left⟩ = (calls₂, t) := by
  induction N using Nat.strongRecOn generalizing w here a left calls with
  | ind N ih =>
    obtain ⟨control, stack⟩ := a
    by_cases hend : ∃ r, control = .ended r
    · obtain ⟨r, rfl⟩ := hend
      obtain rfl : stack = [] := ha r rfl
      exact ⟨0, r, w, N, [], calls, Nat.le_refl N, rfl, .stay _ _ _, h⟩
    cases N with
    | zero =>
        obtain ⟨rfl, rfl⟩ := Prod.mk.inj h
        exact absurd ht.2 hend
    | succ k =>
        obtain ⟨rest, hrest, rfl⟩ := run_succ_eq h
        by_cases hacts : Activity.Acts w here ⟨control, stack⟩
        · rw [step_of_acts hacts] at hrest
          obtain ⟨n, r, w₁, M, c₁, c₂, hM, rfl, hw, hr⟩ :=
            ih k (Nat.lt_succ_self k) (World.proper_act w here ha) hrest
          refine ⟨n + Activity.cost ⟨control, stack⟩, r, w₁, M, _, c₂, Nat.le_succ_of_le hM, ?_,
            .act hacts hw, hr⟩
          exact (List.append_assoc _ _ _).symm
        · cases control with
          | drive machine run =>
              have hn : w.isCurrent here.home run.context = false := by
                simpa [Activity.Acts] using hacts
              rw [step_hop hn] at hrest
              obtain ⟨m, r, w₁, M, c₁, c₂, hM, rfl, haway, hr⟩ :=
                ih k (Nat.lt_succ_self k) (Activity.proper_of_ne (by simp)) hrest
              -- The machine cannot end the run: the thread that hopped still waits for it.
              cases M with
              | zero =>
                  obtain ⟨rfl, rfl⟩ := Prod.mk.inj hr
                  simp at ht
              | succ j =>
                  obtain ⟨c₃, hback, rfl⟩ := run_succ_eq hr
                  obtain ⟨n, r', w₂, M, c₄, c₅, hM', rfl, hw, hr'⟩ :=
                    ih j (by omega) (proper_returning r stack) hback
                  refine ⟨m + n, r', w₂, M, c₁ ++ c₄, c₅, by omega, ?_, .hop hn haway hw, hr'⟩
                  rw [show Relay.calls ⟨w, here, ⟨.drive machine run, stack⟩, left⟩ = [] from
                    calls_hop hn]
                  simp
          | ended r => exact absurd ⟨r, rfl⟩ hend
          | _ => exact absurd trivial hacts

theorem ends_iff (ha : a.Proper) {d : Except String Reply} :
    Relay.Ends hosts ⟨w, here, a, []⟩ calls d w' ↔
      ∃ n, Walk hosts n w here a calls w' ⟨.ended d, []⟩ := by
  constructor
  · rintro ⟨N, place, hN⟩
    obtain ⟨n, r, w₁, M, c₁, c₂, -, rfl, hw, hr⟩ := walk_of_run N ha hN ⟨rfl, d, rfl⟩
    rw [run_ended] at hr
    obtain ⟨rfl, hs⟩ := Prod.mk.inj hr
    simp only [Relay.mk.injEq, Activity.mk.injEq, Control.ended.injEq] at hs
    obtain ⟨rfl, -, ⟨rfl, -⟩, -⟩ := hs
    exact ⟨n, by simpa using hw⟩
  · rintro ⟨n, hw⟩
    obtain ⟨k, hk⟩ := run_of_walk hw []
    exact ⟨k, here, hk⟩

theorem Ends.unique {s : Relay} {calls' : List Code} {d d' : Except String Reply}
    (h : s.Ends hosts calls d w) (h' : s.Ends hosts calls' d' w') :
    calls = calls' ∧ d = d' ∧ w = w' := by
  obtain ⟨m, p, hm⟩ := h
  obtain ⟨n, q, hn⟩ := h'
  -- Whichever is longer only stays at the end that the other one has come to.
  have key : ∀ {i j c₁ c₂ p q u v} {d₁ d₂ : Except String Reply}, i ≤ j →
      s.run hosts i = (c₁, ⟨u, p, ⟨.ended d₁, []⟩, []⟩) →
      s.run hosts j = (c₂, ⟨v, q, ⟨.ended d₂, []⟩, []⟩) → c₁ = c₂ ∧ d₁ = d₂ ∧ u = v := by
    intro i j c₁ c₂ p q u v d₁ d₂ hij hi hj
    obtain ⟨k, rfl⟩ := Nat.exists_eq_add_of_le hij
    rw [run_trans hi (run_ended k d₁ [])] at hj
    simp only [List.append_nil, Prod.mk.injEq, Relay.mk.injEq, Activity.mk.injEq,
      Control.ended.injEq] at hj
    obtain ⟨rfl, rfl, -, ⟨rfl, -⟩, -⟩ := hj
    exact ⟨rfl, rfl, rfl⟩
  rcases Nat.le_total m n with hmn | hmn
  · exact key hmn hm hn
  · obtain ⟨rfl, rfl, rfl⟩ := key hmn hn hm
    exact ⟨rfl, rfl, rfl⟩

end Relay
end Effects
