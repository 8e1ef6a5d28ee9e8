import Effects.Proofs.Cancel.Staying
import Effects.Proofs.Yield.Begins

/-!
A computation comes back with the connection that it has set out with: whatever it has put in its
place is put back by what it leaves to be done. The states of the connections are of no account to
that.

Coming to an end: an activity that has only so many steps left, whatever worlds it finds. All that
can still keep it is an operation that is not ready.
-/

namespace Effects

open Activity

variable {W W' : World → Prop} {Q Q' : Trace → Except String (Exit × Run) → Prop}
  {R R' : Except String (Exit × Run) → Prop} {c : ConnectionId} {n : Nat} {a b d : Activity}
  {t : Trace} {y : Except String (Exit × Run)} {next : List Cont} {below : List Frame}
  {run run' : Run} {w : World} {here : Place} {exit : Exit}

/-- On its way back to the connection, or in a panic. -/
def Activity.Bound (c : ConnectionId) (a : Activity) : Prop := a.Goes c [] none (.active [])

namespace Stays

theorem bound_act (h : Stays c [] none (.active []) a) (hable : a.Able w here) :
    (w.act here a).2.Bound c := by
  cases h with
  | @drive m run fs h =>
    rw [act_drive hable]
    by_cases hm : ∃ register next, m = .focus (.async register) next
    · obtain ⟨register, next, rfl⟩ := hm
      exact .inl (.called .node h)
    · exact .inl (step h fun register next hm' => absurd ⟨register, next, hm'⟩ hm)
  | @code b frame next run fs hb hf h =>
    obtain ⟨message | answer, rfl⟩ | ⟨r, rfl⟩ | hs := b.settled_or
    · have hact : w.act here ((⟨.unwinding message, []⟩ : Activity).atop (frame :: fs)) = _ :=
        World.act_unwinding w here hf.isCode fs message
      rw [Control.answering, hact]
      exact .inr (fails_unwinding h.plain message)
    · exact (answering_act w here [] answer hf h).2
    · exact absurd rfl hb.stack_ne_nil
    · rw [World.act_atop _ _ _ _ hs]
      exact .inl (.code (hb.act ⟨fun _ _ => trivial, fun _ _ => trivial⟩ w here hs) hf h)
  | lent | ended => exact hable.elim
  | @given exit run fs h =>
    cases fs with
    | nil => exact .inl (.ended exit h)
    | cons frame fs => exact finish h

end Stays

namespace Activity

theorem Bound.act (h : a.Bound c) (hable : a.Able w here) : (w.act here a).2.Bound c := by
  obtain h | h := h
  · exact h.bound_act hable
  · obtain ⟨control, stack⟩ := a
    obtain ⟨hi, message, rfl | rfl⟩ := h
    · exact .inr (Activity.Fails.act ⟨hi, message, .inl rfl⟩ trivial).2
    · exact hable.elim

theorem Bound.reaches (h : a.Bound c) (hr : Reaches n a t b) : b.Bound c := by
  induction hr with
  | stay => exact h
  | act hable _ ih => exact ih (h.act hable)

theorem bound_start (node : Node) (run : Run) :
    Bound run.connection ⟨.drive (.focus node []) run, []⟩ :=
  .inl (.drive .nil)

theorem Bound.of_yielding (h : Bound c (yielding (.ok (exit, run)))) : run.connection = c := by
  obtain h | ⟨-, message, hm | hm⟩ := h
  · generalize ha : yielding (.ok (exit, run)) = a at h
    cases h with
    | given exit h =>
      obtain ⟨hc, hs⟩ := Activity.mk.inj ha
      cases hc
      subst hs
      generalize run.connection = d at h
      cases h
      rfl
    | code => simp [yielding, atop] at ha
    | _ => cases ha
  · cases hm
  · cases hm

end Activity

theorem Node.Yields.connection {node : Node} (h : node.Yields run t (.ok (exit, run'))) :
    run'.connection = run.connection := by
  obtain ⟨n, hn⟩ := h
  exact ((bound_start node run).reaches hn).of_yielding

theorem Effect.Yields.connection {ε α : Type} [Datum ε] [Datum α] {e : Effect ε α}
    {o : Outcome ε α} (h : e.Yields run t (.ok (o, run'))) : run'.connection = run.connection := by
  obtain ⟨y, hy, hread⟩ := h
  obtain ⟨exit, rfl, -⟩ := ok_of hread
  exact Node.Yields.connection hy


namespace Activity

theorem not_based_ended (r : Except String Reply) : ¬ Based ⟨.ended r, []⟩ := by
  intro h
  generalize ha : (⟨.ended r, []⟩ : Activity) = a at h
  cases h with
  | machine => cases ha
  | frame => simp at ha
  | yielding x => cases x <;> cases ha

/-- In worlds of that kind the activity comes to its end, having performed such operations and with
such an end. -/
inductive Comes (W : World → Prop) :
    (Trace → Except String (Exit × Run) → Prop) → Activity → Prop
  | ended {Q : Trace → Except String (Exit × Run) → Prop} {y : Except String (Exit × Run)}
      (h : Q [] y) : Comes W Q (yielding y)
  | step {Q : Trace → Except String (Exit × Run) → Prop} {a : Activity} (hopen : Onto.Open a)
      (h : ∀ w here, W w → a.Able w here →
        Comes W (fun t y => Q (a.performs w here ++ t) y) (w.act here a).2) : Comes W Q a

/-- Comes to such an end, whatever it performs. -/
abbrev Ends (W : World → Prop) (R : Except String (Exit × Run) → Prop) (a : Activity) : Prop :=
  Comes W (fun _ y => R y) a

namespace Comes

theorem mono (h : Comes W Q a) (hQ : ∀ t y, Q t y → Q' t y) : Comes W Q' a := by
  induction h generalizing Q' with
  | ended h => exact .ended (hQ _ _ h)
  | step hopen _ ih =>
    exact .step hopen fun w here hw hable => ih w here hw hable fun t y => hQ _ y

/-- In fewer worlds, which are then those where the operations are performed. -/
theorem restrict (h : Comes W Q a) (hW : ∀ w, W' w → W w) :
    Comes W' (fun t y => Q t y ∧ ∀ o ∈ t, W' o.world) a := by
  induction h with
  | ended h => exact .ended ⟨h, nofun⟩
  | @step Q a hopen _ ih =>
    refine .step hopen fun w here hw hable => (ih w here (hW w hw) hable).mono fun t y h => ?_
    refine ⟨h.1, fun o ho => ?_⟩
    obtain ho | ho := List.mem_append.1 ho
    · have hworld : o.world = w := by
        rw [performs] at ho
        split at ho
        · rw [List.mem_singleton.1 ho]
        · cases ho
      exact hworld ▸ hw
    · exact h.2 o ho

theorem bound (h : Comes W Q a) (hb : a.Bound c) :
    Comes W (fun t y => Q t y ∧ ∀ exit run, y = .ok (exit, run) → run.connection = c) a := by
  induction h with
  | ended h =>
    refine .ended ⟨h, ?_⟩
    rintro exit run rfl
    exact hb.of_yielding
  | step hopen _ ih => exact .step hopen fun w here hw hable => ih w here hw hable (hb.act hable)

/-- What holds of the end that it comes to holds of each end that is reached. -/
theorem reached (h : Comes (fun _ => True) Q a) (hr : Reaches n a t (yielding y)) : Q t y := by
  -- Induction on the way that is taken: at each step `h` knows what is left after it, and the
  -- condition takes in what has been performed.
  generalize hc : yielding y = c at hr
  induction hr generalizing Q with
  | stay a =>
    subst hc
    generalize ha : yielding y = a at h
    cases h with
    | ended h =>
      obtain rfl := yielding_inj.1 ha
      exact h
    | step hopen =>
      subst ha
      cases y <;> simp [Onto.Open, yielding, Control.settles] at hopen
  | @act n w here a b t hable rest ih =>
    subst hc
    generalize ha : a = a' at h
    cases h with
    | ended h =>
      subst ha
      have hstay := yielding_reaches.1 (Reaches.act hable rest)
      exact absurd hstay.1 (Nat.succ_ne_zero n)
    | step hopen h =>
      subst ha
      exact ih (h w here trivial hable) rfl

/-- Also from wherever it gets to. -/
theorem along (h : Comes (fun _ => True) Q a) (hr : Reaches n a t b) (hb : b.Based) :
    Comes (fun _ => True) (fun s y => Q (t ++ s) y) b := by
  induction hr generalizing Q with
  | stay => exact h
  | @act n w here a b t hable rest ih =>
    generalize ha : a = a' at h
    cases h with
    | @ended Q y =>
      -- An end is only handed on, to an activity with no frames, which stands nowhere.
      subst ha
      obtain ⟨-, rfl | rfl⟩ := reaches_yielding (Reaches.act hable rest)
      · exact absurd (yielding_reaches.1 (Reaches.act hable rest)).1 (Nat.succ_ne_zero n)
      · exact absurd hb (not_based_ended _)
    | step hopen h =>
      subst ha
      simp only [List.append_assoc]
      exact ih (h w here trivial hable) hb

theorem silent (hs : Silent a b) (hopen : Onto.Open a) (h : Comes W Q b) : Comes W Q a := by
  refine .step hopen fun w here _ hable => ?_
  rw [hs.act w here hable]
  simp only [hs.performs, List.nil_append]
  exact h

end Comes

end Activity

theorem Onto.open_of (h : Onto next below a b) (ha : Onto.Open a) : Onto.Open b := by
  cases h with
  | machine => exact .inr rfl
  | frame => exact .inl (by simp)
  | ended | panicked => simp [Onto.Open, yielding, Control.settles] at ha

/-- What is below goes on from each of the ends. -/
theorem Activity.Comes.onto (h : Ends W R a) (hab : Onto next below a b)
    (hd : ∀ y d, R y → Onto next below (yielding y) d → Ends W R' d) : Ends W R' b := by
  change Comes W (fun _ y => R y) a at h
  generalize hQ : (fun _ y => R y : Trace → Except String (Exit × Run) → Prop) = Q at h
  induction h generalizing b with
  | ended h =>
    subst hQ
    exact hd _ _ h hab
  | step hopen _ ih =>
    subst hQ
    refine .step (hab.open_of hopen) fun w here hw hable => ?_
    obtain ⟨hiff, -, hact⟩ := hab.act hopen w here
    exact ih w here hw (hiff.2 hable) (hact (hiff.2 hable)) rfl

namespace Activity

/-- From wherever it gets to in less than that many steps, in any worlds, it comes to its end in
these. -/
def SettlesWithin (W : World → Prop) (n : Nat) (a : Activity) : Prop :=
  ∀ m < n, ∀ t b, Reaches m a t b → b.Based → b.Ends W fun _ => True

/-- From wherever it gets to in any worlds, it comes to its end in these. -/
def Settles (W : World → Prop) (a : Activity) : Prop := ∀ n, SettlesWithin W n a

theorem Settles.ends (h : Settles W a) (ha : a.Based) : a.Ends W fun _ => True :=
  h 1 0 Nat.zero_lt_one [] a (.stay a) ha

/-- It comes to its end from everywhere, whatever the worlds. -/
theorem Comes.settles (h : Comes (fun _ => True) Q a) : Settles W a := fun _ _ _ _ _ hr hb =>
  ((h.along hr hb).restrict fun _ _ => trivial).mono fun _ _ _ => trivial

namespace SettlesWithin

theorem of_yielding (n : Nat) (y : Except String (Exit × Run)) :
    SettlesWithin W n (yielding y) := by
  intro m _ t b hr hb
  obtain ⟨-, rfl | rfl⟩ := reaches_yielding hr
  · exact .ended trivial
  · exact absurd hb (not_based_ended _)

theorem mono {m : Nat} (h : SettlesWithin W n a) (hm : m ≤ n) : SettlesWithin W m a :=
  fun k hk => h k (Nat.lt_of_lt_of_le hk hm)

theorem silent (hs : Silent a b) (hopen : Onto.Open a) (hb : b.Ends W fun _ => True)
    (h : SettlesWithin W n b) : SettlesWithin W (n + 1) a := by
  intro m hm t d hr hd
  obtain ⟨-, rfl⟩ | ⟨k, rfl, hk⟩ := hs.reaches_or hr
  · exact .silent hs hopen hb
  · exact h k (Nat.lt_of_succ_lt_succ hm) t d hk hd

end SettlesWithin

section Sequence

variable {inner node : Node} {cont : Cont} {g : Exit → Option Node} {env : Surroundings}
  {rest : List Cont}

theorem Ends.into (h : Ends W R ⟨.drive (.focus node rest) run, below⟩) :
    Ends W R (after (Machine.continueInto env (.build node) rest run) below) := by
  have hbuilt := Comes.silent (silent_build node rest run below) (.inl (List.cons_ne_nil _ _)) h
  unfold Machine.continueInto
  split
  · exact hbuilt
  · exact .silent (silent_suspend _ rest run below) (.inr rfl) hbuilt

theorem SettlesWithin.into (hends : Ends W (fun _ => True) ⟨.drive (.focus node rest) run, []⟩)
    (h : SettlesWithin W n ⟨.drive (.focus node rest) run, []⟩) :
    SettlesWithin W n (after (Machine.continueInto env (.build node) rest run) []) := by
  have hopen : Onto.Open ⟨.code (.build node), [.node rest run]⟩ := .inl (List.cons_ne_nil _ _)
  have hbuilt := SettlesWithin.silent (silent_build node rest run []) hopen hends h
  unfold Machine.continueInto
  split
  · exact hbuilt.mono (Nat.le_succ n)
  · have hends' := Comes.silent (silent_build node rest run []) hopen hends
    exact (SettlesWithin.silent (silent_suspend _ rest run []) (.inr rfl) hends' hbuilt).mono
      (by omega)

theorem Ends.sequence (hcont : Node.Leads cont g)
    (h : Ends W R ⟨.drive (.focus inner []) run, []⟩)
    (hgoes : ∀ exit run' node, R (.ok (exit, run')) → run'.connection = run.connection →
      g exit = some node → Ends W R' ⟨.drive (.focus node []) run', []⟩)
    (hpasses : ∀ exit run', R (.ok (exit, run')) → g exit = none → R' (.ok (exit, run')))
    (hpanics : ∀ message, R (.error message) → R' (.error message)) :
    Ends W R' ⟨.drive (.focus inner [cont]) run, []⟩ := by
  refine (h.bound (bound_start inner run)).onto (.machine (.focus inner []) run) fun y d hy hd => ?_
  obtain ⟨hR, hconn⟩ := hy
  obtain message | ⟨exit, run'⟩ := y
  · obtain rfl := hd.of_panicked
    exact .ended (y := .error message) (hpanics message hR)
  · obtain ⟨env, rfl⟩ := hd.of_ended
    rw [hcont]
    cases hg : g exit with
    | some node => exact (hgoes exit run' node hR (hconn exit run' rfl) hg).into
    | none => exact .silent (silent_exit exit run') (.inr rfl) (.ended (hpasses exit run' hR hg))

theorem SettlesWithin.sequence (hcont : Node.Leads cont g)
    (h : SettlesWithin W n ⟨.drive (.focus inner []) run, []⟩)
    (hgoes : ∀ exit run' node, run'.connection = run.connection → g exit = some node →
      Ends W (fun _ => True) ⟨.drive (.focus node []) run', []⟩ ∧
        SettlesWithin W n ⟨.drive (.focus node []) run', []⟩) :
    SettlesWithin W n ⟨.drive (.focus inner [cont]) run, []⟩ := by
  have hend : ∀ y d, (∀ exit run', y = .ok (exit, run') → run'.connection = run.connection) →
      Onto [cont] [] (yielding y) d → d.Ends W (fun _ => True) ∧ SettlesWithin W n d := by
    intro y d hconn hd
    obtain message | ⟨exit, run'⟩ := y
    · obtain rfl := hd.of_panicked
      exact ⟨.ended (y := .error message) trivial, .of_yielding n (.error message)⟩
    · obtain ⟨env, rfl⟩ := hd.of_ended
      rw [hcont]
      cases hg : g exit with
      | some node =>
        obtain ⟨hends, hsettles⟩ := hgoes exit run' node (hconn exit run' rfl) hg
        exact ⟨hends.into, .into hends hsettles⟩
      | none =>
        have hended : Ends W (fun _ => True) (yielding (.ok (exit, run'))) := .ended trivial
        refine ⟨.silent (silent_exit exit run') (.inr rfl) hended, ?_⟩
        exact (SettlesWithin.silent (silent_exit exit run') (.inr rfl) hended
          (.of_yielding n _)).mono (Nat.le_succ n)
  intro m hm t b hr hb
  have hstart := bound_start inner run
  obtain ⟨a, ha, hab⟩ | ⟨n₁, n₂, t₁, t₂, y, d, hy, hd, hrest, rfl, -⟩ :=
    hr.split_or (.machine (.focus inner []) run)
  · refine ((h m hm t a ha hab.based).bound (hstart.reaches ha)).onto hab fun y d hy hd => ?_
    exact (hend y d hy.2 hd).1
  · refine (hend y d ?_ hd).2 n₂ (by omega) t₂ b hrest hb
    rintro exit run' rfl
    exact (hstart.reaches hy).of_yielding

end Sequence

end Activity

end Effects
