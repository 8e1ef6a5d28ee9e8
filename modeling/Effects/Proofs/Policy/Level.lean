import Effects.Proofs.Policy.Steps

/-!
Two schedules in one: each of its steps is a step of the first one and, if this leads to one, a step
of the second. What they do has much in common with what each of the two does.
-/

namespace Effects

section Abreast

/-- Goes on while both do. -/
def Decision.joined {σ τ : Type} (wait : Duration → Duration → Duration) :
    Decision σ → Decision τ → Decision (σ × τ)
  | .again s d, .again t e => .again (s, t) (wait d e)
  | _, _ => .done

theorem Decision.both_eq_joined {σ τ : Type} :
    (both : Decision σ → Decision τ → Decision (σ × τ)) = joined max := by
  funext d e
  cases d <;> cases e <;> rfl

namespace Policy

variable {ε ι κ σ τ ο ρ : Type} {second : ι → Decision σ → Option κ}
  {wait : Duration → Duration → Duration}

/-- A step of the first schedule, the step of the second that it leads to, and the step of both: the
second one is asked after the first has decided, and what is asked depends on that. -/
inductive Pairs (second : ι → Decision σ → Option κ) (wait : Duration → Duration → Duration) :
    Asked ε ι σ → Option (Asked ε κ τ) → Asked ε ι (σ × τ) → Prop
  | fails {input run t x z} (h : x.Passes z) :
      Pairs second wait ⟨input, run, t, x⟩ none ⟨input, run, t, z⟩
  | alone {input run t d run'} (h : second input d = none) :
      Pairs second wait ⟨input, run, t, .ok (.completed d, run')⟩ none
        ⟨input, run, t, .ok (.completed .done, run')⟩
  | both {input run t₁ d run₁ fed t₂ y} (h : second input d = some fed) :
      Pairs second wait ⟨input, run, t₁, .ok (.completed d, run₁)⟩ (some ⟨fed, run₁, t₂, y⟩)
        ⟨input, run, t₁ ++ t₂, y.mapValue (d.joined wait)⟩

inductive Abreast (second : ι → Decision σ → Option κ) (wait : Duration → Duration → Duration) :
    List (Asked ε ι σ) → List (Asked ε κ τ) → List (Asked ε ι (σ × τ)) → Prop
  | waits : Abreast second wait [] [] []
  | ends {x y? z} (h : Pairs second wait x y? z) (hz : z.next? = none) :
      Abreast second wait [x] y?.toList [z]
  | goes {x y z next xs ys zs} (h : Pairs second wait x (some y) z) (hz : z.next? = some next)
      (rest : Abreast second wait xs ys zs) : Abreast second wait (x :: xs) (y :: ys) (z :: zs)

namespace Pairs

variable {x : Asked ε ι σ} {y : Asked ε κ τ} {y? : Option (Asked ε κ τ)} {z : Asked ε ι (σ × τ)}

theorem input (h : Pairs second wait x y? z) : z.input = x.input := by
  cases h <;> rfl

theorem run (h : Pairs second wait x y? z) : z.run = x.run := by
  cases h <;> rfl

theorem fed (h : Pairs second wait x y? z) :
    y?.map Asked.input = x.decision?.bind (second x.input) := by
  cases h with
  | fails h => cases h <;> rfl
  | alone h => exact h.symm
  | both h => exact h.symm

theorem decision_alone (h : Pairs (τ := τ) second wait x none z) :
    z.decision? = x.decision?.map fun _ => .done := by
  cases h with
  | fails h => cases h <;> rfl
  | alone h => rfl

theorem decision_both (h : Pairs second wait x (some y) z) :
    z.decision? = x.decision?.bind fun d => y.decision?.map (d.joined wait) := by
  cases h with
  | @both input run t₁ d run₁ fed t₂ y h =>
    obtain message | ⟨e | error | _, run₂⟩ := y <;> rfl

theorem next? (h : Pairs second wait x y? z) :
    z.next? = x.next?.bind fun s => (y?.bind Asked.next?).map (s, ·) := by
  cases h with
  | fails h => cases h <;> rfl
  | @alone input run t d run' h => cases d <;> rfl
  | @both input run t₁ d run₁ fed t₂ y h =>
    obtain message | ⟨e | error | _, run₂⟩ := y <;> cases d <;> try rfl
    cases e <;> rfl

theorem delay? (h : Pairs second wait x y? z) :
    z.delay? = x.delay?.bind fun d => (y?.bind Asked.delay?).map (wait d) := by
  cases h with
  | fails h => cases h <;> rfl
  | @alone input run t d run' h => cases d <;> rfl
  | @both input run t₁ d run₁ fed t₂ y h =>
    obtain message | ⟨e | error | _, run₂⟩ := y <;> cases d <;> try rfl
    cases e <;> rfl

theorem goes {next : σ × τ} (h : Pairs second wait x (some y) z) (hz : z.next? = some next) :
    ∃ d e, x.decision? = some (.again next.1 d) ∧ y.decision? = some (.again next.2 e) ∧
      z.decision? = some (.again next (wait d e)) := by
  cases h with
  | @both input run t₁ d run₁ fed t₂ y h =>
    obtain message | ⟨e | error | _, run₂⟩ := y <;> cases d <;> try cases hz
    cases e <;> cases hz
    exact ⟨_, _, rfl, rfl, rfl⟩

end Pairs

section Runs

variable [Datum ε] [Datum σ] [Datum τ] {a : Schedule ε ι σ ο} {b : Schedule ε κ τ ρ} {υ : Type}
  {c : Schedule ε ι (σ × τ) υ} {s : σ} {s' : τ} {zs : List (Asked ε ι (σ × τ))}

theorem runs_abreast (hasks : ∀ s s' z, c.Asks (s, s') z ↔ ∃ x y?, Pairs second wait x y? z ∧
      a.Asks s x ∧ ∀ y ∈ y?, b.Asks s' y) :
    c.Runs (s, s') zs ↔ ∃ xs ys, a.Runs s xs ∧ b.Runs s' ys ∧ Abreast second wait xs ys zs := by
  constructor
  · intro h
    generalize hp : (s, s') = p at h
    induction h generalizing s s' with
    | waits => exact ⟨[], [], .waits s, .waits s', .waits⟩
    | ends h hz =>
      subst hp
      obtain ⟨x, y?, hpairs, hx, hy⟩ := (hasks _ _ _).1 h
      refine ⟨[x], y?.toList, .single hx, ?_, .ends hpairs hz⟩
      cases y? with
      | none => exact .waits s'
      | some y => exact .single (hy y rfl)
    | @goes _ z next _ h hz hrest ih =>
      subst hp
      obtain ⟨x, y?, hpairs, hx, hy⟩ := (hasks _ _ _).1 h
      obtain ⟨xs, ys, hxs, hys, habreast⟩ := ih rfl
      cases y? with
      | none =>
        rw [hpairs.next?] at hz
        simp at hz
      | some y =>
        obtain ⟨d, e, hd, he, -⟩ := hpairs.goes hz
        exact ⟨x :: xs, y :: ys, .goes hx (Asked.next?_of hd) hxs,
          .goes (hy y rfl) (Asked.next?_of he) hys, .goes hpairs hz habreast⟩
  · rintro ⟨xs, ys, hxs, hys, habreast⟩
    induction habreast generalizing s s' with
    | waits => exact .waits _
    | @ends x y? z hpairs hz =>
      -- Each side may still go on here, so only the first step of its run is used.
      refine .ends ((hasks _ _ _).2 ⟨x, y?, hpairs, (Steps.cons_iff.1 hxs).1, ?_⟩) hz
      rintro y rfl
      exact (Steps.cons_iff.1 hys).1
    | @goes x y z next _ _ _ hpairs hz rest ih =>
      obtain ⟨d, e, hd, he, -⟩ := hpairs.goes hz
      refine .goes ((hasks _ _ _).2 ⟨x, some y, hpairs, (Steps.cons_iff.1 hxs).1, ?_⟩) hz
        (ih (hxs.tail (Asked.next?_of hd)) (hys.tail (Asked.next?_of he)))
      rintro y' ⟨⟩
      exact (Steps.cons_iff.1 hys).1

end Runs

end Policy

end Abreast

section Level

theorem Duration.nanos_max (a b : Duration) : (max a b).nanos = max a.nanos b.nanos := by
  change (if a ≤ b then b else a).nanos = _
  split <;> rename_i h
  · exact (Nat.max_eq_right h).symm
  · exact (Nat.max_eq_left (Nat.le_of_not_le h)).symm

namespace Policy

variable {ε ι κ σ τ ο ρ : Type}

/-- Some step has come to no decision. -/
def failed (xs : List (Asked ε ι σ)) : Prop := ∃ x ∈ xs, x.decision? = none

/-- What the steps of two schedules abreast have in common with those of each. -/
structure Level (wait : Nat → Nat → Nat) (xs : List (Asked ε ι σ)) (ys : List (Asked ε κ τ))
    (zs : List (Asked ε ι (σ × τ))) : Prop where
  inputs : zs.map Asked.input = xs.map Asked.input
  runs : zs.map Asked.run = xs.map Asked.run
  states : states zs = (states xs).zip (states ys)
  delays : (delays zs).map Duration.nanos =
    List.zipWith wait ((delays xs).map Duration.nanos) ((delays ys).map Duration.nanos)
  /-- They go on as often as the one that does so less often. -/
  length : (Policy.delays zs).length = min (Policy.delays xs).length (Policy.delays ys).length
  stopped : stopped zs ↔ (stopped xs ∨ stopped ys) ∧ ¬ failed ys
  /-- After an error of the first schedule the second one is not asked. -/
  spared : ∀ {x e run}, xs.getLast? = some x → x.upshot = .ok (.errored e, run) →
    ys.length + 1 = xs.length ∧ zs.getLast? = some ⟨x.input, x.run, x.trace, .ok (.errored e, run)⟩

section Abreast

variable {second : ι → Decision σ → Option κ} {wait : Duration → Duration → Duration}
  {x : Asked ε ι σ} {y : Asked ε κ τ} {y? : Option (Asked ε κ τ)} {z : Asked ε ι (σ × τ)}
  {xs : List (Asked ε ι σ)} {ys : List (Asked ε κ τ)} {zs : List (Asked ε ι (σ × τ))}

theorem Abreast.inputs (h : Abreast second wait xs ys zs) :
    zs.map Asked.input = xs.map Asked.input := by
  induction h with
  | waits => rfl
  | ends h => rw [List.map_singleton, List.map_singleton, h.input]
  | goes h _ _ ih => rw [List.map_cons, List.map_cons, h.input, ih]

theorem Abreast.runs (h : Abreast second wait xs ys zs) : zs.map Asked.run = xs.map Asked.run := by
  induction h with
  | waits => rfl
  | ends h => rw [List.map_singleton, List.map_singleton, h.run]
  | goes h _ _ ih => rw [List.map_cons, List.map_cons, h.run, ih]

/-- What the second schedule is asked is what the first one leads to. -/
theorem Abreast.fed (h : Abreast second wait xs ys zs) :
    ys.map Asked.input = xs.filterMap fun x => x.decision?.bind (second x.input) := by
  induction h with
  | waits => rfl
  | @ends x y? z h hz =>
    rw [List.filterMap_cons, ← h.fed]
    cases y? <;> rfl
  | goes h _ _ ih =>
    rw [List.filterMap_cons, ← h.fed, List.map_cons, ih]
    rfl

/-- What a step of both has if each has it on its own side, and has whenever it goes on. -/
theorem Abreast.zipWith {α β γ : Type} {f : Asked ε ι σ → Option α} {g : Asked ε κ τ → Option β}
    {k : Asked ε ι (σ × τ) → Option γ} {w : α → β → γ}
    (hpairs : ∀ x y? z, Pairs second wait x y? z → k z = (f x).bind fun a => (y?.bind g).map (w a))
    (hgoes : ∀ z, z.next? ≠ none → k z ≠ none) (h : Abreast second wait xs ys zs) :
    zs.filterMap k = List.zipWith w (xs.filterMap f) (ys.filterMap g) := by
  induction h with
  | waits => rfl
  | @ends x y? z h hz =>
    have hk := hpairs _ _ _ h
    cases hx : f x with
    | none =>
      rw [hx, Option.bind_none] at hk
      simp [hk, hx]
    | some a =>
      rw [hx, Option.bind_some] at hk
      cases y? with
      | none => simp [hk]
      | some y => cases hy : g y <;> simp [hk, hx, hy]
  | @goes x y z next _ _ _ h hz _ ih =>
    -- With nothing on one side there would be nothing for both, although they go on.
    have hk := hgoes z (by rw [hz]; exact Option.some_ne_none next)
    have hz := hpairs _ _ _ h
    simp only [Option.bind_some] at hz
    cases hx : f x with
    | none => exact absurd (hz.trans (by rw [hx, Option.bind_none])) hk
    | some a =>
      rw [hx, Option.bind_some] at hz
      cases hy : g y with
      | none => exact absurd (hz.trans (by rw [hy, Option.map_none])) hk
      | some b =>
        rw [hy, Option.map_some] at hz
        rw [List.filterMap_cons_some hx, List.filterMap_cons_some hy, List.filterMap_cons_some hz,
          List.zipWith_cons_cons, ih]

theorem Abreast.states (h : Abreast second wait xs ys zs) :
    states zs = (states xs).zip (states ys) :=
  h.zipWith (fun _ _ _ h => h.next?) fun _ hz => hz

theorem Abreast.delays (h : Abreast second wait xs ys zs) :
    delays zs = List.zipWith wait (delays xs) (delays ys) :=
  h.zipWith (fun _ _ _ h => h.delay?) fun _ => Asked.delay?_ne_none.2

theorem failed_cons : failed (x :: xs) ↔ x.decision? = none ∨ failed xs := by
  simp [failed]

theorem Abreast.stopped (hsecond : ∀ input d, second input d = none → d = .done)
    (h : Abreast second wait xs ys zs) :
    stopped zs ↔ (stopped xs ∨ stopped ys) ∧ ¬ failed ys := by
  induction h with
  | waits => simp [Policy.stopped]
  | @ends x y? z h hz =>
    have hfed := h.fed
    cases y? with
    | none =>
      cases hx : x.decision? with
      | none => simp [Policy.stopped, failed, h.decision_alone, hx]
      | some d =>
        rw [hx] at hfed
        obtain rfl := hsecond _ _ hfed.symm
        simp [Policy.stopped, failed, h.decision_alone, hx]
    | some y =>
      cases hx : x.decision? with
      | none => simp [hx] at hfed
      | some d =>
        cases hy : y.decision? with
        | none => simp [Policy.stopped, failed, h.decision_both, hx, hy]
        | some e =>
          have hstops : d.joined wait e = .done ↔ d = .done ∨ e = .done := by
            cases d <;> cases e <;> simp [Decision.joined]
          simp [Policy.stopped, failed, h.decision_both, hx, hy, hstops]
  | goes h hz _ ih =>
    obtain ⟨d, e, hx, hy, hz⟩ := h.goes hz
    simp only [stopped_cons, failed_cons, hx, hy, hz, ih, Option.some.injEq, reduceCtorEq,
      false_or]

theorem Abreast.spared {e : ε} {run : Run} (h : Abreast second wait xs ys zs)
    (hx : xs.getLast? = some x) (he : x.upshot = .ok (.errored e, run)) :
    ys.length + 1 = xs.length ∧
      zs.getLast? = some ⟨x.input, x.run, x.trace, .ok (.errored e, run)⟩ := by
  induction h with
  | waits => cases hx
  | ends h hz =>
    obtain rfl := Option.some.inj hx
    cases h with
    | fails h =>
      obtain rfl := he
      cases h
      exact ⟨rfl, rfl⟩
    | alone | both => cases he
  | @goes x' y z next xs ys zs h hz rest ih =>
    cases xs with
    | nil =>
      obtain ⟨d, _, hd, -, -⟩ := h.goes hz
      have hlast : x' = x := Option.some.inj hx
      rw [hlast, Asked.decision?, he] at hd
      cases hd
    | cons x'' xs =>
      rw [List.getLast?_cons_cons] at hx
      obtain ⟨hlength, hlast⟩ := ih hx
      refine ⟨congrArg (· + 1) hlength, ?_⟩
      cases zs with
      | nil => cases hlast
      | cons z' zs => rwa [List.getLast?_cons_cons]

theorem Abreast.level {wait' : Nat → Nat → Nat}
    (hwait : ∀ d e, (wait d e).nanos = wait' d.nanos e.nanos)
    (hsecond : ∀ input d, second input d = none → d = .done) (h : Abreast second wait xs ys zs) :
    Level wait' xs ys zs where
  inputs := h.inputs
  runs := h.runs
  states := h.states
  delays := by
    rw [h.delays, List.map_zipWith, List.zipWith_map]
    exact congrFun (congrFun (congrArg List.zipWith (funext fun d => funext (hwait d))) _) _
  length := by rw [h.delays, List.length_zipWith]
  stopped := h.stopped hsecond
  spared hx he := h.spared hx he

end Abreast

end Policy

end Level

end Effects
