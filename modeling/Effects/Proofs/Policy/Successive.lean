import Effects.Proofs.Policy.Handover
import Mathlib.Logic.Equiv.Sum

/-!
Schedules in succession: what is waited for and shown in turn, and that it does not matter how three
of them are grouped.
-/

namespace Effects.Policy

variable {ε ι σ τ υ φ ο ρ : Type}

section Lists

variable {xs : List (Asked ε ι σ)} {x : Asked ε ι σ} {f : σ → τ}

theorem delays_mapState : delays (xs.map (.mapState f)) = delays xs := by
  rw [delays, List.filterMap_map]
  exact congrArg (List.filterMap · xs) (funext Asked.delay?_mapState)

theorem outputs_mapState {a : Schedule ε ι σ ο} {c : Schedule ε ι τ ο}
    (h : ∀ input s, c.extract input (f s) = a.extract input s) :
    outputs c (xs.map (.mapState f)) = outputs a xs := by
  rw [outputs, List.filterMap_map]
  refine congrArg (List.filterMap · xs) (funext fun x => ?_)
  rw [Function.comp, Asked.shown?, Asked.next?_mapState, Asked.shown?, Option.map_map]
  exact congrArg (Option.map · x.next?) (funext (h x.input))

theorem stopped_mapState : stopped (xs.map (.mapState f)) ↔ stopped xs := by
  simp only [stopped, List.mem_map, exists_exists_and_eq_and]
  exact exists_congr fun x => and_congr_right fun _ => x.stops_mapState

theorem stopped_append {ys : List (Asked ε ι σ)} :
    stopped (xs ++ ys) ↔ stopped xs ∨ stopped ys := by
  simp [stopped, or_and_right, exists_or]

theorem not_stopped_of_append [Datum ε] [Datum σ] {a : Schedule ε ι σ ο} {s : σ}
    (h : a.Runs s (xs ++ [x])) : ¬ stopped xs := by
  induction xs generalizing s with
  | nil => nofun
  | cons y ys ih =>
    obtain ⟨-, hnil | ⟨next, hnext, hrest⟩⟩ := Steps.cons_iff.1 h
    · simp at hnil
    · rw [stopped_cons, not_or]
      exact ⟨Asked.ne_done_of hnext, ih hrest⟩

end Lists

variable [Datum ε] [Datum σ] [Datum τ] [Datum υ]

section Handover

variable {a : Schedule ε ι σ ο} {b : Schedule ε ι τ ρ} {s : σ} {xs : List (Asked ε ι σ)}
  {ys : List (Asked ε ι τ)} {zs : List (Asked ε ι (σ ⊕ τ))}

/-- What is read off the steps in turn, if nothing is where a run ends. -/
theorem Handover.filterMap {γ : Type} {k : Asked ε ι (σ ⊕ τ) → Option γ}
    {f : Asked ε ι σ → Option γ} {g : Asked ε ι τ → Option γ}
    (hleft : ∀ x, k (x.mapState .inl) = f x)
    (hright : ∀ y run t, k { y.mapState .inr with run := run, trace := t } = g y)
    (hends : ∀ z, z.next? = none → k z = none) (h : Handover a b s xs ys zs) :
    zs.filterMap k = xs.filterMap f ++ ys.filterMap g := by
  have hwithin : ∀ xs : List (Asked ε ι σ),
      (xs.map (.mapState .inl)).filterMap k = xs.filterMap f := by
    intro xs
    rw [List.filterMap_map]
    exact congrArg (List.filterMap · xs) (funext hleft)
  -- Nothing is read off the step that the first schedule stops at, which the handover replaces.
  have hstop : ∀ {x : Asked ε ι σ} {run}, x.upshot = .ok (.completed .done, run) → f x = none := by
    intro x run hx
    rw [← hleft]
    refine hends _ ?_
    rw [Asked.next?_mapState, Asked.next?, Asked.decision?, hx]
    rfl
  cases h with
  | within h hgoes => rw [hwithin, List.filterMap_nil, List.append_nil]
  | refused xs h hstops hstart hpasses =>
    rw [List.filterMap_append, List.filterMap_append, hwithin, List.filterMap_nil, List.append_nil,
      List.filterMap_cons_none (hstop hstops), List.filterMap_cons_none (hends _ ?_)]
    · rfl
    · cases hpasses <;> rfl
  | @handed xs x run t fresh y ys h hstops hstart hrest hinput =>
    have hys : (ys.map (.mapState .inr)).filterMap k = ys.filterMap g := by
      rw [List.filterMap_map]
      exact congrArg (List.filterMap · ys) (funext fun y => hright y y.run y.trace)
    rw [List.filterMap_append, List.filterMap_append, hwithin,
      List.filterMap_cons_none (hstop hstops), List.filterMap_nil, List.append_nil,
      List.filterMap_cons, List.filterMap_cons, hys, ← hinput]
    exact congrArg _ (by rw [← hright y x.run]; rfl)

theorem Handover.delays (h : Handover a b s xs ys zs) : delays zs = delays xs ++ delays ys :=
  h.filterMap Asked.delay?_mapState (fun y _ _ => y.delay?_mapState) fun z hz => by
    by_contra hd
    exact Asked.delay?_ne_none.1 hd hz

theorem Handover.stopped (h : Handover a b s xs ys zs) : stopped zs ↔ stopped ys := by
  cases h with
  | within h hgoes =>
    rw [stopped_mapState]
    exact iff_of_false hgoes nofun
  | refused xs h hstops hstart hpasses =>
    rw [stopped_append, stopped_mapState, stopped_cons]
    refine iff_of_false ?_ nofun
    rintro (hxs | hz | hnil)
    · exact not_stopped_of_append h hxs
    · cases hpasses <;> cases hz
    · exact absurd hnil nofun
  | @handed xs x run t fresh y ys h hstops hstart hrest hinput =>
    rw [stopped_append, stopped_mapState, stopped_cons, stopped_mapState, stopped_cons,
      or_iff_right (not_stopped_of_append h)]
    exact or_congr_left y.stops_mapState

variable {f : ο → φ} {g : ρ → φ}

theorem Handover.outputs (h : Handover a b s xs ys zs) :
    outputs ((a.map f).andThen (b.map g)) zs =
      (outputs a xs).map f ++ (outputs b ys).map g := by
  rw [Policy.outputs, Policy.outputs, Policy.outputs, List.map_filterMap, List.map_filterMap]
  refine h.filterMap (fun x => ?_) (fun y run t => ?_) fun z hz => ?_
  · rw [Asked.shown?, Asked.next?_mapState, Asked.shown?, Option.map_map, Option.map_map]
    rfl
  · change Option.map _ (Asked.next? (y.mapState Sum.inr)) = _
    rw [Asked.next?_mapState, Asked.shown?, Option.map_map, Option.map_map]
    rfl
  · rw [Asked.shown?, hz, Option.map_none]

end Handover

section Grouping

open Effect

variable {a : Schedule ε ι σ ο} {b : Schedule ε ι τ ο} {c : Schedule ε ι υ ο} {input : ι}

omit [Datum ε] in
theorem andThen_inl (s : σ) :
    (a.andThen b).update input (.inl s) = (a.update input s).flatMap (follows b input) :=
  update_inl (f := id) (g := id) input

/-- From `(σ ⊕ τ) ⊕ υ` to `σ ⊕ (τ ⊕ υ)`. -/
abbrev regroup (σ τ υ : Type) : Decision ((σ ⊕ τ) ⊕ υ) → Decision (σ ⊕ τ ⊕ υ) :=
  .mapState (Equiv.sumAssoc σ τ υ)

theorem last_regrouped (e : Effect ε (Decision υ)) :
    ((e.map (.mapState .inr)).map (.mapState .inr)).Same
      ((e.map (.mapState .inr)).map (regroup σ τ υ)) := by
  have heq : ∀ d : Decision υ,
      (d.mapState Sum.inr).mapState Sum.inr = regroup σ τ υ (d.mapState .inr) := by
    intro d
    cases d <;> rfl
  have hmaps := map_map e (.mapState .inr) (regroup σ τ υ)
  rw [← funext heq] at hmaps
  exact (map_map e _ _).trans hmaps.symm

theorem follows_regrouped (d : Decision τ) :
    ((follows c input d).map (.mapState .inr)).Same
      ((follows c input (d.mapState .inr)).map (regroup σ τ υ)) := by
  cases d with
  | again t delay =>
    exact (pure_map _ _).trans (pure_map (regroup σ τ υ) (.again (.inl (.inr t)) delay)).symm
  | done =>
    exact (flatMap_map _ _ _).trans
      (.trans (.flatMap (.refl _) fun _ => last_regrouped _) (flatMap_map _ _ (regroup σ τ υ)).symm)

theorem middle_regrouped (t : τ) :
    (((b.andThen c).update input (.inl t)).map (.mapState .inr)).Same
      ((((b.update input t).map (.mapState .inr)).flatMap (follows c input)).map
        (regroup σ τ υ)) := by
  rw [andThen_inl]
  exact (flatMap_map _ _ _).trans (.trans (.flatMap (.refl _) follows_regrouped)
    ((Same.map (map_flatMap _ _ _)).trans (flatMap_map _ _ _)).symm)

theorem update_regrouped (input : ι) (p : (σ ⊕ τ) ⊕ υ) :
    ((a.andThen (b.andThen c)).update input (Equiv.sumAssoc σ τ υ p)).Same
      ((((a.andThen b).andThen c).update input p).map (regroup σ τ υ)) := by
  match p with
  | .inr u => exact last_regrouped _
  | .inl (.inr t) =>
    rw [andThen_inl]
    exact middle_regrouped t
  | .inl (.inl s) =>
    have hfollows : ∀ d : Decision σ, (follows (b.andThen c) input d).Same
        (((follows b input d).flatMap (follows c input)).map (regroup σ τ υ)) := by
      intro d
      cases d with
      | again s delay =>
        exact ((pure_flatMap (follows c input) (Decision.again (Sum.inl s : σ ⊕ τ) delay)).map.trans
          (pure_map (regroup σ τ υ) (.again (.inl (.inl s)) delay))).symm
      | done =>
        exact (map_flatMap _ _ _).trans (.trans (.flatMap (.refl _) middle_regrouped)
          ((Same.map (flatMap_assoc _ _ _)).trans (flatMap_map _ _ _)).symm)
    rw [andThen_inl, andThen_inl]
    change Effect.Same ((a.andThen (b.andThen c)).update input (.inl s)) _
    rw [andThen_inl]
    exact .trans (.flatMap (.refl _) hfollows)
      ((Same.map (flatMap_assoc _ _ _)).trans (flatMap_map _ _ _)).symm

end Grouping

/-- A schedule that is the first one until this stops, and then the second one. -/
structure Succeeds (a : Schedule ε ι σ ο) (b : Schedule ε ι τ ρ) (c : Schedule ε ι (σ ⊕ τ) φ)
    (left : ο → φ) (right : ρ → φ) : Prop where
  starts : ∀ {run t x}, c.initial.Yields run t x ↔
    ∃ y, a.initial.Yields run t y ∧ y.mapValue .inl = x
  runs : ∀ {s : σ} {zs : List (Asked ε ι (σ ⊕ τ))},
    c.Runs (.inl s) zs ↔ ∃ xs ys, Handover a b s xs ys zs
  resumes : ∀ {s : τ} {zs : List (Asked ε ι (σ ⊕ τ))},
    c.Runs (.inr s) zs ↔ ∃ ys, b.Runs s ys ∧ ys.map (.mapState .inr) = zs
  delays : ∀ {s : σ} {xs ys zs}, Handover a b s xs ys zs → delays zs = delays xs ++ delays ys
  stopped : ∀ {s : σ} {xs ys zs}, Handover a b s xs ys zs → (stopped zs ↔ stopped ys)
  shown : ∀ {s : σ} {xs ys zs}, Handover a b s xs ys zs →
    outputs c zs = (outputs a xs).map left ++ (outputs b ys).map right

theorem succeeds (a : Schedule ε ι σ ο) (b : Schedule ε ι τ ρ) (left : ο → φ) (right : ρ → φ) :
    Succeeds a b ((a.map left).andThen (b.map right)) left right where
  starts := Effect.mapped_yields
  runs := ⟨handover_of_runs, fun ⟨_, _, h⟩ => runs_of_handover h⟩
  resumes := runs_inr
  delays h := h.delays
  stopped h := h.stopped
  shown h := h.outputs

/-- Three schedules in succession, grouped in one way or the other. -/
structure Regroups (a : Schedule ε ι σ ο) (b : Schedule ε ι τ ο) (c : Schedule ε ι υ ο) : Prop where
  starts : ∀ {run t x}, (a.andThen (b.andThen c)).initial.Yields run t x ↔
    ∃ y, ((a.andThen b).andThen c).initial.Yields run t y ∧
      y.mapValue (Equiv.sumAssoc σ τ υ) = x
  runs : ∀ {p zs}, (a.andThen (b.andThen c)).Runs (Equiv.sumAssoc σ τ υ p) zs ↔
    ∃ xs, ((a.andThen b).andThen c).Runs p xs ∧ xs.map (.mapState (Equiv.sumAssoc σ τ υ)) = zs
  delays : ∀ xs : List (Asked ε ι ((σ ⊕ τ) ⊕ υ)),
    delays (xs.map (.mapState (Equiv.sumAssoc σ τ υ))) = delays xs
  stopped : ∀ xs : List (Asked ε ι ((σ ⊕ τ) ⊕ υ)),
    stopped (xs.map (.mapState (Equiv.sumAssoc σ τ υ))) ↔ stopped xs
  shown : ∀ xs : List (Asked ε ι ((σ ⊕ τ) ⊕ υ)),
    outputs (a.andThen (b.andThen c)) (xs.map (.mapState (Equiv.sumAssoc σ τ υ))) =
      outputs ((a.andThen b).andThen c) xs

omit [Datum ε] in
theorem extract_regrouped (a : Schedule ε ι σ ο) (b : Schedule ε ι τ ο) (c : Schedule ε ι υ ο)
    (input : ι) (p : (σ ⊕ τ) ⊕ υ) :
    (a.andThen (b.andThen c)).extract input (Equiv.sumAssoc σ τ υ p) =
      ((a.andThen b).andThen c).extract input p := by
  rcases p with (s | t) | u <;> rfl

theorem regroups (a : Schedule ε ι σ ο) (b : Schedule ε ι τ ο) (c : Schedule ε ι υ ο) :
    Regroups a b c where
  starts := by
    intro run t x
    have hmaps := (Effect.map_map (a.initial.map (Sum.inl (β := τ))) (Sum.inl (β := υ))
      (Equiv.sumAssoc σ τ υ)).trans (Effect.map_map a.initial _ _)
    exact (hmaps.symm run t x).trans Effect.mapped_yields
  runs := Steps.map_iff _ _ (fun p _ => asks_map (update_regrouped · p)) Asked.next?_mapState
  delays _ := delays_mapState
  stopped _ := stopped_mapState
  shown _ := outputs_mapState (extract_regrouped a b c)

/-- Each is in force until it stops; the next one takes over with the input that stopped it. -/
theorem one_after_another (a : Schedule ε ι σ ο) (b : Schedule ε ι τ ο) (c : Schedule ε ι υ ο)
    (d : Schedule ε ι τ ρ) :
    Succeeds a b (a.andThen b) id id ∧ Succeeds a d (a.andThenEither d) .inl .inr ∧
      Regroups a b c :=
  ⟨succeeds a b id id, succeeds a d Sum.inl Sum.inr, regroups a b c⟩

end Effects.Policy
