import Effects.Proofs.Policy.Given
import Effects.Proofs.Policy.Level
import Mathlib.Logic.Equiv.Prod

/-!
Schedules side by side in another order, grouped in another way, or beside themselves. Their
decisions are the same; the states and the outputs are swapped, regrouped or doubled.
-/

namespace Effects

theorem Duration.nanos_min (a b : Duration) : (min a b).nanos = min a.nanos b.nanos := by
  show (if a ≤ b then a else b).nanos = _
  by_cases h : a ≤ b
  · rw [if_pos h, min_eq_left h]
  · rw [if_neg h, min_eq_right (Nat.le_of_not_le h)]

namespace Decision

variable {σ τ υ : Type}

/-- Both components alike. -/
def double (s : σ) : σ × σ := (s, s)

theorem both_swap (d : Decision σ) (e : Decision τ) :
    e.both d = (d.both e).mapState Prod.swap := by
  cases d <;> cases e <;> try rfl
  exact congrArg (again _) (Duration.ext (by simp only [Duration.nanos_max, max_comm]))

theorem both_assoc (d : Decision σ) (e : Decision τ) (g : Decision υ) :
    d.both (e.both g) = ((d.both e).both g).mapState (Equiv.prodAssoc σ τ υ) := by
  cases d <;> cases e <;> cases g <;> try rfl
  exact congrArg (again _) (Duration.ext (by simp only [Duration.nanos_max, max_assoc]))

theorem both_self (d : Decision σ) : d.both d = d.mapState double := by
  cases d <;> try rfl
  exact congrArg (again _) (Duration.ext (by rw [Duration.nanos_max, max_self]))

theorem either_swap (s : σ × τ) (d : Decision σ) (e : Decision τ) :
    either s.swap e d = (either s d e).mapState Prod.swap := by
  cases d <;> cases e <;> try rfl
  exact congrArg (again _) (Duration.ext (by simp only [Duration.nanos_min, min_comm]))

/-- Where an inner pair stops as a whole, the outer one keeps the pair of the states that the inner
one would have kept one by one. -/
theorem either_assoc (s : (σ × τ) × υ) (d : Decision σ) (e : Decision τ) (g : Decision υ) :
    either (Equiv.prodAssoc σ τ υ s) d (either (s.1.2, s.2) e g) =
      (either s (either s.1 d e) g).mapState (Equiv.prodAssoc σ τ υ) := by
  cases d <;> cases e <;> cases g <;> try rfl
  exact congrArg (again _) (Duration.ext (by simp only [Duration.nanos_min, min_assoc]))

theorem either_self (s : σ) (d : Decision σ) : either (s, s) d d = d.mapState double := by
  cases d <;> try rfl
  exact congrArg (again _) (Duration.ext (by rw [Duration.nanos_min, min_self]))

end Decision

namespace Schedule

open Effect (plain_pure plain_map_iff plain_zip_iff)

variable {ε ι σ τ υ ο ρ κ : Type} [Datum ε] [Datum σ] [Datum τ] [Datum υ]

/-- Asked about these inputs, one after the other until it stops, the schedule may decide so. -/
inductive Makes (s : Schedule ε ι σ ο) : σ → List ι → List (Decision σ) → Prop
  | nil (state : σ) : Makes s state [] []
  | stops {state : σ} {input : ι} (inputs : List ι)
      (h : (s.update input state).ComesTo (.completed .done)) :
      Makes s state (input :: inputs) [.done]
  | goes {state next : σ} {delay : Duration} {input : ι} {inputs : List ι} {ds : List (Decision σ)}
      (h : (s.update input state).ComesTo (.completed (.again next delay)))
      (hrest : Makes s next inputs ds) :
      Makes s state (input :: inputs) (.again next delay :: ds)

/-- The updates give these decisions, and nothing else. -/
def Decides (s : Schedule ε ι σ ο) (decide : ι → σ → Decision σ) : Prop :=
  ∀ input state, (s.update input state).Gives (decide input state)

/-- The updates are pure: they find these decisions without an operation. -/
def IsPure (s : Schedule ε ι σ ο) (decide : ι → σ → Decision σ) : Prop :=
  ∀ input state, (s.update input state).Plain (decide input state)

def decisions (decide : ι → σ → Decision σ) : σ → List ι → List (Decision σ)
  | _, [] => []
  | state, input :: inputs =>
      match decide input state with
      | .again next delay => .again next delay :: decisions decide next inputs
      | .done => [.done]

theorem Decides.makes_iff {s : Schedule ε ι σ ο} {decide : ι → σ → Decision σ}
    (h : s.Decides decide) {state : σ} {inputs : List ι} {ds : List (Decision σ)} :
    s.Makes state inputs ds ↔ ds = decisions decide state inputs := by
  have hcomes : ∀ input state d,
      (s.update input state).ComesTo (.completed d) ↔ d = decide input state := fun input state d =>
    ((h input state).computes _).trans ⟨fun h => Outcome.completed.inj h, congrArg _⟩
  constructor
  · intro hmakes
    induction hmakes with
    | nil => rfl
    | stops _ h => rw [decisions, ← (hcomes _ _ _).1 h]
    | goes h _ ih => rw [decisions, ← (hcomes _ _ _).1 h, ih]
  · rintro rfl
    induction inputs generalizing state with
    | nil => exact .nil state
    | cons input inputs ih =>
      have hd := (hcomes input state _).2 rfl
      rw [decisions]
      generalize decide input state = d at hd
      cases d with
      | done => exact .stops inputs hd
      | again => exact .goes hd ih

omit [Datum σ] [Datum τ] in
theorem decisions_mapState {decide : ι → σ → Decision σ} {decide' : ι → τ → Decision τ} (f : σ → τ)
    (h : ∀ input state, decide' input (f state) = (decide input state).mapState f) (state : σ)
    (inputs : List ι) :
    decisions decide' (f state) inputs = (decisions decide state inputs).map (.mapState f) := by
  induction inputs generalizing state with
  | nil => rfl
  | cons input inputs ih =>
    rw [decisions, decisions, h]
    cases decide input state with
    | done => rfl
    | again next delay => exact congrArg _ (ih next)

section Closed

omit [Datum ε] in
theorem pure_isPure (initial : σ) (extract : ι → σ → ο) (update : ι → σ → Decision σ) :
    (pure initial extract update : Schedule ε ι σ ο).IsPure update := fun _ _ => plain_pure _

variable {a : Schedule ε ι σ ο} {b : Schedule ε ι τ ρ} {da : ι → σ → Decision σ}
  {db : ι → τ → Decision τ}

omit [Datum ε] in
theorem IsPure.decides (h : a.IsPure da) : a.Decides da := fun input state =>
  (h input state).gives

omit [Datum ε] in
theorem IsPure.and (ha : a.IsPure da) (hb : b.IsPure db) :
    (a.and b).IsPure fun input s => (da input s.1).both (db input s.2) := fun input s =>
  plain_map_iff.2 ⟨(da input s.1, db input s.2), plain_zip_iff.2 ⟨ha input s.1, hb input s.2⟩, rfl⟩

omit [Datum ε] in
theorem Decides.or (ha : a.Decides da) (hb : b.Decides db) :
    (a.or b).Decides fun input s => .either s (da input s.1) (db input s.2) := fun input s =>
  Effect.parMap₂_gives (ha input s.1) (hb input s.2)

end Closed

/-- Started in corresponding states and asked about the same inputs, the second schedule makes the
decisions of the first: it goes on or stops as the first does and after the same delay, in the
corresponding state, and shows the corresponding output. -/
structure Alike (a : Schedule ε ι σ ο) (b : Schedule ε ι τ ρ) (f : σ → τ) (g : ο → ρ) : Prop where
  starts : ∀ {state}, a.initial.Plain state → b.initial.Plain (f state)
  decides : ∀ state inputs, ∃! ds, a.Makes state inputs ds
  makes : ∀ state inputs es,
    b.Makes (f state) inputs es ↔ ∃ ds, a.Makes state inputs ds ∧ es = ds.map (.mapState f)
  shows : ∀ input state, b.extract input (f state) = g (a.extract input state)

theorem Decides.alike {a : Schedule ε ι σ ο} {b : Schedule ε ι τ ρ} {da : ι → σ → Decision σ}
    {db : ι → τ → Decision τ} {f : σ → τ} {g : ο → ρ} (ha : a.Decides da) (hb : b.Decides db)
    (hstarts : ∀ {state}, a.initial.Plain state → b.initial.Plain (f state))
    (hf : ∀ input state, db input (f state) = (da input state).mapState f)
    (hg : ∀ input state, b.extract input (f state) = g (a.extract input state)) :
    Alike a b f g where
  starts := hstarts
  decides state inputs := ⟨_, ha.makes_iff.2 rfl, fun _ h => ha.makes_iff.1 h⟩
  makes state inputs es := by
    rw [hb.makes_iff, decisions_mapState f hf]
    constructor
    · rintro rfl
      exact ⟨_, ha.makes_iff.2 rfl, rfl⟩
    · rintro ⟨ds, hds, rfl⟩
      rw [ha.makes_iff.1 hds]
  shows := hg

/-- Putting schedules side by side knows no order and no grouping, and beside itself a schedule
decides as it does alone. -/
structure Regroups (op : ∀ {σ τ ο ρ : Type} [Datum σ] [Datum τ],
      Schedule ε ι σ ο → Schedule ε ι τ ρ → Schedule ε ι (σ × τ) (ο × ρ))
    (a : Schedule ε ι σ ο) (b : Schedule ε ι τ ρ) (c : Schedule ε ι υ κ) : Prop where
  swap : Alike (op a b) (op b a) Prod.swap Prod.swap
  assoc : Alike (op (op a b) c) (op a (op b c)) (Equiv.prodAssoc σ τ υ) (Equiv.prodAssoc ο ρ κ)
  self : Alike a (op a a) Decision.double Decision.double

theorem combinations_regroup {a : Schedule ε ι σ ο} {b : Schedule ε ι τ ρ} {c : Schedule ε ι υ κ}
    {da : ι → σ → Decision σ} {db : ι → τ → Decision τ} {dc : ι → υ → Decision υ}
    (ha : a.IsPure da) (hb : b.IsPure db) (hc : c.IsPure dc) :
    Regroups Schedule.and a b c ∧ Regroups Schedule.or a b c := by
  have hswap : ∀ {p}, (a.initial.zip b.initial).Plain p → (b.initial.zip a.initial).Plain p.swap :=
    fun h => plain_zip_iff.2 (plain_zip_iff.1 h).symm
  have hassoc : ∀ {p}, ((a.initial.zip b.initial).zip c.initial).Plain p →
      (a.initial.zip (b.initial.zip c.initial)).Plain (Equiv.prodAssoc σ τ υ p) := by
    intro p h
    obtain ⟨hab, hc⟩ := plain_zip_iff.1 h
    obtain ⟨ha, hb⟩ := plain_zip_iff.1 hab
    exact plain_zip_iff.2 ⟨ha, plain_zip_iff.2 ⟨hb, hc⟩⟩
  have hself : ∀ {s}, a.initial.Plain s → (a.initial.zip a.initial).Plain (Decision.double s) :=
    fun h => plain_zip_iff.2 ⟨h, h⟩
  refine ⟨⟨?_, ?_, ?_⟩, ?_, ?_, ?_⟩
  · exact (ha.and hb).decides.alike (hb.and ha).decides hswap
      (fun _ _ => Decision.both_swap _ _) fun _ _ => rfl
  · exact ((ha.and hb).and hc).decides.alike (ha.and (hb.and hc)).decides hassoc
      (fun _ _ => Decision.both_assoc _ _ _) fun _ _ => rfl
  · exact ha.decides.alike (ha.and ha).decides hself
      (fun _ _ => Decision.both_self _) fun _ _ => rfl
  · exact (ha.decides.or hb.decides).alike (hb.decides.or ha.decides) hswap
      (fun _ s => Decision.either_swap s _ _) fun _ _ => rfl
  · exact ((ha.decides.or hb.decides).or hc.decides).alike
      (ha.decides.or (hb.decides.or hc.decides)) hassoc
      (fun _ s => Decision.either_assoc s _ _ _) fun _ _ => rfl
  · exact ha.decides.alike (ha.decides.or ha.decides) hself
      (fun _ s => Decision.either_self s _) fun _ _ => rfl

/-- Among them are the counting schedules and those that the adjustments of delays make of them. -/
theorem counting_regroups :
    let a : Schedule Unit Nat Nat Nat := recurs 2
    let b : Schedule Unit Nat Nat Duration := linear (.ofMillis 3)
    let c : Schedule Unit Nat Nat Nat := (spaced (.ofMillis 5)).withMaxDelay (.ofMillis 4)
    Regroups Schedule.and a b c ∧ Regroups Schedule.or a b c := by
  intro a b c
  exact combinations_regroup (pure_isPure _ _ _) (pure_isPure _ _ _) fun _ _ =>
    plain_map_iff.2 ⟨_, plain_pure _, rfl⟩

end Schedule

end Effects
