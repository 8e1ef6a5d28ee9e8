import Effects.Proofs.Policy.Level

/-!
Schedules that go on while both of two do: side by side, and one fed by the other.
-/

namespace Effects.Policy

variable {ε ι κ σ τ υ ο ρ : Type} [Datum ε] [Datum σ] [Datum τ] {s : σ} {s' : τ}
  {z : Asked ε ι (σ × τ)}

/-- What comes after the first schedule has decided. -/
def Seconds (second : ι → Decision σ → Option κ) (wait : Duration → Duration → Duration)
    (b : Schedule ε κ τ ρ) (s' : τ) (input : ι) (d : Decision σ) (run : Run) (t : Trace)
    (x : Upshot ε (Decision (σ × τ))) : Prop :=
  match second input d with
  | none => t = [] ∧ x = .ok (.completed .done, run)
  | some fed => ∃ y, (b.update fed s').Yields run t y ∧ y.mapValue (d.joined wait) = x

theorem binds_pairs {a : Schedule ε ι σ ο} {b : Schedule ε κ τ ρ}
    {second : ι → Decision σ → Option κ} {wait : Duration → Duration → Duration} :
    (a.update z.input s).Binds (Seconds second wait b s' z.input) z.run z.trace z.upshot ↔
      ∃ x y?, Pairs second wait x y? z ∧ a.Asks s x ∧ ∀ y ∈ y?, b.Asks s' y := by
  obtain ⟨input, run, t, w⟩ := z
  constructor
  · intro h
    cases h with
    | passes h hpasses =>
      exact ⟨⟨input, run, t, _⟩, none, .fails hpasses, h, nofun⟩
    | @goes t₁ d run₁ t₂ w h hrest =>
      rw [Seconds] at hrest
      split at hrest
      next hsecond =>
        obtain ⟨rfl, rfl⟩ := hrest
        refine ⟨⟨input, run, t₁, _⟩, none, ?_, h, nofun⟩
        rw [show t₁.append [] = t₁ from List.append_nil t₁]
        exact .alone hsecond
      next fed hsecond =>
        obtain ⟨y, hy, rfl⟩ := hrest
        refine ⟨⟨input, run, t₁, _⟩, some ⟨fed, run₁, t₂, y⟩, .both hsecond, h, ?_⟩
        rintro _ ⟨⟩
        exact hy
  · rintro ⟨x, y?, hpairs, hx, hy⟩
    cases hpairs with
    | fails h => exact .passes hx h
    | alone hsecond =>
      refine .gives hx ?_
      rw [Seconds, hsecond]
      exact ⟨rfl, rfl⟩
    | both hsecond =>
      refine .goes hx ?_
      rw [Seconds, hsecond]
      exact ⟨_, hy _ rfl, rfl⟩

def same (input : ι) (_ : Decision σ) : Option ι := some input

theorem and_asks {a : Schedule ε ι σ ο} {b : Schedule ε ι τ ρ} :
    (a.and b).Asks (s, s') z ↔
      ∃ x y?, Pairs same max x y? z ∧ a.Asks s x ∧ ∀ y ∈ y?, b.Asks s' y := by
  refine Iff.trans ?_ binds_pairs
  refine Effect.mapped_yields.trans
    (.trans (exists_congr fun y => and_congr_left' Effect.zip_yields) ?_)
  refine Effect.Binds.mapValue.trans (Effect.Binds.congr fun d run t x => ?_)
  simp only [Seconds, same, ← Decision.both_eq_joined]
  constructor
  · rintro ⟨_, ⟨y, hy, rfl⟩, rfl⟩
    refine ⟨y, hy, ?_⟩
    rw [Upshot.mapValue_mapValue]
  · rintro ⟨y, hy, rfl⟩
    refine ⟨_, ⟨y, hy, rfl⟩, ?_⟩
    rw [Upshot.mapValue_mapValue]

/-- The second schedule is asked about the output that the first one shows after its update. -/
def shows (a : Schedule ε ι σ ο) (input : ι) (d : Decision σ) : Option ο :=
  d.state?.map (a.extract input)

theorem pipe_asks {a : Schedule ε ι σ ο} {b : Schedule ε ο τ ρ} :
    (a.pipe b).Asks (s, s') z ↔
      ∃ x y?, Pairs (shows a) (· + ·) x y? z ∧ a.Asks s x ∧ ∀ y ∈ y?, b.Asks s' y := by
  refine Iff.trans (Effect.bind_yields.trans (Effect.Binds.congr fun d run t x => ?_)) binds_pairs
  cases d with
  | done => exact Effect.pure_yields _
  | again state delay =>
    refine Effect.mapped_yields.trans (exists_congr fun y => and_congr_right' ?_)
    refine iff_of_eq (congrArg (· = x) (congrArg y.mapValue (funext fun d => ?_)))
    cases d <;> rfl

omit [Datum ε] in
theorem and_pairs {a : Schedule ε ι σ ο} {b : Schedule ε ι τ ρ} {x : Asked ε ι σ}
    {y? : Option (Asked ε ι τ)} (h : Pairs same max x y? z) :
    z.shown? (a.and b) = (x.shown? a).bind fun o => (y?.bind (Asked.shown? b)).map (o, ·) := by
  have hinput := h.input
  have hfed := h.fed
  rw [Asked.shown?, h.next?, hinput]
  cases y? with
  | none => cases hx : x.next? <;> simp [Asked.shown?, hx]
  | some y =>
    cases hd : x.decision? with
    | none => simp [Asked.shown?, Asked.next?, hd]
    | some d =>
      have hy : y.input = x.input := by simpa [hd, same] using hfed
      cases hx : x.next? <;> cases hnext : y.next? <;>
        simp [Asked.shown?, hx, hnext, hy, Schedule.and]

omit [Datum ε] in
theorem pipe_pairs {a : Schedule ε ι σ ο} {b : Schedule ε ο τ ρ} {x : Asked ε ι σ}
    {y : Asked ε ο τ} (h : Pairs (shows a) (· + ·) x (some y) z) :
    z.shown? (a.pipe b) = y.shown? b := by
  have hinput := h.input
  have hfed := h.fed
  rw [Asked.shown?, h.next?, hinput]
  cases hd : x.decision? with
  | none => simp [hd] at hfed
  | some d =>
    cases d with
    | done => simp [hd, shows, Decision.state?] at hfed
    | again next delay =>
      have hy : y.input = a.extract x.input next := by
        simpa [hd, shows, Decision.state?] using hfed
      cases hnext : y.next? <;>
        simp [Asked.shown?, Asked.next?_of hd, hnext, hy, Schedule.pipe]

variable {second : ι → Decision σ → Option κ} {wait : Duration → Duration → Duration}
  {x : Asked ε ι σ} {xs : List (Asked ε ι σ)} {zs : List (Asked ε ι (σ × τ))}

/-- A schedule that asks two of them at each step. -/
structure Joins (second : ι → Decision σ → Option κ) (wait : Duration → Duration → Duration)
    (nanos : Nat → Nat → Nat) (a : Schedule ε ι σ ο) (b : Schedule ε κ τ ρ)
    (c : Schedule ε ι (σ × τ) υ) : Prop where
  starts : ∀ {run t x}, c.initial.Yields run t x ↔ a.initial.Binds
    (fun s run t x => ∃ y, b.initial.Yields run t y ∧ y.mapValue (s, ·) = x) run t x
  runs : ∀ {s : σ} {s' : τ} {zs : List (Asked ε ι (σ × τ))},
    c.Runs (s, s') zs ↔ ∃ xs ys, a.Runs s xs ∧ b.Runs s' ys ∧ Abreast second wait xs ys zs
  level : ∀ {xs : List (Asked ε ι σ)} {ys : List (Asked ε κ τ)} {zs : List (Asked ε ι (σ × τ))},
    Abreast second wait xs ys zs → Level nanos xs ys zs

/-- Both are asked about every input, and the longer delay counts. -/
structure Alongside (a : Schedule ε ι σ ο) (b : Schedule ε ι τ ρ) : Prop
    extends Joins same max max a b (a.and b) where
  fed : ∀ {xs : List (Asked ε ι σ)} {ys : List (Asked ε ι τ)} {zs},
    Abreast same max xs ys zs → ys.map Asked.input <+: zs.map Asked.input
  shown : ∀ {xs : List (Asked ε ι σ)} {ys : List (Asked ε ι τ)} {zs},
    Abreast same max xs ys zs → outputs (a.and b) zs = (outputs a xs).zip (outputs b ys)

/-- The second one is asked about the outputs of the first one after its updates, and the delays add
up as far as durations go. -/
structure Feeds (a : Schedule ε ι σ ο) (b : Schedule ε ο τ ρ) : Prop
    extends Joins (shows a) (· + ·) (fun d e => min (d + e) Duration.longest.nanos) a b (a.pipe b)
    where
  fed : ∀ {xs : List (Asked ε ι σ)} {ys : List (Asked ε ο τ)} {zs},
    Abreast (shows a) (· + ·) xs ys zs → ys.map Asked.input = outputs a xs
  shown : ∀ {xs : List (Asked ε ι σ)} {ys : List (Asked ε ο τ)} {zs},
    Abreast (shows a) (· + ·) xs ys zs → outputs (a.pipe b) zs = outputs b ys

theorem joins_and (a : Schedule ε ι σ ο) (b : Schedule ε ι τ ρ) :
    Joins same max max a b (a.and b) where
  starts := Effect.zip_yields
  runs := runs_abreast fun _ _ _ => and_asks
  level := Abreast.level Duration.nanos_max nofun

theorem joins_pipe (a : Schedule ε ι σ ο) (b : Schedule ε ο τ ρ) :
    Joins (shows a) (· + ·) (fun d e => min (d + e) Duration.longest.nanos) a b (a.pipe b) where
  starts := Effect.zip_yields
  runs := runs_abreast fun _ _ _ => pipe_asks
  level := Abreast.level Duration.nanos_add fun input d h => by
    cases d with
    | done => rfl
    | again => cases h

omit [Datum ε] [Datum σ] [Datum τ] in
theorem same_inputs {ys : List (Asked ε ι τ)} (h : Abreast same max xs ys zs) :
    ys.map Asked.input <+: zs.map Asked.input := by
  induction h with
  | waits => exact List.nil_prefix
  | @ends x y? z h hz =>
    have hinput := h.input
    have hfed := h.fed
    cases y? with
    | none => exact List.nil_prefix
    | some y =>
      cases hd : x.decision? <;> simp_all [same]
  | goes h hz _ ih =>
    obtain ⟨d, e, hx, hy, -⟩ := h.goes hz
    have hfed := h.fed
    rw [hx] at hfed
    rw [List.map_cons, List.map_cons, h.input, Option.some.inj hfed]
    exact (List.prefix_cons_inj _).2 ih

omit [Datum ε] [Datum σ] [Datum τ] in
theorem fed_outputs {a : Schedule ε ι σ ο} {ys : List (Asked ε ο τ)}
    (h : Abreast (shows a) wait xs ys zs) : ys.map Asked.input = outputs a xs := by
  rw [h.fed]
  refine congrArg (List.filterMap · xs) (funext fun x => ?_)
  rw [Asked.shown?, Asked.next?]
  cases x.decision? <;> rfl

omit [Datum ε] in
theorem pipe_outputs {a : Schedule ε ι σ ο} {b : Schedule ε ο τ ρ} {ys : List (Asked ε ο τ)}
    (h : Abreast (shows a) (· + ·) xs ys zs) : outputs (a.pipe b) zs = outputs b ys := by
  induction h with
  | waits => rfl
  | @ends x y? z h hz =>
    cases y? with
    | none => simp [outputs, Asked.shown?, hz]
    | some y => simp only [outputs, Option.toList_some, List.filterMap_cons, pipe_pairs h,
        List.filterMap_nil]
  | goes h _ _ ih =>
    simp only [outputs, List.filterMap_cons, pipe_pairs h] at ih ⊢
    rw [ih]

theorem alongside (a : Schedule ε ι σ ο) (b : Schedule ε ι τ ρ) : Alongside a b where
  toJoins := joins_and a b
  fed := same_inputs
  shown h := h.zipWith (fun _ _ _ => and_pairs) fun z hz => by
    rwa [Asked.shown?, ne_eq, Option.map_eq_none_iff]

theorem feeds (a : Schedule ε ι σ ο) (b : Schedule ε ο τ ρ) : Feeds a b where
  toJoins := joins_pipe a b
  fed := fed_outputs
  shown := pipe_outputs

/-- They go on as long as both do, and after an error of the first one the second is not asked. -/
theorem go_on_together (a : Schedule ε ι σ ο) (b : Schedule ε ι τ ρ) (c : Schedule ε ο τ ρ) :
    Alongside a b ∧ Feeds a c :=
  ⟨alongside a b, feeds a c⟩

end Effects.Policy
