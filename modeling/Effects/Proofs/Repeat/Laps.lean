import Effects.Proofs.Yield.Values
import Effects.Schedule.Recurrence

/-!
Repetitions of an effect under a schedule. A lap is a run of the effect, the update that is fed its
value, and the pause that the update decides.
-/

namespace Effects.Repeating

variable {ε α σ ο ζ : Type}

/-- A value that the schedule has gone on at. -/
structure Lap (α σ : Type) where
  value : α
  next : σ
  delay : Duration

/-- The value that the schedule has stopped at, with the number of its run. -/
structure Last (α σ : Type) where
  number : Nat
  value : α
  state : σ

/-- The output after the update. -/
def Lap.shown (s : Schedule ε α σ ο) (lap : Lap α σ) : ο := s.extract lap.value lap.next

/-- The output for the value, and for the state that the schedule has not gone on from. -/
def Last.shown (s : Schedule ε α σ ο) (last : Last α σ) : ο := s.extract last.value last.state

variable [Datum ε] [Datum α] [Datum σ]

inductive Round (make : Nat → Effect ε α) (s : Schedule ε α σ ο) (k : Nat) (state : σ) (run : Run) :
    Trace → Upshot ε (Lap α σ ⊕ α) → Prop
  | again {t₁ value run₁ t₂ next delay run₂ t₃ run₃}
      (act : (make k).Yields run t₁ (.ok (.completed value, run₁)))
      (ask : (s.update value state).Yields run₁ t₂ (.ok (.completed (.again next delay), run₂)))
      (wait : (Schedule.pause delay : Effect ε Unit).Yields run₂ t₃ (.ok (.completed (), run₃))) :
      Round make s k state run (t₁ ++ (t₂ ++ t₃))
        (.ok (.completed (.inl ⟨value, next, delay⟩), run₃))
  | stops {t₁ value run₁ t₂ run₂} (act : (make k).Yields run t₁ (.ok (.completed value, run₁)))
      (ask : (s.update value state).Yields run₁ t₂ (.ok (.completed .done, run₂))) :
      Round make s k state run (t₁ ++ t₂) (.ok (.completed (.inr value), run₂))
  | action {t y x} (h : (make k).Yields run t y) (hpasses : y.Passes x) :
      Round make s k state run t x
  | update {t₁ value run₁ t₂ y x} (act : (make k).Yields run t₁ (.ok (.completed value, run₁)))
      (h : (s.update value state).Yields run₁ t₂ y) (hpasses : y.Passes x) :
      Round make s k state run (t₁ ++ t₂) x
  | pause {t₁ value run₁ t₂ next delay run₂ t₃ y x}
      (act : (make k).Yields run t₁ (.ok (.completed value, run₁)))
      (ask : (s.update value state).Yields run₁ t₂ (.ok (.completed (.again next delay), run₂)))
      (h : (Schedule.pause delay : Effect ε Unit).Yields run₂ t₃ y) (hpasses : y.Passes x) :
      Round make s k state run (t₁ ++ (t₂ ++ t₃)) x

/-- The laps from the run of that number on, and how the repetition ends after them. -/
inductive Laps (make : Nat → Effect ε α) (s : Schedule ε α σ ο) :
    Nat → σ → Run → Trace → List (Lap α σ) → Upshot ε (Last α σ) → Prop
  | again {k state run t₁ lap run₁ t₂ laps x}
      (h : Round make s k state run t₁ (.ok (.completed (.inl lap), run₁)))
      (rest : Laps make s (k + 1) lap.next run₁ t₂ laps x) :
      Laps make s k state run (t₁ ++ t₂) (lap :: laps) x
  | stops {k state run t value run'}
      (h : Round make s k state run t (.ok (.completed (.inr value), run'))) :
      Laps make s k state run t [] (.ok (.completed ⟨k, value, state⟩, run'))
  | passes {k state run t y x} (h : Round make s k state run t y) (hpasses : y.Passes x) :
      Laps make s k state run t [] x

/-- The initial step of the schedule, and the laps from the first run on. -/
inductive Series (make : Nat → Effect ε α) (s : Schedule ε α σ ο) (run : Run) :
    Trace → List (Lap α σ) → Upshot ε (Last α σ) → Prop
  | begins {t₁ state run₁ t₂ laps x} (h : s.initial.Yields run t₁ (.ok (.completed state, run₁)))
      (rest : Laps make s 1 state run₁ t₂ laps x) : Series make s run (t₁ ++ t₂) laps x
  | passes {t y x} (h : s.initial.Yields run t y) (hpasses : y.Passes x) : Series make s run t [] x

variable {make : Nat → Effect ε α} {s : Schedule ε α σ ο} {k : Nat} {state : σ} {run : Run}
  {t : Trace} {laps : List (Lap α σ)}

theorem Laps.number {last : Last α σ} {run' : Run}
    (h : Laps make s k state run t laps (.ok (.completed last, run'))) :
    last.number = k + laps.length := by
  generalize hx : (Except.ok (.completed last, run') : Upshot ε (Last α σ)) = x at h
  induction h with
  | again h rest ih =>
    rw [ih hx, List.length_cons]
    omega
  | stops h =>
    cases hx
    rfl
  | passes h hpasses =>
    subst hx
    exact absurd rfl (hpasses.ne_completed last run')

theorem Series.number {last : Last α σ} {run' : Run}
    (h : Series make s run t laps (.ok (.completed last, run'))) :
    last.number = laps.length + 1 := by
  cases h with
  | begins h rest => rw [rest.number, Nat.add_comm]
  | passes h hpasses => exact absurd rfl (hpasses.ne_completed last run')

section Loop

variable [Datum ο]

def turned (s : Schedule ε α σ ο) (k : Nat) (state : σ) : Lap α σ ⊕ α → (σ × Nat) ⊕ ο
  | .inl lap => .inl (lap.next, k + 1)
  | .inr value => .inr (s.extract value state)

def decided (s : Schedule ε α σ ο) (k : Nat) (state : σ) (value : α) :
    Decision σ → Effect ε ((σ × Nat) ⊕ ο)
  | .again next delay => (Schedule.pause delay).map fun _ => .inl (next, k + 1)
  | .done => .pure (.inr (s.extract value state))

def body (make : Nat → Effect ε α) (s : Schedule ε α σ ο) (p : σ × Nat) :
    Effect ε ((σ × Nat) ⊕ ο) :=
  (make p.2).flatMap fun value => (s.update value p.1).flatMap (decided s p.2 p.1 value)

omit [Datum ε] in
theorem repeat_eq (make : Nat → Effect ε α) (s : Schedule ε α σ ο) :
    Schedule.repeat make s = s.initial.flatMap fun state => .loop (body make s) (state, 1) := rfl

theorem body_yields {x : Upshot ε ((σ × Nat) ⊕ ο)} : (body make s (state, k)).Yields run t x ↔
    ∃ y, Round make s k state run t y ∧ y.mapValue (turned s k state) = x := by
  rw [body, Effect.bind_yields]
  constructor
  · intro h
    cases h with
    | passes h hpasses =>
      obtain ⟨z, hz, hx⟩ := hpasses.exists_mapValue (turned s k state)
      exact ⟨z, .action h hz, hx⟩
    | goes act h =>
      cases Effect.bind_yields.1 h with
      | passes h hpasses =>
        obtain ⟨z, hz, hx⟩ := hpasses.exists_mapValue (turned s k state)
        exact ⟨z, .update act h hz, hx⟩
      | @goes _ d _ _ _ ask h =>
        cases d with
        | done =>
          obtain ⟨rfl, rfl⟩ := (Effect.pure_yields _).1 h
          rw [List.append_nil]
          exact ⟨_, .stops act ask, rfl⟩
        | again next delay =>
          obtain ⟨y, hy, hmap⟩ := Effect.mapped_yields.1 h
          obtain ⟨_, run₃, rfl, rfl⟩ | hpasses := Upshot.mapValue_cases hmap
          · exact ⟨_, .again act ask hy, rfl⟩
          · obtain ⟨z, hz, hx⟩ := hpasses.exists_mapValue (turned s k state)
            exact ⟨z, .pause act ask hy hz, hx⟩
  · rintro ⟨y, hy, rfl⟩
    cases hy with
    | again act ask wait =>
      refine .goes act (Effect.bind_yields.2 (.goes ask ?_))
      exact Effect.mapped_yields.2 ⟨_, wait, rfl⟩
    | stops act ask =>
      refine .goes act (Effect.bind_yields.2 (.gives ask ?_))
      exact (Effect.pure_yields _).2 ⟨rfl, rfl⟩
    | action h hpasses => exact .passes h hpasses.toMapValue
    | update act h hpasses => exact .goes act (Effect.bind_yields.2 (.passes h hpasses.toMapValue))
    | pause act ask h hpasses =>
      refine .goes act (Effect.bind_yields.2 (.goes ask ?_))
      exact Effect.mapped_yields.2 ⟨_, h, hpasses.toMapValue.mapValue⟩

theorem laps_of_passes {y : Upshot ε ((σ × Nat) ⊕ ο)} {x : Upshot ε ο}
    (h : (body make s (state, k)).Yields run t y) (hpasses : y.Passes x) :
    ∃ laps z, Laps make s k state run t laps z ∧ z.mapValue (Last.shown s) = x := by
  obtain ⟨r, hr, rfl⟩ := body_yields.1 h
  obtain ⟨z, hz, hx⟩ := (Upshot.passes_of_mapValue hpasses).exists_mapValue (Last.shown s)
  exact ⟨[], z, .passes hr hz, hx⟩

theorem loops_iff {x : Upshot ε ο} : Effect.Loops (body make s) (state, k) run t x ↔
    ∃ laps y, Laps make s k state run t laps y ∧ y.mapValue (Last.shown s) = x := by
  constructor
  · intro h
    -- The state and the number of the run go on changing from turn to turn.
    generalize hp : (state, k) = p at h
    induction h generalizing state k with
    | again h rest ih =>
      subst hp
      obtain ⟨r, hr, hturned⟩ := body_yields.1 h
      obtain ⟨lap | value, rfl, hnext⟩ := Upshot.mapValue_eq_completed hturned
      · obtain rfl := Sum.inl.inj hnext
        obtain ⟨laps, y, hlaps, rfl⟩ := ih rfl
        exact ⟨_, y, .again hr hlaps, rfl⟩
      · cases hnext
    | value h =>
      subst hp
      obtain ⟨r, hr, hturned⟩ := body_yields.1 h
      obtain ⟨lap | value, rfl, hnext⟩ := Upshot.mapValue_eq_completed hturned
      · cases hnext
      · obtain rfl := Sum.inr.inj hnext
        exact ⟨_, _, .stops hr, rfl⟩
    | errored h => exact laps_of_passes (hp ▸ h) (.errored _ _)
    | canceled h => exact laps_of_passes (hp ▸ h) (.canceled _)
    | panics h => exact laps_of_passes (hp ▸ h) (.panicked _)
  · rintro ⟨laps, y, hy, rfl⟩
    induction hy with
    | again h rest ih => exact .again (body_yields.2 ⟨_, h, rfl⟩) ih
    | stops h => exact .value (body_yields.2 ⟨_, h, rfl⟩)
    | passes h hpasses =>
      cases hpasses with
      | errored => exact .errored (body_yields.2 ⟨_, h, rfl⟩)
      | canceled => exact .canceled (body_yields.2 ⟨_, h, rfl⟩)
      | panicked => exact .panics (body_yields.2 ⟨_, h, rfl⟩)

/-- What a repetition does and how it ends, the laps and the last value being left to see. -/
theorem repeat_yields {x : Upshot ε ο} : (Schedule.repeat make s).Yields run t x ↔
    ∃ laps y, Series make s run t laps y ∧ y.mapValue (Last.shown s) = x := by
  rw [repeat_eq, Effect.bind_yields]
  constructor
  · intro h
    cases h with
    | goes h hloop =>
      obtain ⟨laps, y, hlaps, rfl⟩ := loops_iff.1 (Effect.loop_yields.1 hloop)
      exact ⟨laps, y, .begins h hlaps, rfl⟩
    | passes h hpasses =>
      obtain ⟨z, hz, hx⟩ := hpasses.exists_mapValue (Last.shown s)
      exact ⟨[], z, .passes h hz, hx⟩
  · rintro ⟨laps, y, hy, rfl⟩
    cases hy with
    | begins h hlaps => exact .goes h (Effect.loop_yields.2 (loops_iff.2 ⟨_, _, hlaps, rfl⟩))
    | passes h hpasses => exact .passes h hpasses.toMapValue

end Loop

section Fold

variable [Datum ζ] {zero z : ζ} {f : ζ → ο → ζ}

def folding (s : Schedule ε α σ ο) (f : ζ → ο → ζ) (z : ζ) : Lap α σ ⊕ α → Lap α (σ × ζ) ⊕ α
  | .inl lap => .inl ⟨lap.value, (lap.next, f z (lap.shown s)), lap.delay⟩
  | .inr value => .inr value

def folded (s : Schedule ε α σ ο) (f : ζ → ο → ζ) (z : ζ) (value : α) :
    Decision σ → Decision (σ × ζ) :=
  .mapState fun next => (next, f z (s.extract value next))

theorem fold_round {x : Upshot ε (Lap α (σ × ζ) ⊕ α)} :
    Round make (s.fold zero f) k (state, z) run t x ↔
      ∃ y, Round make s k state run t y ∧ y.mapValue (folding s f z) = x := by
  constructor
  · intro h
    cases h with
    | again act ask wait =>
      obtain ⟨y, hy, hmap⟩ := Effect.mapped_yields.1 ask
      obtain ⟨d, rfl, hd⟩ := Upshot.mapValue_eq_completed hmap
      cases d <;> cases hd
      exact ⟨_, .again act hy wait, rfl⟩
    | stops act ask =>
      obtain ⟨y, hy, hmap⟩ := Effect.mapped_yields.1 ask
      obtain ⟨d, rfl, hd⟩ := Upshot.mapValue_eq_completed hmap
      cases d <;> cases hd
      exact ⟨_, .stops act hy, rfl⟩
    | action h hpasses =>
      obtain ⟨z, hz, hx⟩ := hpasses.exists_mapValue (folding s f z)
      exact ⟨z, .action h hz, hx⟩
    | update act h hpasses =>
      obtain ⟨y, hy, rfl⟩ := Effect.mapped_yields.1 h
      obtain ⟨z, hz, hx⟩ := (Upshot.passes_of_mapValue hpasses).exists_mapValue (folding s f z)
      exact ⟨z, .update act hy hz, hx⟩
    | pause act ask h hpasses =>
      obtain ⟨y, hy, hmap⟩ := Effect.mapped_yields.1 ask
      obtain ⟨d, rfl, hd⟩ := Upshot.mapValue_eq_completed hmap
      cases d <;> cases hd
      obtain ⟨z, hz, hx⟩ := hpasses.exists_mapValue (folding s f z)
      exact ⟨z, .pause act hy h hz, hx⟩
  · rintro ⟨y, hy, rfl⟩
    have hupdate : ∀ {value run t y}, (s.update value state).Yields run t y →
        ((s.fold zero f).update value (state, z)).Yields run t (y.mapValue (folded s f z value)) :=
      fun h => Effect.mapped_yields.2 ⟨_, h, rfl⟩
    cases hy with
    | again act ask wait => exact .again act (hupdate ask) wait
    | stops act ask => exact .stops act (hupdate ask)
    | action h hpasses => exact .action h hpasses.toMapValue
    | update act h hpasses =>
      exact .update act (hupdate h) hpasses.mapValues
    | pause act ask h hpasses => exact .pause act (hupdate ask) h hpasses.toMapValue

def Last.folded (z : ζ) (last : Last α σ) : Last α (σ × ζ) :=
  ⟨last.number, last.value, (last.state, z)⟩

def total (s : Schedule ε α σ ο) (f : ζ → ο → ζ) (z : ζ) (laps : List (Lap α σ)) : ζ :=
  (laps.map (Lap.shown s)).foldl f z

theorem fold_laps {x : Upshot ε (Last α (σ × ζ))} :
    (∃ laps, Laps make (s.fold zero f) k (state, z) run t laps x) ↔
      ∃ laps y, Laps make s k state run t laps y ∧
        y.mapValue (Last.folded (total s f z laps)) = x := by
  constructor
  · rintro ⟨laps, h⟩
    -- By induction on the laps, for whatever has been folded before them.
    generalize hp : (state, z) = p at h
    induction h generalizing state z with
    | again h rest ih =>
      subst hp
      obtain ⟨r, hr, hfolding⟩ := fold_round.1 h
      obtain ⟨lap | value, rfl, hnext⟩ := Upshot.mapValue_eq_completed hfolding
      · obtain rfl := Sum.inl.inj hnext
        obtain ⟨laps, y, hlaps, rfl⟩ := ih rfl
        exact ⟨_, y, .again hr hlaps, rfl⟩
      · cases hnext
    | stops h =>
      subst hp
      obtain ⟨r, hr, hfolding⟩ := fold_round.1 h
      obtain ⟨lap | value, rfl, hnext⟩ := Upshot.mapValue_eq_completed hfolding
      · cases hnext
      · obtain rfl := Sum.inr.inj hnext
        exact ⟨[], _, .stops hr, rfl⟩
    | passes h hpasses =>
      subst hp
      obtain ⟨r, hr, rfl⟩ := fold_round.1 h
      obtain ⟨y, hy, hx⟩ := (Upshot.passes_of_mapValue hpasses).exists_mapValue (Last.folded z)
      exact ⟨[], y, .passes hr hy, hx⟩
  · rintro ⟨laps, y, hy, rfl⟩
    induction hy generalizing z with
    | again h rest ih =>
      obtain ⟨laps, hlaps⟩ := ih
      exact ⟨_, .again (fold_round.2 ⟨_, h, rfl⟩) hlaps⟩
    | stops h => exact ⟨[], .stops (fold_round.2 ⟨_, h, rfl⟩)⟩
    | passes h hpasses =>
      exact ⟨[], .passes (fold_round.2 ⟨_, h, rfl⟩) hpasses.mapValues⟩

omit [Datum α] in
theorem fold_initial {x : Upshot ε (σ × ζ)} : (s.fold zero f).initial.Yields run t x ↔
    ∃ y, s.initial.Yields run t y ∧ y.mapValue (·, zero) = x :=
  Effect.mapped_yields

theorem fold_series {x : Upshot ε (Last α (σ × ζ))} :
    (∃ laps, Series make (s.fold zero f) run t laps x) ↔
      ∃ laps y, Series make s run t laps y ∧
        y.mapValue (Last.folded (total s f zero laps)) = x := by
  constructor
  · rintro ⟨laps, h⟩
    cases h with
    | begins h rest =>
      obtain ⟨y, hy, hmap⟩ := fold_initial.1 h
      obtain ⟨state, rfl, rfl⟩ := Upshot.mapValue_eq_completed hmap
      obtain ⟨laps, z, hz, rfl⟩ := fold_laps.1 ⟨_, rest⟩
      exact ⟨laps, z, .begins hy hz, rfl⟩
    | passes h hpasses =>
      obtain ⟨y, hy, rfl⟩ := fold_initial.1 h
      obtain ⟨z, hz, hx⟩ := (Upshot.passes_of_mapValue hpasses).exists_mapValue (Last.folded zero)
      exact ⟨[], z, .passes hy hz, hx⟩
  · rintro ⟨laps, y, hy, rfl⟩
    cases hy with
    | begins h rest =>
      obtain ⟨laps, hlaps⟩ : ∃ laps, Laps make (s.fold zero f) 1 (_, zero) _ _ laps _ :=
        fold_laps.2 ⟨_, _, rest, rfl⟩
      exact ⟨laps, .begins (fold_initial.2 ⟨_, h, rfl⟩) hlaps⟩
    | passes h hpasses =>
      exact ⟨[], .passes (fold_initial.2 ⟨_, h, rfl⟩) hpasses.mapValues⟩

end Fold

end Effects.Repeating
