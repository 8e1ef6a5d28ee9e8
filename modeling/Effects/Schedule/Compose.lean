import Effects.Schedule.Adjust

/-!
Composing two schedules: side by side, one after the other, or one fed by the other.
-/

namespace Effects.Schedule

variable {ε ι σ τ ο ρ : Type} [Datum ε] [Datum σ] [Datum τ]

/-- Goes on while both do, after the longer of the two delays. -/
def and (a : Schedule ε ι σ ο) (b : Schedule ε ι τ ρ) : Schedule ε ι (σ × τ) (ο × ρ) where
  initial := a.initial.zip b.initial
  extract input s := (a.extract input s.1, b.extract input s.2)
  update input s :=
    ((a.update input s.1).zip (b.update input s.2)).map fun d => d.1.both d.2

/-- Goes on while either does, after the shorter of their delays; one that stops keeps its state.
Both updates are run, in parallel. -/
def or (a : Schedule ε ι σ ο) (b : Schedule ε ι τ ρ) : Schedule ε ι (σ × τ) (ο × ρ) where
  initial := a.initial.zip b.initial
  extract input s := (a.extract input s.1, b.extract input s.2)
  update input s := .parMap₂ (a.update input s.1) (b.update input s.2) (Decision.either s)

/-- Hands over to `b` when `a` stops, with the input that stopped it. -/
def andThen (a : Schedule ε ι σ ο) (b : Schedule ε ι τ ο) : Schedule ε ι (σ ⊕ τ) ο where
  initial := a.initial.map .inl
  extract input s :=
    match s with
    | .inl s => a.extract input s
    | .inr s => b.extract input s
  update input s :=
    match s with
    | .inl s =>
        (a.update input s).flatMap fun d =>
          match d with
          | .again state delay => .pure (.again (.inl state) delay)
          | .done =>
              b.initial.flatMap fun fresh =>
                (b.update input fresh).map fun d => d.mapState .inr
    | .inr s => (b.update input s).map fun d => d.mapState .inr

def andThenEither (a : Schedule ε ι σ ο) (b : Schedule ε ι τ ρ) :
    Schedule ε ι (σ ⊕ τ) (ο ⊕ ρ) :=
  (a.map .inl).andThen (b.map .inr)

/-- Feeds the output of `a` to `b`, and goes on while both do, after the sum of the delays. -/
def pipe (a : Schedule ε ι σ ο) (b : Schedule ε ο τ ρ) : Schedule ε ι (σ × τ) ρ where
  initial := a.initial.zip b.initial
  extract input s := b.extract (a.extract input s.1) s.2
  update input s :=
    (a.update input s.1).flatMap fun d =>
      match d with
      | .done => .pure .done
      | .again state delay =>
          (b.update (a.extract input state) s.2).map fun d =>
            match d with
            | .again state' delay' => .again (state, state') (delay + delay')
            | .done => .done

end Effects.Schedule
