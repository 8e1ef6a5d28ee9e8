import Effects.Duration.Seconds
import Effects.Effect
import Effects.Schedule.Decision

/-!
Recurrence policies. A schedule takes inputs, threads a state through updates that may have effects,
and shows an output for an input and a state.
-/

namespace Effects

structure Schedule (ε ι σ ο : Type) where
  initial : Effect ε σ
  extract : ι → σ → ο
  update : ι → σ → Effect ε (Decision σ)

variable {ε ι σ ο : Type} [Datum ε] [Datum σ]

namespace Schedule

/-- The schedule over written forms. -/
def written [Datum ι] [Datum ο] (s : Schedule ε ι σ ο) : Schedule Value Value Value Value where
  initial := s.initial.written
  extract input state := write (s.extract (read input) (read state))
  update input state := ⟨(s.update (read input) (read state)).node⟩

/-- A schedule whose updates only compute. -/
def pure (initial : σ) (extract : ι → σ → ο) (update : ι → σ → Decision σ) : Schedule ε ι σ ο where
  initial := .pure initial
  extract := extract
  update input state := .pure (update input state)

/-- The largest count. -/
def maxCount : Nat := 4294967295

/-- The next count, which stays at the largest one. -/
def succCount (n : Nat) : Nat := min (n + 1) maxCount

/-- Goes on for ever without a delay and counts. -/
def forever : Schedule ε ι Nat Nat := pure 0 (fun _ n => n) fun _ n => .now (succCount n)

/-- Goes on `limit` times. -/
def recurs (limit : Nat) : Schedule ε ι Nat Nat :=
  pure 0 (fun _ n => n) fun _ n => if n < limit then .now (n + 1) else .done

def spaced (interval : Duration) : Schedule ε ι Nat Nat :=
  pure 0 (fun _ n => n) fun _ n => .again (succCount n) interval

/-- Goes on for ever and shows the latest input. -/
def identity : Schedule ε ι Unit ι := pure () (fun input _ => input) fun _ _ => .now ()

/-- Goes on for ever, each time after `factor` times the delay before. -/
def exponential (base : Duration) (factor : Float) : Schedule ε ι Nat Duration :=
  pure 0 (fun _ n => if n = 0 then .zero else base.growth factor n) fun _ n =>
    .again (succCount n) (base.growth factor (succCount n))

/-- Goes on for ever, each time `base` longer than the time before. -/
def linear (base : Duration) : Schedule ε ι Nat Duration :=
  pure 0 (fun _ n => base.times n) fun _ n => .again (succCount n) (base.times (succCount n))

/-- Goes on for ever, each time after the sum of the two delays before. -/
def fibonacci (base : Duration) : Schedule ε ι (Duration × Duration) Duration :=
  pure (base, base) (fun _ s => s.2 - s.1) fun _ s => .again (s.2, s.1 + s.2) s.1

end Schedule
end Effects
