import Effects.Schedule.Compose

/-!
Running an effect again and again under a schedule. The effect is given by the number of the run,
the first one being number one.
-/

namespace Effects

variable {ε δ α σ ο : Type} [Datum ε] [Datum δ] [Datum α] [Datum σ] [Datum ο]

namespace Schedule

/-- The wait between two runs; without a delay it is still a point where the run can end. -/
def pause (delay : Duration) : Effect ε Unit :=
  if delay = .zero then .boundary else .sleep delay

/-- Runs once and then again as often as the schedule goes on, feeding it every value; the output
for the last value is the result. -/
def «repeat» (make : Nat → Effect ε α) (s : Schedule ε α σ ο) : Effect ε ο :=
  s.initial.flatMap fun state =>
    .loop
      (fun p : σ × Nat =>
        (make p.2).flatMap fun value =>
          (s.update value p.1).flatMap fun d =>
            match d with
            | .again next delay => (pause delay).map fun _ => .inl (next, p.2 + 1)
            | .done => .pure (.inr (s.extract value p.1)))
      (state, 1)

/-- Why no further run was tried; there is no output when the schedule itself failed. -/
structure GivingUp (ε ο : Type) where
  error : ε
  output : Option ο
  attempts : Nat
  since : Nat

instance : Datum (GivingUp ε ο) where
  write g := .arr [write g.error, write g.output, write g.attempts, write g.since]
  read
    | .arr [e, o, n, t] => ⟨read e, read o, read n, read t⟩
    | v => ⟨read v, none, 0, 0⟩
  read_write g := by simp

/-- Runs until the first success, feeding the schedule every error. The number of runs that is told
stops at the largest count. -/
def attempts (make : Nat → Effect ε α) (s : Schedule ε ε σ ο) : Effect δ (Except (GivingUp ε ο) α) :=
  .defer do
    let since ← Routine.now
    return (s.initial.attempt : Effect δ (Except ε σ)).flatMap fun
      | .error error => .pure (.error ⟨error, none, 0, since⟩)
      | .ok state =>
          .loop
            (fun p : σ × Nat =>
              ((make p.2).attempt : Effect δ (Except ε α)).flatMap fun
                | .ok value => .pure (.inr (.ok value))
                | .error error =>
                    ((s.update error p.1).attempt : Effect δ (Except ε (Decision σ))).flatMap fun
                      | .ok (.again next delay) =>
                          (pause delay).map fun _ => .inl (next, p.2 + 1)
                      | .ok .done =>
                          .pure (.inr (.error
                            ⟨error, some (s.extract error p.1), min p.2 maxCount, since⟩))
                      | .error error =>
                          .pure (.inr (.error ⟨error, none, min p.2 maxCount, since⟩)))
            (state, 1)

/-- Runs until the first success; giving up raises the last error with the number of runs and the time
since the first one. -/
def retry (make : Nat → Effect ε α) (s : Schedule ε ε σ ο) : Effect (RetryExhausted ε) α :=
  (attempts make s).flatMap fun
    | .ok value => .pure value
    | .error g => .defer do
        return .raise ⟨g.error, g.attempts, .ofNanos ((← Routine.now) - g.since)⟩

/-- Runs until the first success; giving up goes on with the last error and the output. -/
def retryOrElse (make : Nat → Effect ε α) (s : Schedule ε ε σ ο)
    (fallback : ε → Option ο → Effect ε α) : Effect ε α :=
  (attempts make s).flatMap fun
    | .ok value => .pure value
    | .error g => fallback g.error g.output

end Schedule
end Effects
