import Effects.Proofs.Yield.Parts
import Effects.Proofs.Yield.Turns
import Effects.Schedule.Recurrence

/-!
Runs of an effect under a schedule, until one succeeds. A round is a run, the update that is fed the
error of the run, and the pause that the update decides. What retrying does, and how it ends, is a
row of rounds and what its stop leads to.
-/

namespace Effects.Schedule

section Rounds

variable {ε δ α σ ο : Type}

/-- How a row of runs stops. -/
inductive Stop (ε δ α ο : Type) where
  | success (a : α)
  /-- The schedule has stopped at the error. -/
  | declined (error : ε) (output : ο)
  /-- The schedule itself has failed. -/
  | failed (error : ε)
  | canceled
  /-- Somebody has ended a pause with an error. -/
  | disturbed (error : δ)

namespace Stop

/-- What is given up with. -/
def givenUp? : Stop ε δ α ο → Option (ε × Option ο)
  | .declined error output => some (error, some output)
  | .failed error => some (error, none)
  | _ => none

end Stop

/-- Where in a round. -/
inductive Phase (ε σ : Type) where
  | acting (state : σ)
  | asking (error : ε) (state : σ)
  | pausing (next : σ) (delay : Duration)

variable [Datum ε] [Datum δ] [Datum α] [Datum σ] [Datum ο]

/-- The rest of the round of the run of that number: it leads to another round from a state, stops the
row, or panics. -/
inductive Round (make : Nat → Effect ε α) (s : Schedule ε ε σ ο) (k : Nat) :
    Phase ε σ → Run → Trace → Except String ((σ ⊕ Stop ε δ α ο) × Run) → Prop
  | success {state run t a run'} (h : (make k).Yields run t (.ok (.completed a, run'))) :
      Round make s k (.acting state) run t (.ok (.inr (.success a), run'))
  | fails {state run t₁ error run₁ t₂ x} (h : (make k).Yields run t₁ (.ok (.errored error, run₁)))
      (rest : Round make s k (.asking error state) run₁ t₂ x) :
      Round make s k (.acting state) run (t₁ ++ t₂) x
  | action_canceled {state run t run'} (h : (make k).Yields run t (.ok (.canceled, run'))) :
      Round make s k (.acting state) run t (.ok (.inr .canceled, run'))
  | action_panics {state run t message} (h : (make k).Yields run t (.error message)) :
      Round make s k (.acting state) run t (.error message)
  | continues {error state run t₁ next delay run₁ t₂ x}
      (h : (s.update error state).Yields run t₁ (.ok (.completed (.again next delay), run₁)))
      (rest : Round make s k (.pausing next delay) run₁ t₂ x) :
      Round make s k (.asking error state) run (t₁ ++ t₂) x
  | declines {error state run t run'}
      (h : (s.update error state).Yields run t (.ok (.completed .done, run'))) :
      Round make s k (.asking error state) run t
        (.ok (.inr (.declined error (s.extract error state)), run'))
  | update_fails {error state run t error' run'}
      (h : (s.update error state).Yields run t (.ok (.errored error', run'))) :
      Round make s k (.asking error state) run t (.ok (.inr (.failed error'), run'))
  | update_canceled {error state run t run'}
      (h : (s.update error state).Yields run t (.ok (.canceled, run'))) :
      Round make s k (.asking error state) run t (.ok (.inr .canceled, run'))
  | update_panics {error state run t message}
      (h : (s.update error state).Yields run t (.error message)) :
      Round make s k (.asking error state) run t (.error message)
  | again {next delay run t run'}
      (h : (pause delay : Effect δ Unit).Yields run t (.ok (.completed (), run'))) :
      Round make s k (.pausing next delay) run t (.ok (.inl next, run'))
  | pause_disturbed {next delay run t error run'}
      (h : (pause delay : Effect δ Unit).Yields run t (.ok (.errored error, run'))) :
      Round make s k (.pausing next delay) run t (.ok (.inr (.disturbed error), run'))
  | pause_canceled {next delay run t run'}
      (h : (pause delay : Effect δ Unit).Yields run t (.ok (.canceled, run'))) :
      Round make s k (.pausing next delay) run t (.ok (.inr .canceled, run'))
  | pause_panics {next delay run t message}
      (h : (pause delay : Effect δ Unit).Yields run t (.error message)) :
      Round make s k (.pausing next delay) run t (.error message)

/-- How a row of runs has stopped, with how many runs, and in what context; or the panic that came
instead. -/
abbrev Course (ε δ α ο : Type) := Except String ((Nat × Stop ε δ α ο) × Run)

/-- The rounds from the run of that number on. -/
inductive Tries (make : Nat → Effect ε α) (s : Schedule ε ε σ ο) :
    Nat → σ → Run → Trace → Course ε δ α ο → Prop
  | again {k state run t₁ next run₁ t₂ x}
      (h : Round (δ := δ) make s k (.acting state) run t₁ (.ok (.inl next, run₁)))
      (rest : Tries make s (k + 1) next run₁ t₂ x) : Tries make s k state run (t₁ ++ t₂) x
  | stops {k state run t stop run'}
      (h : Round make s k (.acting state) run t (.ok (.inr stop, run'))) :
      Tries make s k state run t (.ok ((k, stop), run'))
  | panics {k state run t message}
      (h : Round (δ := δ) make s k (.acting state) run t (.error message)) :
      Tries make s k state run t (.error message)

/-- The initial step of the schedule, and the runs from the first one on. -/
inductive Row (make : Nat → Effect ε α) (s : Schedule ε ε σ ο) (run : Run) :
    Trace → Course ε δ α ο → Prop
  | begins {t₁ state run₁ t₂ x} (h : s.initial.Yields run t₁ (.ok (.completed state, run₁)))
      (rest : Tries make s 1 state run₁ t₂ x) : Row make s run (t₁ ++ t₂) x
  | initial_fails {t error run'} (h : s.initial.Yields run t (.ok (.errored error, run'))) :
      Row make s run t (.ok ((0, .failed error), run'))
  | initial_canceled {t run'} (h : s.initial.Yields run t (.ok (.canceled, run'))) :
      Row make s run t (.ok ((0, .canceled), run'))
  | initial_panics {t message} (h : s.initial.Yields run t (.error message)) :
      Row make s run t (.error message)

variable {make : Nat → Effect ε α} {s : Schedule ε ε σ ο} {k since : Nat} {state next : σ}
  {error : ε} {delay : Duration} {run : Run} {t : Trace}

/-- What the loop makes of a stop. -/
def Stop.report (since k : Nat) : Stop ε δ α ο → Outcome δ (Except (GivingUp ε ο) α)
  | .success a => .completed (.ok a)
  | .declined error output => .completed (.error ⟨error, some output, min k maxCount, since⟩)
  | .failed error => .completed (.error ⟨error, none, min k maxCount, since⟩)
  | .canceled => .canceled
  | .disturbed error => .errored error

/-- What a round of the loop makes of it. -/
def turned (since k : Nat) :
    σ ⊕ Stop ε δ α ο → Outcome δ ((σ × Nat) ⊕ Except (GivingUp ε ο) α)
  | .inl next => .completed (.inl (next, k + 1))
  | .inr stop => (stop.report since k).map id .inr

def Turned (since k : Nat) (y : Except String ((σ ⊕ Stop ε δ α ο) × Run)) :
    Upshot δ ((σ × Nat) ⊕ Except (GivingUp ε ο) α) :=
  y.map fun p => (turned since k p.1, p.2)

/-- The loop after a pause. -/
def resumed (next : σ) (k : Nat) (delay : Duration) :
    Effect δ ((σ × Nat) ⊕ Except (GivingUp ε ο) α) :=
  (pause delay).map fun _ => .inl (next, k + 1)

theorem resumed_yields (make : Nat → Effect ε α) (s : Schedule ε ε σ ο) (since : Nat)
    {x : Upshot δ ((σ × Nat) ⊕ Except (GivingUp ε ο) α)} :
    (resumed next k delay).Yields run t x ↔
      ∃ y, Round make s k (.pausing next delay) run t y ∧ Turned since k y = x := by
  rw [resumed, Effect.map_yields]
  constructor
  · rintro ⟨y, hy, rfl⟩
    obtain message | ⟨_ | e | _, run'⟩ := y
    · exact ⟨_, .pause_panics hy, rfl⟩
    · exact ⟨_, .again hy, rfl⟩
    · exact ⟨_, .pause_disturbed hy, rfl⟩
    · exact ⟨_, .pause_canceled hy, rfl⟩
  · rintro ⟨y, hy, rfl⟩
    cases hy with
    | again h => exact ⟨_, h, rfl⟩
    | pause_disturbed h => exact ⟨_, h, rfl⟩
    | pause_canceled h => exact ⟨_, h, rfl⟩
    | pause_panics h => exact ⟨_, h, rfl⟩

/-- The loop after a failed run. -/
def asked (s : Schedule ε ε σ ο) (since k : Nat) (error : ε) (state : σ) :
    Effect δ ((σ × Nat) ⊕ Except (GivingUp ε ο) α) :=
  ((s.update error state).attempt : Effect δ (Except ε (Decision σ))).flatMap fun
    | .ok (.again next delay) => resumed next k delay
    | .ok .done =>
        .pure (.inr (.error ⟨error, some (s.extract error state), min k maxCount, since⟩))
    | .error error => .pure (.inr (.error ⟨error, none, min k maxCount, since⟩))

theorem asked_yields (make : Nat → Effect ε α) {x : Upshot δ ((σ × Nat) ⊕ Except (GivingUp ε ο) α)} :
    (asked s since k error state).Yields run t x ↔
      ∃ y, Round make s k (.asking error state) run t y ∧ Turned since k y = x := by
  rw [asked, Effect.attempt_flatMap_yields]
  constructor
  · intro h
    cases h with
    | panics h => exact ⟨_, .update_panics h, rfl⟩
    | @goes _ _ o _ _ _ h hnext rest =>
      cases o with
      | canceled => cases hnext
      | errored error' =>
        obtain rfl := Sum.inr.inj hnext
        obtain ⟨rfl, rfl⟩ := (Effect.pure_yields _).1 rest
        rw [List.append_nil]
        exact ⟨_, .update_fails h, rfl⟩
      | completed d =>
        cases d with
        | again next delay =>
          obtain rfl := Sum.inr.inj hnext
          obtain ⟨y, hy, rfl⟩ := (resumed_yields make s since).1 rest
          exact ⟨y, .continues h hy, rfl⟩
        | done =>
          obtain rfl := Sum.inr.inj hnext
          obtain ⟨rfl, rfl⟩ := (Effect.pure_yields _).1 rest
          rw [List.append_nil]
          exact ⟨_, .declines h, rfl⟩
    | @ends _ o _ _ h hnext =>
      cases o with
      | completed | errored => cases hnext
      | canceled =>
        obtain rfl := Sum.inl.inj hnext
        exact ⟨_, .update_canceled h, rfl⟩
  · rintro ⟨y, hy, rfl⟩
    cases hy with
    | continues h rest => exact .goes h rfl ((resumed_yields make s since).2 ⟨_, rest, rfl⟩)
    | declines h => exact .gives h rfl
    | update_fails h => exact .gives h rfl
    | update_canceled h => exact .ends h rfl
    | update_panics h => exact .panics h

/-- A round of the loop. -/
def acted (make : Nat → Effect ε α) (s : Schedule ε ε σ ο) (since : Nat) (p : σ × Nat) :
    Effect δ ((σ × Nat) ⊕ Except (GivingUp ε ο) α) :=
  ((make p.2).attempt : Effect δ (Except ε α)).flatMap fun
    | .ok value => .pure (.inr (.ok value))
    | .error error => asked s since p.2 error p.1

theorem acted_yields {x : Upshot δ ((σ × Nat) ⊕ Except (GivingUp ε ο) α)} :
    (acted make s since (state, k)).Yields run t x ↔
      ∃ y, Round make s k (.acting state) run t y ∧ Turned since k y = x := by
  rw [acted, Effect.attempt_flatMap_yields]
  constructor
  · intro h
    cases h with
    | panics h => exact ⟨_, .action_panics h, rfl⟩
    | @goes _ _ o _ _ _ h hnext rest =>
      cases o with
      | canceled => cases hnext
      | errored error =>
        obtain rfl := Sum.inr.inj hnext
        obtain ⟨y, hy, rfl⟩ := (asked_yields make).1 rest
        exact ⟨y, .fails h hy, rfl⟩
      | completed a =>
        obtain rfl := Sum.inr.inj hnext
        obtain ⟨rfl, rfl⟩ := (Effect.pure_yields _).1 rest
        rw [List.append_nil]
        exact ⟨_, .success h, rfl⟩
    | @ends _ o _ _ h hnext =>
      cases o with
      | completed | errored => cases hnext
      | canceled =>
        obtain rfl := Sum.inl.inj hnext
        exact ⟨_, .action_canceled h, rfl⟩
  · rintro ⟨y, hy, rfl⟩
    cases hy with
    | success h => exact .gives h rfl
    | fails h rest => exact .goes h rfl ((asked_yields make).2 ⟨_, rest, rfl⟩)
    | action_canceled h => exact .ends h rfl
    | action_panics h => exact .panics h

/-- The course as the loop reports it. -/
def Reported (since : Nat) (y : Course ε δ α ο) : Upshot δ (Except (GivingUp ε ο) α) :=
  y.map fun p => (p.1.2.report since p.1.1, p.2)

omit [Datum ε] [Datum δ] [Datum α] [Datum σ] [Datum ο] in
theorem of_turned {y : Except String ((σ ⊕ Stop ε δ α ο) × Run)} {run' : Run}
    {o : Outcome δ ((σ × Nat) ⊕ Except (GivingUp ε ο) α)}
    (h : Turned since k y = .ok (o, run')) : ∃ z, y = .ok (z, run') ∧ turned since k z = o := by
  obtain message | ⟨z, run''⟩ := y
  · cases h
  · obtain ⟨rfl, rfl⟩ := Prod.mk.inj (Except.ok.inj h)
    exact ⟨z, rfl, rfl⟩

/-- A round that ends the loop ends the row. -/
theorem stops_of_acted {o : Outcome δ (Except (GivingUp ε ο) α)} {run' : Run}
    (h : (acted make s since (state, k)).Yields run t (.ok (o.map id .inr, run'))) :
    ∃ y, Tries make s k state run t y ∧ Reported since y = .ok (o, run') := by
  obtain ⟨y, hy, hturned⟩ := acted_yields.1 h
  obtain ⟨next | stop, rfl, hz⟩ := of_turned hturned
  · cases o <;> cases hz
  · have ho : stop.report since k = o := by
      rw [turned] at hz
      generalize stop.report since k = r at hz
      cases r <;> cases o <;> cases hz <;> rfl
    exact ⟨_, .stops hy, congrArg (fun o => Except.ok (o, run')) ho⟩

theorem loops_iff {x : Upshot δ (Except (GivingUp ε ο) α)} :
    Effect.Loops (acted make s since) (state, k) run t x ↔
      ∃ y, Tries make s k state run t y ∧ Reported since y = x := by
  constructor
  · intro h
    generalize hp : (state, k) = p at h
    induction h generalizing state k with
    | again h rest ih =>
      subst hp
      obtain ⟨y, hy, hturned⟩ := acted_yields.1 h
      obtain ⟨next | stop, rfl, hz⟩ := of_turned hturned
      · cases hz
        obtain ⟨x, hx, rfl⟩ := ih rfl
        exact ⟨x, .again hy hx, rfl⟩
      · cases stop <;> cases hz
    | @value p b run run' t h => exact stops_of_acted (o := .completed b) (hp ▸ h)
    | @errored p e run run' t h => exact stops_of_acted (o := .errored e) (hp ▸ h)
    | canceled h => exact stops_of_acted (o := .canceled) (hp ▸ h)
    | panics h =>
      subst hp
      obtain ⟨y, hy, hturned⟩ := acted_yields.1 h
      obtain message | z := y
      · cases hturned
        exact ⟨_, .panics hy, rfl⟩
      · cases hturned
  · rintro ⟨y, hy, rfl⟩
    induction hy with
    | again h rest ih => exact .again (acted_yields.2 ⟨_, h, rfl⟩) ih
    | @stops _ _ _ _ stop _ h =>
      have hbody : (acted make s since _).Yields _ _ _ := acted_yields.2 ⟨_, h, rfl⟩
      cases stop with
      | success | declined | failed => exact .value hbody
      | canceled => exact .canceled hbody
      | disturbed => exact .errored hbody
    | panics h => exact .panics (acted_yields.2 ⟨_, h, rfl⟩)

/-- The loop and the initial step before it. -/
def begun (make : Nat → Effect ε α) (s : Schedule ε ε σ ο) (since : Nat) :
    Effect δ (Except (GivingUp ε ο) α) :=
  (s.initial.attempt : Effect δ (Except ε σ)).flatMap fun
    | .error error => .pure (.error ⟨error, none, 0, since⟩)
    | .ok state => .loop (acted make s since) (state, 1)

theorem begun_yields {x : Upshot δ (Except (GivingUp ε ο) α)} :
    (begun make s since).Yields run t x ↔
      ∃ y, Row make s run t y ∧ Reported since y = x := by
  rw [begun, Effect.attempt_flatMap_yields]
  constructor
  · intro h
    cases h with
    | panics h => exact ⟨_, .initial_panics h, rfl⟩
    | @goes _ _ o _ _ _ h hnext rest =>
      cases o with
      | canceled => cases hnext
      | errored error =>
        obtain rfl := Sum.inr.inj hnext
        obtain ⟨rfl, rfl⟩ := (Effect.pure_yields _).1 rest
        rw [List.append_nil]
        exact ⟨_, .initial_fails h, rfl⟩
      | completed state =>
        obtain rfl := Sum.inr.inj hnext
        obtain ⟨y, hy, rfl⟩ := loops_iff.1 (Effect.loop_yields.1 rest)
        exact ⟨y, .begins h hy, rfl⟩
    | @ends _ o _ _ h hnext =>
      cases o with
      | completed | errored => cases hnext
      | canceled =>
        obtain rfl := Sum.inl.inj hnext
        exact ⟨_, .initial_canceled h, rfl⟩
  · rintro ⟨y, hy, rfl⟩
    cases hy with
    | begins h rest =>
      exact .goes h rfl (Effect.loop_yields.2 (loops_iff.2 ⟨_, rest, rfl⟩))
    | initial_fails h => exact .gives h rfl
    | initial_canceled h => exact .ends h rfl
    | initial_panics h => exact .panics h

theorem attempts_yields {x : Upshot δ (Except (GivingUp ε ο) α)} :
    (attempts make s).Yields run t x ↔ ∃ w here t' y, t = ⟨w, here, .now⟩ :: t' ∧
      Row make s run t' y ∧ Reported w.clock y = x := by
  have heq : (attempts make s : Effect δ (Except (GivingUp ε ο) α)) =
      .defer do return begun make s (← Routine.now) := rfl
  rw [heq, Effect.defer_now_yields]
  constructor
  · rintro ⟨w, here, t', rfl, h⟩
    obtain ⟨y, hy, rfl⟩ := begun_yields.1 h
    exact ⟨w, here, t', y, rfl, hy, rfl⟩
  · rintro ⟨w, here, t', y, rfl, hy, rfl⟩
    exact ⟨w, here, t', rfl, begun_yields.2 ⟨y, hy, rfl⟩⟩

end Rounds

section Runs

variable {ε δ α σ ο : Type} [Datum ε] [Datum δ] [Datum α] [Datum σ] [Datum ο]

/-- A row of runs between two looks at the clock, and what its stop leads to. -/
inductive Concluded (make : Nat → Effect ε α) (s : Schedule ε ε σ ο)
    (given : GivingUp ε ο → Run → Trace → Upshot δ α → Prop) (run : Run) :
    Trace → Upshot δ α → Prop
  | success {w here t k a run'}
      (h : Row (δ := δ) make s run t (.ok ((k, .success a), run'))) :
      Concluded make s given run (⟨w, here, .now⟩ :: t) (.ok (.completed a, run'))
  | gives_up {w here t₁ k stop error output run' t₂ x}
      (h : Row (δ := δ) make s run t₁ (.ok ((k, stop), run')))
      (hstop : stop.givenUp? = some (error, output))
      (rest : given ⟨error, output, min k maxCount, w.clock⟩ run' t₂ x) :
      Concluded make s given run (⟨w, here, .now⟩ :: (t₁ ++ t₂)) x
  | canceled {w here t k run'} (h : Row (δ := δ) make s run t (.ok ((k, .canceled), run'))) :
      Concluded make s given run (⟨w, here, .now⟩ :: t) (.ok (.canceled, run'))
  | disturbed {w here t k error run'}
      (h : Row make s run t (.ok ((k, .disturbed error), run'))) :
      Concluded make s given run (⟨w, here, .now⟩ :: t) (.ok (.errored error, run'))
  | panics {w here t message} (h : Row (δ := δ) make s run t (.error message)) :
      Concluded make s given run (⟨w, here, .now⟩ :: t) (.error message)

/-- Raises the error with the number of runs and the time since the first. -/
inductive Exhausts (g : GivingUp ε ο) (run : Run) : Trace → Upshot (RetryExhausted ε) α → Prop
  | mk (w : World) (here : Place) : Exhausts g run [⟨w, here, .now⟩]
      (.ok (.errored ⟨g.error, g.attempts, .ofNanos (w.clock - g.since)⟩, run))

variable {make : Nat → Effect ε α} {s : Schedule ε ε σ ο} {run : Run} {t : Trace}

theorem concluded_iff {f : Except (GivingUp ε ο) α → Effect δ α}
    {given : GivingUp ε ο → Run → Trace → Upshot δ α → Prop} {x : Upshot δ α}
    (hvalue : ∀ a, f (.ok a) = .pure a)
    (hgiven : ∀ g run t x, (f (.error g)).Yields run t x ↔ given g run t x) :
    ((attempts make s).flatMap f).Yields run t x ↔ Concluded make s given run t x := by
  rw [Effect.flatMap_yields]
  constructor
  · intro h
    cases h with
    | panics h =>
      obtain ⟨w, here, t', y, rfl, hrow, hy⟩ := attempts_yields.1 h
      obtain message | p := y
      · cases hy
        exact .panics hrow
      · cases hy
    | @ends _ o _ _ h hnext =>
      obtain ⟨w, here, t', y, rfl, hrow, hy⟩ := attempts_yields.1 h
      obtain message | ⟨⟨k, stop⟩, run'⟩ := y
      · cases hy
      · cases hy
        cases stop with
        | success | declined | failed => cases hnext
        | canceled =>
          obtain rfl := Sum.inl.inj hnext
          exact .canceled hrow
        | disturbed =>
          obtain rfl := Sum.inl.inj hnext
          exact .disturbed hrow
    | @goes _ _ o _ _ _ h hnext rest =>
      obtain ⟨w, here, t', y, rfl, hrow, hy⟩ := attempts_yields.1 h
      obtain message | ⟨⟨k, stop⟩, run'⟩ := y
      · cases hy
      · cases hy
        cases stop with
        | success a =>
          obtain rfl := Sum.inr.inj hnext
          rw [hvalue] at rest
          obtain ⟨rfl, rfl⟩ := (Effect.pure_yields _).1 rest
          rw [List.append_nil]
          exact .success hrow
        | declined | failed =>
          obtain rfl := Sum.inr.inj hnext
          exact .gives_up hrow rfl ((hgiven _ _ _ _).1 rest)
        | canceled | disturbed => cases hnext
  · intro h
    have hattempts : ∀ {w here t k stop run'}, Row make s run t (.ok ((k, stop), run')) →
        (attempts make s : Effect δ _).Yields run (⟨w, here, .now⟩ :: t)
          (.ok (stop.report w.clock k, run')) := fun hrow =>
      attempts_yields.2 ⟨_, _, _, _, rfl, hrow, rfl⟩
    cases h with
    | success h => exact .gives (hattempts h) (congrArg Sum.inr (hvalue _))
    | @gives_up w here t₁ k stop error output run' t₂ x h hstop rest =>
      have hrest := (hgiven _ _ _ _).2 rest
      cases stop with
      | declined | failed =>
        cases hstop
        exact .goes (hattempts h) rfl hrest
      | _ => cases hstop
    | canceled h => exact .ends (hattempts h) rfl
    | disturbed h => exact .ends (hattempts h) rfl
    | panics h => exact .panics (attempts_yields.2 ⟨_, _, _, _, rfl, h, rfl⟩)

def exhausted (g : GivingUp ε ο) : Effect (RetryExhausted ε) α :=
  .defer do return .raise ⟨g.error, g.attempts, .ofNanos ((← Routine.now) - g.since)⟩

omit [Datum ο] in
theorem exhausts_iff {g : GivingUp ε ο} {x : Upshot (RetryExhausted ε) α} :
    (exhausted g).Yields run t x ↔ Exhausts g run t x := by
  constructor
  · intro h
    obtain ⟨w, here, t', rfl, hraise⟩ := Effect.defer_now_yields.1 h
    obtain ⟨rfl, rfl⟩ := (Effect.raise_yields _).1 hraise
    exact .mk w here
  · rintro ⟨w, here⟩
    exact Effect.defer_now_yields.2 ⟨w, here, [], rfl, (Effect.raise_yields _).2 ⟨rfl, rfl⟩⟩

/-- What retrying does and how it ends: all that it may do, and whatever happens to a run of it among
the threads of a world. -/
structure Retries (make : Nat → Effect ε α) (s : Schedule ε ε σ ο) : Prop where
  retry : ∀ {run : Run} {t : Trace} {x : Upshot (RetryExhausted ε) α},
    (retry make s).Yields run t x ↔ Concluded make s Exhausts run t x
  retryOrElse : ∀ {fallback : ε → Option ο → Effect ε α} {run : Run} {t : Trace} {x : Upshot ε α},
    (retryOrElse make s fallback).Yields run t x ↔
      Concluded make s (fun g => (fallback g.error g.output).Yields) run t x
  retry_happens : ∀ {run : Run} {t : Trace} {x : Upshot (RetryExhausted ε) α},
    (Schedule.retry make s).Happens run t x → Concluded make s Exhausts run t x
  retryOrElse_happens : ∀ {fallback : ε → Option ο → Effect ε α} {run : Run} {t : Trace}
    {x : Upshot ε α}, (Schedule.retryOrElse make s fallback).Happens run t x →
      Concluded make s (fun g => (fallback g.error g.output).Yields) run t x

/-- The runs go on until one succeeds, which the schedule is not asked about. Each other one is
answered by one update and one pause; what the schedule stops at, or fails with, is given up with
together with the number of runs, and whatever is canceled on the way ends the whole. -/
theorem runs_until_success (make : Nat → Effect ε α) (s : Schedule ε ε σ ο) : Retries make s := by
  have hretry : ∀ {run : Run} {t : Trace} {x : Upshot (RetryExhausted ε) α},
      (retry make s).Yields run t x ↔ Concluded make s Exhausts run t x :=
    concluded_iff (fun _ => rfl) fun _ _ _ _ => exhausts_iff
  have horElse : ∀ {fallback : ε → Option ο → Effect ε α} {run : Run} {t : Trace}
      {x : Upshot ε α}, (retryOrElse make s fallback).Yields run t x ↔
        Concluded make s (fun g => (fallback g.error g.output).Yields) run t x :=
    concluded_iff (fun _ => rfl) fun _ _ _ _ => Iff.rfl
  exact ⟨hretry, horElse, fun h => hretry.1 h.yields, fun h => horElse.1 h.yields⟩

end Runs

end Effects.Schedule
