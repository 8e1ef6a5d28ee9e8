import Effects.Proofs.Paced.Loops
import Effects.Proofs.Repeat.Laps
import Effects.Proofs.Retry.Runs

/-!
Repeating and retrying as loops of runs, questions and pauses, with what comes before the loop and
after it.
-/

namespace Effects.Schedule

variable {ε δ α ζ κ σ ο β γ : Type}

namespace Paced

variable [Datum δ] [Datum α] [Datum κ] [Datum β] [Datum γ]

/-- What a driver does around its loop. -/
structure Drive (δ α ζ κ σ β γ : Type) where
  /-- It has not come to the loop. -/
  before : Run → Trace → Prop
  /-- It has come to an end without the loop. -/
  stops : Run → Trace → Upshot δ γ → Prop
  /-- It has come to the loop, which begins from the state. -/
  enters : Run → Trace → Paced δ α ζ κ σ β → σ → Run → Prop
  after : β → Effect δ γ

inductive Drive.Concludes (v : Drive δ α ζ κ σ β γ) : Upshot δ β → Trace → Upshot δ γ → Prop
  | value {b run t x} (h : (v.after b).Yields run t x) : Concludes v (.ok (.completed b, run)) t x
  | passes {y x} (hpasses : y.Passes x) : Concludes v y [] x

/-- What is seen of a driver, and after how many operations it has started its runs. -/
inductive Drive.Course (v : Drive δ α ζ κ σ β γ) (run : Run) : Trace → List Nat → Prop
  | before {t} (h : v.before run t) : Course v run t []
  | within {t₀ d state run₀ t starts} (h : v.enters run t₀ d state run₀)
      (along : d.Along t₀ state run₀ (Stage.Begins d) t starts) : Course v run t starts
  | after {t₀ d state run₀ t₁ starts b run₁ t₂} (h : v.enters run t₀ d state run₀)
      (along : d.Along t₀ state run₀
        (fun stage run t => d.Halts stage run t (.ok (.completed b, run₁))) t₁ starts)
      (now : (v.after b).Begins run₁ t₂) : Course v run (t₁ ++ t₂) starts

/-- How a driver ends, and by what. -/
inductive Drive.Ending (v : Drive δ α ζ κ σ β γ) (run : Run) : Trace → Upshot δ γ → Prop
  | initial {t x} (h : v.stops run t x) : Ending v run t x
  /-- A run of the action has ended the loop. -/
  | action {t₀ d state run₀ t starts k state' run₁ t₁ y t₂ x} (h : v.enters run t₀ d state run₀)
      (path : d.Path t₀ state run₀ t starts (.acting k state') run₁)
      (halts : d.Halts (.acting k state') run₁ t₁ y) (rest : v.Concludes y t₂ x) :
      Ending v run (t ++ (t₁ ++ t₂)) x
  /-- A step of the schedule has ended the loop. -/
  | update {t₀ d state run₀ t starts k state' z run₁ t₁ y t₂ x} (h : v.enters run t₀ d state run₀)
      (path : d.Path t₀ state run₀ t starts (.asking k state' z) run₁)
      (halts : d.Halts (.asking k state' z) run₁ t₁ y) (rest : v.Concludes y t₂ x) :
      Ending v run (t ++ (t₁ ++ t₂)) x
  | canceled {t₀ d state run₀ t starts k next delay run₁ t₁ run₂} (h : v.enters run t₀ d state run₀)
      (path : d.Path t₀ state run₀ t starts (.pausing k next delay) run₁)
      (halts : d.Halts (.pausing k next delay) run₁ t₁ (.ok (.canceled, run₂))) :
      Ending v run (t ++ t₁) (.ok (.canceled, run₂))
  | disturbed {t₀ d state run₀ t starts k next delay run₁ t₁ y x} (h : v.enters run t₀ d state run₀)
      (path : d.Path t₀ state run₀ t starts (.pausing k next delay) run₁)
      (halts : d.Halts (.pausing k next delay) run₁ t₁ y) (hpasses : y.Passes x)
      (hd : Disturbed t₁) : Ending v run (t ++ t₁) x

variable {v : Drive δ α ζ κ σ β γ} {run : Run} {t : Trace} {starts : List Nat}

omit [Datum α] [Datum κ] in
theorem Drive.concludes_of_yields {e : Effect δ β} {x : Upshot δ γ}
    (h : (e.flatMap v.after).Yields run t x) :
    ∃ t₁ t₂ y, e.Yields run t₁ y ∧ v.Concludes y t₂ x ∧ t = t₁ ++ t₂ := by
  cases Effect.bind_yields.1 h with
  | goes he hrest => exact ⟨_, _, _, he, .value hrest, rfl⟩
  | passes he hpasses => exact ⟨t, [], _, he, .passes hpasses, (List.append_nil t).symm⟩

omit [Datum β] in
/-- The loop ends as its last stage does. -/
theorem Drive.Ending.of_along [Datum σ] {d : Paced δ α ζ κ σ β} {state : σ} {run₀ : Run}
    {t₀ t₂ : Trace} {y : Upshot δ β} {x : Upshot δ γ} (h : v.enters run t₀ d state run₀)
    (along : d.Along t₀ state run₀ (fun stage run t => d.Halts stage run t y) t starts)
    (rest : v.Concludes y t₂ x) : v.Ending run (t ++ t₂) x := by
  obtain ⟨path, halts⟩ := along
  rename_i t stage run₁ t₁
  rw [List.append_assoc]
  cases stage with
  | acting k state' => exact .action h path halts rest
  | asking k state' z => exact .update h path halts rest
  | pausing k next delay =>
    cases halts with
    | pause hpause hpasses =>
      cases rest with
      | value => exact absurd rfl (hpasses.ne_completed _ _)
      | passes hpasses' =>
        rw [List.append_nil]
        obtain ⟨run₂, rfl⟩ | hd := canceled_of_passes hpause hpasses
        · cases hpasses'
          exact .canceled h path (.pause hpause hpasses)
        · exact .disturbed h path (.pause hpause hpasses) hpasses' hd

omit [Datum β] [Datum γ] in
theorem Drive.Course.starts_once {j : Nat} (h : v.Course run t starts)
    (hv : ∀ {t d state run₀}, v.enters run t d state run₀ → run₀.connection = run.connection)
    (ht : ∀ o ∈ t.drop j, o.world.isCanceled run.connection = true) :
    (starts.filter (j ≤ ·)).length ≤ 1 := by
  have honce : ∀ t' {t₀ state run₀ t does} {d : Paced δ α ζ κ σ β},
      v.enters run t₀ d state run₀ → d.Along t₀ state run₀ does t starts →
      (∀ o ∈ (t ++ t').drop j, o.world.isCanceled run.connection = true) →
      (starts.filter (j ≤ ·)).length ≤ 1 := by
    intro t' t₀ state run₀ t does d h along ht
    obtain ⟨path, -⟩ := along
    refine path.starts_once fun o ho => ?_
    rw [hv h]
    refine ht o ?_
    rw [List.append_assoc]
    exact List.drop_append .. ▸ List.mem_append_left _ ho
  cases h with
  | before => exact Nat.zero_le 1
  | within h along => exact honce [] h along ((List.append_nil _).symm ▸ ht)
  | after h along => exact honce _ h along ht

end Paced

section Repeat

variable [Datum ε] [Datum α] [Datum σ] [Datum ο] {make : Nat → Effect ε α}
  {s : Schedule ε α σ ο} {run : Run} {t : Trace} {c : ConnectionId}

/-- The schedule is asked about every value. -/
def repeating (make : Nat → Effect ε α) (s : Schedule ε α σ ο) :
    Paced ε α α (Decision σ) σ ο where
  act := make
  judge := .inr
  ask state value := s.update value state
  decide
    | _, _, _, .again next delay => .inr (next, delay)
    | _, state, value, .done => .inl (s.extract value state)

omit [Datum ε] in
theorem body_eq_round (make : Nat → Effect ε α) (s : Schedule ε α σ ο) :
    Repeating.body make s = (repeating make s).round := by
  funext p
  have hdecided : ∀ value, Repeating.decided s p.2 p.1 value =
      fun q => Paced.waits p.2 ((repeating make s).decide p.2 p.1 value q) := by
    intro value
    funext q
    cases q <;> rfl
  simp only [Repeating.body, hdecided]
  rfl

def repeats (make : Nat → Effect ε α) (s : Schedule ε α σ ο) :
    Paced.Drive ε α α (Decision σ) σ ο ο where
  before := s.initial.Begins
  stops run t x := ∃ y, s.initial.Yields run t y ∧ y.Passes x
  enters run t d state run₀ :=
    d = repeating make s ∧ s.initial.Yields run t (.ok (.completed state, run₀))
  after := .pure

theorem course_of_repeat (h : (Schedule.repeat make s).Begins run t) :
    ∃ starts, (repeats make s).Course run t starts := by
  rw [Repeating.repeat_eq, body_eq_round] at h
  cases Effect.bind_begins.1 h with
  | first hinitial => exact ⟨[], .before hinitial⟩
  | goes hinitial hloop =>
    obtain ⟨starts, halong⟩ := Paced.stage_of_turning (Effect.loop_begins.1 hloop) .enters
    exact ⟨starts, .within ⟨rfl, hinitial⟩ halong⟩

theorem ending_of_repeat {x : Upshot ε ο} (h : (Schedule.repeat make s).Yields run t x) :
    (repeats make s).Ending run t x := by
  rw [Repeating.repeat_eq, body_eq_round] at h
  cases Effect.bind_yields.1 h with
  | passes hinitial hpasses => exact .initial ⟨_, hinitial, hpasses⟩
  | goes hinitial hloop =>
    obtain ⟨starts, halong⟩ := Paced.halts_of_loops (Effect.loop_yields.1 hloop) .enters
    have hconcludes : (repeats make s).Concludes x [] x := by
      obtain message | ⟨output | error | _, run'⟩ := x
      · exact .passes (.panicked message)
      · exact .value ((Effect.pure_yields _).2 ⟨rfl, rfl⟩)
      · exact .passes (.errored error run')
      · exact .passes (.canceled run')
    have hall := Paced.Drive.Ending.of_along (v := repeats make s) ⟨rfl, hinitial⟩ halong hconcludes
    rwa [List.append_nil] at hall

theorem repeat_ceases (hmake : ∀ k, (make k).Ceases c) (hinitial : s.initial.Ceases c)
    (hupdate : ∀ value state, (s.update value state).Ceases c) :
    (Schedule.repeat make s).Ceases c := by
  rw [Repeating.repeat_eq, body_eq_round]
  exact Effect.bind_settles hinitial fun state =>
    Paced.loop_ceases hmake (fun state value => hupdate value state) (state, 1)

end Repeat

section Retry

variable [Datum ε] [Datum δ] [Datum α] [Datum σ] [Datum ο] {make : Nat → Effect ε α}
  {s : Schedule ε ε σ ο} {given : GivingUp ε ο → Effect δ α} {since : Nat} {run : Run} {t : Trace}
  {c : ConnectionId}

/-- A value ends the loop, and the schedule is asked about every error. -/
def attempting (make : Nat → Effect ε α) (s : Schedule ε ε σ ο) (since : Nat) :
    Paced δ (Except ε α) ε (Except ε (Decision σ)) σ (Except (GivingUp ε ο) α) where
  act k := (make k).attempt
  judge
    | .ok value => .inl (.ok value)
    | .error error => .inr error
  ask state error := (s.update error state).attempt
  decide
    | _, _, _, .ok (.again next delay) => .inr (next, delay)
    | k, state, error, .ok .done =>
        .inl (.error ⟨error, some (s.extract error state), min k maxCount, since⟩)
    | k, _, _, .error error => .inl (.error ⟨error, none, min k maxCount, since⟩)

omit [Datum δ] in
theorem acted_eq_round (make : Nat → Effect ε α) (s : Schedule ε ε σ ο) (since : Nat) :
    acted (δ := δ) make s since = (attempting make s since).round := by
  have hasked : ∀ k state error, asked (δ := δ) (α := α) s since k error state =
      (attempting make s since).consults k state (.inr error) := by
    intro k state error
    have hconsults : (attempting (δ := δ) make s since).consults k state (.inr error) =
      ((s.update error state).attempt : Effect δ (Except ε (Decision σ))).flatMap fun d =>
        Paced.waits k ((attempting (δ := δ) make s since).decide k state error d) := rfl
    rw [asked, hconsults]
    congr 1
    funext d
    obtain error | (⟨next, delay⟩ | _) := d <;> rfl
  funext p
  refine congrArg (Effect.flatMap ((make p.2).attempt : Effect δ (Except ε α)))
    (funext fun r => ?_)
  cases r with
  | ok value => rfl
  | error error => exact hasked p.2 p.1 error

/-- What has been seen of retrying that has not come to the loop. -/
inductive Opening (s : Schedule ε ε σ ο) (given : GivingUp ε ο → Effect δ α) (run : Run) :
    Trace → Prop
  | clock : Opening s given run []
  | initial {w here t} (h : s.initial.Begins run t) : Opening s given run (⟨w, here, .now⟩ :: t)
  | gives_up {w here t₁ error run₁ t₂} (h : s.initial.Yields run t₁ (.ok (.errored error, run₁)))
      (now : (given ⟨error, none, 0, w.clock⟩).Begins run₁ t₂) :
      Opening s given run (⟨w, here, .now⟩ :: (t₁ ++ t₂))

/-- The initial step has ended retrying, and then it may be given up. -/
inductive Foiled (s : Schedule ε ε σ ο) (given : GivingUp ε ο → Effect δ α) (run : Run) :
    Trace → Upshot δ α → Prop
  | gives_up {w here t₁ error run₁ t₂ x}
      (h : s.initial.Yields run t₁ (.ok (.errored error, run₁)))
      (rest : (given ⟨error, none, 0, w.clock⟩).Yields run₁ t₂ x) :
      Foiled s given run (⟨w, here, .now⟩ :: (t₁ ++ t₂)) x
  | canceled {w here t run'} (h : s.initial.Yields run t (.ok (.canceled, run'))) :
      Foiled s given run (⟨w, here, .now⟩ :: t) (.ok (.canceled, run'))
  | panics {w here t message} (h : s.initial.Yields run t (.error message)) :
      Foiled s given run (⟨w, here, .now⟩ :: t) (.error message)

def answers (given : GivingUp ε ο → Effect δ α) : Except (GivingUp ε ο) α → Effect δ α
  | .ok value => .pure value
  | .error g => given g

def retries (make : Nat → Effect ε α) (s : Schedule ε ε σ ο) (given : GivingUp ε ο → Effect δ α) :
    Paced.Drive δ (Except ε α) ε (Except ε (Decision σ)) σ (Except (GivingUp ε ο) α) α where
  before := Opening s given
  stops := Foiled s given
  enters run t d state run₀ := ∃ w here t', t = ⟨w, here, .now⟩ :: t' ∧
    d = attempting make s w.clock ∧ s.initial.Yields run t' (.ok (.completed state, run₀))
  after := answers given

theorem course_of_begun {w : World} {here : Place}
    (h : (begun make s w.clock : Effect δ (Except (GivingUp ε ο) α)).Begins run t) :
    ∃ starts, (retries make s given).Course run (⟨w, here, .now⟩ :: t) starts := by
  cases Effect.bind_begins.1 h with
  | first hinitial => exact ⟨[], .before (.initial (Effect.attempt_begins.1 hinitial))⟩
  | @goes t₁ t₂ r run₁ hinitial hrest =>
    obtain ⟨y, hy, hr⟩ := Effect.attempt_yields.1 hinitial
    obtain message | ⟨state | error | _, run'⟩ := y
    · cases hr
    · cases hr
      rw [acted_eq_round] at hrest
      obtain ⟨starts, halong⟩ := Paced.stage_of_turning (Effect.loop_begins.1 hrest) .enters
      exact ⟨starts, .within ⟨w, here, t₁, rfl, rfl, hy⟩ halong⟩
    · cases hr
      obtain rfl := (Effect.pure_begins _).1 hrest
      rw [List.append_nil]
      exact ⟨[], .before (.initial hy.begins)⟩
    · cases hr

/-- The initial step leads to the loop, or without it to an end. -/
theorem begun_cases {y : Upshot δ (Except (GivingUp ε ο) α)}
    (h : (begun make s since).Yields run t y) :
    (∃ t₀ state run₀ t₁, s.initial.Yields run t₀ (.ok (.completed state, run₀)) ∧
        Effect.Loops (attempting make s since).round (state, 1) run₀ t₁ y ∧ t = t₀ ++ t₁) ∨
      (∃ error run', s.initial.Yields run t (.ok (.errored error, run')) ∧
        y = .ok (.completed (.error ⟨error, none, 0, since⟩), run')) ∨
      (∃ run', s.initial.Yields run t (.ok (.canceled, run')) ∧ y = .ok (.canceled, run')) ∨
      ∃ message, s.initial.Yields run t (.error message) ∧ y = .error message := by
  cases Effect.attempt_flatMap_yields.1 h with
  | panics hinitial => exact .inr (.inr (.inr ⟨_, hinitial, rfl⟩))
  | @ends _ o _ run' hinitial hnext =>
    cases o with
    | completed | errored => cases hnext
    | canceled =>
      obtain rfl := Sum.inl.inj hnext
      exact .inr (.inr (.inl ⟨run', hinitial, rfl⟩))
  | @goes t₀ t₁ o run₀ _ _ hinitial hnext hrest =>
    cases o with
    | canceled => cases hnext
    | errored error =>
      obtain rfl := Sum.inr.inj hnext
      obtain ⟨rfl, rfl⟩ := (Effect.pure_yields _).1 hrest
      rw [List.append_nil]
      exact .inr (.inl ⟨error, run₀, hinitial, rfl⟩)
    | completed state =>
      obtain rfl := Sum.inr.inj hnext
      rw [acted_eq_round] at hrest
      exact .inl ⟨t₀, state, run₀, t₁, hinitial, Effect.loop_yields.1 hrest, rfl⟩

theorem course_of_attempts (h : ((attempts make s).flatMap (answers given)).Begins run t) :
    ∃ starts, (retries make s given).Course run t starts := by
  have heq : (attempts make s : Effect δ (Except (GivingUp ε ο) α)) =
      .defer do return begun make s (← Routine.now) := rfl
  cases Effect.bind_begins.1 h with
  | first hloop =>
    rw [heq] at hloop
    obtain rfl | ⟨w, here, t', rfl, hbegun⟩ := Effect.defer_now_begins.1 hloop
    · exact ⟨[], .before .clock⟩
    · exact course_of_begun hbegun
  | @goes t₁ t₂ r run₁ hloop hrest =>
    rw [heq] at hloop
    obtain ⟨w, here, t', rfl, hbegun⟩ := Effect.defer_now_yields.1 hloop
    obtain ⟨t₀, state, run₀, t₁, hinitial, hloops, rfl⟩ | ⟨error, run', hinitial, hy⟩ |
      ⟨run', -, hy⟩ | ⟨message, -, hy⟩ := begun_cases hbegun
    · obtain ⟨starts, halong⟩ := Paced.halts_of_loops hloops .enters
      exact ⟨starts, .after ⟨w, here, t₀, rfl, rfl, hinitial⟩ halong hrest⟩
    · cases hy
      exact ⟨[], .before (.gives_up hinitial hrest)⟩
    · cases hy
    · cases hy

theorem ending_of_attempts {x : Upshot δ α}
    (h : ((attempts make s).flatMap (answers given)).Yields run t x) :
    (retries make s given).Ending run t x := by
  have heq : (attempts make s : Effect δ (Except (GivingUp ε ο) α)) =
      .defer do return begun make s (← Routine.now) := rfl
  obtain ⟨s₁, s₂, y, hy, hconcludes, rfl⟩ :=
    Paced.Drive.concludes_of_yields (v := retries make s given) h
  rw [heq] at hy
  obtain ⟨w, here, t', rfl, hbegun⟩ := Effect.defer_now_yields.1 hy
  obtain ⟨t₀, state, run₀, t₁, hinitial, hloops, rfl⟩ | ⟨error, run', hinitial, rfl⟩ |
    ⟨run', hinitial, rfl⟩ | ⟨message, hinitial, rfl⟩ := begun_cases hbegun
  · obtain ⟨starts, halong⟩ := Paced.halts_of_loops hloops .enters
    exact .of_along ⟨w, here, t₀, rfl, rfl, hinitial⟩ halong hconcludes
  · cases hconcludes with
    | value hgiven => exact .initial (.gives_up hinitial hgiven)
    | passes hpasses => cases hpasses
  · cases hconcludes with
    | passes hpasses =>
      cases hpasses
      rw [List.append_nil]
      exact .initial (.canceled hinitial)
  · cases hconcludes with
    | passes hpasses =>
      cases hpasses
      rw [List.append_nil]
      exact .initial (.panics hinitial)

theorem attempts_cease (hmake : ∀ k, (make k).Ceases c) (hinitial : s.initial.Ceases c)
    (hupdate : ∀ error state, (s.update error state).Ceases c) (hgiven : ∀ g, (given g).Ceases c) :
    ((attempts make s).flatMap (answers given)).Ceases c := by
  refine Effect.bind_settles ?_ fun r => ?_
  · refine Effect.defer_now_settles (f := begun make s) fun since => ?_
    refine Effect.bind_settles (Effect.attempt_settles hinitial) fun r => ?_
    cases r with
    | error error => exact Effect.pure_settles _
    | ok state =>
      rw [acted_eq_round]
      exact Paced.loop_ceases (fun k => Effect.attempt_settles (hmake k))
        (fun state error => Effect.attempt_settles (hupdate error state)) (state, 1)
  · cases r with
    | ok value => exact Effect.pure_settles _
    | error g => exact hgiven g

end Retry

end Effects.Schedule
