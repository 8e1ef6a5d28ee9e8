import Effects.Proofs.Paced.Pauses

/-!
Loops of runs, questions and pauses, taken apart into what has come to its end and the stage that
has not. Between two runs there is a pause, and it has found the connection not canceled.
-/

namespace Effects.Schedule

variable {δ α ζ κ σ β : Type}

/-- A loop that runs an effect and may be over with what comes of the run, or else asks a schedule
and may be over with the answer, or else pauses. -/
structure Paced (δ α ζ κ σ β : Type) where
  act : Nat → Effect δ α
  judge : α → β ⊕ ζ
  ask : σ → ζ → Effect δ κ
  decide : Nat → σ → ζ → κ → β ⊕ (σ × Duration)

namespace Paced

/-- What the loop is doing, in the run of that number or after it. -/
inductive Stage (ζ σ : Type) where
  | acting (k : Nat) (state : σ)
  | asking (k : Nat) (state : σ) (z : ζ)
  | pausing (k : Nat) (next : σ) (delay : Duration)

variable [Datum δ] [Datum α] [Datum κ]

section

variable [Datum σ] [Datum β]

def waits (k : Nat) : β ⊕ (σ × Duration) → Effect δ ((σ × Nat) ⊕ β)
  | .inl b => .pure (.inr b)
  | .inr (next, delay) => (pause delay).map fun _ => .inl (next, k + 1)

def consults (d : Paced δ α ζ κ σ β) (k : Nat) (state : σ) :
    β ⊕ ζ → Effect δ ((σ × Nat) ⊕ β)
  | .inl b => .pure (.inr b)
  | .inr z => (d.ask state z).flatMap fun q => waits k (d.decide k state z q)

def round (d : Paced δ α ζ κ σ β) (p : σ × Nat) : Effect δ ((σ × Nat) ⊕ β) :=
  (d.act p.2).flatMap fun a => d.consults p.2 p.1 (d.judge a)

end

variable {d : Paced δ α ζ κ σ β} {t₀ t : Trace} {state₀ state : σ} {run₀ run : Run}
  {starts : List Nat} {stage : Stage ζ σ} {k : Nat}

def Stage.Begins (d : Paced δ α ζ κ σ β) : Stage ζ σ → Run → Trace → Prop
  | .acting k _ => (d.act k).Begins
  | .asking _ state z => (d.ask state z).Begins
  | .pausing _ _ delay => (pause delay : Effect δ Unit).Begins

/-- From the state, after what has been done before the loop, it gets to the stage; the runs have
started after so many operations each. -/
inductive Path (d : Paced δ α ζ κ σ β) (t₀ : Trace) (state₀ : σ) (run₀ : Run) :
    Trace → List Nat → Stage ζ σ → Run → Prop
  | enters : Path d t₀ state₀ run₀ t₀ [t₀.length] (.acting 1 state₀) run₀
  | acted {t starts k state run t₁ a z run₁}
      (path : Path d t₀ state₀ run₀ t starts (.acting k state) run)
      (h : (d.act k).Yields run t₁ (.ok (.completed a, run₁))) (hj : d.judge a = .inr z) :
      Path d t₀ state₀ run₀ (t ++ t₁) starts (.asking k state z) run₁
  | asked {t starts k state z run t₁ q next delay run₁}
      (path : Path d t₀ state₀ run₀ t starts (.asking k state z) run)
      (h : (d.ask state z).Yields run t₁ (.ok (.completed q, run₁)))
      (hd : d.decide k state z q = .inr (next, delay)) :
      Path d t₀ state₀ run₀ (t ++ t₁) starts (.pausing k next delay) run₁
  | paused {t starts k next delay run t₁ run₁}
      (path : Path d t₀ state₀ run₀ t starts (.pausing k next delay) run)
      (h : (pause delay : Effect δ Unit).Yields run t₁ (.ok (.completed (), run₁))) :
      Path d t₀ state₀ run₀ (t ++ t₁) (starts ++ [(t ++ t₁).length]) (.acting (k + 1) next) run₁

inductive Halts (d : Paced δ α ζ κ σ β) : Stage ζ σ → Run → Trace → Upshot δ β → Prop
  | act {k state run t a b run'} (h : (d.act k).Yields run t (.ok (.completed a, run')))
      (hj : d.judge a = .inl b) : Halts d (.acting k state) run t (.ok (.completed b, run'))
  | act_passes {k state run t y x} (h : (d.act k).Yields run t y) (hpasses : y.Passes x) :
      Halts d (.acting k state) run t x
  | ask {k state z run t q b run'} (h : (d.ask state z).Yields run t (.ok (.completed q, run')))
      (hd : d.decide k state z q = .inl b) :
      Halts d (.asking k state z) run t (.ok (.completed b, run'))
  | ask_passes {k state z run t y x} (h : (d.ask state z).Yields run t y) (hpasses : y.Passes x) :
      Halts d (.asking k state z) run t x
  | pause {k next delay run t y x} (h : (pause delay : Effect δ Unit).Yields run t y)
      (hpasses : y.Passes x) : Halts d (.pausing k next delay) run t x

/-- A path, and what is done at the stage that it gets to. -/
inductive Along (d : Paced δ α ζ κ σ β) (t₀ : Trace) (state₀ : σ) (run₀ : Run)
    (does : Stage ζ σ → Run → Trace → Prop) : Trace → List Nat → Prop
  | mk {t starts stage run t₁} (path : Path d t₀ state₀ run₀ t starts stage run)
      (now : does stage run t₁) : Along d t₀ state₀ run₀ does (t ++ t₁) starts

theorem Along.later {does : Stage ζ σ → Run → Trace → Prop} {s s' : Trace}
    (h : d.Along t₀ state₀ run₀ does (t ++ s ++ s') starts) :
    d.Along t₀ state₀ run₀ does (t ++ (s ++ s')) starts :=
  List.append_assoc t s s' ▸ h

namespace Path

theorem connection (h : d.Path t₀ state₀ run₀ t starts stage run) :
    run.connection = run₀.connection := by
  induction h with
  | enters => rfl
  | acted _ h _ ih | asked _ h _ ih | paused _ h ih => exact h.connection.trans ih

theorem starts_le (h : d.Path t₀ state₀ run₀ t starts stage run) : ∀ i ∈ starts, i ≤ t.length := by
  induction h with
  | enters => simp
  | acted _ _ _ ih | asked _ _ _ ih =>
    intro i hi
    rw [List.length_append]
    exact Nat.le_add_right_of_le (ih i hi)
  | paused _ _ ih =>
    intro i hi
    obtain hi | hi := List.mem_append.1 hi
    · rw [List.length_append]
      exact Nat.le_add_right_of_le (ih i hi)
    · exact Nat.le_of_eq (List.mem_singleton.1 hi)

/-- A pause between two runs has found the connection not canceled: from when on it is canceled, one
run starts at most. -/
theorem starts_once (h : d.Path t₀ state₀ run₀ t starts stage run) {j : Nat}
    (ht : ∀ o ∈ t.drop j, o.world.isCanceled run₀.connection = true) :
    (starts.filter (j ≤ ·)).length ≤ 1 := by
  induction h with
  | enters => exact List.length_filter_le _ [t₀.length]
  | acted _ _ _ ih | asked _ _ _ ih =>
    exact ih fun o ho => ht o (List.drop_append .. ▸ List.mem_append_left _ ho)
  | @paused t starts k next delay run t₁ run₁ path h ih =>
    -- The pause has ended by itself, and so it has begun before the cancellation: the runs that
    -- have started before it do not count, whatever is known of them by induction.
    have hlate : t.length < j := by
      by_contra hj
      refine not_completed_of_canceled h fun o ho => ?_
      rw [path.connection]
      refine ht o ?_
      rw [List.drop_append_of_le_length (Nat.le_of_not_lt hj)]
      exact List.mem_append_right _ ho
    have hnone : starts.filter (j ≤ ·) = [] := by
      refine List.filter_eq_nil_iff.2 fun i hi => ?_
      have := path.starts_le i hi
      simp only [decide_eq_true_eq]
      omega
    rw [List.filter_append, hnone, List.nil_append]
    exact List.length_filter_le _ [(t ++ t₁).length]

end Path

section Rounds

variable [Datum σ] [Datum β] {s : Trace}

/-- A round leads to the next run, or one of its stages ends the loop. -/
theorem round_cases {y : Upshot δ ((σ × Nat) ⊕ β)} (h : (d.round (state, k)).Yields run s y)
    (path : d.Path t₀ state₀ run₀ t starts (.acting k state) run) :
    (∃ next starts' run', y = .ok (.completed (.inl (next, k + 1)), run') ∧
        d.Path t₀ state₀ run₀ (t ++ s) starts' (.acting (k + 1) next) run') ∨
      ∃ x : Upshot δ β, x.mapValue .inr = y ∧
        d.Along t₀ state₀ run₀ (fun stage run t => d.Halts stage run t x) (t ++ s) starts := by
  cases Effect.bind_yields.1 h with
  | passes hact hpasses =>
    obtain ⟨x, hx, rfl⟩ := hpasses.exists_mapValue Sum.inr
    exact .inr ⟨x, rfl, .mk path (.act_passes hact hx)⟩
  | @goes s₁ a run₁ s₂ _ hact hrest =>
    cases hj : d.judge a with
    | inl b =>
      rw [hj] at hrest
      obtain ⟨rfl, rfl⟩ := (Effect.pure_yields _).1 hrest
      rw [List.append_nil]
      exact .inr ⟨.ok (.completed b, run₁), rfl, .mk path (.act hact hj)⟩
    | inr z =>
      rw [hj] at hrest
      have hasking := path.acted hact hj
      cases Effect.bind_yields.1 hrest with
      | passes hask hpasses =>
        obtain ⟨x, hx, rfl⟩ := hpasses.exists_mapValue Sum.inr
        exact .inr ⟨x, rfl, .later (.mk hasking (.ask_passes hask hx))⟩
      | @goes s₂ q run₂ s₃ _ hask hdecided =>
        cases hd : d.decide k state z q with
        | inl b =>
          rw [hd] at hdecided
          obtain ⟨rfl, rfl⟩ := (Effect.pure_yields _).1 hdecided
          rw [List.append_nil]
          exact .inr ⟨.ok (.completed b, run₂), rfl, .later (.mk hasking (.ask hask hd))⟩
        | inr p =>
          obtain ⟨next, delay⟩ := p
          rw [hd] at hdecided
          have hpausing := hasking.asked hask hd
          obtain ⟨y', hpause, hy⟩ := Effect.mapped_yields.1 hdecided
          obtain ⟨_, run₃, rfl, rfl⟩ | hpasses := Upshot.mapValue_cases hy
          · refine .inl ⟨next, starts ++ [(t ++ s₁ ++ s₂ ++ s₃).length], run₃, rfl, ?_⟩
            rw [← List.append_assoc, ← List.append_assoc]
            exact hpausing.paused hpause
          · obtain ⟨x, hx, rfl⟩ := hpasses.exists_mapValue Sum.inr
            refine .inr ⟨x, rfl, .later ?_⟩
            rw [← List.append_assoc]
            exact .mk hpausing (.pause hpause hx)

/-- A round that has not come to its end is at one of its stages. -/
theorem stage_of_round (h : (d.round (state, k)).Begins run s)
    (path : d.Path t₀ state₀ run₀ t starts (.acting k state) run) :
    d.Along t₀ state₀ run₀ (Stage.Begins d) (t ++ s) starts := by
  cases Effect.bind_begins.1 h with
  | first hact => exact .mk path hact
  | @goes s₁ s₂ a run₁ hact hrest =>
    cases hj : d.judge a with
    | inl b =>
      rw [hj] at hrest
      obtain rfl := (Effect.pure_begins _).1 hrest
      rw [List.append_nil]
      exact .mk path hact.begins
    | inr z =>
      rw [hj] at hrest
      have hasking := path.acted hact hj
      cases Effect.bind_begins.1 hrest with
      | first hask => exact .later (.mk hasking hask)
      | @goes s₂ s₃ q run₂ hask hdecided =>
        cases hd : d.decide k state z q with
        | inl b =>
          rw [hd] at hdecided
          obtain rfl := (Effect.pure_begins _).1 hdecided
          rw [List.append_nil]
          exact .later (.mk hasking hask.begins)
        | inr p =>
          obtain ⟨next, delay⟩ := p
          rw [hd] at hdecided
          refine .later ?_
          rw [← List.append_assoc]
          exact .mk (hasking.asked hask hd) (Effect.map_begins.1 hdecided)

theorem path_of_round {p : σ × Nat} {run' : Run}
    (h : (d.round (state, k)).Yields run s (.ok (.completed (.inl p), run')))
    (path : d.Path t₀ state₀ run₀ t starts (.acting k state) run) :
    ∃ starts', d.Path t₀ state₀ run₀ (t ++ s) starts' (.acting p.2 p.1) run' := by
  obtain ⟨next, starts', run', hy, path'⟩ | ⟨x, hx, -⟩ := round_cases h path
  · obtain ⟨hp, rfl⟩ := Prod.mk.inj (Except.ok.inj hy)
    obtain rfl := Sum.inl.inj (Outcome.completed.inj hp)
    exact ⟨starts', path'⟩
  · obtain ⟨_, -, hinr⟩ := Upshot.mapValue_eq_completed hx
    cases hinr

theorem halts_of_round {x : Upshot δ β} (h : (d.round (state, k)).Yields run s (x.mapValue .inr))
    (path : d.Path t₀ state₀ run₀ t starts (.acting k state) run) :
    d.Along t₀ state₀ run₀ (fun stage run t => d.Halts stage run t x) (t ++ s) starts := by
  obtain ⟨next, starts', run', hy, -⟩ | ⟨x', hx, halong⟩ := round_cases h path
  · obtain ⟨_, -, hinr⟩ := Upshot.mapValue_eq_completed hy
    cases hinr
  · rwa [Upshot.mapValue_injective (fun _ _ => Sum.inr.inj) hx] at halong

theorem stage_of_turning (h : Effect.Turning d.round (state, k) run s)
    (path : d.Path t₀ state₀ run₀ t starts (.acting k state) run) :
    ∃ starts', d.Along t₀ state₀ run₀ (Stage.Begins d) (t ++ s) starts' := by
  -- Induction on the rounds that are still to come, with the path of those that have been.
  generalize hp : (state, k) = p at h
  induction h generalizing state k t starts with
  | round h =>
    subst hp
    exact ⟨starts, stage_of_round h path⟩
  | again h _ ih =>
    subst hp
    obtain ⟨starts', path'⟩ := path_of_round h path
    obtain ⟨starts', halong⟩ := ih path' rfl
    exact ⟨starts', halong.later⟩

theorem halts_of_loops {x : Upshot δ β} (h : Effect.Loops d.round (state, k) run s x)
    (path : d.Path t₀ state₀ run₀ t starts (.acting k state) run) :
    ∃ starts', d.Along t₀ state₀ run₀ (fun stage run t => d.Halts stage run t x) (t ++ s)
      starts' := by
  generalize hp : (state, k) = p at h
  induction h generalizing state k t starts with
  | again h _ ih =>
    subst hp
    obtain ⟨starts', path'⟩ := path_of_round h path
    obtain ⟨starts', halong⟩ := ih path' rfl
    exact ⟨starts', halong.later⟩
  | @value _ b _ run' _ h =>
    exact ⟨starts, halts_of_round (x := .ok (.completed b, run')) (hp ▸ h) path⟩
  | @errored _ e _ run' _ h =>
    exact ⟨starts, halts_of_round (x := .ok (.errored e, run')) (hp ▸ h) path⟩
  | @canceled _ _ run' _ h =>
    exact ⟨starts, halts_of_round (x := .ok (.canceled, run')) (hp ▸ h) path⟩
  | @panics _ message _ _ h =>
    exact ⟨starts, halts_of_round (x := .error message) (hp ▸ h) path⟩

end Rounds

section Ending

variable [Datum σ] [Datum β] {c : ConnectionId}

omit [Datum δ] in
theorem round_settles {W : World → Prop} (hact : ∀ k, (d.act k).Settles W c)
    (hask : ∀ state z, (d.ask state z).Settles W c) (p : σ × Nat) : (d.round p).Settles W c := by
  refine Effect.bind_settles (hact p.2) fun a => ?_
  cases d.judge a with
  | inl b => exact Effect.pure_settles _
  | inr z =>
    refine Effect.bind_settles (hask p.1 z) fun q => ?_
    cases d.decide p.2 p.1 z q with
    | inl b => exact Effect.pure_settles _
    | inr next => exact Effect.map_settles (pause_settles next.2)

/-- A round that begins under a canceled connection gets no further than its pause. -/
theorem round_closes (hact : ∀ k, (d.act k).Ceases c) (hask : ∀ state z, (d.ask state z).Ceases c) :
    Effect.Closes (fun w => w.isCanceled c = true) c d.round := by
  intro p
  have hstops : ∀ {γ : Type} (x : Upshot δ γ) (y : Upshot δ ((σ × Nat) ⊕ β)), True →
      x.Passes y → ∀ p run, y ≠ .ok (.completed (.inl p), run) :=
    fun _ _ _ hpasses _ _ => hpasses.ne_completed _ _
  refine Effect.bind_ends (hact p.2).ends (fun a _ _ => ?_) hstops
  cases d.judge a with
  | inl b => exact Effect.pure_ends _ nofun
  | inr z =>
    refine Effect.bind_ends (hask p.1 z).ends (fun q _ _ => ?_) hstops
    cases d.decide p.2 p.1 z q with
    | inl b => exact Effect.pure_ends _ nofun
    | inr next =>
      exact fun run hc => (Effect.map_ends (pause_ends next.2) run hc).mono fun _ _ hx p run' =>
        hx (.inl p) run'

theorem loop_ceases (hact : ∀ k, (d.act k).Ceases c) (hask : ∀ state z, (d.ask state z).Ceases c)
    (p : σ × Nat) : (Effect.loop d.round p).Ceases c :=
  Effect.loop_settles (round_settles hact hask) (round_closes hact hask)

end Ending

end Paced
end Effects.Schedule
