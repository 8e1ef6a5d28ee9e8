import Effects.Proofs.Policy.Steps

/-!
One schedule after another.
-/

namespace Effects.Policy

variable {ε ι σ τ ο ρ φ : Type} [Datum ε] [Datum σ] [Datum τ]

theorem asks_map {b : Schedule ε ι σ ο} {c : Schedule ε ι τ ρ} {f : σ → τ} {s : σ}
    {z : Asked ε ι τ}
    (h : ∀ input, (c.update input (f s)).Same ((b.update input s).map (.mapState f))) :
    c.Asks (f s) z ↔ ∃ x, b.Asks s x ∧ x.mapState f = z := by
  refine (h _ _ _ _).trans (Effect.mapped_yields.trans ?_)
  constructor
  · rintro ⟨y, hy, hz⟩
    exact ⟨⟨z.input, z.run, z.trace, y⟩, hy, by rw [Asked.mapState, hz]⟩
  · rintro ⟨x, hx, rfl⟩
    exact ⟨x.upshot, hx, rfl⟩

section Handover

variable {a : Schedule ε ι σ ο} {b : Schedule ε ι τ ρ} {f : ο → φ} {g : ρ → φ} {s : σ}

/-- A step while the first schedule is active. Where it stops the second one starts, and is asked
about the same input. -/
inductive Turn (a : Schedule ε ι σ ο) (b : Schedule ε ι τ ρ) (s : σ) : Asked ε ι (σ ⊕ τ) → Prop
  | stays {x} (h : a.Asks s x) (hgoes : x.decision? ≠ some .done) : Turn a b s (x.mapState .inl)
  | refused {x run t y z} (h : a.Asks s x) (hstops : x.upshot = .ok (.completed .done, run))
      (hstart : b.initial.Yields run t y) (hpasses : y.Passes z) :
      Turn a b s ⟨x.input, x.run, x.trace ++ t, z⟩
  | handed {x run t fresh y} (h : a.Asks s x) (hstops : x.upshot = .ok (.completed .done, run))
      (hstart : b.initial.Yields run t (.ok (.completed fresh, y.run))) (hy : b.Asks fresh y)
      (hinput : y.input = x.input) :
      Turn a b s ⟨x.input, x.run, x.trace ++ (t ++ y.trace), y.upshot.mapValue (.mapState .inr)⟩

/-- A run of the first schedule up to where it stops, a run of the second one from there, and what
both come to. -/
inductive Handover (a : Schedule ε ι σ ο) (b : Schedule ε ι τ ρ) (s : σ) :
    List (Asked ε ι σ) → List (Asked ε ι τ) → List (Asked ε ι (σ ⊕ τ)) → Prop
  | within {xs} (h : a.Runs s xs) (hgoes : ¬ stopped xs) :
      Handover a b s xs [] (xs.map (.mapState .inl))
  | refused (xs) {x run t y z} (h : a.Runs s (xs ++ [x]))
      (hstops : x.upshot = .ok (.completed .done, run)) (hstart : b.initial.Yields run t y)
      (hpasses : y.Passes z) :
      Handover a b s (xs ++ [x]) []
        (xs.map (.mapState .inl) ++ [⟨x.input, x.run, x.trace ++ t, z⟩])
  | handed (xs) {x run t fresh y ys} (h : a.Runs s (xs ++ [x]))
      (hstops : x.upshot = .ok (.completed .done, run))
      (hstart : b.initial.Yields run t (.ok (.completed fresh, y.run)))
      (hrest : b.Runs fresh (y :: ys)) (hinput : y.input = x.input) :
      Handover a b s (xs ++ [x]) (y :: ys) (xs.map (.mapState .inl) ++
        ⟨x.input, x.run, x.trace ++ (t ++ y.trace), y.upshot.mapValue (.mapState .inr)⟩ ::
          ys.map (.mapState .inr))

def follows (b : Schedule ε ι τ ρ) (input : ι) : Decision σ → Effect ε (Decision (σ ⊕ τ))
  | .again state delay => .pure (.again (.inl state) delay)
  | .done => b.initial.flatMap fun fresh => (b.update input fresh).map (.mapState .inr)

omit [Datum ε] in
theorem update_inl (input : ι) : ((a.map f).andThen (b.map g)).update input (.inl s) =
    (a.update input s).flatMap (follows b input) := by
  simp only [Schedule.andThen, Schedule.map]
  refine congrArg _ (funext fun d => ?_)
  cases d <;> rfl

theorem asks_inl {z : Asked ε ι (σ ⊕ τ)} :
    ((a.map f).andThen (b.map g)).Asks (.inl s) z ↔ Turn a b s z := by
  rw [Schedule.Asks, update_inl, Effect.bind_yields]
  constructor
  · obtain ⟨input, run, t, w⟩ := z
    intro h
    cases h with
    | @passes _ y _ h hpasses =>
      obtain rfl := hpasses.mapValue (f := .mapState .inl)
      exact .stays (x := ⟨input, run, t, y⟩) h (by cases hpasses <;> nofun)
    | @goes t₁ d run₁ t₂ w h hrest =>
      cases d with
      | again state delay =>
        obtain ⟨rfl, rfl⟩ := (Effect.pure_yields _).1 hrest
        rw [show t₁.append [] = t₁ from List.append_nil t₁]
        exact .stays (x := ⟨input, run, t₁, .ok (.completed (.again state delay), run₁)⟩) h nofun
      | done =>
        cases Effect.bind_yields.1 hrest with
        | @goes t₂ fresh run₂ t₃ w hstart hupdate =>
          obtain ⟨y, hy, rfl⟩ := Effect.mapped_yields.1 hupdate
          exact .handed (x := ⟨input, run, t₁, _⟩) (y := ⟨input, run₂, t₃, y⟩) h rfl hstart hy rfl
        | passes hstart hpasses =>
          exact .refused (x := ⟨input, run, t₁, _⟩) h rfl hstart hpasses
  · intro h
    cases h with
    | @stays x h hgoes =>
      obtain ⟨input, run, t, y⟩ := x
      obtain ⟨d, run', rfl⟩ | ⟨w, hw⟩ := Upshot.completed_or_passes (Decision (σ ⊕ τ)) y
      · cases d with
        | again state delay => exact .gives h ((Effect.pure_yields _).2 ⟨rfl, rfl⟩)
        | done => exact absurd rfl hgoes
      · exact .passes h (by rwa [Asked.mapState, hw.mapValue])
    | refused h hstops hstart hpasses =>
      rw [Schedule.Asks, hstops] at h
      exact .goes h (Effect.bind_yields.2 (.passes hstart hpasses))
    | handed h hstops hstart hy hinput =>
      rw [Schedule.Asks, hstops] at h
      rw [Schedule.Asks, hinput] at hy
      exact .goes h (Effect.bind_yields.2 (.goes hstart (Effect.mapped_yields.2 ⟨_, hy, rfl⟩)))

theorem asks_inr {t : τ} {z : Asked ε ι (σ ⊕ τ)} :
    ((a.map f).andThen (b.map g)).Asks (.inr t) z ↔
      ∃ y, b.Asks t y ∧ y.mapState .inr = z :=
  asks_map fun _ => .refl _

theorem runs_inr {t : τ} {zs : List (Asked ε ι (σ ⊕ τ))} :
    ((a.map f).andThen (b.map g)).Runs (.inr t) zs ↔
      ∃ ys, b.Runs t ys ∧ ys.map (.mapState .inr) = zs :=
  Steps.map_iff _ _ (fun _ _ => asks_inr) Asked.next?_mapState

theorem Handover.cons {x : Asked ε ι σ} {next : σ} {xs : List (Asked ε ι σ)}
    {ys : List (Asked ε ι τ)} {zs : List (Asked ε ι (σ ⊕ τ))} (h : a.Asks s x)
    (hnext : x.next? = some next) (hrest : Handover a b next xs ys zs) :
    Handover a b s (x :: xs) ys (x.mapState .inl :: zs) := by
  cases hrest with
  | within hrest hgoes =>
    refine .within (.goes h hnext hrest) ?_
    rw [stopped_cons, not_or]
    exact ⟨Asked.ne_done_of hnext, hgoes⟩
  | refused xs hrest hstops hstart hpasses =>
    exact .refused (x :: _) (.goes h hnext hrest) hstops hstart hpasses
  | handed xs hrest hstops hstart hys hinput =>
    exact .handed (x :: _) (.goes h hnext hrest) hstops hstart hys hinput

theorem handover_of_runs {zs : List (Asked ε ι (σ ⊕ τ))}
    (h : ((a.map f).andThen (b.map g)).Runs (.inl s) zs) :
    ∃ xs ys, Handover a b s xs ys zs := by
  generalize hp : Sum.inl s = p at h
  induction h generalizing s with
  | waits => exact ⟨[], [], .within (.waits s) nofun⟩
  | ends h hz =>
    subst hp
    cases asks_inl.1 h with
    | @stays x hx hgoes =>
      exact ⟨[x], [], .within (.single hx) fun ⟨y, hy, hd⟩ => hgoes (List.mem_singleton.1 hy ▸ hd)⟩
    | refused hx hstops hstart hpasses =>
      exact ⟨[_], [], .refused [] (.single hx) hstops hstart hpasses⟩
    | handed hx hstops hstart hy hinput =>
      exact ⟨[_], [_], .handed [] (.single hx) hstops hstart (.single hy) hinput⟩
  | @goes _ z next rest h hz hrest ih =>
    subst hp
    cases asks_inl.1 h with
    | @stays x hx hgoes =>
      obtain ⟨n, hn, rfl⟩ := Option.map_eq_some_iff.1 ((Asked.next?_mapState x).symm.trans hz)
      obtain ⟨xs, ys, hxs⟩ := ih rfl
      exact ⟨x :: xs, ys, hxs.cons hx hn⟩
    | refused hx hstops hstart hpasses => cases hpasses <;> cases hz
    | @handed x run t fresh y hx hstops hstart hy hinput =>
      obtain ⟨n, hn, rfl⟩ := Option.map_eq_some_iff.1 ((Asked.next?_mapState y).symm.trans hz)
      obtain ⟨ys, hys, rfl⟩ := runs_inr.1 hrest
      exact ⟨[x], y :: ys, .handed [] (.single hx) hstops hstart (.goes hy hn hys) hinput⟩

/-- The steps before the last one that is asked of the first schedule, with what comes after. -/
theorem runs_inl {x : Asked ε ι σ} {xs : List (Asked ε ι σ)} {zs : List (Asked ε ι (σ ⊕ τ))}
    (h : a.Runs s (xs ++ [x]))
    (hzs : ∀ s', a.Asks s' x → ((a.map f).andThen (b.map g)).Runs (.inl s') zs) :
    ((a.map f).andThen (b.map g)).Runs (.inl s) (xs.map (.mapState .inl) ++ zs) := by
  induction xs generalizing s with
  | nil => exact hzs s (Steps.cons_iff.1 h).1
  | cons y ys ih =>
    obtain ⟨hy, hnil | ⟨next, hnext, hrest⟩⟩ := Steps.cons_iff.1 h
    · simp at hnil
    · refine .goes (asks_inl.2 (.stays hy (Asked.ne_done_of hnext))) ?_ (ih hrest)
      rw [Asked.next?_mapState, hnext, Option.map_some]

theorem runs_of_handover {xs : List (Asked ε ι σ)} {ys : List (Asked ε ι τ)}
    {zs : List (Asked ε ι (σ ⊕ τ))} (h : Handover a b s xs ys zs) :
    ((a.map f).andThen (b.map g)).Runs (.inl s) zs := by
  cases h with
  | within h hgoes =>
    obtain rfl | ⟨xs, x, rfl⟩ := List.eq_nil_or_concat xs
    · exact .waits _
    · rw [List.concat_eq_append] at h hgoes ⊢
      rw [List.map_append]
      refine runs_inl h fun s' hx => .single (asks_inl.2 (.stays hx fun hd => hgoes ?_))
      exact ⟨x, List.mem_append_right xs (List.mem_singleton_self x), hd⟩
  | refused xs h hstops hstart hpasses =>
    exact runs_inl h fun s' hx => .single (asks_inl.2 (.refused hx hstops hstart hpasses))
  | @handed xs x run t fresh y ys h hstops hstart hrest hinput =>
    refine runs_inl h fun s' hx => ?_
    obtain ⟨hy, hys⟩ := Steps.cons_iff.1 hrest
    refine Steps.cons_iff.2 ⟨asks_inl.2 (.handed hx hstops hstart hy hinput), ?_⟩
    obtain rfl | ⟨next, hnext, hys⟩ := hys
    · exact .inl rfl
    · refine .inr ⟨.inr next, (Asked.next?_mapState y).trans ?_, runs_inr.2 ⟨ys, hys, rfl⟩⟩
      rw [hnext, Option.map_some]

end Handover

end Effects.Policy
