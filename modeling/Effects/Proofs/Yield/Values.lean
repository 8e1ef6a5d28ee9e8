import Effects.Proofs.Yield.Parts

/-!
Effects that go on with a value. An end without one passes by whatever has waited for it.

Two effects that do the same and end alike may stand for each other, and going on with a value keeps
to the laws of a monad.
-/

namespace Effects

variable {ε α β γ : Type}

namespace Upshot

/-- An end without a value, as it is seen where another value was waited for. -/
inductive Passes : Upshot ε α → Upshot ε β → Prop
  | errored (e : ε) (run : Run) : Passes (.ok (.errored e, run)) (.ok (.errored e, run))
  | canceled (run : Run) : Passes (.ok (.canceled, run)) (.ok (.canceled, run))
  | panicked (message : String) : Passes (.error message) (.error message)

variable {run : Run} {x : Upshot ε α} {y : Upshot ε β} {z : Upshot ε γ} {a : α}

theorem not_passes_completed : ¬ Passes (.ok (.completed a, run)) y := nofun

theorem Passes.ne_completed (h : x.Passes y) (b : β) (run : Run) :
    y ≠ .ok (.completed b, run) := by
  rintro rfl
  cases h

theorem Passes.trans (h : x.Passes y) (h' : y.Passes z) : x.Passes z := by
  cases h <;> cases h' <;> constructor

theorem Passes.symm (h : x.Passes y) : y.Passes x := by
  cases h <;> constructor

theorem completed_or_passes (β : Type) (x : Upshot ε α) :
    (∃ a run, x = .ok (.completed a, run)) ∨ ∃ y : Upshot ε β, x.Passes y := by
  obtain message | ⟨a | e | _, run⟩ := x
  · exact .inr ⟨_, .panicked message⟩
  · exact .inl ⟨a, run, rfl⟩
  · exact .inr ⟨_, .errored e run⟩
  · exact .inr ⟨_, .canceled run⟩

variable {f : α → β}

def mapValue (f : α → β) (x : Upshot ε α) : Upshot ε β := x.map (.map id f)

theorem Passes.mapValue (h : x.Passes y) : x.mapValue f = y := by
  cases h <;> rfl

theorem mapValue_mapValue {g : β → γ} (x : Upshot ε α) :
    (x.mapValue f).mapValue g = x.mapValue fun a => g (f a) := by
  obtain message | ⟨_ | _ | _, run⟩ := x <;> rfl

theorem mapValue_cases (h : x.mapValue f = y) :
    (∃ a run, x = .ok (.completed a, run) ∧ y = .ok (.completed (f a), run)) ∨ x.Passes y := by
  obtain ⟨a, run, rfl⟩ | ⟨y', hy⟩ := completed_or_passes β x
  · exact .inl ⟨a, run, rfl, h.symm⟩
  · exact .inr (hy.mapValue.symm.trans h ▸ hy)

theorem mapValue_eq_completed {b : β} (h : x.mapValue f = .ok (.completed b, run)) :
    ∃ a, x = .ok (.completed a, run) ∧ f a = b := by
  obtain ⟨a, run', rfl, hy⟩ | hpasses := mapValue_cases h
  · obtain ⟨hb, rfl⟩ := Prod.mk.inj (Except.ok.inj hy)
    exact ⟨a, rfl, (Outcome.completed.inj hb).symm⟩
  · exact absurd rfl (hpasses.ne_completed b run)

theorem Passes.exists_mapValue (h : x.Passes y) (f : γ → β) :
    ∃ z : Upshot ε γ, x.Passes z ∧ z.mapValue f = y := by
  obtain ⟨c, run, rfl⟩ | ⟨z, hz⟩ := completed_or_passes γ x
  · exact absurd h not_passes_completed
  · exact ⟨z, hz, (hz.symm.trans h).mapValue⟩

theorem Passes.toMapValue {f : β → γ} (h : x.Passes y) : x.Passes (y.mapValue f) := by
  cases h <;> constructor

theorem Passes.mapValues {δ : Type} {g : γ → δ} {z : Upshot ε γ} (h : x.Passes z) :
    (x.mapValue f).Passes (z.mapValue g) := by
  cases h <;> constructor

theorem mapValue_injective (hf : f.Injective) :
    (mapValue f : Upshot ε α → Upshot ε β).Injective := by
  intro x x' h
  obtain ⟨a, run, rfl⟩ | ⟨y, hy⟩ := completed_or_passes β x
  · obtain ⟨b, rfl, hb⟩ := mapValue_eq_completed h.symm
    rw [hf hb]
  · obtain ⟨b, run, rfl, hx⟩ | hpasses := mapValue_cases h.symm
    · exact absurd (hy.mapValue.symm.trans hx) (hy.ne_completed _ _)
    · cases hy <;> cases hpasses <;> rfl

theorem passes_of_mapValue (h : (x.mapValue f).Passes z) : x.Passes z := by
  obtain ⟨a, run, rfl, -⟩ | hx := mapValue_cases (f := f) (x := x) rfl
  · exact absurd h not_passes_completed
  · exact hx.trans h

end Upshot

namespace Effect

variable [Datum ε] [Datum α] [Datum β] [Datum γ] {run : Run} {t : Trace} {e : Effect ε α}

/-- The effect and, if it has a value, what comes of that. -/
inductive Binds (e : Effect ε α) (rest : α → Run → Trace → Upshot ε β → Prop) (run : Run) :
    Trace → Upshot ε β → Prop
  | goes {t₁ a run₁ t₂ x} (h : e.Yields run t₁ (.ok (.completed a, run₁)))
      (hrest : rest a run₁ t₂ x) : Binds e rest run (t₁ ++ t₂) x
  | passes {t y x} (h : e.Yields run t y) (hpasses : y.Passes x) : Binds e rest run t x

variable {rest rest' : α → Run → Trace → Upshot ε β → Prop} {x : Upshot ε β}

omit [Datum β] in
theorem Binds.mono (h : e.Binds rest run t x)
    (hrest : ∀ a run t x, rest a run t x → rest' a run t x) : e.Binds rest' run t x := by
  cases h with
  | goes h hr => exact .goes h (hrest _ _ _ _ hr)
  | passes h hpasses => exact .passes h hpasses

omit [Datum β] in
theorem Binds.gives {run₁ : Run} {a : α} (h : e.Yields run t (.ok (.completed a, run₁)))
    (hrest : rest a run₁ [] x) : e.Binds rest run t x := by
  have hall := Binds.goes h hrest
  rwa [List.append_nil] at hall

omit [Datum β] in
theorem Binds.congr (hrest : ∀ a run t x, rest a run t x ↔ rest' a run t x) :
    e.Binds rest run t x ↔ e.Binds rest' run t x :=
  ⟨fun h => h.mono fun a run t x => (hrest a run t x).1,
    fun h => h.mono fun a run t x => (hrest a run t x).2⟩

omit [Datum β] [Datum γ] in
theorem Binds.mapValue {f : β → γ} {x : Upshot ε γ} :
    (∃ y, e.Binds rest run t y ∧ y.mapValue f = x) ↔
      e.Binds (fun a run t x => ∃ y, rest a run t y ∧ y.mapValue f = x) run t x := by
  constructor
  · rintro ⟨y, hgoes | hpasses, rfl⟩
    · exact .goes ‹_› ⟨_, ‹_›, rfl⟩
    · exact .passes ‹_› (Upshot.Passes.toMapValue ‹_›)
  · intro h
    cases h with
    | goes h hrest =>
      obtain ⟨y, hy, rfl⟩ := hrest
      exact ⟨y, .goes h hy, rfl⟩
    | passes h hpasses =>
      obtain ⟨y, hy, rfl⟩ := hpasses.exists_mapValue f
      exact ⟨y, .passes h hy, rfl⟩

theorem bind_yields {f : α → Effect ε β} :
    (e.flatMap f).Yields run t x ↔ e.Binds (fun a => (f a).Yields) run t x := by
  rw [flatMap_yields]
  constructor
  · intro h
    cases h with
    | panics h => exact .passes h (.panicked _)
    | @goes _ _ o _ _ _ h hnext hrest =>
      cases o with
      | completed a =>
        obtain rfl := Sum.inr.inj hnext
        exact .goes h hrest
      | errored | canceled => cases hnext
    | @ends _ o _ _ h hnext =>
      cases o with
      | completed a => cases hnext
      | errored e =>
        obtain rfl := Sum.inl.inj hnext
        exact .passes h (.errored e _)
      | canceled =>
        obtain rfl := Sum.inl.inj hnext
        exact .passes h (.canceled _)
  · intro h
    cases h with
    | goes h hrest => exact .goes h rfl hrest
    | passes h hpasses =>
      cases hpasses with
      | errored | canceled => exact .ends h rfl
      | panicked => exact .panics h

theorem mapped_yields {f : α → β} :
    (e.map f).Yields run t x ↔ ∃ y, e.Yields run t y ∧ y.mapValue f = x :=
  map_yields

theorem zip_yields {e' : Effect ε β} {x : Upshot ε (α × β)} :
    (e.zip e').Yields run t x ↔
      e.Binds (fun a run t x => ∃ y, e'.Yields run t y ∧ y.mapValue (a, ·) = x) run t x :=
  bind_yields.trans (Binds.congr fun _ _ _ _ => mapped_yields)


section Laws

variable {e' e'' : Effect ε α}

/-- What one of the two may do and end with, the other one may too. -/
def Same (e e' : Effect ε α) : Prop := ∀ run t x, e.Yields run t x ↔ e'.Yields run t x

namespace Same

theorem refl (e : Effect ε α) : e.Same e := fun _ _ _ => .rfl

theorem symm (h : e.Same e') : e'.Same e := fun run t x => (h run t x).symm

theorem trans (h : e.Same e') (h' : e'.Same e'') : e.Same e'' :=
  fun run t x => (h run t x).trans (h' run t x)

instance : Trans (@Same ε α _ _) (@Same ε α _ _) (@Same ε α _ _) := ⟨Same.trans⟩

theorem flatMap {f f' : α → Effect ε β} (h : e.Same e') (hf : ∀ a, (f a).Same (f' a)) :
    (e.flatMap f).Same (e'.flatMap f') := by
  have hgoes : ∀ {e e' : Effect ε α} {f f' : α → Effect ε β}, e.Same e' →
      (∀ a, (f a).Same (f' a)) → ∀ run t x,
      (e.flatMap f).Yields run t x → (e'.flatMap f').Yields run t x := by
    intro e e' f f' h hf run t x hx
    rw [bind_yields] at hx ⊢
    cases hx with
    | goes ha hb => exact .goes ((h _ _ _).1 ha) ((hf _ _ _ _).1 hb)
    | passes ha hpasses => exact .passes ((h _ _ _).1 ha) hpasses
  exact fun run t x => ⟨hgoes h hf run t x, hgoes h.symm (fun a => (hf a).symm) run t x⟩

end Same

theorem pure_flatMap (f : α → Effect ε β) (a : α) : ((pure a).flatMap f).Same (f a) := by
  intro run t x
  rw [bind_yields]
  constructor
  · intro h
    cases h with
    | goes ha hb =>
      obtain ⟨rfl, heq⟩ := (pure_yields a).1 ha
      cases heq
      exact hb
    | passes ha hpasses =>
      obtain ⟨rfl, rfl⟩ := (pure_yields a).1 ha
      cases hpasses
  · exact fun h => .goes ((pure_yields a).2 ⟨rfl, rfl⟩) h

theorem flatMap_assoc (e : Effect ε α) (f : α → Effect ε β) (g : β → Effect ε γ) :
    ((e.flatMap f).flatMap g).Same (e.flatMap fun a => (f a).flatMap g) := by
  intro run t x
  rw [bind_yields, bind_yields]
  constructor
  · intro h
    cases h with
    | goes hb hc =>
      cases bind_yields.1 hb with
      | goes ha hb =>
        rw [List.append_assoc]
        exact .goes ha (bind_yields.2 (.goes hb hc))
      | passes ha hpasses => exact absurd rfl (hpasses.ne_completed _ _)
    | passes hb hpasses =>
      cases bind_yields.1 hb with
      | goes ha hb => exact .goes ha (bind_yields.2 (.passes hb hpasses))
      | passes ha hpasses' => exact .passes ha (hpasses'.trans hpasses)
  · intro h
    cases h with
    | goes ha h =>
      cases bind_yields.1 h with
      | goes hb hc =>
        rw [← List.append_assoc]
        exact .goes (bind_yields.2 (.goes ha hb)) hc
      | passes hb hpasses => exact .passes (bind_yields.2 (.goes ha hb)) hpasses
    | @passes _ y _ ha hpasses =>
      obtain ⟨a, run, rfl⟩ | ⟨y', hy⟩ := Upshot.completed_or_passes β y
      · exact absurd hpasses Upshot.not_passes_completed
      · exact .passes (bind_yields.2 (.passes ha hy)) (hy.symm.trans hpasses)

theorem map_same {f : α → β} : (e.map f).Same (e.flatMap fun a => pure (f a)) := by
  intro run t x
  rw [mapped_yields, bind_yields]
  constructor
  · rintro ⟨y, hy, h⟩
    obtain ⟨a, run', rfl, rfl⟩ | hpasses := Upshot.mapValue_cases h
    · exact .gives hy ((pure_yields _).2 ⟨rfl, rfl⟩)
    · exact .passes hy hpasses
  · intro h
    cases h with
    | goes ha hb =>
      obtain ⟨rfl, rfl⟩ := (pure_yields _).1 hb
      rw [List.append_nil]
      exact ⟨_, ha, rfl⟩
    | passes ha hpasses => exact ⟨_, ha, hpasses.mapValue⟩

theorem pure_map (f : α → β) (a : α) : ((pure a : Effect ε α).map f).Same (pure (f a)) :=
  map_same.trans (pure_flatMap _ a)

theorem Same.map {f : α → β} (h : e.Same e') : (e.map f).Same (e'.map f) :=
  map_same.trans ((h.flatMap fun a => .refl (pure (f a))).trans map_same.symm)

theorem map_flatMap (e : Effect ε α) (f : α → β) (g : β → Effect ε γ) :
    ((e.map f).flatMap g).Same (e.flatMap fun a => g (f a)) :=
  calc
    ((e.map f).flatMap g).Same ((e.flatMap fun a => pure (f a)).flatMap g) :=
      .flatMap map_same fun b => .refl (g b)
    Same _ (e.flatMap fun a => (pure (f a)).flatMap g) := flatMap_assoc e _ g
    Same _ (e.flatMap fun a => g (f a)) := .flatMap (.refl e) fun a => pure_flatMap g (f a)

theorem flatMap_map (e : Effect ε α) (f : α → Effect ε β) (g : β → γ) :
    ((e.flatMap f).map g).Same (e.flatMap fun a => (f a).map g) :=
  map_same.trans ((flatMap_assoc e f _).trans (.flatMap (.refl e) fun _ => map_same.symm))

theorem map_map (e : Effect ε α) (f : α → β) (g : β → γ) :
    ((e.map f).map g).Same (e.map fun a => g (f a)) :=
  map_same.trans ((map_flatMap e f _).trans map_same.symm)


end Laws

end Effect
end Effects
