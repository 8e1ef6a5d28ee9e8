import Effects.Effect
import Effects.Proofs.Yield.Nodes

/-!
What effects do and how they end. The same effects, with their values and errors read.
-/

namespace Effects

variable {ε δ α β : Type}

/-- How an effect has ended, and with what context and connection, or the panic that came
instead. -/
abbrev Upshot (ε α : Type) := Except String (Outcome ε α × Run)

variable [Datum ε] [Datum δ] [Datum α] [Datum β] {run run' : Run} {t : Trace}

namespace Upshot

def of (x : Except String (Exit × Run)) : Upshot ε α := x.map fun p => (p.1.map read read, p.2)

/-- The same end, shown as another. -/
def map (f : Outcome ε α → Outcome δ β) (x : Upshot ε α) : Upshot δ β :=
  Except.map (fun p => (f p.1, p.2)) x

theorem of_completed (a : α) :
    (of (.ok (.completed (write a), run)) : Upshot ε α) = .ok (.completed a, run) := by
  simp [of, Except.map, Outcome.map]

theorem of_errored (e : ε) :
    (of (.ok (.errored (write e), run)) : Upshot ε α) = .ok (.errored e, run) := by
  simp [of, Except.map, Outcome.map]

end Upshot

namespace Effect

def Yields (e : Effect ε α) (run : Run) (t : Trace) (x : Upshot ε α) : Prop :=
  ∃ y, e.node.Yields run t y ∧ .of y = x

/-- An effect, and what its outcome leads to: it ends with an outcome, or another effect follows. -/
inductive Then (e : Effect ε α) (next : Outcome ε α → Outcome δ β ⊕ Effect δ β) (run : Run) :
    Trace → Upshot δ β → Prop
  | goes {t₁ t₂ : Trace} {o : Outcome ε α} {run' : Run} {e' : Effect δ β} {x : Upshot δ β}
      (h : e.Yields run t₁ (.ok (o, run'))) (hnext : next o = .inr e')
      (rest : e'.Yields run' t₂ x) : Then e next run (t₁ ++ t₂) x
  | ends {t : Trace} {o : Outcome ε α} {o' : Outcome δ β} {run' : Run}
      (h : e.Yields run t (.ok (o, run'))) (hnext : next o = .inl o') :
      Then e next run t (.ok (o', run'))
  | panics {t : Trace} {message : String} (h : e.Yields run t (.error message)) :
      Then e next run t (.error message)

theorem pure_yields (a : α) {x : Upshot ε α} :
    (pure a : Effect ε α).Yields run t x ↔ t = [] ∧ x = .ok (.completed a, run) := by
  constructor
  · rintro ⟨y, hy, rfl⟩
    obtain ⟨rfl, rfl⟩ := (Node.pure_yields _).1 hy
    exact ⟨rfl, Upshot.of_completed a⟩
  · rintro ⟨rfl, rfl⟩
    exact ⟨_, (Node.pure_yields _).2 ⟨rfl, rfl⟩, Upshot.of_completed a⟩

theorem raise_yields (e : ε) {x : Upshot ε α} :
    (raise e : Effect ε α).Yields run t x ↔ t = [] ∧ x = .ok (.errored e, run) := by
  constructor
  · rintro ⟨y, hy, rfl⟩
    obtain ⟨rfl, rfl⟩ := (Node.raise_yields _).1 hy
    exact ⟨rfl, Upshot.of_errored e⟩
  · rintro ⟨rfl, rfl⟩
    exact ⟨_, (Node.raise_yields _).2 ⟨rfl, rfl⟩, Upshot.of_errored e⟩

theorem ok_of {y : Except String (Exit × Run)} {o : Outcome ε α}
    (h : (Upshot.of y : Upshot ε α) = .ok (o, run)) :
    ∃ exit, y = .ok (exit, run) ∧ exit.map read read = o := by
  cases y with
  | error => cases h
  | ok p =>
    obtain ⟨rfl, rfl⟩ := Prod.mk.inj (Except.ok.inj h)
    exact ⟨p.1, rfl, rfl⟩

theorem error_of {y : Except String (Exit × Run)} {message : String}
    (h : (Upshot.of y : Upshot ε α) = .error message) : y = .error message := by
  cases y with
  | error => exact congrArg _ (Except.error.inj h)
  | ok p => cases h

section Sequence

variable {e : Effect ε α} {g : Exit → Option Node} {next : Outcome ε α → Outcome δ β ⊕ Effect δ β}
  {x : Upshot δ β}

/-- What is made of the outcomes is what is made of the exits that they are read from. -/
structure Reads (g : Exit → Option Node) (next : Outcome ε α → Outcome δ β ⊕ Effect δ β) :
    Prop where
  goes : ∀ {exit node}, g exit = some node → next (exit.map read read) = .inr ⟨node⟩
  passes : ∀ {exit}, g exit = none → next (exit.map read read) = .inl (exit.map read read)

theorem then_iff (h : Reads g next) :
    (∃ y, e.node.Then g run t y ∧ .of y = x) ↔ e.Then next run t x := by
  constructor
  · rintro ⟨y, hy, rfl⟩
    cases hy with
    | goes hfirst hg hrest => exact .goes ⟨_, hfirst, rfl⟩ (h.goes hg) ⟨_, hrest, rfl⟩
    | passes hfirst hg => exact .ends ⟨_, hfirst, rfl⟩ (h.passes hg)
    | panics hfirst => exact .panics ⟨_, hfirst, rfl⟩
  · rintro (⟨⟨y, hy, hread⟩, hnext, z, hz, rfl⟩ | ⟨⟨y, hy, hread⟩, hnext⟩ | ⟨y, hy, hread⟩)
    · obtain ⟨exit, rfl, rfl⟩ := ok_of hread
      cases hg : g exit with
      | none => cases hnext.symm.trans (h.passes hg)
      | some node =>
        obtain rfl := Sum.inr.inj (hnext.symm.trans (h.goes hg))
        exact ⟨z, .goes hy hg hz, rfl⟩
    · obtain ⟨exit, rfl, rfl⟩ := ok_of hread
      cases hg : g exit with
      | none =>
        obtain rfl := Sum.inl.inj (hnext.symm.trans (h.passes hg))
        exact ⟨_, .passes hy hg, rfl⟩
      | some node => cases hnext.symm.trans (h.goes hg)
    · obtain rfl := error_of hread
      exact ⟨_, .panics hy, rfl⟩

theorem Then.gives {o : Outcome ε α} {b : β} (h : e.Yields run t (.ok (o, run')))
    (hnext : next o = .inr (pure b)) : e.Then next run t (.ok (.completed b, run')) := by
  have hgoes := Then.goes h hnext ((pure_yields b).2 ⟨rfl, rfl⟩)
  rwa [List.append_nil] at hgoes

/-- Nothing is done after the effect. -/
theorem then_mapped {f : Outcome ε α → Outcome δ β}
    (h : ∀ o, next o = .inl (f o) ∨ ∃ b, next o = .inr (pure b) ∧ f o = .completed b) :
    e.Then next run t x ↔ ∃ y, e.Yields run t y ∧ y.map f = x := by
  constructor
  · intro hthen
    cases hthen with
    | panics hfirst => exact ⟨_, hfirst, rfl⟩
    | @ends _ o o' run' hfirst hnext =>
      refine ⟨_, hfirst, ?_⟩
      obtain hf | ⟨b, hf, -⟩ := h o
      · obtain rfl := Sum.inl.inj (hnext.symm.trans hf)
        rfl
      · cases hnext.symm.trans hf
    | @goes t₁ t₂ o run' e' _ hfirst hnext hrest =>
      obtain hf | ⟨b, hf, hb⟩ := h o
      · cases hnext.symm.trans hf
      · obtain rfl := Sum.inr.inj (hnext.symm.trans hf)
        obtain ⟨rfl, rfl⟩ := (pure_yields b).1 hrest
        rw [List.append_nil]
        exact ⟨_, hfirst, congrArg (fun o => Except.ok (o, run')) hb⟩
  · rintro ⟨y, hfirst, rfl⟩
    cases y with
    | error message => exact .panics hfirst
    | ok p =>
      obtain ⟨o, run'⟩ := p
      obtain hf | ⟨b, hf, hb⟩ := h o
      · exact .ends hfirst hf
      · have hgives := Then.gives hfirst hf
        rwa [← hb] at hgives

end Sequence

/-- Goes on with a value; an error or a cancellation passes. -/
def onValue (f : α → Effect ε β) : Outcome ε α → Outcome ε β ⊕ Effect ε β
  | .completed a => .inr (f a)
  | .errored e => .inl (.errored e)
  | .canceled => .inl .canceled

/-- Goes on with an error; a value or a cancellation passes. -/
def onError (f : ε → Effect δ α) : Outcome ε α → Outcome δ α ⊕ Effect δ α
  | .completed a => .inl (.completed a)
  | .errored e => .inr (f e)
  | .canceled => .inl .canceled

theorem reads_onValue (f : α → Effect ε β) :
    Reads (Node.onValue fun v => (f (read v)).node) (onValue f) where
  goes {exit node} h := by
    cases exit with
    | completed v =>
      obtain rfl := Option.some.inj h
      rfl
    | errored | canceled => cases h
  passes {exit} h := by
    cases exit with
    | completed v => cases h
    | errored | canceled => rfl

theorem reads_onError (f : ε → Effect δ α) :
    Reads (Node.onError fun v => (f (read v)).node) (onError f) where
  goes {exit node} h := by
    cases exit with
    | errored v =>
      obtain rfl := Option.some.inj h
      rfl
    | completed | canceled => cases h
  passes {exit} h := by
    cases exit with
    | errored v => cases h
    | completed | canceled => rfl

theorem flatMap_yields {e : Effect ε α} {f : α → Effect ε β} {x : Upshot ε β} :
    (e.flatMap f).Yields run t x ↔ e.Then (onValue f) run t x := by
  rw [← then_iff (reads_onValue f)]
  exact exists_congr fun _ => and_congr_left' (Node.flatMap_yields _)

theorem handleErrorWith_yields {e : Effect ε α} {f : ε → Effect δ α} {x : Upshot δ α} :
    (e.handleErrorWith f).Yields run t x ↔ e.Then (onError f) run t x := by
  rw [← then_iff (reads_onError f)]
  exact exists_congr fun _ => and_congr_left' (Node.handleErrorWith_yields _)

theorem map_yields {e : Effect ε α} {f : α → β} {x : Upshot ε β} :
    (e.map f).Yields run t x ↔ ∃ y, e.Yields run t y ∧ y.map (Outcome.map id f) = x := by
  have hthen : (e.map f).Yields run t x ↔ e.Then (onValue fun a => pure (f a)) run t x := by
    rw [← then_iff (reads_onValue fun a => pure (f a))]
    exact exists_congr fun _ => and_congr_left'
      (Node.map_yields fun v => (pure (f (read v)) : Effect ε β).node)
  rw [hthen]
  refine then_mapped fun o => ?_
  cases o with
  | completed a => exact .inr ⟨f a, rfl, rfl⟩
  | errored | canceled => exact .inl rfl

/-- A typed error is a value now. -/
def attempted : Outcome ε α → Outcome δ (Except ε α)
  | .completed a => .completed (.ok a)
  | .errored e => .completed (.error e)
  | .canceled => .canceled

def caught : Outcome ε (Except ε α) → Outcome δ (Except ε α)
  | .completed r => .completed r
  | .errored e => .completed (.error e)
  | .canceled => .canceled

omit [Datum ε] [Datum δ] [Datum α] in
theorem caught_map (y : Upshot ε α) :
    (y.map (Outcome.map id Except.ok)).map caught = (y.map attempted : Upshot δ (Except ε α)) := by
  cases y with
  | error => rfl
  | ok p => obtain ⟨_ | _ | _, run'⟩ := p <;> rfl

theorem attempt_yields {e : Effect ε α} {x : Upshot δ (Except ε α)} :
    (e.attempt : Effect δ (Except ε α)).Yields run t x ↔
      ∃ y, e.Yields run t y ∧ y.map attempted = x := by
  refine handleErrorWith_yields.trans ((then_mapped (f := caught) fun o => ?_).trans ?_)
  · cases o with
    | errored e => exact .inr ⟨.error e, rfl, rfl⟩
    | completed | canceled => exact .inl rfl
  · constructor
    · rintro ⟨z, hz, rfl⟩
      obtain ⟨y, hy, rfl⟩ := map_yields.1 hz
      exact ⟨y, hy, (caught_map y).symm⟩
    · rintro ⟨y, hy, rfl⟩
      exact ⟨_, map_yields.2 ⟨y, hy, rfl⟩, caught_map y⟩

section Attempt

variable {γ : Type} [Datum γ]

/-- What follows on an effect that shows what another one does. -/
theorem then_comp {e : Effect ε α} {e' : Effect δ β} {f : Outcome ε α → Outcome δ β}
    {next : Outcome δ β → Outcome δ γ ⊕ Effect δ γ} {x : Upshot δ γ}
    (h : ∀ t x, e'.Yields run t x ↔ ∃ y, e.Yields run t y ∧ y.map f = x) :
    e'.Then next run t x ↔ e.Then (next ∘ f) run t x := by
  constructor
  · rintro (⟨hfirst, hnext, hrest⟩ | ⟨hfirst, hnext⟩ | ⟨hfirst⟩)
    all_goals
      obtain ⟨y, hy, hmap⟩ := (h _ _).1 hfirst
      obtain message | ⟨o, run'⟩ := y
    · cases hmap
    · obtain ⟨rfl, rfl⟩ := Prod.mk.inj (Except.ok.inj hmap)
      exact .goes hy hnext hrest
    · cases hmap
    · obtain ⟨rfl, rfl⟩ := Prod.mk.inj (Except.ok.inj hmap)
      exact .ends hy hnext
    · obtain rfl := Except.error.inj hmap
      exact .panics hy
    · cases hmap
  · rintro (⟨hfirst, hnext, hrest⟩ | ⟨hfirst, hnext⟩ | ⟨hfirst⟩)
    · exact .goes ((h _ _).2 ⟨_, hfirst, rfl⟩) hnext hrest
    · exact .ends ((h _ _).2 ⟨_, hfirst, rfl⟩) hnext
    · exact .panics ((h _ _).2 ⟨_, hfirst, rfl⟩)

/-- Goes on with a value or an error; a cancellation passes. -/
def onResult (f : Except ε α → Effect δ γ) : Outcome ε α → Outcome δ γ ⊕ Effect δ γ
  | .completed a => .inr (f (.ok a))
  | .errored e => .inr (f (.error e))
  | .canceled => .inl .canceled

theorem attempt_flatMap_yields {e : Effect ε α} {f : Except ε α → Effect δ γ} {x : Upshot δ γ} :
    ((e.attempt : Effect δ (Except ε α)).flatMap f).Yields run t x ↔
      e.Then (onResult f) run t x := by
  have hnext : onValue f ∘ attempted = onResult f := by
    funext o
    cases o <;> rfl
  rw [flatMap_yields, then_comp fun _ _ => attempt_yields, hnext]

end Attempt

/-- A closure that looks at the clock and builds the effect to go on with. -/
theorem defer_now_yields {f : Nat → Effect ε α} {x : Upshot ε α} :
    (defer do return f (← Routine.now)).Yields run t x ↔
      ∃ w here t', t = ⟨w, here, .now⟩ :: t' ∧ (f w.clock).Yields run t' x := by
  have hnode : ∀ y, (defer do return f (← Routine.now)).node.Yields run t y ↔
      ∃ w here t', t = ⟨w, here, .now⟩ :: t' ∧ (f w.clock).node.Yields run t' y := fun y =>
    Node.suspend_yields (f := fun r => (f r.toId).node) (r := fun w => .id w.clock)
      (fun _ => rfl) fun _ _ => rfl
  constructor
  · rintro ⟨y, hy, rfl⟩
    obtain ⟨w, here, t', rfl, h⟩ := (hnode y).1 hy
    exact ⟨w, here, t', rfl, y, h, rfl⟩
  · rintro ⟨w, here, t', rfl, y, h, rfl⟩
    exact ⟨y, (hnode y).2 ⟨w, here, t', rfl, h⟩, rfl⟩

section Loop

/-- The rounds of a loop, each from the state that the one before gives, until one gives a value. -/
inductive Loops (body : α → Effect ε (α ⊕ β)) : α → Run → Trace → Upshot ε β → Prop
  | again {a a' : α} {run run' : Run} {t₁ t₂ : Trace} {x : Upshot ε β}
      (h : (body a).Yields run t₁ (.ok (.completed (.inl a'), run')))
      (rest : Loops body a' run' t₂ x) : Loops body a run (t₁ ++ t₂) x
  | value {a : α} {b : β} {run run' : Run} {t : Trace}
      (h : (body a).Yields run t (.ok (.completed (.inr b), run'))) :
      Loops body a run t (.ok (.completed b, run'))
  | errored {a : α} {e : ε} {run run' : Run} {t : Trace}
      (h : (body a).Yields run t (.ok (.errored e, run'))) :
      Loops body a run t (.ok (.errored e, run'))
  | canceled {a : α} {run run' : Run} {t : Trace}
      (h : (body a).Yields run t (.ok (.canceled, run'))) :
      Loops body a run t (.ok (.canceled, run'))
  | panics {a : α} {message : String} {run : Run} {t : Trace}
      (h : (body a).Yields run t (.error message)) : Loops body a run t (.error message)

variable {body : α → Effect ε (α ⊕ β)}

theorem read_sum (v : Value) : (read v : α ⊕ β) = (read v : Value ⊕ Value).map read read := by
  simp only [read]
  cases v.field? "left" <;> rfl

theorem loops_of_reaches {n : Nat} {v : Value} {y : Except String (Exit × Run)}
    (h : Activity.Reaches n
      ⟨.drive (.focus (.loop (fun v => (body (read v)).node) v) []) run, []⟩ t (.yielding y)) :
    Loops body (read v) run t (.of y) := by
  induction n using Nat.strongRecOn generalizing v run t with
  | ind n ih =>
    obtain ⟨t₁, t₂, u, run', n', hlt, hround, hrest, rfl⟩ | ⟨exit, run', hround, hc, rfl⟩ |
      ⟨message, hround, rfl⟩ := Node.loop_cases h
    · have hbody : (body (read v)).Yields run t₁ (.ok (.completed (read u), run')) :=
        ⟨_, hround, rfl⟩
      unfold Machine.nextRound at hrest
      rw [read_sum] at hbody
      cases hu : (read u : Value ⊕ Value) with
      | inl seed =>
        rw [hu] at hbody hrest
        exact .again hbody (ih n' hlt hrest)
      | inr b =>
        rw [hu] at hbody hrest
        obtain ⟨rfl, rfl⟩ := (Node.pure_yields b).1 ⟨n', hrest⟩
        rw [List.append_nil]
        exact .value hbody
    · cases exit with
      | completed => cases hc
      | errored e => exact .errored ⟨_, hround, rfl⟩
      | canceled => exact .canceled ⟨_, hround, rfl⟩
    · exact .panics ⟨_, hround, rfl⟩

theorem Loops.yields {a : α} {x : Upshot ε β} (h : Loops body a run t x) {v : Value}
    (hv : read v = a) : ∃ y, (Node.loop (fun v => (body (read v)).node) v).Yields run t y ∧
      .of y = x := by
  induction h generalizing v with
  | @again a a' run run' t₁ t₂ x h rest ih =>
    subst hv
    obtain ⟨y, hy, hread⟩ := h
    obtain ⟨exit, rfl, hexit⟩ := ok_of hread
    cases exit with
    | errored | canceled => cases hexit
    | completed u =>
      have hu : (read u : α ⊕ β) = .inl a' := Outcome.completed.inj hexit
      rw [read_sum] at hu
      cases hs : (read u : Value ⊕ Value) with
      | inr b => rw [hs] at hu; cases hu
      | inl seed =>
        rw [hs] at hu
        obtain ⟨z, hz, rfl⟩ := ih (Sum.inl.inj hu)
        refine ⟨z, Node.loop_yields.2 (.goes hy rfl ?_), rfl⟩
        rwa [Machine.nextRound, hs]
  | @value a b run run' t h =>
    subst hv
    obtain ⟨y, hy, hread⟩ := h
    obtain ⟨exit, rfl, hexit⟩ := ok_of hread
    cases exit with
    | errored | canceled => cases hexit
    | completed u =>
      have hu : (read u : α ⊕ β) = .inr b := Outcome.completed.inj hexit
      rw [read_sum] at hu
      cases hs : (read u : Value ⊕ Value) with
      | inl seed => rw [hs] at hu; cases hu
      | inr v =>
        rw [hs] at hu
        obtain rfl := Sum.inr.inj hu
        have hpure : (Machine.nextRound (fun v => (body (read v)).node) u).Yields run' []
            (.ok (.completed v, run')) := by
          rw [Machine.nextRound, hs]
          exact (Node.pure_yields v).2 ⟨rfl, rfl⟩
        have hall : (Node.loop (fun v => (body (read v)).node) _).Yields run (t ++ []) _ :=
          Node.loop_yields.2 (.goes hy rfl hpure)
        rw [List.append_nil] at hall
        exact ⟨_, hall, rfl⟩
  | errored h | canceled h =>
    subst hv
    obtain ⟨y, hy, hread⟩ := h
    obtain ⟨exit, rfl, hexit⟩ := ok_of hread
    cases exit with
    | completed => cases hexit
    | errored | canceled =>
      cases hexit
      all_goals exact ⟨_, Node.loop_yields.2 (.passes hy rfl), rfl⟩
  | panics h =>
    subst hv
    obtain ⟨y, hy, hread⟩ := h
    obtain rfl := error_of hread
    exact ⟨_, Node.loop_yields.2 (.panics hy), rfl⟩

theorem loop_yields {a : α} {x : Upshot ε β} :
    (loop body a).Yields run t x ↔ Loops body a run t x := by
  constructor
  · rintro ⟨y, ⟨n, hn⟩, rfl⟩
    have h := loops_of_reaches hn
    rwa [read_write] at h
  · intro h
    exact h.yields (read_write a)

end Loop

end Effect
end Effects
