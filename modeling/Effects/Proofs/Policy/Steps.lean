import Effects.Proofs.Yield.Values
import Effects.Schedule.Compose

/-!
Runs of a schedule on inputs. What comes between two inputs is left open: each comes with the
context and the connection that it finds.
-/

namespace Effects.Policy

variable {ε ι κ σ τ ο ρ : Type}

/-- Steps one after the other, each from the state that the one before leads to, until one leads to
none. -/
inductive Steps (takes : σ → κ → Prop) (next? : κ → Option σ) : σ → List κ → Prop
  | waits (state : σ) : Steps takes next? state []
  | ends {state x} (h : takes state x) (hnext : next? x = none) : Steps takes next? state [x]
  | goes {state x next rest} (h : takes state x) (hnext : next? x = some next)
      (hrest : Steps takes next? next rest) : Steps takes next? state (x :: rest)

namespace Steps

variable {takes : σ → κ → Prop} {next? : κ → Option σ} {state next : σ} {x y : κ} {xs ys : List κ}

theorem single (h : takes state x) : Steps takes next? state [x] := by
  cases hx : next? x with
  | none => exact .ends h hx
  | some next => exact .goes h hx (.waits next)

theorem cons_iff : Steps takes next? state (x :: xs) ↔
    takes state x ∧ (xs = [] ∨ ∃ next, next? x = some next ∧ Steps takes next? next xs) := by
  constructor
  · intro h
    cases h with
    | ends h hx => exact ⟨h, .inl rfl⟩
    | goes h hx hrest => exact ⟨h, .inr ⟨_, hx, hrest⟩⟩
  · rintro ⟨h, rfl | ⟨next, hx, hrest⟩⟩
    · exact .single h
    · exact .goes h hx hrest

theorem tail (h : Steps takes next? state (x :: xs)) (hx : next? x = some next) :
    Steps takes next? next xs := by
  obtain ⟨-, rfl | ⟨next', hnext, hrest⟩⟩ := cons_iff.1 h
  · exact .waits next
  · obtain rfl := Option.some.inj (hx.symm.trans hnext)
    exact hrest

/-- The same steps, seen from other states. -/
theorem map_iff {σ' κ' : Type} {takes' : σ' → κ' → Prop} {next?' : κ' → Option σ'} (f : σ → σ')
    (g : κ → κ') (htakes : ∀ state y, takes' (f state) y ↔ ∃ x, takes state x ∧ g x = y)
    (hnext : ∀ x, next?' (g x) = (next? x).map f) {ys : List κ'} :
    Steps takes' next?' (f state) ys ↔ ∃ xs, Steps takes next? state xs ∧ xs.map g = ys := by
  constructor
  · intro h
    generalize hs : f state = state' at h
    induction h generalizing state with
    | waits => exact ⟨[], .waits state, rfl⟩
    | ends h hend =>
      subst hs
      obtain ⟨x, hx, rfl⟩ := (htakes _ _).1 h
      exact ⟨[x], .single hx, rfl⟩
    | goes h hgoes hrest ih =>
      subst hs
      obtain ⟨x, hx, rfl⟩ := (htakes _ _).1 h
      rw [hnext] at hgoes
      obtain ⟨next, hn, hf⟩ := Option.map_eq_some_iff.1 hgoes
      obtain ⟨xs, hxs, rfl⟩ := ih hf
      exact ⟨x :: xs, .goes hx hn hxs, rfl⟩
  · rintro ⟨xs, h, rfl⟩
    induction h with
    | waits => exact .waits _
    | ends h hend => exact .single ((htakes _ _).2 ⟨_, h, rfl⟩)
    | goes h hgoes hrest ih =>
      refine .goes ((htakes _ _).2 ⟨_, h, rfl⟩) ?_ ih
      rw [hnext, hgoes]
      rfl

end Steps

/-- An input that a schedule is asked about, the run that asks, and what comes of it. -/
structure Asked (ε ι σ : Type) where
  input : ι
  run : Run
  trace : Trace
  upshot : Upshot ε (Decision σ)

end Policy

def Decision.state? {σ : Type} : Decision σ → Option σ
  | .again state _ => some state
  | .done => none

namespace Policy

variable {ε ι κ σ τ ο ρ : Type}

namespace Asked

def decision? (x : Asked ε ι σ) : Option (Decision σ) :=
  match x.upshot with
  | .ok (.completed d, _) => some d
  | _ => none

/-- The state that the schedule goes on from. -/
def next? (x : Asked ε ι σ) : Option σ := x.decision?.bind Decision.state?

def delay? (x : Asked ε ι σ) : Option Duration := x.decision?.bind Decision.delay?

/-- The output after the update, if the schedule goes on. -/
def shown? (s : Schedule ε ι σ ο) (x : Asked ε ι σ) : Option ο := x.next?.map (s.extract x.input)

theorem next?_of {x : Asked ε ι σ} {state : σ} {delay : Duration}
    (h : x.decision? = some (.again state delay)) : x.next? = some state := by
  rw [next?, h]
  rfl

theorem ne_done_of {x : Asked ε ι σ} {state : σ} (h : x.next? = some state) :
    x.decision? ≠ some .done := by
  intro hd
  rw [next?, hd] at h
  cases h

theorem delay?_ne_none {x : Asked ε ι σ} : x.delay? ≠ none ↔ x.next? ≠ none := by
  rw [delay?, next?]
  cases x.decision? with
  | none => simp
  | some d => cases d <;> simp [Decision.delay?, Decision.state?]

/-- The same answer, with states that are shown as others. -/
def mapState (f : σ → τ) (x : Asked ε ι σ) : Asked ε ι τ :=
  { x with upshot := x.upshot.mapValue (.mapState f) }

theorem decision?_mapState {f : σ → τ} (x : Asked ε ι σ) :
    (x.mapState f).decision? = x.decision?.map (.mapState f) := by
  obtain ⟨_, _, _, _ | ⟨_ | _ | _, _⟩⟩ := x <;> rfl

theorem next?_mapState {f : σ → τ} (x : Asked ε ι σ) : (x.mapState f).next? = x.next?.map f := by
  rw [next?, next?, decision?_mapState]
  cases x.decision? with
  | none => rfl
  | some d => cases d <;> rfl

theorem delay?_mapState {f : σ → τ} (x : Asked ε ι σ) : (x.mapState f).delay? = x.delay? := by
  rw [delay?, delay?, decision?_mapState]
  cases x.decision? with
  | none => rfl
  | some d => cases d <;> rfl

theorem stops_mapState {f : σ → τ} (x : Asked ε ι σ) :
    (x.mapState f).decision? = some .done ↔ x.decision? = some .done := by
  rw [decision?_mapState]
  cases x.decision? with
  | none => simp
  | some d => cases d <;> simp [Decision.mapState]

end Asked

def states (xs : List (Asked ε ι σ)) : List σ := xs.filterMap Asked.next?

def delays (xs : List (Asked ε ι σ)) : List Duration := xs.filterMap Asked.delay?

def outputs (s : Schedule ε ι σ ο) (xs : List (Asked ε ι σ)) : List ο :=
  xs.filterMap (Asked.shown? s)

def stopped (xs : List (Asked ε ι σ)) : Prop := ∃ x ∈ xs, x.decision? = some .done

theorem stopped_cons {x : Asked ε ι σ} {xs : List (Asked ε ι σ)} :
    stopped (x :: xs) ↔ x.decision? = some .done ∨ stopped xs := by
  simp [stopped]

end Policy

namespace Schedule

open Policy

variable {ε ι σ ο : Type} [Datum ε] [Datum σ]

/-- From the state, the update for the input may do this and end like this. -/
def Asks (s : Schedule ε ι σ ο) (state : σ) (x : Asked ε ι σ) : Prop :=
  (s.update x.input state).Yields x.run x.trace x.upshot

def Runs (s : Schedule ε ι σ ο) : σ → List (Asked ε ι σ) → Prop := Steps s.Asks Asked.next?

end Schedule
end Effects
