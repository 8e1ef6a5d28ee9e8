import Effects.Proofs.Policy.Steps
import Effects.Proofs.Yield.Running
import Effects.Schedule.Adjust
import Mathlib.Data.List.Forall2

/-!
Adjustments of delays and outputs, in any number and order. They keep to the runs of the schedule
that lies below them all: each step has the same input, starts in the same run and ends alike, and
only the delay to the next one and the output that is shown are others.
-/

namespace Effects.Policy

variable {ε ι σ ο ρ κ : Type}

/-- The second step is the first one, but if the schedule goes on, then after another delay, which
may take operations to find. -/
inductive Adjusts (shows : ι → σ → ο) (waits : ο → Duration → Trace → Duration → Prop) :
    Asked ε ι σ → Asked ε ι σ → Prop
  | goes {input run t t' next run' delay delay'}
      (h : waits (shows input next) delay t' delay') :
      Adjusts shows waits ⟨input, run, t, .ok (.completed (.again next delay), run')⟩
        ⟨input, run, t ++ t', .ok (.completed (.again next delay'), run')⟩
  | ends {x} (h : x.next? = none) : Adjusts shows waits x x

namespace Adjusts

variable {shows : ι → σ → ο} {waits : ο → Duration → Trace → Duration → Prop}
  {x y z : Asked ε ι σ}

theorem input (h : Adjusts shows waits x y) : y.input = x.input := by
  cases h <;> rfl

theorem run (h : Adjusts shows waits x y) : y.run = x.run := by
  cases h <;> rfl

theorem next? (h : Adjusts shows waits x y) : y.next? = x.next? := by
  cases h <;> rfl

theorem eq_of_ends (h : Adjusts shows waits x y) (hx : x.next? = none) : y = x := by
  cases h with
  | goes => cases hx
  | ends => rfl

theorem shown? {s : Schedule ε ι σ ρ} {s' : Schedule ε ι σ κ} {g : ρ → κ}
    (hg : ∀ input state, s'.extract input state = g (s.extract input state))
    (h : Adjusts shows waits x y) : y.shown? s' = (x.shown? s).map g := by
  rw [Asked.shown?, h.next?, h.input, Asked.shown?, Option.map_map]
  exact congrArg (Option.map · x.next?) (funext (hg x.input))

theorem comp {shows' : ι → σ → ρ} {waits' : ρ → Duration → Trace → Duration → Prop}
    {g : ο → ρ} (hg : ∀ input state, shows' input state = g (shows input state)) :
    (∃ y, Adjusts shows waits x y ∧ Adjusts shows' waits' y z) ↔
      Adjusts shows (fun output delay t delay' => ∃ t₁ between t₂, waits output delay t₁ between ∧
        waits' (g output) between t₂ delay' ∧ t = t₁ ++ t₂) x z := by
  constructor
  · rintro ⟨y, h | h, h' | h'⟩
    · rw [List.append_assoc]
      exact .goes ⟨_, _, _, h, hg _ _ ▸ h', rfl⟩
    · cases h'
    · cases h
    · exact .ends h
  · rintro (⟨t₁, between, t₂, h, h', rfl⟩ | h)
    · rw [← List.append_assoc]
      exact ⟨_, .goes h, .goes (by rwa [hg])⟩
    · exact ⟨x, .ends h, .ends h⟩

end Adjusts

namespace Adjusts

variable [Datum ε] [Datum σ] {shows : ι → σ → ο} {waits : ο → Duration → Trace → Duration → Prop}
  {input : ι} {run : Run} {t : Trace} {y : Upshot ε (Decision σ)}

/-- What follows on a decision to go on finds another delay, and nothing follows on one to stop. -/
theorem bind_yields (e : Effect ε (Decision σ)) {k : Decision σ → Effect ε (Decision σ)}
    (hdone : (k .done).Same (.pure .done))
    (hagain : ∀ next delay run t x, (k (.again next delay)).Yields run t x ↔
      ∃ delay', waits (shows input next) delay t delay' ∧
        x = .ok (.completed (.again next delay'), run)) :
    (e.flatMap k).Yields run t y ↔ ∃ t₀ x, e.Yields run t₀ x ∧
      Adjusts shows waits ⟨input, run, t₀, x⟩ ⟨input, run, t, y⟩ := by
  rw [Effect.bind_yields]
  constructor
  · intro h
    cases h with
    | passes h hpasses =>
      cases hpasses <;> exact ⟨_, _, h, .ends rfl⟩
    | @goes t₁ d run₁ t₂ _ h hrest =>
      cases d with
      | done =>
        obtain ⟨rfl, rfl⟩ := (Effect.pure_yields _).1 ((hdone _ _ _).1 hrest)
        rw [List.append_nil]
        exact ⟨_, _, h, .ends rfl⟩
      | again next delay =>
        obtain ⟨delay', hwaits, rfl⟩ := (hagain _ _ _ _ _).1 hrest
        exact ⟨_, _, h, .goes hwaits⟩
  · rintro ⟨t₀, x, hx, hadjusts⟩
    cases hadjusts with
    | goes h => exact .goes hx ((hagain _ _ _ _ _).2 ⟨_, h, rfl⟩)
    | ends h =>
      obtain message | ⟨(_ | _) | e | _, run'⟩ := y
      · exact .passes hx (.panicked message)
      · cases h
      · exact .gives hx ((hdone _ _ _).2 ((Effect.pure_yields _).2 ⟨rfl, rfl⟩))
      · exact .passes hx (.errored e run')
      · exact .passes hx (.canceled run')

end Adjusts

/-- The lower one of the two bounds, but none below zero. -/
def lowest (a b : Float) : Float := Schedule.larger (if a ≤ b then a else b) 0

def highest (a b : Float) : Float := Schedule.larger (if a ≤ b then b else a) (lowest a b)

/-- One adjustment. The bounds of a random factor are a finite distance apart. -/
inductive Layer (ο : Type) : Type → Type 1
  | capped (limit : Duration) : Layer ο ο
  | delayed (f : ο → Duration) : Layer ο ο
  | jittered (a b : Float) (h : (highest a b - lowest a b).isFinite = true) : Layer ο ο
  | mapped {ρ : Type} (g : ο → ρ) : Layer ο ρ

namespace Layer

/-- What is shown for an output from below. -/
def shown : Layer ο ρ → ο → ρ
  | .capped _ => id
  | .delayed _ => id
  | .jittered _ _ _ => id
  | .mapped g => g

/-- What becomes of a delay from below, by these operations, if this is the output after the
update. -/
def Waits : Layer ο ρ → ο → Duration → Trace → Duration → Prop
  | .capped limit, _, delay, t, delay' => t = [] ∧ delay' = min delay limit
  | .delayed f, output, delay, t, delay' => t = [] ∧ delay' = delay + f output
  | .jittered a b _, _, delay, t, delay' =>
      ∃ w here, t = [⟨w, here, .factorBetween (lowest a b) (highest a b)⟩] ∧ delay' =
        delay.stretch (World.factorBetween (World.nextSeed w.seed) (lowest a b) (highest a b))
  | .mapped _, _, delay, t, delay' => t = [] ∧ delay' = delay

variable [Datum σ]

def adjust (s : Schedule ε ι σ ο) : Layer ο ρ → Schedule ε ι σ ρ
  | .capped limit => s.withMaxDelay limit
  | .delayed f => s.addDelay f
  | .jittered a b _ => s.jitteredBetween a b
  | .mapped g => s.map g

theorem adjust_extract (l : Layer ο ρ) (s : Schedule ε ι σ ο) (input : ι) (state : σ) :
    (l.adjust s).extract input state = l.shown (s.extract input state) := by
  cases l <;> rfl

variable [Datum ε] {s : Schedule ε ι σ ο} {state : σ} {z : Asked ε ι σ}

/-- A factor between zero and one is drawn from bounds that are a finite distance apart. -/
example (s : Schedule ε ι σ ο) : (Layer.jittered 0 1 (by decide)).adjust s = s.jittered := rfl

end Layer

/-- Any number of adjustments, each of what the ones below it have made. -/
inductive Stack (ο : Type) : Type → Type 1
  | base : Stack ο ο
  | atop {ρ κ : Type} (below : Stack ο ρ) (top : Layer ρ κ) : Stack ο κ

namespace Stack

def shown : {ρ : Type} → Stack ο ρ → ο → ρ
  | _, .base => id
  | _, .atop below top => fun output => top.shown (below.shown output)

def Waits : {ρ : Type} → Stack ο ρ → ο → Duration → Trace → Duration → Prop
  | _, .base, _, delay, t, delay' => t = [] ∧ delay' = delay
  | _, .atop below top, output, delay, t, delay' => ∃ t₁ between t₂, below.Waits output delay t₁ between ∧
      top.Waits (below.shown output) between t₂ delay' ∧ t = t₁ ++ t₂

variable [Datum σ]

def adjust (s : Schedule ε ι σ ο) : {ρ : Type} → Stack ο ρ → Schedule ε ι σ ρ
  | _, .base => s
  | _, .atop below top => top.adjust (below.adjust s)

theorem adjust_extract (stack : Stack ο ρ) (s : Schedule ε ι σ ο) (input : ι) (state : σ) :
    (stack.adjust s).extract input state = stack.shown (s.extract input state) := by
  induction stack with
  | base => rfl
  | atop below top ih => exact (top.adjust_extract _ input state).trans (congrArg top.shown ih)

/-- The steps of a schedule, as the adjustments of it make them. -/
def Adjusted (stack : Stack ο ρ) (s : Schedule ε ι σ ο) :
    List (Asked ε ι σ) → List (Asked ε ι σ) → Prop :=
  List.Forall₂ (Adjusts s.extract stack.Waits)

variable {s : Schedule ε ι σ ο} {stack : Stack ο ρ} {xs zs : List (Asked ε ι σ)}

namespace Adjusted

omit [Datum σ]

theorem map_eq {τ : Type} {f : Asked ε ι σ → τ} (h : stack.Adjusted s xs zs)
    (hf : ∀ x z, Adjusts s.extract stack.Waits
      x z → f z = f x) : zs.map f = xs.map f := by
  induction h with
  | nil => rfl
  | cons hx _ ih => rw [List.map_cons, List.map_cons, hf _ _ hx, ih]

theorem ends (h : stack.Adjusted s xs zs) :
    List.Forall₂ (fun x z => x.next? = none → z = x) xs zs :=
  h.imp fun _ _ hx => hx.eq_of_ends

theorem delays (h : stack.Adjusted s xs zs) :
    List.Forall₂ (fun p delay' => ∃ t, stack.Waits p.1 p.2 t delay')
      ((outputs s xs).zip (delays xs)) (delays zs) := by
  induction h with
  | nil => exact .nil
  | @cons x z xs zs hx _ ih =>
    cases hx with
    | goes h => exact .cons ⟨_, h⟩ ih
    | ends h =>
      have hdelay : x.delay? = none := by_contra fun hd => Asked.delay?_ne_none.1 hd h
      have hshown : x.shown? s = none := by rw [Asked.shown?, h, Option.map_none]
      rw [outputs, Policy.delays, Policy.delays, List.filterMap_cons_none hshown,
        List.filterMap_cons_none hdelay, List.filterMap_cons_none hdelay]
      exact ih

end Adjusted

theorem Adjusted.outputs (h : stack.Adjusted s xs zs) :
    outputs (stack.adjust s) zs = (outputs s xs).map stack.shown := by
  induction h with
  | nil => rfl
  | @cons x z xs zs hx _ ih =>
    have hshown := hx.shown? (adjust_extract stack s)
    rw [Policy.outputs, Policy.outputs, List.map_filterMap] at ih ⊢
    rw [List.filterMap_cons, List.filterMap_cons, hshown, ih]

variable [Datum ε] {state : σ} {z : Asked ε ι σ}

end Stack

variable [Datum ε] [Datum σ]

end Effects.Policy
