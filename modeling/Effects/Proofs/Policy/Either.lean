import Effects.Proofs.Group.Answered
import Effects.Proofs.Policy.Steps
import Mathlib.Data.List.Basic

/-!
Two schedules that are asked side by side, of which one has to go on. One that stops keeps its
state, and is asked again from it: what it answers then counts as before.
-/

namespace Effects

def Outcome.value? {ε α : Type} : Outcome ε α → Option α
  | .completed a => some a
  | _ => none

theorem Outcome.value?_map {ε δ α β : Type} {f : ε → δ} {g : α → β} (o : Outcome ε α) :
    (o.map f g).value? = o.value?.map g := by
  cases o <;> rfl

theorem Outcome.value?_eq_none {ε α : Type} {o : Outcome ε α} :
    o.value? = none ↔ o.isCompleted = false := by
  cases o <;> simp [value?, isCompleted]

namespace Policy

variable {ε ι κ σ τ ο ρ : Type}

/-- The branch has run the effect, which has ended like this. -/
def Answers [Datum ε] {α : Type} [Datum α] (i : Nat) (e : Effect ε α) (seen : List Gathering.Sign)
    (o : Outcome ε α) : Prop :=
  ∃ run exit, [.began i (.focus e.node []) run, .ended i (.ok exit)] <+: Gathering.course i seen ∧
    exit.map read read = o

def delay? (o : Outcome ε (Decision σ)) : Option Duration := o.value?.bind Decision.delay?

/-- The state to ask from next: a schedule that does not go on keeps the one that it has. -/
def kept (s : σ) (o : Outcome ε (Decision σ)) : σ := (o.value?.bind Decision.state?).getD s

/-- The states after each of the answers. -/
def keepings (s : σ) : List (Outcome ε (Decision σ)) → List σ
  | [] => []
  | o :: rest => kept s o :: keepings (kept s o) rest

/-- Asked about every input, also after it has stopped, from the state that it went on from last. -/
inductive Keeps (asks : σ → κ → Prop) (answer : κ → Outcome ε (Decision σ)) : σ → List κ → Prop
  | nil (s : σ) : Keeps asks answer s []
  | cons {s x xs} (h : asks s x) (rest : Keeps asks answer (kept s (answer x)) xs) :
      Keeps asks answer s (x :: xs)

def shorter : Option Duration → Option Duration → Option Duration
  | some d, some e => some (min d e)
  | some d, none => some d
  | none, e? => e?

/-- An input that two schedules are asked about side by side, what is seen of their updates and how
these end, and what comes of both. -/
structure Paired (ε ι σ τ : Type) where
  input : ι
  seen : List Gathering.Sign
  first : Outcome ε (Decision σ)
  second : Outcome ε (Decision τ)
  outcome : Outcome ε (Decision (σ × τ))

def Paired.next? (x : Paired ε ι σ τ) : Option (σ × τ) := x.outcome.value?.bind Decision.state?

variable [Datum ε] [Datum σ] [Datum τ] {a : Schedule ε ι σ ο} {b : Schedule ε ι τ ρ} {s : σ × τ}
  {x : Paired ε ι σ τ} {xs : List (Paired ε ι σ τ)}

/-- What it may come to when both are asked from these states. -/
inductive Meets (a : Schedule ε ι σ ο) (b : Schedule ε ι τ ρ) (s : σ × τ) :
    Paired ε ι σ τ → Prop
  | answers {input seen t code first second exit}
      (h : ((a.or b).update input s).Underway seen t) (ha : t.answer = some code)
      (hfirst : .ended 0 (.ok first) ∈ seen) (hsecond : .ended 1 (.ok second) ∈ seen)
      (hexit : Gathering.Hands code exit) :
      Meets a b s
        ⟨input, seen, first.map read read, second.map read read, exit.map read read⟩

def EitherRuns (a : Schedule ε ι σ ο) (b : Schedule ε ι τ ρ) :
    σ × τ → List (Paired ε ι σ τ) → Prop :=
  Steps (Meets a b) Paired.next?

/-- Whenever the updates of both have come to an answer, so has each of the two. -/
theorem exists_meets {input : ι} {seen : List Gathering.Sign} {t : Gathering.Scene}
    (h : ((a.or b).update input s).Underway seen t) (ha : t.answer ≠ none) :
    ∃ x, Meets a b s x ∧ x.input = input ∧ x.seen = seen := by
  obtain ⟨code, ha⟩ := Option.ne_none_iff_exists'.1 ha
  obtain ⟨exits, hlength, hends, hexit⟩ := h.joined.answered code ha
  obtain ⟨exit, hhands⟩ : ∃ exit, Gathering.Hands code exit := by
    obtain ⟨values, -, hexit⟩ | ⟨i, exit, -, -, -, hexit⟩ := hexit <;> exact ⟨_, hexit⟩
  obtain ⟨first, second, rfl⟩ := List.length_eq_two.1 hlength
  exact ⟨_, .answers h ha (hends 0 first rfl) (hends 1 second rfl) hhands, rfl, rfl⟩

inductive Settles (s : σ × τ) (x : Paired ε ι σ τ) : Prop
  | decided {d e} (hfirst : x.first = .completed d) (hsecond : x.second = .completed e)
      (h : x.outcome = .completed (.either s d e))
  | failed (h : x.outcome.value? = none) (hfails : x.first.value? = none ∨ x.second.value? = none)

theorem Meets.settles (h : Meets a b s x) : Settles s x := by
  obtain @⟨input, seen, t, code, first, second, exit, h, ha, hfirst, hsecond, hexit⟩ := h
  have hsome : t.answer ≠ none := by simp [ha]
  obtain ⟨exits, hlength, hends, hanswer⟩ := h.joined.answered code ha
  obtain ⟨first', second', rfl⟩ := List.length_eq_two.1 hlength
  -- Each branch ends once, so the exits that have been joined are those of the two answers.
  have h0 := (Gathering.course_of_answer h.joined hsome rfl hfirst).2 _ (hends 0 first' rfl)
  have h1 := (Gathering.course_of_answer h.joined hsome rfl hsecond).2 _ (hends 1 second' rfl)
  obtain rfl := Except.ok.inj h0
  obtain rfl := Except.ok.inj h1
  obtain ⟨values, hvalues, hhands⟩ | ⟨i, exit', -, hi, hfails, hhands⟩ := hanswer
  · obtain rfl := hexit.unique hhands
    obtain ⟨v, w, rfl⟩ : ∃ v w, values = [v, w] :=
      List.length_eq_two.1 (by simpa using (congrArg List.length hvalues).symm)
    cases hvalues
    refine .decided rfl rfl ?_
    simp [Gathering.pairTotal, Outcome.map, read_write]
  · obtain rfl := hexit.unique hhands
    have hnone := Outcome.value?_eq_none.2 hfails
    refine .failed (by rw [Outcome.value?_map, hnone, Option.map_none]) ?_
    simp only [Outcome.value?_map, Option.map_eq_none_iff]
    obtain rfl | rfl : exit = first' ∨ exit = second' := by
      simpa using List.mem_of_getElem? hi
    · exact .inl hnone
    · exact .inr hnone

theorem Meets.answers_first (h : Meets a b s x) :
    Answers 0 (a.update x.input s.1) x.seen x.first := by
  obtain ⟨h, ha, hfirst, -, -⟩ := h
  obtain ⟨⟨run, hcourse⟩, -⟩ := Gathering.course_of_answer h.joined (by simp [ha]) rfl hfirst
  exact ⟨run, _, hcourse, rfl⟩

theorem Meets.answers_second (h : Meets a b s x) :
    Answers 1 (b.update x.input s.2) x.seen x.second := by
  obtain ⟨h, ha, -, hsecond, -⟩ := h
  obtain ⟨⟨run, hcourse⟩, -⟩ := Gathering.course_of_answer h.joined (by simp [ha]) rfl hsecond
  exact ⟨run, _, hcourse, rfl⟩

omit [Datum ε] [Datum σ] [Datum τ] in
theorem either_delay? (s : σ × τ) (d : Decision σ) (e : Decision τ) :
    (Decision.either s d e).delay? = shorter d.delay? e.delay? := by
  cases d <;> cases e <;> rfl

omit [Datum ε] [Datum σ] [Datum τ] in
theorem either_state? {s p : σ × τ} {d : Decision σ} {e : Decision τ}
    (h : (Decision.either s d e).state? = some p) :
    p = (d.state?.getD s.1, e.state?.getD s.2) := by
  cases d <;> cases e <;> cases h <;> rfl

namespace Settles

omit [Datum ε] [Datum σ] [Datum τ]

theorem next? {p : σ × τ} (h : Settles s x) (hp : x.next? = some p) :
    p = (kept s.1 x.first, kept s.2 x.second) := by
  cases h with
  | decided hfirst hsecond h =>
    rw [Paired.next?, h] at hp
    rw [hfirst, hsecond]
    exact either_state? hp
  | failed h =>
    rw [Paired.next?, h] at hp
    cases hp

theorem value? (h : Settles s x) :
    x.outcome.value? ≠ none ↔ x.first.value? ≠ none ∧ x.second.value? ≠ none := by
  cases h with
  | decided hfirst hsecond h => simp [hfirst, hsecond, h, Outcome.value?]
  | failed h hfails => simp [h, ← not_or, hfails]

theorem delay? (h : Settles s x) (hx : x.outcome.value? ≠ none) :
    delay? x.outcome = shorter (delay? x.first) (delay? x.second) := by
  cases h with
  | decided hfirst hsecond h =>
    rw [h, hfirst, hsecond]
    exact either_delay? s _ _
  | failed h => exact absurd h hx

end Settles

namespace EitherRuns

theorem settles (h : EitherRuns a b s xs) : ∀ x ∈ xs, ∃ s, Settles s x := by
  induction h with
  | waits => nofun
  | ends h =>
    intro x hx
    obtain rfl := List.mem_singleton.1 hx
    exact ⟨_, h.settles⟩
  | goes h _ _ ih => exact List.forall_mem_cons.2 ⟨⟨_, h.settles⟩, ih⟩

/-- Each of the two keeps to its own states. -/
theorem keeps {υ : Type} (side : σ × τ → υ) {asks : υ → Paired ε ι σ τ → Prop}
    {answer : Paired ε ι σ τ → Outcome ε (Decision υ)}
    (hasks : ∀ s x, Meets a b s x → asks (side s) x)
    (hside : ∀ s x p, Settles s x → x.next? = some p → side p = kept (side s) (answer x))
    (h : EitherRuns a b s xs) : Keeps asks answer (side s) xs := by
  induction h with
  | waits => exact .nil _
  | ends h => exact .cons (hasks _ _ h) (.nil _)
  | goes h hnext _ ih =>
    rw [hside _ _ _ h.settles hnext] at ih
    exact .cons (hasks _ _ h) ih

theorem first (h : EitherRuns a b s xs) :
    Keeps (fun s x => Answers 0 (a.update x.input s) x.seen x.first) Paired.first s.1 xs :=
  h.keeps Prod.fst (fun _ _ h => h.answers_first) fun _ _ _ h hp => congrArg Prod.fst (h.next? hp)

theorem second (h : EitherRuns a b s xs) :
    Keeps (fun s x => Answers 1 (b.update x.input s) x.seen x.second) Paired.second s.2 xs :=
  h.keeps Prod.snd (fun _ _ h => h.answers_second) fun _ _ _ h hp => congrArg Prod.snd (h.next? hp)

theorem delays (h : EitherRuns a b s xs) (hxs : ∀ x ∈ xs, x.outcome.value? ≠ none) :
    xs.map (fun x => delay? x.outcome) = List.zipWith shorter
      (xs.map fun x => delay? x.first) (xs.map fun x => delay? x.second) := by
  rw [List.zipWith_map, List.zipWith_self]
  refine List.map_congr_left fun x hx => ?_
  obtain ⟨s, hs⟩ := h.settles x hx
  exact hs.delay? (hxs x hx)

theorem states (h : EitherRuns a b s xs) : xs.filterMap Paired.next? <+:
    (keepings s.1 (xs.map Paired.first)).zip (keepings s.2 (xs.map Paired.second)) := by
  induction h with
  | waits => exact List.nil_prefix
  | ends _ hend =>
    rw [List.filterMap_cons_none hend]
    exact List.nil_prefix
  | goes h hnext _ ih =>
    rw [List.filterMap_cons_some hnext]
    obtain rfl := h.settles.next? hnext
    exact (List.prefix_cons_inj _).2 ih

end EitherRuns

structure Competes (a : Schedule ε ι σ ο) (b : Schedule ε ι τ ρ) : Prop where
  starts : ∀ {run t x}, (a.or b).initial.Yields run t x ↔ a.initial.Binds
    (fun s run t x => ∃ y, b.initial.Yields run t y ∧ y.mapValue (s, ·) = x) run t x
  /-- When both updates have ended, the two come to an answer. -/
  comes : ∀ {s : σ × τ} {input : ι} {seen t}, ((a.or b).update input s).Underway seen t →
    t.branches.length = 2 → (∀ branch ∈ t.branches, branch.Over) →
      (∀ i message, .ended i (.error message) ∉ seen) →
        ∃ u, ((a.or b).update input s).Underway seen u ∧ u.answer ≠ none
  /-- Whenever there is an answer of both together, there is one of each. -/
  answers : ∀ {s : σ × τ} {input : ι} {seen t}, ((a.or b).update input s).Underway seen t →
    t.answer ≠ none → ∃ x, Meets a b s x ∧ x.input = input ∧ x.seen = seen
  first : ∀ {s : σ × τ} {xs : List (Paired ε ι σ τ)}, EitherRuns a b s xs →
    Keeps (fun s x => Answers 0 (a.update x.input s) x.seen x.first) Paired.first s.1 xs
  second : ∀ {s : σ × τ} {xs : List (Paired ε ι σ τ)}, EitherRuns a b s xs →
    Keeps (fun s x => Answers 1 (b.update x.input s) x.seen x.second) Paired.second s.2 xs
  /-- An update of both comes to a decision unless that of one of them does not. -/
  decides : ∀ {s : σ × τ} {xs : List (Paired ε ι σ τ)}, EitherRuns a b s xs → ∀ x ∈ xs,
    (x.outcome.value? ≠ none ↔ x.first.value? ≠ none ∧ x.second.value? ≠ none)
  delays : ∀ {s : σ × τ} {xs : List (Paired ε ι σ τ)}, EitherRuns a b s xs →
    (∀ x ∈ xs, x.outcome.value? ≠ none) → xs.map (fun x => delay? x.outcome) =
      List.zipWith shorter (xs.map fun x => delay? x.first) (xs.map fun x => delay? x.second)
  states : ∀ {s : σ × τ} {xs : List (Paired ε ι σ τ)}, EitherRuns a b s xs →
    xs.filterMap Paired.next? <+:
      (keepings s.1 (xs.map Paired.first)).zip (keepings s.2 (xs.map Paired.second))

/-- They go on as long as one of them does that is asked from the state that it has kept. -/
theorem goes_on_with_either (a : Schedule ε ι σ ο) (b : Schedule ε ι τ ρ) : Competes a b where
  starts := Effect.zip_yields
  comes h hlength hover hpanic := h.comes hlength hover hpanic
  answers h ha := exists_meets h ha
  first h := h.first
  second h := h.second
  decides h x hx := by
    obtain ⟨s, hs⟩ := h.settles x hx
    exact hs.value?
  delays h hxs := h.delays hxs
  states h := h.states

section Revived

omit [Datum σ] [Datum τ] in
theorem Answers.eq_completed {α : Type} [Datum α] {i : Nat} {e : Effect ε α}
    {seen : List Gathering.Sign} {o : Outcome ε α} {v : α} (h : Answers i e seen o)
    (honly : ∀ exit, .ended i (.ok exit) ∈ seen → exit = .completed (write v)) :
    o = .completed v := by
  obtain ⟨run, exit, hcourse, ho⟩ := h
  have hend := hcourse.subset (List.mem_cons_of_mem _ (List.mem_singleton_self _))
  rw [← ho, honly exit (Gathering.mem_course.1 hend).1, Outcome.map, read_write]

theorem exists_meets_of_pure {input : ι} {d : Decision σ} {e : Decision τ}
    (ha : a.update input s.1 = .pure d) (hb : b.update input s.2 = .pure e) :
    ∃ x, Meets a b s x ∧ x.input = input ∧ x.first = .completed d ∧ x.second = .completed e ∧
      x.outcome = .completed (.either s d e) := by
  obtain ⟨t, hunderway, hsome⟩ := Effect.pure_underway ε d e (Decision.either s)
  rw [← ha, ← hb] at hunderway
  obtain ⟨x, hx, hinput, hseen⟩ := exists_meets hunderway hsome
  have hfirst : x.first = .completed d := hx.answers_first.eq_completed fun exit hend => by
    rw [hseen] at hend
    simpa [Gathering.computing, Gathering.Duo.branch, Gathering.lane] using hend
  have hsecond : x.second = .completed e := hx.answers_second.eq_completed fun exit hend => by
    rw [hseen] at hend
    simpa [Gathering.computing, Gathering.Duo.branch, Gathering.lane] using hend
  refine ⟨x, hx, hinput, hfirst, hsecond, ?_⟩
  cases hx.settles with
  | decided hd he h =>
    obtain rfl := Outcome.completed.inj (hd.symm.trans hfirst)
    obtain rfl := Outcome.completed.inj (he.symm.trans hsecond)
    exact h
  | failed h hfails => simp [hfirst, hsecond, Outcome.value?] at hfails

/-- The delays as they would be if a schedule that has stopped once were not asked again. -/
def hushed : List (Option Duration) → List (Option Duration)
  | [] => []
  | some d :: rest => some d :: hushed rest
  | none :: rest => none :: rest.map fun _ => none

def quick : Duration := .ofMillis 1

def slow : Duration := .ofMillis 5

def pausing : Schedule Unit Nat Nat Nat := (Schedule.spaced quick).untilInput (· == 0)

/-- The first schedule stops at the second input. It decides about the wait after the third one. -/
theorem or_revives : ∃ xs, EitherRuns pausing (.spaced slow) (0, 0) xs ∧
    xs.map Paired.input = [1, 0, 1] ∧ (∀ x ∈ xs, x.outcome.value? ≠ none) ∧
    xs.map (fun x => delay? x.outcome) = [some quick, some slow, some quick] ∧
    xs.map (fun x => delay? x.outcome) ≠ List.zipWith shorter
      (hushed (xs.map fun x => delay? x.first)) (hushed (xs.map fun x => delay? x.second)) := by
  have hfirst : pausing.update 1 0 = .pure (.again 1 quick) := rfl
  have hstops : pausing.update 0 1 = .pure .done := rfl
  have hagain : pausing.update 1 1 = .pure (.again 2 quick) := rfl
  obtain ⟨x, hx, hix, hfx, hsx, hox⟩ :=
    exists_meets_of_pure (s := (0, 0)) (b := .spaced slow) hfirst rfl
  obtain ⟨y, hy, hiy, hfy, hsy, hoy⟩ :=
    exists_meets_of_pure (s := (1, 1)) (b := .spaced slow) hstops rfl
  obtain ⟨z, hz, hiz, hfz, hsz, hoz⟩ :=
    exists_meets_of_pure (s := (1, 2)) (b := .spaced slow) hagain rfl
  have hnext : x.next? = some (1, 1) := by
    rw [Paired.next?, hox]
    rfl
  have hlast : y.next? = some (1, 2) := by
    rw [Paired.next?, hoy]
    rfl
  refine ⟨[x, y, z], .goes hx hnext (.goes hy hlast (.single hz)), ?_, ?_, ?_, ?_⟩
  · rw [List.map_cons, List.map_cons, List.map_singleton, hix, hiy, hiz]
  · simp [hox, hoy, hoz, Outcome.value?]
  · simp only [List.map_cons, List.map_nil, hox, hoy, hoz]
    rfl
  · simp only [List.map_cons, List.map_nil, hox, hoy, hoz, hfx, hfy, hfz, hsx, hsy, hsz]
    decide

end Revived

end Policy
end Effects
