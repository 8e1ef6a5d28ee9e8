import Effects.Proofs.Repeat.Laps
import Effects.Proofs.Yield.Turns

/-!
What repetitions do and give: the output for the last value, or what has been folded or collected
from the outputs after the updates; and repetitions that end at the first output to satisfy a
predicate. The predicate is asked about the output after the update; what is returned is the output
for the same value and the state before it.
-/

namespace Effects

section Outputs

/-- All that the effect may do and how it ends, whatever happens to a run of it among the threads of
a world. -/
structure Effect.Behaves {ε α : Type} [Datum ε] [Datum α] (e : Effect ε α)
    (P : Run → Trace → Upshot ε α → Prop) : Prop where
  yields : ∀ {run t x}, e.Yields run t x ↔ P run t x
  happens : ∀ {run t x}, e.Happens run t x → P run t x

namespace Repeating

variable {ε α σ ο ζ : Type} [Datum ε] [Datum α] [Datum σ] [Datum ο] [Datum ζ]
  {make : Nat → Effect ε α} {s : Schedule ε α σ ο} {run : Run} {t : Trace} {x : Upshot ε ζ}

omit [Datum ο] in
theorem repeat_fold_yields {zero : ζ} {f : ζ → ο → ζ} :
    (Schedule.repeat make (s.fold zero f)).Yields run t x ↔
      ∃ laps y, Series make s run t laps y ∧
        y.mapValue (fun _ => (laps.map (Lap.shown s)).foldl f zero) = x := by
  rw [repeat_yields]
  constructor
  · rintro ⟨laps', y', h, rfl⟩
    obtain ⟨laps, y, hy, rfl⟩ := fold_series.1 ⟨laps', h⟩
    exact ⟨laps, y, hy, by rw [Upshot.mapValue_mapValue]; rfl⟩
  · rintro ⟨laps, y, hy, rfl⟩
    obtain ⟨laps', h⟩ : ∃ laps, Series make (s.fold zero f) run t laps _ :=
      fold_series.2 ⟨laps, y, hy, rfl⟩
    exact ⟨laps', _, h, Upshot.mapValue_mapValue y⟩

structure Repeats (make : Nat → Effect ε α) (s : Schedule ε α σ ο) : Prop where
  /-- The first run, and one more for each time that the schedule goes on. -/
  counted : ∀ {run : Run} {t : Trace} {laps : List (Lap α σ)} {last : Last α σ} {run' : Run},
    Series make s run t laps (.ok (.completed last, run')) → last.number = laps.length + 1
  shows : (Schedule.repeat make s).Behaves fun run t x =>
    ∃ laps y, Series make s run t laps y ∧ y.mapValue (Last.shown s) = x
  folds : ∀ {ζ : Type} [Datum ζ] (zero : ζ) (f : ζ → ο → ζ),
    (Schedule.repeat make (s.fold zero f)).Behaves fun run t x =>
      ∃ laps y, Series make s run t laps y ∧
        y.mapValue (fun _ => (laps.map (Lap.shown s)).foldl f zero) = x
  collects : (Schedule.repeat make s.collectAll).Behaves fun run t x =>
    ∃ laps y, Series make s run t laps y ∧ y.mapValue (fun _ => laps.map (Lap.shown s)) = x

/-- The effect is run until the schedule stops, which is fed each value once and decides each pause.
The same laps are gone through under the folded schedule, and under the one that collects. -/
theorem runs_until_stop (make : Nat → Effect ε α) (s : Schedule ε α σ ο) : Repeats make s where
  counted h := h.number
  shows := ⟨repeat_yields, fun h => repeat_yields.1 h.yields⟩
  folds zero f := ⟨repeat_fold_yields, fun h => repeat_fold_yields.1 h.yields⟩
  collects := by
    have hcollects : ∀ {run t} {x : Upshot ε (List ο)},
        (Schedule.repeat make s.collectAll).Yields run t x ↔ ∃ laps y,
          Series make s run t laps y ∧ y.mapValue (fun _ => laps.map (Lap.shown s)) = x := by
      intro run t x
      refine repeat_fold_yields.trans (exists_congr fun laps => ?_)
      rw [List.foldl_append_eq_append, ← List.flatMap_def, List.flatMap_singleton', List.nil_append]
    exact ⟨hcollects, fun h => hcollects.1 h.yields⟩

end Repeating

end Outputs

section Firsts

variable {ε ι α σ ο : Type} [Datum ε] [Datum σ]

/-- Never stops by itself. -/
def Schedule.Endless (s : Schedule ε ι σ ο) : Prop :=
  ∀ input state run t run', ¬ (s.update input state).Yields run t (.ok (.completed .done, run'))

namespace Repeating

/-- The value that the predicate has been satisfied at: `state` is the one before the update. -/
structure Found (α σ : Type) extends Last α σ where
  next : σ

/-- The output after the update. -/
def Found.reached (s : Schedule ε α σ ο) (found : Found α σ) : ο := s.extract found.value found.next

variable [Datum α]

/-- The laps from the run of that number on, and the value that ends them. -/
inductive Seeks (make : Nat → Effect ε α) (s : Schedule ε α σ ο) (p : ο → Bool) :
    Nat → σ → Run → Trace → List (Lap α σ) → Found α σ → Run → Prop
  | again {k state run t₁ lap run₁ t₂ laps found run'}
      (h : Round make s k state run t₁ (.ok (.completed (.inl lap), run₁)))
      (hp : p (lap.shown s) = false)
      (rest : Seeks make s p (k + 1) lap.next run₁ t₂ laps found run') :
      Seeks make s p k state run (t₁ ++ t₂) (lap :: laps) found run'
  | finds {k state run t₁ value run₁ t₂ next delay run₂}
      (act : (make k).Yields run t₁ (.ok (.completed value, run₁)))
      (ask : (s.update value state).Yields run₁ t₂ (.ok (.completed (.again next delay), run₂)))
      (hp : p (s.extract value next) = true) :
      Seeks make s p k state run (t₁ ++ t₂) [] ⟨⟨k, value, state⟩, next⟩ run₂

/-- The initial step of the schedule, and the laps from the first run on. -/
inductive Search (make : Nat → Effect ε α) (s : Schedule ε α σ ο) (p : ο → Bool) (run : Run) :
    Trace → List (Lap α σ) → Found α σ → Run → Prop
  | begins {t₁ state run₁ t₂ laps found run'}
      (h : s.initial.Yields run t₁ (.ok (.completed state, run₁)))
      (rest : Seeks make s p 1 state run₁ t₂ laps found run') :
      Search make s p run (t₁ ++ t₂) laps found run'

variable {make : Nat → Effect ε α} {s : Schedule ε α σ ο} {p : ο → Bool} {k : Nat} {state next : σ}
  {delay : Duration} {value : α} {run run' : Run} {t : Trace} {lap : Lap α σ}
  {laps : List (Lap α σ)}

theorem Seeks.first {found : Found α σ} (h : Seeks make s p k state run t laps found run') :
    (∀ lap ∈ laps, p (lap.shown s) = false) ∧ p (found.reached s) = true := by
  induction h with
  | again h hp rest ih => exact ⟨List.forall_mem_cons.2 ⟨hp, ih.1⟩, ih.2⟩
  | finds act ask hp => exact ⟨nofun, hp⟩

section Update

omit [Datum α]

/-- The decision, unless the output after it satisfies the predicate. -/
def cut (s : Schedule ε α σ ο) (p : ο → Bool) (value : α) : Decision σ → Decision σ
  | .again state delay => if p (s.extract value state) then .done else .again state delay
  | .done => .done

omit [Datum ε] [Datum σ] in
theorem cut_eq_again {d : Decision σ} : cut s p value d = .again next delay ↔
    d = .again next delay ∧ p (s.extract value next) = false := by
  cases d with
  | done => exact ⟨nofun, fun h => nomatch h.1⟩
  | again state' delay' =>
    rw [cut]
    split <;> rename_i hp
    · refine ⟨nofun, ?_⟩
      rintro ⟨⟨⟩, hp'⟩
      exact absurd hp (Bool.eq_false_iff.1 hp')
    · refine ⟨fun h => ⟨h, ?_⟩, And.left⟩
      cases h
      exact Bool.eq_false_iff.2 hp

omit [Datum ε] [Datum σ] in
theorem cut_eq_done {d : Decision σ} : cut s p value d = .done ↔
    d = .done ∨ ∃ next delay, d = .again next delay ∧ p (s.extract value next) = true := by
  cases d with
  | done => exact ⟨Or.inl, fun _ => rfl⟩
  | again state' delay' =>
    rw [cut]
    split <;> rename_i hp
    · exact ⟨fun _ => .inr ⟨_, _, rfl, hp⟩, fun _ => rfl⟩
    · refine ⟨nofun, ?_⟩
      rintro (h | ⟨_, _, ⟨⟩, hp'⟩)
      · cases h
      · exact absurd hp' hp

theorem until_update_iff {d : Decision σ} :
    ((s.untilOutput p).update value state).Yields run t (.ok (.completed d, run')) ↔
      ∃ d', (s.update value state).Yields run t (.ok (.completed d', run')) ∧
        cut s p value d' = d := by
  refine Effect.mapped_yields.trans ⟨?_, ?_⟩
  · rintro ⟨y, hy, hmap⟩
    obtain ⟨d', rfl, hd⟩ := Upshot.mapValue_eq_completed hmap
    exact ⟨d', hy, hd⟩
  · rintro ⟨d', hy, rfl⟩
    exact ⟨_, hy, rfl⟩

theorem until_again_iff :
    ((s.untilOutput p).update value state).Yields run t
        (.ok (.completed (.again next delay), run')) ↔
      (s.update value state).Yields run t (.ok (.completed (.again next delay), run')) ∧
        p (s.extract value next) = false := by
  simp only [until_update_iff, cut_eq_again]
  exact ⟨fun ⟨d, hd, h, hp⟩ => ⟨h ▸ hd, hp⟩, fun ⟨hd, hp⟩ => ⟨_, hd, rfl, hp⟩⟩

theorem until_done_iff (hs : s.Endless) :
    ((s.untilOutput p).update value state).Yields run t (.ok (.completed .done, run')) ↔
      ∃ next delay, (s.update value state).Yields run t
        (.ok (.completed (.again next delay), run')) ∧ p (s.extract value next) = true := by
  simp only [until_update_iff, cut_eq_done]
  constructor
  · rintro ⟨d, hd, rfl | ⟨next, delay, rfl, hp⟩⟩
    · exact absurd hd (hs _ _ _ _ _)
    · exact ⟨next, delay, hd, hp⟩
  · rintro ⟨next, delay, hd, hp⟩
    exact ⟨_, hd, .inr ⟨next, delay, rfl, hp⟩⟩

end Update

theorem until_round_iff :
    Round make (s.untilOutput p) k state run t (.ok (.completed (.inl lap), run')) ↔
      Round make s k state run t (.ok (.completed (.inl lap), run')) ∧ p (lap.shown s) = false := by
  constructor
  · intro h
    cases h with
    | again act ask wait =>
      obtain ⟨hask, hp⟩ := until_again_iff.1 ask
      exact ⟨.again act hask wait, hp⟩
    | action _ hpasses | update _ _ hpasses | pause _ _ _ hpasses =>
      exact absurd rfl (hpasses.ne_completed _ _)
  · rintro ⟨h, hp⟩
    cases h with
    | again act ask wait => exact .again act (until_again_iff.2 ⟨ask, hp⟩) wait
    | action _ hpasses | update _ _ hpasses | pause _ _ _ hpasses =>
      exact absurd rfl (hpasses.ne_completed _ _)

theorem until_laps_iff (hs : s.Endless) {last : Last α σ} :
    Laps make (s.untilOutput p) k state run t laps (.ok (.completed last, run')) ↔
      ∃ next, Seeks make s p k state run t laps ⟨last, next⟩ run' := by
  constructor
  · intro h
    generalize hx : (Except.ok (.completed last, run') : Upshot ε (Last α σ)) = x at h
    induction h with
    | again h rest ih =>
      obtain ⟨next, hseeks⟩ := ih hx
      obtain ⟨hround, hp⟩ := until_round_iff.1 h
      exact ⟨next, .again hround hp hseeks⟩
    | stops h =>
      cases hx
      cases h with
      | stops act ask =>
        -- The schedule has not stopped by itself: the state that is found has been dropped.
        obtain ⟨next, delay, hask, hp⟩ := (until_done_iff hs).1 ask
        exact ⟨next, .finds act hask hp⟩
      | action _ hpasses | update _ _ hpasses | pause _ _ _ hpasses =>
        exact absurd rfl (hpasses.ne_completed _ _)
    | passes h hpasses =>
      subst hx
      exact absurd rfl (hpasses.ne_completed _ _)
  · rintro ⟨next, h⟩
    generalize hfound : (⟨last, next⟩ : Found α σ) = found at h
    induction h with
    | again h hp rest ih => exact .again (until_round_iff.2 ⟨h, hp⟩) (ih hfound)
    | finds act ask hp =>
      cases hfound
      exact .stops (.stops act ((until_done_iff hs).2 ⟨_, _, ask, hp⟩))

theorem until_series_iff (hs : s.Endless) {last : Last α σ} :
    Series make (s.untilOutput p) run t laps (.ok (.completed last, run')) ↔
      ∃ next, Search make s p run t laps ⟨last, next⟩ run' := by
  constructor
  · intro h
    cases h with
    | begins h rest =>
      obtain ⟨next, hseeks⟩ := (until_laps_iff hs).1 rest
      exact ⟨next, .begins h hseeks⟩
    | passes h hpasses => exact absurd rfl (hpasses.ne_completed _ _)
  · rintro ⟨next, h⟩
    cases h with
    | begins h rest => exact .begins h ((until_laps_iff hs).2 ⟨next, rest⟩)

variable [Datum ο]

theorem repeat_until_yields (hs : s.Endless) {o : ο} :
    (Schedule.repeat make (s.untilOutput p)).Yields run t (.ok (.completed o, run')) ↔
      ∃ laps found, Search make s p run t laps found run' ∧ found.shown s = o := by
  rw [repeat_yields]
  constructor
  · rintro ⟨laps, y, hy, hmap⟩
    obtain ⟨last, rfl, rfl⟩ := Upshot.mapValue_eq_completed hmap
    obtain ⟨next, h⟩ := (until_series_iff hs).1 hy
    exact ⟨laps, _, h, rfl⟩
  · rintro ⟨laps, ⟨last, next⟩, h, rfl⟩
    exact ⟨laps, _, (until_series_iff hs).2 ⟨next, h⟩, rfl⟩

/-- How a repetition comes to a value when it looks for an output that satisfies the predicate. -/
structure EndsAtFirst (make : Nat → Effect ε α) (s : Schedule ε α σ ο) (p : ο → Bool)
    (e : Effect ε ο) : Prop where
  ends : ∀ {run t o run'}, e.Yields run t (.ok (.completed o, run')) ↔
    ∃ laps found, Search make s p run t laps found run' ∧ found.shown s = o
  happens : ∀ {run t o run'}, e.Happens run t (.ok (.completed o, run')) →
    ∃ laps found, Search make s p run t laps found run' ∧ found.shown s = o
  /-- It is the first output to satisfy it. -/
  first : ∀ {run t laps found run'}, Search make s p run t laps found run' →
    (∀ lap ∈ laps, p (lap.shown s) = false) ∧ p (found.reached s) = true
  /-- It is returned itself where outputs do not depend on the state. -/
  satisfies : (∀ value state state', s.extract value state = s.extract value state') →
    ∀ {run t o run'}, e.Yields run t (.ok (.completed o, run')) → p o = true

theorem endsAtFirst_of_until (hs : s.Endless) (make : Nat → Effect ε α) (p : ο → Bool) :
    EndsAtFirst make s p (Schedule.repeat make (s.untilOutput p)) where
  ends := repeat_until_yields hs
  happens h := (repeat_until_yields hs).1 h.yields
  first h := by
    cases h with
    | begins h rest => exact rest.first
  satisfies hextract {_ _ _ _} h := by
    obtain ⟨laps, found, hsearch, rfl⟩ := (repeat_until_yields hs).1 h
    cases hsearch with
    | begins h rest => exact (congrArg p (hextract _ _ _)).trans rest.first.2

/-- Under a schedule that never stops by itself a repetition ends at the first output after an
update that satisfies the one predicate, or does not satisfy the other, and returns the output for
that value and the state before the update. -/
theorem ends_at_first_output (hs : s.Endless) (make : Nat → Effect ε α) (p : ο → Bool) :
    EndsAtFirst make s p (Schedule.repeat make (s.untilOutput p)) ∧
      EndsAtFirst make s (fun o => !p o) (Schedule.repeat make (s.whileOutput p)) :=
  ⟨endsAtFirst_of_until hs make p, endsAtFirst_of_until hs make _⟩

theorem forever_endless : (Schedule.forever : Schedule Unit Unit Nat Nat).Endless := by
  intro input state run t run' h
  obtain ⟨-, hd⟩ := (Effect.pure_yields _).1 h
  cases hd

theorem forever_search (run : Run) :
    Search (fun _ => .pure ()) (.forever : Schedule Unit Unit Nat Nat) (0 < ·) run [] []
      ⟨⟨1, (), 0⟩, 1⟩ run := by
  have hinitial : (Schedule.forever : Schedule Unit Unit Nat Nat).initial.Yields run []
      (.ok (.completed 0, run)) := (Effect.pure_yields _).2 ⟨rfl, rfl⟩
  have hact : (Effect.pure () : Effect Unit Unit).Yields run [] (.ok (.completed (), run)) :=
    (Effect.pure_yields _).2 ⟨rfl, rfl⟩
  have hask : ((Schedule.forever : Schedule Unit Unit Nat Nat).update () 0).Yields run []
      (.ok (.completed (.again 1 .zero), run)) := (Effect.pure_yields _).2 ⟨rfl, rfl⟩
  have hseeks : Seeks (fun _ => .pure ()) (.forever : Schedule Unit Unit Nat Nat) (0 < ·) 1 0 run
      ([] ++ []) [] ⟨⟨1, (), 0⟩, 1⟩ run := .finds hact hask rfl
  exact .begins hinitial hseeks

/-- A count that is cut off after zero: it is one after the first update, but the zero from before
it is returned. -/
theorem not_ends_with_output : ¬ ∀ (s : Schedule Unit Unit Nat Nat) (p : Nat → Bool)
    (make : Nat → Effect Unit Unit) (run run' : Run) (t : Trace) (o : Nat), s.Endless →
    (Schedule.repeat make (s.untilOutput p)).Yields run t (.ok (.completed o, run')) →
    p o = true := by
  intro h
  have hyields := (repeat_until_yields forever_endless).2
    ⟨[], _, forever_search ⟨.inline, 1⟩, rfl⟩
  exact absurd (h _ _ _ _ _ _ _ forever_endless hyields) (by decide)

theorem forever_ends_at_first : (Schedule.forever : Schedule Unit Unit Nat Nat).Endless ∧
    (Schedule.repeat (fun _ => .pure ()) (Schedule.forever.untilOutput (0 < ·))).Yields
      ⟨.inline, 1⟩ [] (.ok (.completed 0, ⟨.inline, 1⟩) : Upshot Unit Nat) :=
  ⟨forever_endless, (ends_at_first_output forever_endless (fun _ => .pure ()) _).1.ends.2
    ⟨[], _, forever_search ⟨.inline, 1⟩, rfl⟩⟩

end Repeating

end Firsts

end Effects
