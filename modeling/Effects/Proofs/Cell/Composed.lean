import Effects.Proofs.Cell.Traffic
import Mathlib.Data.List.Basic
import Mathlib.Data.List.Induction

/-!
However the calls on a cell interleave, each write is made over the value that stands right before
it, and a snapshot is good for a write until the next write.
-/

namespace Effects.Cell

variable {α ρ : Type} {init : α} {asks : List (Ask α ρ)}
  {seen news first since earlier later : Course α} {c c' expected : Cell α} {i j : Nat} {a : α}
  {e : Event α} {ask : Ask α ρ}
  {f : Cell α → α × Answer α ρ} {answer : Answer α ρ} {phase : Attempt α (Answer α ρ)}

namespace Course

theorem snapshots_append (seen news : Course α) :
    snapshots (seen ++ news) = snapshots seen ++ snapshots news := List.filterMap_append

theorem writers_append (seen news : Course α) :
    writers (seen ++ news) = writers seen ++ writers news := List.filterMap_append

theorem mem_snapshots : c ∈ snapshots seen ↔ ∃ i, .took i c ∈ seen := by
  simp only [snapshots, List.mem_filterMap]
  constructor
  · rintro ⟨e, he, hc⟩
    cases e with
    | took i c' =>
      obtain rfl := Option.some.inj hc
      exact ⟨i, he⟩
    | compared | wrote => cases hc
  · rintro ⟨i, he⟩
    exact ⟨_, he, rfl⟩

theorem content_wrote (i : Nat) (a : α) :
    content init (seen ++ [.wrote i a]) = (content init seen).set a := by
  simp [content]

theorem content_append_of_nil (h : writers news = []) :
    content init (seen ++ news) = content init seen := by
  induction news using List.reverseRecOn with
  | nil => rw [List.append_nil]
  | append_singleton news e ih =>
    rw [writers_append, List.append_eq_nil_iff] at h
    cases e with
    | took | compared =>
      rw [← ih h.1, ← List.append_assoc]
      simp [content]
    | wrote => exact absurd h.2 (List.cons_ne_nil _ _)

/-- Every write makes a new version. -/
theorem version_content (init : α) (seen : Course α) :
    (content init seen).version = (writers seen).length := by
  induction seen using List.reverseRecOn with
  | nil => rfl
  | append_singleton seen e ih =>
    cases e with
    | took | compared =>
      rw [content_append_of_nil (by rfl), ih, writers_append]
      exact congrArg List.length (List.append_nil _).symm
    | wrote i a =>
      rw [content_wrote, writers_append, List.length_append, ← ih]
      rfl

theorem version_content_iff : (content init (first ++ since)).version = (content init first).version ↔
    writers since = [] := by
  rw [version_content, version_content, writers_append, List.length_append,
    ← List.length_eq_zero_iff]
  omega

/-- The event can follow these. -/
def Fits (init : α) (asks : List (Ask α ρ)) (seen : Course α) : Event α → Prop
  | .took _ c => c = content init seen
  | .compared _ expected same =>
      expected ∈ snapshots seen ∧
        (same = true ↔ (content init seen).version = expected.version)
  | .wrote i a => ∃ ask, asks[i]? = some ask ∧ a = ask.write (content init seen).value

inductive Legal (init : α) (asks : List (Ask α ρ)) : Course α → Prop
  | nil : Legal init asks []
  | concat {seen : Course α} {e : Event α} (before : Legal init asks seen)
      (h : Fits init asks seen e) : Legal init asks (seen ++ [e])

namespace Legal

theorem of_append (h : Legal init asks (earlier ++ later)) : Legal init asks earlier := by
  induction later using List.reverseRecOn with
  | nil => simpa using h
  | append_singleton later e ih =>
    rw [← List.append_assoc] at h
    generalize hs : (earlier ++ later) ++ [e] = seen at h
    cases h with
    | nil => simp at hs
    | concat before => exact ih ((List.append_inj' hs rfl).1 ▸ before)

theorem fits (h : Legal init asks (earlier ++ e :: later)) : Fits init asks earlier e := by
  have hfirst : Legal init asks (earlier ++ [e]) := by
    rw [← List.singleton_append, ← List.append_assoc] at h
    exact h.of_append
  generalize hs : earlier ++ [e] = seen at hfirst
  cases hfirst with
  | nil => simp at hs
  | concat _ hfits =>
    obtain ⟨rfl, he⟩ := List.append_inj' hs rfl
    obtain rfl := List.singleton_inj.1 he
    exact hfits

/-- A snapshot that is of the same version is what is in the cell. -/
theorem eq_content (h : Legal init asks seen) (hc : c ∈ snapshots seen)
    (hv : (content init seen).version = c.version) : c = content init seen := by
  obtain ⟨i, hi⟩ := mem_snapshots.1 hc
  obtain ⟨first, since, rfl⟩ := List.append_of_mem hi
  obtain rfl : c = content init first := h.fits
  exact (content_append_of_nil (version_content_iff.1 hv)).symm

/-- A comparison succeeds as long as nothing has been written since. -/
theorem compares (h : Legal init asks (earlier ++ .compared i expected same :: later)) :
    (∃ j, .took j expected ∈ earlier) ∧
      ∀ {first since : Course α} {j : Nat}, earlier = first ++ .took j expected :: since →
        (same = true ↔ writers since = []) := by
  obtain ⟨hmem, hsame⟩ : Fits init asks earlier (.compared i expected same) := h.fits
  refine ⟨mem_snapshots.1 hmem, ?_⟩
  rintro first since j rfl
  have hfits : expected = content init first := h.of_append.fits
  rw [hsame, hfits]
  exact version_content_iff

theorem value (h : Legal init asks seen) : (content init seen).value =
    (writers seen).foldl (fun v i => (asks[i]?.map (·.write v)).getD v) init := by
  induction h with
  | nil => rfl
  | @concat seen e before hfits ih =>
    cases e with
    | took | compared =>
      rw [content_append_of_nil (by rfl), ih, writers_append]
      exact congrArg _ (List.append_nil _).symm
    | wrote i a =>
      obtain ⟨ask, hask, rfl⟩ := hfits
      have hlast : writers [.wrote i (ask.write (content init seen).value)] = [i] := rfl
      rw [content_wrote, writers_append, hlast, List.foldl_append, ← ih]
      simp [hask, set]

end Legal

/-- The call has written once, and this over these contents. -/
def Wrote (init : α) (seen : Course α) (i : Nat) (c : Cell α) (a : α) : Prop :=
  ∃ earlier later, seen = earlier ++ .wrote i a :: later ∧ c = content init earlier ∧
    i ∉ writers earlier ∧ i ∉ writers later

theorem Wrote.more (h : Wrote init seen i c a) (hi : i ∉ writers news) :
    Wrote init (seen ++ news) i c a := by
  obtain ⟨earlier, later, rfl, hc, hearlier, hlater⟩ := h
  refine ⟨earlier, later ++ news, by simp, hc, hearlier, ?_⟩
  rw [writers_append, List.mem_append, not_or]
  exact ⟨hlater, hi⟩

/-- What a call that has returned this answer has done to the cell. -/
def Returned (init : α) (seen : Course α) (i : Nat) : Ask α ρ → Answer α ρ → Prop
  | .get, .snapshot c => .took i c ∈ seen ∧ i ∉ writers seen
  | .set a, .unit => ∃ c, Wrote init seen i c a
  | .getAndSet a, .snapshot c => Wrote init seen i c a
  | .compareAndSet n a, .flag true => ∃ c, (snapshots seen)[n]? = some c ∧
      .compared i c true ∈ seen ∧ Wrote init seen i c a
  | .compareAndSet n _, .flag false => ∃ c, (snapshots seen)[n]? = some c ∧
      .compared i c false ∈ seen ∧ i ∉ writers seen
  | .update f, .unit => ∃ c, Wrote init seen i c (f c.value)
  | .updateAndGet f, .snapshot c' => ∃ c, Wrote init seen i c (f c.value) ∧ c' = c.set (f c.value)
  | .getAndUpdate f, .snapshot c => Wrote init seen i c (f c.value)
  | .modify f, .result r => ∃ c, Wrote init seen i c (f c.value).1 ∧ r = (f c.value).2
  | _, _ => False

theorem not_mem_writers (hseen : i ∉ writers seen) (hnews : i ∉ writers news) :
    i ∉ writers (seen ++ news) := by
  rw [writers_append, List.mem_append, not_or]
  exact ⟨hseen, hnews⟩

theorem Returned.more (h : Returned init seen i ask answer) (hi : i ∉ writers news) :
    Returned init (seen ++ news) i ask answer := by
  have kept : ∀ {e : Event α}, e ∈ seen → e ∈ seen ++ news := List.mem_append_left _
  have nth : ∀ {n : Nat} {c : Cell α}, (snapshots seen)[n]? = some c →
      (snapshots (seen ++ news))[n]? = some c := by
    intro n c hn
    rw [snapshots_append]
    exact (List.getElem?_append_left (List.getElem?_eq_some_iff.1 hn).1).trans hn
  unfold Returned at h ⊢
  split at h
  · exact ⟨kept h.1, not_mem_writers h.2 hi⟩
  · exact h.imp fun _ h => h.more hi
  · exact Wrote.more h hi
  · exact h.imp fun _ h => ⟨nth h.1, kept h.2.1, h.2.2.more hi⟩
  · exact h.imp fun _ h => ⟨nth h.1, kept h.2.1, not_mem_writers h.2.2 hi⟩
  · exact h.imp fun _ h => h.more hi
  · exact h.imp fun _ h => ⟨h.1.more hi, h.2⟩
  · exact Wrote.more h hi
  · exact h.imp fun _ h => ⟨h.1.more hi, h.2⟩
  · exact h.elim

/-- How far a call has come. -/
def Comes (init : α) (seen : Course α) (i : Nat) (ask : Ask α ρ) : Attempt α (Answer α ρ) → Prop
  | .reading => i ∉ writers seen
  | .writing c next answer => i ∉ writers seen ∧ c ∈ snapshots seen ∧
      ∃ f, ask.transform? = some f ∧ f c = (next, answer)
  | .done answer => Returned init seen i ask answer

theorem Comes.more (h : Comes init seen i ask phase) (hi : i ∉ writers news) :
    Comes init (seen ++ news) i ask phase := by
  cases phase with
  | reading => exact not_mem_writers h hi
  | writing c next answer =>
    refine ⟨not_mem_writers h.1 hi, ?_, h.2.2⟩
    rw [snapshots_append]
    exact List.mem_append_left _ h.2.1
  | done answer => exact Returned.more h hi

end Course

open Course

namespace Ask

theorem write_of_transform (h : ask.transform? = some f) (c : Cell α) :
    (f c).1 = ask.write c.value := by
  cases ask <;> simp only [transform?, Option.some.injEq, reduceCtorEq] at h <;> subst h <;> rfl

theorem returned_of_transform (h : ask.transform? = some f)
    (hw : Wrote init seen i c (f c).1) : Returned init seen i ask (f c).2 := by
  cases ask <;> simp only [transform?, Option.some.injEq, reduceCtorEq] at h <;> subst h
  · exact ⟨c, hw⟩
  · exact ⟨c, hw, rfl⟩
  · exact hw
  · exact ⟨c, hw, rfl⟩

end Ask

/-- What a step of a call leaves behind. -/
structure Move.Follows (init : α) (asks : List (Ask α ρ)) (seen : Course α) (i : Nat) (ask : Ask α ρ)
    (m : Move α ρ) : Prop where
  cell : m.cell = content init (seen ++ m.events)
  legal : Legal init asks (seen ++ m.events)
  comes : Comes init (seen ++ m.events) i ask m.phase
  own : ∀ j, j ≠ i → j ∉ writers m.events

theorem compareAndSet_of_ne (h : c.version ≠ expected.version) (a : α) :
    c.compareAndSet expected a = (c, false) := if_neg h

theorem compareAndSet_of_eq (h : c.version = expected.version) (a : α) :
    c.compareAndSet expected a = (c.set a, true) := if_pos h

section Steps

variable (hask : asks[i]? = some ask) (hlegal : Legal init asks seen) (hi : i ∉ writers seen)

include hlegal

theorem Legal.took (i : Nat) : Legal init asks (seen ++ [.took i (content init seen)]) :=
  .concat hlegal rfl

include hask hi

/-- A write over what is in the cell. -/
theorem wrote (ha : a = ask.write (content init seen).value) :
    Legal init asks (seen ++ [.wrote i a]) ∧
      Wrote init (seen ++ [.wrote i a]) i (content init seen) a :=
  ⟨.concat hlegal ⟨ask, hask, ha⟩, seen, [], rfl, rfl, hi, List.not_mem_nil⟩

omit hask in
/-- A comparison that fails. -/
theorem loses (hc : expected ∈ snapshots seen)
    (hv : (content init seen).version ≠ expected.version) :
    Legal init asks (seen ++ [.compared i expected false]) ∧
      content init (seen ++ [.compared i expected false]) = content init seen ∧
      i ∉ writers (seen ++ [.compared i expected false]) := by
  refine ⟨.concat hlegal ⟨hc, by simpa using hv⟩, content_append_of_nil rfl, ?_⟩
  exact not_mem_writers hi List.not_mem_nil

/-- A comparison that succeeds, and the write with it. -/
theorem wins (hc : expected ∈ snapshots seen)
    (hv : (content init seen).version = expected.version)
    (ha : a = ask.write expected.value) :
    Legal init asks (seen ++ [.compared i expected true, .wrote i a]) ∧
      content init (seen ++ [.compared i expected true, .wrote i a]) = expected.set a ∧
      Wrote init (seen ++ [.compared i expected true, .wrote i a]) i expected a := by
  obtain rfl := hlegal.eq_content hc hv
  let compared : Event α := .compared i (content init seen) true
  have hsame : content init (seen ++ [compared]) = content init seen := content_append_of_nil rfl
  have hfirst : Legal init asks (seen ++ [compared]) := .concat hlegal ⟨hc, by simp⟩
  have hnot : i ∉ writers (seen ++ [compared]) := not_mem_writers hi List.not_mem_nil
  obtain ⟨hall, hw⟩ := wrote hask hfirst hnot (a := a) (hsame ▸ ha)
  rw [hsame] at hw
  have hsplit : seen ++ [compared, .wrote i a] = (seen ++ [compared]) ++ [.wrote i a] := by simp
  rw [hsplit]
  exact ⟨hall, by rw [content_wrote, hsame], hw⟩

end Steps

namespace Ask

variable (hask : asks[i]? = some ask) (hlegal : Legal init asks seen)

include hask hlegal

theorem attempt_follows (hf : ask.transform? = some f) (hcomes : Comes init seen i ask phase)
    (hopen : ∀ answer, phase ≠ .done answer) :
    (attempt i f ask.takesNew (content init seen) phase).Follows init asks seen i ask := by
  cases phase with
  | done answer => exact absurd rfl (hopen answer)
  | reading =>
    refine
      { cell := (content_append_of_nil rfl).symm
        legal := Legal.took hlegal i
        comes := ⟨not_mem_writers hcomes List.not_mem_nil, ?_, f, hf, rfl⟩
        own := fun _ _ => List.not_mem_nil }
    exact mem_snapshots.2 ⟨i, by simp [attempt]⟩
  | writing c next answer =>
    obtain ⟨hi, hc, f', hf', hnext⟩ := hcomes
    obtain rfl := Option.some.inj (hf.symm.trans hf')
    obtain ⟨rfl, rfl⟩ : (f c).1 = next ∧ (f c).2 = answer := by rw [hnext]; exact ⟨rfl, rfl⟩
    by_cases hv : (content init seen).version = c.version
    · obtain ⟨hall, hcontent, hw⟩ := wins hask hlegal hi hc hv (write_of_transform hf c)
      have hset : (content init seen).set (f c).1 = c.set (f c).1 := by
        rw [← hlegal.eq_content hc hv]
      have hmove : attempt i f ask.takesNew (content init seen) (.writing c (f c).1 (f c).2) =
          ⟨c.set (f c).1, .done (f c).2, [.compared i c true, .wrote i (f c).1] ++
            if ask.takesNew then [.took i (c.set (f c).1)] else []⟩ := by
        simp only [attempt, Attempt.step, compareAndSet_of_eq hv, hset]
        rfl
      rw [hmove]
      cases ask.takesNew with
      | false =>
        refine ⟨hcontent.symm, hall, returned_of_transform hf hw, ?_⟩
        intro j hj
        simpa [writers] using hj
      | true =>
        have htook := Legal.took hall i
        rw [hcontent, List.append_assoc] at htook
        refine ⟨?_, htook, ?_, ?_⟩
        · show _ = content init (seen ++ (_ ++ [_]))
          rw [← List.append_assoc, content_append_of_nil rfl, hcontent]
        · show Returned init (seen ++ (_ ++ [_])) i ask (f c).2
          rw [← List.append_assoc]
          exact Returned.more (returned_of_transform hf hw) List.not_mem_nil
        · intro j hj
          simpa [writers] using hj
    · obtain ⟨hall, hcontent, hnot⟩ := loses hlegal hi hc hv
      have hmove : attempt i f ask.takesNew (content init seen) (.writing c (f c).1 (f c).2) =
          ⟨content init seen, .reading, [.compared i c false]⟩ := by
        simp [attempt, Attempt.step, compareAndSet_of_ne hv]
      rw [hmove]
      exact ⟨hcontent.symm, hall, hnot, fun _ _ => List.not_mem_nil⟩

theorem step_follows (hcomes : Comes init seen i ask phase)
    (hopen : ∀ answer, phase ≠ .done answer) :
    (ask.step i (snapshots seen) (content init seen) phase).Follows init asks seen i ask := by
  have hi : i ∉ writers seen := by
    cases phase with
    | reading => exact hcomes
    | writing => exact hcomes.1
    | done answer => exact absurd rfl (hopen answer)
  have own : ∀ a j, j ≠ i → j ∉ writers [.wrote i (a : α)] := by
    intro a j hj
    simpa [writers] using hj
  cases ask with
  | get =>
    exact
      { cell := (content_append_of_nil rfl).symm
        legal := Legal.took hlegal i
        comes := ⟨by simp [step], not_mem_writers hi List.not_mem_nil⟩
        own := fun _ _ => List.not_mem_nil }
  | set a =>
    obtain ⟨hall, hw⟩ := wrote hask hlegal hi (a := a) rfl
    exact ⟨(content_wrote i a).symm, hall, ⟨_, hw⟩, own a⟩
  | getAndSet a =>
    have hsame : content init (seen ++ [.took i (content init seen)]) = content init seen :=
      content_append_of_nil rfl
    obtain ⟨hall, hw⟩ := wrote hask (Legal.took hlegal i)
      (not_mem_writers hi List.not_mem_nil) (a := a) rfl
    rw [hsame] at hw
    have hsplit : seen ++ [.took i (content init seen), .wrote i a] =
        (seen ++ [.took i (content init seen)]) ++ [.wrote i a] := by simp
    refine ⟨?_, ?_, ?_, fun j hj => by simpa [step, writers] using hj⟩
    · show _ = content init (seen ++ [_, _])
      rw [hsplit, content_wrote, hsame]
      rfl
    · show Legal init asks (seen ++ [_, _])
      rwa [hsplit]
    · show Wrote init (seen ++ [_, _]) i (content init seen) a
      rwa [hsplit]
  | compareAndSet n a =>
    cases hn : (snapshots seen)[n]? with
    | none =>
      have hmove : (compareAndSet n a : Ask α ρ).step i (snapshots seen) (content init seen) phase =
          ⟨content init seen, phase, []⟩ := by simp [step, hn]
      rw [hmove]
      refine ⟨?_, ?_, ?_, fun _ _ => List.not_mem_nil⟩
      · simp
      · simpa using hlegal
      · simpa using hcomes
    | some c =>
      have hc : c ∈ snapshots seen := List.mem_of_getElem? hn
      have nth : ∀ news, (snapshots (seen ++ news))[n]? = some c := by
        intro news
        rw [snapshots_append]
        exact (List.getElem?_append_left (List.getElem?_eq_some_iff.1 hn).1).trans hn
      by_cases hv : (content init seen).version = c.version
      · obtain ⟨hall, hcontent, hw⟩ := wins hask hlegal hi hc hv (a := a) rfl
        have hset : (content init seen).set a = c.set a := by rw [← hlegal.eq_content hc hv]
        have hmove : (compareAndSet n a : Ask α ρ).step i (snapshots seen) (content init seen) phase =
            ⟨c.set a, .done (.flag true), [.compared i c true, .wrote i a]⟩ := by
          simp [step, hn, compareAndSet_of_eq hv, hset]
        rw [hmove]
        exact ⟨hcontent.symm, hall, ⟨c, nth _, by simp, hw⟩,
          fun j hj => by simpa [writers] using hj⟩
      · obtain ⟨hall, hcontent, hnot⟩ := loses hlegal hi hc hv
        have hmove : (compareAndSet n a : Ask α ρ).step i (snapshots seen) (content init seen) phase =
            ⟨content init seen, .done (.flag false), [.compared i c false]⟩ := by
          simp [step, hn, compareAndSet_of_ne hv]
        rw [hmove]
        exact ⟨hcontent.symm, hall, ⟨c, nth _, by simp, hnot⟩, fun _ _ => List.not_mem_nil⟩
  | update | updateAndGet | getAndUpdate | modify =>
    exact attempt_follows hask hlegal rfl hcomes hopen

end Ask

namespace Traffic

variable {s : Traffic α ρ}

structure Stands (init : α) (asks : List (Ask α ρ)) (s : Traffic α ρ) : Prop where
  cell : s.cell = content init s.seen
  legal : Legal init asks s.seen
  comes : ∀ {i ask phase}, asks[i]? = some ask → s.phases[i]? = some phase →
    Comes init s.seen i ask phase

namespace Stands

theorem start (init : α) (asks : List (Ask α ρ)) : Stands init asks (start init asks) where
  cell := rfl
  legal := .nil
  comes := by
    intro i ask phase hask hphase
    obtain rfl : phase = .reading := by
      simp only [Traffic.start, List.getElem?_map, hask, Option.map_some, Option.some.injEq] at hphase
      exact hphase.symm
    exact List.not_mem_nil

theorem step (h : Stands init asks s) (i : Nat) : Stands init asks (s.step asks i) := by
  unfold Traffic.step
  split
  · exact h
  · rename_i ask phase hopen hask hphase
    have hfollows : (ask.step i (snapshots s.seen) s.cell phase).Follows init asks s.seen i ask := by
      rw [h.cell]
      refine Ask.step_follows hask h.legal (h.comes hask hphase) ?_
      rintro answer rfl
      exact hopen answer rfl
    refine ⟨hfollows.cell, hfollows.legal, ?_⟩
    intro j ask' phase' hask' hphase'
    rw [List.getElem?_set] at hphase'
    split at hphase'
    · rename_i hij
      subst hij
      obtain rfl := Option.some.inj (hask.symm.trans hask')
      split at hphase'
      · obtain rfl := Option.some.inj hphase'
        exact hfollows.comes
      · cases hphase'
    · rename_i hij
      exact Comes.more (h.comes hask' hphase') (hfollows.own j (Ne.symm hij))
  · exact h

theorem run (h : Stands init asks s) (order : List Nat) : Stands init asks (s.run asks order) := by
  induction order generalizing s with
  | nil => exact h
  | cons i order ih => exact ih (h.step i)

end Stands

/-- What is in the cell, and what the calls on it have done. -/
structure Composes (init : α) (asks : List (Ask α ρ)) (s : Traffic α ρ) : Prop where
  /-- All writes one after the other, each made of the value before. -/
  value : s.cell.value =
    s.seen.writers.foldl (fun v i => (asks[i]?.map (·.write v)).getD v) init
  compares : ∀ {earlier later : Course α} {i : Nat} {expected : Cell α} {same : Bool},
    s.seen = earlier ++ .compared i expected same :: later →
      (∃ j, .took j expected ∈ earlier) ∧
        ∀ {first since : Course α} {j : Nat}, earlier = first ++ .took j expected :: since →
          (same = true ↔ since.writers = [])
  returns : ∀ {i : Nat} {ask : Ask α ρ} {answer : Answer α ρ}, asks[i]? = some ask →
    s.phases[i]? = some (.done answer) → Returned init s.seen i ask answer
  /-- A call that has not returned has not written. -/
  unfinished : ∀ {i : Nat} {ask : Ask α ρ} {phase : Attempt α (Answer α ρ)}, asks[i]? = some ask →
    s.phases[i]? = some phase → phase.result? = none → i ∉ s.seen.writers

/-- In whatever order the calls take their steps, a compare-and-set succeeds exactly when nothing has
been written since its snapshot was taken, whoever returns from an update has written once, over the
value right before, and no update is lost. -/
theorem run_composes (init : α) (asks : List (Ask α ρ)) (order : List Nat) :
    Composes init asks ((start init asks).run asks order) := by
  have h := (Stands.start init asks).run order
  exact
    { value := h.cell ▸ h.legal.value
      compares := fun hs => (hs ▸ h.legal).compares
      returns := fun hask hphase => h.comes hask hphase
      unfinished := by
        intro i ask phase hask hphase hnone
        have hcomes := h.comes hask hphase
        cases phase with
        | reading => exact hcomes
        | writing => exact hcomes.1
        | done => cases hnone }

end Traffic
end Effects.Cell
