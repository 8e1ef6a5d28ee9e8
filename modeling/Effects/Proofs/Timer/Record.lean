import Effects.Timer
import Mathlib.Data.List.Induction
import Mathlib.Data.List.Nodup

/-!
What happens to the tasks of a timer, in the order in which it happens. A task is pending from when
it is pushed until it runs or is canceled.
-/

namespace Effects.Timer

variable {τ : Type}

inductive Event (τ : Type) where
  | pushed (seq now delay : Nat) (task : τ)
  | canceled (seq : Nat)
  | ran (seq now : Nat) (task : τ)

/-- A pending task, and when it is due if that is an instant. -/
structure Pending (τ : Type) where
  seq : Nat
  deadline : Option Nat
  task : τ

namespace Event

def number? : Event τ → Option Nat
  | .pushed seq _ _ _ => some seq
  | _ => none

def runs (seq : Nat) : Event τ → Bool
  | .ran s _ _ => s == seq
  | _ => false

/-- What is pending after the event. -/
def after (ps : List (Pending τ)) : Event τ → List (Pending τ)
  | .pushed seq now delay task => ps ++ [⟨seq, instant? now delay, task⟩]
  | .canceled seq | .ran seq _ _ => ps.filter (·.seq != seq)

end Event

abbrev Record (τ : Type) := List (Event τ)

namespace Record

def numbers (r : Record τ) : List Nat := r.filterMap Event.number?

def pending (r : Record τ) : List (Pending τ) := r.foldl Event.after []

@[simp] theorem pending_concat (r : Record τ) (e : Event τ) :
    pending (r ++ [e]) = e.after (pending r) := by
  simp [pending]

theorem numbers_append (r more : Record τ) : numbers (r ++ more) = numbers r ++ numbers more :=
  List.filterMap_append

theorem numbers_concat_of_none {e : Event τ} (h : e.number? = none) (r : Record τ) :
    numbers (r ++ [e]) = numbers r := by
  simp [numbers, h]

theorem mem_numbers {r : Record τ} {seq : Nat} :
    seq ∈ numbers r ↔ ∃ now delay task, .pushed seq now delay task ∈ r := by
  simp only [numbers, List.mem_filterMap]
  constructor
  · rintro ⟨e, he, hseq⟩
    cases e with
    | pushed s now delay task =>
      obtain rfl := Option.some.inj hseq
      exact ⟨now, delay, task, he⟩
    | canceled | ran => cases hseq
  · rintro ⟨now, delay, task, he⟩
    exact ⟨_, he, rfl⟩

theorem pushed_of_pending {r : Record τ} {p : Pending τ} (h : p ∈ pending r) :
    ∃ now delay, .pushed p.seq now delay p.task ∈ r ∧ instant? now delay = p.deadline := by
  induction r using List.reverseRecOn with
  | nil => cases h
  | append_singleton r e ih =>
    have earlier (h : p ∈ pending r) :
        ∃ now delay, .pushed p.seq now delay p.task ∈ r ++ [e] ∧ instant? now delay = p.deadline := by
      obtain ⟨now, delay, hmem, hd⟩ := ih h
      exact ⟨now, delay, List.mem_append_left _ hmem, hd⟩
    rw [pending_concat] at h
    cases e with
    | pushed seq now delay task =>
      obtain h | h := List.mem_append.1 h
      · exact earlier h
      · obtain rfl := List.mem_singleton.1 h
        exact ⟨now, delay, by simp, rfl⟩
    | canceled seq | ran seq now task => exact earlier (List.mem_of_mem_filter h)

theorem number_of_pending {r : Record τ} {p : Pending τ} (h : p ∈ pending r) :
    p.seq ∈ numbers r := by
  obtain ⟨now, delay, hmem, -⟩ := pushed_of_pending h
  exact mem_numbers.2 ⟨now, delay, p.task, hmem⟩

/-- A task is pending as long as nothing more is said of its number. -/
theorem pending_append {r more : Record τ} {p : Pending τ} (h : p ∈ pending (r ++ more))
    (hmore : p.seq ∉ numbers more) : p ∈ pending r := by
  induction more using List.reverseRecOn with
  | nil => simpa using h
  | append_singleton more e ih =>
    rw [numbers_append, List.mem_append, not_or] at hmore
    rw [← List.append_assoc, pending_concat] at h
    cases e with
    | pushed seq now delay task =>
      obtain h | h := List.mem_append.1 h
      · exact ih h hmore.1
      · obtain rfl := List.mem_singleton.1 h
        exact absurd (List.mem_singleton_self _) hmore.2
    | canceled seq | ran seq now task => exact ih (List.mem_of_mem_filter h) hmore.1

end Record

namespace Event

/-- A task runs when it is due, is pending until then, and comes before all others that are pending
and will be due. -/
def Runs (r : Record τ) (seq now : Nat) (task : τ) : Prop :=
  ∃ deadline ≤ now, ⟨seq, some deadline, task⟩ ∈ r.pending ∧
    ∀ p ∈ r.pending, ∀ d, p.deadline = some d → p.seq ≠ seq →
      Timer.before (deadline, seq) (d, p.seq) = true

/-- The event can follow these. -/
def Fits (r : Record τ) : Event τ → Prop
  | .pushed seq _ _ _ => seq = r.numbers.length
  | .canceled _ => True
  | .ran seq now task => Runs r seq now task

end Event

namespace Record

inductive Legal : Record τ → Prop
  | nil : Legal []
  | concat {r : Record τ} {e : Event τ} (before : Legal r) (h : e.Fits r) : Legal (r ++ [e])

namespace Legal

variable {r earlier later : Record τ} {e : Event τ} {seq : Nat}

theorem of_append (h : Legal (earlier ++ later)) : Legal earlier := by
  induction later using List.reverseRecOn with
  | nil => simpa using h
  | append_singleton later e ih =>
    rw [← List.append_assoc] at h
    generalize hr : (earlier ++ later) ++ [e] = r at h
    cases h with
    | nil => simp at hr
    | concat before => exact ih ((List.append_inj' hr rfl).1 ▸ before)

theorem fits (h : Legal (earlier ++ e :: later)) : e.Fits earlier := by
  have hprefix : Legal (earlier ++ [e]) := by
    rw [← List.singleton_append, ← List.append_assoc] at h
    exact h.of_append
  generalize hr : earlier ++ [e] = r at hprefix
  cases hprefix with
  | nil => simp at hr
  | concat _ hfits =>
    obtain ⟨rfl, he⟩ := List.append_inj' hr rfl
    obtain rfl := List.singleton_inj.1 he
    exact hfits

/-- The tasks are numbered in the order in which they are pushed. -/
theorem numbers_eq (h : Legal r) : r.numbers = List.range r.numbers.length := by
  induction h with
  | nil => rfl
  | @concat r e before hfits ih =>
    cases e with
    | pushed seq now delay task =>
      obtain rfl : seq = r.numbers.length := hfits
      have hlast : numbers [.pushed r.numbers.length now delay task] = [r.numbers.length] := rfl
      rw [numbers_append, hlast, List.length_append, List.length_singleton, List.range_succ, ← ih]
    | canceled | ran => rwa [numbers_concat_of_none rfl]

theorem nodup (h : Legal r) : r.numbers.Nodup := by
  rw [h.numbers_eq]
  exact List.nodup_range

/-- A number that is not pending any more is never pending again. -/
theorem gone (h : Legal (earlier ++ later)) (hseq : seq ∈ earlier.numbers)
    (hgone : ∀ p ∈ earlier.pending, p.seq ≠ seq) : ∀ p ∈ (earlier ++ later).pending, p.seq ≠ seq := by
  rintro p hp rfl
  have hnodup := h.nodup
  rw [numbers_append] at hnodup
  exact hgone p (pending_append hp (hnodup.disjoint hseq)) rfl

theorem not_runs (h : Legal (earlier ++ later)) (hseq : seq ∈ earlier.numbers)
    (hgone : ∀ p ∈ earlier.pending, p.seq ≠ seq) : ∀ e ∈ later, e.runs seq = false := by
  intro e he
  obtain ⟨between, rest, rfl⟩ := List.append_of_mem he
  rw [← List.append_assoc] at h
  cases e with
  | pushed | canceled => rfl
  | ran s now task =>
    obtain ⟨deadline, -, hpending, -⟩ := h.fits
    have hne := h.of_append.gone hseq hgone _ hpending
    simpa [Event.runs] using hne

theorem not_runs_of_after (h : Legal (earlier ++ e :: later)) (hseq : seq ∈ earlier.numbers)
    (he : e = .canceled seq ∨ ∃ now task, e = .ran seq now task) : ∀ e ∈ later, e.runs seq = false := by
  have h' : Legal ((earlier ++ [e]) ++ later) := by simpa using h
  refine h'.not_runs ?_ ?_
  · rw [numbers_append]
    exact List.mem_append_left _ hseq
  · rw [pending_concat]
    obtain rfl | ⟨now, task, rfl⟩ := he <;> simp [Event.after]

/-- A task that has been canceled does not run any more. -/
theorem not_runs_of_canceled (h : Legal (earlier ++ .canceled seq :: later))
    (hseq : seq ∈ earlier.numbers) : ∀ e ∈ later, e.runs seq = false :=
  h.not_runs_of_after hseq (.inl rfl)

theorem runs_once (h : Legal r) (seq : Nat) : r.countP (Event.runs seq) ≤ 1 := by
  induction h with
  | nil => exact Nat.zero_le 1
  | @concat r e before hfits ih =>
    rw [List.countP_append]
    cases hrun : e.runs seq with
    | false => simpa [hrun] using ih
    | true =>
      cases e with
      | pushed | canceled => cases hrun
      | ran s now task =>
        obtain rfl : s = seq := by simpa [Event.runs] using hrun
        have hzero : r.countP (Event.runs s) = 0 := by
          rw [List.countP_eq_zero]
          intro e he hruns
          obtain ⟨earlier, later, rfl⟩ := List.append_of_mem he
          cases e with
          | pushed | canceled => cases hruns
          | ran s' now' task' =>
            obtain rfl : s' = s := by simpa [Event.runs] using hruns
            obtain ⟨deadline, -, hpending, -⟩ := before.fits
            -- it would be run a second time after the first
            have hall : Legal (earlier ++ .ran s' now' task' :: (later ++ [.ran s' now task])) := by
              simpa using Legal.concat before hfits
            have hnever : ∀ e ∈ later ++ [.ran s' now task], e.runs s' = false :=
              hall.not_runs_of_after (number_of_pending hpending) (.inr ⟨_, _, rfl⟩)
            have hlast := hnever _ (List.mem_append_right _ (List.mem_singleton_self _))
            simp [Event.runs] at hlast
        simp [hzero, hrun]

theorem eq_of_pushed (h : Legal r) {now now' delay delay' : Nat} {task task' : τ}
    (hp : .pushed seq now delay task ∈ r) (hp' : .pushed seq now' delay' task' ∈ r) :
    now = now' ∧ delay = delay' ∧ task = task' := by
  obtain ⟨earlier, later, rfl⟩ := List.append_of_mem hp
  have hnodup := h.nodup
  have hfirst : numbers (.pushed seq now delay task :: later) = seq :: numbers later := rfl
  rw [numbers_append, hfirst, List.nodup_append] at hnodup
  obtain ⟨-, hlater, hdisjoint⟩ := hnodup
  obtain hmem | hmem := List.mem_append.1 hp'
  · exact absurd rfl (hdisjoint seq (mem_numbers.2 ⟨_, _, _, hmem⟩) seq List.mem_cons_self)
  · obtain heq | hmem := List.mem_cons.1 hmem
    · cases heq
      exact ⟨rfl, rfl, rfl⟩
    · exact absurd (mem_numbers.2 ⟨_, _, _, hmem⟩) (List.nodup_cons.1 hlater).1

/-- A task whose delay is no instant never runs. -/
theorem not_runs_of_none (h : Legal r) {now delay : Nat} {task : τ}
    (hp : .pushed seq now delay task ∈ r) (hnone : instant? now delay = none) :
    ∀ e ∈ r, e.runs seq = false := by
  intro e he
  cases e with
  | pushed | canceled => rfl
  | ran s at' task' =>
    by_contra hrun
    obtain rfl : s = seq := by simpa [Event.runs] using hrun
    obtain ⟨earlier, later, rfl⟩ := List.append_of_mem he
    obtain ⟨deadline, -, hpending, -⟩ := h.fits
    obtain ⟨now', delay', hpushed, hdeadline⟩ := pushed_of_pending hpending
    obtain ⟨rfl, rfl, -⟩ := h.eq_of_pushed hp (List.mem_append_left _ hpushed)
    rw [hnone] at hdeadline
    cases hdeadline

end Legal
end Record
end Effects.Timer
