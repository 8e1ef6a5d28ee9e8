import Effects.Proofs.Policy.Steps
import Mathlib.Data.Nat.Fib.Basic
import Mathlib.Order.Monotone.Basic

/-!
The schedules that go on for ever with longer and longer delays. Each delay is a multiple of the
base that stops at the longest duration, and such multiples add up as those that do not stop.
-/

namespace Effects

namespace Duration

theorem times_one (d : Duration) : d.times 1 = d := by
  have h := d.nanos_le_longest
  refine ext ?_
  rw [nanos_times]
  omega

theorem times_add (d : Duration) (m n : Nat) : d.times m + d.times n = d.times (m + n) := by
  refine ext ?_
  rw [nanos_add, nanos_times, nanos_times, nanos_times, Nat.add_mul]
  omega

/-- Taking one of the two away again gives the other one, unless their sum is too long. -/
theorem times_sub_iff (d : Duration) {m n : Nat} (hm : 0 < m) (hn : 0 < n) :
    d.times (m + n) - d.times n = d.times m ↔ (m + n) * d.nanos ≤ longest.nanos := by
  refine Iff.trans ⟨congrArg nanos, ext⟩ ?_
  rw [nanos_sub, nanos_times, nanos_times, nanos_times, Nat.add_mul, nanos_longest]
  obtain hd | hd := Nat.eq_zero_or_pos d.nanos
  · simp [hd]
  · have := Nat.mul_pos hm hd
    have := Nat.mul_pos hn hd
    omega

end Duration

namespace Policy

variable {ε ι σ ο : Type} [Datum ε] [Datum σ]

/-- Only computes, and goes on from each of these states to the next one. -/
structure Unending (s : Schedule ε ι σ ο) (state : Nat → σ) (delay : Nat → Duration) : Prop where
  begins : ∀ {run t x}, s.initial.Yields run t x ↔ t = [] ∧ x = .ok (.completed (state 0), run)
  updates : ∀ {k input run t x}, (s.update input (state k)).Yields run t x ↔
    t = [] ∧ x = .ok (.completed (.again (state (k + 1)) (delay k)), run)

theorem Unending.of_pure {start : σ} {extract : ι → σ → ο} {update : ι → σ → Decision σ}
    {state : Nat → σ} {delay : Nat → Duration} (hstart : start = state 0)
    (h : ∀ k input, update input (state k) = .again (state (k + 1)) (delay k)) :
    Unending (.pure start extract update : Schedule ε ι σ ο) state delay where
  begins := hstart ▸ Effect.pure_yields _
  updates {k input _ _ _} := h k input ▸ Effect.pure_yields _

namespace Unending

variable {s : Schedule ε ι σ ο} {state : Nat → σ} {delay : Nat → Duration} {k : Nat}
  {x : Asked ε ι σ} {xs : List (Asked ε ι σ)}

theorem asks_iff (h : Unending s state delay) : s.Asks (state k) x ↔
    x.trace = [] ∧ x.upshot = .ok (.completed (.again (state (k + 1)) (delay k)), x.run) :=
  h.updates

theorem runs_iff (h : Unending s state delay) : s.Runs (state k) xs ↔
    ∀ i x, xs[i]? = some x → s.Asks (state (k + i)) x := by
  -- Whatever has been asked first, the rest is asked in the state with the next number.
  induction xs generalizing k with
  | nil => exact iff_of_true (.waits _) nofun
  | cons x xs ih =>
    have hnext (hx : s.Asks (state k) x) : x.next? = some (state (k + 1)) := by
      have hdecision : x.decision? = some (.again (state (k + 1)) (delay k)) := by
        rw [Asked.decision?, (h.asks_iff.1 hx).2]
      exact Asked.next?_of hdecision
    constructor
    · intro hxs i y hy
      have hx := (Steps.cons_iff.1 hxs).1
      cases i with
      | zero =>
        cases hy
        exact hx
      | succ i =>
        have := ih.1 (hxs.tail (hnext hx)) i y hy
        rwa [Nat.add_assoc, Nat.add_comm 1] at this
    · intro hxs
      have hx := hxs 0 x rfl
      refine .goes hx (hnext hx) (ih.2 fun i y hy => ?_)
      rw [Nat.add_assoc, Nat.add_comm 1]
      exact hxs (i + 1) y hy

theorem exists_runs (h : Unending s state delay) (k : Nat) (asks : List (ι × Run)) :
    ∃ xs, s.Runs (state k) xs ∧ xs.map (fun x => (x.input, x.run)) = asks := by
  induction asks generalizing k with
  | nil => exact ⟨[], .waits _, rfl⟩
  | cons ask asks ih =>
    obtain ⟨xs, hxs, rfl⟩ := ih (k + 1)
    exact ⟨⟨ask.1, ask.2, [], .ok (.completed (.again (state (k + 1)) (delay k)), ask.2)⟩ :: xs,
      .goes (h.asks_iff.2 ⟨rfl, rfl⟩) rfl hxs, rfl⟩

theorem decides (h : Unending s state delay) (hxs : s.Runs (state 0) xs) (hx : xs[k]? = some x) :
    x.decision? = some (.again (state (k + 1)) (delay k)) := by
  have hasks := h.runs_iff.1 hxs k x hx
  rw [Nat.zero_add, h.asks_iff] at hasks
  rw [Asked.decision?, hasks.2]

theorem delay? (h : Unending s state delay) (hxs : s.Runs (state 0) xs) (hx : xs[k]? = some x) :
    x.delay? = some (delay k) := by
  rw [Asked.delay?, h.decides hxs hx]
  rfl

theorem shown? (h : Unending s state delay) (hxs : s.Runs (state 0) xs) (hx : xs[k]? = some x) :
    x.shown? s = some (s.extract x.input (state (k + 1))) := by
  rw [Asked.shown?, Asked.next?_of (h.decides hxs hx)]
  rfl

end Unending

/-- The numbers of repetitions, up to the largest count. -/
def counts (k : Nat) : Nat := min k Schedule.maxCount

theorem linear_unending (base : Duration) :
    Unending (Schedule.linear base : Schedule ε ι Nat Duration) counts
      fun k => base.times (counts (k + 1)) := by
  refine .of_pure rfl fun k _ => ?_
  have hsucc : Schedule.succCount (counts k) = counts (k + 1) := by
    rw [Schedule.succCount, counts, counts]
    omega
  rw [hsucc]

/-- Two multiples in a row of the base, by Fibonacci numbers. -/
def neighbours (base : Duration) (k : Nat) : Duration × Duration :=
  (base.times (Nat.fib (k + 1)), base.times (Nat.fib (k + 2)))

theorem neighbours_zero (base : Duration) : neighbours base 0 = (base, base) := by
  rw [neighbours, Nat.zero_add, Nat.fib_one, Nat.zero_add, Nat.fib_two, base.times_one]

theorem fibonacci_unending (base : Duration) :
    Unending (Schedule.fibonacci base : Schedule ε ι (Duration × Duration) Duration)
      (neighbours base) fun k => base.times (Nat.fib (k + 1)) := by
  refine .of_pure (neighbours_zero base).symm fun k _ => ?_
  simp only [neighbours]
  rw [Duration.times_add, Nat.fib_add_two (n := k + 1)]

variable {base : Duration} {k : Nat}

/-- After every update the output is the delay that has been decided. -/
theorem linear_shows_delay {x : Asked ε ι Nat} {xs : List (Asked ε ι Nat)}
    (hxs : (Schedule.linear base).Runs 0 xs) (hx : xs[k]? = some x) :
    x.shown? (Schedule.linear base) = x.delay? := by
  have h := linear_unending (ε := ε) (ι := ι) base
  rw [h.shown? hxs hx, h.delay? hxs hx]
  rfl

/-- The output after an update is the difference of two neighbours, and so the delay that has been
decided as long as the larger one has not stopped at the longest duration. -/
theorem fibonacci_shows_delay_iff {x : Asked ε ι (Duration × Duration)}
    {xs : List (Asked ε ι (Duration × Duration))}
    (hxs : (Schedule.fibonacci base).Runs (base, base) xs) (hx : xs[k]? = some x) :
    x.shown? (Schedule.fibonacci base) = x.delay? ↔
      Nat.fib (k + 3) * base.nanos ≤ Duration.longest.nanos := by
  have h := fibonacci_unending (ε := ε) (ι := ι) base
  rw [← neighbours_zero] at hxs
  rw [h.shown? hxs hx, h.delay? hxs hx, Option.some_inj]
  change base.times (Nat.fib (k + 3)) - base.times (Nat.fib (k + 2)) = _ ↔ _
  rw [Nat.fib_add_two (n := k + 1)]
  exact base.times_sub_iff (Nat.fib_pos.2 k.succ_pos) (Nat.fib_pos.2 (k + 1).succ_pos)

/-- Goes on for ever, whatever it is asked: it has these states one after the other, and the delay
after each of them, in nanoseconds, is given. -/
structure Lengthens (s : Schedule ε ι σ ο) (state : Nat → σ) (nanos : Nat → Nat) : Prop where
  begins : ∀ {run t x}, s.initial.Yields run t x ↔ t = [] ∧ x = .ok (.completed (state 0), run)
  /-- Anything can be asked, any number of times. -/
  answers : ∀ asks : List (ι × Run),
    ∃ xs, s.Runs (state 0) xs ∧ xs.map (fun x => (x.input, x.run)) = asks
  /-- All that an update ever does is to decide to go on. -/
  decides : ∀ {xs k x}, s.Runs (state 0) xs → xs[k]? = some x → x.trace = [] ∧
    ∃ delay, x.upshot = .ok (.completed (.again (state (k + 1)) delay), x.run) ∧
      delay.nanos = nanos k
  monotone : Monotone nanos

theorem Unending.lengthens {s : Schedule ε ι σ ο} {state : Nat → σ} {factor : Nat → Nat}
    (h : Unending s state fun k => base.times (factor k)) (hfactor : Monotone factor) :
    Lengthens s state fun k => min (factor k * base.nanos) Duration.longest.nanos where
  begins := h.begins
  answers := h.exists_runs 0
  decides {xs k x} hxs hx := by
    have hasks := h.runs_iff.1 hxs k x hx
    rw [Nat.zero_add] at hasks
    obtain ⟨ht, hup⟩ := h.asks_iff.1 hasks
    exact ⟨ht, _, hup, Duration.nanos_times _ _⟩
  monotone _ _ hle :=
    min_le_min_right _ (Nat.mul_le_mul_right _ (hfactor hle))

/-- Neither schedule ever stops, and their delays grow up to the longest duration: by Fibonacci
numbers, or by one base each time until the count of repetitions has come to its largest. -/
theorem delays_lengthen (base : Duration) :
    Lengthens (Schedule.fibonacci base : Schedule ε ι (Duration × Duration) Duration)
        (neighbours base) (fun k => min (Nat.fib (k + 1) * base.nanos) Duration.longest.nanos) ∧
      Lengthens (Schedule.linear base : Schedule ε ι Nat Duration) (fun k => min k (2 ^ 32 - 1))
        fun k => min (min (k + 1) (2 ^ 32 - 1) * base.nanos) Duration.longest.nanos :=
  ⟨(fibonacci_unending base).lengthens fun _ _ h => Nat.fib_mono (Nat.succ_le_succ h),
    (linear_unending base).lengthens fun _ _ h => min_le_min_right _ (Nat.succ_le_succ h)⟩

end Policy
end Effects
