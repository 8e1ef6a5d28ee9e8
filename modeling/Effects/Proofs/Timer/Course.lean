import Effects.Proofs.Timer.Record
import Mathlib.Data.List.Perm.Subperm

/-!
A timer under any sequence of pushes and cancels, while time goes by and its worker takes steps. The
tasks and the heap are two structures, and the heap may still hold entries of tasks that are gone;
whatever is done, a pending task that will be due has one entry there, and a task without one is not
due or not pending.
-/

namespace Effects.Timer

variable {τ : Type}

section Order

variable {a b c e : Nat × Nat} {es : List (Nat × Nat)}

theorem before_iff : before a b = true ↔ a.1 < b.1 ∨ a.1 = b.1 ∧ a.2 < b.2 := by
  simp [before]

theorem before_trans (hab : before a b = true) (hbc : before b c = true) : before a c = true := by
  rw [before_iff] at hab hbc ⊢
  omega

theorem before_of_not (h : before a b = false) (hne : a.2 ≠ b.2) : before b a = true := by
  have hnot : ¬ before a b = true := by simp [h]
  rw [before_iff] at hnot ⊢
  omega

theorem insert_perm (e : Nat × Nat) (es : List (Nat × Nat)) : (insert e es).Perm (e :: es) := by
  induction es with
  | nil => exact .refl _
  | cons x es ih =>
    simp only [insert]
    split
    · exact .refl _
    · exact (ih.cons x).trans (.swap e x es)

theorem mem_insert : a ∈ insert e es ↔ a = e ∨ a ∈ es := by
  rw [(insert_perm e es).mem_iff, List.mem_cons]

/-- Entries of different numbers stay in order. -/
theorem sorted_insert (h : es.Pairwise fun a b => before a b = true) (hne : ∀ x ∈ es, x.2 ≠ e.2) :
    (insert e es).Pairwise fun a b => before a b = true := by
  induction es with
  | nil => exact List.pairwise_singleton _ _
  | cons x es ih =>
    obtain ⟨hx, hes⟩ := List.pairwise_cons.1 h
    simp only [insert]
    split
    · rename_i hlt
      refine List.pairwise_cons.2 ⟨fun y hy => ?_, h⟩
      obtain rfl | hy := List.mem_cons.1 hy
      · exact hlt
      · exact before_trans hlt (hx y hy)
    · rename_i hlt
      have hxe : before x e = true :=
        before_of_not (Bool.eq_false_iff.2 hlt) (hne x List.mem_cons_self).symm
      refine List.pairwise_cons.2 ⟨fun y hy => ?_, ih hes fun y hy => hne y (List.mem_cons_of_mem _ hy)⟩
      obtain rfl | hy := mem_insert.1 hy
      · exact hxe
      · exact hx y hy

end Order

/-- No task is taken out where none is pending. -/
theorem filter_tasks_of_not {t : Timer τ} {seq : Nat} (h : t.pending seq = false) :
    t.tasks.filter (·.1 != seq) = t.tasks := by
  rw [List.filter_eq_self]
  intro x hx
  rw [pending, List.any_eq_false] at h
  simpa using h x hx

inductive Deed (τ : Type) where
  | push (delay : Nat) (task : τ)
  | cancel (seq : Nat)
  /-- Time goes by. -/
  | passes (nanos : Nat)
  /-- The worker looks at the first entry. -/
  | works

structure Course (τ : Type) where
  timer : Timer τ
  now : Nat
  record : Record τ

namespace Course

def start (now : Nat) : Course τ := ⟨.new, now, []⟩

/-- The number of the entry that comes first, with the task that has been taken out for it. -/
def taken (s : Course τ) (task : Option τ) : List (Event τ) :=
  match s.timer.deadlines, task with
  | e :: _, some task => [.ran e.2 s.now task]
  | _, _ => []

def step (s : Course τ) : Deed τ → Course τ
  | .push delay task =>
      let (timer, seq) := s.timer.push s.now delay task
      { s with timer, record := s.record ++ [.pushed seq s.now delay task] }
  | .cancel seq => { s with timer := s.timer.remove seq, record := s.record ++ [.canceled seq] }
  | .passes nanos => { s with now := s.now + nanos }
  | .works =>
      match s.timer.fire? s.now with
      | some (timer, task) => { s with timer, record := s.record ++ s.taken task }
      | none => s

def run (s : Course τ) (deeds : List (Deed τ)) : Course τ := deeds.foldl step s

/-- What has happened so far, and the tasks and the heap. -/
structure Stands (s : Course τ) : Prop where
  legal : s.record.Legal
  numbers : s.record.numbers.length = s.timer.next
  tasks : s.timer.tasks = (s.record.pending.map fun p => (p.seq, p.task)).reverse
  sorted : s.timer.deadlines.Pairwise fun a b => before a b = true
  nodup : (s.timer.deadlines.map (·.2)).Nodup
  known : ∀ e ∈ s.timer.deadlines, ∃ now delay task,
    .pushed e.2 now delay task ∈ s.record ∧ instant? now delay = some e.1
  live : ∀ p ∈ s.record.pending, ∀ d, p.deadline = some d → (d, p.seq) ∈ s.timer.deadlines

/-- What holds after whatever has been done. -/
structure Sound (s : Course τ) : Prop where
  /-- A task that runs is pending and due, and the least of those that are pending. -/
  runs : ∀ {earlier later : Record τ} {seq now : Nat} {task : τ},
    s.record = earlier ++ .ran seq now task :: later → Event.Runs earlier seq now task
  once : ∀ seq, s.record.countP (Event.runs seq) ≤ 1
  canceled : ∀ {earlier later : Record τ} {seq : Nat},
    s.record = earlier ++ .canceled seq :: later → (∃ p ∈ earlier.pending, p.seq = seq) →
      ∀ e ∈ later, e.runs seq = false
  never : ∀ {seq now delay : Nat} {task : τ}, .pushed seq now delay task ∈ s.record →
    instant? now delay = none → ∀ e ∈ s.record, e.runs seq = false
  /-- The tasks are those that are pending, the latest first. -/
  tasks : s.timer.tasks = (s.record.pending.map fun p => (p.seq, p.task)).reverse
  entry : ∀ p ∈ s.record.pending, s.timer.deadlines.filter (·.2 == p.seq) =
    p.deadline.toList.map fun d => (d, p.seq)
  bound : ∀ p ∈ s.record.pending, (s.step (.cancel p.seq)).timer.deadlines.length ≤
    2 * (s.step (.cancel p.seq)).record.pending.length + slack
  /-- The worker waits only as long as nothing that is pending is due. -/
  waits : s.timer.fire? s.now = none →
    ∀ p ∈ s.record.pending, ∀ d, p.deadline = some d → s.now < d

namespace Stands

variable {s : Course τ} {seq : Nat} {p : Pending τ}

theorem start (now : Nat) : (start now : Course τ).Stands where
  legal := .nil
  numbers := rfl
  tasks := rfl
  sorted := .nil
  nodup := .nil
  known := nofun
  live := nofun

theorem mem_tasks (h : s.Stands) {task : τ} :
    (seq, task) ∈ s.timer.tasks ↔ ∃ p ∈ s.record.pending, p.seq = seq ∧ p.task = task := by
  simp [h.tasks]

theorem pending_iff (h : s.Stands) :
    s.timer.pending seq = true ↔ ∃ p ∈ s.record.pending, p.seq = seq := by
  simp [Timer.pending, h.tasks]

/-- Without those tasks. -/
theorem tasks_filter (h : s.Stands) (seq : Nat) :
    s.timer.tasks.filter (·.1 != seq) =
      ((s.record.pending.filter (·.seq != seq)).map fun p => (p.seq, p.task)).reverse := by
  rw [h.tasks, List.filter_reverse, List.filter_map]
  rfl

/-- Its entry says when it is due. -/
theorem deadline_of_entry (h : s.Stands) {e : Nat × Nat} (he : e ∈ s.timer.deadlines)
    (hp : p ∈ s.record.pending) (hseq : p.seq = e.2) : p.deadline = some e.1 := by
  obtain ⟨now, delay, task, hpushed, hd⟩ := h.known e he
  obtain ⟨now', delay', hpushed', hd'⟩ := Record.pushed_of_pending hp
  rw [hseq] at hpushed'
  obtain ⟨rfl, rfl, -⟩ := h.legal.eq_of_pushed hpushed hpushed'
  exact hd'.symm.trans hd

theorem entry (h : s.Stands) (hp : p ∈ s.record.pending) :
    s.timer.deadlines.filter (·.2 == p.seq) = p.deadline.toList.map fun d => (d, p.seq) := by
  have hentry : ∀ e ∈ s.timer.deadlines.filter (·.2 == p.seq), p.deadline = some e.1 ∧ e.2 = p.seq := by
    intro e he
    obtain ⟨he, hseq⟩ := List.mem_filter.1 he
    have hseq : e.2 = p.seq := by simpa using hseq
    exact ⟨h.deadline_of_entry he hp hseq.symm, hseq⟩
  cases hd : p.deadline with
  | none =>
    refine List.eq_nil_iff_forall_not_mem.2 fun e he => ?_
    have hsome := (hentry e he).1
    rw [hd] at hsome
    cases hsome
  | some d =>
    have hmem : (d, p.seq) ∈ s.timer.deadlines.filter (·.2 == p.seq) :=
      List.mem_filter.2 ⟨h.live p hp d hd, by simp⟩
    have hall : ∀ e ∈ s.timer.deadlines.filter (·.2 == p.seq), e = (d, p.seq) := by
      intro e he
      obtain ⟨hd', hseq⟩ := hentry e he
      rw [hd] at hd'
      exact Prod.ext (Option.some.inj hd').symm hseq
    have hnodup : (s.timer.deadlines.filter (·.2 == p.seq)).Nodup :=
      (h.nodup.of_map _).filter _
    refine List.perm_singleton.1 ((List.perm_ext_iff_of_nodup hnodup (List.nodup_singleton _)).2 ?_)
    intro e
    rw [List.mem_singleton]
    exact ⟨hall e, fun heq => heq ▸ hmem⟩

theorem deadlines_push (s : Course τ) (delay : Nat) (task : τ) :
    (s.step (.push delay task)).timer.deadlines = (instant? s.now delay).elim s.timer.deadlines
      fun d => insert (d, s.timer.next) s.timer.deadlines := by
  show (Timer.push s.now delay task s.timer).1.deadlines = _
  unfold Timer.push
  cases instant? s.now delay <;> rfl

theorem push (h : s.Stands) (delay : Nat) (task : τ) : (s.step (.push delay task)).Stands := by
  let e : Event τ := .pushed s.timer.next s.now delay task
  have hpushed : e ∈ s.record ++ [e] := by simp
  have hfresh : ∀ x ∈ s.timer.deadlines, x.2 ≠ s.timer.next := by
    intro x hx hnext
    obtain ⟨now, delay, task, hpushed, -⟩ := h.known x hx
    have hmem := Record.mem_numbers.2 ⟨_, _, _, hpushed⟩
    rw [h.legal.numbers_eq, h.numbers, List.mem_range, hnext] at hmem
    exact Nat.lt_irrefl _ hmem
  have hknown : ∀ x ∈ s.timer.deadlines, ∃ now delay task,
      .pushed x.2 now delay task ∈ s.record ++ [e] ∧ instant? now delay = some x.1 := by
    intro x hx
    obtain ⟨now, delay, task, hmem, hd⟩ := h.known x hx
    exact ⟨now, delay, task, List.mem_append_left _ hmem, hd⟩
  have hpending : (s.record ++ [e]).pending =
      s.record.pending ++ [⟨s.timer.next, instant? s.now delay, task⟩] := Record.pending_concat _ e
  refine
    { legal := .concat h.legal h.numbers.symm
      numbers := ?_
      tasks := ?_
      sorted := ?_
      nodup := ?_
      known := ?_
      live := ?_ }
  · have hlast : Record.numbers [e] = [s.timer.next] := rfl
    show (Record.numbers (s.record ++ [e])).length = s.timer.next + 1
    rw [Record.numbers_append, hlast, List.length_append, h.numbers, List.length_singleton]
  · show (s.timer.next, task) :: s.timer.tasks = _
    rw [h.tasks]
    show _ = ((s.record ++ [e]).pending.map _).reverse
    rw [hpending]
    simp
  · rw [deadlines_push]
    cases instant? s.now delay with
    | some d => exact sorted_insert h.sorted hfresh
    | none => exact h.sorted
  · rw [deadlines_push]
    cases instant? s.now delay with
    | some d =>
      show ((insert (d, s.timer.next) s.timer.deadlines).map _).Nodup
      rw [((insert_perm _ _).map _).nodup_iff, List.map_cons, List.nodup_cons]
      refine ⟨?_, h.nodup⟩
      rw [List.mem_map]
      rintro ⟨x, hx, hnext⟩
      exact hfresh x hx hnext
    | none => exact h.nodup
  · rw [deadlines_push]
    cases hd : instant? s.now delay with
    | some d =>
      intro x hx
      obtain rfl | hx := mem_insert.1 hx
      · exact ⟨_, _, _, hpushed, hd⟩
      · exact hknown x hx
    | none => exact hknown
  · intro p hp d hd
    have hp : p ∈ (s.record ++ [e]).pending := hp
    rw [hpending, List.mem_append, List.mem_singleton] at hp
    rw [deadlines_push]
    obtain hp | rfl := hp
    · have hmem := h.live p hp d hd
      cases instant? s.now delay with
      | some d => exact mem_insert.2 (.inr hmem)
      | none => exact hmem
    · have hd : instant? s.now delay = some d := hd
      rw [hd]
      exact mem_insert.2 (.inl rfl)

/-- What is no longer pending is gone from the tasks, and some of the heap's entries with it. -/
theorem less (h : s.Stands) {e : Event τ} {es : List (Nat × Nat)}
    (he : e = .canceled seq ∨ ∃ now task, e = .ran seq now task) (hfits : e.Fits s.record)
    (hes : es.Sublist s.timer.deadlines)
    (hlive : ∀ p ∈ s.record.pending, p.seq ≠ seq → ∀ d, p.deadline = some d → (d, p.seq) ∈ es) :
    Stands ⟨⟨s.timer.next, s.timer.tasks.filter (·.1 != seq), es⟩, s.now, s.record ++ [e]⟩ := by
  have hpending : (s.record ++ [e]).pending = s.record.pending.filter (·.seq != seq) := by
    rw [Record.pending_concat]
    obtain rfl | ⟨now, task, rfl⟩ := he <;> rfl
  have hnumber : e.number? = none := by
    obtain rfl | ⟨now, task, rfl⟩ := he <;> rfl
  refine
    { legal := .concat h.legal hfits
      numbers := (congrArg List.length (Record.numbers_concat_of_none hnumber _)).trans h.numbers
      tasks := ?_
      sorted := h.sorted.sublist hes
      nodup := h.nodup.sublist (hes.map _)
      known := ?_
      live := ?_ }
  · rw [hpending]
    exact h.tasks_filter seq
  · intro x hx
    obtain ⟨now, delay, task, hmem, hd⟩ := h.known x (hes.subset hx)
    exact ⟨now, delay, task, List.mem_append_left _ hmem, hd⟩
  · intro p hp d hd
    rw [hpending, List.mem_filter] at hp
    exact hlive p hp.1 (by simpa using hp.2) d hd

theorem cancel (h : s.Stands) (seq : Nat) : (s.step (.cancel seq)).Stands := by
  let e : Event τ := .canceled seq
  show Stands ⟨s.timer.remove seq, s.now, s.record ++ [e]⟩
  cases hp : s.timer.pending seq with
  | true =>
    simp only [remove, hp, if_true]
    split
    · refine h.less (.inl rfl) trivial List.filter_sublist fun p hmem hne d hd => ?_
      refine List.mem_filter.2 ⟨h.live p hmem d hd, List.any_eq_true.2 ⟨(p.seq, p.task), ?_, by simp⟩⟩
      exact List.mem_filter.2 ⟨h.mem_tasks.2 ⟨p, hmem, rfl, rfl⟩, by simpa using hne⟩
    · exact h.less (.inl rfl) trivial (.refl _) fun p hmem _ d hd => h.live p hmem d hd
  | false =>
    have hsame : s.timer.remove seq =
        ⟨s.timer.next, s.timer.tasks.filter (·.1 != seq), s.timer.deadlines⟩ := by
      rw [filter_tasks_of_not hp, remove, hp]
      rfl
    rw [hsame]
    exact h.less (.inl rfl) trivial (.refl _) fun p hmem _ d hd => h.live p hmem d hd

theorem works (h : s.Stands) : (s.step .works).Stands := by
  cases hes : s.timer.deadlines with
  | nil => simpa [step, fire?, hes] using h
  | cons e es =>
    obtain ⟨d, seq⟩ := e
    by_cases hdue : d ≤ s.now
    · have hrest : es.Sublist s.timer.deadlines := hes ▸ List.sublist_cons_self _ _
      have hlive : ∀ p ∈ s.record.pending, p.seq ≠ seq → ∀ d, p.deadline = some d →
          (d, p.seq) ∈ es := by
        intro p hp hne d' hd
        have hmem := h.live p hp d' hd
        rw [hes] at hmem
        obtain heq | hmem := List.mem_cons.1 hmem
        · exact absurd (Prod.mk.inj heq).2 hne
        · exact hmem
      have hstep : s.step .works =
          ⟨⟨s.timer.next, s.timer.tasks.filter (·.1 != seq), es⟩, s.now,
            s.record ++ s.taken ((s.timer.tasks.find? (·.1 == seq)).map (·.2))⟩ := by
        simp [step, fire?, hes, hdue]
      rw [hstep]
      cases hfind : s.timer.tasks.find? (·.1 == seq) with
      | none =>
        have hp : s.timer.pending seq = false := by
          rw [Timer.pending, List.any_eq_false]
          simpa using hfind
        have hgone : ∀ p ∈ s.record.pending, p.seq ≠ seq := by
          intro p hp' hseq
          rw [h.pending_iff.2 ⟨p, hp', hseq⟩] at hp
          cases hp
        rw [filter_tasks_of_not hp]
        have htaken : s.record ++ s.taken ((none : Option (Nat × τ)).map (·.2)) = s.record := by
          simp [taken, hes]
        rw [htaken]
        exact { h with
          sorted := h.sorted.sublist hrest
          nodup := h.nodup.sublist (hrest.map _)
          known := fun x hx => h.known x (hrest.subset hx)
          live := fun p hp' d' hd => hlive p hp' (hgone p hp') d' hd }
      | some x =>
        obtain ⟨seq', task⟩ := x
        obtain rfl : seq' = seq := by simpa using List.find?_some hfind
        obtain ⟨p, hp, hseq, rfl⟩ := h.mem_tasks.1 (List.mem_of_find?_eq_some hfind)
        have hdeadline : p.deadline = some d :=
          h.deadline_of_entry (e := (d, seq')) (hes ▸ List.mem_cons_self) hp hseq
        have htaken : s.taken ((some (seq', p.task)).map (·.2)) = [.ran seq' s.now p.task] := by
          simp [taken, hes]
        rw [htaken]
        refine h.less (.inr ⟨_, _, rfl⟩) ⟨d, hdue, ?_, ?_⟩ hrest hlive
        · rw [← hdeadline, ← hseq]
          exact hp
        · intro q hq d' hd hne
          have hsorted := h.sorted
          rw [hes] at hsorted
          exact (List.pairwise_cons.1 hsorted).1 _ (hlive q hq hne d' hd)
    · simpa [step, fire?, hes, hdue] using h

theorem step (h : s.Stands) (deed : Deed τ) : (s.step deed).Stands := by
  cases deed with
  | push delay task => exact h.push delay task
  | cancel seq => exact h.cancel seq
  | passes nanos => exact { h with }
  | works => exact h.works

theorem run (h : s.Stands) (deeds : List (Deed τ)) : (s.run deeds).Stands := by
  induction deeds generalizing s with
  | nil => exact h
  | cons deed deeds ih => exact ih (h.step deed)

theorem tasks_length (h : s.Stands) : s.timer.tasks.length = s.record.pending.length := by
  simp [h.tasks]

theorem bound (h : s.Stands) (hp : p ∈ s.record.pending) :
    (s.step (.cancel p.seq)).timer.deadlines.length ≤
      2 * (s.step (.cancel p.seq)).record.pending.length + slack := by
  rw [← (h.cancel p.seq).tasks_length]
  show (s.timer.remove p.seq).deadlines.length ≤ 2 * (s.timer.remove p.seq).tasks.length + slack
  simp only [remove, h.pending_iff.2 ⟨p, hp, rfl⟩, if_true]
  split
  · generalize s.timer.tasks.filter (·.1 != p.seq) = tasks
    -- what is kept are entries of different tasks
    have hnodup : ((s.timer.deadlines.filter fun e => tasks.any (·.1 == e.2)).map (·.2)).Nodup :=
      h.nodup.sublist (List.filter_sublist.map _)
    have hsub : ((s.timer.deadlines.filter fun e => tasks.any (·.1 == e.2)).map (·.2)) ⊆
        tasks.map (·.1) := by
      intro seq hseq
      obtain ⟨e, he, rfl⟩ := List.mem_map.1 hseq
      obtain ⟨x, hx, heq⟩ := List.any_eq_true.1 (List.mem_filter.1 he).2
      exact List.mem_map.2 ⟨x, hx, by simpa using heq⟩
    have hle := (hnodup.subperm hsub).length_le
    rw [List.length_map, List.length_map] at hle
    show (s.timer.deadlines.filter fun e => tasks.any (·.1 == e.2)).length ≤ 2 * tasks.length + slack
    omega
  · rename_i hle
    exact Nat.le_of_not_lt hle

theorem waits (h : s.Stands) (hfire : s.timer.fire? s.now = none) (hp : p ∈ s.record.pending)
    {d : Nat} (hd : p.deadline = some d) : s.now < d := by
  have hmem := h.live p hp d hd
  have hsorted := h.sorted
  cases hes : s.timer.deadlines with
  | nil => simp [hes] at hmem
  | cons e es =>
    rw [hes] at hmem hsorted
    have hlater : s.now < e.1 := by simpa [fire?, hes] using hfire
    obtain rfl | hmem := List.mem_cons.1 hmem
    · exact hlater
    · have hbefore := before_iff.1 ((List.pairwise_cons.1 hsorted).1 _ hmem)
      omega

end Stands

/-- Whatever is pushed and canceled, whenever time goes by and the worker looks: each task runs at most
once, when it is due and the first of those that are pending, and no pending task is dropped. -/
theorem tasks_meet_deadlines (now : Nat) (deeds : List (Deed τ)) :
    ((start now : Course τ).run deeds).Sound := by
  have h := (Stands.start (τ := τ) now).run deeds
  exact
    { runs := fun hr => (hr ▸ h.legal).fits
      once := h.legal.runs_once
      canceled := by
        rintro earlier later seq hr ⟨p, hp, rfl⟩
        exact (hr ▸ h.legal).not_runs_of_canceled (Record.number_of_pending hp)
      never := fun hp hnone => h.legal.not_runs_of_none hp hnone
      tasks := h.tasks
      entry := fun p hp => h.entry hp
      bound := fun p hp => h.bound hp
      waits := fun hfire p hp d hd => h.waits hfire hp hd }

end Course
end Effects.Timer
