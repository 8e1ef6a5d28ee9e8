import Effects.Proofs.Slot.Ledger

/-!
Whatever the order of the steps, the take accepted first gets the value put first, and so on.
-/

namespace Effects.MVar

variable {α : Type} {asks : List (Ask α)} {i : Nat} {ask : Ask α}

theorem Ledger.writes {contents next : Contents α Nat} {s : Accepted α}
    {out new : List (Call α Nat)} (h : Ledger asks contents s out) (hi : asks[i]? = some ask)
    (ht : i ∉ s.takes) (hp : i ∉ s.puts.filterMap (·.1)) (hw : Writes i contents ask next new) :
    Ledger asks next (s.record contents i ask) (out ++ new) := by
  cases hw with
  | offer hask ho =>
    rcases hask with rfl | rfl
    · exact h.offer (.inl hi) hp ho
    · exact h.offer (.inr hi) hp ho
  | poll hask hpoll =>
    rcases hask with rfl | rfl
    · exact h.poll (.inl hi) ht hpoll
    · exact h.poll (.inr hi) ht hpoll
  | joinPut hn =>
    rw [List.append_nil]
    exact h.joinPut hi hp hn
  | joinTake hn =>
    rw [List.append_nil]
    exact h.joinTake hi ht hn
  | joinRead hn =>
    rw [List.append_nil]
    exact h.joinRead hi hn
  | leave =>
    have hother : ∀ c ∈ [((i, .room) : Call α Nat)],
        takesCall asks c = false ∧ putsCall asks c = false := by
      simp [takesCall, putsCall, hi, Ask.takes, Ask.puts]
    cases contents with
    | empty readers takers => exact (h.leave_empty _).append_other hother
    | full held putters => exact (h.leave_full _).append_other hother

namespace Accepted

variable {s : Accepted α} {contents : Contents α Nat} {j : Nat}

theorem mem_takes_record (h : j ∈ (s.record contents i ask).takes) : j ∈ s.takes ∨ j = i := by
  cases ask <;> simp [record] at h <;> first | exact .inl h | exact h | exact .inl h.1

theorem mem_puts_record (h : j ∈ (s.record contents i ask).puts.filterMap (·.1)) :
    j ∈ s.puts.filterMap (·.1) ∨ j = i := by
  cases ask with
  | leave id =>
    obtain ⟨p, hp, hj⟩ := List.mem_filterMap.1 h
    exact .inl (List.mem_filterMap.2 ⟨p, (List.mem_filter.1 hp).1, hj⟩)
  | put a | tryPut a =>
    rw [record, List.filterMap_append] at h
    rcases List.mem_append.1 h with h | h
    · exact .inl h
    · exact .inr (by simpa using h)
  | _ => exact .inl h

end Accepted

/-- Read from the cell at some time: it still is what is there unless it was written since. -/
def Snapshot (cell seen : Cell (Contents α Nat)) : Prop :=
  seen.version ≤ cell.version ∧ (seen.version = cell.version → seen = cell)

namespace Snapshot

variable {cell seen : Cell (Contents α Nat)}

theorem refl (cell : Cell (Contents α Nat)) : Snapshot cell cell := ⟨Nat.le_refl _, fun _ => rfl⟩

theorem set (h : Snapshot cell seen) (c : Contents α Nat) : Snapshot (cell.set c) seen := by
  have hlt : seen.version < (cell.set c).version := Nat.lt_succ_of_le h.1
  exact ⟨Nat.le_of_lt hlt, fun he => absurd he (Nat.ne_of_lt hlt)⟩

theorem compareAndSet (h : Snapshot cell seen) (c : Contents α Nat)
    (hw : (cell.compareAndSet seen c).2 = true) :
    seen = cell ∧ cell.compareAndSet seen c = (cell.set c, true) := by
  by_cases hv : cell.version = seen.version
  · exact ⟨h.2 hv.symm, by simp [Cell.compareAndSet, hv]⟩
  · simp [Cell.compareAndSet, hv] at hw

end Snapshot

namespace Phase

/-- What an operation is about to write was computed from a snapshot of the cell. -/
def Sound (i : Nat) (ask : Ask α) (cell : Cell (Contents α Nat)) : Phase α Nat → Prop
  | .writing seen next calls answer =>
      Snapshot cell seen ∧ Writes i seen.value ask next (calls ++ answer.call i)
  | .joining seen next _ => Snapshot cell seen ∧ Writes i seen.value ask next []
  | _ => True

theorem Sound.set {cell : Cell (Contents α Nat)} {p : Phase α Nat} (h : p.Sound i ask cell)
    (c : Contents α Nat) : p.Sound i ask (cell.set c) := by
  cases p with
  | writing seen next calls answer => exact ⟨h.1.set c, h.2⟩
  | joining seen next id => exact ⟨h.1.set c, h.2⟩
  | _ => trivial

/-- Calls to operations that neither put nor take. -/
def Other (i : Nat) (ask : Ask α) (calls : List (Call α Nat)) : Prop :=
  ∀ c ∈ calls, c.1 = i ∧ ask.takes = false ∧ ask.puts = false

theorem Other.nil : Other i ask ([] : List (Call α Nat)) := by simp [Other]

theorem Other.own (h : ask.takes = false ∧ ask.puts = false) (notice : Notice α) :
    Other i ask [(i, notice)] := by
  intro c hc
  obtain rfl : c = (i, notice) := by simpa using hc
  exact ⟨rfl, h⟩

theorem serve_sound (i : Nat) (ask : Ask α) (s : Slot α Nat) :
    ((ask.request i).serve s).1 = s ∧ ((ask.request i).serve s).2.Sound i ask s.cell ∧
      Other i ask (((ask.request i).serve s).2.calls i) := by
  cases ask with
  | put a =>
    simp only [Ask.request, Request.serve]
    cases ho : s.contents.offer? a with
    | none => exact ⟨rfl, trivial, .nil⟩
    | some x =>
      refine ⟨rfl, ⟨.refl _, ?_⟩, .nil⟩
      show Writes i s.contents (.put a) x.1 (x.2 ++ [(i, .room)] ++ [])
      rw [List.append_nil]
      exact .offer (.inl rfl) ho
  | tryPut a =>
    simp only [Ask.request, Request.serve]
    cases ho : s.contents.offer? a with
    | none => exact ⟨rfl, trivial, .nil⟩
    | some x => exact ⟨rfl, ⟨.refl _, .offer (.inr rfl) ho⟩, .nil⟩
  | take =>
    simp only [Ask.request, Request.serve]
    cases hp : s.contents.poll? with
    | none => exact ⟨rfl, trivial, .nil⟩
    | some x =>
      refine ⟨rfl, ⟨.refl _, ?_⟩, .nil⟩
      show Writes i s.contents .take x.1 (x.2.1 ++ [(i, .value x.2.2)] ++ [])
      rw [List.append_nil]
      exact .poll (.inl rfl) hp
  | tryTake =>
    simp only [Ask.request, Request.serve]
    cases hp : s.contents.poll? with
    | none => exact ⟨rfl, trivial, .nil⟩
    | some x => exact ⟨rfl, ⟨.refl _, .poll (.inr rfl) hp⟩, .nil⟩
  | read =>
    simp only [Ask.request, Request.serve]
    cases s.contents.held? with
    | none => exact ⟨rfl, trivial, .nil⟩
    | some held => exact ⟨rfl, trivial, .own ⟨rfl, rfl⟩ (.value held)⟩
  | tryRead =>
    refine ⟨rfl, trivial, ?_⟩
    simp only [Ask.request, Request.serve, calls]
    cases s.contents.held? with
    | none => exact .nil
    | some held => exact .own ⟨rfl, rfl⟩ (.value held)
  | isEmpty =>
    refine ⟨rfl, trivial, ?_⟩
    simp only [Ask.request, Request.serve, calls]
    cases s.contents.isEmpty with
    | false => exact .nil
    | true => exact .own ⟨rfl, rfl⟩ .room
  | leave id =>
    simp only [Ask.request, Request.serve]
    cases s.contents.waiting id with
    | false => exact ⟨rfl, trivial, .nil⟩
    | true => exact ⟨rfl, ⟨.refl _, .leave⟩, .nil⟩

theorem enqueue_sound (i : Nat) (ask : Ask α) (s : Slot α Nat) :
    ((ask.request i).enqueue s).1.cell = s.cell ∧
      ((ask.request i).enqueue s).2.Sound i ask s.cell ∧
      ((ask.request i).enqueue s).2.calls i = [] := by
  simp only [Request.enqueue]
  cases hj : (ask.request i).joined? s.nextId s.contents with
  | none => exact ⟨rfl, trivial, rfl⟩
  | some next =>
    refine ⟨rfl, ⟨.refl _, ?_⟩, rfl⟩
    cases ask with
    | put a => exact .joinPut hj
    | take => exact .joinTake hj
    | read => exact .joinRead hj
    | _ => simp [Ask.request, Request.joined?] at hj

/-- A step that writes nothing: whatever the operation still has to tell stays the same. -/
theorem step_quiet {p : Phase α Nat} {s : Slot α Nat} (hs : p.Sound i ask s.cell)
    (hw : p.writes s = false) :
    let next := p.step (ask.request i) s
    next.1.cell = s.cell ∧ next.2.1.Sound i ask s.cell ∧
      (next.2.1.isOpen = true → p.isOpen = true) ∧
      ∃ extra, (next.2.2.toList ++ next.2.1.calls i).Perm (p.calls i ++ extra) ∧
        Other i ask extra := by
  cases p with
  | reading =>
    obtain ⟨hslot, hsound, hother⟩ := serve_sound i ask s
    refine ⟨congrArg Slot.cell hslot, hsound, fun _ => rfl, _, .refl _, hother⟩
  | enqueuing =>
    obtain ⟨hcell, hsound, hcalls⟩ := enqueue_sound i ask s
    refine ⟨hcell, hsound, fun _ => rfl, [], ?_, .nil⟩
    rw [List.append_nil]
    exact .of_eq hcalls
  | writing seen next calls answer =>
    have hlost : s.cell.compareAndSet seen next = (s.cell, false) := by
      by_cases hv : s.cell.version = seen.version
      · simp [writes, Cell.compareAndSet, hv] at hw
      · simp [Cell.compareAndSet, hv]
    simp only [step, hlost]
    exact ⟨trivial, trivial, fun _ => rfl, [], .refl _, .nil⟩
  | joining seen next id =>
    have hlost : s.cell.compareAndSet seen next = (s.cell, false) := by
      by_cases hv : s.cell.version = seen.version
      · simp [writes, Cell.compareAndSet, hv] at hw
      · simp [Cell.compareAndSet, hv]
    simp only [step, hlost]
    exact ⟨trivial, trivial, fun _ => rfl, [], .refl _, .nil⟩
  | notifying calls answer =>
    cases calls with
    | nil => exact ⟨rfl, trivial, by simp [step, isOpen], [], by simp [step, Phase.calls], .nil⟩
    | cons call rest =>
      exact ⟨rfl, trivial, by simp [step, isOpen], [], by simp [step, Phase.calls], .nil⟩
  | done answer => exact ⟨rfl, trivial, by simp [step, isOpen], [], by simp [step], .nil⟩

/-- A step that writes does so from what is in the cell, and tells nobody yet. -/
theorem step_writes {p : Phase α Nat} {s : Slot α Nat} (hs : p.Sound i ask s.cell)
    (hw : p.writes s = true) :
    let next := p.step (ask.request i) s
    p.isOpen = true ∧ p.calls i = [] ∧ next.2.2 = none ∧ next.2.1.isOpen = false ∧
      next.2.1.Sound i ask next.1.cell ∧
      ∃ c, next.1.cell = s.cell.set c ∧ Writes i s.contents ask c (next.2.1.calls i) := by
  cases p with
  | writing seen c calls answer =>
    obtain ⟨rfl, hset⟩ := hs.1.compareAndSet c hw
    simp only [step, hset]
    exact ⟨rfl, rfl, trivial, rfl, trivial, c, rfl, hs.2⟩
  | joining seen c id =>
    obtain ⟨rfl, hset⟩ := hs.1.compareAndSet c hw
    simp only [step, hset]
    exact ⟨rfl, rfl, trivial, rfl, trivial, c, rfl, hs.2⟩
  | _ => simp [writes] at hw

end Phase

/-- What one operation has to tell among the rest. -/
theorem perm_flatMap_set {β γ : Type} {l : List β} {n : Nat} {x : β} (h : l[n]? = some x)
    (f : β × Nat → List γ) (k : Nat) :
    ∃ rest, ((l.zipIdx k).flatMap f).Perm (f (x, k + n) ++ rest) ∧
      ∀ y, (((l.set n y).zipIdx k).flatMap f).Perm (f (y, k + n) ++ rest) := by
  induction l generalizing n k with
  | nil => simp at h
  | cons z l ih =>
    cases n with
    | zero =>
      obtain rfl : z = x := by simpa using h
      exact ⟨(l.zipIdx (k + 1)).flatMap f, by simp, by simp⟩
    | succ n =>
      obtain ⟨rest, hl, hset⟩ := ih (by simpa using h) (k + 1)
      have he : k + 1 + n = k + (n + 1) := by omega
      rw [he] at hl
      simp only [he] at hset
      have hswap : ∀ front : List γ, (f (z, k) ++ (front ++ rest)).Perm
          (front ++ (f (z, k) ++ rest)) := by
        intro front
        rw [← List.append_assoc, ← List.append_assoc]
        exact List.perm_append_comm.append_right rest
      refine ⟨f (z, k) ++ rest, ?_, fun y => ?_⟩
      · simpa using (hl.append_left (f (z, k))).trans (hswap _)
      · simpa using ((hset y).append_left (f (z, k))).trans (hswap _)

namespace Traffic

structure Inv (asks : List (Ask α)) (s : Traffic α) : Prop where
  ledger : Ledger asks s.slot.contents s.accepted s.outgoing
  sound : ∀ i ask (p : Phase α Nat), asks[i]? = some ask → s.phases[i]? = some p →
    p.Sound i ask s.slot.cell
  /-- An operation is accepted at most once. -/
  fresh : ∀ i (p : Phase α Nat), s.phases[i]? = some p → p.isOpen = true →
    i ∉ s.accepted.takes ∧ i ∉ s.accepted.puts.filterMap (·.1)

variable {s : Traffic α} {p : Phase α Nat}

theorem getElem?_set_cases {l : List (Phase α Nat)} {j : Nat} {x y : Phase α Nat}
    (h : (l.set i x)[j]? = some y) : (j = i ∧ y = x) ∨ (j ≠ i ∧ l[j]? = some y) := by
  by_cases hj : j = i
  · subst hj
    rw [List.getElem?_set_self'] at h
    cases hl : l[j]? with
    | none => simp [hl] at h
    | some z =>
      rw [hl] at h
      exact .inl ⟨rfl, (Option.some.inj h).symm⟩
  · rw [List.getElem?_set_ne (Ne.symm hj)] at h
    exact .inr ⟨hj, h⟩

theorem outgoing_step (hp : s.phases[i]? = some p) {next : Phase α Nat}
    {call : Option (Call α Nat)} {extra : List (Call α Nat)}
    (h : (call.toList ++ next.calls i).Perm (p.calls i ++ extra)) (slot : Slot α Nat)
    (accepted : Accepted α) :
    (outgoing ⟨slot, s.phases.set i next, s.told ++ call.toList, accepted⟩).Perm
      (s.outgoing ++ extra) := by
  obtain ⟨rest, hl, hset⟩ := perm_flatMap_set hp (fun x => x.1.calls x.2) 0
  rw [Nat.zero_add] at hl
  simp only [Nat.zero_add] at hset
  have hnew : (s.told ++ call.toList ++ (next.calls i ++ rest)).Perm
      (s.told ++ (p.calls i ++ extra ++ rest)) := by
    have := (h.append_right rest).append_left s.told
    simpa [List.append_assoc] using this
  have hold : (s.told ++ (p.calls i ++ extra ++ rest)).Perm
      (s.told ++ (p.calls i ++ rest) ++ extra) := by
    simp only [List.append_assoc]
    exact (List.perm_append_comm.append_left _).append_left _
  exact ((hset next).append_left _).trans (hnew.trans (hold.trans
    (((hl.symm).append_left _).append_right _)))

theorem Inv.quiet (h : Inv asks s) (hi : asks[i]? = some ask) (hp : s.phases[i]? = some p)
    {slot : Slot α Nat} {next : Phase α Nat} {call : Option (Call α Nat)}
    {extra : List (Call α Nat)} (hcell : slot.cell = s.slot.cell)
    (hsound : next.Sound i ask s.slot.cell) (hopen : next.isOpen = true → p.isOpen = true)
    (hperm : (call.toList ++ next.calls i).Perm (p.calls i ++ extra))
    (hother : Phase.Other i ask extra) :
    Inv asks ⟨slot, s.phases.set i next, s.told ++ call.toList, s.accepted⟩ := by
  have hcontents : slot.contents = s.slot.contents := congrArg Cell.value hcell
  refine ⟨?_, ?_, ?_⟩
  · show Ledger asks slot.contents s.accepted _
    rw [hcontents]
    refine (h.ledger.append_other fun c hc => ?_).of_perm (outgoing_step hp hperm slot s.accepted)
    obtain ⟨rfl, ht, hput⟩ := hother c hc
    simp [takesCall, putsCall, hi, ht, hput]
  · intro j ask' y hj hy
    show y.Sound j ask' slot.cell
    rw [hcell]
    rcases getElem?_set_cases hy with ⟨rfl, rfl⟩ | ⟨-, hy⟩
    · obtain rfl : ask' = ask := Option.some.inj (hj.symm.trans hi)
      exact hsound
    · exact h.sound j ask' y hj hy
  · intro j y hy hyo
    rcases getElem?_set_cases hy with ⟨rfl, rfl⟩ | ⟨-, hy⟩
    · exact h.fresh j p hp (hopen hyo)
    · exact h.fresh j y hy hyo

theorem Inv.write (h : Inv asks s) (hi : asks[i]? = some ask) (hp : s.phases[i]? = some p)
    {slot : Slot α Nat} {next : Phase α Nat} {c : Contents α Nat} (hopen : p.isOpen = true)
    (hcalls : p.calls i = []) (hclosed : next.isOpen = false)
    (hsound : next.Sound i ask slot.cell) (hcell : slot.cell = s.slot.cell.set c)
    (hw : Writes i s.slot.contents ask c (next.calls i)) :
    Inv asks ⟨slot, s.phases.set i next, s.told ++ [],
      s.accepted.record s.slot.contents i ask⟩ := by
  have hcontents : slot.contents = c := congrArg Cell.value hcell
  obtain ⟨ht, hput⟩ := h.fresh i p hp hopen
  refine ⟨?_, ?_, ?_⟩
  · show Ledger asks slot.contents _ _
    rw [hcontents]
    have hperm : ((none : Option (Call α Nat)).toList ++ next.calls i).Perm
        (p.calls i ++ next.calls i) := by simp [hcalls]
    exact (h.ledger.writes hi ht hput hw).of_perm (outgoing_step hp hperm _ _)
  · intro j ask' y hj hy
    rcases getElem?_set_cases hy with ⟨rfl, rfl⟩ | ⟨-, hy⟩
    · obtain rfl : ask' = ask := Option.some.inj (hj.symm.trans hi)
      exact hsound
    · show y.Sound j ask' slot.cell
      rw [hcell]
      exact (h.sound j ask' y hj hy).set c
  · intro j y hy hyo
    rcases getElem?_set_cases hy with ⟨rfl, rfl⟩ | ⟨hne, hy⟩
    · rw [hclosed] at hyo
      cases hyo
    · obtain ⟨ht, hput⟩ := h.fresh j y hy hyo
      refine ⟨fun hm => ?_, fun hm => ?_⟩
      · exact (Accepted.mem_takes_record hm).elim ht hne
      · exact (Accepted.mem_puts_record hm).elim hput hne

/-- Every atomic step keeps takes and puts matched. -/
theorem Inv.step (h : Inv asks s) (i : Nat) : Inv asks (s.step asks i) := by
  unfold Traffic.step
  cases hi : asks[i]? with
  | none => exact h
  | some ask =>
    cases hp : s.phases[i]? with
    | none => exact h
    | some p =>
      have hs := h.sound i ask p hi hp
      cases hw : p.writes s.slot with
      | true =>
        obtain ⟨hopen, hcalls, hnone, hclosed, hsound, c, hcell, hwrite⟩ := Phase.step_writes hs hw
        simp only [hw, hnone, if_true]
        exact h.write hi hp hopen hcalls hclosed hsound hcell hwrite
      | false =>
        obtain ⟨hcell, hsound, hopen, extra, hperm, hother⟩ := Phase.step_quiet hs hw
        simp only [hw, Bool.false_eq_true, if_false]
        exact h.quiet hi hp hcell hsound hopen hperm hother

theorem Inv.start (held : Option α) (cancelable : Bool) (asks : List (Ask α)) :
    Inv asks (Traffic.start held cancelable asks) := by
  have hphases : ∀ (j : Nat) (p : Phase α Nat),
      (asks.map fun _ => Phase.reading)[j]? = some p → p = .reading := by
    intro j p hp
    rw [List.getElem?_map] at hp
    obtain ⟨_, -, rfl⟩ := Option.map_eq_some_iff.1 hp
    rfl
  have hout : (Traffic.start held cancelable asks).outgoing = [] := by
    show [] ++ _ = []
    rw [List.nil_append, List.flatMap_eq_nil_iff]
    rintro ⟨p, j⟩ hm
    have hp := hphases j p (List.mem_zipIdx_iff_getElem?.1 hm)
    rw [hp]
    rfl
  have hputs : (held.toList.map fun a => ((none : Option Nat), a)).filterMap (·.1) = [] := by
    cases held <;> rfl
  refine ⟨?_, ?_, ?_⟩
  · rw [hout]
    refine ⟨.nil, ?_, by simp [Traffic.start], ?_, ?_, ?_, ?_⟩
    · exact hputs ▸ List.nodup_nil
    · intro i a hm
      cases held <;> simp [Traffic.start] at hm
    · exact .refl _
    · cases held <;> exact .refl _
    · cases held <;> simp [Traffic.start, Slot.new, Slot.contents, Contents.Agrees]
  · intro j ask p _ hp
    rw [hphases j p hp]
    trivial
  · intro j p _ _
    refine ⟨by simp [Traffic.start], ?_⟩
    show j ∉ (held.toList.map fun a => ((none : Option Nat), a)).filterMap (·.1)
    rw [hputs]
    exact List.not_mem_nil

theorem Inv.run {s : Traffic α} (h : Inv asks s) (order : List Nat) : Inv asks (s.run asks order) := by
  induction order generalizing s with
  | nil => exact h
  | cons i order ih => exact ih (h.step i)

/-- Takes and puts are served in the order in which they were accepted. -/
structure InOrder (asks : List (Ask α)) (s : Traffic α) : Prop where
  takes_once : s.accepted.takes.Nodup
  puts_once : (s.accepted.puts.filterMap (·.1)).Nodup
  /-- The take of a rank gets the value of the put of that rank, and nothing else. -/
  take_gets : ∀ {j i : Nat} {who : Option Nat} {a : α}, s.accepted.takes[j]? = some i →
    s.accepted.puts[j]? = some (who, a) → s.outgoing.filter (·.1 == i) = [(i, .value a)]
  /-- Whatever a take gets, it gets by its rank. -/
  take_ranked : ∀ call ∈ s.outgoing, takesCall asks call = true →
    ∃ (j : Nat) (who : Option Nat) (a : α), s.accepted.takes[j]? = some call.1 ∧
      s.accepted.puts[j]? = some (who, a) ∧ call.2 = .value a
  /-- A put returns once its value has gone to a taker or into the slot. -/
  put_returns : ∀ {j i : Nat} {a : α}, s.accepted.puts[j]? = some (some i, a) →
    j < s.accepted.takes.length ∨ j = s.accepted.takes.length →
    s.outgoing.filter (·.1 == i) = [(i, .room)]
  /-- And no put returns before. -/
  put_placed : ∀ call ∈ s.outgoing, putsCall asks call = true →
    ∃ (j : Nat) (a : α), s.accepted.puts[j]? = some (some call.1, a) ∧ call.2 = .room ∧
      (j < s.accepted.takes.length ∨
        j = s.accepted.takes.length ∧ s.slot.contents.held? = some a)
  /-- Whoever has not been matched is in the queue, in that order. -/
  waiting : s.slot.contents.Agrees asks s.accepted

theorem filter_zip {β γ : Type} [DecidableEq β] {l : List β} {r : List γ} {j : Nat} {x : β} {y : γ}
    (h : l.Nodup) (hx : l[j]? = some x) (hy : r[j]? = some y) :
    (l.zip r).filter (·.1 == x) = [(x, y)] := by
  induction l generalizing r j with
  | nil => simp at hx
  | cons z l ih =>
    obtain ⟨hz, hl⟩ := List.nodup_cons.1 h
    cases r with
    | nil => simp at hy
    | cons u r =>
      cases j with
      | zero =>
        obtain rfl : z = x := by simpa using hx
        obtain rfl : u = y := by simpa using hy
        have hrest : (l.zip r).filter (·.1 == z) = [] := by
          rw [List.filter_eq_nil_iff]
          rintro ⟨v, w⟩ hm hv
          obtain rfl : v = z := by simpa using hv
          exact hz (List.of_mem_zip hm).1
        simp [hrest]
      | succ j =>
        have hxl : l[j]? = some x := by simpa using hx
        have hne : (z == x) = false := by
          rw [beq_eq_false_iff_ne]
          rintro rfl
          exact hz (List.mem_of_getElem? hxl)
        simp [hne, ih hl hxl (by simpa using hy)]

/-- The calls of one operation are among those that the ledger lists. -/
theorem filter_own {p : Call α Nat → Bool} {out listed : List (Call α Nat)}
    (h : (out.filter p).Perm listed) (hi : ∀ notice, p (i, notice) = true) :
    (out.filter (·.1 == i)).Perm (listed.filter (·.1 == i)) := by
  have hsub : (out.filter p).filter (·.1 == i) = out.filter (·.1 == i) := by
    rw [List.filter_filter]
    refine List.filter_congr fun call _ => ?_
    cases hc : call.1 == i with
    | false => rfl
    | true =>
      obtain rfl := eq_of_beq hc
      exact Bool.and_eq_true_iff.2 ⟨rfl, hi call.2⟩
  rw [← hsub]
  exact h.filter _

theorem Inv.inOrder (h : Inv asks s) : InOrder asks s where
  takes_once := h.ledger.takes_nodup
  puts_once := h.ledger.puts_nodup
  take_gets := by
    intro j i who a hi hp
    have hask : ∀ notice, takesCall asks (i, notice) = true := by
      intro notice
      rcases h.ledger.takes_ask i (List.mem_of_getElem? hi) with hask | hask <;>
        simp [takesCall, hask, Ask.takes]
    have hown := filter_own h.ledger.received hask
    have hgiven : s.accepted.given.filter (·.1 == i) = [(i, .value a)] := by
      have hz := filter_zip h.ledger.takes_nodup hi hp
      rw [Accepted.given, List.filter_map]
      exact congrArg (List.map _) hz
    rw [hgiven] at hown
    exact List.perm_singleton.1 hown
  take_ranked := by
    intro call hm ht
    have hg := h.ledger.received.mem_iff.1 (List.mem_filter.2 ⟨hm, ht⟩)
    obtain ⟨⟨i, who, a⟩, hz, rfl⟩ := List.mem_map.1 hg
    obtain ⟨j, hj⟩ := List.mem_iff_getElem?.1 hz
    obtain ⟨hi, hp⟩ := List.getElem?_zip_eq_some.1 hj
    exact ⟨j, who, a, hi, hp, rfl⟩
  put_returns := by
    intro j i a hp hj
    have hask : ∀ notice, putsCall asks (i, notice) = true := by
      intro notice
      rcases h.ledger.puts_ask i a (List.mem_of_getElem? hp) with hask | hask <;>
        simp [putsCall, hask, Ask.puts]
    have hown := filter_own h.ledger.returned hask
    have hin : i ∈ s.accepted.placed.filterMap (·.1) := by
      refine List.mem_filterMap.2 ⟨(some i, a), ?_, rfl⟩
      have hlt : j < s.accepted.takes.length + 1 := by omega
      exact List.mem_of_getElem? ((List.getElem?_take_of_lt hlt).trans hp)
    have hnodup : (s.accepted.placed.filterMap (·.1)).Nodup :=
      h.ledger.puts_nodup.sublist ((List.take_sublist _ _).filterMap _)
    rw [Accepted.rooms_eq, List.filter_map] at hown
    have hone : (s.accepted.placed.filterMap (·.1)).filter (· == i) = [i] := by
      rw [List.filter_beq, List.count_eq_one_of_mem hnodup hin]
      rfl
    exact List.perm_singleton.1 (hown.trans (.of_eq (congrArg (List.map _) hone)))
  put_placed := by
    intro call hm hp
    have hr := h.ledger.returned.mem_iff.1 (List.mem_filter.2 ⟨hm, hp⟩)
    obtain ⟨⟨who, a⟩, hplaced, hcall⟩ := List.mem_filterMap.1 hr
    obtain ⟨i, rfl, rfl⟩ := Option.map_eq_some_iff.1 hcall
    obtain ⟨j, hj⟩ := List.mem_iff_getElem?.1 hplaced
    have hlt : j < s.accepted.takes.length + 1 :=
      Nat.lt_of_lt_of_le (List.getElem?_eq_some_iff.1 hj).1 (List.length_take_le _ _)
    have hget : s.accepted.puts[j]? = some (some i, a) := by
      rwa [Accepted.placed, List.getElem?_take_of_lt hlt] at hj
    refine ⟨j, a, hget, rfl, ?_⟩
    rcases Nat.lt_succ_iff_lt_or_eq.1 hlt with hlt | rfl
    · exact .inl hlt
    · exact .inr ⟨rfl, h.ledger.agrees.held hget⟩
  waiting := h.ledger.agrees

theorem run_inOrder (held : Option α) (cancelable : Bool) (asks : List (Ask α))
    (order : List Nat) : InOrder asks ((Traffic.start held cancelable asks).run asks order) :=
  ((Inv.start held cancelable asks).run order).inOrder

end Traffic
end Effects.MVar
