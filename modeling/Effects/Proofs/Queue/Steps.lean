import Effects.Proofs.Queue.Legal

/-!
What one step of a request does, as long as whatever it has seen before was so.
-/

namespace Effects.MVar.Queue

open Service History

variable {α : Type} [Datum α] {m : MVar α} {c : Shelf} {h : History} {s : Slots} {d : Deed} {n : Note}

/-- A waiter has not been accepted before it asks. -/
def Fresh (h : History) (d : Deed) : Prop :=
  ∀ l, Asking.callback? d.request = some l → l ∉ callbacks h

/-- A token belongs to a waiter that was queued. -/
inductive Known (h : History) : Deed → Prop
  | leave {id : Nat} {l : LatchId} (hj : ⟨id, l⟩ ∈ joined h) : Known h ⟨.leave id, some l⟩
  | other {r : Asking} (hr : ∀ id, r ≠ .leave id) : Known h ⟨r, none⟩

/-- Whoever is told a number has been queued. -/
def Reports (h : History) (d : Deed) (a : Reported) : Prop :=
  ∀ id, a = .queued id → ∃ l, Asking.callback? d.request = some l ∧ ⟨id, l⟩ ∈ joined h

def Sound (h : History) (s : Slots) (d : Deed) : Stage ⊕ Reported → Prop
  | .inl (.at .reading) | .inl (.at .enqueuing) => Fresh h d
  | .inl (.at (.writing seen next calls a)) =>
      Fresh h d ∧ seen.version ≤ s.cell.version ∧
        (seen.version = s.cell.version → d.request.serve s = (s, .writing seen next calls a))
  | .inl (.at (.joining seen next id)) =>
      Fresh h d ∧ seen.version ≤ s.cell.version ∧
        (seen.version = s.cell.version → d.request.joined? id s.contents = some next ∧
          id < s.nextId ∧ id ∉ (joined h).map (·.id))
  | .inl (.at (.notifying _ a)) => Reports h d a
  | .inl (.at (.done _)) => False
  | .inl (.waking _ a) => a = .flag true
  | .inr a => Reports h d a

/-- The calls that a request has yet to make. -/
def pending (d : Deed) : Stage ⊕ Reported → List Telling
  | .inl (.at (.notifying calls a)) =>
      calls.map (fun call => (call.1, told call.2)) ++
        ((d.wakes? a).map fun l => (l, interrupted)).toList
  | .inl (.waking l _) => [(l, interrupted)]
  | _ => []

/-- What a step of a request does. -/
structure Advance (c : Shelf) (h : History) (s : Slots) (d : Deed) (stage : Stage)
    (x : Slots × (Stage ⊕ Reported) × Told) (new : History) : Prop where
  notes : new = [] ∨ ∃ n, new = [n] ∧ Comes c h x.1.nextId n
  next : s.nextId ≤ x.1.nextId
  state : x.1.contents = (shelf c (h ++ new)).plain
  cell : x.1.cell = s.cell ∧ joined (h ++ new) = joined h ∨
    x.1.cell.version = s.cell.version + 1
  sound : Sound (h ++ new) x.1 d x.2.1
  calls : x.2.2.toList ++ pending d x.2.1 = pending d (.inl stage) ++ new.flatMap (Note.due (shelf c h))
  /-- Only the one who asks is accepted. -/
  own : ∀ l ∈ callbacks (h ++ new), l ∈ callbacks h ∨ Asking.callback? d.request = some l

/-- Nothing is done to the slot. -/
theorem Advance.quiet {stage : Stage} {x : Slots × (Stage ⊕ Reported) × Told}
    (hs : s.contents = (shelf c h).plain) (hcell : x.1.cell = s.cell) (hnext : s.nextId ≤ x.1.nextId)
    (hsound : Sound h x.1 d x.2.1)
    (hcalls : x.2.2.toList ++ pending d x.2.1 = pending d (.inl stage)) :
    Advance c h s d stage x [] where
  notes := .inl rfl
  next := hnext
  state := by
    rw [List.append_nil, ← hs]
    exact congrArg Cell.value hcell
  cell := .inl ⟨hcell, by rw [List.append_nil]⟩
  sound := by rwa [List.append_nil]
  calls := by simpa using hcalls
  own l hl := .inl (by rwa [List.append_nil] at hl)

/-- What reading the slot may lead to. -/
inductive Reads (r : Asking) (s : Slots) : Phase Value LatchId → Prop
  | writing {next : Contents Value LatchId} {calls : List (Call Value LatchId)} {a : Reported}
      (hr : ∀ l, r ≠ .read l) : Reads r s (.writing s.cell next calls a)
  | enqueuing (hr : (∀ l, r ≠ .read l) ∨ s.contents.held? = none) : Reads r s .enqueuing
  | done {a : Reported} (hr : ∀ l, r ≠ .read l) (ha : ∀ id, a ≠ .queued id)
      (hleave : a = .flag true → ∀ id, r ≠ .leave id) : Reads r s (.done a)
  | served {l : LatchId} {v : Value} (hr : r = .read l) (hv : s.contents.held? = some v) :
      Reads r s (.notifying [(l, .value v)] .served)

theorem serve_reads (r : Asking) (s : Slots) :
    ∃ phase, r.serve s = (s, phase) ∧ Reads r s phase := by
  cases r with
  | put a l =>
    simp only [Request.serve]
    cases s.contents.offer? a with
    | none => exact ⟨_, rfl, .enqueuing (.inl (by simp))⟩
    | some x => exact ⟨_, rfl, .writing (by simp)⟩
  | take l =>
    simp only [Request.serve]
    cases s.contents.poll? with
    | none => exact ⟨_, rfl, .enqueuing (.inl (by simp))⟩
    | some x => exact ⟨_, rfl, .writing (by simp)⟩
  | read l =>
    simp only [Request.serve]
    cases hv : s.contents.held? with
    | none => exact ⟨_, rfl, .enqueuing (.inr hv)⟩
    | some v => exact ⟨_, rfl, .served rfl hv⟩
  | tryPut a =>
    simp only [Request.serve]
    cases s.contents.offer? a with
    | none => exact ⟨_, rfl, .done (by simp) (by simp) (by simp)⟩
    | some x => exact ⟨_, rfl, .writing (by simp)⟩
  | tryTake =>
    simp only [Request.serve]
    cases s.contents.poll? with
    | none => exact ⟨_, rfl, .done (by simp) (by simp) (by simp)⟩
    | some x => exact ⟨_, rfl, .writing (by simp)⟩
  | tryRead => exact ⟨_, rfl, .done (by simp) (by simp) (by simp)⟩
  | isEmpty => exact ⟨_, rfl, .done (by simp) (by simp) (by simp)⟩
  | leave id =>
    simp only [Request.serve]
    cases s.contents.waiting id with
    | false => exact ⟨_, rfl, .done (by simp) (by simp) (by simp)⟩
    | true => exact ⟨_, rfl, .writing (by simp)⟩

theorem step_reading (m : MVar α) {phase : Phase Value LatchId}
    (hserve : d.request.serve s = (s, phase)) :
    (procedure m).step d (.at .reading) s = (s, (store m).after d phase, none) := by
  simp only [step_at, Phase.step, hserve]
  rfl

theorem note_reading (m : MVar α) (hr : (∀ l, d.request ≠ .read l) ∨ s.contents.held? = none) :
    (procedure m).note d (.at .reading) s = [] := by
  simp only [note_at, notesOf]
  obtain hr | hr := hr
  · cases hreq : d.request with
    | read l => exact absurd hreq (hr l)
    | _ => rfl
  · rw [hr]
    cases d.request <;> rfl

theorem reading (hs : s.contents = (shelf c h).plain) (hk : Known h d) (hf : Fresh h d) :
    Advance c h s d (.at .reading) ((procedure m).step d (.at .reading) s)
      ((procedure m).note d (.at .reading) s) := by
  obtain ⟨phase, hserve, hreads⟩ := serve_reads d.request s
  rw [step_reading m hserve]
  cases hreads with
  | writing hr =>
    rw [note_reading m (.inl hr)]
    exact .quiet hs rfl (Nat.le_refl _) ⟨hf, Nat.le_refl _, fun _ => hserve⟩ rfl
  | enqueuing hr =>
    rw [note_reading m hr]
    exact .quiet hs rfl (Nat.le_refl _) hf rfl
  | @done a hr ha hleave =>
    rw [note_reading m (.inl hr)]
    have hafter : (store m).after d (.done a) = .inr a := by
      have hwakes : d.wakes? a = none := by
        by_cases hflag : a = .flag true
        · cases hk with
          | @leave id l hj => exact absurd rfl (hleave hflag id)
          | other => simp [Deed.wakes?]
        · simp [Deed.wakes?, hflag]
      simp [Store.after, Store.answered, store, hwakes]
    rw [hafter]
    exact .quiet hs rfl (Nat.le_refl _) (fun id hid => absurd hid (ha id)) rfl
  | @served l v hr hv =>
    have hnote : (procedure m).note d (.at .reading) s = [.looked l] := by
      simp [note_at, notesOf, hr, hv]
    rw [hnote]
    rw [hs, Contents.plain_held?, Option.map_eq_some_iff] at hv
    obtain ⟨p, hp, rfl⟩ := hv
    have happly : Note.onto? (shelf c h) (.looked l) = some (shelf c h) := by
      simp [Note.onto?, hp]
    have hl : Asking.callback? d.request = some l := by rw [hr]
    refine ⟨.inr ⟨_, rfl, ?_, ?_, ?_⟩, Nat.le_refl _, ?_, .inl ⟨rfl, ?_⟩, ?_, ?_, ?_⟩
    · rw [happly]
      rfl
    · intro w hw
      cases hw
    · intro l' hl'
      obtain rfl : l' = l := by simpa [Note.joins, Note.asks] using hl'
      exact hf l' hl
    · rw [shelf_append]
      exact hs.trans (congrArg Contents.plain (Note.apply_eq happly).symm)
    · rw [joined_concat]
      exact List.append_nil _
    · intro id hid
      cases hid
    · have hwakes : d.wakes? .served = none := by simp [Deed.wakes?]
      simp [store, Store.after, pending, hwakes, Note.due, Note.calls, Note.serves, Note.answers,
        Note.leaves, hp, reply, plainNotice]
    · intro l' hl'
      rw [callbacks_concat] at hl'
      obtain hl' | hl' := List.mem_append.1 hl'
      · exact .inl hl'
      · obtain rfl : l' = l := by simpa [Note.joins, Note.asks] using hl'
        exact .inr hl

section Write

variable {seen : Cell (Contents Value LatchId)} {next : Contents Value LatchId}
  {calls : List (Call Value LatchId)} {a : Reported} {id : Nat}

theorem step_lost (m : MVar α) (d : Deed) (next : Contents Value LatchId)
    (calls : List (Call Value LatchId)) (a : Reported) (hv : s.cell.version ≠ seen.version) :
    (procedure m).step d (.at (.writing seen next calls a)) s = (s, .inl (.at .reading), none) ∧
      (procedure m).note d (.at (.writing seen next calls a)) s = [] := by
  have hset : s.cell.compareAndSet seen next = (s.cell, false) := by
    simp [Cell.compareAndSet, hv]
  constructor
  · simp only [step_at, Phase.step, hset]
    rfl
  · simp [note_at, notesOf, hset]

theorem step_won (m : MVar α) (d : Deed) (next : Contents Value LatchId)
    (calls : List (Call Value LatchId)) (a : Reported) (hv : s.cell.version = seen.version) :
    (procedure m).step d (.at (.writing seen next calls a)) s =
        ({ s with cell := s.cell.set next }, .inl (.at (.notifying calls a)), none) ∧
      (procedure m).note d (.at (.writing seen next calls a)) s = Asking.serving d.request := by
  have hset : s.cell.compareAndSet seen next = (s.cell.set next, true) := by
    simp [Cell.compareAndSet, hv]
  constructor
  · simp only [step_at, Phase.step, hset]
    rfl
  · simp [note_at, notesOf, hset]

/-- Whom a put that is accepted at once has to tell, itself in the end. -/
theorem due_offered {c' : Shelf} {v : Value} {x : Shelf × List (Call Parcel LatchId)}
    (who : Option LatchId) (ho : c'.offer? ⟨none, v⟩ = some x) :
    (x.2.map fun call => (call.1, plainNotice call.2)).map (fun call => (call.1, told call.2)) ++
      who.toList.map (fun l => (l, told .room)) = (Note.offered who v).due c' := by
  simp [Note.due, Note.calls, Note.serves_offered ho who, Note.answers, Note.leaves, reply,
    plainNotice, Function.comp_def]

/-- Whom a take that is accepted at once has to tell, itself in the end. -/
theorem due_polled {c' : Shelf} {x : Shelf × List (Call Parcel LatchId) × Parcel}
    (who : Option LatchId) (hp : c'.poll? = some x) :
    (x.2.1.map fun call => (call.1, plainNotice call.2)).map (fun call => (call.1, told call.2)) ++
      who.toList.map (fun l => (l, told (.value x.2.2.value))) = (Note.polled who).due c' := by
  obtain ⟨hserves, hheld⟩ := Note.serves_polled hp who
  simp [Note.due, Note.calls, hserves, hheld, Note.answers, Note.leaves, reply, plainNotice,
    Function.comp_def]

/-- What a request that is served at once does to the slot, and whom it has to tell. -/
theorem serving {c' : Shelf} {c₀ : Slots} (hs : s.contents = c'.plain) (hk : Known h d)
    (hleave : ∀ w ∈ joined h, c'.waiters.any (·.id == w.id) = true →
      c'.waiters.filter (·.id == w.id) = [w])
    (hserve : d.request.serve s = (c₀, .writing seen next calls a)) :
    ∃ n c'', Asking.serving d.request = [n] ∧ n.onto? c' = some c'' ∧ c''.plain = next ∧
      n.joins = [] ∧ (∀ l ∈ n.asks, Asking.callback? d.request = some l) ∧
      (∀ id, a ≠ .queued id) ∧
      calls.map (fun call => (call.1, told call.2)) ++
        ((d.wakes? a).map fun l => (l, interrupted)).toList = n.due c' := by
  cases hk with
  | @leave id l hj =>
    simp only [Request.serve, hs, Contents.plain_waiting] at hserve
    split at hserve
    case isFalse => cases hserve
    case isTrue hany =>
      cases hserve
      refine ⟨.removed id, c'.without id, rfl, ?_, (c'.plain_without id).symm, rfl, by simp [Note.asks],
        by simp, ?_⟩
      · simp [Note.onto?, hany]
      · simp [Deed.wakes?, Note.due, Note.calls, Note.serves, Note.answers, Note.leaves,
          hleave ⟨id, l⟩ hj hany]
  | @other r hr =>
    have hwakes : ∀ b, (⟨r, none⟩ : Deed).wakes? b = none := by simp [Deed.wakes?]
    rw [hwakes, Option.map_none, Option.toList_none, List.append_nil]
    cases r with
    | put v l | tryPut v =>
      simp only [Request.serve, hs, Contents.plain_offer?] at hserve
      cases ho : c'.offer? ⟨none, v⟩ with
      | none => simp [ho] at hserve
      | some x =>
        simp only [ho, Option.map_some] at hserve
        cases hserve
        refine ⟨_, x.1, rfl, ?_, rfl, rfl, by simp [Note.asks], by simp, ?_⟩
        · simp [Note.onto?, ho]
        · rw [← due_offered _ ho]
          simp
    | take l | tryTake =>
      simp only [Request.serve, hs, Contents.plain_poll?] at hserve
      cases hp : c'.poll? with
      | none => simp [hp] at hserve
      | some x =>
        simp only [hp, Option.map_some] at hserve
        cases hserve
        refine ⟨_, x.1, rfl, ?_, rfl, rfl, by simp [Note.asks], by simp, ?_⟩
        · simp [Note.onto?, hp]
        · rw [← due_polled _ hp]
          simp
    | read l =>
      simp only [Request.serve] at hserve
      cases hv : s.contents.held? <;> rw [hv] at hserve <;> cases hserve
    | leave id => exact absurd rfl (hr id)
    | _ => cases hserve

/-- The write succeeds. -/
theorem writes (hh : Legal c h s.nextId) (hs : s.contents = (shelf c h).plain) (hk : Known h d)
    (hf : Fresh h d) (hv : s.cell.version = seen.version)
    (hserve : d.request.serve s = (s, .writing seen next calls a)) :
    Advance c h s d (.at (.writing seen next calls a))
      ((procedure m).step d (.at (.writing seen next calls a)) s)
      ((procedure m).note d (.at (.writing seen next calls a)) s) := by
  obtain ⟨hstep, hnote⟩ := step_won m d next calls a hv
  obtain ⟨n, c', hserving, happly, hplain, hjoins, hasks, ha, hcalls⟩ :=
    serving hs hk (fun w hw => hh.filter_waiters hw) hserve
  have haccepts : n.joins.map (·.callback) ++ n.asks = n.asks := by rw [hjoins]; rfl
  rw [hstep, hnote, hserving]
  refine ⟨.inr ⟨n, rfl, ?_, ?_, ?_⟩, Nat.le_refl _, ?_, .inr rfl, ?_, ?_, ?_⟩
  · rw [happly]
    rfl
  · intro w hw
    rw [hjoins] at hw
    cases hw
  · intro l hl
    rw [haccepts] at hl
    exact hf l (hasks l hl)
  · rw [shelf_append]
    have hshelf : shelf (shelf c h) [n] = c' := Note.apply_eq happly
    rw [hshelf, hplain]
    rfl
  · exact fun id hid => absurd hid (ha id)
  · rw [List.flatMap_singleton, ← hcalls]
    rfl
  · intro l hl
    rw [callbacks_concat, haccepts] at hl
    exact (List.mem_append.1 hl).imp_right (hasks l)

end Write

section Join

variable {seen : Cell (Contents Value LatchId)} {next : Contents Value LatchId} {id : Nat}

theorem join_lost (m : MVar α) (d : Deed) (next : Contents Value LatchId) (id : Nat)
    (hv : s.cell.version ≠ seen.version) :
    (procedure m).step d (.at (.joining seen next id)) s = (s, .inl (.at .reading), none) ∧
      (procedure m).note d (.at (.joining seen next id)) s = [] := by
  have hset : s.cell.compareAndSet seen next = (s.cell, false) := by
    simp [Cell.compareAndSet, hv]
  constructor
  · simp only [step_at, Phase.step, hset]
    rfl
  · simp [note_at, notesOf, hset]

theorem join_won (m : MVar α) (d : Deed) (next : Contents Value LatchId) (id : Nat)
    (hv : s.cell.version = seen.version) :
    (procedure m).step d (.at (.joining seen next id)) s =
        ({ s with cell := s.cell.set next }, .inr (.queued id), none) ∧
      (procedure m).note d (.at (.joining seen next id)) s = Asking.queuing id d.request := by
  have hset : s.cell.compareAndSet seen next = (s.cell.set next, true) := by
    simp [Cell.compareAndSet, hv]
  constructor
  · have hwakes : d.wakes? (.queued id) = none := by simp [Deed.wakes?]
    simp [step_at, Phase.step, hset, Store.after, Store.answered, store, hwakes]
  · simp [note_at, notesOf, hset]

/-- What a request that is queued does to the slot. -/
theorem queuing {c' : Shelf} (hs : s.contents = c'.plain)
    (hjoin : d.request.joined? id s.contents = some next) :
    ∃ n c'' l, Asking.queuing id d.request = [n] ∧ n.onto? c' = some c'' ∧ c''.plain = next ∧
      n.joins = [⟨id, l⟩] ∧ n.asks = [] ∧ Asking.callback? d.request = some l ∧ n.due c' = [] := by
  rw [hs] at hjoin
  cases hr : d.request with
  | put v l =>
    rw [hr] at hjoin
    have hjoin : c'.plain.withPutter? (⟨some id, v⟩ : Parcel).value ⟨id, l⟩ = some next := hjoin
    rw [Contents.plain_withPutter?] at hjoin
    obtain ⟨c'', hc, rfl⟩ := Option.map_eq_some_iff.1 hjoin
    exact ⟨.queued id l (.room v), c'', l, rfl, hc, rfl, rfl, rfl, rfl, rfl⟩
  | take l =>
    rw [hr] at hjoin
    have hjoin : c'.plain.withTaker? ⟨id, l⟩ = some next := hjoin
    rw [Contents.plain_withTaker?] at hjoin
    obtain ⟨c'', hc, rfl⟩ := Option.map_eq_some_iff.1 hjoin
    exact ⟨.queued id l .value, c'', l, rfl, hc, rfl, rfl, rfl, rfl, rfl⟩
  | read l =>
    rw [hr] at hjoin
    have hjoin : c'.plain.withReader? ⟨id, l⟩ = some next := hjoin
    rw [Contents.plain_withReader?] at hjoin
    obtain ⟨c'', hc, rfl⟩ := Option.map_eq_some_iff.1 hjoin
    exact ⟨.queued id l .look, c'', l, rfl, hc, rfl, rfl, rfl, rfl, rfl⟩
  | _ =>
    rw [hr] at hjoin
    cases hjoin

/-- The request is queued. -/
theorem joins (hs : s.contents = (shelf c h).plain) (hf : Fresh h d)
    (hv : s.cell.version = seen.version) (hjoin : d.request.joined? id s.contents = some next)
    (hlt : id < s.nextId) (hid : id ∉ (joined h).map (·.id)) :
    Advance c h s d (.at (.joining seen next id))
      ((procedure m).step d (.at (.joining seen next id)) s)
      ((procedure m).note d (.at (.joining seen next id)) s) := by
  obtain ⟨hstep, hnote⟩ := join_won m d next id hv
  obtain ⟨n, c', l, hqueuing, happly, hplain, hjoins, hasks, hl, hdue⟩ := queuing hs hjoin
  have haccepts : n.joins.map (·.callback) ++ n.asks = [l] := by rw [hjoins, hasks]; rfl
  rw [hstep, hnote, hqueuing]
  refine ⟨.inr ⟨n, rfl, ?_, ?_, ?_⟩, Nat.le_refl _, ?_, .inr rfl, ?_, ?_, ?_⟩
  · rw [happly]
    rfl
  · intro w hw
    rw [hjoins] at hw
    obtain rfl := List.mem_singleton.1 hw
    exact ⟨hlt, hid⟩
  · intro l' hl'
    rw [haccepts] at hl'
    obtain rfl := List.mem_singleton.1 hl'
    exact hf _ hl
  · rw [shelf_append]
    have hshelf : shelf (shelf c h) [n] = c' := Note.apply_eq happly
    rw [hshelf, hplain]
    rfl
  · intro id' hid'
    obtain rfl := Answer.queued.inj hid'
    refine ⟨l, hl, ?_⟩
    rw [joined_concat, hjoins]
    exact List.mem_append_right _ (List.mem_singleton_self _)
  · rw [List.flatMap_singleton, hdue]
    rfl
  · intro l' hl'
    rw [callbacks_concat, haccepts] at hl'
    refine (List.mem_append.1 hl').imp_right fun hm => ?_
    rw [List.mem_singleton.1 hm]
    exact hl

theorem enqueuing (hh : Legal c h s.nextId) (hs : s.contents = (shelf c h).plain) (hf : Fresh h d) :
    Advance c h s d (.at .enqueuing) ((procedure m).step d (.at .enqueuing) s)
      ((procedure m).note d (.at .enqueuing) s) := by
  have hnote : (procedure m).note d (.at .enqueuing) s = [] := rfl
  have hid : s.nextId ∉ (joined h).map (·.id) := by
    intro hm
    obtain ⟨w, hw, heq⟩ := List.mem_map.1 hm
    exact Nat.lt_irrefl _ (heq ▸ hh.ids w hw)
  rw [hnote]
  cases hjoin : d.request.joined? s.nextId s.contents with
  | none =>
    have hstep : (procedure m).step d (.at .enqueuing) s = (s, .inl (.at .reading), none) := by
      simp only [step_at, Phase.step, Request.enqueue, hjoin]
      rfl
    rw [hstep]
    exact .quiet hs rfl (Nat.le_refl _) hf rfl
  | some next =>
    have hstep : (procedure m).step d (.at .enqueuing) s =
        ({ s with nextId := s.nextId + 1 }, .inl (.at (.joining s.cell next s.nextId)), none) := by
      simp only [step_at, Phase.step, Request.enqueue, hjoin]
      rfl
    rw [hstep]
    exact .quiet hs rfl (Nat.le_succ _)
      ⟨hf, Nat.le_refl _, fun _ => ⟨hjoin, Nat.lt_succ_self _, hid⟩⟩ rfl

end Join

/-- Every step of a request does what it reports, and nothing else. -/
theorem step_advances {stage : Stage} (hh : Legal c h s.nextId) (hs : s.contents = (shelf c h).plain)
    (hk : Known h d) (hsound : Sound h s d (.inl stage)) :
    Advance c h s d stage ((procedure m).step d stage s) ((procedure m).note d stage s) := by
  cases stage with
  | waking l a =>
    obtain rfl : a = .flag true := hsound
    exact .quiet hs rfl (Nat.le_refl _) (fun id hid => by cases hid) rfl
  | «at» phase =>
    cases phase with
    | reading => exact reading hs hk hsound
    | enqueuing => exact enqueuing hh hs hsound
    | writing seen next calls a =>
      obtain ⟨hf, -, hserve⟩ := hsound
      by_cases hv : s.cell.version = seen.version
      · exact writes hh hs hk hf hv (hserve hv.symm)
      · obtain ⟨hstep, hnote⟩ := step_lost m d next calls a hv
        rw [hstep, hnote]
        exact .quiet hs rfl (Nat.le_refl _) hf rfl
    | joining seen next id =>
      obtain ⟨hf, -, hjoin⟩ := hsound
      by_cases hv : s.cell.version = seen.version
      · obtain ⟨hjoin, hlt, hid⟩ := hjoin hv.symm
        exact joins hs hf hv hjoin hlt hid
      · obtain ⟨hstep, hnote⟩ := join_lost m d next id hv
        rw [hstep, hnote]
        exact .quiet hs rfl (Nat.le_refl _) hf rfl
    | notifying calls a =>
      cases calls with
      | cons call rest => exact .quiet hs rfl (Nat.le_refl _) hsound rfl
      | nil =>
        have hstep : (procedure m).step d (.at (.notifying [] a)) s =
            (s, (store m).answered d a, none) := rfl
        have hnote : (procedure m).note d (.at (.notifying [] a)) s = [] := rfl
        rw [hstep, hnote]
        cases hw : d.wakes? a with
        | none =>
          have hanswered : (store m).answered d a = .inr a := by simp [Store.answered, store, hw]
          rw [hanswered]
          exact .quiet hs rfl (Nat.le_refl _) hsound (by simp [pending, hw])
        | some l =>
          have hanswered : (store m).answered d a = .inl (.waking l a) := by
            simp [Store.answered, store, hw]
          have ha : a = .flag true := by
            by_contra hne
            simp [Deed.wakes?, hne] at hw
          rw [hanswered]
          exact .quiet hs rfl (Nat.le_refl _) ha (by simp [pending, hw])
    | done a => exact hsound.elim

end Effects.MVar.Queue
