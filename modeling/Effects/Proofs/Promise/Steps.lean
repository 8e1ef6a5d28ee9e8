import Effects.Proofs.Promise.History

/-!
What one step of a request does, as long as whatever it has seen before was so.
-/

namespace Effects.Promise

open Service History

variable {ε α : Type} [Datum ε] [Datum α] {p : Promise ε α} {h : History} {s : Promises} {d : Deed}
  {n : Note} {next : Nat}

theorem History.state_cases (hh : Legal h next) :
    (h.resolutions = [] ∧ h.state = .pending h.waiting) ∨
      ∃ r, h.resolutions = [r] ∧ h.state = .resolved r := by
  have honce := hh.once
  unfold History.state
  generalize h.resolutions = rs at honce ⊢
  rcases rs with _ | ⟨r, _ | ⟨r', rest⟩⟩
  · exact .inl ⟨rfl, rfl⟩
  · exact .inr ⟨r, rfl, rfl⟩
  · simp at honce

/-- A getter has not been accepted before it asks. -/
def Fresh (h : History) : Deed → Prop
  | .get l => l ∉ h.callbacks
  | _ => True

/-- A token belongs to a getter that was queued. -/
def Known (h : History) : Deed → Prop
  | .leave id l => ⟨id, l⟩ ∈ h.joined
  | _ => True

/-- What a request is about to write, as long as nothing has been written meanwhile. -/
inductive Plan (h : History) (next : Nat) :
    Deed → State Value Value LatchId → List (Call Value Value LatchId) → Reported → Prop
  | resolve {r : Resolution} (hr : h.resolutions = []) :
      Plan h next (.resolve r) (.resolved r) (h.waiting.map fun j => (j.callback, r)) (.flag true)
  | get {id : Nat} {l : LatchId} (hr : h.resolutions = []) (hid : id ∉ h.joined.map (·.id))
      (hlt : id < next) :
      Plan h next (.get l) (.pending (h.waiting ++ [⟨id, l⟩])) [] (.queued id)
  | leave {id : Nat} {l : LatchId} (hr : h.resolutions = []) (hw : ⟨id, l⟩ ∈ h.waiting) :
      Plan h next (.leave id l) (.pending (h.waiting.filter (·.id != id))) [] (.flag true)

/-- What an answer says of the promise. -/
inductive Reports (h : History) : Deed → Reported → Prop
  | won {r : Resolution} (hr : h.resolutions = [r]) : Reports h (.resolve r) (.flag true)
  | lost {r r' : Resolution} (hr : h.resolutions = [r']) : Reports h (.resolve r) (.flag false)
  | queued {id : Nat} {l : LatchId} (hj : ⟨id, l⟩ ∈ h.joined) : Reports h (.get l) (.queued id)
  | served {l : LatchId} (hl : l ∈ h.late) : Reports h (.get l) .served
  | nothing : Reports h .tryGet (.resolution none)
  | found {r : Resolution} (hr : h.resolutions = [r]) : Reports h .tryGet (.resolution (some r))
  | removed {id : Nat} {l : LatchId} (hm : id ∈ h.removed) : Reports h (.leave id l) (.flag true)
  | missed {id : Nat} {l : LatchId} : Reports h (.leave id l) (.flag false)

def Sound (h : History) (s : Promises) (d : Deed) : Stage ⊕ Reported → Prop
  | .inl (.at .reading) => Fresh h d
  | .inl (.at (.writing seen next calls a)) =>
      Fresh h d ∧ seen.version ≤ s.cell.version ∧
        (seen.version = s.cell.version → Plan h s.nextId d next calls a)
  | .inl (.at (.notifying _ a)) => Reports h d a
  | .inl (.at (.done _)) => False
  | .inl (.waking l a) => a = .flag true ∧ ∃ id, d = .leave id l ∧ id ∈ h.removed
  | .inr a => Reports h d a

/-- The calls that a request has yet to make. -/
def pending (d : Deed) : Stage ⊕ Reported → List Telling
  | .inl (.at (.notifying calls a)) =>
      calls.map (fun call => (call.1, told call.2)) ++
        ((d.wakes? a).map fun l => (l, interrupted)).toList
  | .inl (.waking l _) => [(l, interrupted)]
  | _ => []

/-- Whether it is this request that has resolved the promise. -/
def hasWon : Deed → Stage ⊕ Reported → Bool
  | .resolve _, .inl (.at (.notifying _ a)) => a.isTrue
  | .resolve _, .inr a => a.isTrue
  | _, _ => false

/-- What a step of a request does. -/
structure Advance (h : History) (s : Promises) (d : Deed) (stage : Stage)
    (x : Promises × (Stage ⊕ Reported) × Told) (new : History) : Prop where
  notes : new = [] ∨ ∃ n, new = [n] ∧ Comes h x.1.nextId n
  next : s.nextId ≤ x.1.nextId
  state : x.1.state = (h ++ new).state
  cell : x.1.cell = s.cell ∧ (new = [] ∨ h.resolutions ≠ []) ∨
    x.1.cell.version = s.cell.version + 1
  sound : Sound (h ++ new) x.1 d x.2.1
  calls : x.2.2.toList ++ pending d x.2.1 = pending d (.inl stage) ++ new.flatMap (due h)
  /-- Only the getter itself is accepted. -/
  own : ∀ l, Fresh h (.get l) → ¬ Fresh (h ++ new) (.get l) → d = .get l
  won : hasWon d x.2.1 = true ↔ hasWon d (.inl stage) = true ∨ ∃ r, .resolved r ∈ new
  resolver : ∀ r, .resolved r ∈ new → d = .resolve r
  still : h.resolutions ≠ [] → x.1 = s

/-- Nothing is done to the promise. -/
theorem Advance.quiet {stage : Stage} {x : Promises × (Stage ⊕ Reported) × Told}
    (hs : s.state = h.state) (hcell : x.1.cell = s.cell) (hnext : s.nextId ≤ x.1.nextId)
    (hstill : h.resolutions ≠ [] → x.1 = s) (hsound : Sound h x.1 d x.2.1)
    (hcalls : x.2.2.toList ++ pending d x.2.1 = pending d (.inl stage))
    (hwon : hasWon d x.2.1 = hasWon d (.inl stage)) : Advance h s d stage x [] where
  notes := .inl rfl
  next := hnext
  state := by
    rw [List.append_nil, ← hs]
    exact congrArg Cell.value hcell
  cell := .inl ⟨hcell, .inl rfl⟩
  sound := by rwa [List.append_nil]
  calls := by simpa using hcalls
  own := by
    intro l hf hn
    rw [List.append_nil] at hn
    exact absurd hf hn
  won := by simp [hwon]
  resolver := by simp
  still := hstill

section Serve

variable {js : List (Joiner LatchId)} {r r' : Resolution} {l : LatchId} {id : Nat}

theorem serve_resolve (hs : s.state = .pending js) :
    (Deed.resolve r).request.serve s =
      (s, .writing s.cell (.resolved r) (js.map fun j => (j.callback, r)) (.flag true)) := by
  cases r <;> simp [Deed.request, Request.serve, Request.resolve, hs]

theorem serve_resolve_late (hs : s.state = .resolved r') :
    (Deed.resolve r).request.serve s = (s, .done (.flag false)) := by
  cases r <;> cases r' <;> simp [Deed.request, Request.serve, Request.resolve, hs, State.resolved]

theorem serve_get_late (hs : s.state = .resolved r) :
    (Deed.get l).request.serve s = (s, .notifying [(l, r)] .served) := by
  cases r <;> simp [Deed.request, Request.serve, hs, State.resolved]

theorem serve_leave_late (hs : s.state = .resolved r) :
    (Deed.leave id l).request.serve s = (s, .done (.flag false)) := by
  cases r <;> simp [Deed.request, Request.serve, hs, State.resolved]

end Serve

theorem step_reading (p : Promise ε α) {s' : Promises} {phase : Phase Value Value LatchId}
    (hserve : d.request.serve s = (s', phase)) :
    (procedure p).step d (.at .reading) s = (s', (store p).after d phase, none) := by
  simp only [step_at, Phase.step, hserve]
  rfl

theorem note_reading (p : Promise ε α) (hs : s.state.resolution? = none ∨ ∀ l, d ≠ .get l) :
    (procedure p).note d (.at .reading) s = [] := by
  simp only [note_at, Phase.notes]
  obtain hs | hd := hs
  · rw [hs]
    cases d.request <;> rfl
  · cases d with
    | get l => exact absurd rfl (hd l)
    | resolve r => cases r <;> rfl
    | _ => rfl

theorem reading_pending (hh : Legal h s.nextId) (hs : s.state = h.state) (hk : Known h d)
    (hf : Fresh h d) (hr : h.resolutions = []) (hw : h.state = .pending h.waiting) :
    Advance h s d (.at .reading) ((procedure p).step d (.at .reading) s)
      ((procedure p).note d (.at .reading) s) := by
  have hpending : s.state = .pending h.waiting := hs.trans hw
  rw [note_reading p (.inl (by rw [hpending]; rfl))]
  cases d with
  | resolve r =>
    rw [step_reading p (serve_resolve hpending)]
    exact .quiet hs rfl (Nat.le_refl _) (fun _ => rfl) ⟨hf, Nat.le_refl _, fun _ => .resolve hr⟩ rfl rfl
  | tryGet =>
    have hserve : Deed.tryGet.request.serve s = (s, .done (.resolution none)) := by
      simp [Deed.request, Request.serve, hpending, State.resolution?]
    rw [step_reading p hserve]
    exact .quiet hs rfl (Nat.le_refl _) (fun _ => rfl) .nothing rfl rfl
  | get l =>
    have hserve : (Deed.get l).request.serve s =
        ({ s with nextId := s.nextId + 1 },
          .writing s.cell (.pending (h.waiting ++ [⟨s.nextId, l⟩])) [] (.queued s.nextId)) := by
      simp [Deed.request, Request.serve, hpending]
    have hid : s.nextId ∉ h.joined.map (·.id) := by
      intro hm
      obtain ⟨j, hj, he⟩ := List.mem_map.1 hm
      exact Nat.lt_irrefl _ (he ▸ hh.ids j hj)
    rw [step_reading p hserve]
    exact .quiet hs rfl (Nat.le_succ _) (fun h => absurd hr h)
      ⟨hf, Nat.le_refl _, fun _ => .get hr hid (Nat.lt_succ_self _)⟩ rfl rfl
  | leave id l =>
    by_cases hany : h.waiting.any (·.id == id) = true
    · have hserve : (Deed.leave id l).request.serve s =
          (s, .writing s.cell (.pending (h.waiting.filter (·.id != id))) [] (.flag true)) := by
        simp [Deed.request, Request.serve, hpending, hany]
      obtain ⟨j, hj, he⟩ := List.any_eq_true.1 hany
      obtain rfl : j = ⟨id, l⟩ := hh.joined_eq (mem_waiting.1 hj).1 hk (eq_of_beq he)
      rw [step_reading p hserve]
      exact .quiet hs rfl (Nat.le_refl _) (fun _ => rfl) ⟨hf, Nat.le_refl _, fun _ => .leave hr hj⟩ rfl rfl
    · have hserve : (Deed.leave id l).request.serve s = (s, .done (.flag false)) := by
        simp [Deed.request, Request.serve, hpending, hany]
      rw [step_reading p hserve]
      exact .quiet hs rfl (Nat.le_refl _) (fun _ => rfl) .missed rfl rfl

theorem reading_resolved {r : Resolution} (hs : s.state = h.state) (hf : Fresh h d)
    (hr : h.resolutions = [r]) (hw : h.state = .resolved r) :
    Advance h s d (.at .reading) ((procedure p).step d (.at .reading) s)
      ((procedure p).note d (.at .reading) s) := by
  have hresolved : s.state = .resolved r := hs.trans hw
  cases d with
  | resolve r' =>
    rw [note_reading p (.inr (by simp)), step_reading p (serve_resolve_late hresolved)]
    exact .quiet hs rfl (Nat.le_refl _) (fun _ => rfl) (.lost hr) rfl rfl
  | tryGet =>
    have hserve : Deed.tryGet.request.serve s = (s, .done (.resolution (some r))) := by
      simp [Deed.request, Request.serve, hresolved, State.resolution?_resolved]
    rw [note_reading p (.inr (by simp)), step_reading p hserve]
    exact .quiet hs rfl (Nat.le_refl _) (fun _ => rfl) (.found hr) rfl rfl
  | leave id l =>
    rw [note_reading p (.inr (by simp)), step_reading p (serve_leave_late hresolved)]
    exact .quiet hs rfl (Nat.le_refl _) (fun _ => rfl) .missed rfl rfl
  | get l =>
    have hnote : (procedure p).note (.get l) (.at .reading) s = [.served l r] := by
      simp [note_at, Phase.notes, Deed.request, hresolved, State.resolution?_resolved]
    rw [hnote, step_reading p (serve_get_late hresolved)]
    refine ⟨.inr ⟨_, rfl, .served hr hf⟩, Nat.le_refl _, hs.trans (state_served h l r).symm,
      .inl ⟨rfl, .inr (by simp [hr])⟩, .served (by simp [late]), rfl, ?_, by simp [hasWon], by simp,
      fun _ => rfl⟩
    intro l' hf' hn
    obtain rfl : l' = l := by
      by_contra hne
      refine hn ?_
      simp only [Fresh, callbacks, joined, late, List.filterMap_append] at hf' ⊢
      simpa [hne] using hf'
    rfl

section Write

variable {seen : Cell (State Value Value LatchId)} {state : State Value Value LatchId}
  {calls : List (Call Value Value LatchId)} {a : Reported}

theorem step_lost (state : State Value Value LatchId) (calls : List (Call Value Value LatchId))
    (a : Reported) (p : Promise ε α) (d : Deed) (hv : s.cell.version ≠ seen.version) :
    (procedure p).step d (.at (.writing seen state calls a)) s = (s, .inl (.at .reading), none) ∧
      (procedure p).note d (.at (.writing seen state calls a)) s = [] := by
  have hset : s.cell.compareAndSet seen state = (s.cell, false) := by
    simp [Cell.compareAndSet, hv]
  constructor
  · simp only [step_at, Phase.step, hset]
    rfl
  · simp [note_at, Phase.notes, hset]

theorem step_won (p : Promise ε α) (d : Deed) (hv : s.cell.version = seen.version) :
    (procedure p).step d (.at (.writing seen state calls a)) s =
      ({ s with cell := s.cell.set state }, .inl (.at (.notifying calls a)), none) := by
  have hset : s.cell.compareAndSet seen state = (s.cell.set state, true) := by
    simp [Cell.compareAndSet, hv]
  simp only [step_at, Phase.step, hset]
  rfl

/-- The write succeeds. -/
theorem writes (hh : Legal h s.nextId) (hk : Known h d) (hf : Fresh h d)
    (hv : s.cell.version = seen.version) (hplan : Plan h s.nextId d state calls a) :
    Advance h s d (.at (.writing seen state calls a))
      ((procedure p).step d (.at (.writing seen state calls a)) s)
      ((procedure p).note d (.at (.writing seen state calls a)) s) := by
  have hset : (s.cell.compareAndSet seen state).2 = true := by simp [Cell.compareAndSet, hv]
  rw [step_won p d hv]
  cases hplan with
  | @resolve r hr =>
    have hnote : (procedure p).note (.resolve r) (.at (.writing seen (.resolved r)
        (h.waiting.map fun j => (j.callback, r)) (.flag true))) s = [.resolved r] := by
      cases r <;> simp [note_at, Phase.notes, Deed.request, hset]
    rw [hnote]
    refine ⟨.inr ⟨_, rfl, .resolved hr⟩, Nat.le_refl _, (state_resolved h r hr).symm,
      .inr rfl, .won ?_, ?_, ?_, by simp [hasWon, Answer.isTrue], by simp,
      fun h => absurd hr h⟩
    · rw [resolutions_append, hr]
      rfl
    · simp [pending, Deed.wakes?, due]
    · intro l hf' hn
      refine absurd ?_ hn
      simpa [Fresh, callbacks, joined, late] using hf'
  | @get id l hr hid hlt =>
    have hnote : (procedure p).note (.get l) (.at (.writing seen
        (.pending (h.waiting ++ [⟨id, l⟩])) [] (.queued id))) s = [.queued id l] := by
      simp [note_at, Phase.notes, Deed.request, hset]
    have hout : id ∉ h.removed := fun hm => hid (hh.removed_joined id hm)
    rw [hnote]
    refine ⟨.inr ⟨_, rfl, .queued hr hid hlt hf⟩, Nat.le_refl _,
      (state_queued h id l hr hout).symm, .inr rfl, .queued ?_, rfl, ?_,
      by simp [hasWon], by simp, fun h => absurd hr h⟩
    · rw [joined_append]
      exact List.mem_append_right _ (List.mem_singleton_self _)
    · intro l' hf' hn
      obtain rfl : l' = l := by
        by_contra hne
        refine hn ?_
        simp only [Fresh, callbacks, joined, late, List.filterMap_append] at hf' ⊢
        simpa [hne] using hf'
      rfl
  | @leave id l hr hw =>
    have hnote : (procedure p).note (.leave id l) (.at (.writing seen
        (.pending (h.waiting.filter (·.id != id))) [] (.flag true))) s = [.removed id] := by
      simp [note_at, Phase.notes, Deed.request, hset]
    rw [hnote]
    refine ⟨.inr ⟨_, rfl, .removed hr hw⟩, Nat.le_refl _, (state_removed h id hr).symm, .inr rfl,
      .removed ?_, ?_, ?_, by simp [hasWon], by simp, fun h => absurd hr h⟩
    · rw [removed_append]
      exact List.mem_append_right _ (List.mem_singleton_self _)
    · simp [pending, Deed.wakes?, hh.due_removed hw]
    · intro l hf' hn
      refine absurd ?_ hn
      simpa [Fresh, callbacks, joined, late] using hf'

end Write

/-- Every step of a request does what it reports, and nothing else. -/
theorem step_advances {stage : Stage} (hh : Legal h s.nextId) (hs : s.state = h.state)
    (hk : Known h d) (hsound : Sound h s d (.inl stage)) :
    Advance h s d stage ((procedure p).step d stage s) ((procedure p).note d stage s) := by
  cases stage with
  | waking l a =>
    obtain ⟨rfl, id, rfl, hm⟩ := hsound
    exact .quiet hs rfl (Nat.le_refl _) (fun _ => rfl) (.removed hm) rfl rfl
  | «at» phase =>
    cases phase with
    | reading =>
      obtain ⟨hr, hw⟩ | ⟨r, hr, hw⟩ := state_cases hh
      · exact reading_pending hh hs hk hsound hr hw
      · exact reading_resolved hs hsound hr hw
    | writing seen state calls a =>
      obtain ⟨hf, hle, hplan⟩ := hsound
      by_cases hv : s.cell.version = seen.version
      · exact writes hh hk hf hv (hplan hv.symm)
      · obtain ⟨hstep, hnote⟩ := step_lost state calls a p d hv
        rw [hstep, hnote]
        exact .quiet hs rfl (Nat.le_refl _) (fun _ => rfl) hf rfl (by cases d <;> rfl)
    | notifying calls a =>
      cases calls with
      | cons call rest => exact .quiet hs rfl (Nat.le_refl _) (fun _ => rfl) hsound rfl (by cases d <;> rfl)
      | nil =>
        have hstep : (procedure p).step d (.at (.notifying [] a)) s = (s, (store p).answered d a, none) := rfl
        rw [hstep]
        cases hw : d.wakes? a with
        | none =>
          have hanswered : (store p).answered d a = .inr a := by simp [Store.answered, store, hw]
          rw [hanswered]
          exact .quiet hs rfl (Nat.le_refl _) (fun _ => rfl) hsound (by simp [pending, hw]) (by cases d <;> rfl)
        | some l =>
          have hanswered : (store p).answered d a = .inl (.waking l a) := by simp [Store.answered, store, hw]
          rw [hanswered]
          refine .quiet hs rfl (Nat.le_refl _) (fun _ => rfl) ?_ (by simp [pending, hw]) ?_
          · have hreports : Reports h d a := hsound
            cases hreports with
            | @removed id l' hm =>
              obtain rfl := Option.some.inj hw
              exact ⟨rfl, id, rfl, hm⟩
            | _ => cases hw
          · cases d with
            | resolve r => cases hw
            | _ => rfl
    | done a => exact hsound.elim

end Effects.Promise
