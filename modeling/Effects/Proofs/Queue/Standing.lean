import Effects.Proofs.Queue.Steps
import Effects.Proofs.Service.Account

/-!
What holds of a slot and of all requests that have been made of it.
-/

namespace Effects.MVar.Queue

open Service History

variable {α : Type} [Datum α] {m : MVar α} {c : Shelf} {h new : History} {s : Slots} {d d' : Deed}
  {stage : Stage} {next : Stage ⊕ Reported} {x : Slots × (Stage ⊕ Reported) × Told}

theorem joined_mono {w : Waiter LatchId} (hw : w ∈ joined h) : w ∈ joined (h ++ new) := by
  obtain ⟨n, hn, hw⟩ := List.mem_flatMap.1 hw
  exact List.mem_flatMap.2 ⟨n, List.mem_append_left _ hn, hw⟩

theorem Known.mono (hk : Known h d) : Known (h ++ new) d := by
  cases hk with
  | leave hj => exact .leave (joined_mono hj)
  | other hr => exact .other hr

theorem Reports.mono {a : Reported} (hr : Reports h d a) : Reports (h ++ new) d a := by
  intro id hid
  obtain ⟨l, hl, hj⟩ := hr id hid
  exact ⟨l, hl, joined_mono hj⟩

/-- Reading the slot again gives the same, as long as nothing is written. -/
theorem serve_congr {r : Asking} {s s' : Slots} {phase : Phase Value LatchId}
    (hcell : s'.cell = s.cell) (hserve : r.serve s = (s, phase)) : r.serve s' = (s', phase) := by
  have hcontents : s'.contents = s.contents := congrArg Cell.value hcell
  have hphase : (r.serve s').2 = (r.serve s).2 := by
    cases r with
    | put a l | tryPut a =>
      simp only [Request.serve, hcontents, hcell]
      cases s.contents.offer? a <;> rfl
    | take l | tryTake =>
      simp only [Request.serve, hcontents, hcell]
      cases s.contents.poll? <;> rfl
    | read l =>
      simp only [Request.serve, hcontents]
      cases s.contents.held? <;> rfl
    | leave id =>
      simp only [Request.serve, hcontents, hcell]
      cases s.contents.waiting id <;> rfl
    | tryRead | isEmpty => simp only [Request.serve, hcontents]
  obtain ⟨phase', hserve', -⟩ := serve_reads r s'
  rw [hserve', hserve] at hphase
  rw [hserve', show phase' = phase from hphase]

/-- A step of one request is nothing to another. -/
theorem Sound.others (hs : Sound h s d next) (ha : Advance c h s d' stage x new)
    (hne : ∀ l, Asking.callback? d.request = some l → Asking.callback? d'.request ≠ some l) :
    Sound (h ++ new) x.1 d next := by
  have hfresh : Fresh h d → Fresh (h ++ new) d := by
    intro hf l hl hmem
    obtain hmem | hl' := ha.own l hmem
    · exact hf l hl hmem
    · exact hne l hl hl'
  cases next with
  | inr a => exact Reports.mono hs
  | inl stage' =>
    cases stage' with
    | waking l a => exact hs
    | «at» phase =>
      cases phase with
      | reading => exact hfresh hs
      | enqueuing => exact hfresh hs
      | notifying calls a => exact Reports.mono hs
      | done a => exact hs.elim
      | writing seen next calls a =>
        obtain ⟨hf, hle, hserve⟩ := hs
        refine ⟨hfresh hf, ?_⟩
        obtain ⟨hcell, -⟩ | hversion := ha.cell
        · rw [hcell]
          exact ⟨hle, fun hv => serve_congr hcell (hserve hv)⟩
        · rw [hversion]
          exact ⟨Nat.le_succ_of_le hle, fun hv => absurd hv (by omega)⟩
      | joining seen next id =>
        obtain ⟨hf, hle, hjoin⟩ := hs
        refine ⟨hfresh hf, ?_⟩
        obtain ⟨hcell, hjoined⟩ | hversion := ha.cell
        · have hcontents : x.1.contents = s.contents := congrArg Cell.value hcell
          rw [hcell, hcontents, hjoined]
          refine ⟨hle, fun hv => ?_⟩
          obtain ⟨hjoin, hlt, hid⟩ := hjoin hv
          exact ⟨hjoin, Nat.lt_of_lt_of_le hlt ha.next, hid⟩
        · rw [hversion]
          exact ⟨Nat.le_succ_of_le hle, fun hv => absurd hv (by omega)⟩

abbrev SlotFloor := Floor Slots Note Deed Stage Reported

def account (m : MVar α) (c : Shelf) : Account (procedure m) where
  Only _ := True
  Legal h s := Legal c h s.nextId ∧ s.contents = (shelf c h).plain
  callbacks := callbacks
  dues := dues c
  Known := Known
  Sound := Sound
  pending := pending
  callback? d := Asking.callback? d.request
  Token d := ∃ id l, d = ⟨.leave id, some l⟩

theorem fresh_of_none {r : Asking} {wakes : Option LatchId} (hr : Asking.callback? r = none) :
    Fresh h ⟨r, wakes⟩ := by
  intro l hl
  cases hr.symm.trans hl

theorem not_token (r : Asking) : ¬ ∃ id l, (⟨r, none⟩ : Deed) = ⟨.leave id, some l⟩ := by
  rintro ⟨id, l, h⟩
  cases h

theorem keeps (m : MVar α) (c : Shelf) : (account m c).Keeps where
  only := fun _ => trivial
  acts := by
    rintro h s d stage ⟨hh, hs⟩ hk hsound -
    have ha := step_advances (m := m) hh hs hk hsound
    refine ⟨⟨?_, ha.state⟩, ha.sound, ⟨_, ?_, ha.calls⟩, ha.own, Known.mono, ?_⟩
    · obtain hnew | ⟨n, hnew, hn⟩ := ha.notes
      · rw [hnew, List.append_nil]
        exact hh.mono ha.next
      · rw [hnew]
        exact hh.comes ha.next hn
    · show dues c (h ++ (procedure m).note d stage s) = _
      obtain hnew | ⟨n, hnew, -⟩ := ha.notes
      · simp [hnew, account]
      · rw [hnew, dues, along_concat, List.flatMap_singleton]
        rfl
    · intro d' next hs' hne
      exact Sound.others hs' ha hne
  now := by
    intro g d k h s hg
    cases g <;> cases hg <;>
      exact ⟨⟨.other (by simp), fresh_of_none rfl, rfl⟩, rfl, not_token _⟩
  wait := by
    intro g r l h s hg hl
    have hfresh : ∀ {q : Asking}, Asking.callback? q = some l → Fresh h ⟨q, none⟩ := by
      intro q hq l' hl'
      obtain rfl : l = l' := Option.some.inj (hq.symm.trans hl')
      exact hl
    cases g <;> cases hg <;> exact ⟨⟨.other (by simp), hfresh rfl, rfl⟩, rfl, not_token _⟩
  token := by
    rintro h d s ⟨id, l, rfl⟩ hk
    exact ⟨⟨hk, fresh_of_none rfl, rfl⟩, rfl⟩
  undo := by
    intro h s d a d' hs hu
    have hr : Reports h d a := hs
    cases a with
    | queued id =>
      obtain ⟨l, hl, hj⟩ := hr id rfl
      have hu : (if m.cancelable then (Asking.callback? d.request).map fun l =>
          (⟨.leave id, some l⟩ : Deed) else none) = some d' := hu
      split at hu
      · rw [hl] at hu
        obtain rfl := Option.some.inj hu
        exact ⟨⟨id, l, rfl⟩, .leave hj⟩
      · cases hu
    | _ => cases hu
  answered _ _ := rfl
  dues_callbacks hl hc := hl.1.dues_callbacks hc
  dues_nodup hl := hl.1.dues_nodup
  moves := by
    intro d stage l h
    cases stage <;> cases h

/-- What is kept whatever the threads do. -/
abbrev Inv (m : MVar α) (c : Shelf) (f : SlotFloor) : Prop := (account m c).Inv f

/-- It is a token that removes a waiter. -/
def Removes : Note → Deed → Prop
  | .removed id, ⟨.leave id', _⟩ => id = id'
  | _, _ => False

theorem eq_of_removed {id : Nat} (hn : .removed id ∈ (procedure m).note d stage s) :
    d.request = .leave id := by
  cases stage with
  | waking l a => cases hn
  | «at» phase =>
    have hn : .removed id ∈ notesOf d.request s phase := hn
    cases phase with
    | reading =>
      simp only [notesOf] at hn
      split at hn <;> simp at hn
    | writing seen next calls a =>
      cases hr : d.request <;> simp [notesOf, hr, Asking.serving] at hn
      rw [hn.2]
    | joining seen next id' =>
      cases hr : d.request <;> simp [notesOf, hr, Asking.queuing] at hn
    | _ => cases hn

theorem removes_token {n : Note} (hk : Known h d) (hn : n ∈ (procedure m).note d stage s)
    (hex : ∃ d', Removes n d') : (account m c).Token d ∧ Removes n d := by
  obtain ⟨d', hd'⟩ := hex
  cases n with
  | removed id =>
    have hr := eq_of_removed hn
    cases hk with
    | @leave id' l hj =>
      obtain rfl := Request.leave.inj hr
      exact ⟨⟨_, l, rfl⟩, rfl⟩
    | other hne => exact absurd hr (hne id)
  | _ => exact hd'.elim

/-- What holds after every turn. -/
structure Holds (m : MVar α) (c : Shelf) (f : SlotFloor) : Prop where
  inv : Inv m c f
  removed : ∀ n ∈ notes f.seen, (∃ d, Removes n d) → ∃ d ∈ f.given, Removes n d

theorem kept (m : MVar α) (c : Shelf) : Kept (procedure m) (Holds m c) where
  turn hf h := ⟨hf.inv.turn (keeps m c) h trivial, hf.inv.by_token removes_token hf.removed h⟩
  told hf := hf.inv.told_opened (keeps m c)

end Effects.MVar.Queue
