import Mathlib.Data.List.Nodup
import Effects.Proofs.Promise.Asks

/-!
The history of a promise: what was done to it, one after the other, and which calls are due for it.
-/

namespace Effects.Promise

open Service

abbrev History := List Note

namespace History

def resolutions (h : History) : List Resolution :=
  h.filterMap fun
    | .resolved r => some r
    | _ => none

/-- Who has been queued, the first one first. -/
def joined (h : History) : List (Joiner LatchId) :=
  h.filterMap fun
    | .queued id l => some ⟨id, l⟩
    | _ => none

def removed (h : History) : List Nat :=
  h.filterMap fun
    | .removed id => some id
    | _ => none

/-- Who has come after the resolution. -/
def late (h : History) : List LatchId :=
  h.filterMap fun
    | .served l _ => some l
    | _ => none

/-- Who has been queued and not been removed. -/
def waiting (h : History) : List (Joiner LatchId) :=
  h.joined.filter fun j => !h.removed.contains j.id

/-- Who has been queued and been removed. -/
def left (h : History) : List (Joiner LatchId) :=
  h.joined.filter fun j => h.removed.contains j.id

def callbacks (h : History) : List LatchId := h.joined.map (·.callback) ++ h.late

def state (h : History) : State Value Value LatchId :=
  match h.resolutions.head? with
  | some r => .resolved r
  | none => .pending h.waiting

/-- The calls that have to be made once this is done. -/
def due (h : History) : Note → List Telling
  | .queued _ _ => []
  | .served l r => [(l, told r)]
  | .removed id => (h.waiting.filter (·.id == id)).map fun j => (j.callback, interrupted)
  | .resolved r => h.waiting.map fun j => (j.callback, told r)

def duesAfter (h : History) : History → List Telling
  | [] => []
  | n :: rest => due h n ++ duesAfter (h ++ [n]) rest

def dues (h : History) : List Telling := duesAfter [] h

/-- The same calls by what has become of those who asked. -/
def settled (h : History) : List Telling :=
  (h.resolutions.flatMap fun r =>
      h.waiting.map (fun j => (j.callback, told r)) ++ h.late.map fun l => (l, told r)) ++
    h.left.map fun j => (j.callback, interrupted)

theorem duesAfter_append (h a b : History) :
    duesAfter h (a ++ b) = duesAfter h a ++ duesAfter (h ++ a) b := by
  induction a generalizing h with
  | nil => simp [duesAfter]
  | cons n a ih => simp [duesAfter, ih]

theorem dues_concat (h : History) (n : Note) : dues (h ++ [n]) = dues h ++ due h n := by
  rw [dues, duesAfter_append]
  simp [dues, duesAfter]

section Concat

variable (h : History) (id : Nat) (l : LatchId) (r : Resolution)

@[simp] theorem resolutions_append (a b : History) :
    resolutions (a ++ b) = a.resolutions ++ b.resolutions := List.filterMap_append

@[simp] theorem joined_append (a b : History) : joined (a ++ b) = a.joined ++ b.joined :=
  List.filterMap_append

@[simp] theorem removed_append (a b : History) : removed (a ++ b) = a.removed ++ b.removed :=
  List.filterMap_append

@[simp] theorem late_append (a b : History) : late (a ++ b) = a.late ++ b.late :=
  List.filterMap_append

theorem waiting_queued (hid : id ∉ h.removed) :
    waiting (h ++ [.queued id l]) = h.waiting ++ [⟨id, l⟩] := by
  simp [waiting, joined, removed, List.filterMap_append] at hid ⊢
  exact hid

theorem waiting_served : waiting (h ++ [.served l r]) = h.waiting := by
  simp [waiting, joined, removed, List.filterMap_append]

theorem waiting_resolved : waiting (h ++ [.resolved r]) = h.waiting := by
  simp [waiting, joined, removed, List.filterMap_append]

theorem waiting_removed : waiting (h ++ [.removed id]) = h.waiting.filter (·.id != id) := by
  have hj : joined [.removed id] = [] := rfl
  have hr : removed [.removed id] = [id] := rfl
  rw [waiting, joined_append, removed_append, hj, hr, List.append_nil, waiting, List.filter_filter]
  refine List.filter_congr fun j _ => ?_
  rw [Bool.eq_iff_iff]
  simp [and_comm]

theorem left_queued (hid : id ∉ h.removed) : left (h ++ [.queued id l]) = h.left := by
  simp [left, joined, removed, List.filterMap_append] at hid ⊢
  exact hid

theorem left_served : left (h ++ [.served l r]) = h.left := by
  simp [left, joined, removed, List.filterMap_append]

theorem left_resolved : left (h ++ [.resolved r]) = h.left := by
  simp [left, joined, removed, List.filterMap_append]

theorem callbacks_append (a b : History) :
    (callbacks (a ++ b)).Perm (a.callbacks ++ b.callbacks) := by
  rw [callbacks, joined_append, late_append, List.map_append, callbacks, callbacks,
    List.append_assoc, List.append_assoc]
  exact (List.perm_append_comm_assoc _ _ _).append_left _

theorem state_served : state (h ++ [.served l r]) = h.state := by
  have hr : resolutions [.served l r] = [] := rfl
  rw [state, resolutions_append, hr, List.append_nil, waiting_served, state]

theorem state_resolved (hr : h.resolutions = []) : state (h ++ [.resolved r]) = .resolved r := by
  have hr' : resolutions [.resolved r] = [r] := rfl
  rw [state, resolutions_append, hr, hr']
  rfl

theorem state_queued (hr : h.resolutions = []) (hid : id ∉ h.removed) :
    state (h ++ [.queued id l]) = .pending (h.waiting ++ [⟨id, l⟩]) := by
  have hr' : resolutions [.queued id l] = [] := rfl
  rw [state, resolutions_append, hr, hr', waiting_queued h id l hid]
  rfl

theorem state_removed (hr : h.resolutions = []) :
    state (h ++ [.removed id]) = .pending (h.waiting.filter (·.id != id)) := by
  have hr' : resolutions [.removed id] = [] := rfl
  rw [state, resolutions_append, hr, hr', waiting_removed]
  rfl

end Concat

/-- What may be done next. -/
inductive Comes (h : History) (next : Nat) : Note → Prop
  | queued {id : Nat} {l : LatchId} (hr : h.resolutions = []) (hid : id ∉ h.joined.map (·.id))
      (hlt : id < next) (hl : l ∉ h.callbacks) : Comes h next (.queued id l)
  | served {l : LatchId} {r : Resolution} (hr : h.resolutions = [r]) (hl : l ∉ h.callbacks) :
      Comes h next (.served l r)
  | removed {id : Nat} {l : LatchId} (hr : h.resolutions = []) (hj : ⟨id, l⟩ ∈ h.waiting) :
      Comes h next (.removed id)
  | resolved {r : Resolution} (hr : h.resolutions = []) : Comes h next (.resolved r)

namespace Comes

variable {h : History} {next : Nat} {n : Note}

theorem found (hn : Comes h next n) :
    (∃ r l, h.resolutions = [r] ∧ n = .served l r) ∨ h.resolutions = [] := by
  cases hn with
  | served hr => exact .inl ⟨_, _, hr, rfl⟩
  | queued hr | removed hr | resolved hr => exact .inr hr

/-- Once it is resolved, getters find it so. -/
theorem of_resolved {r : Resolution} (hn : Comes h next n) (hr : h.resolutions = [r]) :
    ∃ l, n = .served l r ∧ l ∉ h.callbacks := by
  have hne : h.resolutions ≠ [] := by
    rw [hr]
    exact List.cons_ne_nil r []
  cases hn with
  | @served l r' hr' hl =>
    obtain rfl : r = r' := List.singleton_inj.1 (hr.symm.trans hr')
    exact ⟨l, rfl, hl⟩
  | queued hr' => exact absurd hr' hne
  | removed hr' => exact absurd hr' hne
  | resolved hr' => exact absurd hr' hne

theorem joined_new (hn : Comes h next n) {j : Joiner LatchId} (hj : j ∈ joined [n]) :
    j.id < next ∧ j.id ∉ h.joined.map (·.id) := by
  cases hn with
  | queued _ hid hlt =>
    obtain rfl := List.mem_singleton.1 hj
    exact ⟨hlt, hid⟩
  | _ => cases hj

theorem callbacks_new (hn : Comes h next n) {l : LatchId} (hl : l ∈ callbacks [n]) :
    l ∉ h.callbacks := by
  cases hn with
  | queued _ _ _ hnew | served _ hnew =>
    obtain rfl := List.mem_singleton.1 hl
    exact hnew
  | removed | resolved => cases hl

theorem removed_new (hn : Comes h next n) {id : Nat} (hid : id ∈ History.removed [n]) :
    id ∈ h.joined.map (·.id) := by
  cases hn with
  | removed _ hj =>
    obtain rfl := List.mem_singleton.1 hid
    exact List.mem_map_of_mem (List.mem_filter.1 hj).1
  | _ => cases hid

end Comes

/-- What holds of every history, where `next` is the next number to be given out. -/
structure Legal (h : History) (next : Nat) : Prop where
  ids : ∀ j ∈ h.joined, j.id < next
  ids_nodup : (h.joined.map (·.id)).Nodup
  callbacks_nodup : h.callbacks.Nodup
  removed_joined : ∀ id ∈ h.removed, id ∈ h.joined.map (·.id)
  once : h.resolutions.length ≤ 1
  late_nil : h.resolutions = [] → h.late = []
  /-- After the resolution getters only find it resolved. -/
  final : ∀ {before r after}, h = before ++ .resolved r :: after →
    ∀ n ∈ after, ∃ l, n = .served l r
  dues_perm : h.dues.Perm h.settled

theorem Legal.nil (next : Nat) : Legal [] next := by
  constructor <;> simp [joined, callbacks, late, removed, resolutions, dues, duesAfter, settled, left]

theorem mem_waiting {h : History} {j : Joiner LatchId} :
    j ∈ h.waiting ↔ j ∈ h.joined ∧ j.id ∉ h.removed := by
  simp [waiting, List.mem_filter]

theorem mem_callbacks_of_joined {h : History} {j : Joiner LatchId} (hj : j ∈ h.joined) :
    j.callback ∈ h.callbacks :=
  List.mem_append_left _ (List.mem_map_of_mem hj)

namespace Legal

variable {h : History} {next next' : Nat} {n : Note}

theorem joined_eq (hh : Legal h next) {i j : Joiner LatchId} (hi : i ∈ h.joined)
    (hj : j ∈ h.joined) (hid : i.id = j.id) : i = j :=
  List.inj_on_of_nodup_map hh.ids_nodup hi hj hid

theorem callback_eq (hh : Legal h next) {i j : Joiner LatchId} (hi : i ∈ h.joined)
    (hj : j ∈ h.joined) (hl : i.callback = j.callback) : i = j :=
  List.inj_on_of_nodup_map (List.nodup_append.1 hh.callbacks_nodup).1 hi hj hl

/-- The waiter of a number is the only one. -/
theorem filter_waiting (hh : Legal h next) {id : Nat} {l : LatchId} (hj : ⟨id, l⟩ ∈ h.waiting) :
    h.waiting.filter (·.id == id) = [⟨id, l⟩] := by
  have hnodup : h.waiting.Nodup := (List.Nodup.of_map _ hh.ids_nodup).filter _
  have heq : ∀ j ∈ h.waiting, (j.id == id) = (j == ⟨id, l⟩) := by
    intro j hjw
    rw [Bool.eq_iff_iff, beq_iff_eq, beq_iff_eq]
    constructor
    · intro hid
      exact hh.joined_eq (mem_waiting.1 hjw).1 (mem_waiting.1 hj).1 hid
    · rintro rfl
      rfl
  rw [List.filter_congr heq, List.filter_beq, List.count_eq_one_of_mem hnodup hj]
  rfl

theorem left_removed (hh : Legal h next) {id : Nat} {l : LatchId} (hj : ⟨id, l⟩ ∈ h.waiting) :
    (left (h ++ [.removed id])).Perm (h.left ++ [⟨id, l⟩]) := by
  have hjoined : joined (h ++ [.removed id]) = h.joined :=
    (joined_append h _).trans (List.append_nil _)
  have hremoved : removed (h ++ [.removed id]) = h.removed ++ [id] := removed_append h _
  have hold : (left (h ++ [.removed id])).filter (fun j => h.removed.contains j.id) = h.left := by
    rw [left, hjoined, hremoved, List.filter_filter, left]
    refine List.filter_congr fun j _ => ?_
    rw [Bool.eq_iff_iff]
    simp
    tauto
  have hnew : (left (h ++ [.removed id])).filter (fun j => !h.removed.contains j.id) =
      [⟨id, l⟩] := by
    rw [left, hjoined, hremoved, List.filter_filter, ← hh.filter_waiting hj, waiting,
      List.filter_filter]
    refine List.filter_congr fun j _ => ?_
    rw [Bool.eq_iff_iff]
    simp
    tauto
  have hperm := (List.filter_append_perm (fun j : Joiner LatchId => h.removed.contains j.id)
    (left (h ++ [.removed id]))).symm
  rwa [hold, hnew] at hperm

theorem due_removed (hh : Legal h next) {id : Nat} {l : LatchId} (hj : ⟨id, l⟩ ∈ h.waiting) :
    due h (.removed id) = [(l, interrupted)] := by
  rw [due, hh.filter_waiting hj]
  rfl

theorem final_concat (hh : Legal h next) (hn : Comes h next' n) :
    ∀ {before r after}, h ++ [n] = before ++ .resolved r :: after →
      ∀ m ∈ after, ∃ l, m = .served l r := by
  intro before r after heq m hm
  obtain ⟨last, rest, rfl⟩ : ∃ last rest, after = rest ++ [last] := by
    have hne : after ≠ [] := List.ne_nil_of_mem hm
    exact ⟨after.getLast hne, after.dropLast, (List.dropLast_append_getLast hne).symm⟩
  have hsplit : h ++ [n] = (before ++ .resolved r :: rest) ++ [last] := by simpa using heq
  obtain ⟨hh', hlast⟩ := List.append_inj' hsplit rfl
  obtain rfl : n = last := by simpa using hlast
  have hres : r ∈ h.resolutions := by
    rw [hh']
    simp [resolutions]
  obtain ⟨r', l, hr, rfl⟩ | hr := hn.found
  · obtain rfl : r = r' := by simpa [hr] using hres
    obtain hm | hm := List.mem_append.1 hm
    · exact hh.final hh' m hm
    · exact ⟨l, by simpa using hm⟩
  · rw [hr] at hres
    cases hres

/-- The calls that are due for a step change what has become of those who asked accordingly. -/
theorem settled_concat (hh : Legal h next) (hn : Comes h next' n) :
    (h.settled ++ due h n).Perm (settled (h ++ [n])) := by
  cases hn with
  | @queued id l hr hid =>
    have hr' : resolutions (h ++ [.queued id l]) = [] := by
      rw [resolutions_append, hr]
      rfl
    have hleft := left_queued h id l fun hm => hid (hh.removed_joined id hm)
    rw [due, List.append_nil, settled, settled, hr', hr, hleft]
    rfl
  | @served l r hr =>
    have hr' : resolutions (h ++ [.served l r]) = [r] := by
      rw [resolutions_append, hr]
      rfl
    have hlate : late (h ++ [.served l r]) = h.late ++ [l] := late_append h _
    rw [due, settled, settled, hr', hr, hlate, waiting_served, left_served]
    simp only [List.flatMap_singleton, List.map_append, List.append_assoc]
    exact ((@List.perm_append_comm _ (h.left.map _) _).append_left _).append_left _
  | @removed id l hr hw =>
    have hr' : resolutions (h ++ [.removed id]) = [] := by
      rw [resolutions_append, hr]
      rfl
    rw [hh.due_removed hw, settled, settled, hr', hr, List.flatMap_nil, List.nil_append,
      List.flatMap_nil, List.nil_append]
    have hperm := ((hh.left_removed hw).map fun j => (j.callback, interrupted)).symm
    rwa [List.map_append] at hperm
  | @resolved r hr =>
    have hr' : resolutions (h ++ [.resolved r]) = [r] := by
      rw [resolutions_append, hr]
      rfl
    have hlate : late (h ++ [.resolved r]) = [] := by
      rw [late_append, hh.late_nil hr]
      rfl
    rw [due, settled, settled, hr', hr, hlate, waiting_resolved, left_resolved]
    simpa using List.perm_append_comm

/-- Whatever may be done next keeps the history legal. -/
theorem comes (hh : Legal h next) (hnext : next ≤ next') (hn : Comes h next' n) :
    Legal (h ++ [n]) next' where
  ids := by
    intro j hj
    rw [joined_append] at hj
    obtain hj | hj := List.mem_append.1 hj
    · exact Nat.lt_of_lt_of_le (hh.ids j hj) hnext
    · exact (hn.joined_new hj).1
  ids_nodup := by
    rw [joined_append, List.map_append]
    refine List.nodup_append.2 ⟨hh.ids_nodup, by cases n <;> simp [joined], ?_⟩
    rintro id hid _ hid' rfl
    obtain ⟨j, hj, rfl⟩ := List.mem_map.1 hid'
    exact (hn.joined_new hj).2 hid
  callbacks_nodup := by
    rw [(callbacks_append h [n]).nodup_iff]
    refine List.nodup_append.2
      ⟨hh.callbacks_nodup, by cases n <;> simp [callbacks, joined, late], ?_⟩
    rintro l hl _ hl' rfl
    exact hn.callbacks_new hl' hl
  removed_joined := by
    intro id hid
    rw [removed_append] at hid
    rw [joined_append, List.map_append]
    refine List.mem_append_left _ ?_
    obtain hid | hid := List.mem_append.1 hid
    · exact hh.removed_joined id hid
    · exact hn.removed_new hid
  once := by
    rw [resolutions_append]
    obtain ⟨r, l, hr, rfl⟩ | hr := hn.found
    · rw [hr]
      exact Nat.le_refl 1
    · rw [hr]
      cases n <;> simp [resolutions]
  late_nil := by
    intro hnone
    rw [resolutions_append, List.append_eq_nil_iff] at hnone
    rw [late_append, hh.late_nil hnone.1]
    cases hn with
    | served hr =>
      rw [hr] at hnone
      cases hnone.1
    | _ => rfl
  final := hh.final_concat hn
  dues_perm := by
    rw [dues_concat]
    exact (hh.dues_perm.append_right _).trans (hh.settled_concat hn)

theorem mem_dues (hh : Legal h next) {l : LatchId} {r : Except String Reply} :
    (l, r) ∈ h.dues ↔ (∃ x ∈ h.resolutions, r = told x ∧
        (l ∈ h.waiting.map (·.callback) ∨ l ∈ h.late)) ∨
      (r = interrupted ∧ l ∈ h.left.map (·.callback)) := by
  rw [hh.dues_perm.mem_iff, settled]
  simp only [List.mem_append, List.mem_flatMap, List.mem_map, Prod.mk.injEq]
  constructor
  · rintro (⟨x, hx, ⟨j, hj, rfl, rfl⟩ | ⟨l', hl, rfl, rfl⟩⟩ | ⟨j, hj, rfl, rfl⟩)
    · exact .inl ⟨x, hx, rfl, .inl ⟨j, hj, rfl⟩⟩
    · exact .inl ⟨x, hx, rfl, .inr hl⟩
    · exact .inr ⟨rfl, j, hj, rfl⟩
  · rintro (⟨x, hx, rfl, ⟨j, hj, rfl⟩ | hl⟩ | ⟨rfl, j, hj, rfl⟩)
    · exact .inl ⟨x, hx, .inl ⟨j, hj, rfl, rfl⟩⟩
    · exact .inl ⟨x, hx, .inr ⟨l, hl, rfl, rfl⟩⟩
    · exact .inr ⟨j, hj, rfl, rfl⟩

theorem waiting_left_perm (h : History) : (h.waiting ++ h.left).Perm h.joined :=
  List.perm_append_comm.trans (List.filter_append_perm _ _)

/-- Nobody is called twice. -/
theorem dues_nodup (hh : Legal h next) : (h.dues.map (·.1)).Nodup := by
  rw [(hh.dues_perm.map _).nodup_iff, settled]
  have hleft : (h.left.map (·.callback)).Nodup :=
    (List.nodup_append.1 hh.callbacks_nodup).1.sublist (List.filter_sublist.map _)
  have honce := hh.once
  rcases hr : h.resolutions with _ | ⟨r, _ | ⟨r', rest⟩⟩
  · simpa [Function.comp_def] using hleft
  · have hperm : (h.waiting.map (·.callback) ++ h.late ++ h.left.map (·.callback)).Perm
        h.callbacks := by
      have hsame := ((waiting_left_perm h).map (·.callback)).append_right h.late
      rw [List.map_append, List.append_assoc] at hsame
      rw [List.append_assoc]
      exact (List.perm_append_comm.append_left _).trans hsame
    simpa [Function.comp_def] using hperm.nodup_iff.2 hh.callbacks_nodup
  · simp [hr] at honce

theorem dues_callbacks (hh : Legal h next) {call : Telling} (hc : call ∈ h.dues) :
    call.1 ∈ h.callbacks := by
  obtain ⟨-, -, -, hl | hl⟩ | ⟨-, hl⟩ := hh.mem_dues.1 hc
  · obtain ⟨j, hj, he⟩ := List.mem_map.1 hl
    rw [← he]
    exact mem_callbacks_of_joined (mem_waiting.1 hj).1
  · exact List.mem_append_right _ hl
  · obtain ⟨j, hj, he⟩ := List.mem_map.1 hl
    rw [← he]
    exact mem_callbacks_of_joined (List.mem_filter.1 hj).1

/-- Nobody is called as long as the queue is kept. -/
theorem dues_waiting (hh : Legal h next) (hr : h.resolutions = []) {j : Joiner LatchId}
    (hj : j ∈ h.waiting) : j.callback ∉ h.dues.map (·.1) := by
  intro hd
  obtain ⟨call, hc, he⟩ := List.mem_map.1 hd
  obtain ⟨x, hx, -⟩ | ⟨-, hl⟩ := hh.mem_dues.1 hc
  · rw [hr] at hx
    cases hx
  · obtain ⟨k, hk, hk'⟩ := List.mem_map.1 hl
    obtain rfl := hh.callback_eq (List.mem_filter.1 hk).1 (mem_waiting.1 hj).1 (hk'.trans he)
    exact (mem_waiting.1 hj).2 (List.contains_iff_mem.1 (List.mem_filter.1 hk).2)

theorem mono (hh : Legal h next) (hnext : next ≤ next') : Legal h next' :=
  { hh with ids := fun j hj => Nat.lt_of_lt_of_le (hh.ids j hj) hnext }

end Legal

end History
end Effects.Promise
