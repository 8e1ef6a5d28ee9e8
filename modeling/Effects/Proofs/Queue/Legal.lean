import Mathlib.Algebra.Order.Group.Multiset
import Mathlib.Tactic.Abel
import Effects.Proofs.Queue.History

/-!
What holds of every history of a slot: no waiter is lost, and none is served or removed twice.
-/

namespace Effects.MVar.Queue

open Service

namespace History

/-- Every step finds the slot as it should be. -/
def Fits (c : Shelf) : History → Prop
  | [] => True
  | n :: h => (n.onto? c).isSome ∧ Fits (n.apply c) h

theorem fits_append (c : Shelf) (a b : History) : Fits c (a ++ b) ↔ Fits c a ∧ Fits (shelf c a) b := by
  induction a generalizing c with
  | nil => simp [Fits, shelf]
  | cons n a ih => simp [Fits, ih, shelf, and_assoc]

theorem Fits.at {c : Shelf} {before rest : History} {n : Note}
    (h : Fits c (before ++ n :: rest)) :
    n.onto? (shelf c before) = some (shelf c (before ++ [n])) := by
  obtain ⟨c', hc⟩ := Option.isSome_iff_exists.1 ((fits_append c before _).1 h).2.1
  rw [shelf_append, hc]
  exact congrArg some (Note.apply_eq hc).symm

/-- Everybody waits for what it came for. -/
def Wants (h : History) : Shelf → Prop
  | .empty readers takers => (∀ w ∈ readers, .queued w.id w.callback .look ∈ h) ∧
      ∀ w ∈ takers, .queued w.id w.callback .value ∈ h
  | .full _ putters => ∀ x ∈ putters, x.1.from? = some x.2.id ∧
      .queued x.2.id x.2.callback (.room x.1.value) ∈ h

/-- A waiter of that kind is told that. -/
def Meets (h : History) (x : Served) : Prop :=
  match x.2 with
  | .room => ∃ a, .queued x.1.id x.1.callback (.room a) ∈ h
  | .value _ => .queued x.1.id x.1.callback .value ∈ h ∨ .queued x.1.id x.1.callback .look ∈ h

/-- The putter of the value, if it had to wait, has been told that there was room for it. -/
def Placed (c : Shelf) (h : History) (p : Parcel) : Prop :=
  ∀ id, p.from? = some id → ∃ l, (⟨id, l⟩, .room) ∈ served c h ∧ .queued id l (.room p.value) ∈ h

/-- What may be done next. -/
structure Comes (c : Shelf) (h : History) (next : Nat) (n : Note) : Prop where
  fits : (n.onto? (shelf c h)).isSome
  joins : ∀ w ∈ n.joins, w.id < next ∧ w.id ∉ (joined h).map (·.id)
  asks : ∀ l ∈ n.joins.map (·.callback) ++ n.asks, l ∉ callbacks h

/-- What holds of every history, where `next` is the next number to be given out. -/
structure Legal (c : Shelf) (h : History) (next : Nat) : Prop where
  fits : Fits c h
  ids : ∀ w ∈ joined h, w.id < next
  ids_nodup : ((joined h).map (·.id)).Nodup
  callbacks_nodup : (callbacks h).Nodup
  /-- Whoever was queued still is, or has been served, or has left. -/
  flow : (joined h).Perm ((shelf c h).waiters ++ (served c h).map (·.1) ++ left c h)
  /-- Whoever asked to be called back is queued, or there is one call due. -/
  accepted : (callbacks h).Perm ((shelf c h).waiters.map (·.callback) ++ (dues c h).map (·.1))
  queued : Queued (shelf c h) (joined h)
  wants : Wants h (shelf c h)
  meets : ∀ x ∈ served c h, Meets h x
  held : ∀ p, (shelf c h).held? = some p → Placed c h p
  sent : ∀ {l p}, (l, .value p) ∈ called c h → Placed c h p

end History

open History

section Steps

variable {c c' : Shelf} {n : Note} {h : History}

theorem Wants.mono {more : History} (hw : Wants h c) : Wants (h ++ more) c := by
  have hin : ∀ {m : Note}, m ∈ h → m ∈ h ++ more := fun hm => List.mem_append_left more hm
  cases c with
  | empty readers takers => exact ⟨fun w hm => hin (hw.1 w hm), fun w hm => hin (hw.2 w hm)⟩
  | full held putters => exact fun x hx => ⟨(hw x hx).1, hin (hw x hx).2⟩

theorem Wants.apply (hw : Wants h c) (ha : n.onto? c = some c') : Wants (h ++ [n]) c' := by
  have hw : Wants (h ++ [n]) c := Wants.mono hw
  have hnew : n ∈ h ++ [n] := List.mem_append_right _ (List.mem_singleton_self n)
  -- Somebody who has just joined waits for what the step says, and the others as before.
  have hjoins : ∀ {β : Type} {xs : List β} {y : β} {P : β → Prop}, (∀ x ∈ xs, P x) → P y →
      ∀ x ∈ xs ++ [y], P x := by
    intro β xs y P hxs hy x hx
    obtain hx | hx := List.mem_append.1 hx
    · exact hxs x hx
    · exact List.mem_singleton.1 hx ▸ hy
  cases Note.onto_of ha with
  | putter => exact hjoins hw ⟨rfl, hnew⟩
  | taker => exact ⟨hw.1, hjoins hw.2 hnew⟩
  | reader => exact ⟨hjoins hw.1 hnew, hw.2⟩
  | fills => exact fun x hx => absurd hx List.not_mem_nil
  | hands =>
    exact ⟨fun w hm => absurd hm List.not_mem_nil, fun w hm => hw.2 w (List.mem_cons_of_mem _ hm)⟩
  | empties =>
    exact ⟨fun w hm => absurd hm List.not_mem_nil, fun w hm => absurd hm List.not_mem_nil⟩
  | refills => exact fun y hy => hw y (List.mem_cons_of_mem _ hy)
  | looks => exact hw
  | removes =>
    cases c with
    | empty readers takers =>
      exact ⟨fun w hm => hw.1 w (List.mem_filter.1 hm).1, fun w hm => hw.2 w (List.mem_filter.1 hm).1⟩
    | full held putters => exact fun x hx => hw x (List.mem_filter.1 hx).1

theorem Wants.meets (hw : Wants h c) {x : Served} (hx : x ∈ n.serves c) : Meets h x := by
  cases n with
  | offered who a =>
    cases c with
    | full held putters => cases hx
    | empty readers takers =>
      obtain ⟨w, hm, rfl⟩ := List.mem_map.1 hx
      obtain hm | hm := List.mem_append.1 hm
      · exact .inr (hw.1 w hm)
      · exact .inl (hw.2 w (List.mem_of_mem_take hm))
  | polled who =>
    cases c with
    | empty readers takers => cases hx
    | full held putters =>
      obtain ⟨y, hm, rfl⟩ := List.mem_map.1 hx
      exact ⟨y.1.value, (hw y (List.mem_of_mem_take hm)).2⟩
  | _ => cases hx

/-- The value in the slot afterwards was there, has just been put, or is that of a putter served. -/
theorem Note.held_apply (hw : Wants h c) (ha : n.onto? c = some c') {p : Parcel}
    (hp : c'.held? = some p) : c.held? = some p ∨ p.from? = none ∨
      ∃ w, (w, .room) ∈ n.serves c ∧ p.from? = some w.id ∧
        .queued w.id w.callback (.room p.value) ∈ h := by
  cases onto_of ha with
  | putter | taker | reader | looks => exact .inl hp
  | fills =>
    cases hp
    exact .inr (.inl rfl)
  | hands | empties => cases hp
  | @refills held x rest =>
    cases hp
    obtain ⟨hid, hq⟩ := hw x List.mem_cons_self
    exact .inr (.inr ⟨x.2, List.mem_singleton_self _, hid, hq⟩)
  | removes => cases c <;> exact .inl hp

/-- A value that goes out was in the slot, or has just been put. -/
theorem Note.value_calls {l : LatchId} {p : Parcel} (hc : (l, .value p) ∈ n.calls c) :
    c.held? = some p ∨ p.from? = none := by
  obtain hc | hc := List.mem_append.1 hc
  · obtain ⟨x, hx, heq⟩ := List.mem_map.1 hc
    cases n with
    | offered who a =>
      cases c with
      | full held putters => cases hx
      | empty readers takers =>
        obtain ⟨w, -, rfl⟩ := List.mem_map.1 hx
        cases heq
        exact .inr rfl
    | polled who =>
      cases c with
      | empty readers takers => cases hx
      | full held putters =>
        obtain ⟨y, -, rfl⟩ := List.mem_map.1 hx
        cases heq
    | _ => cases hx
  · cases n with
    | offered who a =>
      obtain ⟨l', -, heq⟩ := List.mem_map.1 hc
      cases heq
    | polled who =>
      obtain ⟨q, hq, hc⟩ := List.mem_flatMap.1 hc
      obtain ⟨l', -, heq⟩ := List.mem_map.1 hc
      cases heq
      exact .inl (Option.mem_toList.1 hq)
    | looked l' =>
      obtain ⟨q, hq, heq⟩ := List.mem_map.1 hc
      cases heq
      exact .inl (Option.mem_toList.1 hq)
    | _ => cases hc

theorem Note.accepts_nodup (n : Note) : (n.joins.map (·.callback) ++ n.asks).Nodup := by
  cases n with
  | offered who a => cases who <;> simp [Note.joins, Note.asks]
  | polled who => cases who <;> simp [Note.joins, Note.asks]
  | _ => simp [Note.joins, Note.asks]

theorem Note.joins_nodup (n : Note) : (n.joins.map (·.id)).Nodup := by
  cases n <;> simp [Note.joins]

end Steps

/-- What flows on joins what has flown before. -/
theorem perm_flow {β : Type} {A A' B C J b c : List β} (h : (A ++ J).Perm (A' ++ b ++ c)) :
    (A ++ B ++ C ++ J).Perm (A' ++ (B ++ b) ++ (C ++ c)) := by
  rw [← Multiset.coe_eq_coe] at h ⊢
  simp only [← Multiset.coe_add] at h ⊢
  calc (A : Multiset β) + B + C + J = A + J + (B + C) := by abel
    _ = A' + b + c + (B + C) := by rw [h]
    _ = A' + (B + b) + (C + c) := by abel

namespace History.Legal

variable {c : Shelf} {h : History} {next next' : Nat} {n : Note}

theorem nil (c : Shelf) (hw : c.waiters = []) (hf : ∀ p, c.held? = some p → p.from? = none)
    (next : Nat) : Legal c [] next where
  fits := trivial
  ids w hm := absurd hm List.not_mem_nil
  ids_nodup := .nil
  callbacks_nodup := .nil
  flow := by
    show List.Perm [] (c.waiters ++ [] ++ [])
    rw [hw]
    exact .refl _
  accepted := by
    show List.Perm [] (c.waiters.map (·.callback) ++ [])
    rw [hw]
    exact .refl _
  queued := by
    show Queued c []
    cases c with
    | empty readers takers =>
      obtain ⟨rfl, rfl⟩ := List.append_eq_nil_iff.1 hw
      exact ⟨.refl _, .refl _⟩
    | full held putters =>
      have hp : putters.map (·.2) = [] := hw
      rw [Queued, hp]
  wants := by
    show Wants [] c
    cases c with
    | empty readers takers =>
      obtain ⟨rfl, rfl⟩ := List.append_eq_nil_iff.1 hw
      exact ⟨fun w hm => absurd hm List.not_mem_nil, fun w hm => absurd hm List.not_mem_nil⟩
    | full held putters =>
      obtain rfl := List.map_eq_nil_iff.1 hw
      exact fun x hx => absurd hx List.not_mem_nil
  meets x hx := absurd hx List.not_mem_nil
  held p hp id hid := by
    rw [hf p hp] at hid
    cases hid
  sent hs := absurd hs List.not_mem_nil

theorem mono (hh : Legal c h next) (hnext : next ≤ next') : Legal c h next' :=
  { hh with ids := fun w hw => Nat.lt_of_lt_of_le (hh.ids w hw) hnext }

theorem placed_mono {p : Parcel} (hp : Placed c h p) : Placed c (h ++ [n]) p := by
  intro id hid
  obtain ⟨l, hs, hq⟩ := hp id hid
  refine ⟨l, ?_, List.mem_append_left _ hq⟩
  rw [served, along_concat]
  exact List.mem_append_left _ hs

theorem meets_mono {more : History} {x : Served} (hx : Meets h x) : Meets (h ++ more) x := by
  obtain ⟨w, notice⟩ := x
  cases notice with
  | room =>
    obtain ⟨a, ha⟩ := hx
    exact ⟨a, List.mem_append_left _ ha⟩
  | value p => exact hx.imp (List.mem_append_left _) (List.mem_append_left _)

/-- Whatever may be done next keeps the history legal. -/
theorem comes (hh : Legal c h next) (hnext : next ≤ next') (hn : Comes c h next' n) :
    Legal c (h ++ [n]) next' := by
  obtain ⟨c', hc⟩ := Option.isSome_iff_exists.1 hn.fits
  have hshelf : shelf c (h ++ [n]) = c' := by
    rw [shelf_append]
    exact Note.apply_eq hc
  constructor
  · exact (fits_append c h [n]).2 ⟨hh.fits, hn.fits, trivial⟩
  · intro w hw
    rw [joined_concat] at hw
    obtain hw | hw := List.mem_append.1 hw
    · exact Nat.lt_of_lt_of_le (hh.ids w hw) hnext
    · exact (hn.joins w hw).1
  · rw [joined_concat, List.map_append]
    refine List.nodup_append.2 ⟨hh.ids_nodup, n.joins_nodup, ?_⟩
    rintro id hid id' hid' rfl
    obtain ⟨w, hw, rfl⟩ := List.mem_map.1 hid'
    exact (hn.joins w hw).2 hid
  · rw [callbacks_concat]
    refine List.nodup_append.2 ⟨hh.callbacks_nodup, n.accepts_nodup, ?_⟩
    rintro l hl l' hl' rfl
    exact hn.asks l hl' hl
  · rw [joined_concat, hshelf, served, left, along_concat, along_concat, List.map_append]
    exact (hh.flow.append_right n.joins).trans (perm_flow (n.waiters_perm hc))
  · rw [callbacks_concat, hshelf, dues, along_concat, List.map_append]
    have hstep := n.callbacks_perm hc
    rw [← List.append_nil (_ ++ (n.due _).map _)] at hstep
    have hflow := perm_flow (B := (dues c h).map (·.1)) (C := []) hstep
    simp only [List.append_nil] at hflow
    exact (hh.accepted.append_right _).trans hflow
  · rw [hshelf, joined_concat]
    exact Note.queued_apply hc hh.queued
  · rw [hshelf]
    exact Wants.apply hh.wants hc
  · intro x hx
    rw [served, along_concat] at hx
    obtain hx | hx := List.mem_append.1 hx
    · exact meets_mono (hh.meets x hx)
    · exact meets_mono (Wants.meets hh.wants hx)
  · intro p hp
    rw [hshelf] at hp
    obtain hp | hp | ⟨w, hs, hid, hq⟩ := Note.held_apply hh.wants hc hp
    · exact placed_mono (hh.held p hp)
    · intro id hid
      rw [hp] at hid
      cases hid
    · intro id hid'
      obtain rfl : w.id = id := Option.some.inj (hid.symm.trans hid')
      refine ⟨w.callback, ?_, List.mem_append_left _ hq⟩
      rw [served, along_concat]
      exact List.mem_append_right _ hs
  · intro l p hcall
    rw [called, along_concat] at hcall
    obtain hcall | hcall := List.mem_append.1 hcall
    · exact placed_mono (hh.sent hcall)
    · obtain hp | hp := Note.value_calls hcall
      · exact placed_mono (hh.held p hp)
      · intro id hid
        rw [hp] at hid
        cases hid

/-- Nobody is called twice. -/
theorem dues_nodup (hh : Legal c h next) : ((dues c h).map (·.1)).Nodup :=
  (List.nodup_append.1 (hh.accepted.nodup_iff.1 hh.callbacks_nodup)).2.1

theorem dues_callbacks (hh : Legal c h next) {call : Telling} (hc : call ∈ dues c h) :
    call.1 ∈ callbacks h :=
  hh.accepted.mem_iff.2 (List.mem_append_right _ (List.mem_map_of_mem hc))

/-- Nobody is called while it waits. -/
theorem dues_waiters (hh : Legal c h next) {w : Waiter LatchId} (hw : w ∈ (shelf c h).waiters)
    (x : Except String Reply) : (w.callback, x) ∉ dues c h := by
  intro hd
  obtain ⟨-, -, hdisjoint⟩ := List.nodup_append.1 (hh.accepted.nodup_iff.1 hh.callbacks_nodup)
  exact hdisjoint _ (List.mem_map_of_mem hw) _ (List.mem_map_of_mem hd) rfl

theorem dues_eq (hh : Legal c h next) {l : LatchId} {x y : Except String Reply}
    (hx : (l, x) ∈ dues c h) (hy : (l, y) ∈ dues c h) : x = y :=
  congrArg Prod.snd (List.inj_on_of_nodup_map hh.dues_nodup hx hy rfl)

theorem called_due {l : LatchId} {notice : Notice Parcel} (hc : (l, notice) ∈ called c h) :
    (l, reply notice) ∈ dues c h := by
  obtain ⟨before, n, rest, heq, hc⟩ := mem_along.1 hc
  exact mem_along.2 ⟨before, n, rest, heq,
    List.mem_append_left _ (List.mem_map_of_mem hc)⟩

theorem served_due {x : Served} (hx : x ∈ served c h) : (x.1.callback, reply x.2) ∈ dues c h := by
  obtain ⟨before, n, rest, heq, hx⟩ := mem_along.1 hx
  refine called_due (mem_along.2 ⟨before, n, rest, heq, List.mem_append_left _ ?_⟩)
  exact List.mem_map_of_mem hx

theorem left_due {w : Waiter LatchId} (hw : w ∈ left c h) :
    (w.callback, interrupted) ∈ dues c h := by
  obtain ⟨before, n, rest, heq, hw⟩ := mem_along.1 hw
  exact mem_along.2 ⟨before, n, rest, heq,
    List.mem_append_right _ (List.mem_map_of_mem hw)⟩

/-- Whoever is called has asked and been answered, has been served, or has left. -/
theorem mem_dues {l : LatchId} {x : Except String Reply} (hd : (l, x) ∈ dues c h) :
    (∃ notice, (l, notice) ∈ called c h ∧ x = reply notice) ∨
      (x = interrupted ∧ ∃ w ∈ left c h, w.callback = l) := by
  obtain ⟨before, n, rest, heq, hd⟩ := mem_along.1 hd
  obtain hd | hd := List.mem_append.1 hd
  · obtain ⟨⟨l', notice⟩, hc, hcall⟩ := List.mem_map.1 hd
    obtain ⟨rfl, rfl⟩ := Prod.mk.inj hcall
    exact .inl ⟨notice, mem_along.2 ⟨before, n, rest, heq, hc⟩, rfl⟩
  · obtain ⟨w, hw, hcall⟩ := List.mem_map.1 hd
    obtain ⟨rfl, rfl⟩ := Prod.mk.inj hcall
    exact .inr ⟨rfl, w, mem_along.2 ⟨before, n, rest, heq, hw⟩, rfl⟩

/-- Everybody has one fate. -/
theorem fates_nodup (hh : Legal c h next) :
    (((shelf c h).waiters ++ (served c h).map (·.1) ++ left c h).map (·.id)).Nodup :=
  (hh.flow.map _).nodup_iff.1 hh.ids_nodup

theorem joined_eq (hh : Legal c h next) {w w' : Waiter LatchId} (hw : w ∈ joined h)
    (hw' : w' ∈ joined h) (hid : w.id = w'.id) : w = w' :=
  List.inj_on_of_nodup_map hh.ids_nodup hw hw' hid

theorem waiters_joined (hh : Legal c h next) {w : Waiter LatchId}
    (hw : w ∈ (shelf c h).waiters) : w ∈ joined h :=
  hh.flow.mem_iff.2 (List.mem_append_left _ (List.mem_append_left _ hw))

/-- The waiter of a number is the only one. -/
theorem filter_waiters (hh : Legal c h next) {w : Waiter LatchId} (hj : w ∈ joined h)
    (hany : (shelf c h).waiters.any (·.id == w.id) = true) :
    (shelf c h).waiters.filter (·.id == w.id) = [w] := by
  obtain ⟨w', hw', hid⟩ := List.any_eq_true.1 hany
  obtain rfl := hh.joined_eq (hh.waiters_joined hw') hj (eq_of_beq hid)
  have hnodup : (shelf c h).waiters.Nodup := by
    have hall := hh.fates_nodup
    rw [List.map_append, List.map_append] at hall
    exact .of_map _ (List.nodup_append.1 (List.nodup_append.1 hall).1).1
  have heq : ∀ v ∈ (shelf c h).waiters, (v.id == w'.id) = (v == w') := by
    intro v hv
    rw [Bool.eq_iff_iff, beq_iff_eq, beq_iff_eq]
    constructor
    · exact hh.joined_eq (hh.waiters_joined hv) hj
    · rintro rfl
      rfl
  rw [List.filter_congr heq, List.filter_beq, List.count_eq_one_of_mem hnodup hw']
  rfl

end History.Legal
end Effects.MVar.Queue
