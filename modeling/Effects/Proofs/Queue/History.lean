import Mathlib.Data.List.Nodup
import Effects.Proofs.Queue.Asks

/-!
The history of a slot: what was done to it, one after the other. It is replayed with values that say
which waiter, if any, has put them, and every replayed step serves some of the waiters, answers the
one who takes it, or lets one leave.
-/

namespace Effects.MVar

open Service

namespace Queue

abbrev History := List Note

/-- A value, with the number of the putter that has waited to put it. -/
structure Parcel where
  from? : Option Nat
  value : Value

abbrev Shelf := Contents Parcel LatchId

abbrev Served := Waiter LatchId × Notice Parcel

def plainNotice : Notice Parcel → Notice Value
  | .value p => .value p.value
  | .room => .room

def reply (notice : Notice Parcel) : Except String Reply := told (plainNotice notice)

end Queue

namespace Contents

open Queue

def plain : Shelf → Contents Value LatchId
  | .empty readers takers => .empty readers takers
  | .full held putters => .full held.value (putters.map fun x => (x.1.value, x.2))

def waiters : Shelf → List (Waiter LatchId)
  | .empty readers takers => readers ++ takers
  | .full _ putters => putters.map (·.2)

variable (c : Shelf)

theorem plain_offer? (a : Value) : c.plain.offer? a =
    (c.offer? ⟨none, a⟩).map fun x => (x.1.plain, x.2.map fun call => (call.1, plainNotice call.2)) := by
  cases c with
  | full held putters => rfl
  | empty readers takers =>
    cases takers <;> simp [plain, Contents.offer?, plainNotice]

theorem plain_poll? : c.plain.poll? = c.poll?.map fun x =>
    (x.1.plain, x.2.1.map fun call => (call.1, plainNotice call.2), x.2.2.value) := by
  cases c with
  | empty readers takers => rfl
  | full held putters => cases putters <;> rfl

theorem plain_held? : c.plain.held? = c.held?.map Parcel.value := by
  cases c <;> rfl

theorem plain_withPutter? (p : Parcel) (w : Waiter LatchId) :
    c.plain.withPutter? p.value w = (c.withPutter? p w).map plain := by
  cases c <;> simp [plain, Contents.withPutter?]

theorem plain_withTaker? (w : Waiter LatchId) :
    c.plain.withTaker? w = (c.withTaker? w).map plain := by
  cases c <;> rfl

theorem plain_withReader? (w : Waiter LatchId) :
    c.plain.withReader? w = (c.withReader? w).map plain := by
  cases c <;> rfl

theorem plain_without (id : Nat) : c.plain.without id = (c.without id).plain := by
  cases c with
  | empty readers takers => rfl
  | full held putters => simp [plain, Contents.without, List.filter_map, Function.comp_def]

theorem plain_waiting (id : Nat) : c.plain.waiting id = c.waiters.any (·.id == id) := by
  cases c with
  | empty readers takers => rfl
  | full held putters => simp [plain, Contents.waiting, waiters, List.any_map, Function.comp_def]

theorem waiters_without (id : Nat) : (c.without id).waiters = c.waiters.filter (·.id != id) := by
  cases c with
  | empty readers takers => simp [Contents.without, waiters]
  | full held putters => simp [Contents.without, waiters, List.filter_map, Function.comp_def]

end Contents

namespace Queue
namespace Note

/-- The slot after a step that finds it as it should be. -/
def onto? (c : Shelf) : Note → Option Shelf
  | .queued id l (.room a) => c.withPutter? ⟨some id, a⟩ ⟨id, l⟩
  | .queued id l .value => c.withTaker? ⟨id, l⟩
  | .queued id l .look => c.withReader? ⟨id, l⟩
  | .offered _ a => (c.offer? ⟨none, a⟩).map (·.1)
  | .polled _ => c.poll?.map (·.1)
  | .looked _ => c.held?.map fun _ => c
  | .removed id => if c.waiters.any (·.id == id) then some (c.without id) else none

def apply (c : Shelf) (n : Note) : Shelf := (n.onto? c).getD c

def joins : Note → List (Waiter LatchId)
  | .queued id l _ => [⟨id, l⟩]
  | _ => []

/-- Who is served without having waited. -/
def asks : Note → List LatchId
  | .offered who _ | .polled who => who.toList
  | .looked l => [l]
  | _ => []

/-- Who is taken off the queue, and what they are told. -/
def serves (c : Shelf) : Note → List Served
  | .offered _ a =>
      match c with
      | .empty readers takers => (readers ++ takers.take 1).map fun w => (w, .value ⟨none, a⟩)
      | .full _ _ => []
  | .polled _ =>
      match c with
      | .empty _ _ => []
      | .full _ putters => (putters.take 1).map fun x => (x.2, .room)
  | _ => []

/-- What the one who takes the step is told. -/
def answers (c : Shelf) : Note → List (LatchId × Notice Parcel)
  | .offered who _ => who.toList.map fun l => (l, .room)
  | .polled who => c.held?.toList.flatMap fun p => who.toList.map fun l => (l, .value p)
  | .looked l => c.held?.toList.map fun p => (l, .value p)
  | _ => []

def leaves (c : Shelf) : Note → List (Waiter LatchId)
  | .removed id => c.waiters.filter (·.id == id)
  | _ => []

/-- The notices that go out for a step. -/
def calls (c : Shelf) (n : Note) : List (LatchId × Notice Parcel) :=
  (n.serves c).map (fun x => (x.1.callback, x.2)) ++ n.answers c

def due (c : Shelf) (n : Note) : List Telling :=
  (n.calls c).map (fun call => (call.1, reply call.2)) ++
    (n.leaves c).map fun w => (w.callback, interrupted)

end Note

namespace History

variable {β : Type}

/-- The slot as it was in the beginning, after all that was done. -/
def shelf (c : Shelf) (h : History) : Shelf := h.foldl Note.apply c

/-- What every step gives, one after the other. -/
def along (f : Shelf → Note → List β) (c : Shelf) : History → List β
  | [] => []
  | n :: h => f c n ++ along f (n.apply c) h

def joined (h : History) : List (Waiter LatchId) := h.flatMap Note.joins

/-- Whom the slot was asked to call back. -/
def callbacks (h : History) : List LatchId :=
  h.flatMap fun n => n.joins.map (·.callback) ++ n.asks

def served (c : Shelf) (h : History) : List Served := along (fun c n => n.serves c) c h

def called (c : Shelf) (h : History) : List (LatchId × Notice Parcel) :=
  along (fun c n => n.calls c) c h

def left (c : Shelf) (h : History) : List (Waiter LatchId) := along (fun c n => n.leaves c) c h

def dues (c : Shelf) (h : History) : List Telling := along (fun c n => n.due c) c h

variable (c : Shelf) (a b h : History) (n : Note)

theorem shelf_append : shelf c (a ++ b) = shelf (shelf c a) b := List.foldl_append

theorem along_append (f : Shelf → Note → List β) :
    along f c (a ++ b) = along f c a ++ along f (shelf c a) b := by
  induction a generalizing c with
  | nil => rfl
  | cons n a ih => simp [along, ih, shelf]

theorem along_concat (f : Shelf → Note → List β) :
    along f c (h ++ [n]) = along f c h ++ f (shelf c h) n := by
  rw [along_append]
  simp [along]

theorem joined_concat : joined (h ++ [n]) = joined h ++ n.joins := by
  simp [joined]

theorem callbacks_concat :
    callbacks (h ++ [n]) = callbacks h ++ (n.joins.map (·.callback) ++ n.asks) := by
  simp [callbacks]

/-- Whatever a step gave is there. -/
theorem mem_along {f : Shelf → Note → List β} {c : Shelf} {h : History} {x : β} :
    x ∈ along f c h ↔ ∃ before n rest, h = before ++ n :: rest ∧ x ∈ f (shelf c before) n := by
  induction h generalizing c with
  | nil => simp [along]
  | cons n h ih =>
    rw [along, List.mem_append, ih]
    constructor
    · rintro (hx | ⟨before, m, rest, rfl, hx⟩)
      · exact ⟨[], n, h, rfl, hx⟩
      · exact ⟨n :: before, m, rest, rfl, hx⟩
    · rintro ⟨_ | ⟨m, before⟩, n', rest, heq, hx⟩
      · obtain ⟨rfl, rfl⟩ := List.cons.inj heq
        exact .inl hx
      · obtain ⟨rfl, rfl⟩ := List.cons.inj heq
        exact .inr ⟨before, n', rest, rfl, hx⟩

end History

section Steps

variable {c c' : Shelf} {n : Note}

/-- What a step does to the slot that it finds as it should be. -/
inductive Note.Onto : Shelf → Note → Shelf → Prop
  | putter {held : Parcel} {putters : List (Parcel × Waiter LatchId)} (id : Nat) (l : LatchId)
      (a : Value) : Onto (.full held putters) (.queued id l (.room a))
        (.full held (putters ++ [(⟨some id, a⟩, ⟨id, l⟩)]))
  | taker {readers takers : List (Waiter LatchId)} (id : Nat) (l : LatchId) :
      Onto (.empty readers takers) (.queued id l .value) (.empty readers (takers ++ [⟨id, l⟩]))
  | reader {readers takers : List (Waiter LatchId)} (id : Nat) (l : LatchId) :
      Onto (.empty readers takers) (.queued id l .look) (.empty (readers ++ [⟨id, l⟩]) takers)
  | fills {readers : List (Waiter LatchId)} (who : Option LatchId) (a : Value) :
      Onto (.empty readers []) (.offered who a) (.full ⟨none, a⟩ [])
  | hands {readers rest : List (Waiter LatchId)} {taker : Waiter LatchId} (who : Option LatchId)
      (a : Value) : Onto (.empty readers (taker :: rest)) (.offered who a) (.empty [] rest)
  | empties {held : Parcel} (who : Option LatchId) :
      Onto (.full held []) (.polled who) (.empty [] [])
  | refills {held : Parcel} {x : Parcel × Waiter LatchId} {rest : List (Parcel × Waiter LatchId)}
      (who : Option LatchId) : Onto (.full held (x :: rest)) (.polled who) (.full x.1 rest)
  | looks {c : Shelf} {p : Parcel} (l : LatchId) (hp : c.held? = some p) : Onto c (.looked l) c
  | removes {c : Shelf} {id : Nat} (hw : c.waiters.any (·.id == id) = true) :
      Onto c (.removed id) (c.without id)

theorem Note.onto_of (h : n.onto? c = some c') : Onto c n c' := by
  cases n with
  | queued id l want =>
    cases want <;> cases c <;> cases h
    · exact .putter id l _
    · exact .taker id l
    · exact .reader id l
  | offered who a =>
    cases c with
    | full held putters => cases h
    | empty readers takers =>
      cases takers <;> cases h
      · exact .fills who a
      · exact .hands who a
  | polled who =>
    cases c with
    | empty readers takers => cases h
    | full held putters =>
      cases putters <;> cases h
      · exact .empties who
      · exact .refills who
  | looked l =>
    obtain ⟨p, hp, rfl⟩ := Option.map_eq_some_iff.1 h
    exact .looks l hp
  | removed id =>
    obtain ⟨hw, h⟩ := Option.ite_none_right_eq_some.1 h
    obtain rfl := Option.some.inj h
    exact .removes hw

theorem Note.apply_eq (h : n.onto? c = some c') : n.apply c = c' := by
  rw [Note.apply, h, Option.getD_some]

theorem Note.serves_offered {a : Value} {x : Shelf × List (Call Parcel LatchId)}
    (h : c.offer? ⟨none, a⟩ = some x) (who : Option LatchId) :
    ((Note.offered who a).serves c).map (fun y => (y.1.callback, y.2)) = x.2 := by
  cases c with
  | full held putters => cases h
  | empty readers takers => cases takers <;> cases h <;> simp [Note.serves]

theorem Note.serves_polled {x : Shelf × List (Call Parcel LatchId) × Parcel}
    (h : c.poll? = some x) (who : Option LatchId) :
    ((Note.polled who).serves c).map (fun y => (y.1.callback, y.2)) = x.2.1 ∧
      c.held? = some x.2.2 := by
  cases c with
  | empty readers takers => cases h
  | full held putters => cases putters <;> cases h <;> exact ⟨rfl, rfl⟩

/-- Everybody who was waiting or comes goes on waiting, is served, or leaves. -/
theorem Note.waiters_perm (h : n.onto? c = some c') :
    (c.waiters ++ n.joins).Perm (c'.waiters ++ (n.serves c).map (·.1) ++ n.leaves c) := by
  cases onto_of h with
  | putter | taker => simp [Contents.waiters, Note.joins, Note.serves, Note.leaves]
  | reader =>
    simp only [Contents.waiters, Note.joins, Note.serves, Note.leaves, List.map_nil,
      List.append_nil, List.append_assoc]
    exact List.perm_append_comm.append_left _
  | fills => simp [Contents.waiters, Note.joins, Note.serves, Note.leaves, Function.comp_def]
  | @hands readers rest taker =>
    simp only [Contents.waiters, Note.joins, Note.serves, Note.leaves, List.append_nil,
      List.nil_append, List.map_map, Function.comp_def, List.map_id',
      List.take_succ_cons, List.take_zero]
    simpa using @List.perm_append_comm _ (readers ++ [taker]) rest
  | empties => rfl
  | @refills held x rest =>
    simp only [Contents.waiters, Note.joins, Note.serves, Note.leaves, List.append_nil,
      List.map_cons, List.take_succ_cons, List.take_zero, List.map_nil]
    exact (List.perm_append_singleton x.2 _).symm
  | looks => simp [Note.joins, Note.serves, Note.leaves]
  | @removes _ id =>
    simp only [Contents.waiters_without, Note.joins, Note.serves, Note.leaves, List.map_nil,
      List.append_nil]
    have hsplit := List.filter_append_perm (fun w : Waiter LatchId => w.id != id) c.waiters
    simpa [bne, Bool.not_not] using hsplit.symm

/-- Whoever is answered has asked. -/
theorem Note.answers_asks (h : n.onto? c = some c') : (n.answers c).map (·.1) = n.asks := by
  cases onto_of h with
  | fills | hands => simp [Note.answers, Note.asks, Function.comp_def]
  | empties | refills => simp [Note.answers, Note.asks, Contents.held?, Function.comp_def]
  | looks l hp => simp [Note.answers, Note.asks, hp]
  | _ => rfl

/-- The same of their callbacks: those who are done with have one call due. -/
theorem Note.callbacks_perm (h : n.onto? c = some c') :
    (c.waiters.map (·.callback) ++ (n.joins.map (·.callback) ++ n.asks)).Perm
      (c'.waiters.map (·.callback) ++ (n.due c).map (·.1)) := by
  have hw := (n.waiters_perm h).map (·.callback)
  simp only [List.map_append, List.map_map] at hw
  have hdue : (n.due c).map (·.1) = (n.serves c).map (fun x => x.1.callback) ++ n.asks ++
      (n.leaves c).map (·.callback) := by
    simp [Note.due, Note.calls, ← n.answers_asks h, Function.comp_def]
  rw [hdue, ← List.append_assoc]
  refine (hw.append_right n.asks).trans ?_
  simp only [List.append_assoc, Function.comp_def]
  exact (List.perm_append_comm.append_left _).append_left _

/-- Those who wait do so in the order in which they came. -/
def Queued (c : Shelf) (js : List (Waiter LatchId)) : Prop :=
  match c with
  | .empty readers takers => readers.Sublist js ∧ takers.Sublist js
  | .full _ putters => (putters.map (·.2)).Sublist js

theorem Note.queued_apply {js : List (Waiter LatchId)} (h : n.onto? c = some c')
    (hc : Queued c js) : Queued c' (js ++ n.joins) := by
  have hmore : ∀ {ws : List (Waiter LatchId)}, ws.Sublist js → ws.Sublist (js ++ n.joins) :=
    fun hs => hs.trans (List.sublist_append_left _ _)
  cases onto_of h with
  | putter id l => simpa [Queued, Note.joins] using List.Sublist.append hc (.refl [⟨id, l⟩])
  | taker => exact ⟨hmore hc.1, hc.2.append (.refl _)⟩
  | reader => exact ⟨hc.1.append (.refl _), hmore hc.2⟩
  | fills => exact List.nil_sublist _
  | hands => exact ⟨List.nil_sublist _, hmore ((List.sublist_cons_self _ _).trans hc.2)⟩
  | empties => exact ⟨List.nil_sublist _, List.nil_sublist _⟩
  | refills => exact hmore ((List.sublist_cons_self _ _).trans hc)
  | looks l =>
    have hjs : js ++ (Note.looked l).joins = js := List.append_nil js
    rw [hjs]
    exact hc
  | removes =>
    cases c with
    | empty readers takers =>
      exact ⟨hmore (List.filter_sublist.trans hc.1), hmore (List.filter_sublist.trans hc.2)⟩
    | full held putters => exact hmore ((List.filter_sublist.map _).trans hc)

end Steps
end Queue
end Effects.MVar
