import Effects.MVar
import Effects.Proofs.Service.Desk

/-!
What threads ask of a slot, and the atomic steps that each request goes through.
-/

namespace Effects.MVar.Queue

open Service

variable {α : Type} [Datum α]

inductive Visit (α : Type) where
  | put (a : α)
  | take
  | read
  | tryPut (a : α)
  | tryTake
  | tryRead
  | isEmpty

/-- Whatever errors the effect is said to have, it is the same computation. -/
def Visit.node (m : MVar α) : Visit α → Node
  | .put a => (m.put a : Effect Unit Unit).node
  | .take => (m.take : Effect Unit α).node
  | .read => (m.read : Effect Unit α).node
  | .tryPut a => (m.tryPut a : Effect Unit Bool).node
  | .tryTake => (m.tryTake : Effect Unit (Option α)).node
  | .tryRead => (m.tryRead : Effect Unit (Option α)).node
  | .isEmpty => (m.isEmpty : Effect Unit Bool).node

abbrev Asking := Request Value LatchId

abbrev Asking.callback? : Asking → Option LatchId
  | .put _ l | .take l | .read l => some l
  | _ => none

/-- A request, together with the callback to wake when it has removed a waiter. -/
structure Deed where
  request : Asking
  wakes : Option LatchId := none

abbrev Reported := Answer Value

abbrev Stage := Service.Stage (Phase Value LatchId) Reported

/-- What a waiter waits for. -/
inductive Want where
  | room (a : Value)
  | value
  | look

/-- What is done to a slot, where each is one step. -/
inductive Note where
  | queued (id : Nat) (l : LatchId) (want : Want)
  /-- A value is put into the empty slot, for somebody who waits to hear of it or not. -/
  | offered (who : Option LatchId) (a : Value)
  | polled (who : Option LatchId)
  /-- A reader finds a value. -/
  | looked (l : LatchId)
  | removed (id : Nat)

/-- What a request writes that is served at once. -/
def Asking.serving : Asking → List Note
  | .put a l => [.offered (some l) a]
  | .tryPut a => [.offered none a]
  | .take l => [.polled (some l)]
  | .tryTake => [.polled none]
  | .leave id => [.removed id]
  | _ => []

def Asking.queuing (id : Nat) : Asking → List Note
  | .put a l => [.queued id l (.room a)]
  | .take l => [.queued id l .value]
  | .read l => [.queued id l .look]
  | _ => []

/-- What a step of a request does to the slot. -/
def notesOf (r : Asking) (s : Slots) : Phase Value LatchId → List Note
  | .reading =>
      match r, s.contents.held? with
      | .read l, some _ => [.looked l]
      | _, _ => []
  | .writing seen next _ _ =>
      if (s.cell.compareAndSet seen next).2 then Asking.serving r else []
  | .joining seen next id =>
      if (s.cell.compareAndSet seen next).2 then Asking.queuing id r else []
  | .enqueuing | .notifying _ _ | .done _ => []

def subject (m : MVar α) : Subject (Visit α) Slots Note where
  node := Visit.node m
  state w := w.slots[m.id]?
  note w
    | .slot i r phase => if i = m.id then (w.slots[i]?).elim [] fun s => notesOf r s phase else []
    | _ => []

/-- What a callback is told. -/
def told (notice : Notice Value) : Except String Reply := .ok (World.Notice.reply notice)

def Deed.wakes? (d : Deed) (a : Reported) : Option LatchId :=
  if a = .flag true then d.wakes else none

def store (m : MVar α) : Store Slots Deed (Phase Value LatchId) Reported where
  state w := w.slots[m.id]?
  op d phase := .slot m.id d.request phase
  step d phase s := ((phase.step d.request s).1, (phase.step d.request s).2.1,
    (phase.step d.request s).2.2.map fun call => (call.1, told call.2))
  start := .reading
  answer?
    | .done a => some a
    | _ => none
  reply := Reply.toSlot
  wakes? := Deed.wakes?

def isTrue (a : Reported) : Bool := a = .flag true

def found (a : Reported) : Option Value :=
  match a with
  | .item v => v
  | _ => none

def Visit.asked : Visit α → Asked Deed Reported
  | .put a => .wait fun l => ⟨.put (write a) l, none⟩
  | .take => .wait fun l => ⟨.take l, none⟩
  | .read => .wait fun l => ⟨.read l, none⟩
  | .tryPut a => .now ⟨.tryPut (write a), none⟩ fun x =>
      .build (Effect.pure (isTrue x) : Effect Unit Bool).node
  | .tryTake => .now ⟨.tryTake, none⟩ fun x =>
      .build (Effect.pure ((found x).map Datum.read) : Effect Unit (Option α)).node
  | .tryRead => .now ⟨.tryRead, none⟩ fun x =>
      .build (Effect.pure ((found x).map Datum.read) : Effect Unit (Option α)).node
  | .isEmpty => .now ⟨.isEmpty, none⟩ fun x =>
      .build (Effect.pure (isTrue x) : Effect Unit Bool).node

/-- A waiter of that number can be taken back, where the slot allows it. -/
def undo (m : MVar α) (d : Deed) : Reported → Option Deed
  | .queued id => if m.cancelable then (Asking.callback? d.request).map fun l => ⟨.leave id, some l⟩
      else none
  | _ => none

def procedure (m : MVar α) : Procedure (Visit α) Slots Note Deed Stage Reported :=
  (store m).procedure Visit.asked (fun d phase s => notesOf d.request s phase) (undo m)

section Steps

variable (m : MVar α) (d : Deed) (phase : Phase Value LatchId) (s : Slots)

theorem step_at : (procedure m).step d (.at phase) s =
    ((phase.step d.request s).1, (store m).after d (phase.step d.request s).2.1,
      (phase.step d.request s).2.2.map fun call => (call.1, told call.2)) := rfl

theorem note_at : (procedure m).note d (.at phase) s = notesOf d.request s phase := rfl

end Steps

theorem code_eq (m : MVar α) (d : Deed) (k : Reported → Code) :
    (procedure m).code d (.at .reading) k = m.run d.request ((store m).next d k) := rfl

omit [Datum α] in
theorem next_eq (m : MVar α) (r : Asking) (k : Reported → Code) :
    (store m).next ⟨r, none⟩ k = k := by
  funext a
  simp [Store.next, store, Deed.wakes?]

theorem leave_eq (m : MVar α) (id : Nat) (l : LatchId) :
    m.leave id l = (procedure m).token ⟨.leave id, some l⟩ := by
  refine Eq.trans ?_ (code_eq m ⟨.leave id, some l⟩ fun _ => .give .unit).symm
  show m.run (.leave id) _ = m.run (.leave id) _
  congr 1
  funext a
  by_cases ha : a = .flag true
  · simp only [ha, Store.next, store, Deed.wakes?, if_true]
    rfl
  · simp only [ha, Store.next, store, Deed.wakes?, if_false]
    rfl

/-- Whoever waits registers a request, and a token where that is allowed. -/
theorem wait_node {β : Type} [Datum β] (m : MVar α) (r : LatchId → Asking)
    (hr : ∀ l, Asking.callback? (r l) = some l) :
    (m.wait r : Effect Unit β).node = .async ((procedure m).register fun l => ⟨r l, none⟩) := by
  refine congrArg Node.async (funext fun l => ?_)
  refine Eq.trans ?_ (code_eq m ⟨r l, none⟩ ((procedure m).guard ⟨r l, none⟩)).symm
  rw [next_eq]
  show m.run (r l) _ = m.run (r l) _
  congr 1
  funext a
  cases a with
  | queued id =>
    show Code.guard _ = Code.guard _
    simp only [procedure, Store.procedure, undo, hr, Option.map_some]
    cases m.cancelable with
    | false => rfl
    | true => exact congrArg (fun token => Code.guard (some token)) (leave_eq m id l)
  | _ => rfl

theorem flag_node (m : MVar α) (r : Asking) :
    (Effect.delay (m.flag r) : Effect Unit Bool).node =
      .suspend ((procedure m).code ⟨r, none⟩ (procedure m).start fun x =>
        .build (Effect.pure (isTrue x) : Effect Unit Bool).node) := by
  refine congrArg Node.suspend (Eq.trans ?_ (code_eq m ⟨r, none⟩ _).symm)
  rw [next_eq]
  rfl

theorem item_node (m : MVar α) (r : Asking) :
    (Effect.delay (m.item r) : Effect Unit (Option α)).node =
      .suspend ((procedure m).code ⟨r, none⟩ (procedure m).start fun x =>
        .build (Effect.pure ((found x).map Datum.read) : Effect Unit (Option α)).node) := by
  refine congrArg Node.suspend (Eq.trans ?_ (code_eq m ⟨r, none⟩ _).symm)
  rw [next_eq]
  show m.run r _ = m.run r _
  congr 1
  funext a
  cases a <;> rfl

/-- The thread that takes a step of a request goes on with the next one, or with the answer. -/
theorem perform_slot {w : World} {i : SlotId} {s : Slots} (hw : w.slots[i]? = some s)
    (here : Place) (r : Asking) (phase : Phase Value LatchId) :
    (w.perform here (.slot i r phase)).2 =
      match (phase.step r s).2.1 with
      | .done a => .reply (.slot a)
      | phase => .again (.slot i r phase) := by
  rcases hstep : phase.step r s with ⟨s', phase', call⟩
  simp only [World.perform, World.onSlot, hw, hstep]
  cases phase' <;> rfl

theorem lawful (m : MVar α) : (store m).Lawful (subject m) Visit.asked
    (fun d phase s => notesOf d.request s phase) (undo m) where
  state := rfl
  world := by
    intro w s hs here d phase
    have hw : w.slots[m.id]? = some s := hs
    obtain ⟨hlt, -⟩ := Array.getElem?_eq_some_iff.1 hw
    have hworld : (w.perform here (.slot m.id d.request phase)).1 = _ :=
      World.onSlot_world hw d.request phase
    constructor
    · show (w.perform here (.slot m.id d.request phase)).1.slots[m.id]? = _
      rw [hworld]
      split <;> simp [store, World.settle, hlt]
    · show (w.perform here (.slot m.id d.request phase)).1.latches = _
      rw [hworld]
      simp only [store]
      cases (phase.step d.request s).2.2 <;> rfl
  response := by
    intro w s hs here d phase
    have hw : w.slots[m.id]? = some s := hs
    have hresponse := perform_slot hw here d.request phase
    simp only [store]
    cases hphase : (phase.step d.request s).2.1 with
    | done a =>
      rw [hphase] at hresponse
      exact .inr ⟨_, rfl, hresponse⟩
    | _ =>
      rw [hphase] at hresponse
      exact .inl ⟨rfl, hresponse⟩
  signs := by
    intro w s hs i d phase
    have hw : w.slots[m.id]? = some s := hs
    simp only [store, signs, subject, World.told?, hw, if_true, Option.elim, Option.bind_some]
    cases (phase.step d.request s).2.2 <;> rfl
  settle w l x := ⟨rfl, rfl⟩
  aside := by
    intro op hop w here
    cases op with
    | connection c op =>
      refine ⟨?_, rfl⟩
      cases op <;> first | rfl | (simp only [World.perform, World.onConnection]; split <;> rfl)
    | openLatch => exact ⟨rfl, rfl⟩
    | await l =>
      refine ⟨?_, rfl⟩
      simp only [World.perform]
      split <;> rfl
    | _ => exact hop.elim
  now := by
    intro g r k hg
    cases g with
    | tryPut a | isEmpty =>
      cases hg
      exact ⟨flag_node m _, fun a => rfl⟩
    | tryTake | tryRead =>
      cases hg
      exact ⟨item_node m _, fun a => rfl⟩
    | _ => cases hg
  wait := by
    intro g r hg
    cases g with
    | put a =>
      cases hg
      exact wait_node (β := Unit) m (.put (write a)) fun _ => rfl
    | take =>
      cases hg
      exact wait_node (β := α) m .take fun _ => rfl
    | read =>
      cases hg
      exact wait_node (β := α) m .read fun _ => rfl
    | _ => cases hg

theorem serves (m : MVar α) : (procedure m).Serves (subject m) := (lawful m).serves

end Effects.MVar.Queue
