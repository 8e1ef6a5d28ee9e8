import Effects.MVar.Slot

/-!
Any number of operations on one slot, whose atomic steps are taken in any order. An operation is
called back under its own number. Accepted puts and takes are listed in the order of the writes that
accept them, and a waiter that leaves the queue leaves the list.
-/

namespace Effects.MVar

variable {α : Type}

/-- What an operation asks for. -/
inductive Ask (α : Type) where
  | put (a : α)
  | take
  | read
  | tryPut (a : α)
  | tryTake
  | tryRead
  | isEmpty
  | leave (id : Nat)
  deriving DecidableEq

namespace Ask

def request (i : Nat) : Ask α → Request α Nat
  | .put a => .put a i
  | .take => .take i
  | .read => .read i
  | .tryPut a => .tryPut a
  | .tryTake => .tryTake
  | .tryRead => .tryRead
  | .isEmpty => .isEmpty
  | .leave id => .leave id

def takes : Ask α → Bool
  | .take | .tryTake => true
  | _ => false

def puts : Ask α → Bool
  | .put _ | .tryPut _ => true
  | _ => false

end Ask

namespace Contents

variable {κ : Type}

/-- Whom the waiters with that number have called back. -/
def callbacks (id : Nat) : Contents α κ → List κ
  | .empty readers takers => ((readers ++ takers).filter (·.id == id)).map (·.callback)
  | .full _ putters => (putters.filter (·.2.id == id)).map (·.2.callback)

end Contents

/-- An answer taken as a call of the operation that it answers. -/
def Answer.call (i : Nat) : Answer α → List (Call α Nat)
  | .item (some a) => [(i, .value a)]
  | .flag true => [(i, .room)]
  | _ => []

namespace Phase

/-- Whether the next step writes to the cell. -/
def writes (s : Slot α Nat) : Phase α Nat → Bool
  | .writing seen next _ _ | .joining seen next _ => (s.cell.compareAndSet seen next).2
  | _ => false

/-- What an operation is still to tell, its own answer last. -/
def calls (i : Nat) : Phase α Nat → List (Call α Nat)
  | .notifying calls answer => calls ++ answer.call i
  | .done answer => answer.call i
  | _ => []

/-- Nothing has been written for the operation yet, and it has no answer. -/
def isOpen : Phase α Nat → Bool
  | .reading | .writing _ _ _ _ | .enqueuing | .joining _ _ _ => true
  | _ => false

end Phase

/-- Who has been accepted and has not left since. -/
structure Accepted (α : Type) where
  /-- The value that was in the slot at the beginning was put by nobody. -/
  puts : List (Option Nat × α)
  takes : List Nat
  deriving DecidableEq

namespace Accepted

/-- The lists after a write for the operation, which was to replace these contents. -/
def record (s : Accepted α) (contents : Contents α Nat) (i : Nat) : Ask α → Accepted α
  | .put a | .tryPut a => { s with puts := s.puts ++ [(some i, a)] }
  | .take | .tryTake => { s with takes := s.takes ++ [i] }
  | .leave id =>
      let left := contents.callbacks id
      ⟨s.puts.filter fun p => !p.1.any left.contains, s.takes.filter fun i => !left.contains i⟩
  | _ => s

/-- Every take with the value of the put of the same rank. -/
def given (s : Accepted α) : List (Call α Nat) :=
  (s.takes.zip s.puts).map fun x => (x.1, .value x.2.2)

/-- The puts whose values have gone to a taker, and the one whose value is in the slot. -/
def placed (s : Accepted α) : List (Option Nat × α) := s.puts.take (s.takes.length + 1)

def rooms (s : Accepted α) : List (Call α Nat) :=
  s.placed.filterMap fun p => p.1.map fun i => (i, .room)

end Accepted

structure Traffic (α : Type) where
  slot : Slot α Nat
  phases : List (Phase α Nat)
  told : List (Call α Nat)
  accepted : Accepted α
  deriving DecidableEq

namespace Traffic

def start (held : Option α) (cancelable : Bool) (asks : List (Ask α)) : Traffic α where
  slot := .new (held.elim (.empty [] []) fun a => .full a []) cancelable
  phases := asks.map fun _ => .reading
  told := []
  accepted := ⟨held.toList.map fun a => (none, a), []⟩

/-- One atomic step of the operation with that number. -/
def step (asks : List (Ask α)) (s : Traffic α) (i : Nat) : Traffic α :=
  match asks[i]?, s.phases[i]? with
  | some ask, some phase =>
      let (slot, next, call) := phase.step (ask.request i) s.slot
      { slot
        phases := s.phases.set i next
        told := s.told ++ call.toList
        accepted :=
          if phase.writes s.slot then s.accepted.record s.slot.contents i ask else s.accepted }
  | _, _ => s

def run (asks : List (Ask α)) (s : Traffic α) (order : List Nat) : Traffic α :=
  order.foldl (step asks) s

/-- The calls made, and those that are still to be made. -/
def outgoing (s : Traffic α) : List (Call α Nat) :=
  s.told ++ s.phases.zipIdx.flatMap fun x => x.1.calls x.2

end Traffic
end Effects.MVar
