import Effects.Cell

/-!
A slot that is empty or full, and those who wait at it. While it is empty, readers and takers wait
for a value; while it is full, putters wait for room, each with the value to put. An operation runs
in atomic steps: it reads the contents, tries to replace what it read by a compare-and-set, starting
over if that fails, and then notifies one after the other those who no longer wait.
-/

namespace Effects.MVar

/-- One who waits: a number to be found by, and whom to call back. -/
structure Waiter (κ : Type) where
  id : Nat
  callback : κ
  deriving DecidableEq

/-- What a callback is told: a value, or that there was room for the value put. -/
inductive Notice (α : Type) where
  | value (a : α)
  | room
  deriving DecidableEq

inductive Contents (α κ : Type) where
  | empty (readers takers : List (Waiter κ))
  | full (held : α) (putters : List (α × Waiter κ))
  deriving DecidableEq

inductive Request (α κ : Type) where
  | put (a : α) (callback : κ)
  | take (callback : κ)
  | read (callback : κ)
  | tryPut (a : α)
  | tryTake
  | tryRead
  | isEmpty
  | leave (id : Nat)
  deriving DecidableEq

inductive Answer (α : Type) where
  | served
  | queued (id : Nat)
  | flag (b : Bool)
  | item (a : Option α)
  deriving DecidableEq

abbrev Call (α κ : Type) := κ × Notice α

/-- Where an operation stands. -/
inductive Phase (α κ : Type) where
  | reading
  | writing (seen : Cell (Contents α κ)) (next : Contents α κ) (calls : List (Call α κ))
      (answer : Answer α)
  | enqueuing
  | joining (seen : Cell (Contents α κ)) (next : Contents α κ) (id : Nat)
  | notifying (calls : List (Call α κ)) (answer : Answer α)
  | done (answer : Answer α)
  deriving DecidableEq

structure Slot (α κ : Type) where
  cell : Cell (Contents α κ)
  nextId : Nat
  cancelable : Bool
  deriving DecidableEq

variable {α κ : Type}

namespace Contents

/-- What putting `a` leaves and whom it serves, all readers first; none while the slot is full. -/
def offer? (a : α) : Contents α κ → Option (Contents α κ × List (Call α κ))
  | .full _ _ => none
  | .empty readers takers =>
      let told := readers.map fun r => (r.callback, Notice.value a)
      match takers with
      | [] => some (.full a [], told)
      | taker :: rest => some (.empty [] rest, told ++ [(taker.callback, .value a)])

/-- What taking leaves, the value taken and the putter whose value goes in; none while the slot is
empty. -/
def poll? : Contents α κ → Option (Contents α κ × List (Call α κ) × α)
  | .empty _ _ => none
  | .full held [] => some (.empty [] [], [], held)
  | .full held ((a, putter) :: rest) => some (.full a rest, [(putter.callback, .room)], held)

def held? : Contents α κ → Option α
  | .empty _ _ => none
  | .full held _ => some held

def isEmpty (c : Contents α κ) : Bool := c.held?.isNone

/-- The contents with one more putter, as long as there is no room. -/
def withPutter? (a : α) (w : Waiter κ) : Contents α κ → Option (Contents α κ)
  | .empty _ _ => none
  | .full held putters => some (.full held (putters ++ [(a, w)]))

def withTaker? (w : Waiter κ) : Contents α κ → Option (Contents α κ)
  | .empty readers takers => some (.empty readers (takers ++ [w]))
  | .full _ _ => none

def withReader? (w : Waiter κ) : Contents α κ → Option (Contents α κ)
  | .empty readers takers => some (.empty (readers ++ [w]) takers)
  | .full _ _ => none

def waiting (id : Nat) : Contents α κ → Bool
  | .empty readers takers => (readers ++ takers).any (·.id == id)
  | .full _ putters => putters.any (·.2.id == id)

def without (id : Nat) : Contents α κ → Contents α κ
  | .empty readers takers => .empty (readers.filter (·.id != id)) (takers.filter (·.id != id))
  | .full held putters => .full held (putters.filter (·.2.id != id))

def text : Contents α κ → String
  | .empty readers takers =>
      "empty (readers: " ++ toString readers.length ++ ", takers: " ++ toString takers.length ++ ")"
  | .full _ putters => "full (putters: " ++ toString putters.length ++ ")"

end Contents

namespace Slot

def new (contents : Contents α κ) (cancelable : Bool) : Slot α κ := ⟨⟨contents, 0⟩, 0, cancelable⟩

def contents (s : Slot α κ) : Contents α κ := s.cell.value

def stateText (s : Slot α κ) : String := s.contents.text

def text (s : Slot α κ) : String :=
  "MVar \x7b state: \"" ++ s.stateText ++ "\", cancelable: " ++
    (if s.cancelable then "true" else "false") ++ " \x7d"

end Slot

namespace Request

/-- The phase after the contents were read in the hope to be served at once. -/
def serve (s : Slot α κ) : Request α κ → Slot α κ × Phase α κ
  | .put a callback =>
      match s.contents.offer? a with
      | some (next, calls) => (s, .writing s.cell next (calls ++ [(callback, .room)]) .served)
      | none => (s, .enqueuing)
  | .tryPut a =>
      match s.contents.offer? a with
      | some (next, calls) => (s, .writing s.cell next calls (.flag true))
      | none => (s, .done (.flag false))
  | .take callback =>
      match s.contents.poll? with
      | some (next, calls, held) =>
          (s, .writing s.cell next (calls ++ [(callback, .value held)]) .served)
      | none => (s, .enqueuing)
  | .tryTake =>
      match s.contents.poll? with
      | some (next, calls, held) => (s, .writing s.cell next calls (.item (some held)))
      | none => (s, .done (.item none))
  | .read callback =>
      match s.contents.held? with
      | some held => (s, .notifying [(callback, .value held)] .served)
      | none => (s, .enqueuing)
  | .tryRead => (s, .done (.item s.contents.held?))
  | .isEmpty => (s, .done (.flag s.contents.isEmpty))
  | .leave id =>
      if s.contents.waiting id then
        (s, .writing s.cell (s.contents.without id) [] (.flag true))
      else (s, .done (.flag false))

/-- The contents with the one who asks at the end of the queue. -/
def joined? (id : Nat) (c : Contents α κ) : Request α κ → Option (Contents α κ)
  | .put a callback => c.withPutter? a ⟨id, callback⟩
  | .take callback => c.withTaker? ⟨id, callback⟩
  | .read callback => c.withReader? ⟨id, callback⟩
  | _ => none

/-- The phase after the contents were read in order to queue up. -/
def enqueue (s : Slot α κ) (r : Request α κ) : Slot α κ × Phase α κ :=
  match r.joined? s.nextId s.contents with
  | some next => ({ s with nextId := s.nextId + 1 }, .joining s.cell next s.nextId)
  | none => (s, .reading)

end Request

namespace Phase

/-- One atomic step of the operation that `r` asks for: the slot and the phase after it, and the
callback called in it. -/
def step (r : Request α κ) (s : Slot α κ) : Phase α κ → Slot α κ × Phase α κ × Option (Call α κ)
  | .reading =>
      let (s, p) := r.serve s
      (s, p, none)
  | .writing seen next calls answer =>
      match s.cell.compareAndSet seen next with
      | (cell, true) => ({ s with cell }, .notifying calls answer, none)
      | (_, false) => (s, .reading, none)
  | .enqueuing =>
      let (s, p) := r.enqueue s
      (s, p, none)
  | .joining seen next id =>
      match s.cell.compareAndSet seen next with
      | (cell, true) => ({ s with cell }, .done (.queued id), none)
      | (_, false) => (s, .reading, none)
  | .notifying [] answer => (s, .done answer, none)
  | .notifying (call :: rest) answer => (s, .notifying rest answer, some call)
  | .done answer => (s, .done answer, none)

end Phase
end Effects.MVar
