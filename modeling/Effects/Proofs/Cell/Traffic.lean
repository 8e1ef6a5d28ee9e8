import Effects.Cell

/-!
Any number of calls on one cell, whose atomic steps are taken in any order, and what the cell goes
through. What is expected by a compare-and-set is a snapshot that somebody has taken before.
-/

namespace Effects.Cell

variable {α ρ : Type}

inductive Ask (α ρ : Type) where
  | get
  | set (a : α)
  | getAndSet (a : α)
  /-- The expected snapshot goes by its place among those that have been taken. -/
  | compareAndSet (taken : Nat) (a : α)
  | update (f : α → α)
  | updateAndGet (f : α → α)
  | getAndUpdate (f : α → α)
  | modify (f : α → α × ρ)

inductive Answer (α ρ : Type) where
  | unit
  | snapshot (c : Cell α)
  | flag (b : Bool)
  | result (r : ρ)

inductive Event (α : Type) where
  | took (i : Nat) (snapshot : Cell α)
  | compared (i : Nat) (expected : Cell α) (same : Bool)
  | wrote (i : Nat) (a : α)

abbrev Course (α : Type) := List (Event α)

namespace Course

def snapshots (seen : Course α) : List (Cell α) :=
  seen.filterMap fun
    | .took _ c => some c
    | _ => none

/-- The calls that have written, in the order of their writes. -/
def writers (seen : Course α) : List Nat :=
  seen.filterMap fun
    | .wrote i _ => some i
    | _ => none

/-- What is in the cell by then. -/
def content (init : α) (seen : Course α) : Cell α :=
  seen.foldl (fun c e =>
    match e with
    | .wrote _ a => c.set a
    | _ => c) (.new init)

end Course

namespace Ask

/-- What a call that computes makes of the cell, and what it then returns. -/
def transform? : Ask α ρ → Option (Cell α → α × Answer α ρ)
  | .update f => some fun c => (Cell.update f c).map id fun _ => .unit
  | .updateAndGet f => some fun c => (Cell.updateAndGet f c).map id .snapshot
  | .getAndUpdate f => some fun c => (Cell.getAndUpdate f c).map id .snapshot
  | .modify f => some fun c => (Cell.modify f c).map id .result
  | _ => none

/-- The value that the call puts in place of another. -/
def write : Ask α ρ → α → α
  | .get, v => v
  | .set a, _ | .getAndSet a, _ | .compareAndSet _ a, _ => a
  | .update f, v | .updateAndGet f, v | .getAndUpdate f, v => f v
  | .modify f, v => (f v).1

def takesNew : Ask α ρ → Bool
  | .updateAndGet _ => true
  | _ => false

end Ask

/-- A call goes on from here. -/
structure Move (α ρ : Type) where
  cell : Cell α
  phase : Attempt α (Answer α ρ)
  events : Course α

namespace Ask

/-- The step of a call that tries to write. -/
def attempt (i : Nat) (f : Cell α → α × Answer α ρ) (takesNew : Bool) (c : Cell α)
    (phase : Attempt α (Answer α ρ)) : Move α ρ where
  cell := (phase.step f c).1
  phase := (phase.step f c).2
  events :=
    match phase with
    | .reading => [.took i c]
    | .writing seen next _ =>
        if (c.compareAndSet seen next).2 then
          .compared i seen true :: .wrote i next :: if takesNew then [.took i (c.set next)] else []
        else [.compared i seen false]
    | .done _ => []

/-- One atomic step of the call of that number. -/
def step (i : Nat) (taken : List (Cell α)) (c : Cell α) (phase : Attempt α (Answer α ρ)) :
    Ask α ρ → Move α ρ
  | .get => ⟨c, .done (.snapshot c), [.took i c]⟩
  | .set a => ⟨c.set a, .done .unit, [.wrote i a]⟩
  | .getAndSet a => ⟨c.set a, .done (.snapshot c), [.took i c, .wrote i a]⟩
  | .compareAndSet n a =>
      match taken[n]? with
      | some seen =>
          let (c', same) := c.compareAndSet seen a
          ⟨c', .done (.flag same), .compared i seen same :: if same then [.wrote i a] else []⟩
      | none => ⟨c, phase, []⟩
  | ask =>
      match ask.transform? with
      | some f => attempt i f ask.takesNew c phase
      | none => ⟨c, phase, []⟩

end Ask

structure Traffic (α ρ : Type) where
  cell : Cell α
  phases : List (Attempt α (Answer α ρ))
  seen : Course α

namespace Traffic

def start (init : α) (asks : List (Ask α ρ)) : Traffic α ρ :=
  ⟨.new init, asks.map fun _ => .reading, []⟩

/-- One atomic step of the call of that number, if it has not returned. -/
def step (asks : List (Ask α ρ)) (s : Traffic α ρ) (i : Nat) : Traffic α ρ :=
  match asks[i]?, s.phases[i]? with
  | some _, some (.done _) => s
  | some ask, some phase =>
      let move := ask.step i s.seen.snapshots s.cell phase
      ⟨move.cell, s.phases.set i move.phase, s.seen ++ move.events⟩
  | _, _ => s

def run (asks : List (Ask α ρ)) (s : Traffic α ρ) (order : List Nat) : Traffic α ρ :=
  order.foldl (step asks) s

end Traffic
end Effects.Cell
