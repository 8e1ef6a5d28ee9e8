/-!
A shared cell. Every write puts a new version into the cell, also when the value stays the same, and
a compare-and-set goes by the version: it succeeds exactly when nothing was written since the
snapshot was taken.
-/

namespace Effects

structure Cell (α : Type) where
  value : α
  version : Nat
  deriving DecidableEq

namespace Cell

variable {α : Type}

def new (a : α) : Cell α := ⟨a, 0⟩

def set (c : Cell α) (a : α) : Cell α := ⟨a, c.version + 1⟩

/-- Writes `a` if the cell still holds the snapshot `seen`. -/
def compareAndSet (c seen : Cell α) (a : α) : Cell α × Bool :=
  if c.version = seen.version then (c.set a, true) else (c, false)

theorem compareAndSet_set (c : Cell α) (a b : α) : (c.set a).compareAndSet c b = (c.set a, false) := by
  simp [compareAndSet, set]

/-- One run of a transforming operation: it reads a snapshot, computes what to write, and tries to
write it, starting over whenever another write came between. -/
inductive Attempt (α ρ : Type) where
  | reading
  | writing (seen : Cell α) (next : α) (result : ρ)
  | done (result : ρ)

namespace Attempt

variable {ρ : Type}

/-- One atomic step of an attempt to write the first part of `f`'s answer and return the second. -/
def step (f : Cell α → α × ρ) (c : Cell α) : Attempt α ρ → Cell α × Attempt α ρ
  | .reading => (c, .writing c (f c).1 (f c).2)
  | .writing seen next result =>
      match c.compareAndSet seen next with
      | (c, true) => (c, .done result)
      | (c, false) => (c, .reading)
  | .done result => (c, .done result)

def result? : Attempt α ρ → Option ρ
  | .done r => some r
  | _ => none

end Attempt

/-- Transforms the value. -/
def update (f : α → α) (c : Cell α) : α × Unit := (f c.value, ())

/-- Transforms the value and returns the snapshot that is then in the cell. -/
def updateAndGet (f : α → α) (c : Cell α) : α × Cell α := (f c.value, c.set (f c.value))

/-- Transforms the value and returns the snapshot that was in the cell. -/
def getAndUpdate (f : α → α) (c : Cell α) : α × Cell α := (f c.value, c)

/-- Transforms the value and returns something made from it. -/
def modify {ρ : Type} (f : α → α × ρ) (c : Cell α) : α × ρ := f c.value

end Cell
end Effects
