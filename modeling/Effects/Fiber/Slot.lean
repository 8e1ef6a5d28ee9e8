import Effects.Latch

/-!
Where a fiber's exit is handed over. A joiner who comes first waits in the slot; one who comes later
finds the exit there. The exit leaves the slot once.
-/

namespace Effects

/-- `δ` is what a fiber ends with, `κ` names a joiner. -/
inductive FiberSlot (δ κ : Type) where
  | running (joiner : Option κ)
  | finished (exit : Option δ)
  deriving DecidableEq

/-- What a joiner finds. -/
inductive Heard (δ : Type) where
  | waiting
  | ended (exit : δ)
  | taken
  deriving DecidableEq

namespace FiberSlot

variable {δ κ : Type}

def new : FiberSlot δ κ := .running none

/-- Records the exit, or takes out the joiner to hand it to. -/
def complete (exit : δ) : FiberSlot δ κ → FiberSlot δ κ × Option κ
  | .running (some joiner) => (.finished none, some joiner)
  | _ => (.finished (some exit), none)

def listen (joiner : κ) : FiberSlot δ κ → FiberSlot δ κ × Heard δ
  | .running _ => (.running (some joiner), .waiting)
  | .finished (some exit) => (.finished none, .ended exit)
  | .finished none => (.finished none, .taken)

/-- Drops the joiner; whether there was one. -/
def detach : FiberSlot δ κ → FiberSlot δ κ × Bool
  | .running joiner => (.running none, joiner.isSome)
  | .finished exit => (.finished exit, false)

end FiberSlot
end Effects
