import Effects.World

/-!
The code of a wait, taken apart where the registration answers.
-/

namespace Effects

def World.connection (w : World) (c : ConnectionId) : Connection Code :=
  w.connections[c]?.getD .uncancelable

namespace Routine

/-- What is left of a registration once it has answered. -/
def registered (c : ConnectionId) (l : LatchId) (k : Exit → Code) : Answer → Code
  | .token (some token) =>
      c.push token fun _ => l.wait fun exit => c.pop fun _ => k exit
  | _ => l.wait k

theorem suspend_eq (register : LatchId → Code) (c : ConnectionId) (k : Exit → Code) :
    Routine.suspend register c k =
      c.isCanceled fun canceled =>
        if canceled then k .canceled
        else LatchId.fresh fun l => (register l).andThen (registered c l k) := by
  have hreg : ∀ l, (fun answer => (match answer with
      | .token (some token) => (do
          c.push token
          let exit ← l.wait
          let _ ← c.pop
          return exit : Routine Exit)
      | _ => l.wait) k) = registered c l k := by
    intro l
    funext answer
    rcases answer with _ | _ | (_ | _) <;> rfl
  simp only [← hreg]
  show c.isCanceled _ = c.isCanceled _
  congr 1
  funext canceled
  cases canceled <;> rfl

end Routine
end Effects
