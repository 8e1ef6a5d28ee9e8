import Effects.Routine

/-!
A parallel group: branches that run side by side, each on a context of its own. The first branch
whose failure is recorded cancels the others, and it is that failure which the group reports once
every branch has stopped.
-/

namespace Effects

open Routine

structure Group where
  connections : List ConnectionId
  firstFailure : CellId

namespace Group

def fresh (branches : Nat) : Routine Group := do
  let connections ← collect (fun _ => ConnectionId.fresh) (List.range branches)
  return ⟨connections, ← CellId.fresh⟩

def cancelAll (g : Group) : Routine Unit := forEach ConnectionId.cancel g.connections

def cancelOthers (g : Group) (index : Nat) : Routine Unit :=
  forEach ConnectionId.cancel (g.connections.eraseIdx index)

/-- Records that a branch failed; who records the first failure cancels the others. -/
def fail (g : Group) (index : Nat) : Routine Unit := do
  if ← g.firstFailure.claim index then g.cancelOthers index

/-- What a branch does when it has stopped. -/
def report (g : Group) (index : Nat) (callback : LatchId) (exit : Delivery) : Routine Unit := do
  match exit with
  | .ok (.completed _) => pure ()
  | _ => g.fail index
  callback.deliver exit

def forkBranch (g : Group) (context : ContextId) (branch : Node × Nat) : Routine LatchId := do
  let callback ← LatchId.fresh
  let own ← context.derive ("par-" ++ toString branch.2)
  let connection := g.connections.getD branch.2 .uncancelable
  spawn branch.1 ⟨own, connection⟩ (g.report branch.2 callback)
  return callback

/-- Runs the branches and waits for all of them; canceling the parent meanwhile cancels each. -/
def supervise (g : Group) (run : Run) (branches : List Node) : Routine (List Exit) := do
  run.connection.push (task g.cancelAll)
  let callbacks ← collect (g.forkBranch run.context) branches.zipIdx
  let exits ← collect LatchId.wait callbacks
  let _ ← run.connection.pop
  return exits

/-- The values of branches that all completed. -/
def values? : List Exit → Option (List Value)
  | [] => some []
  | .completed v :: rest => (values? rest).map (v :: ·)
  | _ :: _ => none

/-- The failure that was recorded first, or else the first there is. -/
def pick (first : Option Nat) (exits : List Exit) : Exit :=
  let failed := fun exit : Exit => !exit.isCompleted
  match (first.bind (exits[·]?)).filter failed with
  | some exit => exit
  | none => (exits.find? failed).getD .canceled

/-- Code that runs a group: it answers with what `finish` makes of the values, or with the exit to
report. -/
def code (branches : List Node) (finish : List Value → Code) (run : Run) : Code :=
  (do
    let g ← fresh branches.length
    let exits ← g.supervise run branches
    return (← g.firstFailure.read, exits) : Routine _) fun (first, exits) =>
      match values? exits with
      | some values => finish values
      | none => .give (.outcome (pick first.value exits))

end Group
end Effects
