import Effects.Script.Meaning
import Effects.Script.Reading
import Effects.World.Turns

/-!
Running a script: in which contexts, through which entry, and how the run ended.
-/

namespace Effects.Session

open Routine

/-- How a run is started. -/
inductive Entry where
  | result
  | outcome
  | outcomeApart
  | async
  deriving DecidableEq

structure Program where
  script : Script
  /-- The contexts to make, and which of them are serial. -/
  contexts : List (String × Bool)
  entry : Entry
  context : String
  /-- The flag that has the caller cancel the run. -/
  cancelOn : Option String

inductive Ending where
  | ended (exit : Exit)
  | panicked (message : String)
  | lost

namespace Ending

def write : Ending → Value
  | .ended exit => Effects.write exit
  | .panicked message => .tagged "panic" (.str message)
  | .lost => .str "lost"

def ofReply : Option (Except String Reply) → Ending
  | some (.ok (.outcome exit)) => .ended exit
  | some (.error message) => .panicked message
  | _ => .lost

end Ending

/-- The contexts that are always there. -/
def standing : List (String × ContextId) := [("inline", .inline), ("global", .global)]

def openContexts (contexts : List (String × Bool)) : Routine (List (String × ContextId)) :=
  collect (fun c => return (c.1, ← ContextId.fresh c.1 c.2 none)) contexts

namespace Program

/-- Starts the run, hands its token to the holder, and waits for the outcome. A run that the caller
itself carries out is over before there is a token, so it has no holder. -/
def runAsync (p : Program) (s : Setting) : Routine Reply := do
  let holder ← ConnectionId.fresh
  let context := s.context p.context
  let s := if context = .inline then s else { s with holder := some holder }
  let ended ← LatchId.fresh
  let token ← (p.script.meaning s []).runAsync context ended.complete
    (ended.settle (.ok .unit))
  holder.push token
  signal Setting.held
  match p.cancelOn with
  | some flag =>
      awaitSignal (Setting.flag flag)
      holder.cancel
  | none => pure ()
  rethrow (← ended.await)

def run (p : Program) : Routine Reply := do
  let names ← openContexts p.contexts
  let s : Setting := ⟨standing ++ names, none⟩
  match p.entry with
  | .result =>
      return .outcome (.ofExcept (← (p.script.meaning s []).resultOn (s.context p.context)))
  | .outcome => return .outcome (← (p.script.meaning s []).outcomeOn (s.context p.context))
  | .outcomeApart =>
      return .outcome (← (p.script.meaning s []).outcomeApart (s.context p.context))
  | .async => p.runAsync s

def answer (p : Program) : Value :=
  let (w, reply) := World.start.call (p.run .give)
  .record [("result", (Ending.ofReply reply).write), ("log", .arr w.log.reverse)]

/-- The entry by its name, and whether it is always in place. -/
def entry? : Value → Except String (Entry × Bool)
  | .null | .str "outcome" => .ok (.outcome, true)
  | .str "outcome_on" => .ok (.outcome, false)
  | .str "future" => .ok (.outcomeApart, false)
  | .str "sync" => .ok (.result, true)
  | .str "sync_on" => .ok (.result, false)
  | .str "async" => .ok (.async, false)
  | v => .error ("no such run: " ++ v.compact)

def ofValue (v : Value) : Except String Program := do
  let (entry, inPlace) ← entry? (v.field "run")
  return {
    script := ← Script.ofValue (v.field "io")
    contexts := (v.field "contexts").fields.map fun c => (c.1, c.2 == .str "serial")
    entry
    context := if inPlace then "inline" else
      match v.field "on" with
      | .str name => name
      | _ => "inline"
    cancelOn :=
      match v.field "cancel_on" with
      | .str flag => some flag
      | _ => none }

end Program
end Effects.Session
