import Effects.MVar
import Effects.Promise
import Effects.Value.Compact
import Effects.World.Turns

/-!
Waiting at a slot or a promise: named waiters are started one after the other, each on a thread of
its own, and after every step everything that can happen does.
-/

namespace Effects.Session

open Routine

/-- One who waits: by which number what it ends with is remembered, and what holds its token. -/
structure Waiter where
  name : String
  index : Nat
  holder : ConnectionId

/-- What can be done with the object. -/
inductive Move where
  | start (name : String) (e : Effect Value Value)
  | ask (e : Effect Value Value)
  | cancel (name : String)

structure Waiting where
  world : World
  /-- Who has not ended, in the order of their starts. -/
  waiters : List Waiter
  started : Nat

namespace Waiting

def key (index : Nat) : String := Routine.key "waiter" (toString index)

def startCode (index : Nat) (e : Effect Value Value) : Code :=
  (do
    let holder ← ConnectionId.fresh
    let token ← e.runAsync .global (fun o => remember (key index) (write o)) (pure ())
    holder.push token
    return .id holder : Routine Reply) .give

/-- The value asked for, or the error in its place. -/
def askCode (e : Effect Value Value) : Code :=
  Routine.answer do
    match ← e.outcomeOn .inline with
    | .completed v => return v
    | .errored e => return .tagged "error" e
    | .canceled => return .null

def reply (r : Option (Except String Reply)) : Reply :=
  match r with
  | some (.ok r) => r
  | _ => .unit

def call (s : Waiting) (c : Code) : Waiting × Reply :=
  let (world, r) := s.world.call c
  ({ s with world := world.quiesce }, reply r)

def move (s : Waiting) : Move → Waiting × Value
  | .start name e =>
      let (s', r) := s.call (startCode s.started e)
      ({ s' with
          waiters := s.waiters ++ [⟨name, s.started, r.toId⟩]
          started := s.started + 1 }, .null)
  | .ask e =>
      let (s, r) := s.call (askCode e)
      (s, r.toValue)
  | .cancel name =>
      match s.waiters.find? (·.name == name) with
      | some waiter => ((s.call (task waiter.holder.cancel)).1, .null)
      | none => (s, .null)

/-- What a waiter has ended with, `null` while it has not. -/
def ending (s : Waiting) (w : Waiter) : Value := s.world.remembered (key w.index)

/-- Takes out those who have ended. -/
def report (s : Waiting) : Waiting × List Value :=
  let ended := s.waiters.filter fun w => s.ending w != .null
  ({ s with waiters := s.waiters.filter fun w => s.ending w == .null },
    ended.map fun w => .arr [.str w.name, s.ending w])

def steps (describe : Routine Value) : List Move → Waiting → List Value
  | [], _ => []
  | m :: rest, s =>
      let (s, r) := s.move m
      let (s, state) := s.call (Routine.answer describe)
      let (s, done) := s.report
      .record [("r", r), ("state", state.toValue), ("done", .arr done)] :: steps describe rest s

def answer (s : Waiting) (describe : Routine Value) (moves : List Move) : Value :=
  let (s, state) := s.call (Routine.answer describe)
  .arr (.record [("state", state.toValue)] :: steps describe moves s)

/-- Makes the object. -/
def begin {α : Type} [Datum α] (make : Effect Value α) : Waiting × α :=
  let (world, r) := World.start.call (askCode make.written)
  (⟨world, [], 0⟩, read (reply r).toValue)

end Waiting

def slotMove (m : MVar Value) : Value → Except String Move
  | .arr [.str "put", .str name, v] => .ok (.start name (m.put v : Effect Value Unit).written)
  | .arr [.str "take", .str name] => .ok (.start name m.take)
  | .arr [.str "read", .str name] => .ok (.start name m.read)
  | .arr [.str "try_put", v] => .ok (.ask (m.tryPut v : Effect Value Bool).written)
  | .arr [.str "try_take"] => .ok (.ask (m.tryTake : Effect Value _).written)
  | .arr [.str "try_read"] => .ok (.ask (m.tryRead : Effect Value _).written)
  | .arr [.str "is_empty"] => .ok (.ask (m.isEmpty : Effect Value Bool).written)
  | .arr [.str "cancel", .str name] => .ok (.cancel name)
  | v => .error ("no such step at a slot: " ++ v.compact)

def slotAnswer (v : Value) : Except String Value := do
  let made : Effect Value (MVar Value) ←
    match v.field "kind" with
    | .str "empty" => pure (MVar.empty true)
    | .str "of" => pure (MVar.of (v.field "value") true)
    | .str "uncancelable_empty" => pure (MVar.empty false)
    | .str "uncancelable_of" => pure (MVar.of (v.field "value") false)
    | kind => throw ("no such slot: " ++ kind.compact)
  let (s, m) := Waiting.begin made
  return s.answer m.describe (← (v.field "steps").items.mapM (slotMove m))

def promiseMove (p : Promise Value Value) : Value → Except String Move
  | .arr [.str "get", .str name] => .ok (.start name p.get)
  | .arr [.str "complete", v] => .ok (.ask (resolving (.ok v)))
  | .arr [.str "error", v] => .ok (.ask (resolving (.error v)))
  | .arr [.str "try_complete", v] => .ok (.ask (p.tryResolve (.ok v) : Effect Value Bool).written)
  | .arr [.str "try_error", v] => .ok (.ask (p.tryResolve (.error v) : Effect Value Bool).written)
  | .arr [.str "try_get"] => .ok (.ask (p.tryGet : Effect Value _).written)
  | .arr [.str "cancel", .str name] => .ok (.cancel name)
  | v => .error ("no such step at a promise: " ++ v.compact)
where
  resolving (r : Except Value Value) : Effect Value Value :=
    ((p.resolve r).map fun _ => Value.str "ok").written

def promiseAnswer (v : Value) : Except String Value := do
  let (s, p) := Waiting.begin (Promise.create (v.field "kind" != .str "uncancelable") :
    Effect Value (Promise Value Value))
  return s.answer p.describe (← (v.field "steps").items.mapM (promiseMove p))

end Effects.Session
