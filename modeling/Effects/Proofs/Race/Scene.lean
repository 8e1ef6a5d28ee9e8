import Effects.Proofs.Run.Local
import Effects.Proofs.Suspend.Shared
import Effects.Race

/-!
A thread that starts a race, the racers, and all others, of whom nothing is known but that they
leave the cell that is claimed, and the ends of the racers' fibers, to the racers.
-/

namespace Effects

open Routine

namespace Racing

/-- Only the racers claim, complete their fibers and open their gates; and the race's own callback
does not wait for one of them. -/
def Spares (cell : Option CellId) (fibers : List FiberId) (l : LatchId) : Op → Prop
  | .writeCell k _ _ => cell ≠ some k
  | .fiber f op =>
      f ∈ fibers → match op with
        | .complete _ | .openGate => False
        | .listen callback => callback ≠ l
        | .connection | .detach | .isFinished | .awaitFinished => True
  | _ => True

structure Racer where
  place : Place
  activity : Activity

structure Scene where
  world : World
  place : Place
  caller : Activity
  /-- What the caller has opened for the race so far. -/
  cell : Option CellId
  fibers : List FiberId
  /-- The racers that have been dispatched so far. -/
  racers : List Racer

def Scene.cellAfter (s : Scene) : Op → Option CellId
  | .openCell => some s.world.cells.size
  | _ => s.cell

def Scene.fibersAfter (s : Scene) : Op → List FiberId
  | .openFiber => s.fibers ++ [s.world.fibers.size]
  | _ => s.fibers

/-- A thread is about to register a race. -/
def asked (register : Code) (w : World) (place : Place) : Scene :=
  ⟨w, place, ⟨.code register, []⟩, none, [], []⟩

inductive Sign where
  /-- A racer begins with its computation. -/
  | began (i : Nat) (machine : Machine) (run : Run)
  /-- The computation has come to its end. -/
  | ended (i : Nat) (exit : Delivery)
  | claimed (i : Nat)
  /-- The racer calls somebody back. -/
  | called (i : Nat) (callback : LatchId) (r : Except String Reply)
  | recorded (i : Nat) (f : FiberId) (exit : Delivery)
  | opened (i : Nat) (f : FiberId)
  /-- Somebody takes an exit out of the slot of one of the fibers. -/
  | heard (f : FiberId) (exit : Delivery)

def heard (w : World) (fibers : List FiberId) : Op → List Sign
  | .fiber f (.listen _) =>
      match w.fibers[f]? with
      | some ⟨_, .finished (some exit), _⟩ => if f ∈ fibers then [.heard f exit] else []
      | _ => []
  | _ => []

/-- What can be seen of an operation of the racer's own. -/
def shown (w : World) (i : Nat) : Op → List Sign
  | .writeCell k seen n =>
      if ((w.cells[k]?.getD ⟨none, 0⟩).compareAndSet seen (some n)).2 then [.claimed i] else []
  | .settle callback r => [.called i callback r]
  | .fiber f (.complete exit) => [.recorded i f exit]
  | .fiber f .openGate => [.opened i f]
  | _ => []

/-- What can be seen of a racer's next step. What runs above the frame that catches its end is the
racer's computation. -/
def signs (w : World) (fibers : List FiberId) (i : Nat) (a : Activity) : List Sign :=
  match a.control, a.stack with
  | .code (.perform op _), [] => shown w i op
  | .code (.perform (.drive machine run) _), [.attempt _] => [.began i machine run]
  | .code (.give r), [.attempt _] => [.ended i (.ok r.toExit)]
  | .unwinding message, [.attempt _] => [.ended i (.error message)]
  | .code (.perform op _), _ :: _ => heard w fibers op
  | _, _ => []

/-- A step of one thread, where `l` is the callback of the race. -/
inductive Moves (l : LatchId) : Scene → List Sign → Scene → Prop
  | caller {s : Scene} {op : Op} {next : Reply → Code}
      (hc : s.caller = ⟨.code (.perform op next), []⟩)
      (hop : ∀ c task, op ≠ .context c (.execute task)) :
      Moves l s []
        { s with
          world := (s.world.act s.place s.caller).1
          caller := (s.world.act s.place s.caller).2
          cell := s.cellAfter op
          fibers := s.fibersAfter op }
  /-- A racer is dispatched to a thread of its own. -/
  | spawns {s : Scene} {c : ContextId} {task : Code} {next : Reply → Code} {w : World}
      {thread : Thread} (hc : s.caller = ⟨.code (.perform (.context c (.execute task)) next), []⟩)
      (hact : s.world.act s.place s.caller = (w, ⟨.code (next .unit), []⟩))
      (hthread : w.threads = s.world.threads.push thread) :
      Moves l s []
        { s with
          world := w
          caller := ⟨.code (next .unit), []⟩
          racers := s.racers ++ [⟨thread.place, thread.activity⟩] }
  /-- There can be no thread, and the racer runs in place. The caller goes on only after it; that it
  may do so before adds more orders of the steps. -/
  | inPlace {s : Scene} {c : ContextId} {task : Code} {next : Reply → Code} {w : World}
      (hc : s.caller = ⟨.code (.perform (.context c (.execute task)) next), []⟩)
      (hact : s.world.act s.place s.caller =
        (w, (⟨.code task, []⟩ : Activity).atop [.call fun _ => next .unit])) :
      Moves l s []
        { s with
          world := w
          caller := ⟨.code (next .unit), []⟩
          racers := s.racers ++ [⟨s.place, ⟨.code task, []⟩⟩] }
  /-- The dispatch panics. -/
  | refused {s : Scene} {c : ContextId} {task : Code} {next : Reply → Code} {w : World}
      {message : String} (hc : s.caller = ⟨.code (.perform (.context c (.execute task)) next), []⟩)
      (hact : s.world.act s.place s.caller = (w, ⟨.unwinding message, []⟩)) :
      Moves l s [] { s with world := w, caller := ⟨.unwinding message, []⟩ }
  | racer {s : Scene} {before after : List Racer} {place : Place} {a : Activity}
      (hr : s.racers = before ++ ⟨place, a⟩ :: after)
      (hs : a.stack ≠ [] ∨ a.control.settles = false)
      (hspares : a.stack ≠ [] → ∀ op, a.op? = some op →
        Spares s.cell s.fibers l op ∧ s.world.delivered? l op = none) :
      Moves l s (signs s.world s.fibers before.length a)
        { s with
          world := (s.world.act place a).1
          racers := before ++ ⟨place, (s.world.act place a).2⟩ :: after }
  | other {s : Scene} (place : Place) (a : Activity)
      (hspares : ∀ op, a.op? = some op → Spares s.cell s.fibers l op) :
      Moves l s ((a.op?.map (heard s.world s.fibers)).getD [])
        { s with world := (s.world.act place a).1 }
  /-- Time passes, or a thread takes its next task. -/
  | idle {s : Scene} (w : World) (hcells : w.cells = s.world.cells)
      (hfibers : w.fibers = s.world.fibers) :
      Moves l s [] { s with world := w }

inductive Runs (l : LatchId) (s : Scene) : List Sign → Scene → Prop
  | start : Runs l s [] s
  | move {seen more : List Sign} {t u : Scene} (before : Runs l s seen t) (h : Moves l t more u) :
      Runs l s (seen ++ more) u

/-- Whose step it is. -/
def Sign.racer? : Sign → Option Nat
  | .began i _ _ | .ended i _ | .claimed i | .called i _ _ | .recorded i _ _ | .opened i _ => some i
  | .heard _ _ => none

/-- What has been seen of one racer. -/
def course (i : Nat) (seen : List Sign) : List Sign := seen.filter fun sign => sign.racer? = some i

def claims (seen : List Sign) : List Nat :=
  seen.filterMap fun
    | .claimed i => some i
    | _ => none

/-- The exits taken out of a fiber's slot. -/
def taken (f : FiberId) (seen : List Sign) : List Delivery :=
  seen.filterMap fun
    | .heard g exit => if g = f then some exit else none
    | _ => none

section Composing

variable {l : LatchId} {s t : Scene} {seen : List Sign} {c : ContextId} {context : Context}
  {task : Code} {next : Reply → Code}

/-- A concurrent context dispatches a racer in one of three ways. -/
theorem Moves.of_execute
    (hcaller : t.caller = ⟨.code (.perform (.context c (.execute task)) next), []⟩)
    (hc : t.world.contexts[c]? = some context) (hk : context.kind = .concurrent) :
    ∃ u, Moves l t [] u ∧ u.world = (t.world.act t.place t.caller).1 := by
  have hact := World.act_execute t.place hc hk task next
  rw [← hcaller, World.spawnThread] at hact
  cases hname : Context.nameFault? context.threadName with
  | some message =>
    simp only [hname] at hact
    exact ⟨_, .refused hcaller hact, (congrArg Prod.fst hact).symm⟩
  | none =>
    simp only [hname] at hact
    cases hs : context.canSpawn with
    | true =>
      simp only [hs, if_true] at hact
      exact ⟨_, .spawns hcaller hact rfl, (congrArg Prod.fst hact).symm⟩
    | false =>
      simp only [hs] at hact
      exact ⟨_, .inPlace hcaller hact, (congrArg Prod.fst hact).symm⟩

theorem Runs.calls {op : Op} (h : Runs l s seen t)
    (hc : t.caller = ⟨.code (.perform op next), []⟩)
    (hop : ∀ c task, op ≠ .context c (.execute task)) :
    Runs l s seen ⟨(t.world.perform t.place op).1, t.place,
      .respond next [] (t.world.perform t.place op).2, t.cellAfter op, t.fibersAfter op,
      t.racers⟩ := by
  have hmove := h.move (.caller hc hop)
  rwa [List.append_nil, hc] at hmove

theorem Runs.spawns (h : Runs l s seen t)
    (hcaller : t.caller = ⟨.code (.perform (.context c (.execute task)) next), []⟩)
    (hc : t.world.contexts[c]? = some context) (hk : context.kind = .concurrent)
    (hname : Context.nameFault? context.threadName = none) (hs : context.canSpawn = true) :
    Runs l s seen
      { t with
        world :=
          { t.world with
            contexts :=
              t.world.contexts.setIfInBounds c { context with spawned := context.spawned + 1 }
            threads := t.world.threads.push ⟨context.threadName, some c, .task, .start task⟩ }
        caller := ⟨.code (next .unit), []⟩
        racers := t.racers ++ [⟨⟨context.threadName, some c⟩, .start task⟩] } := by
  have hact := World.act_execute t.place hc hk task next
  rw [← hcaller] at hact
  simp only [World.spawnThread, hname, hs, if_true] at hact
  have hmove := h.move (.spawns hcaller hact rfl)
  rwa [List.append_nil] at hmove

/-- Does nothing that concerns others. -/
def calm (a : Activity) : Bool :=
  match a.op? with
  | some (.drive _ _) => true
  | some _ => a.stack.isEmpty
  | none => !a.stack.isEmpty || !a.control.settles

theorem Runs.races (before : List Racer) {after : List Racer} {place : Place} {a : Activity}
    (h : Runs l s seen t) (hr : t.racers = before ++ ⟨place, a⟩ :: after) (hc : calm a = true) :
    Runs l s (seen ++ signs t.world t.fibers before.length a)
      { t with
        world := (t.world.act place a).1
        racers := before ++ ⟨place, (t.world.act place a).2⟩ :: after } := by
  refine h.move (.racer hr ?_ fun hstack op hop => ?_)
  · cases hop : a.op? with
    | some op => exact .inr (Activity.settles_of_op? hop)
    | none => simpa [calm, hop] using hc
  · cases op with
    | drive machine run => exact ⟨trivial, rfl⟩
    | _ => simp [calm, hop, hstack] at hc

end Composing

end Racing
end Effects
