import Effects.Group
import Effects.Proofs.Race.Shared
import Effects.Proofs.Run.Local

/-!
A thread that runs a group, the group's branches, and all others. The group's cell, the callbacks of
its branches and the connections that it opens for them are its own: nobody else writes, waits or
delivers there, and whoever cancels one of the connections leaves it so.
-/

namespace Effects

namespace World

variable {w : World} {d : ConnectionId}

theorem perform_isCanceled (here : Place) (op : Op) (h : w.isCanceled d = true)
    (hop : op ≠ .connection d .reactivate) : (w.perform here op).1.isCanceled d = true := by
  rw [isCanceled_iff] at h ⊢
  by_cases hself : ∃ op', op = .connection d op'
  · obtain ⟨op', rfl⟩ := hself
    have hafter : op'.after .canceled = .canceled := by
      cases op' with
      | reactivate => exact absurd rfl hop
      | _ => rfl
    rw [← hafter]
    exact onConnection_self h op'
  · exact perform_connection h fun op' h' => hself ⟨op', h'⟩

/-- The connection is there, and can be canceled. -/
def Cancelable (w : World) (d : ConnectionId) : Prop :=
  ∃ s, w.connections[d]? = some s ∧ s.isUncancelable = false

theorem Cancelable.perform (h : w.Cancelable d) (here : Place) (op : Op) :
    (w.perform here op).1.Cancelable d := by
  obtain ⟨s, hd, hs⟩ := h
  by_cases hself : ∃ op', op = .connection d op'
  · obtain ⟨op', rfl⟩ := hself
    refine ⟨_, onConnection_self hd op', ?_⟩
    cases s with
    | uncancelable => cases hs
    | canceled => cases op' <;> rfl
    | active tokens => cases tokens <;> cases op' <;> rfl
  · exact ⟨s, perform_connection hd fun op' h' => hself ⟨op', h'⟩, hs⟩

theorem Cancelable.cancel (h : w.Cancelable d) :
    (w.onConnection d .cancel).1.isCanceled d = true := by
  obtain ⟨s, hd, hs⟩ := h
  rw [isCanceled_iff, onConnection_self hd]
  cases s with
  | uncancelable => cases hs
  | active tokens | canceled => rfl

end World

namespace Gathering

def Spares (conns : List ConnectionId) (cell : Option CellId) (latches : List LatchId) : Op → Prop
  | .writeCell k _ _ => cell ≠ some k
  | .connection d .reactivate => d ∉ conns
  | .await l => l ∉ latches
  | _ => True

structure Branch where
  place : Place
  activity : Activity

structure Scene where
  world : World
  place : Place
  caller : Activity
  /-- What the caller has opened for the group so far. -/
  conns : List ConnectionId
  cell : Option CellId
  latches : List LatchId
  /-- The branches that have been dispatched so far. -/
  branches : List Branch
  /-- What the caller goes on with, once it has looked at the first failure. -/
  answer : Option Code

def Scene.connsAfter (s : Scene) : Op → List ConnectionId
  | .openConnection => s.conns ++ [s.world.connections.size]
  | _ => s.conns

def Scene.cellAfter (s : Scene) : Op → Option CellId
  | .openCell => some s.world.cells.size
  | _ => s.cell

def Scene.latchesAfter (s : Scene) : Op → List LatchId
  | .openLatch => s.latches ++ [s.world.latches.size]
  | _ => s.latches

/-- A thread is about to run the code of a group. -/
def asked (code : Code) (w : World) (place : Place) : Scene :=
  ⟨w, place, ⟨.code code, []⟩, [], none, [], [], none⟩

/-- The operation leaves to the group what is the group's. -/
def Scene.Leaves (s : Scene) (op : Op) : Prop :=
  Spares s.conns s.cell s.latches op ∧ ∀ l ∈ s.latches, s.world.delivered? l op = none

inductive Sign where
  | began (i : Nat) (machine : Machine) (run : Run)
  | ended (i : Nat) (exit : Delivery)
  | claimed (i : Nat)
  | canceled (i : Nat) (d : ConnectionId)
  | called (i : Nat) (callback : LatchId) (r : Except String Reply)

def Sign.branch : Sign → Nat
  | .began i _ _ | .ended i _ | .claimed i | .canceled i _ | .called i _ _ => i

/-- What can be seen of an operation of the branch's own. -/
def shown (w : World) (i : Nat) : Op → List Sign
  | .writeCell k seen n =>
      if ((w.cells[k]?.getD ⟨none, 0⟩).compareAndSet seen (some n)).2 then [.claimed i] else []
  | .connection d .cancel => [.canceled i d]
  | .settle callback r => [.called i callback r]
  | _ => []

/-- What runs above the frame that catches a branch's end is the branch's computation; what runs
above other frames are tokens. -/
def signs (w : World) (i : Nat) (a : Activity) : List Sign :=
  match a.control, a.stack with
  | .code (.perform op _), [] => shown w i op
  | .code (.perform (.drive machine run) _), [.attempt _] => [.began i machine run]
  | .code (.give r), [.attempt _] => [.ended i (.ok r.toExit)]
  | .unwinding message, [.attempt _] => [.ended i (.error message)]
  | _, _ => []

/-- A step of one thread. -/
inductive Moves : Scene → List Sign → Scene → Prop
  | caller {s : Scene} {op : Op} {next : Reply → Code} (ha : s.answer = none)
      (hc : s.caller = ⟨.code (.perform op next), []⟩)
      (hop : ∀ c task, op ≠ .context c (.execute task)) (hread : ∀ k, op ≠ .readCell k) :
      Moves s []
        { s with
          world := (s.world.act s.place s.caller).1
          caller := (s.world.act s.place s.caller).2
          conns := s.connsAfter op
          cell := s.cellAfter op
          latches := s.latchesAfter op }
  /-- The caller runs its own token, having been canceled before. -/
  | token {s : Scene} (ha : s.answer = none) (hc : s.caller.stack ≠ [])
      (hleaves : ∀ op, s.caller.op? = some op → s.Leaves op) :
      Moves s []
        { s with
          world := (s.world.act s.place s.caller).1
          caller := (s.world.act s.place s.caller).2 }
  /-- A branch is dispatched to a thread of its own. -/
  | spawns {s : Scene} {c : ContextId} {task : Code} {next : Reply → Code} {w : World}
      {thread : Thread} (ha : s.answer = none)
      (hc : s.caller = ⟨.code (.perform (.context c (.execute task)) next), []⟩)
      (hact : s.world.act s.place s.caller = (w, ⟨.code (next .unit), []⟩))
      (hthread : w.threads = s.world.threads.push thread) :
      Moves s []
        { s with
          world := w
          caller := ⟨.code (next .unit), []⟩
          branches := s.branches ++ [⟨thread.place, thread.activity⟩] }
  /-- There can be no thread, and the branch runs in place. The caller goes on only after it; that it
  may do so before adds more orders of the steps. -/
  | inPlace {s : Scene} {c : ContextId} {task : Code} {next : Reply → Code} {w : World}
      (ha : s.answer = none)
      (hc : s.caller = ⟨.code (.perform (.context c (.execute task)) next), []⟩)
      (hact : s.world.act s.place s.caller =
        (w, (⟨.code task, []⟩ : Activity).atop [.call fun _ => next .unit])) :
      Moves s []
        { s with
          world := w
          caller := ⟨.code (next .unit), []⟩
          branches := s.branches ++ [⟨s.place, ⟨.code task, []⟩⟩] }
  /-- The dispatch panics. -/
  | refused {s : Scene} {c : ContextId} {task : Code} {next : Reply → Code} {w : World}
      {message : String} (ha : s.answer = none)
      (hc : s.caller = ⟨.code (.perform (.context c (.execute task)) next), []⟩)
      (hact : s.world.act s.place s.caller = (w, ⟨.unwinding message, []⟩)) :
      Moves s [] { s with world := w, caller := ⟨.unwinding message, []⟩ }
  /-- The caller looks at the first failure. -/
  | answers {s : Scene} {k : CellId} {next : Reply → Code} (ha : s.answer = none)
      (hc : s.caller = ⟨.code (.perform (.readCell k) next), []⟩) :
      Moves s []
        { s with
          caller := (s.world.act s.place s.caller).2
          answer := some (next (.snapshot (s.world.cells[k]?.getD ⟨none, 0⟩))) }
  | branch {s : Scene} {before after : List Branch} {place : Place} {a : Activity}
      (hb : s.branches = before ++ ⟨place, a⟩ :: after)
      (hs : a.stack ≠ [] ∨ a.control.settles = false)
      (hleaves : a.stack ≠ [] → ∀ op, a.op? = some op → s.Leaves op) :
      Moves s (signs s.world before.length a)
        { s with
          world := (s.world.act place a).1
          branches := before ++ ⟨place, (s.world.act place a).2⟩ :: after }
  | other {s : Scene} (place : Place) (a : Activity)
      (hleaves : ∀ op, a.op? = some op → s.Leaves op) :
      Moves s [] { s with world := (s.world.act place a).1 }
  /-- Time passes, or a thread takes its next task. -/
  | idle {s : Scene} (w : World) (hcells : w.cells = s.world.cells)
      (hconnections : w.connections = s.world.connections)
      (hlatches : w.latches = s.world.latches) : Moves s [] { s with world := w }

inductive Runs (s : Scene) : List Sign → Scene → Prop
  | start : Runs s [] s
  | move {seen more : List Sign} {t u : Scene} (before : Runs s seen t) (h : Moves t more u) :
      Runs s (seen ++ more) u

/-- What has been seen of one branch. -/
def course (i : Nat) (seen : List Sign) : List Sign := seen.filter fun sign => sign.branch = i

def claims (seen : List Sign) : List Nat :=
  seen.filterMap fun
    | .claimed i => some i
    | _ => none

theorem course_append (i : Nat) (a b : List Sign) : course i (a ++ b) = course i a ++ course i b :=
  List.filter_append ..

theorem claims_append (a b : List Sign) : claims (a ++ b) = claims a ++ claims b :=
  List.filterMap_append

theorem mem_course {i : Nat} {seen : List Sign} {sign : Sign} :
    sign ∈ course i seen ↔ sign ∈ seen ∧ sign.branch = i := by
  simp [course]

theorem mem_claims {i : Nat} {seen : List Sign} : i ∈ claims seen ↔ .claimed i ∈ seen := by
  simp only [claims, List.mem_filterMap]
  constructor
  · rintro ⟨sign, hs, hi⟩
    cases sign <;> simp_all
  · intro h
    exact ⟨_, h, rfl⟩

section Composing

variable {s t u : Scene} {seen more : List Sign} {c : ContextId} {context : Context} {task : Code}
  {next : Reply → Code}

/-- The caller performs its next operation. -/
theorem Runs.calls {op : Op} (h : Runs s seen t) (ha : t.answer = none)
    (hc : t.caller = ⟨.code (.perform op next), []⟩)
    (hop : ∀ c task, op ≠ .context c (.execute task)) (hread : ∀ k, op ≠ .readCell k) :
    Runs s seen
      { t with
        world := (t.world.perform t.place op).1
        caller := .respond next [] (t.world.perform t.place op).2
        conns := t.connsAfter op
        cell := t.cellAfter op
        latches := t.latchesAfter op } := by
  have hmove := h.move (.caller ha hc hop hread)
  rwa [List.append_nil, hc] at hmove

/-- A context that has been derived dispatches a branch in one of three ways. -/
theorem Moves.of_execute (ha : t.answer = none)
    (hcaller : t.caller = ⟨.code (.perform (.context c (.execute task)) next), []⟩)
    (hc : t.world.contexts[c]? = some context) (hk : context.kind = .concurrent) :
    ∃ u, Moves t [] u ∧ u.world = (t.world.act t.place t.caller).1 := by
  have hact := World.act_execute t.place hc hk task next
  rw [← hcaller, World.spawnThread] at hact
  cases hname : Context.nameFault? context.threadName with
  | some message =>
    simp only [hname] at hact
    exact ⟨_, .refused ha hcaller hact, (congrArg Prod.fst hact).symm⟩
  | none =>
    simp only [hname] at hact
    cases hs : context.canSpawn with
    | true =>
      simp only [hs, if_true] at hact
      exact ⟨_, .spawns ha hcaller hact rfl, (congrArg Prod.fst hact).symm⟩
    | false =>
      simp only [hs] at hact
      exact ⟨_, .inPlace ha hcaller hact, (congrArg Prod.fst hact).symm⟩

theorem Runs.spawns (h : Runs s seen t) (ha : t.answer = none)
    (hcaller : t.caller = ⟨.code (.perform (.context c (.execute task)) next), []⟩)
    (hc : t.world.contexts[c]? = some context) (hk : context.kind = .concurrent)
    (hname : Context.nameFault? context.threadName = none) (hs : context.canSpawn = true) :
    Runs s seen
      { t with
        world :=
          { t.world with
            contexts :=
              t.world.contexts.setIfInBounds c { context with spawned := context.spawned + 1 }
            threads := t.world.threads.push ⟨context.threadName, some c, .task, .start task⟩ }
        caller := ⟨.code (next .unit), []⟩
        branches := t.branches ++ [⟨⟨context.threadName, some c⟩, .start task⟩] } := by
  have hact := World.act_execute t.place hc hk task next
  rw [← hcaller] at hact
  simp only [World.spawnThread, hname, hs, if_true] at hact
  have hmove := h.move (.spawns ha hcaller hact rfl)
  rwa [List.append_nil] at hmove

/-- Does nothing that concerns others. -/
def calm (a : Activity) : Bool :=
  match a.op? with
  | some (.drive _ _) => true
  | some _ => a.stack.isEmpty
  | none => !a.stack.isEmpty || !a.control.settles

theorem Runs.runs (before : List Branch) {after : List Branch} {place : Place} {a : Activity}
    (h : Runs s seen t) (hb : t.branches = before ++ ⟨place, a⟩ :: after) (hc : calm a = true) :
    Runs s (seen ++ signs t.world before.length a)
      { t with
        world := (t.world.act place a).1
        branches := before ++ ⟨place, (t.world.act place a).2⟩ :: after } := by
  refine h.move (.branch hb ?_ fun hstack op hop => ?_)
  · cases hop : a.op? with
    | some op => exact .inr (Activity.settles_of_op? hop)
    | none => simpa [calm, hop] using hc
  · cases op with
    | drive machine run => exact ⟨trivial, fun _ _ => rfl⟩
    | _ => simp [calm, hop, hstack] at hc

end Composing

end Gathering
end Effects
