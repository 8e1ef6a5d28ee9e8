import Effects.Promise
import Effects.Proofs.Service.Desk

/-!
What threads ask of a promise, and the atomic steps that each request goes through.
-/

namespace Effects.Promise

open Service

variable {ε α : Type} [Datum ε] [Datum α]

inductive Ask (ε α : Type) where
  | resolve (r : Except ε α)
  | tryResolve (r : Except ε α)
  | get
  | tryGet

def Ask.node (p : Promise ε α) : Ask ε α → Node
  | .resolve r => (p.resolve r).node
  | .tryResolve r => (p.tryResolve r : Effect ε Bool).node
  | .get => p.get.node
  | .tryGet => (p.tryGet : Effect ε (Option (Except ε α))).node

abbrev Resolution := Except Value Value

def written (r : Except ε α) : Resolution := (r.map write).mapError write

/-- What a getter is told of a resolution. -/
def told (r : Resolution) : Except String Reply := .ok (.outcome (.ofExcept r))

/-- What is done to a promise, where each is one step. -/
inductive Note where
  /-- A getter is put into the queue. -/
  | queued (id : Nat) (l : LatchId)
  /-- A getter finds the promise resolved. -/
  | served (l : LatchId) (r : Resolution)
  | removed (id : Nat)
  | resolved (r : Resolution)

/-- What a step of a request does to the promise. -/
def Phase.notes (r : Request Value Value LatchId) (s : Promises) :
    Phase Value Value LatchId → List Note
  | .reading =>
      match r, s.state.resolution? with
      | .get l, some x => [.served l x]
      | _, _ => []
  | .writing seen next _ answer =>
      if (s.cell.compareAndSet seen next).2 then
        match r, answer with
        | .complete v, _ => [.resolved (.ok v)]
        | .fail e, _ => [.resolved (.error e)]
        | .get l, .queued id => [.queued id l]
        | .leave id, _ => [.removed id]
        | _, _ => []
      else []
  | .notifying _ _ | .done _ => []

def subject (p : Promise ε α) : Subject (Ask ε α) Promises Note where
  node := Ask.node p
  state w := w.promises[p.id]?
  note w
    | .promise q r phase =>
        if q = p.id then (w.promises[q]?).elim [] fun s => phase.notes r s else []
    | _ => []

/-- A request together with the callback to wake when it has removed a getter. -/
inductive Deed where
  | resolve (r : Resolution)
  | get (l : LatchId)
  | tryGet
  | leave (id : Nat) (l : LatchId)

namespace Deed

def request : Deed → Request Value Value LatchId
  | .resolve (.ok v) => .complete v
  | .resolve (.error e) => .fail e
  | .get l => .get l
  | .tryGet => .tryGet
  | .leave id _ => .leave id

end Deed

abbrev Reported := Answer Value Value

def Answer.isTrue : Reported → Bool
  | .flag b => b
  | _ => false

/-- A token wakes the getter that it has removed. -/
def Deed.wakes? : Deed → Reported → Option LatchId
  | .leave _ l, .flag true => some l
  | _, _ => none

abbrev Stage := Service.Stage (Phase Value Value LatchId) Reported

def looked (a : Reported) : Option (Except Value Value) :=
  match a with
  | .resolution r => r
  | _ => none

def store (p : Promise ε α) : Store Promises Deed (Phase Value Value LatchId) Reported where
  state w := w.promises[p.id]?
  op d phase := .promise p.id d.request phase
  step d phase s := ((phase.step d.request s).1, (phase.step d.request s).2.1,
    (phase.step d.request s).2.2.map fun call => (call.1, told call.2))
  start := .reading
  answer?
    | .done a => some a
    | _ => none
  reply := Reply.toPromise
  wakes? := Deed.wakes?

def Ask.asked : Ask ε α → Asked Deed Reported
  | .resolve r => .now (.resolve (written r)) fun a =>
      .build (Effect.ofExcept (if a.isTrue then .ok () else .error .alreadyFulfilled) :
        Effect PromiseError Unit).node
  | .tryResolve r => .now (.resolve (written r)) fun a =>
      .build (Effect.pure a.isTrue : Effect ε Bool).node
  | .tryGet => .now .tryGet fun a => .build (Effect.pure ((looked a).map fun
      | .ok v => .ok (read v)
      | .error e => .error (read e)) : Effect ε (Option (Except ε α))).node
  | .get => .wait .get

def undo (p : Promise ε α) : Deed → Reported → Option Deed
  | .get l, .queued id => if p.cancelable then some (.leave id l) else none
  | _, _ => none

def procedure (p : Promise ε α) : Procedure (Ask ε α) Promises Note Deed Stage Reported :=
  (store p).procedure Ask.asked (fun d phase s => phase.notes d.request s) (undo p)

section Steps

variable (p : Promise ε α) (d : Deed) (phase : Phase Value Value LatchId) (s : Promises)

theorem step_at : (procedure p).step d (.at phase) s =
    ((phase.step d.request s).1, (store p).after d (phase.step d.request s).2.1,
      (phase.step d.request s).2.2.map fun call => (call.1, told call.2)) := rfl

theorem note_at : (procedure p).note d (.at phase) s = phase.notes d.request s := rfl

end Steps

omit [Datum ε] [Datum α] in
theorem flag_eq (p : Promise ε α) (r : Request Value Value LatchId) (k : Bool → Code) :
    p.flag r k = p.run r fun a => k a.isTrue := by
  show p.run r _ = p.run r _
  congr 1
  funext a
  cases a <;> rfl

theorem code_eq (p : Promise ε α) (d : Deed) (k : Reported → Code) :
    (procedure p).code d (.at .reading) k = p.run d.request ((store p).next d k) := rfl

theorem leave_eq (p : Promise ε α) (id : Nat) (l : LatchId) :
    p.leave id l = (procedure p).token (.leave id l) := by
  have hcode : p.leave id l = p.flag (.leave id) fun b =>
      (if b then l.interrupt else pure () : Routine Unit) fun _ => .give .unit := rfl
  rw [hcode, flag_eq]
  refine Eq.trans ?_ (code_eq p (.leave id l) fun _ => .give .unit).symm
  show p.run (.leave id) _ = p.run (.leave id) _
  congr 1
  funext a
  cases a with
  | flag b => cases b <;> rfl
  | _ => rfl

theorem register_eq (p : Promise ε α) : p.get.node = .async ((procedure p).register .get) := by
  refine congrArg Node.async (funext fun l => ?_)
  refine Eq.trans ?_ (code_eq p (.get l) ((procedure p).guard (.get l))).symm
  show p.run (.get l) _ = p.run (.get l) _
  congr 1
  funext a
  cases a with
  | queued id =>
    show Code.guard _ = Code.guard _
    simp only [procedure, Store.procedure, undo]
    cases p.cancelable with
    | false => rfl
    | true => exact congrArg (fun token => Code.guard (some token)) (leave_eq p id l)
  | _ => rfl

theorem resolution_eq (r : Except ε α) : resolution r = (Deed.resolve (written r)).request := by
  cases r <;> rfl

/-- The thread that takes a step of a request goes on with the next one, or with the answer. -/
theorem perform_promise {w : World} {i : PromiseId} {s : Promises} (hw : w.promises[i]? = some s)
    (here : Place) (r : Request Value Value LatchId) (phase : Phase Value Value LatchId) :
    (w.perform here (.promise i r phase)).2 =
      match (phase.step r s).2.1 with
      | .done a => .reply (.promise a)
      | phase => .again (.promise i r phase) := by
  rcases hstep : phase.step r s with ⟨s', phase', call⟩
  simp only [World.perform, World.onPromise, hw, hstep]
  cases phase' <;> rfl

section Nodes

variable (p : Promise ε α)

theorem resolve_node (r : Except ε α) :
    (p.resolve r).node = .suspend ((procedure p).code (.resolve (written r)) (procedure p).start
      fun a => .build (Effect.ofExcept (if a.isTrue then .ok () else .error .alreadyFulfilled) :
        Effect PromiseError Unit).node) := by
  have hcode : (p.resolve r).node = .suspend (p.flag (resolution r) fun b =>
      .build (Effect.ofExcept (if b then .ok () else .error .alreadyFulfilled) :
        Effect PromiseError Unit).node) := rfl
  rw [hcode, flag_eq, resolution_eq]
  exact congrArg Node.suspend (code_eq p (.resolve (written r)) _).symm

theorem tryResolve_node (r : Except ε α) :
    (p.tryResolve r : Effect ε Bool).node =
      .suspend ((procedure p).code (.resolve (written r)) (procedure p).start
        fun a => .build (Effect.pure a.isTrue : Effect ε Bool).node) := by
  have hcode : (p.tryResolve r : Effect ε Bool).node = .suspend (p.flag (resolution r) fun b =>
      .build (Effect.pure b : Effect ε Bool).node) := rfl
  rw [hcode, flag_eq, resolution_eq]
  exact congrArg Node.suspend (code_eq p (.resolve (written r)) _).symm

theorem tryGet_node :
    (p.tryGet : Effect ε (Option (Except ε α))).node =
      .suspend ((procedure p).code .tryGet (procedure p).start fun a =>
        .build (Effect.pure ((looked a).map fun
          | .ok v => .ok (read v)
          | .error e => .error (read e)) : Effect ε (Option (Except ε α))).node) := by
  refine congrArg Node.suspend (Eq.trans ?_ (code_eq p .tryGet _).symm)
  show p.run .tryGet _ = p.run .tryGet _
  congr 1
  funext a
  cases a <;> rfl

end Nodes

theorem lawful (p : Promise ε α) :
    (store p).Lawful (subject p) Ask.asked (fun d phase s => phase.notes d.request s) (undo p) where
  state := rfl
  world := by
    intro w s hs here d phase
    have hw : w.promises[p.id]? = some s := hs
    obtain ⟨hlt, -⟩ := Array.getElem?_eq_some_iff.1 hw
    have hworld : (w.perform here (.promise p.id d.request phase)).1 = _ :=
      World.onPromise_world hw d.request phase
    constructor
    · show (w.perform here (.promise p.id d.request phase)).1.promises[p.id]? = _
      rw [hworld]
      split <;> simp [store, World.settle, hlt]
    · show (w.perform here (.promise p.id d.request phase)).1.latches = _
      rw [hworld]
      simp only [store]
      cases (phase.step d.request s).2.2 <;> rfl
  response := by
    intro w s hs here d phase
    have hw : w.promises[p.id]? = some s := hs
    have hresponse := perform_promise hw here d.request phase
    simp only [store]
    cases hphase : (phase.step d.request s).2.1 with
    | done a =>
      rw [hphase] at hresponse
      exact .inr ⟨_, rfl, hresponse⟩
    | _ =>
      rw [hphase] at hresponse
      exact .inl ⟨rfl, hresponse⟩
  signs := by
    intro w s hs i d phase
    have hw : w.promises[p.id]? = some s := hs
    simp only [store, signs, subject, World.told?, hw, if_true, Option.elim, Option.bind_some]
    cases (phase.step d.request s).2.2 <;> rfl
  settle w l x := ⟨rfl, rfl⟩
  aside := by
    intro op hop w here
    cases op with
    | connection c op =>
      refine ⟨?_, rfl⟩
      cases op <;> first | rfl | (simp only [World.perform, World.onConnection]; split <;> rfl)
    | openLatch => exact ⟨rfl, rfl⟩
    | await l =>
      refine ⟨?_, rfl⟩
      simp only [World.perform]
      split <;> rfl
    | _ => exact hop.elim
  now := by
    intro g r k hg
    cases g with
    | resolve r' =>
      cases hg
      exact ⟨resolve_node p r', fun a => rfl⟩
    | tryResolve r' =>
      cases hg
      exact ⟨tryResolve_node p r', fun a => rfl⟩
    | tryGet =>
      cases hg
      exact ⟨tryGet_node p, fun a => rfl⟩
    | get => cases hg
  wait := by
    intro g r hg
    cases g with
    | get =>
      cases hg
      exact register_eq p
    | _ => cases hg

theorem serves (p : Promise ε α) : (procedure p).Serves (subject p) := (lawful p).serves

end Effects.Promise
