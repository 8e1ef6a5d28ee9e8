import Effects.Fiber
import Effects.Proofs.Race.Shared
import Effects.Proofs.Service.Desk

/-!
What threads have to do with a fiber: one joins it, others wait for its end, and the one that has run
its computation comes to complete it. Each does so in atomic steps.
-/

namespace Effects

namespace Joining

inductive Visit where
  | join
  | await
  | complete (exit : Delivery)

inductive Deed where
  | listen (l : LatchId)
  | detach (l : LatchId)
  | await
  | complete (exit : Delivery)

inductive Phase where
  | first
  | telling (l : LatchId) (x : Except String Reply)
  | opening

inductive Answer where
  | waiting
  | done

/-- What is done to a fiber, where each is one step. -/
inductive Note where
  /-- Somebody waits in the slot. -/
  | joined (l : LatchId)
  /-- Somebody finds the exit, and takes it out. -/
  | heard (l : LatchId) (exit : Delivery)
  | missed (l : LatchId)
  /-- Who waits in the slot is taken out of it. -/
  | left (l : LatchId)
  | completed (exit : Delivery) (joiner : Option LatchId)
  | opened
  | passed (gate : Gate)

def told (exit : Delivery) : Except String Reply := exit.map .outcome

end Joining

namespace FiberOp

open Joining

/-- What an operation is answered by a fiber in that state. -/
def answer (s : Fiber.State) : FiberOp → Reply
  | .connection => .id s.connection
  | .complete exit => .joiner (s.slot.complete exit).2
  | .listen callback => .heard (s.slot.listen callback).2
  | .detach => .flag s.slot.detach.2
  | .isFinished => .flag s.gate.isOpen
  | .openGate | .awaitFinished => .unit

def notes (s : Fiber.State) : FiberOp → List Note
  | .listen l =>
      match s.slot with
      | .running _ => [.joined l]
      | .finished (some exit) => [.heard l exit]
      | .finished none => [.missed l]
  | .detach =>
      match s.slot with
      | .running (some l) => [.left l]
      | _ => []
  | .complete exit => [.completed exit (s.slot.complete exit).2]
  | .openGate => [.opened]
  | .awaitFinished => [.passed s.gate]
  | .connection | .isFinished => []

theorem onFiber_answer {w : World} {f : FiberId} {s : Fiber.State} (hf : w.fibers[f]? = some s)
    (op : FiberOp) : (w.onFiber f op).2 = .reply (op.answer s) := by
  cases op <;> simp [World.onFiber, World.replying, hf, answer]

theorem onFiber_latches (w : World) (f : FiberId) (op : FiberOp) :
    (w.onFiber f op).1.latches = w.latches := by
  cases op <;> rfl

end FiberOp

namespace Joining

open Service

variable {ε α : Type} [Datum ε] [Datum α]

namespace Deed

def op : Deed → FiberOp
  | .listen l => .listen l
  | .detach _ => .detach
  | .await => .awaitFinished
  | .complete exit => .complete exit

/-- Whom to call after the first step. -/
def call? : Deed → Reply → Option Telling
  | .listen l, r =>
      match r.toHeard with
      | .waiting => none
      | .ended exit => some (l, told exit)
      | .taken => some (l, interrupted)
  | .detach l, r => if r.toFlag then some (l, interrupted) else none
  | .await, _ => none
  | .complete exit, r => r.toJoiner.map fun joiner => (joiner, told exit)

def answer : Deed → Reply → Answer
  | .listen _, r =>
      match r.toHeard with
      | .waiting => .waiting
      | _ => .done
  | _, _ => .done

/-- The gate is opened when all calls have been made. -/
def last (a : Answer) : Deed → Phase ⊕ Answer
  | .complete _ => .inl .opening
  | _ => .inr a

def after (d : Deed) (r : Reply) : Phase ⊕ Answer :=
  match d.call? r with
  | some call => .inl (.telling call.1 call.2)
  | none => d.last (d.answer r)

def closing (f : FiberId) (k : Answer → Code) (a : Answer) : Deed → Code
  | .complete _ => .perform (.fiber f .openGate) fun _ => k .done
  | _ => k a

def telling (f : FiberId) (k : Answer → Code) (d : Deed) (call : Telling) : Code :=
  .perform (.settle call.1 call.2) fun _ => d.closing f k .done

def replied (f : FiberId) (k : Answer → Code) (d : Deed) (r : Reply) : Code :=
  match d.call? r with
  | some call => d.telling f k call
  | none => d.closing f k (d.answer r)

end Deed

variable (f : FiberId)

def Visit.asked : Visit → Asked Deed Answer
  | .join => .wait .listen
  | .await => .now .await fun _ => .build (Effect.unit : Effect Unit Unit).node
  | .complete exit => .now (.complete exit) fun _ => .give .unit

def procedure : Procedure Visit Fiber.State Note Deed Phase Answer where
  asked := Visit.asked
  start := .first
  op
    | d, .first => .fiber f d.op
    | _, .telling l x => .settle l x
    | _, .opening => .fiber f .openGate
  next
    | d, .first, k, r => d.replied f k r
    | d, .telling _ _, k, _ => d.closing f k .done
    | _, .opening, k, _ => k .done
  step
    | d, .first, s => (d.op.after s, d.after (d.op.answer s), none)
    | d, .telling l x, s => (s, d.last .done, some (l, x))
    | _, .opening, s => ({ s with gate := .opened }, .inr .done, none)
  note
    | d, .first, s => d.op.notes s
    | _, .telling _ _, _ => []
    | _, .opening, _ => [.opened]
  undo
    | .listen l, .waiting => some (.detach l)
    | _, _ => none

def Visit.node : Visit → Node
  | .join => (Fiber.join ⟨f⟩ : Effect Unit Unit).node
  | .await => (Effect.delay f.awaitFinished : Effect Unit Unit).node
  | .complete exit => .suspend (f.complete exit fun _ => .give .unit)

def subject : Subject Visit Fiber.State Note where
  node := Visit.node f
  state w := w.fibers[f]?
  note w
    | .fiber g op => if g = f then (w.fibers[g]?).elim [] fun s => op.notes s else []
    | _ => []

section Codes

variable {f}

theorem closing_eq (d : Deed) (k : Answer → Code) (a : Answer) :
    d.closing f k a = (procedure f).codeAt d k (d.last a) := by
  cases d <;> rfl

theorem replied_eq (d : Deed) (k : Answer → Code) (r : Reply) :
    d.replied f k r = (procedure f).codeAt d k (d.after r) := by
  rw [Deed.replied, Deed.after]
  cases d.call? r with
  | some call => rfl
  | none => exact closing_eq d k _

theorem closing_andThen (d : Deed) (k : Answer → Code) (k' : Effects.Answer → Code) (a : Answer) :
    (d.closing f k a).andThen k' = d.closing f (fun a => (k a).andThen k') a := by
  cases d <;> rfl

theorem replied_andThen (d : Deed) (k : Answer → Code) (k' : Effects.Answer → Code) (r : Reply) :
    (d.replied f k r).andThen k' = d.replied f (fun a => (k a).andThen k') r := by
  rw [Deed.replied, Deed.replied]
  cases d.call? r with
  | some call => exact congrArg (Code.perform _) (funext fun _ => closing_andThen d k k' _)
  | none => exact closing_andThen d k k' _

theorem complete_eq (exit : Delivery) (k : Code) :
    f.complete exit (fun _ => k) = (procedure f).code (.complete exit) .first fun _ => k := by
  refine congrArg (Code.perform _) (funext fun r => ?_)
  show _ = Deed.replied f _ (.complete exit) r
  cases hr : r.toJoiner <;> simp only [Deed.replied, Deed.call?, hr] <;> rfl

theorem detach_eq (l : LatchId) :
    (Routine.task do if ← f.detach then l.interrupt) = (procedure f).token (.detach l) := by
  refine congrArg (Code.perform _) (funext fun r => ?_)
  show _ = Deed.replied f _ (.detach l) r
  cases hr : r.toFlag <;> simp only [Deed.replied, Deed.call?, hr] <;> rfl

/-- Whatever the fiber is typed. -/
theorem join_eq : (Fiber.join ⟨f⟩ : Effect ε α).node = .async ((procedure f).register .listen) := by
  refine congrArg Node.async (funext fun l => ?_)
  refine congrArg (Code.perform _) (funext fun r => ?_)
  show _ = Deed.replied f ((procedure f).guard (.listen l)) (.listen l) r
  have hguard : (procedure f).guard (.listen l) .waiting =
      .guard (some (Routine.task do if ← f.detach then l.interrupt)) := by
    rw [detach_eq]
    rfl
  cases hr : r.toHeard with
  | waiting =>
    simp only [Deed.replied, Deed.call?, Deed.answer, hr]
    exact hguard.symm
  | ended exit =>
    simp only [Deed.replied, Deed.call?, hr]
    rfl
  | taken =>
    simp only [Deed.replied, Deed.call?, hr]
    rfl

end Codes

theorem serves : (procedure f).Serves (subject f) where
  performs := by
    intro w s hs here d phase
    have hs : w.fibers[f]? = some s := hs
    cases phase with
    | telling l x =>
      refine ⟨w.settle l x, hs, rfl, fun k stack => ?_⟩
      exact congrArg (fun c => (w.settle l x, (⟨.code c, stack⟩ : Activity))) (closing_eq d k .done)
    | opening =>
      exact ⟨(w.onFiber f .openGate).1, World.onFiber_self hs .openGate, rfl, fun k stack => rfl⟩
    | first =>
      refine ⟨(w.onFiber f d.op).1, World.onFiber_self hs d.op, FiberOp.onFiber_latches w f d.op,
        fun k stack => ?_⟩
      have hact : w.act here ⟨.code ((procedure f).code d .first k), stack⟩ =
          ((w.onFiber f d.op).1, .respond (d.replied f k) stack (w.onFiber f d.op).2) := rfl
      rw [hact, FiberOp.onFiber_answer hs]
      exact congrArg (fun c => ((w.onFiber f d.op).1, (⟨.code c, stack⟩ : Activity)))
        (replied_eq d k (d.op.answer s))
  signs := by
    intro w s hs i d phase
    have hs : w.fibers[f]? = some s := hs
    cases phase with
    | telling l x => rfl
    | first | opening => simp [signs, procedure, subject, added, World.told?, FiberOp.notes, hs]
  andThen := by
    intro d phase k k'
    cases phase with
    | first => exact congrArg (Code.perform _) (funext fun r => replied_andThen d k k' r)
    | telling l x => exact congrArg (Code.perform _) (funext fun _ => closing_andThen d k k' _)
    | opening => rfl
  aside := by
    intro op hop w here
    have hplain : World.Plain op := by
      cases op <;> trivial
    refine ⟨congrArg (·[f]?) (World.perform_keeps hplain).2, ?_⟩
    cases op <;> first | rfl | cases hop
  now := by
    intro g d k hg
    cases g with
    | join => cases hg
    | await =>
      cases hg
      exact ⟨rfl, fun _ => rfl⟩
    | complete exit =>
      cases hg
      exact ⟨congrArg Node.suspend (complete_eq exit _), fun _ => rfl⟩
  wait := by
    intro g r hg
    cases g <;> cases hg
    exact join_eq

end Joining
end Effects
