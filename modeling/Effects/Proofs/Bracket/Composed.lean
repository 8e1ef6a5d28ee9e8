import Effects.Effect
import Effects.Group
import Effects.Proofs.Run.Ahead

/-!
Computations built from the combinators. The two later phases of a bracket are nodes of their own,
which only the run loop makes.
-/

namespace Effects

mutual

inductive Node.Composed : Node → Prop
  | pure (v : Value) : Node.Composed (.pure v)
  | raise (error : Value) : Node.Composed (.raise error)
  | suspend {thunk : Code} (h : Code.Builds thunk) : Node.Composed (.suspend thunk)
  | async (register : LatchId → Code) : Node.Composed (.async register)
  | map {inner : Node} {f : Value → Code} (h : Node.Composed inner)
      (hf : ∀ v, Code.Builds (f v)) : Node.Composed (.map inner f)
  | flatMap {inner : Node} {f : Value → Code} (h : Node.Composed inner)
      (hf : ∀ v, Code.Builds (f v)) : Node.Composed (.flatMap inner f)
  | handleErrorWith {inner : Node} {f : Value → Code} (h : Node.Composed inner)
      (hf : ∀ v, Code.Builds (f v)) : Node.Composed (.handleErrorWith inner f)
  | continueOn {inner : Node} (target : ContextId) (h : Node.Composed inner) :
      Node.Composed (.continueOn inner target)
  | uncancelable {inner : Node} (h : Node.Composed inner) : Node.Composed (.uncancelable inner)
  | bracket {acquire : Node} {use : Value → Code} {release : Value → ExitCase Value → Code}
      (ha : Node.Composed acquire) (hu : ∀ v, Code.Builds (use v))
      (hr : ∀ v c, Code.Builds (release v c)) : Node.Composed (.bracket acquire use release)
  | parMap (branches : List Node) {combine : List Value → Code}
      (h : ∀ vs, Code.Builds (combine vs)) : Node.Composed (.parMap branches combine)
  | parSequence (branches : List Node) : Node.Composed (.parSequence branches)
  | instrument {inner : Node} (h : Node.Composed inner) : Node.Composed (.instrument inner)
  | loop {body : Value → Node} (seed : Value) (h : ∀ v, Node.Composed (body v)) :
      Node.Composed (.loop body seed)

/-- Whatever the code is answered, a computation it ends with is composed. -/
inductive Code.Builds : Code → Prop
  | give (r : Reply) : Code.Builds (.give r)
  | build {n : Node} (h : Node.Composed n) : Code.Builds (.build n)
  | guard (token : Option Code) : Code.Builds (.guard token)
  | panic (message : String) : Code.Builds (.panic message)
  | perform (op : Op) {next : Reply → Code} (h : ∀ r, Code.Builds (next r)) :
      Code.Builds (.perform op next)

end

namespace Code

theorem Builds.node {n : Node} (h : (Code.build n).Builds) : n.Composed := by
  cases h with
  | build h => exact h

theorem Builds.next {op : Op} {next : Reply → Code} (h : (Code.perform op next).Builds)
    (r : Reply) : (next r).Builds := by
  cases h with
  | perform _ h => exact h r

theorem builds_stable : Stable Builds where
  next h := h.next
  again op h := .perform op h.next

theorem andThen_builds {k : Answer → Code} (h : ∀ a, (k a).Builds) :
    (c : Code) → (c.andThen k).Builds
  | .give r => h (.reply r)
  | .build n => h (.node n)
  | .guard t => h (.token t)
  | .panic message => .panic message
  | .perform op next => .perform op fun r => andThen_builds h (next r)

end Code

/-- Composed code in front of composed code. -/
def Routine.Leads {α : Type} (r : Routine α) : Prop :=
  ∀ k : α → Code, (∀ a, (k a).Builds) → (r k).Builds

namespace Routine.Leads

variable {α β : Type}

theorem pure (a : α) : Leads (Pure.pure a) := fun _ hk => hk a

theorem bind {r : Routine α} {f : α → Routine β} (hr : r.Leads) (hf : ∀ a, (f a).Leads) :
    Leads (r >>= f) :=
  fun k hk => hr _ fun a => hf a k hk

theorem perform (op : Op) : Leads (Routine.perform op) := fun _ hk => .perform op hk

theorem map (f : Reply → α) (op : Op) :
    Leads (do return f (← Routine.perform op)) :=
  (perform op).bind fun _ => pure _

theorem done (op : Op) : Leads (do let _ ← Routine.perform op) := map (fun _ => ()) op

theorem rethrow : (r : Except String α) → (Routine.rethrow r).Leads
  | .ok a => pure a
  | .error message => fun _ _ => .panic message

theorem embed (c : Code) : (Routine.embed c).Leads := fun _ hk => Code.andThen_builds hk c

theorem collect {f : α → Routine β} (h : ∀ a, (f a).Leads) :
    (l : List α) → (Routine.collect f l).Leads
  | [] => pure []
  | a :: rest => (h a).bind fun _ => (collect h rest).bind fun _ => pure _

theorem wait (l : LatchId) : l.wait.Leads :=
  (map Reply.toCaught (.await l)).bind fun r => (rethrow r).bind fun _ => pure _

theorem suspend (register : LatchId → Code) (c : ConnectionId) :
    (Routine.suspend register c).Leads := by
  refine (map Reply.toFlag (.connection c .isCanceled)).bind fun canceled => ?_
  cases canceled with
  | true => exact pure Outcome.canceled
  | false =>
    refine (map Reply.toId .openLatch).bind fun l => (embed (register l)).bind fun answer => ?_
    rcases answer with r | n | (_ | token)
    · exact wait l
    · exact wait l
    · exact wait l
    · refine (done (.connection c (.push token))).bind fun _ => (wait l).bind fun exit => ?_
      exact (map Reply.toFlag (.connection c .pop)).bind fun _ => pure exit

end Routine.Leads

namespace Group

open Routine.Leads

theorem leads_fresh (branches : Nat) : (fresh branches).Leads := by
  refine (collect (fun _ => map Reply.toId .openConnection) _).bind fun connections => ?_
  exact (map Reply.toId .openCell).bind fun _ => pure _

theorem leads_supervise (g : Group) (run : Run) (branches : List Node) :
    (g.supervise run branches).Leads := by
  refine (done _).bind fun _ => (collect (fun branch => ?_) _).bind fun callbacks => ?_
  · refine (map Reply.toId .openLatch).bind fun callback => ?_
    refine (map Reply.toId _).bind fun own => ?_
    exact (done _).bind fun _ => pure callback
  · refine (collect wait callbacks).bind fun exits => ?_
    exact (map Reply.toFlag (.connection run.connection .pop)).bind fun _ => pure exits

theorem builds_code (branches : List Node) {finish : List Value → Code}
    (h : ∀ vs, (finish vs).Builds) (run : Run) : (code branches finish run).Builds := by
  have hr : Routine.Leads (do
      let g ← fresh branches.length
      let exits ← g.supervise run branches
      return (← g.firstFailure.read, exits)) :=
    (leads_fresh _).bind fun g => (leads_supervise g run branches).bind fun exits =>
      (map Reply.toSnapshot (.readCell g.firstFailure)).bind fun _ => pure _
  refine hr _ fun (first, exits) => ?_
  cases hv : values? exits with
  | some values => simpa only [hv] using h values
  | none => simpa only [hv] using .give _

end Group

namespace Effect

variable {ε α β : Type} [Datum ε]

theorem bracketCase_composed [Datum α] {acquire : Effect ε α}
    {release : α → ExitCase ε → Effect ε Unit} {use : α → Effect ε β}
    (ha : acquire.node.Composed) (hr : ∀ a c, (release a c).node.Composed)
    (hu : ∀ a, (use a).node.Composed) : (acquire.bracketCase release use).node.Composed :=
  .bracket ha (fun v => .build (hu (read v))) fun v c => .build (hr (read v) (c.map read))

theorem bracket_composed [Datum α] {acquire : Effect ε α} {release : α → Effect ε Unit}
    {use : α → Effect ε β} (ha : acquire.node.Composed) (hr : ∀ a, (release a).node.Composed)
    (hu : ∀ a, (use a).node.Composed) : (acquire.bracket release use).node.Composed :=
  bracketCase_composed ha (fun a _ => hr a) hu

theorem guaranteeCase_composed {e : Effect ε α} {finalizer : ExitCase ε → Effect ε Unit}
    (he : e.node.Composed) (hf : ∀ c, (finalizer c).node.Composed) :
    (e.guaranteeCase finalizer).node.Composed :=
  bracketCase_composed (.pure _) (fun _ c => hf c) fun _ => he

theorem guarantee_composed {e : Effect ε α} {finalizer : Effect ε Unit} (he : e.node.Composed)
    (hf : finalizer.node.Composed) : (e.guarantee finalizer).node.Composed :=
  guaranteeCase_composed he fun _ => hf

theorem onCancel_composed {e : Effect ε α} {finalizer : Effect ε Unit} (he : e.node.Composed)
    (hf : finalizer.node.Composed) : (e.onCancel finalizer).node.Composed := by
  refine guaranteeCase_composed he fun c => ?_
  cases c with
  | canceled => exact hf
  | completed | errored e => exact .pure _

end Effect
end Effects
