import Effects.Effect
import Effects.Proofs.Run.Ahead
import Effects.Proofs.Run.Registration
import Effects.Proofs.Suspend.Shared

/-!
Tokens that wake a callback in the end, and the registrations that answer with one. In a scene
there is a thread that waits for a callback, there are threads that cancel its connection meanwhile,
and all others, of whom nothing is known but that they leave to these what is theirs.
-/

namespace Effects

section Tokens

open Routine

inductive Code.Wakes (l : LatchId) : Code → Prop
  | interrupt : Code.Wakes l (task l.interrupt)
  | interrupting (token : Code) : Code.Wakes l (Routine.interrupting token l)

/-- Registers, and answers with a token that wakes the callback. -/
inductive Code.Guards (l : LatchId) : Code → Prop
  | guard {token : Code} (h : token.Wakes l) : Code.Guards l (.guard (some token))
  | panic (message : String) : Code.Guards l (.panic message)
  | perform (op : Op) {next : Reply → Code} (h : ∀ r, Code.Guards l (next r)) :
      Code.Guards l (.perform op next)

theorem Code.Guards.next {l : LatchId} {op : Op} {next : Reply → Code}
    (h : Code.Guards l (.perform op next)) (r : Reply) : (next r).Guards l := by
  cases h with
  | perform _ h => exact h r

theorem Code.guards_stable (l : LatchId) : Stable (Guards l) where
  next h := h.next
  again op h := .perform op h.next

/-- Suspends until it is called back or canceled. -/
def Node.Cancelable : Node → Prop
  | .async register => ∀ l, (register l).Guards l
  | _ => False

namespace Effect

variable {ε α : Type}

theorem never_cancelable : (never : Effect ε α).node.Cancelable :=
  fun _ => .guard .interrupt

theorem sleep_cancelable (d : Duration) : (sleep d : Effect ε Unit).node.Cancelable :=
  fun _ => .perform _ fun _ => .guard (.interrupting _)

theorem cancelable_cancelable {r : LatchId → Routine Code}
    (h : ∀ l k, (∀ token, (k token).Guards l) → (r l k).Guards l) :
    (cancelable r : Effect ε α).node.Cancelable :=
  fun l => h l _ fun token => .guard (.interrupting token)

end Effect

/-- The frame below a token that runs before the callback is woken. -/
def Frame.waking (l : LatchId) : Frame := .call fun _ => task l.interrupt

/-- Neither a panic, nor an answer where a reply is due. -/
def Control.Returns : Control → Prop
  | .unwinding _ | .code (.build _) | .code (.guard _) => False
  | _ => True

/-- The token that runs first returns normally, so far. -/
def Activity.Returns (l : LatchId) (a : Activity) : Prop :=
  ∀ rest, a.stack = .waking l :: rest → a.control.Returns

theorem Activity.Returns.of_atop {l : LatchId} {a : Activity} {below : List Frame}
    (h : (a.atop below).Returns l) : a.Returns l :=
  fun rest hrest => h (rest ++ below) (by simp [atop, hrest])

/-- A token is running that wakes the callback in the end. -/
inductive Owing (l : LatchId) : Activity → Prop
  | token {c : Code} (h : c.Wakes l) : Owing l ⟨.code c, []⟩
  | inside (a : Activity) (h : a.stack = [] → a.control.Returns) : Owing l (a.atop [.waking l])

namespace Owing

variable {l : LatchId} {a : Activity} {w : World} {here : Place}

theorem unsettled (h : Owing l a) : a.stack ≠ [] ∨ a.control.settles = false := by
  cases h with
  | token h => cases h <;> exact .inr rfl
  | inside a _ => exact .inl (by simp [Activity.atop])

/-- Either the callback is being woken, or it still will be. -/
theorem act (h : Owing l a) (hr : (w.act here a).2.Returns l) :
    Owing l (w.act here a).2 ∨
      a = ⟨.code (task l.interrupt), []⟩ ∧ (w.act here a).2 = ⟨.code (.give .unit), []⟩ := by
  cases h with
  | token h =>
    cases h with
    | interrupt => exact .inr ⟨rfl, rfl⟩
    | interrupting token => exact .inl (.inside ⟨.code token, []⟩ fun _ => hr [] rfl)
  | inside a h =>
    refine .inl ?_
    by_cases hs : a.stack ≠ [] ∨ a.control.settles = false
    · rw [World.act_atop _ _ _ _ hs] at hr ⊢
      refine .inside _ fun hstack => hr [] ?_
      simp [Activity.atop, hstack]
    · obtain ⟨control, stack⟩ := a
      obtain ⟨hstack, hc⟩ := not_or.1 hs
      obtain rfl : stack = [] := by simpa using hstack
      have hreturns := h rfl
      cases control with
      | drive machine run => simp [Control.settles] at hc
      | unwinding message => exact hreturns.elim
      | ended r => exact .inside ⟨.ended r, []⟩ fun _ => trivial
      | code c =>
        cases c with
        | give r => cases r <;> exact .token .interrupt
        | build n => exact hreturns.elim
        | guard t => exact hreturns.elim
        | panic message => simp [Control.settles] at hc
        | perform op next => simp [Control.settles] at hc

end Owing

end Tokens

section Scenes

open Routine

namespace Suspension

/-- What the waiting thread does once it has been called back. -/
def leaving (c : ConnectionId) (exit : Exit) : Code := c.pop fun _ => .give (.outcome exit)

def waiting (c : ConnectionId) (l : LatchId) : Code := l.wait (leaving c)

def pushing (c : ConnectionId) (l : LatchId) (token : Code) : Code :=
  c.push token fun _ => waiting c l

def opening (register : LatchId → Code) (c : ConnectionId) : Code :=
  LatchId.fresh fun l =>
    (register l).andThen (registered c l fun exit => .give (.outcome exit))

def asking (register : LatchId → Code) (c : ConnectionId) : Code :=
  suspend register c fun exit => .give (.outcome exit)

theorem asking_eq (register : LatchId → Code) (c : ConnectionId) :
    asking register c = c.isCanceled fun canceled =>
      if canceled then .give (.outcome .canceled) else opening register c :=
  suspend_eq register c _

/-- The connection's stack belongs to the waiting thread, but everybody may cancel it; and nobody
else waits for the callback. -/
def Spares (c : ConnectionId) (l : LatchId) : Op → Prop
  | .connection d op =>
      d = c → match op with
        | .isCanceled | .isUncancelable | .describe | .cancel => True
        | .push _ | .pop | .popAndRun | .reactivate => False
  | .await callback => callback ≠ l
  | _ => True

/-- The steps of the waiting thread that are the wait's own. -/
def Own (c : ConnectionId) (l : LatchId) (a : Activity) : Prop :=
  (∃ token, a = ⟨.code (pushing c l token), []⟩) ∨ a = ⟨.code (waiting c l), []⟩ ∨
    ∃ exit, a = ⟨.code (leaving c exit), []⟩

structure Scene where
  world : World
  place : Place
  waiter : Activity
  /-- What the waiting thread goes on with after the wait. -/
  below : List Frame
  /-- Threads that have been told to cancel the connection. -/
  cancelers : List (Place × Activity)

/-- A thread has just been told to suspend, and nobody to cancel it. -/
def asked (register : LatchId → Code) (c : ConnectionId) (w : World) (place : Place)
    (below : List Frame) : Scene :=
  ⟨w, place, ⟨.code (asking register c), []⟩, below, []⟩

inductive Sign where
  /-- Somebody calls back. -/
  | delivered (r : Except String Reply)
  /-- The wait is over. -/
  | woken (r : Except String Reply)
  /-- The registration's token is put on the connection, or run if it comes too late. -/
  | pushed (token : Code)
  /-- A token of the connection begins to run. -/
  | started (token : Code)
  /-- A token is taken out, from one state of the connection to the other. -/
  | popped (before after : Connection Code)

/-- What can be seen of an operation. -/
def signs (w : World) (c : ConnectionId) (l : LatchId) : Op → List Sign
  | .connection d (.push token) => if d = c then [.pushed token] else []
  | .connection d .pop =>
      if d = c then [.popped (w.connection c) (w.connection c).pop.1] else []
  | .await callback =>
      if callback = l then (((w.latches[l]?).bind Latch.item?).map Sign.woken).toList else []
  | op =>
      if (w.latches[l]?).isSome then ((w.delivered? l op).map Sign.delivered).toList else []

/-- Tokens of the connection that an operation hands to whoever performs it, to be run. -/
def handed (w : World) (c : ConnectionId) : Op → List Code
  | .connection d (.push token) => if d = c then ((w.connection c).push token).2.toList else []
  | .connection d .popAndRun => if d = c then (w.connection c).pop.2.toList else []
  | .connection d .cancel => if d = c then (w.connection c).cancel.2 else []
  | _ => []

/-- Tokens of the connection that begin to run when a canceler takes its next step: the first of
those it has been handed, and then one after the other. -/
def started (w : World) (c : ConnectionId) (a : Activity) : List Code :=
  match a.control, a.stack with
  | .code (.perform op _), [] => (handed w c op).take 1
  | .code (.perform op _), _ :: _ => handed w c op
  | .unwinding _, [.tokens rest _ _] => rest.take 1
  | .code (.give _), [.tokens rest _ _] => rest.take 1
  | .code (.build _), [.tokens rest _ _] => rest.take 1
  | .code (.guard _), [.tokens rest _ _] => rest.take 1
  | _, _ => []

def shown (w : World) (c : ConnectionId) (l : LatchId) (a : Activity) (tokens : List Code) :
    List Sign :=
  (a.op?.map (signs w c l)).getD [] ++ tokens.map .started

variable (register : LatchId → Code) (c : ConnectionId) (l : LatchId)

/-- A step of one thread, where `l` is the callback of the wait. -/
inductive Moves : Scene → List Sign → Scene → Prop
  | waiter {s : Scene} {w : World} {a : Activity}
      (hs : s.waiter.stack ≠ [] ∨ s.waiter.control.settles = false)
      (hact : s.world.act s.place (s.waiter.atop s.below) = (w, a.atop s.below))
      (hown : ∀ op, s.waiter.op? = some op → Spares c l op ∨ Own c l s.waiter)
      (hfresh : s.waiter = ⟨.code (opening register c), []⟩ → s.world.latches.size = l)
      (hreturns : a.Returns l) :
      Moves s (shown s.world c l s.waiter ((s.waiter.op?.map (handed s.world c)).getD []))
        { s with world := w, waiter := a }
  | canceler {s : Scene} {before after : List (Place × Activity)} {place : Place} {a : Activity}
      (hc : s.cancelers = before ++ (place, a) :: after)
      (hspares : ∀ op, a.op? = some op → Spares c l op)
      (hreturns : (s.world.act place a).2.Returns l) :
      Moves s (shown s.world c l a (started s.world c a))
        { s with
          world := (s.world.act place a).1
          cancelers := before ++ (place, (s.world.act place a).2) :: after }
  | joins {s : Scene} (place : Place) :
      Moves s []
        { s with cancelers := s.cancelers ++ [(place, ⟨.code (task c.cancel), []⟩)] }
  | others {s : Scene} (w : World) (hc : w.connections[c]? = s.world.connections[c]?)
      (hl : ∀ latch, s.world.latches[l]? = some latch → w.latches[l]? = some latch) :
      Moves s [] { s with world := w }
  | delivers {s : Scene} (w : World) (hc : w.connections[c]? = s.world.connections[c]?)
      (r : Except String Reply) {latch : Latch (Except String Reply)}
      (hl : s.world.latches[l]? = some latch) (hw : w.latches[l]? = some (latch.set r).1) :
      Moves s [.delivered r] { s with world := w }

inductive Runs (s : Scene) : List Sign → Scene → Prop
  | start : Runs s [] s
  | move {seen more : List Sign} {t u : Scene} (before : Runs s seen t)
      (h : Moves register c l t more u) : Runs s (seen ++ more) u

/-- The first delivery. -/
def first (seen : List Sign) : Option (Except String Reply) :=
  seen.findSome? fun
    | .delivered r => some r
    | _ => none

def pushes (seen : List Sign) : List Code :=
  seen.filterMap fun
    | .pushed token => some token
    | _ => none

def starts (seen : List Sign) : List Code :=
  seen.filterMap fun
    | .started token => some token
    | _ => none

end Suspension

end Scenes

end Effects
