import Effects.Proofs.Cancel.Tape
import Effects.Proofs.Suspend.Waiter

/-!
What a wait makes of its connection while nobody cancels it: the token that the registration answers
with is on the connection for as long as the run waits.
-/

namespace Effects

open Suspension

/-- The code may answer with the token. -/
inductive Code.Offers : Code → Code → Prop
  | guard (token : Code) : Code.Offers (.guard (some token)) token
  | perform {op : Op} {next : Reply → Code} {token : Code} (r : Reply)
      (h : (next r).Offers token) : Code.Offers (.perform op next) token

/-- Offers nothing but what the other code offers. -/
def Code.Narrows (y x : Code) : Prop := ∀ token, x.Offers token → y.Offers token

theorem Code.narrows_stable (y : Code) : Stable (Narrows y) where
  next h r token ht := h token (.perform r ht)
  again op' h token ht := by
    cases ht with
    | perform r ht => exact h token (.perform r ht)

/-- How far a wait has come, where `ts` were the connection's tokens before it. -/
inductive Wait (c : ConnectionId) (ts : List Code) (register : LatchId → Code) :
    Connection Code → Activity → Prop
  | asking : Wait c ts register (.active ts) ⟨.code (asking register c), []⟩
  | opening : Wait c ts register (.active ts) ⟨.code (opening register c), []⟩
  | registering {l : LatchId} {a b : Activity} (ha : Ahead (register l).Narrows a)
      (hf : Followed (after c l) a b) : Wait c ts register (.active ts) b
  | bare (l : LatchId) :
      Wait c ts register (.active ts) ⟨.code (l.wait fun exit => .give (.outcome exit)), []⟩
  | waiting {l : LatchId} {token : Code} (h : (register l).Offers token) :
      Wait c ts register (.active (token :: ts)) ⟨.code (waiting c l), []⟩
  | leaving (token : Code) (exit : Exit) :
      Wait c ts register (.active (token :: ts)) ⟨.code (leaving c exit), []⟩
  | gives (exit : Exit) : Wait c ts register (.active ts) ⟨.code (.give (.outcome exit)), []⟩
  | failed (s : Connection Code) (message : String) :
      Wait c ts register s ⟨.code (.panic message), []⟩

variable {c : ConnectionId} {l : LatchId} {ts : List Code} {register : LatchId → Code}
  {s : Connection Code} {w : World} {here : Place} {a b : Activity}

/-- A registration that has not answered does none of the wait's steps, but may ask. -/
theorem Followed.not_waits (hf : Followed (after c l) a b)
    (ha : a.stack ≠ [] ∨ a.control.settles = false) {op : Op} {next : Reply → Code}
    (hb : b = ⟨.code (.perform op next), []⟩) (hw : (Code.perform op next).Waits c) :
    op = .connection c .isCanceled := by
  cases hf with
  | code x =>
    have hx := Control.code.inj (Activity.mk.inj hb).1
    generalize hy : Code.perform op next = y at hx hw
    cases hw with
    | asking register =>
      rw [asking_eq] at hy
      exact (Code.perform.inj hy).1
    | leaving exit => exact absurd hx (after_ne_leaving x exit)
    | pushing callback token =>
      cases x with
      | perform op' next' =>
        obtain ⟨-, hnext⟩ := Code.perform.inj hx
        exact absurd (congrFun hnext .unit) (after_ne_waiting _)
      | panic message => cases hx
      | _ => simp [Control.settles] at ha
  | unwinding message => cases hb
  | above a frame hframe => simp [Activity.atop] at hb

namespace Wait

/-- The operations of a wait: the wait's own, or those that leave the connection alone. -/
def Allowed (c : ConnectionId) (b : Activity) : Prop :=
  ∀ op next, b.control = .code (.perform op next) →
    (∀ op', op ≠ .connection c op') ∨ b.stack = [] ∧ (Code.perform op next).Waits c

theorem registering_act (ha : Ahead (register l).Narrows a) (hf : Followed (after c l) a b)
    (hs : a.stack ≠ [] ∨ a.control.settles = false) (hc : w.connections[c]? = some (.active ts))
    (hallowed : Allowed c b) :
    (w.act here b).1.connections[c]? = some (.active ts) ∧
      Wait c ts register (.active ts) (w.act here b).2 := by
  obtain ⟨hworld, hf'⟩ := hf.act w here hs
  refine ⟨?_, .registering (ha.act (Code.narrows_stable _) w here hs) hf'⟩
  rw [World.act_world]
  cases hop : b.op? with
  | none => exact hc
  | some op =>
    obtain ⟨control, stack⟩ := b
    cases control with
    | code x =>
      cases x with
      | perform op' next =>
        obtain rfl := Option.some.inj hop
        obtain hop' | ⟨rfl, hw⟩ := hallowed op' next rfl
        · exact World.perform_connection hc hop'
        · rw [hf.not_waits hs rfl hw]
          exact hc
      | _ => cases hop
    | _ => cases hop

theorem bare_act (hc : w.connections[c]? = some (.active ts)) (l : LatchId) :
    ∃ s, (w.act here ⟨.code (l.wait fun exit => .give (.outcome exit)), []⟩).1.connections[c]? =
      some s ∧ Wait c ts register s
        (w.act here ⟨.code (l.wait fun exit => .give (.outcome exit)), []⟩).2 := by
  obtain ⟨hconn, h | ⟨exit, h⟩ | ⟨message, h⟩⟩ :=
    World.await_act w here l (fun exit => .give (.outcome exit)) []
  all_goals rw [hconn, h]; refine ⟨_, hc, ?_⟩
  · exact .bare l
  · exact .gives exit
  · exact .failed _ message

/-- The registration has answered. -/
theorem answered_act (here : Place) (res : Except String Answer)
    (ha : Ahead (register l).Narrows ⟨.answering res, []⟩)
    (hf : Followed (after c l) ⟨.answering res, []⟩ b)
    (hc : w.connections[c]? = some (.active ts)) :
    (∃ s, (w.act here b).1.connections[c]? = some s ∧ Wait c ts register s (w.act here b).2) ∨
      ∃ message, b = ⟨.unwinding message, []⟩ := by
  obtain rfl := hf.of_answering
  rcases res with message | answer
  · exact .inr ⟨message, rfl⟩
  · left
    obtain ⟨token, rfl, hafter⟩ | hafter := after_cases (c := c) (l := l) answer
    · have hoffers : (register l).Offers token := ha.of_code token (.guard token)
      rw [Control.following, hafter, pushing_act hc token]
      exact ⟨_, World.setConnection_getElem? hc _, .waiting hoffers⟩
    · rw [Control.following, hafter]
      exact bare_act hc l

/-- A step of the wait, until it hands over its exit. -/
theorem act (h : Wait c ts register s b) (here : Place) (hc : w.connections[c]? = some s)
    (hallowed : Allowed c b) :
    (∃ s', (w.act here b).1.connections[c]? = some s' ∧ Wait c ts register s' (w.act here b).2) ∨
      (∃ message, b = ⟨.code (.panic message), []⟩ ∨ b = ⟨.unwinding message, []⟩) ∨
        ∃ exit, b = ⟨.code (.give (.outcome exit)), []⟩ ∧ s = .active ts := by
  cases h with
  | asking =>
    left
    rw [asking_act]
    have hno : (w.connection c).isCanceled = false := by
      rw [World.connection, hc]
      rfl
    rw [hno]
    exact ⟨_, hc, .opening⟩
  | opening =>
    have hahead : Ahead (register w.latches.size).Narrows ⟨.code (register w.latches.size), []⟩ :=
      .code fun _ => id
    exact .inl ⟨_, hc, .registering hahead (.code _)⟩
  | registering ha hf =>
    rename_i l a
    obtain ⟨res, rfl⟩ | ⟨r, rfl⟩ | hs := a.settled_or
    · obtain h | ⟨message, h⟩ := answered_act here res ha hf hc
      · exact .inl h
      · exact .inr (.inl ⟨message, .inr h⟩)
    · exact absurd rfl ha.stack_ne_nil
    · exact .inl ⟨_, registering_act ha hf hs hc hallowed⟩
  | bare l => exact .inl (bare_act hc l)
  | @waiting l token hoffers =>
    left
    obtain ⟨hconn, h | ⟨exit, h⟩ | ⟨message, h⟩⟩ :=
      World.await_act w here l (Suspension.leaving c) []
    all_goals rw [Suspension.waiting, hconn, h]; refine ⟨_, hc, ?_⟩
    · exact .waiting hoffers
    · exact .leaving token exit
    · exact .failed _ message
  | leaving token exit =>
    left
    rw [World.leaving_act here hc]
    exact ⟨_, World.setConnection_getElem? hc _, .gives exit⟩
  | gives exit => exact .inr (.inr ⟨exit, rfl, rfl⟩)
  | failed s message => exact .inr (.inl ⟨message, .inl rfl⟩)

end Wait

end Effects
