import Effects.Proofs.Group.Scene
import Effects.Proofs.Race.Stage

/-!
How far a branch has come, and what is then known of its callback and of its siblings' connections.
-/

namespace Effects.Gathering

open Routine
open Racing (Gives)

/-- The group gets a value. -/
def completes : Delivery → Bool
  | .ok (.completed _) => true
  | _ => false

/-- What a branch has been given on its way. -/
structure Lane where
  index : Nat
  cell : CellId
  callback : LatchId
  node : Node
  run : Run
  others : List ConnectionId

namespace Lane

variable (x : Lane) (exit : Delivery)

def calling : Code := .perform (.settle x.callback (exit.map .outcome)) fun _ => .give .unit

def canceling (rest : List ConnectionId) : Code :=
  forEach ConnectionId.cancel rest fun _ => x.calling exit

def writing (seen : Cell (Option Nat)) : Code :=
  .perform (.writeCell x.cell seen x.index) fun r =>
    if r.toFlag then x.canceling exit x.others else x.calling exit

def reading : Code :=
  .perform (.readCell x.cell) fun r =>
    if r.toSnapshot.value.isSome then x.calling exit else x.writing exit r.toSnapshot

def reporting : Code := if completes exit then x.calling exit else x.reading exit

def body : Code := .perform (.drive (.focus x.node []) x.run) .give

def caught (r : Reply) : Code := x.reporting r.toDelivery

def task : Code := .perform (.attempt x.body) x.caught

theorem fail_eq (g : Group) (hcell : g.firstFailure = x.cell)
    (hothers : g.connections.eraseIdx x.index = x.others) :
    g.fail x.index (fun _ => x.calling exit) = x.reading exit := by
  have hclaim : g.fail x.index (fun _ => x.calling exit) =
      CellId.claim x.cell x.index fun won =>
        if won then x.canceling exit x.others else x.calling exit := by
    rw [← hcell]
    refine congrArg (g.firstFailure.claim x.index) (funext fun won => ?_)
    cases won with
    | true => exact congrArg (x.canceling exit) hothers
    | false => rfl
  rw [hclaim]
  show Code.perform _ _ = Code.perform _ _
  congr 1
  funext r
  cases r with
  | snapshot seen => obtain ⟨value, version⟩ := seen; cases value <;> rfl
  | _ => rfl

theorem report_eq (g : Group) (hcell : g.firstFailure = x.cell)
    (hothers : g.connections.eraseIdx x.index = x.others) :
    g.report x.index x.callback exit (fun _ => .give .unit) = x.reporting exit := by
  rcases exit with message | v | e | _
  · exact x.fail_eq (.error message) g hcell hothers
  · rfl
  · exact x.fail_eq (.ok (.errored e)) g hcell hothers
  · exact x.fail_eq (.ok .canceled) g hcell hothers

end Lane

/-- Runs tokens, and then the code. -/
inductive Clears (c : Code) : Activity → Prop
  | code : Clears c ⟨.code c, []⟩
  | unwinding (message : String) : Clears c ⟨.unwinding message, []⟩
  | token (a : Activity) (rest : List Code) (failure : Option String) :
      Clears c (a.atop [.tokens rest failure fun _ => c])

theorem Clears.runTokens (c : Code) (tokens : List Code) (failure : Option String) :
    Clears c (Activity.runTokens tokens failure (fun _ => c) []) := by
  cases tokens with
  | nil =>
    cases failure with
    | none => exact .code
    | some message => exact .unwinding message
  | cons token rest => exact .token ⟨.code token, []⟩ rest failure

theorem Clears.act_token (c : Code) (w : World) (here : Place) (a : Activity) (rest : List Code)
    (failure : Option String) :
    Clears c (w.act here (a.atop [.tokens rest failure fun _ => c])).2 := by
  by_cases hs : a.stack ≠ [] ∨ a.control.settles = false
  · rw [World.act_atop _ _ _ _ hs]
    exact .token _ rest failure
  · obtain ⟨control, stack⟩ := a
    obtain ⟨hstack, hc⟩ := not_or.1 hs
    obtain rfl : stack = [] := by simpa using hstack
    cases control with
    | drive machine run => simp [Control.settles] at hc
    | code body =>
      cases body with
      | perform op next => simp [Control.settles] at hc
      | panic message => simp [Control.settles] at hc
      | _ => exact .runTokens c rest failure
    | unwinding message => exact .runTokens c rest (failure.or (some message))
    | ended r => exact .token ⟨.ended r, []⟩ rest failure

inductive Phase where
  | dispatched
  | beginning
  | running
  | reading (exit : Delivery)
  | writing (exit : Delivery)
  /-- The first to fail cancels its siblings. -/
  | canceling (exit : Delivery) (done rest : List ConnectionId)
  | calling (exit : Delivery)
  | finished (exit : Delivery) (won : Bool)

namespace Phase

def At (x : Lane) (a : Activity) : Phase → Prop
  | .dispatched => a = ⟨.code x.task, []⟩
  | .beginning => a = ⟨.code x.body, [.attempt x.caught]⟩
  | .running => ∃ b, Ahead Gives b ∧ a = b.atop [.attempt x.caught]
  | .reading exit => a = ⟨.code (x.reading exit), []⟩
  | .writing exit => a = ⟨.code (x.writing exit ⟨none, 0⟩), []⟩
  | .canceling exit _ rest => Clears (x.canceling exit rest) a
  | .calling exit => a = ⟨.code (x.calling exit), []⟩
  | .finished _ _ => a = ⟨.code (.give .unit), []⟩

def began (x : Lane) : Sign := .began x.index (.focus x.node []) x.run

/-- All that is seen of a branch that fails first, before it calls back. -/
def claiming (x : Lane) (exit : Delivery) (done : List ConnectionId) : List Sign :=
  [began x, .ended x.index exit, .claimed x.index] ++ done.map (.canceled x.index)

def trace (x : Lane) : Phase → List Sign
  | .dispatched | .beginning => []
  | .running => [began x]
  | .reading exit | .writing exit | .calling exit => [began x, .ended x.index exit]
  | .canceling exit done _ => claiming x exit done
  | .finished exit won =>
      (if won then claiming x exit x.others else [began x, .ended x.index exit]) ++
        [.called x.index x.callback (exit.map .outcome)]

def Facts (x : Lane) (w : World) (seen : List Sign) : Phase → Prop
  | .dispatched | .beginning | .running => True
  | .reading exit | .writing exit => completes exit = false
  | .canceling exit done rest =>
      completes exit = false ∧ done ++ rest = x.others ∧ ∀ d ∈ done, w.isCanceled d = true
  | .finished exit true => completes exit = false ∧ ∀ d ∈ x.others, w.isCanceled d = true
  | .calling exit | .finished exit false => completes exit = true ∨ claims seen ≠ []

/-- What is in the branch's callback, `taken` if the caller has waited for it. -/
def latch (taken : Bool) : Phase → Latch (Except String Reply)
  | .finished exit _ => if taken then .drained else .full (exit.map .outcome)
  | _ => .empty

end Phase

structure Stage (x : Lane) (w : World) (seen : List Sign) (a : Activity) (phase : Phase)
    (taken : Bool) : Prop where
  at_ : phase.At x a
  trace : course x.index seen = phase.trace x
  facts : phase.Facts x w seen
  latch : w.latches[x.callback]? = some (phase.latch taken)
  finished : taken = true → ∃ exit won, phase = .finished exit won

def Claimed (k : CellId) (w : World) (seen : List Sign) : Prop :=
  claims seen = [] ∧ w.cells[k]? = some ⟨none, 0⟩ ∨
    ∃ i, claims seen = [i] ∧ w.cells[k]? = some ⟨some i, 1⟩

/-- The group cancels only after a failure has been recorded, on the part of the branch that has
failed. -/
def Induced (seen : List Sign) : Prop :=
  ∀ before i d after, seen = before ++ .canceled i d :: after →
    claims before = [i] ∧ ∃ exit, completes exit = false ∧ .ended i exit ∈ before

variable {x : Lane} {w w' : World} {seen more : List Sign} {phase : Phase}

theorem Phase.Facts.mono (h : phase.Facts x w seen)
    (hw : ∀ d ∈ x.others, w.isCanceled d = true → w'.isCanceled d = true)
    (hseen : claims seen ≠ [] → claims more ≠ []) : phase.Facts x w' more := by
  cases phase with
  | canceling exit done rest =>
    obtain ⟨hfails, hothers, hdone⟩ := h
    refine ⟨hfails, hothers, fun d hd => hw d ?_ (hdone d hd)⟩
    rw [← hothers]
    exact List.mem_append_left rest hd
  | calling exit => exact h.imp_right hseen
  | finished exit won =>
    cases won with
    | true => exact ⟨h.1, fun d hd => hw d hd (h.2 d hd)⟩
    | false => exact h.imp_right hseen
  | _ => exact h

theorem claims_ne_nil (h : claims seen ≠ []) : claims (seen ++ more) ≠ [] := by
  rw [claims_append]
  intro hnil
  exact h (List.append_eq_nil_iff.1 hnil).1

/-- The branch is where it was, whatever the others have done. -/
theorem Stage.still {a : Activity} {taken : Bool} (h : Stage x w seen a phase taken)
    (hcourse : course x.index more = course x.index seen)
    (hw : ∀ d ∈ x.others, w.isCanceled d = true → w'.isCanceled d = true)
    (hseen : claims seen ≠ [] → claims more ≠ [])
    (hlatch : ∀ latch, w.latches[x.callback]? = some latch →
      w'.latches[x.callback]? = some latch) : Stage x w' more a phase taken where
  at_ := h.at_
  trace := hcourse.trans h.trace
  facts := h.facts.mono hw hseen
  latch := hlatch _ h.latch
  finished := h.finished

theorem Claimed.kept {k : CellId} (h : Claimed k w seen)
    (hw : ∀ value, w.cells[k]? = some value → w'.cells[k]? = some value)
    (hmore : claims more = []) : Claimed k w' (seen ++ more) := by
  rw [Claimed, claims_append, hmore, List.append_nil]
  obtain ⟨hc, hcell⟩ | ⟨i, hc, hcell⟩ := h
  · exact .inl ⟨hc, hw _ hcell⟩
  · exact .inr ⟨i, hc, hw _ hcell⟩

theorem Claimed.eq_of_mem {k : CellId} {i : Nat} (h : Claimed k w seen) (hi : i ∈ claims seen) :
    claims seen = [i] := by
  obtain ⟨hc, -⟩ | ⟨j, hc, -⟩ := h <;> rw [hc] at hi ⊢
  · cases hi
  · rw [List.mem_singleton.1 hi]

theorem Induced.append (h : Induced seen)
    (hmore : ∀ before i d after, more = before ++ .canceled i d :: after →
      claims (seen ++ before) = [i] ∧
        ∃ exit, completes exit = false ∧ .ended i exit ∈ seen ++ before) :
    Induced (seen ++ more) := by
  intro before i d after heq
  obtain ⟨cs, rfl, hmore'⟩ | ⟨bs, hseen, hafter⟩ := List.append_eq_append_iff.1 heq
  · exact hmore cs i d after hmore'
  · cases bs with
    | nil =>
      rw [List.append_nil] at hseen
      subst hseen
      have hfirst := hmore [] i d after hafter.symm
      rwa [List.append_nil] at hfirst
    | cons sign bs =>
      obtain ⟨rfl, -⟩ := List.cons.inj hafter
      exact h before i d bs hseen

theorem Induced.append_of_not_canceled (h : Induced seen)
    (hmore : ∀ i d, .canceled i d ∉ more) : Induced (seen ++ more) := by
  refine h.append fun before i d after heq => absurd ?_ (hmore i d)
  rw [heq]
  simp

end Effects.Gathering
