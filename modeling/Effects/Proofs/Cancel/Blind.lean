import Effects.Proofs.Bracket.Events
import Effects.Proofs.Suspend.Shared

/-!
The same step, taken with a connection in one state and in another: only what looks at the
connection can tell the difference.
-/

namespace Effects

namespace World

variable {w : World} {here : Place} {c : ConnectionId}

theorem push_setIfInBounds {α : Type} {xs : Array α} {i : Nat} (h : i < xs.size) (x y : α) :
    (xs.setIfInBounds i x).push y = (xs.push y).setIfInBounds i x := by
  have h' : i < (xs.push y).size := by
    rw [Array.size_push]
    exact Nat.lt_succ_of_lt h
  simp only [Array.setIfInBounds, h, h', dite_true, Array.set_push]

theorem setConnection_comm {d : ConnectionId} (h : d ≠ c) (w : World) (s s' : Connection Code) :
    (w.setConnection c s).setConnection d s' = (w.setConnection d s').setConnection c s := by
  simp only [setConnection]
  rw [Array.setIfInBounds_comm s s' h.symm]

theorem onConnection_setConnection {d : ConnectionId} (h : d ≠ c) (w : World)
    (s : Connection Code) (op : ConnectionOp Code) :
    (w.setConnection c s).onConnection d op =
      ((w.onConnection d op).1.setConnection c s, (w.onConnection d op).2) := by
  have hd : (w.setConnection c s).connections[d]? = w.connections[d]? := by
    simp [setConnection, h.symm]
  cases op with
  | push token =>
    simp only [onConnection, hd]
    split <;> simp [replying, setConnection_comm h]
  | popAndRun =>
    simp only [onConnection, hd]
    split <;> simp [replying, setConnection_comm h]
  | isCanceled | isUncancelable | describe => simp [onConnection, hd, replying]
  | _ => simp [onConnection, hd, replying, setConnection_comm h]

theorem onContext_setConnection (w : World) (s : Connection Code) (home : Option ContextId)
    (d : ContextId) (op : ContextOp Code) :
    (w.setConnection c s).onContext home d op =
      ((w.onContext home d op).1.setConnection c s, (w.onContext home d op).2) := by
  cases op with
  | execute task =>
    have hcontexts : (w.setConnection c s).contexts = w.contexts := rfl
    simp only [onContext, hcontexts, spawnThread]
    split
    · rfl
    · split
      · rfl
      · split <;> rfl
    · rfl
  | _ => rfl

theorem onSlot_setConnection (w : World) (s : Connection Code) (i : SlotId)
    (request : MVar.Request Value LatchId) (phase : MVar.Phase Value LatchId) :
    (w.setConnection c s).onSlot i request phase =
      ((w.onSlot i request phase).1.setConnection c s, (w.onSlot i request phase).2) := by
  have hslots : (w.setConnection c s).slots = w.slots := rfl
  simp only [onSlot, hslots]
  cases w.slots[i]? with
  | none => rfl
  | some slot =>
    rcases hstep : phase.step request slot with ⟨slot', phase', _ | call⟩ <;>
      simp only [hstep] <;> cases phase' <;> rfl

theorem onPromise_setConnection (w : World) (s : Connection Code) (p : PromiseId)
    (request : Promise.Request Value Value LatchId) (phase : Promise.Phase Value Value LatchId) :
    (w.setConnection c s).onPromise p request phase =
      ((w.onPromise p request phase).1.setConnection c s, (w.onPromise p request phase).2) := by
  have hpromises : (w.setConnection c s).promises = w.promises := rfl
  simp only [onPromise, hpromises]
  cases w.promises[p]? with
  | none => rfl
  | some slot =>
    rcases hstep : phase.step request slot with ⟨slot', phase', _ | call⟩ <;>
      simp only [hstep] <;> cases phase' <;> rfl

theorem openContext_setConnection (w : World) (s : Connection Code) (name : String)
    (serial : Bool) (stackSize : Option Nat) :
    (w.setConnection c s).openContext name serial stackSize =
      ((w.openContext name serial stackSize).1.setConnection c s,
        (w.openContext name serial stackSize).2) := by
  simp only [openContext]
  split
  · split <;> rfl
  · rfl

theorem perform_seeded (here : Place) {seed : Nat} (h : nextSeed w.seed = seed)
    (low high : Float) :
    w.perform here (.factorBetween low high) =
      ({ w with seed }, .reply (.factor (factorBetween seed low high))) := by
  rw [perform, h]
  rfl

/-- An operation that is not on the connection does the same whatever state that is in. -/
theorem perform_setConnection (hc : c < w.connections.size) (s : Connection Code) {op : Op}
    (h : ∀ op', op ≠ .connection c op') :
    (w.setConnection c s).perform here op =
      ((w.perform here op).1.setConnection c s, (w.perform here op).2) := by
  cases op with
  | openConnection =>
    simp [perform, replying, setConnection, push_setIfInBounds hc]
  | connection d op =>
    refine onConnection_setConnection ?_ w s op
    rintro rfl
    exact h op rfl
  | openFiber =>
    simp [perform, replying, setConnection, push_setIfInBounds hc]
  | context d op => exact onContext_setConnection w s here.home d op
  | slot i request phase => exact onSlot_setConnection w s i request phase
  | promise p request phase => exact onPromise_setConnection w s p request phase
  | openContext name serial stackSize =>
    simp only [perform]
    split
    · rfl
    · rw [openContext_setConnection]
      rfl
  | await l =>
    have hlatches : (w.setConnection c s).latches = w.latches := rfl
    cases hitem : w.latches[l]?.bind Latch.item? with
    | none => simp only [perform, hlatches, hitem]
    | some r =>
      simp only [perform, hlatches, hitem]
      rfl
  | fiber f op => cases op <;> rfl
  | factorBetween low high =>
    obtain ⟨seed, hseed⟩ : ∃ seed, nextSeed w.seed = seed := ⟨_, rfl⟩
    have hseed' : nextSeed (w.setConnection c s).seed = seed := hseed
    rw [perform_seeded here hseed, perform_seeded here hseed']
    rfl
  | _ => rfl

end World

/-- Is not begun once its run has been canceled. -/
def Node.asks : Node → Bool
  | .async _ | .bracket _ _ _ | .bracketUse _ _ _ => true
  | _ => false

def Machine.asks : Machine → Bool
  | .focus node _ => node.asks
  | .unwind _ _ => false

variable {env env' : Surroundings} {exit : Exit} {run : Run}

theorem Machine.resume_env (h : env.current = env'.current) (next : List Cont) :
    resume env exit next run = resume env' exit next run := by
  cases next with
  | nil => cases exit <;> rfl
  | cons cont rest =>
    cases cont <;> cases exit <;> simp only [resume, continueInto, h]

theorem Frame.exited_env (h : env.current = env'.current) (frame : Frame) :
    frame.exited env exit run = frame.exited env' exit run := by
  cases frame <;> cases exit <;> simp only [exited, Machine.resume_env h]

theorem Activity.close_env (h : env.current = env'.current) (answer : Answer)
    (stack : List Frame) : close env answer stack = close env' answer stack := by
  have hfinish : ∀ exit run frame stack,
      finish env exit run frame stack = finish env' exit run frame stack := by
    intro exit run frame stack
    simp only [finish, Frame.exited_env h]
  cases stack with
  | nil => rfl
  | cons frame stack =>
    cases frame <;> cases answer <;> first
      | rfl
      | (rename_i r; cases r <;> simp only [close, reply, hfinish, Machine.resume_env h])

/-- What a machine does that does not ask, or gets the same answer. -/
theorem Machine.step_env (h : env.current = env'.current) (m : Machine)
    (hc : m.asks = true → env.canceled run.connection = env'.canceled run.connection) :
    m.step env run = m.step env' run := by
  cases m with
  | unwind exit next => exact resume_env h next
  | focus node next =>
    cases node with
    | bracket | bracketUse => simp only [step, hc rfl, resume_env h]
    | _ => simp only [step, resume_env h]

theorem Machine.marks_env (h : env.current = env'.current) (m : Machine)
    (hc : m.asks = true → env.canceled run.connection = env'.canceled run.connection) :
    m.marks env run = m.marks env' run := by
  have hstep := m.step_env h hc
  cases m with
  | unwind exit next => simp only [marks, hstep]
  | focus node next =>
    cases node with
    | bracketUse => simp only [marks, hstep, hc rfl]
    | _ => simp only [marks, hstep]

theorem Machine.calls_env {w w' : World} (hw : w.latches = w'.latches)
    (h : env.current = env'.current) (m : Machine)
    (hc : m.asks = true → env.canceled run.connection = env'.canceled run.connection) :
    m.calls w env run = m.calls w' env' run := by
  have hstep := m.step_env h hc
  cases m with
  | unwind exit next => simp only [calls, hstep]
  | focus node next =>
    cases node with
    | async => simp only [calls, hw, hc rfl]
    | _ => simp only [calls, hstep]

namespace World

variable {w : World} {here : Place} {c : ConnectionId} {a : Activity}

theorem isCanceled_setConnection {d : ConnectionId} (h : d ≠ c) (s : Connection Code) :
    (w.setConnection c s).isCanceled d = w.isCanceled d := by
  simp [isCanceled, setConnection, h.symm]

/-- Does not look at the connection in its next step. -/
structure Overlooks (w : World) (here : Place) (c : ConnectionId) (a : Activity) : Prop where
  performs : ∀ op, a.op? = some op → ∀ op', op ≠ .connection c op'
  drives : ∀ m run, a.control = .drive m run → w.isCurrent here.home run.context = true →
    m.asks = true → run.connection ≠ c

theorem Overlooks.canceled (h : Overlooks w here c a) (s : Connection Code) {m : Machine}
    {run : Run} (ha : a.control = .drive m run) (hcurrent : w.isCurrent here.home run.context = true) :
    m.asks = true → ((w.setConnection c s).surroundings here.home).canceled run.connection =
      (w.surroundings here.home).canceled run.connection :=
  fun hasks => isCanceled_setConnection (h.drives m run ha hcurrent hasks) s

theorem act_setConnection (hc : c < w.connections.size) (s : Connection Code)
    (h : Overlooks w here c a) :
    (w.setConnection c s).act here a = ((w.act here a).1.setConnection c s, (w.act here a).2) := by
  obtain ⟨control, stack⟩ := a
  have hcurrent : ((w.setConnection c s).surroundings here.home).current =
      (w.surroundings here.home).current := rfl
  cases control with
  | drive m run =>
    have hhere : (w.setConnection c s).isCurrent here.home run.context =
        w.isCurrent here.home run.context := rfl
    simp only [act, hhere]
    split
    · rename_i hyes
      rw [m.step_env hcurrent (h.canceled s rfl hyes)]
    · rfl
  | code x =>
    cases x with
    | perform op next => simp only [act, perform_setConnection hc s (h.performs op rfl)]
    | give | build | guard => simp only [act, Activity.close_env hcurrent]
    | panic message => rfl
  | _ => rfl

theorem calls_setConnection (s : Connection Code) (h : Overlooks w here c a) :
    (w.setConnection c s).calls here a = w.calls here a := by
  obtain ⟨control, stack⟩ := a
  have hcurrent : ((w.setConnection c s).surroundings here.home).current =
      (w.surroundings here.home).current := rfl
  cases control with
  | drive m run =>
    have hhere : (w.setConnection c s).isCurrent here.home run.context =
        w.isCurrent here.home run.context := rfl
    simp only [calls, hhere]
    split
    · rename_i hyes
      exact m.calls_env rfl hcurrent (h.canceled s rfl hyes)
    · rfl
  | code x =>
    cases x with
    | give r =>
      cases stack with
      | nil => cases r <;> rfl
      | cons frame stack =>
        cases r with
        | ended exit run => simp only [calls, Frame.exited_env hcurrent]
        | outcome exit => cases frame <;> rfl
        | _ => rfl
    | _ => rfl
  | _ => rfl

theorem marks_setConnection (s : Connection Code) (h : Overlooks w here c a) :
    (w.setConnection c s).marks here a = w.marks here a := by
  obtain ⟨control, stack⟩ := a
  have hcurrent : ((w.setConnection c s).surroundings here.home).current =
      (w.surroundings here.home).current := rfl
  cases control with
  | drive m run =>
    have hhere : (w.setConnection c s).isCurrent here.home run.context =
        w.isCurrent here.home run.context := rfl
    simp only [marks, hhere]
    split
    · rename_i hyes
      exact m.marks_env hcurrent (h.canceled s rfl hyes)
    · rfl
  | code x =>
    cases x with
    | give r =>
      cases r <;> cases stack <;> rfl
    | _ => rfl
  | _ => rfl

end World

end Effects
