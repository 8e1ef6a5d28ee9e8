import Effects.Proofs.Bracket.Releases
import Effects.Proofs.Cancel.Wait

/-!
With which connection a run goes on where: its own one, and in acquires, releases and uncancelable
regions the one that is never canceled.
-/

namespace Effects

variable {c : ConnectionId} {ts : List Code} {env : Surroundings} {exit : Exit} {run : Run}
  {next : List Cont} {fs : List Frame} {frame : Frame} {s : Connection Code} {a b : Activity}
  {awaited : Option (LatchId → Code)}

/-- Whoever goes on above these frames does so with the second connection. -/
inductive Within (c : ConnectionId) : ConnectionId → List Cont → List Frame → Prop
  | nil : Within c c [] []
  | cont {d : ConnectionId} {cont : Cont} {next : List Cont} {fs : List Frame}
      (hcont : ∀ saved, cont ≠ .restore saved) (h : Within c d next fs) :
      Within c d (cont :: next) fs
  | restore {saved : ConnectionId} {next : List Cont} {fs : List Frame}
      (h : Within c saved next fs) : Within c .uncancelable (.restore saved :: next) fs
  | inUse {d : ConnectionId} (resource : Value) (release : Value → ExitCase Value → Code)
      {next : List Cont} {fs : List Frame} (h : Within c d next fs) :
      Within c d [] (.using resource release next :: fs)
  | instrumented {d : ConnectionId} {next : List Cont} {fs : List Frame}
      (h : Within c d next fs) : Within c d [] (.instrumented next :: fs)
  | acquiring (use : Value → Code) (release : Value → ExitCase Value → Code)
      {saved : ConnectionId} {next : List Cont} {fs : List Frame} (h : Within c saved next fs) :
      Within c .uncancelable [] (.acquiring use release saved next :: fs)
  | releasing (exit : Exit) {saved : ConnectionId} {next : List Cont} {fs : List Frame}
      (h : Within c saved next fs) :
      Within c .uncancelable [] (.releasing exit saved next :: fs)

theorem Within.plain {d : ConnectionId} (h : Within c d next fs) : fs.any Frame.isCode = false := by
  induction h with
  | nil => rfl
  | cont _ _ ih | restore _ ih => exact ih
  | inUse _ _ _ ih | instrumented _ ih | acquiring _ _ _ ih | releasing _ _ ih => exact ih

def Machine.conts : Machine → List Cont
  | .focus _ next | .unwind _ next => next

/-- Waits for code that a machine has called. -/
inductive Frame.Calls (next : List Cont) (run : Run) : Frame → Prop
  | node : Frame.Calls next run (.node next run)
  | opening (resource : Value) (release : Value → ExitCase Value → Code) :
      Frame.Calls next run (.opening resource release next run)

theorem Frame.Calls.isCode (h : frame.Calls next run) : frame.isCode = false := by
  cases h <;> rfl

/-- Where a run is whose connection has not been canceled: the connection has the tokens that it had
before the run, but for that of the wait that the run is in. -/
inductive Stays (c : ConnectionId) (ts : List Code) :
    Option (LatchId → Code) → Connection Code → Activity → Prop
  | drive {m : Machine} {run : Run} {fs : List Frame} (h : Within c run.connection m.conts fs) :
      Stays c ts none (.active ts) ⟨.drive m run, fs⟩
  | code {b : Activity} {frame : Frame} {next : List Cont} {run : Run} {fs : List Frame}
      (hb : Ahead (fun _ => True) b) (hf : frame.Calls next run)
      (h : Within c run.connection next fs) :
      Stays c ts none (.active ts) (b.atop (frame :: fs))
  | lent (r : Reply) {frame : Frame} {next : List Cont} {run : Run} {fs : List Frame}
      (hf : frame.Calls next run) (h : Within c run.connection next fs) :
      Stays c ts none (.active ts) ⟨.ended (.ok r), frame :: fs⟩
  | wait {register : LatchId → Code} {s : Connection Code} {b : Activity} {next : List Cont}
      {run : Run} {fs : List Frame} (hw : Wait c ts register s b) (hr : run.connection = c)
      (h : Within c c next fs) : Stays c ts (some register) s (b.atop (.node next run :: fs))
  | given (exit : Exit) {run : Run} {fs : List Frame} (h : Within c run.connection [] fs) :
      Stays c ts none (.active ts) ⟨.code (.give (.ended exit run)), fs⟩
  | ended (exit : Exit) {run : Run} {fs : List Frame} (h : Within c run.connection [] fs) :
      Stays c ts none (.active ts) ⟨.ended (.ok (.ended exit run)), fs⟩

theorem Stays.called {code : Code} (hf : frame.Calls next run)
    (h : Within c run.connection next fs) :
    Stays c ts none (.active ts) ⟨.code code, frame :: fs⟩ :=
  .code (b := ⟨.code code, []⟩) (.code trivial) hf h

theorem Machine.continueInto_stays (closure : Code) (h : Within c run.connection next fs) :
    Stays c ts none (.active ts) (Activity.after (continueInto env closure next run) fs) := by
  unfold continueInto
  split
  · exact .called .node h
  · exact .drive h

theorem Machine.resume_stays (exit : Exit) (h : Within c run.connection next fs) :
    Stays c ts none (.active ts) (Activity.after (resume env exit next run) fs) := by
  cases next with
  | nil => cases exit <;> exact .given _ h
  | cons cont rest =>
    generalize hd : run.connection = d at h
    cases h with
    | restore h => cases exit <;> exact .drive h
    | cont hcont h =>
      subst hd
      cases cont with
      | map f | flatMap f =>
        cases exit with
        | completed v => exact continueInto_stays (f v) h
        | errored | canceled => exact .drive h
      | recover f =>
        cases exit with
        | errored e => exact continueInto_stays (f e) h
        | completed | canceled => exact .drive h
      | switch target => cases exit <;> exact .drive h
      | restore saved => exact absurd rfl (hcont saved)

/-- No error goes any further: a panic has come to the run itself. -/
def Activity.Fails (a : Activity) : Prop :=
  a.inside = false ∧ ∃ message, a.control = .unwinding message ∨ a.control = .ended (.error message)

/-- The run goes on, or a panic ends it. -/
def Activity.Goes (c : ConnectionId) (ts : List Code) (awaited : Option (LatchId → Code))
    (s : Connection Code) (a : Activity) : Prop :=
  Stays c ts awaited s a ∨ a.Fails

namespace Stays

/-- A machine's step that does not wait for a callback. -/
theorem step {m : Machine} (h : Within c run.connection m.conts fs)
    (hm : ∀ register next, m = .focus (.async register) next → run.connection ≠ c) :
    Stays c ts none (.active ts) (Activity.after (m.step env run) fs) := by
  cases m with
  | unwind exit next => exact Machine.resume_stays exit h
  | focus node next =>
    cases node with
    | pure v | raise e => exact Machine.resume_stays _ h
    | suspend thunk => exact .called .node h
    | async register => exact .called .node h
    | map inner f | flatMap inner f | handleErrorWith inner f | continueOn inner f =>
      exact .drive (.cont nofun h)
    | uncancelable inner => exact .drive (.restore h)
    | bracket acquire use release =>
      simp only [Machine.step]
      split
      · exact Machine.resume_stays _ h
      · exact .drive (.acquiring use release h)
    | bracketUse resource use release =>
      simp only [Machine.step]
      split
      · exact .drive h
      · exact .called (.opening resource release) h
    | bracketRelease finalizer exit => exact .drive (.releasing exit h)
    | parMap | parSequence => exact .called .node h
    | instrument inner => exact .drive (.instrumented h)
    | loop body seed => exact .drive h

/-- A machine that waits in the frame goes on. -/
theorem exited {t : Transition} (h : Within c run.connection [] (frame :: fs))
    (ht : frame.exited env exit run = some t) :
    Stays c ts none (.active ts) (Activity.after t fs) := by
  generalize hd : run.connection = d at h
  cases h with
  | inUse resource release h =>
    obtain rfl := Option.some.inj ht
    subst hd
    exact .drive h
  | instrumented h =>
    obtain rfl := Option.some.inj ht
    subst hd
    exact Machine.resume_stays exit h
  | acquiring use release h =>
    cases exit with
    | completed resource =>
      obtain rfl := Option.some.inj ht
      exact .drive h
    | errored | canceled =>
      obtain rfl := Option.some.inj ht
      exact Machine.resume_stays _ h
  | releasing kept h =>
    obtain rfl := Option.some.inj ht
    exact Machine.resume_stays kept h

theorem called_exited {t : Transition} {inner : Run} (hf : frame.Calls next run)
    (h : Within c run.connection next fs) (ht : frame.exited env exit inner = some t) :
    Stays c ts none (.active ts) (Activity.after t fs) := by
  cases hf with
  | node =>
    obtain rfl := Option.some.inj ht
    exact Machine.resume_stays exit h
  | opening => simp [Frame.exited] at ht

end Stays

theorem Activity.reply_ended {t : Transition} (hf : frame.isCode = false)
    (ht : frame.exited env exit run = some t) (stack : List Frame) :
    reply env (.reply (.ended exit run)) frame stack = after t stack := by
  cases frame <;> simp_all [reply, finish, Frame.isCode]

theorem Activity.fails_unwinding (h : fs.any Frame.isCode = false) (message : String) :
    Fails ⟨.unwinding message, fs⟩ :=
  ⟨h, message, .inl rfl⟩

namespace Stays

/-- The code that a machine has called answers. -/
theorem reply (answer : Answer) (hf : frame.Calls next run) (h : Within c run.connection next fs) :
    (Activity.reply env answer frame fs).Goes c ts none (.active ts) := by
  obtain ⟨n, rest, own, rfl, rfl⟩ | ⟨n, resource, release, rest, own, rfl, rfl⟩ |
    ⟨exit, inner, t, rfl, ht⟩ | ⟨exit, rest, own, rfl, rfl⟩ | ⟨message, hm⟩ :=
    Activity.reply_cases env hf.isCode answer fs
  · cases hf
    exact .inl (.drive h)
  · cases hf
    exact .inl (.drive (.inUse resource release h))
  · rw [Activity.reply_ended hf.isCode ht]
    exact .inl (called_exited hf h ht)
  · cases hf
    exact .inl (Machine.resume_stays exit h)
  · rw [hm]
    exact .inr (Activity.fails_unwinding h.plain message)

/-- A machine has ended. -/
theorem finish (h : Within c run.connection [] (frame :: fs)) :
    (Activity.reply env (.reply (.ended exit run)) frame fs).Goes c ts none (.active ts) := by
  obtain ⟨hcode, -⟩ : frame.isCode = false ∧ fs.any Frame.isCode = false := by
    simpa using h.plain
  obtain ⟨t, ht⟩ : ∃ t, frame.exited env exit run = some t := by
    generalize run.connection = d at h
    cases h <;> cases exit <;> exact ⟨_, rfl⟩
  rw [Activity.reply_ended hcode ht]
  exact .inl (exited h ht)

end Stays

end Effects
