import Effects.Group

/-!
The run loop. The state in focus is a node, or the exit of one, with a list of continuations; all
pending work of sequencing nodes is in that list, so chains of any length need no stack. Nodes with
a control flow of their own are driven to their end by an inner machine, and a frame says what the
outer one does then.
-/

namespace Effects

/-- What a thread does when the activity on top of it has ended. -/
inductive Frame where
  | node (next : List Cont) (run : Run)
  | acquiring (use : Value → Code) (release : Value → ExitCase Value → Code) (saved : ConnectionId)
      (next : List Cont)
  | opening (resource : Value) (release : Value → ExitCase Value → Code) (next : List Cont)
      (run : Run)
  | using (resource : Value) (release : Value → ExitCase Value → Code) (next : List Cont)
  | releasing (exit : Exit) (saved : ConnectionId) (next : List Cont)
  | instrumented (next : List Cont)
  | call (next : Reply → Code)
  | attempt (next : Reply → Code)
  | tokens (rest : List Code) (failure : Option String) (next : Reply → Code)

/-- What a step of a machine comes to. -/
inductive Transition where
  | go (machine : Machine) (run : Run)
  | call (code : Code) (frame : Frame)
  | enter (node : Node) (run : Run) (frame : Frame)
  | finished (exit : Exit) (run : Run)

/-- What a thread can see when its machine takes a step. -/
structure Surroundings where
  current : ContextId → Bool
  canceled : ConnectionId → Bool

namespace Machine

/-- Calls a closure on the run's context: now if this is its thread, else as the next step. -/
def continueInto (env : Surroundings) (closure : Code) (next : List Cont) (run : Run) : Transition :=
  if env.current run.context then .call closure (.node next run)
  else .go (.focus (.suspend closure) next) run

/-- Hands an exit to the first continuation. -/
def resume (env : Surroundings) (exit : Exit) (next : List Cont) (run : Run) : Transition :=
  match next, exit with
  | [], exit => .finished exit run
  | .map f :: rest, .completed v => continueInto env (f v) rest run
  | .map _ :: rest, exit => .go (.unwind exit rest) run
  | .flatMap f :: rest, .completed v => continueInto env (f v) rest run
  | .flatMap _ :: rest, exit => .go (.unwind exit rest) run
  | .recover f :: rest, .errored e => continueInto env (f e) rest run
  | .recover _ :: rest, exit => .go (.unwind exit rest) run
  | .switch target :: rest, exit => .go (.unwind exit rest) { run with context := target }
  | .restore saved :: rest, exit => .go (.unwind exit rest) { run with connection := saved }

/-- One more round of a loop, or its value. -/
def nextRound (body : Value → Node) (v : Value) : Node :=
  match (read v : Value ⊕ Value) with
  | .inl seed => .loop body seed
  | .inr v => .pure v

def shielded (run : Run) : Run := { run with connection := .uncancelable }

/-- One step, on a thread of the run's context. -/
def step (env : Surroundings) (m : Machine) (run : Run) : Transition :=
  match m with
  | .unwind exit next => resume env exit next run
  | .focus node next =>
      match node with
      | .pure v => resume env (.completed v) next run
      | .raise e => resume env (.errored e) next run
      | .suspend thunk => .call thunk (.node next run)
      | .async register =>
          .call (Routine.suspend register run.connection fun exit => .give (.outcome exit))
            (.node next run)
      | .map inner f => .go (.focus inner (.map f :: next)) run
      | .flatMap inner f => .go (.focus inner (.flatMap f :: next)) run
      | .handleErrorWith inner f => .go (.focus inner (.recover f :: next)) run
      | .continueOn inner target => .go (.focus inner (.switch target :: next)) run
      | .uncancelable inner =>
          .go (.focus inner (.restore run.connection :: next)) (shielded run)
      | .bracket acquire use release =>
          if env.canceled run.connection then resume env .canceled next run
          else .enter acquire (shielded run) (.acquiring use release run.connection next)
      | .bracketUse resource use release =>
          if env.canceled run.connection then
            .go (.focus (.bracketRelease (.suspend (release resource .canceled)) .canceled) next) run
          else .call (use resource) (.opening resource release next run)
      | .bracketRelease finalizer exit =>
          .enter finalizer (shielded run) (.releasing exit run.connection next)
      | .parMap branches combine => .call (Group.code branches combine run) (.node next run)
      | .parSequence branches =>
          .call (Group.code branches (fun vs => .give (.outcome (.completed (.arr vs)))) run)
            (.node next run)
      | .instrument inner => .enter inner run (.instrumented next)
      | .loop body seed =>
          .go (.focus (.flatMap (body seed) fun v => .build (nextRound body v)) next) run

end Machine

/-- How a machine goes on that waits in the frame for the end of an inner one. -/
def Frame.exited (env : Surroundings) (exit : Exit) (run : Run) : Frame → Option Transition
  | .acquiring use release saved next =>
      let run := { run with connection := saved }
      match exit with
      | .completed resource => some (.go (.focus (.bracketUse resource use release) next) run)
      | exit => some (Machine.resume env exit next run)
  | .using resource release next =>
      let finalizer := Node.suspend (release resource exit.exitCase)
      some (.go (.focus (.bracketRelease finalizer exit) next) run)
  | .releasing exit saved next =>
      some (Machine.resume env exit next { run with connection := saved })
  | .instrumented next => some (Machine.resume env exit next run)
  | .node next run => some (Machine.resume env exit next run)
  | .opening _ _ _ _ | .call _ | .attempt _ | .tokens _ _ _ => none

/-- What an operation comes to for the code that performs it. -/
inductive Response where
  | reply (r : Reply)
  | panic (message : String)
  /-- Code to run first, and to go on with its reply. -/
  | call (body : Code)
  /-- Code to run first, and then to go on with this reply. -/
  | inPlace (body : Code) (r : Reply)
  | attempt (body : Code)
  | drive (machine : Machine) (run : Run)
  | tokens (tokens : List Code)
  /-- An operation to perform in its place. -/
  | again (op : Op)

/-- What a thread is doing. -/
inductive Control where
  | drive (machine : Machine) (run : Run)
  | code (c : Code)
  | unwinding (message : String)
  | ended (result : Except String Reply)

/-- What a thread is doing and what it goes back to, the innermost activity first. -/
structure Activity where
  control : Control
  stack : List Frame

namespace Activity

/-- The activity after a machine's step. -/
def after (t : Transition) (stack : List Frame) : Activity :=
  match t with
  | .go machine run => ⟨.drive machine run, stack⟩
  | .call code frame => ⟨.code code, frame :: stack⟩
  | .enter node run frame => ⟨.drive (.focus node []) run, frame :: stack⟩
  | .finished exit run => ⟨.code (.give (.ended exit run)), stack⟩

/-- A machine has ended, and the frame below it goes on. -/
def finish (env : Surroundings) (exit : Exit) (run : Run) (frame : Frame) (stack : List Frame) :
    Activity :=
  match frame.exited env exit run, frame with
  | some t, _ => after t stack
  | none, .call next => ⟨.code (next (.ended exit run)), stack⟩
  | none, .attempt next => ⟨.code (next (.caught (.ok (.ended exit run)))), stack⟩
  | none, .opening _ _ _ _ => ⟨.unwinding "a use must be a computation", stack⟩
  | none, _ => ⟨.unwinding "a token has no exit", stack⟩

/-- Runs the next of a connection's tokens, and after the last one goes on, with the first panic if
there was one. -/
def runTokens (rest : List Code) (failure : Option String) (next : Reply → Code)
    (stack : List Frame) : Activity :=
  match rest, failure with
  | token :: rest, failure => ⟨.code token, .tokens rest failure next :: stack⟩
  | [], none => ⟨.code (next .unit), stack⟩
  | [], some message => ⟨.unwinding message, stack⟩

/-- Code has ended with an answer, and the frame below it goes on. -/
def reply (env : Surroundings) (answer : Answer) : Frame → List Frame → Activity
  | .tokens rest failure next, stack => runTokens rest failure next stack
  | frame, stack =>
      match answer, frame with
      | .node n, .node next run => ⟨.drive (.focus n next) run, stack⟩
      | .node n, .opening resource release next run =>
          ⟨.drive (.focus n []) run, .using resource release next :: stack⟩
      | .node _, _ => ⟨.unwinding "a computation has no place here", stack⟩
      | .reply (.ended exit run), frame => finish env exit run frame stack
      | .reply (.outcome exit), .node next run => after (Machine.resume env exit next run) stack
      | .reply r, .call next => ⟨.code (next r), stack⟩
      | .reply r, .attempt next => ⟨.code (next (.caught (.ok r))), stack⟩
      | .reply _, _ => ⟨.unwinding "a reply has no place here", stack⟩
      | .token _, _ => ⟨.unwinding "a token has no place here", stack⟩

/-- The code that performed an operation goes on with the response. -/
def respond (next : Reply → Code) (stack : List Frame) : Response → Activity
  | .reply r => ⟨.code (next r), stack⟩
  | .panic message => ⟨.unwinding message, stack⟩
  | .call body => ⟨.code body, .call next :: stack⟩
  | .inPlace body r => ⟨.code body, .call (fun _ => next r) :: stack⟩
  | .attempt body => ⟨.code body, .attempt next :: stack⟩
  | .drive machine run => ⟨.drive machine run, .call next :: stack⟩
  | .tokens tokens => runTokens tokens none next stack
  | .again op => ⟨.code (.perform op next), stack⟩

/-- A panic passes through every frame but those that catch it. -/
def unwind (message : String) : List Frame → Activity
  | [] => ⟨.ended (.error message), []⟩
  | .attempt next :: stack => ⟨.code (next (.caught (.error message))), stack⟩
  | .tokens rest failure next :: stack => runTokens rest (failure.or (some message)) next stack
  | _ :: stack => ⟨.unwinding message, stack⟩

/-- The answer of code with nothing below it ends the activity. -/
def close (env : Surroundings) (answer : Answer) : List Frame → Activity
  | [] =>
      match answer with
      | .reply r => ⟨.ended (.ok r), []⟩
      | _ => ⟨.ended (.ok .unit), []⟩
  | frame :: stack => reply env answer frame stack

/-- Code to run for its reply. -/
def start (c : Code) : Activity := ⟨.code c, []⟩

end Activity
end Effects
