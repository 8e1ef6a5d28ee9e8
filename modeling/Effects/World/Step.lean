import Effects.World.Perform

/-!
The atomic steps of the threads, and which threads can take one.
-/

namespace Effects.World

/-- The next task of a thread that has nothing to do: a worker's from its queue, the timer's by its
deadline. -/
def nextTask? (w : World) : Role → Option (World × Option Code)
  | .task => none
  | .worker c => do
      let context ← w.contexts[c]?
      let (task, queue) ← context.queue.next?
      return ({ w with contexts := w.contexts.setIfInBounds c { context with queue } }, some task)
  | .timer => do
      let (timer, task) ← w.timer.fire? w.clock
      return ({ w with timer }, task)

def hasTask (w : World) : Role → Bool
  | .task => false
  | .worker c => (w.contexts[c]?).any fun context => !context.queue.tasks.isEmpty
  | .timer => w.timer.nextDeadline?.any (· ≤ w.clock)

/-- Whether a worker's queue is empty and stays so. -/
def retires (w : World) : Role → Bool
  | .worker c => (w.contexts[c]?).any fun context => context.queue.finished
  | _ => false

/-- The thread takes no more tasks. -/
def retire (w : World) (t : ThreadId) : World :=
  { w with threads := w.threads.modify t fun thread => { thread with role := .task } }

def enabled (w : World) (t : ThreadId) : Bool :=
  match w.threads[t]? with
  | none => false
  | some thread =>
      match thread.activity.control with
      | .code (.perform op _) => w.ready op
      | .ended _ => w.hasTask thread.role || w.retires thread.role
      | _ => true

/-- One step of an activity that has not ended, on a thread at the given place. -/
def act (w : World) (here : Place) (a : Activity) : World × Activity :=
  let env := w.surroundings here.home
  match a.control with
  | .drive machine run =>
      if w.isCurrent here.home run.context then (w, .after (machine.step env run) a.stack)
      else (w, ⟨.code (Routine.hop machine run .give), a.stack⟩)
  | .code (.perform op next) =>
      let (w, response) := w.perform here op
      (w, .respond next a.stack response)
  | .code (.give r) => (w, .close env (.reply r) a.stack)
  | .code (.build n) => (w, .close env (.node n) a.stack)
  | .code (.guard token) => (w, .close env (.token token) a.stack)
  | .code (.panic message) => (w, ⟨.unwinding message, a.stack⟩)
  | .unwinding message => (w, .unwind message a.stack)
  | .ended _ => (w, a)

def step (w : World) (t : ThreadId) : World :=
  match w.threads[t]? with
  | none => w
  | some thread =>
      match thread.activity.control with
      | .ended _ =>
          match w.nextTask? thread.role with
          | none => if w.retires thread.role then w.retire t else w
          | some (w, none) => w
          | some (w, some task) => w.setActivity t (.start task)
      | _ =>
          let (w, a) := w.act thread.place thread.activity
          w.setActivity t a

end Effects.World
