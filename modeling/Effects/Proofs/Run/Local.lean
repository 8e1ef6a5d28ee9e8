import Effects.World.Step

/-!
What an activity does depends on the frames below it only when it hands an answer down to them.

A step of a thread is one of what it does, or it takes its next task.
-/

namespace Effects

namespace Control

/-- Hands something down to the frame below. -/
def settles : Control → Bool
  | .code (.give _) | .code (.build _) | .code (.guard _) | .unwinding _ | .ended _ => true
  | _ => false

end Control

namespace Activity

def atop (a : Activity) (below : List Frame) : Activity := ⟨a.control, a.stack ++ below⟩

theorem atop_inj {a b : Activity} {below : List Frame} :
    a.atop below = b.atop below ↔ a = b := by
  obtain ⟨control, stack⟩ := a
  obtain ⟨control', stack'⟩ := b
  simp [atop]

theorem after_atop (t : Transition) (stack below : List Frame) :
    after t (stack ++ below) = (after t stack).atop below := by
  cases t <;> rfl

theorem runTokens_atop (tokens : List Code) (failure : Option String) (next : Reply → Code)
    (stack below : List Frame) :
    runTokens tokens failure next (stack ++ below) =
      (runTokens tokens failure next stack).atop below := by
  cases tokens <;> cases failure <;> rfl

theorem respond_atop (next : Reply → Code) (r : Response) (stack below : List Frame) :
    respond next (stack ++ below) r = (respond next stack r).atop below := by
  cases r with
  | tokens tokens => exact runTokens_atop tokens none next stack below
  | _ => rfl

theorem finish_atop (env : Surroundings) (exit : Exit) (run : Run) (frame : Frame)
    (stack below : List Frame) :
    finish env exit run frame (stack ++ below) = (finish env exit run frame stack).atop below := by
  unfold finish
  split
  · exact after_atop _ stack below
  all_goals rfl

theorem reply_atop (env : Surroundings) (answer : Answer) (frame : Frame)
    (stack below : List Frame) :
    reply env answer frame (stack ++ below) = (reply env answer frame stack).atop below := by
  unfold reply
  split
  · exact runTokens_atop _ _ _ stack below
  · split
    all_goals first
      | rfl
      | exact finish_atop env _ _ _ stack below
      | exact after_atop _ stack below

theorem close_atop (env : Surroundings) (answer : Answer) (frame : Frame)
    (stack below : List Frame) :
    close env answer (frame :: stack ++ below) = (close env answer (frame :: stack)).atop below :=
  reply_atop env answer frame stack below

theorem unwind_atop (message : String) (frame : Frame) (stack below : List Frame) :
    unwind message (frame :: stack ++ below) = (unwind message (frame :: stack)).atop below := by
  cases frame with
  | tokens rest failure next => exact runTokens_atop _ _ _ stack below
  | _ => rfl

end Activity

namespace World

theorem act_atop (w : World) (here : Place) (a : Activity) (below : List Frame)
    (h : a.stack ≠ [] ∨ a.control.settles = false) :
    w.act here (a.atop below) = ((w.act here a).1, (w.act here a).2.atop below) := by
  obtain ⟨control, stack⟩ := a
  cases control with
  | drive machine run =>
      simp only [act, Activity.atop]
      split
      · rw [Activity.after_atop]; rfl
      · rfl
  | code c =>
      cases c with
      | perform op next =>
          simp only [act, Activity.atop]
          rw [Activity.respond_atop]; rfl
      | panic message => rfl
      | _ =>
          cases stack with
          | nil => simp [Control.settles] at h
          | cons frame stack =>
              simp only [act, Activity.atop]
              rw [Activity.close_atop]; rfl
  | unwinding message =>
      cases stack with
      | nil => simp [Control.settles] at h
      | cons frame stack =>
          exact congrArg (Prod.mk w) (Activity.unwind_atop message frame stack below)
  | ended r => rfl

end World

namespace Frame

/-- Waits below code for a reply. -/
def isCode : Frame → Bool
  | .call _ | .attempt _ | .tokens _ _ _ => true
  | _ => false

def andThen (k : Answer → Code) : Frame → Frame
  | .call next => .call fun r => (next r).andThen k
  | .attempt next => .attempt fun r => (next r).andThen k
  | .tokens rest failure next => .tokens rest failure fun r => (next r).andThen k
  | frame => frame

end Frame

/-- A panic leaves the frames of a machine behind. -/
theorem World.act_unwinding (w : World) (here : Place) {frame : Frame} (h : frame.isCode = false)
    (fs : List Frame) (message : String) :
    w.act here ⟨.unwinding message, frame :: fs⟩ = (w, ⟨.unwinding message, fs⟩) := by
  cases frame <;> first | rfl | simp [Frame.isCode] at h

/-- The second activity does what the first one does, and goes on with `k` after its answer. -/
inductive Followed (k : Answer → Code) : Activity → Activity → Prop
  | code (c : Code) : Followed k ⟨.code c, []⟩ ⟨.code (c.andThen k), []⟩
  | unwinding (message : String) : Followed k ⟨.unwinding message, []⟩ ⟨.unwinding message, []⟩
  | above (a : Activity) (frame : Frame) (h : frame.isCode = true) :
      Followed k (a.atop [frame]) (a.atop [frame.andThen k])

namespace Followed

variable {k : Answer → Code}

theorem runTokens (tokens : List Code) (failure : Option String) (next : Reply → Code) :
    Followed k (Activity.runTokens tokens failure next [])
      (Activity.runTokens tokens failure (fun r => (next r).andThen k) []) := by
  cases tokens with
  | nil =>
      cases failure with
      | none => exact .code _
      | some message => exact .unwinding message
  | cons token rest =>
      exact .above ⟨.code token, []⟩ (.tokens rest failure next) rfl

theorem respond (next : Reply → Code) (r : Response) :
    Followed k (Activity.respond next [] r)
      (Activity.respond (fun r => (next r).andThen k) [] r) := by
  cases r with
  | reply r => exact .code _
  | panic message => exact .unwinding message
  | call body => exact .above ⟨.code body, []⟩ (.call next) rfl
  | inPlace body r => exact .above ⟨.code body, []⟩ (.call fun _ => next r) rfl
  | attempt body => exact .above ⟨.code body, []⟩ (.attempt next) rfl
  | drive machine run => exact .above ⟨.drive machine run, []⟩ (.call next) rfl
  | tokens tokens => exact runTokens tokens none next
  | again op => exact .code (.perform op next)

theorem reply (env : Surroundings) (answer : Answer) {frame : Frame} (h : frame.isCode = true) :
    Followed k (Activity.reply env answer frame [])
      (Activity.reply env answer (frame.andThen k) []) := by
  cases frame with
  | tokens rest failure next => exact runTokens rest failure next
  | call next | attempt next =>
      cases answer with
      | reply r => cases r <;> exact .code _
      | node n => exact .unwinding _
      | token t => exact .unwinding _
  | _ => simp [Frame.isCode] at h

theorem unwind (message : String) {frame : Frame} (h : frame.isCode = true) :
    Followed k (Activity.unwind message [frame]) (Activity.unwind message [frame.andThen k]) := by
  cases frame with
  | tokens rest failure next => exact runTokens rest _ next
  | call next => exact .unwinding message
  | attempt next => exact .code _
  | _ => simp [Frame.isCode] at h

theorem act (w : World) (here : Place) {a b : Activity} (h : Followed k a b)
    (ha : a.stack ≠ [] ∨ a.control.settles = false) :
    (w.act here b).1 = (w.act here a).1 ∧ Followed k (w.act here a).2 (w.act here b).2 := by
  cases h with
  | code c =>
      cases c with
      | perform op next => exact ⟨rfl, respond next _⟩
      | panic message => exact ⟨rfl, .unwinding message⟩
      | _ => simp [Control.settles] at ha
  | unwinding message => simp [Control.settles] at ha
  | above a frame hf =>
      by_cases hs : a.stack ≠ [] ∨ a.control.settles = false
      · rw [World.act_atop _ _ _ _ hs, World.act_atop _ _ _ _ hs]
        exact ⟨rfl, .above _ frame hf⟩
      · obtain ⟨control, stack⟩ := a
        obtain ⟨hstack, hc⟩ := not_or.1 hs
        obtain rfl : stack = [] := by simpa using hstack
        cases control with
        | drive machine run => simp [Control.settles] at hc
        | code c =>
            cases c with
            | perform op next => simp [Control.settles] at hc
            | panic message => simp [Control.settles] at hc
            | give r => exact ⟨rfl, reply (w.surroundings here.home) (.reply r) hf⟩
            | build n => exact ⟨rfl, reply (w.surroundings here.home) (.node n) hf⟩
            | guard t => exact ⟨rfl, reply (w.surroundings here.home) (.token t) hf⟩
        | unwinding message => exact ⟨rfl, unwind message hf⟩
        | ended r => exact ⟨rfl, .above ⟨.ended r, []⟩ frame hf⟩

end Followed

end Effects

namespace Effects.World

variable {w w' : World} {role : Role} {task : Option Code} {i j : ThreadId} {thread : Thread}

/-- A thread with this role takes its next task out of the world. -/
inductive Takes (w : World) : Role → World → Option Code → Prop
  | worker {d : ContextId} {context : Context} {task : Code} {queue : SerialQueue Code}
      (hcontext : w.contexts[d]? = some context)
      (hqueue : context.queue.next? = some (task, queue)) :
      Takes w (.worker d)
        { w with contexts := w.contexts.setIfInBounds d { context with queue } } (some task)
  | timer {timer : Timer Code} {task : Option Code}
      (hfire : w.timer.fire? w.clock = some (timer, task)) : Takes w .timer { w with timer } task

theorem takes_of_nextTask (h : w.nextTask? role = some (w', task)) : w.Takes role w' task := by
  cases role with
  | task => cases h
  | worker d =>
    simp only [nextTask?, Option.bind_eq_bind, Option.bind_eq_some_iff] at h
    obtain ⟨context, hcontext, ⟨x, queue⟩, hqueue, hw⟩ := h
    obtain ⟨rfl, rfl⟩ := Prod.mk.inj (Option.some.inj hw)
    exact .worker hcontext hqueue
  | timer =>
    simp only [nextTask?, Option.bind_eq_bind, Option.bind_eq_some_iff] at h
    obtain ⟨⟨timer, task'⟩, hfire, hw⟩ := h
    obtain ⟨rfl, rfl⟩ := Prod.mk.inj (Option.some.inj hw)
    exact .timer hfire

/-- The threads and what they share are as before, but for the tasks that wait. -/
theorem Takes.kept (h : w.Takes role w' task) :
    w'.threads = w.threads ∧ w'.connections = w.connections := by
  cases h <;> exact ⟨rfl, rfl⟩

/-- What one step of a thread makes of the world. -/
inductive Steps (w : World) (i : ThreadId) : World → Prop
  | stays : Steps w i w
  | retires {thread : Thread} (hi : w.threads[i]? = some thread)
      (hretires : w.retires thread.role = true) : Steps w i (w.retire i)
  /-- The task whose time has come has been called off. -/
  | skips {thread : Thread} {w' : World} (hi : w.threads[i]? = some thread)
      (htakes : w.Takes thread.role w' none) : Steps w i w'
  | begins {thread : Thread} {w' : World} {task : Code} (hi : w.threads[i]? = some thread)
      (htakes : w.Takes thread.role w' (some task)) : Steps w i (w'.setActivity i (.start task))
  | acts {thread : Thread} (hi : w.threads[i]? = some thread)
      (hended : ∀ r, thread.activity.control ≠ .ended r) :
      Steps w i ((w.act thread.place thread.activity).1.setActivity i
        (w.act thread.place thread.activity).2)

/-- A thread that has something to do takes a step of it. -/
theorem step_act (h : w.threads[i]? = some thread)
    (hended : ∀ r, thread.activity.control ≠ .ended r) :
    w.step i = (w.act thread.place thread.activity).1.setActivity i
      (w.act thread.place thread.activity).2 := by
  unfold step
  simp only [h]

theorem steps_of_step (h : w.step i = w') : w.Steps i w' := by
  subst h
  cases hi : w.threads[i]? with
  | none =>
    simp only [step, hi]
    exact .stays
  | some thread =>
    by_cases hended : ∃ r, thread.activity.control = .ended r
    · obtain ⟨r, hr⟩ := hended
      simp only [step, hi, hr]
      split
      · split
        · exact .retires hi ‹_›
        · exact .stays
      · exact .skips hi (takes_of_nextTask ‹_›)
      · exact .begins hi (takes_of_nextTask ‹_›)
    · have hended : ∀ r, thread.activity.control ≠ .ended r := fun r hr => hended ⟨r, hr⟩
      rw [step_act hi hended]
      exact .acts hi hended

theorem setActivity_self (h : w.threads[i]? = some thread) (a : Activity) :
    (w.setActivity i a).threads[i]? = some { thread with activity := a } := by
  simp [setActivity, Array.getElem?_modify, h]

theorem setActivity_other (hij : i ≠ j) (a : Activity) :
    (w.setActivity i a).threads[j]? = w.threads[j]? := by
  simp [setActivity, Array.getElem?_modify, hij]

theorem retire_other (hij : i ≠ j) : (w.retire i).threads[j]? = w.threads[j]? := by
  simp [retire, Array.getElem?_modify, hij]

end Effects.World
