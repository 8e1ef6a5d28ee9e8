import Effects.Proofs.Hop.Passage
import Effects.Proofs.Placed.Kinds

/-!
The threads that share the work of a run: one is at work, and others wait, each for a machine that
it has handed to a thread of another context. Nobody else touches the latches of their hops, and
otherwise nothing is known of the other threads. A context that can have no thread runs what it is
given in place, where the machine would have to hop again, and so for ever: such a hop is left out.
-/

namespace Effects

theorem World.SameKinds.away {w w' : World} {home : Option ContextId} {c : ContextId}
    (h : w.SameKinds w') (haway : w.isCurrent home c = false) : w'.isCurrent home c = false := by
  have hc : c < w.contexts.size := by
    by_contra hge
    have hnone : w.contexts[c]? = none := Array.getElem?_eq_none (Nat.not_lt.1 hge)
    simp [World.isCurrent, hnone] at haway
  rw [h.isCurrent hc, haway]

theorem World.context_latches (w : World) (here : Place) (c : ContextId) (op : ContextOp Code) :
    (w.perform here (.context c op)).1.latches = w.latches := by
  obtain ⟨threads, contexts, hw⟩ := w.onContext_shape here.home c op
  rw [World.perform, hw]

namespace Hop

section Codes

variable (m : Machine) (run : Run) (l : LatchId)

def body : Code := .perform (.drive m run) .give

def settling (r : Reply) : Code := .perform (.settle l r.toCaught) fun _ => .give .unit

/-- What the thread that takes over the machine is told to do. -/
def task : Code := .perform (.attempt (body m run)) (settling l)

def awaiting : Code :=
  .perform (.await l) fun r => (Routine.rethrow r.toCaught : Routine Reply) .give

def dispatching : Code :=
  .perform (.context run.context (.execute (task m run l))) fun _ => awaiting l

def opening : Code := .perform .openLatch fun r => dispatching m run r.toId

theorem hop_eq : Routine.hop m run .give =
    .perform (.context run.context .isCurrent) fun r =>
      if r.toFlag = true then .perform (.call (body m run)) .give else opening m run := by
  refine congrArg (Code.perform _) (funext fun r => ?_)
  show (if r.toFlag = true then _ else _ : Routine Reply) Code.give = _
  split <;> rfl

/-- What such a thread has below the machine. -/
def floor : List Frame := [.call .give, .attempt (settling l)]

end Codes

structure Waiter where
  place : Place
  latch : LatchId
  activity : Activity

/-- How far a hop has come on the thread that hops. -/
inductive Stage where
  | working
  | asking
  | opening
  | dispatching (l : LatchId)

def Stage.latches : Stage → List LatchId
  | .dispatching l => [l]
  | _ => []

structure Team where
  world : World
  place : Place
  activity : Activity
  stage : Stage
  /-- The latest first. -/
  waiting : List Waiter

namespace Team

def start (w : World) (here : Place) (c : Code) : Team := ⟨w, here, .start c, .working, []⟩

def latches (t : Team) : List LatchId := t.stage.latches ++ t.waiting.map Waiter.latch

/-- The thread at work is at something that belongs to the run, and not to a hop. -/
def Own (t : Team) : Prop :=
  ∀ waiter ∈ t.waiting.head?, ∃ a, t.activity = a.atop (floor waiter.latch) ∧ Onto.Open a

def next (t : Team) : Team :=
  { t with
    world := (t.world.act t.place t.activity).1
    activity := (t.world.act t.place t.activity).2 }

end Team

def Keeps (ls : List LatchId) (w w' : World) : Prop := ∀ l ∈ ls, w'.latches[l]? = w.latches[l]?

/-- A step of one thread. What belongs to a hop is not seen, unless the hop fails. -/
inductive Moves : Team → Passage → Team → Prop
  | acts {t : Team} (hs : t.stage = .working) (hown : t.Own)
      (hable : t.activity.Able t.world t.place) (hkeeps : Keeps t.latches t.world t.next.world) :
      Moves t (t.activity.moments t.world t.place) t.next
  | aside {t : Team} (hs : t.stage = .working) (hown : ¬t.Own)
      (hable : t.activity.Able t.world t.place) : Moves t [] t.next
  | hops {t : Team} {m : Machine} {run : Run} (hs : t.stage = .working)
      (hc : t.activity.control = .drive m run)
      (haway : t.world.isCurrent t.place.home run.context = false) :
      Moves t [] { t.next with stage := .asking }
  | asks {t : Team} (hs : t.stage = .asking) : Moves t [] { t.next with stage := .opening }
  | opens {t : Team} (hs : t.stage = .opening) :
      Moves t [] { t.next with stage := .dispatching t.world.latches.size }
  | dispatches {t : Team} {l : LatchId} {c : ContextId} {task : Code} {next : Reply → Code}
      (hs : t.stage = .dispatching l)
      (hc : t.activity.control = .code (.perform (.context c (.execute task)) next))
      (hr : (t.world.perform t.place (.context c (.execute task))).2 = .reply .unit)
      (name : String) :
      Moves t []
        ⟨t.next.world, ⟨name, some c⟩, .start task, .working,
          ⟨t.place, l, t.next.activity⟩ :: t.waiting⟩
  | refused {t : Team} {l : LatchId} {c : ContextId} {task : Code} {next : Reply → Code}
      {message : String} (hs : t.stage = .dispatching l)
      (hc : t.activity.control = .code (.perform (.context c (.execute task)) next))
      (hr : (t.world.perform t.place (.context c (.execute task))).2 = .panic message) :
      Moves t [⟨t.world, t.place, none⟩] { t.next with stage := .working }
  | returns {t : Team} {waiter : Waiter} {rest : List Waiter} (hw : t.waiting = waiter :: rest)
      (hable : waiter.activity.Able t.world waiter.place) :
      Moves t [] (Team.next ⟨t.world, waiter.place, waiter.activity, .working, rest⟩)
  | others {t : Team} (w : World) (hk : t.world.SameKinds w) (hkeeps : Keeps t.latches t.world w) :
      Moves t [] { t with world := w }

inductive Runs (s : Team) : Passage → Team → Prop
  | stay : Runs s [] s
  | move {p q : Passage} {t u : Team} (before : Runs s p t) (h : Moves t q u) : Runs s (p ++ q) u

variable {s t u : Team} {p q : Passage}

theorem Runs.one (h : Moves t p u) : Runs t p u := by
  simpa using Runs.stay.move h

theorem Runs.trans (h : Runs s p t) (h' : Runs t q u) : Runs s (p ++ q) u := by
  induction h' with
  | stay => simpa using h
  | move _ hmove ih =>
    rw [← List.append_assoc]
    exact ih.move hmove

section Next

variable {w : World} {p : Place} {ws : List Waiter} {stage : Stage} {fs : List Frame} {m : Machine}
  {run : Run} {l : LatchId} {r : Except String Reply} {x : Except String (Exit × Run)}

theorem next_drive (haway : w.isCurrent p.home run.context = false) :
    Team.next ⟨w, p, ⟨.drive m run, fs⟩, stage, ws⟩ =
      ⟨w, p, ⟨.code (Routine.hop m run .give), fs⟩, stage, ws⟩ := by
  simp only [Team.next, World.act, haway, Bool.false_eq_true, if_false]

theorem next_hop (haway : w.isCurrent p.home run.context = false) :
    Team.next ⟨w, p, ⟨.code (Routine.hop m run .give), fs⟩, stage, ws⟩ =
      ⟨w, p, ⟨.code (opening m run), fs⟩, stage, ws⟩ := by
  rw [hop_eq]
  simp only [Team.next, World.act, World.perform, World.onContext, World.replying, haway,
    Activity.respond, Reply.toFlag, Bool.false_eq_true, if_false]

theorem next_dispatching :
    Team.next ⟨w, p, ⟨.code (dispatching m run l), fs⟩, stage, ws⟩ =
      ⟨(w.perform p (.context run.context (.execute (task m run l)))).1, p,
        .respond (fun _ => awaiting l) fs
          (w.perform p (.context run.context (.execute (task m run l)))).2, stage, ws⟩ :=
  rfl

theorem next_yielding :
    Team.next ⟨w, p, (Activity.yielding x).atop (floor l), stage, ws⟩ =
      ⟨w, p, ⟨.returning (resultOf x), [.attempt (settling l)]⟩, stage, ws⟩ := by
  obtain message | ⟨exit, run⟩ := x <;> rfl

theorem next_returning :
    Team.next ⟨w, p, ⟨.returning (resultOf x), [.attempt (settling l)]⟩, stage, ws⟩ =
      ⟨w, p, ⟨.code (settling l (.caught (resultOf x))), []⟩, stage, ws⟩ := by
  obtain message | ⟨exit, run⟩ := x <;> rfl

theorem next_awaiting (hl : w.latches[l]? = some (.full r)) :
    Team.next ⟨w, p, ⟨.code (awaiting l), fs⟩, stage, ws⟩ =
      ⟨w.setLatch l .drained, p, ⟨.code ((Routine.rethrow r : Routine Reply) .give), fs⟩, stage,
        ws⟩ := by
  simp only [awaiting, Team.next, World.act, World.perform, hl, Option.bind_some, Latch.item?,
    World.replying, Activity.respond, Reply.toCaught]

end Next

end Hop
end Effects
