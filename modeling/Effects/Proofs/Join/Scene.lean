import Effects.Proofs.Join.Asks
import Effects.Proofs.Run.Ahead

/-!
A fiber that has been started: the thread that runs its computation, and completes it when that has
ended; a thread that joins it, and its canceler; and threads that cancel the fiber and then wait for
its end.
-/

namespace Effects

open Routine

namespace Joining

/-- A thread on its way to what it has to do at the fiber. -/
structure Guest where
  place : Place
  activity : Activity

inductive Job where
  | working (g : Guest)
  /-- The computation has ended so, and its thread has come to complete the fiber. -/
  | ended (exit : Delivery)

/-- Those who are at the fiber, and those who are on their way there. -/
structure Scene where
  desk : Service.Scene Visit Note
  job : Job
  cancelers : List Guest

def Guest.next (g : Guest) (w : World) : Guest :=
  { g with activity := (w.act g.place g.activity).2 }

def Guest.act (g : Guest) (d : Service.Scene Visit Note) : Service.Scene Visit Note :=
  { d with world := (d.world.act g.place g.activity).1 }

/-- What the parties have come for. -/
def visits (parties : List (Service.Party Visit)) : List Visit := parties.filterMap (·.call)

def Visit.exit? : Visit → Option Delivery
  | .complete exit => some exit
  | _ => none

/-- The exits that have been brought. -/
def exits (parties : List (Service.Party Visit)) : List Delivery :=
  (visits parties).filterMap Visit.exit?

variable (f : FiberId) (node : Node) (run : Run)

def completing (exit : Delivery) : Code := f.complete exit fun _ => .give .unit

/-- Once the computation has ended, in whatever way, the fiber is completed. -/
def caught (r : Reply) : Code := completing f r.toDelivery

def body : Code := .perform (.drive (.focus node []) run) .give

/-- What is dispatched for a fiber. -/
def task : Code := .perform (.attempt (body node run)) (caught f)

def awaiting : Code := .perform (.fiber f .awaitFinished) fun _ =>
  .build (Effect.unit : Effect Unit Unit).node

def canceling : Code := .perform (.fiber f .connection) fun r =>
  .perform (.connection r.toId .cancel) fun _ => awaiting f

theorem spawn_eq {ε α : Type} (e : Effect ε α) (c : ContextId) (k : Fiber ε α → Code) :
    Fiber.spawn e c k = .perform .openFiber fun r =>
      .perform (.fiber r.toId .connection) fun r' =>
        .perform (.context c (.execute (task r.toId e.node ⟨c, r'.toId⟩))) fun _ => k ⟨r.toId⟩ := rfl

theorem cancel_eq {ε α δ : Type} [Datum δ] (g : Fiber ε α) :
    (g.cancel : Effect δ Unit).node = .suspend (canceling g.id) := rfl

/-- What the thread does is not about the fiber's slot and gate, and not about who joins it. -/
structure Abroad (d : Service.Scene Visit Note) (g : Guest) : Prop where
  moves : g.activity.stack ≠ [] ∨ g.activity.control.settles = false
  ready : ∀ op, g.activity.op? = some op → d.world.ready op = true
  away : ∀ (v : Visit) (c : ConnectionId) (x : Code), (v.node f).called c = some x →
    g.activity ≠ ⟨.code x, []⟩
  state : (g.act d).world.fibers[f]? = d.world.fibers[f]?
  latches : ∀ i l, .opened i l ∈ d.seen → (g.act d).world.latches[l]? = d.world.latches[l]?

/-- A step of one thread, or of one that comes. -/
inductive Moves (s : Scene) : Scene → Prop
  /-- Nobody else completes the fiber. -/
  | desk {d : Service.Scene Visit Note} (h : Service.Moves (subject f) s.desk d)
      (he : exits d.parties = exits s.desk.parties) : Moves s { s with desk := d }
  | works {g : Guest} (hjob : s.job = .working g) (hg : Abroad f s.desk g) :
      Moves s ⟨g.act s.desk, .working (g.next s.desk.world), s.cancelers⟩
  | ends {place : Place} {exit : Delivery}
      (hjob : s.job = .working ⟨place, ⟨.code (completing f exit), []⟩⟩) :
      Moves s
        ⟨{ s.desk with parties := s.desk.parties ++
            [⟨some (.complete exit), place, ⟨.code (completing f exit), []⟩⟩] },
          .ended exit, s.cancelers⟩
  | cancels (place : Place) :
      Moves s { s with cancelers := s.cancelers ++ [⟨place, ⟨.code (canceling f), []⟩⟩] }
  | runs {before after : List Guest} {g : Guest} (hc : s.cancelers = before ++ g :: after)
      (hg : Abroad f s.desk g) :
      Moves s ⟨g.act s.desk, s.job, before ++ g.next s.desk.world :: after⟩
  | waits {before after : List Guest} {place : Place}
      (hc : s.cancelers = before ++ ⟨place, ⟨.code (awaiting f), []⟩⟩ :: after) :
      Moves s
        ⟨{ s.desk with parties := s.desk.parties ++
            [⟨some .await, place, ⟨.code (awaiting f), []⟩⟩] }, s.job, before ++ after⟩

def Runs : Scene → Scene → Prop := Relation.ReflTransGen (Moves f)

/-- The computation has been dispatched, and nobody has come yet. -/
def Scene.start (w : World) (place : Place) : Scene :=
  ⟨⟨w, [], []⟩, .working ⟨place, ⟨.code (task f node run), []⟩⟩, []⟩

section Course

variable {f node run} {w : World} {here : Place} {a : Activity}

/-- Code that gives what it is answered. -/
def Gives (c : Code) : Prop := (∃ r, c = .give r) ∨ ∃ op, c = .perform op .give

theorem gives_stable : Code.Stable Gives where
  next := by
    rintro op next (⟨r, h⟩ | ⟨op', h⟩) r'
    · cases h
    · cases h
      exact .inl ⟨r', rfl⟩
  again := by
    rintro op next op' (⟨r, h⟩ | ⟨op'', h⟩)
    · cases h
    · cases h
      exact .inr ⟨op', rfl⟩

/-- The thread of a fiber runs its computation above the frame that catches its end, or has come to
complete the fiber. -/
inductive Working (f : FiberId) (node : Node) (run : Run) : Activity → Prop
  | dispatched : Working f node run ⟨.code (task f node run), []⟩
  | running {b : Activity} (hb : Ahead Gives b) : Working f node run (b.atop [.attempt (caught f)])
  | completing (exit : Delivery) : Working f node run ⟨.code (completing f exit), []⟩

theorem Working.act (h : Working f node run a) (hne : ∀ exit, a ≠ ⟨.code (Joining.completing f exit), []⟩) :
    Working f node run (w.act here a).2 := by
  cases h with
  | dispatched => exact .running (b := ⟨.code (body node run), []⟩) (.code (.inr ⟨_, rfl⟩))
  | completing exit => exact absurd rfl (hne exit)
  | @running b hb =>
    by_cases hs : b.stack ≠ [] ∨ b.control.settles = false
    · rw [World.act_atop _ _ _ _ hs]
      exact .running (hb.act gives_stable w here hs)
    · obtain ⟨hstack, hc⟩ := not_or.1 hs
      cases hb with
      | inside b hf => exact absurd (by simp [Activity.atop]) hstack
      | unwinding message => exact .completing (.error message)
      | code hgives =>
        obtain ⟨r, rfl⟩ | ⟨op, rfl⟩ := hgives
        · have hact : w.act here ((⟨.code (.give r), []⟩ : Activity).atop [.attempt (caught f)]) =
              (w, ⟨.code (Joining.completing f (.ok r.toExit)), []⟩) := by
            cases r <;> rfl
          rw [hact]
          exact .completing (.ok r.toExit)
        · exact absurd rfl hc

/-- Who cancels a fiber runs the tokens that are on its connection, and then waits or panics. -/
inductive Canceling (f : FiberId) : Activity → Prop
  | begins : Canceling f ⟨.code (canceling f), []⟩
  | cancels (c : ConnectionId) :
      Canceling f ⟨.code (.perform (.connection c .cancel) fun _ => awaiting f), []⟩
  | ahead {a : Activity} (h : Ahead (· = awaiting f) a) : Canceling f a

theorem Canceling.act (h : Canceling f a) (hs : a.stack ≠ [] ∨ a.control.settles = false)
    (hne : a ≠ ⟨.code (awaiting f), []⟩) : Canceling f (w.act here a).2 := by
  cases h with
  | begins => exact .cancels _
  | cancels c => exact .ahead (.runTokens (P := (· = awaiting f)) (fun _ => rfl) _ none)
  | ahead h =>
    cases h with
    | code h =>
      obtain rfl := h
      exact absurd rfl hne
    | unwinding message =>
      obtain hs | hs := hs
      · exact absurd rfl hs
      · cases hs
    | inside b hf => exact .ahead (.act_inside w here b hf)

/-- It does not return before. -/
theorem Canceling.not_build (h : Canceling f a) (n : Node) : a ≠ ⟨.code (.build n), []⟩ := by
  rintro rfl
  generalize hx : (⟨.code (.build n), []⟩ : Activity) = x at h
  cases h with
  | begins | cancels => cases hx
  | ahead h => cases (hx ▸ h : Ahead (· = awaiting f) ⟨.code (.build n), []⟩).of_code

end Course
end Joining
end Effects
