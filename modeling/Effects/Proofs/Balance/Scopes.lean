import Effects.Proofs.Balance.Worlds
import Effects.Proofs.Bracket.Events
import Effects.Proofs.Run.Registration

/-!
The evaluations of a run, one inside another: that of the whole, of the phases of brackets and of
what is instrumented. Each begins with a connection, and has to give back that one, in the state in
which it was, or canceled if somebody has canceled it since.
-/

namespace Effects.Evaluation

/-- What is seen of a run, with the connection that the run has then and the state of that. -/
inductive Passage where
  | entered (c : ConnectionId) (s : Connection Code)
  | returned (c : ConnectionId) (s : Connection Code)
  /-- A hop is over. -/
  | handed (c : ConnectionId) (s : Connection Code)
  | canceled (c : ConnectionId)

/-- What an evaluation has to give back. -/
structure Scope where
  connection : ConnectionId
  state : Connection Code

def Scope.cancel (c : ConnectionId) (scope : Scope) : Scope :=
  if scope.connection = c then { scope with state := .canceled } else scope

/-- The evaluations that have not returned, the innermost first. -/
inductive Follows : List Scope → Passage → List Scope → Prop
  | entered (c : ConnectionId) (s : Connection Code) (scopes : List Scope) :
      Follows scopes (.entered c s) (⟨c, s⟩ :: scopes)
  | returned (c : ConnectionId) (s : Connection Code) (scopes : List Scope) :
      Follows (⟨c, s⟩ :: scopes) (.returned c s) scopes
  | handed (c : ConnectionId) (s : Connection Code) (scopes : List Scope) :
      Follows (⟨c, s⟩ :: scopes) (.handed c s) (⟨c, s⟩ :: scopes)
  | canceled (c : ConnectionId) (scopes : List Scope) :
      Follows scopes (.canceled c) (scopes.map (Scope.cancel c))

inductive Replays : List Scope → List Passage → List Scope → Prop
  | nil (scopes : List Scope) : Replays scopes [] scopes
  | cons {scopes scopes' scopes'' : List Scope} {p : Passage} {ps : List Passage}
      (h : Follows scopes p scopes') (hs : Replays scopes' ps scopes'') :
      Replays scopes (p :: ps) scopes''

variable {scopes scopes' scopes'' : List Scope} {p : Passage} {ps qs : List Passage}

theorem Replays.single (h : Follows scopes p scopes') : Replays scopes [p] scopes' :=
  .cons h (.nil _)

theorem Replays.append (h : Replays scopes ps scopes') (h' : Replays scopes' qs scopes'') :
    Replays scopes (ps ++ qs) scopes'' := by
  induction h with
  | nil => exact h'
  | cons h _ ih => exact .cons h (ih h')

/-- Waits for the end of an evaluation. -/
def isEval : Frame → Bool
  | .acquiring _ _ _ _ | .using _ _ _ | .releasing _ _ _ | .instrumented _ => true
  | _ => false

/-- The connection that a run goes on with, as it is seen. -/
def seen (w : World) (p : ConnectionId → Connection Code → Passage) (run : Run) : Passage :=
  p run.connection (w.connection run.connection)

def entering (w : World) : Transition → List Passage
  | .enter _ run _ => [seen w .entered run]
  | _ => []

/-- What is seen of the next step of an activity. -/
def shows (w : World) (here : Place) (a : Activity) : List Passage :=
  match a.control, a.stack with
  | .drive m run, _ =>
      if w.isCurrent here.home run.context then
        entering w (m.step (w.surroundings here.home) run)
      else []
  | .code (.build _), .opening _ _ _ run :: _ => [seen w .entered run]
  | .code (.give (.ended _ run)), frame :: _ => if isEval frame then [seen w .returned run] else []
  | _, _ => []

/-- What is seen as a thread that has been hopped to hands over what it has ended with. Nothing is to
be seen of the end of code that the run has called. -/
def handing (w : World) (fs : List Frame) : Except String Reply → List Passage
  | .ok (.ended _ run) => if fs.head?.all isEval then [seen w .handed run] else []
  | _ => []

def ends (t : Relay) : List Passage :=
  match t.activity.control, t.activity.stack, t.left with
  | .code (.give (.ended _ run)), [], [] => [seen t.world .returned run]
  | .ended r, _, _ :: _ => handing t.world t.frames r
  | _, _, _ => []

def passages (t : Relay) : List Passage :=
  if t.flat.inside then [] else shows t.world t.place t.activity ++ ends t

/-- The connection has been canceled between the two. -/
def cancels (c : ConnectionId) (w w' : World) : List Passage :=
  if w.isCanceled c = false ∧ w'.isCanceled c = true then [.canceled c] else []

/-- A run without panics, on whatever threads, among the threads of its world. -/
inductive Runs (c : ConnectionId) (s : Relay) : List Passage → Relay → Prop
  | start : Runs c s [] s
  | own {ps : List Passage} {t u : Relay} (before : Runs c s ps t) (h : t.Moves u)
      (calm : u.flat.Calm) : Runs c s (ps ++ (passages t ++ cancels c t.world u.world)) u
  | thread {ps : List Passage} {t : Relay} (before : Runs c s ps t) (i : ThreadId) :
      Runs c s (ps ++ cancels c t.world (t.world.step i)) { t with world := t.world.step i }
  | passing {ps : List Passage} {t : Relay} (before : Runs c s ps t) (nanos : Nat) :
      Runs c s ps { t with world := { t.world with clock := t.world.clock + nanos } }

theorem shows_atop (w : World) (here : Place) (a : Activity) (below : List Frame)
    (h : a.stack ≠ [] ∨ a.control.settles = false) :
    shows w here (a.atop below) = shows w here a := by
  obtain ⟨control, stack⟩ := a
  cases stack with
  | cons frame stack =>
    cases control with
    | code c =>
      cases c with
      | give r => cases r <;> rfl
      | build n => cases frame <;> rfl
      | _ => rfl
    | _ => rfl
  | nil =>
    cases control with
    | code c => cases c <;> first | rfl | simp [Control.settles] at h
    | _ => rfl

theorem shows_answering (w : World) (here : Place) (res : Except String Answer) :
    shows w here ⟨.answering res, []⟩ = [] := by
  rcases res with _ | (r | _ | _)
  · rfl
  · cases r <;> rfl
  all_goals rfl

end Effects.Evaluation
