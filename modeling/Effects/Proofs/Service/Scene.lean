import Mathlib.Logic.Relation
import Effects.Proofs.Suspend.Scene

/-!
Any number of threads that ask for something of what they share, threads that run the tokens of
those who wait for an answer, and all others, of whom nothing is known but that they leave what is
shared alone, and the callbacks that were opened for it.
-/

namespace Effects

/-- The code that a run calls first at a node. -/
def Node.called (c : ConnectionId) : Node → Option Code
  | .suspend thunk => some thunk
  | .async register => some (Suspension.asking register c)
  | _ => none

theorem Machine.step_called {env : Surroundings} {n : Node} {next : List Cont} {run : Run} {x : Code}
    (h : n.called run.connection = some x) :
    Machine.step env (.focus n next) run = .call x (.node next run) := by
  cases n with
  | suspend thunk =>
    obtain rfl := Option.some.inj h
    rfl
  | async register =>
    obtain rfl := Option.some.inj h
    rfl
  | _ => cases h

namespace World

/-- What an operation puts, or tries to put, into which latch. -/
def told? (w : World) : Op → Option (LatchId × Except String Reply)
  | .settle l r => some (l, r)
  | .slot s request phase =>
      ((w.slots[s]?).bind fun slot => (phase.step request slot).2.2).map fun call =>
        (call.1, .ok (Notice.reply call.2))
  | .promise p request phase =>
      ((w.promises[p]?).bind fun slot => (phase.step request slot).2.2).map fun call =>
        (call.1, .ok (.outcome (.ofExcept call.2)))
  | _ => none

theorem delivered?_eq (w : World) (l : LatchId) (op : Op) :
    w.delivered? l op = (w.told? op).bind fun call => if call.1 = l then some call.2 else none := by
  cases op with
  | slot s request phase =>
    simp only [delivered?, told?]
    cases (w.slots[s]?).bind fun slot => (phase.step request slot).2.2 <;> rfl
  | promise p request phase =>
    simp only [delivered?, told?]
    cases (w.promises[p]?).bind fun slot => (phase.step request slot).2.2 <;> rfl
  | _ => rfl

end World

namespace Service

/-- A thread that has been asked for something, or to run a token. -/
structure Party (γ : Type) where
  call : Option γ
  place : Place
  activity : Activity

inductive Sign (ν : Type) where
  /-- The party of that number opens its callback. -/
  | opened (i : Nat) (l : LatchId)
  /-- A token is put on a connection, or run if it comes too late. -/
  | pushed (token : Code)
  | told (l : LatchId) (r : Except String Reply)
  | noted (n : ν)

structure Scene (γ ν : Type) where
  world : World
  parties : List (Party γ)
  seen : List (Sign ν)

/-- What is shared: what can be asked of it, what belongs to it, and what is noted of it. -/
structure Subject (γ σ ν : Type) where
  node : γ → Node
  state : World → Option σ
  note : World → Op → List ν

variable {γ σ ν : Type}

/-- What a step adds to what has been seen. -/
def added (ns : List ν) (calls : List (LatchId × Except String Reply)) : List (Sign ν) :=
  ns.map .noted ++ calls.map fun call => .told call.1 call.2

/-- What can be seen of an operation of the party of that number. -/
def signs (S : Subject γ σ ν) (i : Nat) (w : World) : Op → List (Sign ν)
  | .openLatch => [.opened i w.latches.size]
  | .connection _ (.push token) => [.pushed token]
  | op => added (S.note w op) (w.told? op).toList

/-- A step of one thread. -/
inductive Moves (S : Subject γ σ ν) (t : Scene γ ν) : Scene γ ν → Prop
  | acts {i : Nat} {p : Party γ} (hp : t.parties[i]? = some p)
      (hs : p.activity.stack ≠ [] ∨ p.activity.control.settles = false)
      (hready : ∀ op, p.activity.op? = some op → t.world.ready op = true) :
      Moves S t
        ⟨(t.world.act p.place p.activity).1,
          t.parties.set i { p with activity := (t.world.act p.place p.activity).2 },
          t.seen ++ (p.activity.op?.map (signs S i t.world)).getD []⟩
  | asks (call : γ) (c : ConnectionId) (place : Place) {x : Code}
      (hx : (S.node call).called c = some x) :
      Moves S t { t with parties := t.parties ++ [⟨some call, place, ⟨.code x, []⟩⟩] }
  /-- Whoever cancels a connection runs the tokens that were put on it. -/
  | runs (place : Place) {token : Code} (ht : .pushed token ∈ t.seen) :
      Moves S t { t with parties := t.parties ++ [⟨none, place, ⟨.code token, []⟩⟩] }
  | others (w : World) (hw : S.state w = S.state t.world)
      (hl : ∀ i l, .opened i l ∈ t.seen → w.latches[l]? = t.world.latches[l]?) :
      Moves S t { t with world := w }

def Runs (S : Subject γ σ ν) : Scene γ ν → Scene γ ν → Prop := Relation.ReflTransGen (Moves S)

/-- Whose turn it is. -/
inductive Cue (γ : Type) where
  | acts (i : Nat)
  | asks (call : γ) (c : ConnectionId)
  /-- Somebody runs the token that was put there at that place in time. -/
  | runs (n : Nat)

/-- The scene after that turn, if it can be taken. -/
def Scene.takes (S : Subject γ σ ν) (place : Place) (t : Scene γ ν) : Cue γ → Option (Scene γ ν)
  | .acts i => (t.parties[i]?).bind fun p =>
      if (!p.activity.stack.isEmpty || !p.activity.control.settles) &&
          p.activity.op?.all t.world.ready then
        some ⟨(t.world.act p.place p.activity).1,
          t.parties.set i { p with activity := (t.world.act p.place p.activity).2 },
          t.seen ++ (p.activity.op?.map (signs S i t.world)).getD []⟩
      else none
  | .asks call c => ((S.node call).called c).map fun x =>
      { t with parties := t.parties ++ [⟨some call, place, ⟨.code x, []⟩⟩] }
  | .runs n => (t.seen[n]?).bind fun
      | .pushed token => some { t with parties := t.parties ++ [⟨none, place, ⟨.code token, []⟩⟩] }
      | _ => none

theorem Scene.takes_moves {S : Subject γ σ ν} {place : Place} {t u : Scene γ ν} {cue : Cue γ}
    (h : t.takes S place cue = some u) : Moves S t u := by
  cases cue with
  | acts i =>
    obtain ⟨p, hp, h⟩ := Option.bind_eq_some_iff.1 h
    rw [Option.ite_none_right_eq_some, Bool.and_eq_true, Bool.or_eq_true] at h
    obtain ⟨⟨hs, hready⟩, h⟩ := h
    obtain rfl := Option.some.inj h
    refine .acts hp (hs.imp ?_ ?_) ?_
    · intro hs hempty
      rw [hempty] at hs
      cases hs
    · intro hs
      simpa using hs
    · intro op hop
      simpa [hop] using hready
  | asks call c =>
    obtain ⟨x, hx, rfl⟩ := Option.map_eq_some_iff.1 h
    exact .asks call c place hx
  | runs n =>
    obtain ⟨sign, hn, h⟩ := Option.bind_eq_some_iff.1 h
    cases sign with
    | pushed token =>
      obtain rfl := Option.some.inj h
      exact .runs place (List.mem_of_getElem? hn)
    | _ => cases h

theorem Runs.takes {S : Subject γ σ ν} {place : Place} {cues : List (Cue γ)} {t u : Scene γ ν}
    (h : cues.foldlM (Scene.takes S place) t = some u) : Runs S t u := by
  induction cues generalizing t with
  | nil =>
    obtain rfl := Option.some.inj h
    exact .refl
  | cons cue cues ih =>
    obtain ⟨t', htakes, h⟩ := Option.bind_eq_some_iff.1 h
    exact .head (Scene.takes_moves htakes) (ih h)

/-- The first thing that a callback is told. -/
def first (l : LatchId) (seen : List (Sign ν)) : Option (Except String Reply) :=
  seen.findSome? fun
    | .told callback r => if callback = l then some r else none
    | _ => none

abbrev Telling := LatchId × Except String Reply

/-- What the callbacks are told. -/
def tolds (seen : List (Sign ν)) : List Telling :=
  seen.filterMap fun
    | .told l r => some (l, r)
    | _ => none

def notes (seen : List (Sign ν)) : List ν :=
  seen.filterMap fun
    | .noted n => some n
    | _ => none

section Seen

variable (a b : List (Sign ν))

theorem first_append (l : LatchId) : first l (a ++ b) = (first l a).or (first l b) :=
  List.findSome?_append

theorem tolds_append : tolds (a ++ b) = tolds a ++ tolds b := List.filterMap_append

theorem notes_append : notes (a ++ b) = notes a ++ notes b := List.filterMap_append

theorem mem_tolds {l : LatchId} {r : Except String Reply} :
    (l, r) ∈ tolds a ↔ .told l r ∈ a := by
  rw [tolds, List.mem_filterMap]
  constructor
  · rintro ⟨sign, hs, h⟩
    cases sign with
    | told l' r' =>
      obtain ⟨rfl, rfl⟩ := Prod.mk.inj (Option.some.inj h)
      exact hs
    | _ => cases h
  · intro h
    exact ⟨_, h, rfl⟩

theorem mem_notes {n : ν} : n ∈ notes a ↔ .noted n ∈ a := by
  rw [notes, List.mem_filterMap]
  constructor
  · rintro ⟨sign, hs, h⟩
    cases sign with
    | noted n' =>
      obtain rfl := Option.some.inj h
      exact hs
    | _ => cases h
  · intro h
    exact ⟨_, h, rfl⟩

variable (ns : List ν) (calls : List (LatchId × Except String Reply))

theorem notes_added : notes (added ns calls) = ns := by
  simp [notes, added, List.filterMap_append, List.filterMap_map, Function.comp_def]

theorem tolds_added : tolds (added ns calls) = calls := by
  simp [tolds, added, List.filterMap_append, List.filterMap_map, Function.comp_def]

theorem opened_added (i : Nat) (l : LatchId) : .opened i l ∉ added ns calls := by
  simp [added]

theorem pushed_added (token : Code) : .pushed token ∉ added ns calls := by
  simp [added]

/-- It is the first of all that is told. -/
theorem first_eq (l : LatchId) : first l a = ((tolds a).find? (·.1 = l)).map (·.2) := by
  induction a with
  | nil => rfl
  | cons sign a ih =>
    cases sign with
    | told callback r =>
      by_cases hl : callback = l
      · simp [first, tolds, hl]
      · simpa [first, tolds, hl] using ih
    | _ => simpa [first, tolds] using ih

end Seen
end Service
end Effects
