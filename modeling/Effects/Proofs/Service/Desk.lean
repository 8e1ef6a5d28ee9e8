import Effects.Proofs.Service.Scene

/-!
How requests are served, each in atomic steps of whoever makes it, and what such steps come to when
the threads are forgotten: a state, and how far every party has come with its request. Slots and
promises are served in atomic phases, and there a request that takes another back then wakes the one
who made it.
-/

namespace Effects

abbrev Told := Option (LatchId × Except String Reply)

def World.tell (w : World) : Told → World
  | none => w
  | some (l, r) => w.settle l r

namespace Service

variable {γ σ ν ρ φ α : Type}

/-- What a call comes to: a request, and code that goes on with the answer; or a request to be called
back, made in a registration. -/
inductive Asked (ρ α : Type) where
  | now (r : ρ) (k : α → Code)
  | wait (r : LatchId → ρ)

/-- Requests, the phases that each goes through, and the answers. -/
structure Procedure (γ σ ν ρ φ α : Type) where
  asked : γ → Asked ρ α
  start : φ
  op : ρ → φ → Op
  /-- The code after the operation of a phase. -/
  next : ρ → φ → (α → Code) → Reply → Code
  step : ρ → φ → σ → σ × (φ ⊕ α) × Told
  note : ρ → φ → σ → List ν
  /-- The request that takes one back that was answered so. -/
  undo : ρ → α → Option ρ

namespace Procedure

variable (P : Procedure γ σ ν ρ φ α)

def code (r : ρ) (q : φ) (k : α → Code) : Code := .perform (P.op r q) (P.next r q k)

def codeAt (r : ρ) (k : α → Code) : φ ⊕ α → Code
  | .inl q => P.code r q k
  | .inr a => k a

def token (r : ρ) : Code := P.code r P.start fun _ => .give .unit

def guard (r : ρ) (a : α) : Code := .guard ((P.undo r a).map P.token)

def register (r : LatchId → ρ) (l : LatchId) : Code := P.code (r l) P.start (P.guard (r l))

end Procedure

/-- Touches a connection or a callback only. -/
def Aside : Op → Prop
  | .connection _ _ | .openLatch | .await _ => True
  | _ => False

/-- The operations in the world do what the procedure says. -/
structure Procedure.Serves (P : Procedure γ σ ν ρ φ α) (S : Subject γ σ ν) : Prop where
  performs : ∀ {w : World} {s : σ}, S.state w = some s → ∀ (here : Place) (r : ρ) (q : φ),
    ∃ w', S.state w' = some (P.step r q s).1 ∧
      w'.latches = (w.tell (P.step r q s).2.2).latches ∧ ∀ k stack,
        w.act here ⟨.code (P.code r q k), stack⟩ =
          (w', ⟨.code (P.codeAt r k (P.step r q s).2.1), stack⟩)
  signs : ∀ {w : World} {s : σ}, S.state w = some s → ∀ (i : Nat) (r : ρ) (q : φ),
    signs S i w (P.op r q) = added (P.note r q s) (P.step r q s).2.2.toList
  andThen : ∀ (r : ρ) (q : φ) (k : α → Code) (k' : Answer → Code),
    (P.code r q k).andThen k' = P.code r q fun a => (k a).andThen k'
  aside : ∀ {op : Op}, Aside op → ∀ (w : World) (here : Place),
    S.state (w.perform here op).1 = S.state w ∧ S.note w op = []
  now : ∀ {g : γ} {r : ρ} {k : α → Code}, P.asked g = .now r k →
    S.node g = .suspend (P.code r P.start k) ∧ ∀ a, (Control.code (k a)).settles = true
  wait : ∀ {g : γ} {r : LatchId → ρ}, P.asked g = .wait r → S.node g = .async (P.register r)

/-- How far a party has come. -/
inductive Agent (ρ φ α : Type) where
  /-- Has not asked yet. -/
  | idle
  | at (r : ρ) (next : φ ⊕ α)

/-- What is left when the threads are forgotten. -/
structure Floor (σ ν ρ φ α : Type) where
  state : σ
  agents : List (Agent ρ φ α)
  /-- The requests that tokens have been made of. -/
  given : List ρ
  seen : List (Sign ν)

inductive Turn (P : Procedure γ σ ν ρ φ α) (f : Floor σ ν ρ φ α) : Floor σ ν ρ φ α → Prop
  | acts {i : Nat} {r : ρ} {q : φ} (h : f.agents[i]? = some (.at r (.inl q))) :
      Turn P f { f with
        state := (P.step r q f.state).1
        agents := f.agents.set i (.at r (P.step r q f.state).2.1)
        seen := f.seen ++ added (P.note r q f.state) (P.step r q f.state).2.2.toList }
  | asks {g : γ} {r : ρ} {k : α → Code} (h : P.asked g = .now r k) :
      Turn P f { f with agents := f.agents ++ [.at r (.inl P.start)] }
  | comes : Turn P f { f with agents := f.agents ++ [.idle] }
  | opens {i : Nat} {l : LatchId} {g : γ} {r : LatchId → ρ} (h : f.agents[i]? = some .idle)
      (hg : P.asked g = .wait r) (hfresh : ∀ j, .opened j l ∉ f.seen) :
      Turn P f { f with
        agents := f.agents.set i (.at (r l) (.inl P.start))
        seen := f.seen ++ [.opened i l] }
  | pushes {i : Nat} {r r' : ρ} {a : α} (h : f.agents[i]? = some (.at r (.inr a)))
      (hu : P.undo r a = some r') :
      Turn P f { f with given := f.given ++ [r'], seen := f.seen ++ [.pushed (P.token r')] }
  /-- One who was answered takes it back at once. -/
  | returns {i : Nat} {r r' : ρ} {a : α} (h : f.agents[i]? = some (.at r (.inr a)))
      (hu : P.undo r a = some r') (hr : r' ∈ f.given) :
      Turn P f { f with agents := f.agents.set i (.at r' (.inl P.start)) }
  | runs {r : ρ} (hr : r ∈ f.given) :
      Turn P f { f with agents := f.agents ++ [.at r (.inl P.start)] }

end Service
end Effects

namespace Effects.Service

variable {γ σ ν ρ φ α : Type}

structure Store (σ ρ φ α : Type) where
  state : World → Option σ
  op : ρ → φ → Op
  step : ρ → φ → σ → σ × φ × Told
  start : φ
  answer? : φ → Option α
  reply : Reply → α
  /-- Whom a request that was answered so has to wake. -/
  wakes? : ρ → α → Option LatchId

/-- What a waiter is told whose run is canceled. -/
def interrupted : Except String Reply := .ok (.outcome .canceled)

inductive Stage (φ α : Type) where
  | at (phase : φ)
  | waking (l : LatchId) (a : α)

namespace Store

variable (T : Store σ ρ φ α)

def answered (r : ρ) (a : α) : Stage φ α ⊕ α :=
  match T.wakes? r a with
  | some l => .inl (.waking l a)
  | none => .inr a

def after (r : ρ) (q : φ) : Stage φ α ⊕ α :=
  match T.answer? q with
  | some a => T.answered r a
  | none => .inl (.at q)

def next (r : ρ) (k : α → Code) (a : α) : Code :=
  match T.wakes? r a with
  | some l => .perform (.settle l interrupted) fun _ => k a
  | none => k a

def procedure (asked : γ → Asked ρ α) (note : ρ → φ → σ → List ν) (undo : ρ → α → Option ρ) :
    Procedure γ σ ν ρ (Stage φ α) α where
  asked := asked
  start := .at T.start
  op
    | r, .at q => T.op r q
    | _, .waking l _ => .settle l interrupted
  next
    | r, .at _, k, reply => T.next r k (T.reply reply)
    | _, .waking _ a, k, _ => k a
  step
    | r, .at q, s => ((T.step r q s).1, T.after r (T.step r q s).2.1, (T.step r q s).2.2)
    | _, .waking l a, s => (s, .inr a, some (l, interrupted))
  note
    | r, .at q, s => note r q s
    | _, .waking _ _, _ => []
  undo := undo

/-- The store is in the world, and its operations are what they are said to be. -/
structure Lawful (S : Subject γ σ ν) (asked : γ → Asked ρ α) (note : ρ → φ → σ → List ν)
    (undo : ρ → α → Option ρ) : Prop where
  state : S.state = T.state
  world : ∀ {w : World} {s : σ}, T.state w = some s → ∀ (here : Place) (r : ρ) (q : φ),
    T.state (w.perform here (T.op r q)).1 = some (T.step r q s).1 ∧
      (w.perform here (T.op r q)).1.latches = (w.tell (T.step r q s).2.2).latches
  response : ∀ {w : World} {s : σ}, T.state w = some s → ∀ (here : Place) (r : ρ) (q : φ),
    (T.answer? (T.step r q s).2.1 = none ∧
        (w.perform here (T.op r q)).2 = .again (T.op r (T.step r q s).2.1)) ∨
      ∃ reply, T.answer? (T.step r q s).2.1 = some (T.reply reply) ∧
        (w.perform here (T.op r q)).2 = .reply reply
  signs : ∀ {w : World} {s : σ}, T.state w = some s → ∀ (i : Nat) (r : ρ) (q : φ),
    Service.signs S i w (T.op r q) = added (note r q s) (T.step r q s).2.2.toList
  settle : ∀ (w : World) (l : LatchId) (x : Except String Reply),
    T.state (w.settle l x) = T.state w ∧ S.note w (.settle l x) = []
  aside : ∀ {op : Op}, Aside op → ∀ (w : World) (here : Place),
    T.state (w.perform here op).1 = T.state w ∧ S.note w op = []
  now : ∀ {g : γ} {r : ρ} {k : α → Code}, asked g = .now r k →
    S.node g = .suspend ((T.procedure asked note undo).code r (.at T.start) k) ∧
      ∀ a, (Control.code (k a)).settles = true
  wait : ∀ {g : γ} {r : LatchId → ρ}, asked g = .wait r →
    S.node g = .async ((T.procedure asked note undo).register r)

variable {T} {S : Subject γ σ ν} {asked : γ → Asked ρ α} {note : ρ → φ → σ → List ν}
  {undo : ρ → α → Option ρ}

theorem Lawful.serves (hT : T.Lawful S asked note undo) :
    (T.procedure asked note undo).Serves S where
  performs := by
    intro w s hs here r stage
    have hs : T.state w = some s := hT.state ▸ hs
    cases stage with
    | waking l a =>
      refine ⟨w.settle l interrupted, ?_, rfl, fun k stack => rfl⟩
      rw [hT.state, (hT.settle w l interrupted).1]
      exact hs
    | «at» q =>
      obtain ⟨hstate, hlatches⟩ := hT.world hs here r q
      refine ⟨_, by rw [hT.state]; exact hstate, hlatches, fun k stack => ?_⟩
      have hact : w.act here ⟨.code ((T.procedure asked note undo).code r (.at q) k), stack⟩ =
          ((w.perform here (T.op r q)).1, .respond (fun reply => T.next r k (T.reply reply)) stack
            (w.perform here (T.op r q)).2) := rfl
      rw [hact]
      refine congrArg (Prod.mk _) ?_
      obtain ⟨hanswer, hresponse⟩ | ⟨reply, hanswer, hresponse⟩ := hT.response hs here r q
      · simp only [procedure, Store.after, hanswer, hresponse]
        rfl
      · simp only [procedure, Store.after, Store.answered, Store.next, hanswer, hresponse,
          Activity.respond]
        cases T.wakes? r (T.reply reply) <;> rfl
  signs := by
    intro w s hs i r stage
    have hs : T.state w = some s := hT.state ▸ hs
    cases stage with
    | waking l a =>
      have hnote : S.note w (.settle l interrupted) = [] := (hT.settle w l interrupted).2
      show added (S.note w (.settle l interrupted)) _ = _
      rw [hnote]
      rfl
    | «at» q => exact hT.signs hs i r q
  andThen := by
    intro r stage k k'
    cases stage with
    | waking l a => rfl
    | «at» q =>
      refine congrArg (Code.perform _) (funext fun reply => ?_)
      simp only [procedure, Store.next]
      cases T.wakes? r (T.reply reply) <;> rfl
  aside := by
    intro op hop w here
    rw [hT.state]
    exact hT.aside hop w here
  now := hT.now
  wait := hT.wait

end Store
end Effects.Service
