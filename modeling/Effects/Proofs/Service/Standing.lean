import Effects.Proofs.Service.Desk
import Effects.Proofs.Suspend.Waiter

/-!
What is known of every party and of its callback, whatever the threads do in whatever order.
-/

namespace Effects.Service

open Suspension

variable {γ σ ν ρ φ α : Type} {S : Subject γ σ ν} {P : Procedure γ σ ν ρ φ α}
  {seen more : List (Sign ν)} {i : Nat} {call : Option γ} {agent : Agent ρ φ α} {a : Activity}

/-- What the party of that number does. -/
inductive At (P : Procedure γ σ ν ρ φ α) (seen : List (Sign ν)) (i : Nat) :
    Option γ → Agent ρ φ α → Activity → Prop
  | now {g : γ} {r : ρ} {k : α → Code} {next : φ ⊕ α} (hg : P.asked g = .now r k) :
      At P seen i (some g) (.at r next) ⟨.code (P.codeAt r k next), []⟩
  | token {r : ρ} {next : φ ⊕ α} :
      At P seen i none (.at r next) ⟨.code (P.codeAt r (fun _ => .give .unit) next), []⟩
  | asking {g : γ} {r : LatchId → ρ} {c : ConnectionId} (hg : P.asked g = .wait r)
      (hn : ∀ l, .opened i l ∉ seen) :
      At P seen i (some g) .idle ⟨.code (Suspension.asking (P.register r) c), []⟩
  | opening {g : γ} {r : LatchId → ρ} {c : ConnectionId} (hg : P.asked g = .wait r)
      (hn : ∀ l, .opened i l ∉ seen) :
      At P seen i (some g) .idle ⟨.code (Suspension.opening (P.register r) c), []⟩
  | refused {g : γ} {r : LatchId → ρ} (hg : P.asked g = .wait r) (hn : ∀ l, .opened i l ∉ seen) :
      At P seen i (some g) .idle ⟨.code (.give (.outcome .canceled)), []⟩
  | registering {g : γ} {r : LatchId → ρ} {c : ConnectionId} {l : LatchId} {next : φ ⊕ α}
      (hg : P.asked g = .wait r) (hl : .opened i l ∈ seen) :
      At P seen i (some g) (.at (r l) next)
        ⟨.code (P.codeAt (r l) (fun a => (P.guard (r l) a).andThen (after c l)) next), []⟩
  | late {g : γ} {r : LatchId → ρ} {c : ConnectionId} {l : LatchId} {r' : ρ} {next : φ ⊕ α}
      (hg : P.asked g = .wait r) (hl : .opened i l ∈ seen) :
      At P seen i (some g) (.at r' next)
        ⟨.code (P.codeAt r' (fun _ => .give .unit) next), [.call fun _ => waiting c l]⟩
  | waiting {g : γ} {r : LatchId → ρ} {c : ConnectionId} {l : LatchId} {r' : ρ} {a : α}
      (hg : P.asked g = .wait r) (hl : .opened i l ∈ seen) :
      At P seen i (some g) (.at r' (.inr a)) ⟨.code (Suspension.waiting c l), []⟩
  | leaving {g : γ} {r : LatchId → ρ} {c : ConnectionId} {l : LatchId} {r' : ρ} {a : α}
      {reply : Reply} (hg : P.asked g = .wait r) (hl : .opened i l ∈ seen)
      (hfirst : first l seen = some (.ok reply)) :
      At P seen i (some g) (.at r' (.inr a)) ⟨.code (Suspension.leaving c reply.toExit), []⟩
  | ended {g : γ} {r : LatchId → ρ} {l : LatchId} {r' : ρ} {a : α} {reply : Reply}
      (hg : P.asked g = .wait r) (hl : .opened i l ∈ seen)
      (hfirst : first l seen = some (.ok reply)) :
      At P seen i (some g) (.at r' (.inr a)) ⟨.code (.give (.outcome reply.toExit)), []⟩
  | panicking {g : γ} {r : LatchId → ρ} {l : LatchId} {r' : ρ} {a : α} {message : String}
      (hg : P.asked g = .wait r) (hl : .opened i l ∈ seen)
      (hfirst : first l seen = some (.error message)) :
      At P seen i (some g) (.at r' (.inr a)) ⟨.code (.panic message), []⟩
  | panicked {g : γ} {r : LatchId → ρ} {l : LatchId} {r' : ρ} {a : α} {message : String}
      (hg : P.asked g = .wait r) (hl : .opened i l ∈ seen)
      (hfirst : first l seen = some (.error message)) :
      At P seen i (some g) (.at r' (.inr a)) ⟨.unwinding message, []⟩

theorem first_mono {l : LatchId} {r : Except String Reply} (h : first l seen = some r) :
    first l (seen ++ more) = some r := by
  rw [first_append, h]
  rfl

/-- Nothing changes for a party that does not open its callback meanwhile. -/
theorem At.mono (h : At P seen i call agent a) (hmore : ∀ l, .opened i l ∉ more) :
    At P (seen ++ more) i call agent a := by
  have hn : ∀ {l : LatchId}, .opened i l ∉ seen → .opened i l ∉ seen ++ more := by
    intro l hn hl
    exact (List.mem_append.1 hl).elim hn (hmore l)
  cases h with
  | now hg => exact .now hg
  | token => exact .token
  | asking hg h => exact .asking hg fun l => hn (h l)
  | opening hg h => exact .opening hg fun l => hn (h l)
  | refused hg h => exact .refused hg fun l => hn (h l)
  | registering hg hl => exact .registering hg (List.mem_append_left more hl)
  | late hg hl => exact .late hg (List.mem_append_left more hl)
  | waiting hg hl => exact .waiting hg (List.mem_append_left more hl)
  | leaving hg hl hf => exact .leaving hg (List.mem_append_left more hl) (first_mono hf)
  | ended hg hl hf => exact .ended hg (List.mem_append_left more hl) (first_mono hf)
  | panicking hg hl hf => exact .panicking hg (List.mem_append_left more hl) (first_mono hf)
  | panicked hg hl hf => exact .panicked hg (List.mem_append_left more hl) (first_mono hf)

/-- The callback holds that, unless it has been taken out. -/
def Holds (w : World) (l : LatchId) (r : Option (Except String Reply)) : Prop :=
  w.latches[l]? = some (.holding r) ∨ w.latches[l]? = some .drained

/-- A scene and what is left of it when the threads are forgotten. -/
structure Stands (P : Procedure γ σ ν ρ φ α) (S : Subject γ σ ν) (f : Floor σ ν ρ φ α)
    (t : Scene γ ν) : Prop where
  state : S.state t.world = some f.state
  seen : t.seen = f.seen
  length : f.agents.length = t.parties.length
  party : ∀ {i p}, t.parties[i]? = some p → ∃ agent, f.agents[i]? = some agent ∧
    At P f.seen i p.call agent p.activity
  tokens : ∀ {token}, .pushed token ∈ f.seen → ∃ r ∈ f.given, token = P.token r
  latches : ∀ {i l}, .opened i l ∈ f.seen → Holds t.world l (first l f.seen)
  opened : ∀ {i l}, .opened i l ∈ f.seen → i < t.parties.length
  /-- A party opens one callback at most. -/
  single : ∀ {i l l'}, .opened i l ∈ f.seen → .opened i l' ∈ f.seen → l = l'

/-- The latch of a callback after somebody has been told something. -/
theorem tell_latches {w w' : World} {told : Told}
    (hw : w'.latches = (w.tell told).latches) {l : LatchId}
    (h : Holds w l (first l seen)) :
    Holds w' l (first l (seen ++ told.toList.map fun call => .told call.1 call.2)) := by
  rw [Holds, hw]
  cases told with
  | none => simpa [World.tell, Holds] using h
  | some call =>
    obtain ⟨callback, r⟩ := call
    obtain h | h := h
    · left
      rw [World.tell, World.settle_latch h, first_append]
      by_cases hl : callback = l
      · subst hl
        cases hf : first callback seen <;> simp [first, Latch.set, Latch.holding]
      · have hnone : first l [(.told callback r : Sign ν)] = none := by simp [first, hl]
        simp [hl, hnone]
    · right
      rw [World.tell, World.settle_latch h]
      split <;> rfl

end Effects.Service
