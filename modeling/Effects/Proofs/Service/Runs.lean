import Effects.Proofs.Service.Steps

/-!
Whatever holds after every turn holds in every scene; and what a party has come to when it has its
answer.
-/

namespace Effects.Service

section Runs

variable {γ σ ν ρ φ α : Type} {S : Subject γ σ ν} {P : Procedure γ σ ν ρ φ α}
  {f f' : Floor σ ν ρ φ α} {t u : Scene γ ν}

/-- Nobody has asked for anything yet. -/
def Scene.start (w : World) : Scene γ ν := ⟨w, [], []⟩

def Floor.start (s : σ) : Floor σ ν ρ φ α := ⟨s, [], [], []⟩

theorem Stands.start {w : World} {s : σ} (hw : S.state w = some s) :
    Stands P S (Floor.start s) (Scene.start w) where
  state := hw
  seen := rfl
  length := rfl
  party := by
    intro i p hp
    simp [Scene.start] at hp
  tokens := by
    intro token ht
    cases ht
  latches := by
    intro i l hl
    cases hl
  opened := by
    intro i l hl
    cases hl
  single := by
    intro i l l' hl
    cases hl

/-- One more party. -/
theorem Stands.joins (h : Stands P S f t) {p : Party γ} {agent : Agent ρ φ α}
    (hat : At P f.seen t.parties.length p.call agent p.activity) :
    Stands P S { f with agents := f.agents ++ [agent] } { t with parties := t.parties ++ [p] } where
  state := h.state
  seen := h.seen
  length := by simp [h.length]
  party := by
    intro i q hq
    by_cases hi : i < t.parties.length
    · rw [List.getElem?_append_left hi] at hq
      obtain ⟨agent, hagent, hat⟩ := h.party hq
      refine ⟨agent, ?_, hat⟩
      rw [List.getElem?_append_left (h.length ▸ hi), hagent]
    · have hlt := (List.getElem?_eq_some_iff.1 hq).1
      rw [List.length_append, List.length_singleton] at hlt
      obtain rfl : i = t.parties.length := by omega
      rw [List.getElem?_concat_length] at hq
      obtain rfl := Option.some.inj hq
      refine ⟨agent, ?_, hat⟩
      rw [← h.length, List.getElem?_concat_length]
  tokens := h.tokens
  latches := h.latches
  opened := by
    intro i l hl
    have hlt := h.opened hl
    rw [List.length_append]
    exact Nat.lt_add_right _ hlt
  single := h.single

/-- One who has just come. -/
def Procedure.newcomer (P : Procedure γ σ ν ρ φ α) (g : γ) : Agent ρ φ α :=
  match P.asked g with
  | .now r _ => .at r (.inl P.start)
  | .wait _ => .idle

theorem Turn.newcomer (P : Procedure γ σ ν ρ φ α) (f : Floor σ ν ρ φ α) (g : γ) :
    Turn P f { f with agents := f.agents ++ [P.newcomer g] } := by
  rw [Procedure.newcomer]
  cases hg : P.asked g with
  | now r k => exact .asks hg
  | wait r => exact .comes

theorem Stands.asks (hS : P.Serves S) (h : Stands P S f t) {g : γ} {c : ConnectionId}
    (place : Place) {x : Code} (hx : (S.node g).called c = some x) :
    Stands P S { f with agents := f.agents ++ [P.newcomer g] }
      { t with parties := t.parties ++ [⟨some g, place, ⟨.code x, []⟩⟩] } := by
  rw [Procedure.newcomer]
  cases hg : P.asked g with
  | now r k =>
    rw [(hS.now hg).1] at hx
    obtain rfl := Option.some.inj hx
    have hat : At P f.seen t.parties.length (some g) (.at r (.inl P.start))
        ⟨.code (P.codeAt r k (.inl P.start)), []⟩ := .now hg
    exact h.joins hat
  | wait r =>
    rw [hS.wait hg] at hx
    obtain rfl := Option.some.inj hx
    refine h.joins (.asking hg fun l hl => ?_)
    exact Nat.lt_irrefl _ (h.opened hl)

/-- Somebody runs a token. -/
theorem Stands.tokenRuns (h : Stands P S f t) (place : Place) {token : Code}
    (ht : .pushed token ∈ t.seen) : ∃ r ∈ f.given,
      Stands P S { f with agents := f.agents ++ [.at r (.inl P.start)] }
        { t with parties := t.parties ++ [⟨none, place, ⟨.code token, []⟩⟩] } := by
  obtain ⟨r, hr, rfl⟩ := h.tokens (h.seen ▸ ht)
  have hat : At P f.seen t.parties.length none (.at r (.inl P.start))
      ⟨.code (P.codeAt r (fun _ => .give .unit) (.inl P.start)), []⟩ := .token
  exact ⟨r, hr, h.joins hat⟩

/-- What is shared is left alone. -/
theorem Stands.others (h : Stands P S f t) {w : World} (hw : S.state w = S.state t.world)
    (hl : ∀ i l, .opened i l ∈ t.seen → w.latches[l]? = t.world.latches[l]?) :
    Stands P S f { t with world := w } where
  state := hw.trans h.state
  seen := h.seen
  length := h.length
  party := h.party
  tokens := h.tokens
  latches := by
    intro i l hopened
    rw [Holds, hl i l (h.seen ▸ hopened)]
    exact h.latches hopened
  opened := h.opened
  single := h.single

theorem Stands.moves (hS : P.Serves S) (h : Stands P S f t)
    (htold : ∀ l r, .told l r ∈ f.seen → ∃ j, .opened j l ∈ f.seen) (hm : Moves S t u) :
    ∃ f', Turns P f f' ∧ Stands P S f' u := by
  cases hm with
  | acts hp hs hready => exact h.acts hS htold hp hs hready
  | asks call c place hx => exact ⟨_, .single (.newcomer P f call), h.asks hS place hx⟩
  | runs place ht =>
    obtain ⟨r, hr, hnew⟩ := h.tokenRuns place ht
    exact ⟨_, .single (.runs hr), hnew⟩
  | others w hw hl => exact ⟨f, .refl, h.others hw hl⟩

/-- Kept by every turn, and nobody is told anything before the callback is opened. -/
structure Kept (P : Procedure γ σ ν ρ φ α) (I : Floor σ ν ρ φ α → Prop) : Prop where
  turn : ∀ {f f'}, I f → Turn P f f' → I f'
  told : ∀ {f}, I f → ∀ l r, .told l r ∈ f.seen → ∃ i, .opened i l ∈ f.seen

theorem Kept.turns {I : Floor σ ν ρ φ α → Prop} (hI : Kept P I) (hf : I f)
    (h : Turns P f f') : I f' := by
  induction h with
  | refl => exact hf
  | tail _ hturn ih => exact hI.turn ih hturn

theorem Stands.runs (hS : P.Serves S) {I : Floor σ ν ρ φ α → Prop} (hI : Kept P I)
    (h : Stands P S f t) (hf : I f) (hr : Runs S t u) :
    ∃ f', I f' ∧ Turns P f f' ∧ Stands P S f' u := by
  induction hr with
  | refl => exact ⟨f, hf, .refl, h⟩
  | tail _ hm ih =>
    obtain ⟨f₁, hf₁, hturns, h₁⟩ := ih
    obtain ⟨f₂, hturns₂, h₂⟩ := h₁.moves hS (hI.told hf₁) hm
    exact ⟨f₂, hI.turns hf₁ hturns₂, hturns.trans hturns₂, h₂⟩

end Runs

section Ends

open Suspension

variable {γ σ ν ρ φ α : Type} {S : Subject γ σ ν} {P : Procedure γ σ ν ρ φ α}
  {f : Floor σ ν ρ φ α} {t : Scene γ ν} {i : Nat} {p : Party γ}

/-- The call comes to a computation. -/
def Party.Gives (p : Party γ) (n : Node) : Prop := p.activity = ⟨.code (.build n), []⟩

/-- The wait is over. -/
def Party.Ends (p : Party γ) (exit : Exit) : Prop :=
  p.activity = ⟨.code (.give (.outcome exit)), []⟩

/-- Is not in the middle of a request, but waits, or is through. -/
def Party.Rests (p : Party γ) : Prop := ∀ op, p.activity.op? = some op → ∃ l, op = .await l

theorem Stands.gives (h : Stands P S f t) (hp : t.parties[i]? = some p) {g : γ} {r : ρ}
    {k : α → Code} {n : Node} (hcall : p.call = some g) (hg : P.asked g = .now r k)
    (hn : p.Gives n) : ∃ a, f.agents[i]? = some (.at r (.inr a)) ∧ k a = .build n := by
  obtain ⟨agent, hagent, hat⟩ := h.party hp
  obtain ⟨call, place, a⟩ := p
  obtain rfl : call = some g := hcall
  obtain rfl : a = ⟨.code (.build n), []⟩ := hn
  generalize hx : (⟨.code (.build n), []⟩ : Activity) = x at hat
  cases hat with
  | @now g r' k' next hg' =>
    obtain ⟨rfl, rfl⟩ := Asked.now.inj (hg.symm.trans hg')
    cases next with
    | inl q => cases hx
    | inr a => exact ⟨a, hagent, (Control.code.inj (Activity.mk.inj hx).1).symm⟩
  | asking hg' => cases hg.symm.trans hg'
  | opening hg' => cases hg.symm.trans hg'
  | refused hg' => cases hg.symm.trans hg'
  | registering hg' => cases hg.symm.trans hg'
  | late hg' => cases hg.symm.trans hg'
  | waiting hg' => cases hg.symm.trans hg'
  | leaving hg' => cases hg.symm.trans hg'
  | ended hg' => cases hg.symm.trans hg'
  | panicking hg' => cases hg.symm.trans hg'
  | panicked hg' => cases hg.symm.trans hg'

/-- A wait ends as the callback was told first, unless it was given up before it began. -/
theorem Stands.ends (h : Stands P S f t) (hp : t.parties[i]? = some p) {g : γ} {r : LatchId → ρ}
    {exit : Exit} (hcall : p.call = some g) (hg : P.asked g = .wait r) (he : p.Ends exit) :
    (exit = .canceled ∧ ∀ l, .opened i l ∉ t.seen) ∨ ∃ (l : LatchId) (reply : Reply),
      .opened i l ∈ t.seen ∧ first l t.seen = some (.ok reply) ∧ exit = reply.toExit := by
  obtain ⟨agent, hagent, hat⟩ := h.party hp
  obtain ⟨call, place, a⟩ := p
  obtain rfl : call = some g := hcall
  obtain rfl : a = ⟨.code (.give (.outcome exit)), []⟩ := he
  rw [h.seen]
  generalize hx : (⟨.code (.give (.outcome exit)), []⟩ : Activity) = x at hat
  cases hat with
  | now hg' => cases hg.symm.trans hg'
  | asking hg' =>
    rw [asking_eq] at hx
    cases hx
  | refused hg' hn =>
    cases hx
    exact .inl ⟨rfl, hn⟩
  | @registering g r' c l next hg' hl =>
    cases next with
    | inl q => cases hx
    | inr a =>
      have hcode := Control.code.inj (Activity.mk.inj hx).1
      exact absurd hcode.symm (after_ne_give (.guard _) _)
  | @ended g r' l r'' a reply hg' hl hf =>
    cases hx
    exact .inr ⟨l, reply, hl, hf, rfl⟩
  | late => cases (Activity.mk.inj hx).2
  | opening | waiting | leaving | panicking | panicked => cases hx

/-- A wait panics as the callback was told first. -/
theorem Stands.panics (h : Stands P S f t) (hp : t.parties[i]? = some p) {g : γ} {r : LatchId → ρ}
    {message : String} (hcall : p.call = some g) (hg : P.asked g = .wait r)
    (ha : p.activity = ⟨.unwinding message, []⟩) :
    ∃ l, .opened i l ∈ t.seen ∧ first l t.seen = some (.error message) := by
  obtain ⟨agent, hagent, hat⟩ := h.party hp
  obtain ⟨call, place, a⟩ := p
  obtain rfl : call = some g := hcall
  obtain rfl : a = ⟨.unwinding message, []⟩ := ha
  rw [h.seen]
  generalize hx : (⟨.unwinding message, []⟩ : Activity) = x at hat
  cases hat with
  | panicked hg' hl hf =>
    cases hx
    exact ⟨_, hl, hf⟩
  | now hg' => cases hg.symm.trans hg'
  | asking => 
    rw [asking_eq] at hx
    cases hx
  | registering => cases hx
  | late => cases (Activity.mk.inj hx).2
  | refused | opening | waiting | leaving | ended | panicking => cases hx

/-- Whoever rests has made all the steps of its request. -/
theorem Stands.rested (h : Stands P S f t) (hp : t.parties[i]? = some p)
    (hr : p.Rests) {r : ρ} {q : φ} (hagent : f.agents[i]? = some (.at r (.inl q))) :
    ∃ l, P.op r q = .await l := by
  obtain ⟨agent, hagent', hat⟩ := h.party hp
  obtain rfl := Option.some.inj (hagent.symm.trans hagent')
  obtain ⟨call, place, a⟩ := p
  cases hat with
  | now => exact hr _ rfl
  | token => exact hr _ rfl
  | registering => exact hr _ rfl
  | late => exact hr _ rfl

end Ends

end Effects.Service
