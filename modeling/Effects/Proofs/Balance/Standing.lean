import Effects.Proofs.Balance.Scopes
import Effects.Proofs.Bracket.Releases
import Effects.Proofs.Shield.Turns

/-!
Whatever a run is at, its frames tell with which connections its evaluations have begun; and the
connection has the tokens that it had before the run, but for those of the code that the run has
called.
-/

namespace Effects

/-- The second state has so many tokens more than the first, if it can hold any. -/
inductive Connection.Piled {τ : Type} : Nat → Connection τ → Connection τ → Prop
  | active (more ts : List τ) : Piled more.length (.active ts) (.active (more ++ ts))
  | uncancelable (depth : Nat) : Piled depth .uncancelable .uncancelable
  | canceled (depth : Nat) : Piled depth .canceled .canceled

namespace Connection.Piled

variable {τ : Type} {s s' : Connection τ} {depth : Nat}

theorem refl (s : Connection τ) : Piled 0 s s := by
  cases s with
  | active ts => exact .active [] ts
  | uncancelable => exact .uncancelable 0
  | canceled => exact .canceled 0

theorem eq_of_zero (h : Piled 0 s s') : s' = s := by
  generalize hd : 0 = depth at h
  cases h with
  | active more ts =>
    obtain rfl := List.eq_nil_of_length_eq_zero hd.symm
    rfl
  | uncancelable | canceled => rfl

theorem push (h : Piled depth s s') (token : τ) : Piled (depth + 1) s (s'.push token).1 := by
  cases h with
  | active more ts => exact .active (token :: more) ts
  | uncancelable => exact .uncancelable _
  | canceled => exact .canceled _

theorem pop (h : Piled (depth + 1) s s') : Piled depth s s'.pop.1 := by
  generalize hd : depth + 1 = d at h
  cases h with
  | active more ts =>
    cases more with
    | nil => simp at hd
    | cons token more =>
      obtain rfl : depth = more.length := Nat.succ.inj hd
      exact .active more ts
  | uncancelable => exact .uncancelable _
  | canceled => exact .canceled _

theorem cancel (h : Piled depth s s') : Piled depth s.cancel.1 s'.cancel.1 := by
  cases h with
  | active more ts => exact .canceled _
  | uncancelable => exact .uncancelable _
  | canceled => exact .canceled _

theorem spared (h : Piled depth s s') {s'' : Connection τ} (hs : s'.Spared s'') :
    ∃ t, Piled depth t s'' ∧ s.Spared t := by
  obtain rfl | rfl := hs
  · exact ⟨s, h, .refl s⟩
  · exact ⟨_, h.cancel, .inr rfl⟩

theorem isCanceled (h : Piled depth s s') : s'.isCanceled = s.isCanceled := by
  cases h <;> rfl

end Connection.Piled

namespace Evaluation

section

variable (c : ConnectionId) (own : FiberId → Prop)

/-- Waits below called code for a reply, and goes on with the rest of that code. -/
inductive Awaits (depth : Nat) : Frame → Prop
  | call {next : Reply → Code} (h : ∀ r, ¬ r.Carries c → (next r).Balanced c own depth) :
      Awaits depth (.call next)
  | attempt {next : Reply → Code} (h : ∀ r, ¬ r.Carries c → (next r).Balanced c own depth) :
      Awaits depth (.attempt next)
  | tokens {rest : List Code} (failure : Option String) {next : Reply → Code}
      (ht : ∀ x ∈ rest, x.Apart c own) (h : (next .unit).Balanced c own depth) :
      Awaits depth (.tokens rest failure next)

/-- Code that a machine has called, with so many tokens on the connection, or what that has called.
-/
inductive Called : Nat → Activity → Prop
  | code {depth : Nat} {x : Code} (h : x.Balanced c own depth) : Called depth ⟨.code x, []⟩
  | unwinding {depth : Nat} (message : String) : Called depth ⟨.unwinding message, []⟩
  | inside {depth : Nat} {a : Activity} {frame : Frame} (ha : a.Elsewhere c own)
      (hf : Awaits c own depth frame) : Called depth (a.atop [frame])
  | lent {r : Reply} (hr : ¬ r.Carries c) : Called 0 ⟨.ended (.ok r), []⟩

/-- Whoever goes on above these goes on with the first connection; the evaluations that have not
returned have begun with these, the innermost first. -/
inductive Opens : ConnectionId → List Cont → List Frame → List ConnectionId → Prop
  | nil : Opens c [] [] [c]
  | cont {d : ConnectionId} {cont : Cont} {next : List Cont} {fs : List Frame}
      {ds : List ConnectionId} (hcont : cont.Apart c own) (hr : ∀ saved, cont ≠ .restore saved)
      (h : Opens d next fs ds) : Opens d (cont :: next) fs ds
  | restore {saved : ConnectionId} {next : List Cont} {fs : List Frame} {ds : List ConnectionId}
      (h : Opens saved next fs ds) : Opens .uncancelable (.restore saved :: next) fs ds
  | acquiring {use : Value → Code} {release : Value → ExitCase Value → Code}
      {saved : ConnectionId} {next : List Cont} {fs : List Frame} {ds : List ConnectionId}
      (hu : ∀ v, (use v).Apart c own) (hf : ∀ v e, (release v e).Apart c own)
      (h : Opens saved next fs ds) :
      Opens .uncancelable [] (.acquiring use release saved next :: fs) (.uncancelable :: ds)
  | inUse {d : ConnectionId} (resource : Value) {release : Value → ExitCase Value → Code}
      {next : List Cont} {fs : List Frame} {ds : List ConnectionId}
      (hf : ∀ v e, (release v e).Apart c own) (h : Opens d next fs ds) :
      Opens d [] (.using resource release next :: fs) (d :: ds)
  | releasing (exit : Exit) {saved : ConnectionId} {next : List Cont} {fs : List Frame}
      {ds : List ConnectionId} (h : Opens saved next fs ds) :
      Opens .uncancelable [] (.releasing exit saved next :: fs) (.uncancelable :: ds)
  | instrumented {d : ConnectionId} {next : List Cont} {fs : List Frame} {ds : List ConnectionId}
      (h : Opens d next fs ds) : Opens d [] (.instrumented next :: fs) (d :: ds)

/-- Waits for code that a machine has called. -/
inductive Lends (next : List Cont) (run : Run) : Frame → Prop
  | node : Lends next run (.node next run)
  | opening (resource : Value) {release : Value → ExitCase Value → Code}
      (hf : ∀ v e, (release v e).Apart c own) : Lends next run (.opening resource release next run)

/-- What a run is at, with so many tokens of its own on the connection. -/
inductive Stands : Nat → Activity → List ConnectionId → Prop
  | focus {n : Node} {next : List Cont} {run : Run} {fs : List Frame} {ds : List ConnectionId}
      (hn : n.Apart c own) (h : Opens c own run.connection next fs ds) :
      Stands 0 ⟨.drive (.focus n next) run, fs⟩ ds
  | unwind (exit : Exit) {next : List Cont} {run : Run} {fs : List Frame}
      {ds : List ConnectionId} (h : Opens c own run.connection next fs ds) :
      Stands 0 ⟨.drive (.unwind exit next) run, fs⟩ ds
  | called {depth : Nat} {a : Activity} {frame : Frame} {next : List Cont} {run : Run}
      {fs : List Frame} {ds : List ConnectionId} (ha : Called c own depth a)
      (hf : Lends c own next run frame) (h : Opens c own run.connection next fs ds) :
      Stands depth (a.atop (frame :: fs)) ds
  | given (exit : Exit) {run : Run} {fs : List Frame} {ds : List ConnectionId}
      (h : Opens c own run.connection [] fs ds) : Stands 0 ⟨.code (.give (.ended exit run)), fs⟩ ds
  | ended (exit : Exit) {run : Run} {fs : List Frame} {ds : List ConnectionId}
      (h : Opens c own run.connection [] fs ds) :
      Stands 0 ⟨.ended (.ok (.ended exit run)), fs⟩ ds

end

/-- What the evaluations have to give back. -/
def scopes (c : ConnectionId) (s : Connection Code) (ds : List ConnectionId) : List Scope :=
  ds.map fun d => ⟨d, if d = c then s else .uncancelable⟩

variable {c d : ConnectionId} {own : FiberId → Prop} {w : World} {here : Place}
  {s s' : Connection Code} {a : Activity} {env : Surroundings} {exit : Exit} {run : Run}
  {next : List Cont} {fs : List Frame} {frame : Frame} {ds : List ConnectionId} {depth : Nat}

theorem Awaits.isCode (h : Awaits c own depth frame) : frame.isCode = true := by
  cases h <;> rfl

theorem Lends.isCode (h : Lends c own next run frame) : frame.isCode = false := by
  cases h <;> rfl

theorem Lends.isEval (h : Lends c own next run frame) : isEval frame = false := by
  cases h <;> rfl

namespace Opens

theorem plain (h : Opens c own d next fs ds) : fs.any Frame.isCode = false := by
  induction h with
  | nil => rfl
  | cont _ _ _ ih | restore _ ih => exact ih
  | inUse _ _ _ ih | instrumented _ ih | acquiring _ _ _ ih | releasing _ _ ih => exact ih

/-- A run has its own connection, or the one that is never canceled. -/
theorem connection (h : Opens c own d next fs ds) : d = c ∨ d = .uncancelable := by
  induction h with
  | nil => exact .inl rfl
  | cont _ _ _ ih => exact ih
  | restore | acquiring | releasing => exact .inr rfl
  | inUse _ _ _ ih | instrumented _ ih => exact ih

/-- An evaluation ends with the connection that it has begun with. -/
theorem innermost (h : Opens c own d [] fs ds) : ∃ rest, ds = d :: rest := by
  cases h <;> exact ⟨_, rfl⟩

theorem head (h : Opens c own d [] fs ds) : fs.head?.all isEval = true := by
  cases h <;> rfl

end Opens

theorem seen_of (h : w.Kept c own s) (hd : run.connection = c ∨ run.connection = .uncancelable)
    (p : ConnectionId → Connection Code → Passage) :
    seen w p run = p run.connection (if run.connection = c then s else .uncancelable) := by
  have hstate : w.connection run.connection =
      if run.connection = c then s else .uncancelable := by
    split
    · rename_i hc
      rw [hc, World.connection, h.state, Option.getD_some]
    · rename_i hc
      rw [hd.resolve_left hc, World.connection, h.immune, Option.getD_some]
  rw [seen, hstate]

/-- Before it is canceled and after. -/
theorem cancels_replays (h : w.Kept c own s) {w' : World} {t t' : Connection Code}
    (h' : w'.Kept c own s') {k k' : Nat} (hp : Connection.Piled k t s)
    (hp' : Connection.Piled k' t' s') (ht : t.Spared t') (ds : List ConnectionId) :
    Replays (scopes c t ds) (cancels c w w') (scopes c t' ds) := by
  have hw : w.isCanceled c = t.isCanceled := by
    rw [World.isCanceled, h.state]
    exact hp.isCanceled
  have hw' : w'.isCanceled c = t'.isCanceled := by
    rw [World.isCanceled, h'.state]
    exact hp'.isCanceled
  rw [cancels, hw, hw']
  obtain rfl | rfl := ht
  · rw [if_neg (by simp)]
    exact .nil _
  · cases t with
    | uncancelable | canceled =>
      rw [if_neg (by simp [Connection.cancel, Connection.isCanceled])]
      exact .nil _
    | active tokens =>
      rw [if_pos ⟨rfl, rfl⟩]
      have hmap : scopes c (.active tokens : Connection Code).cancel.1 ds =
          (scopes c (.active tokens) ds).map (Scope.cancel c) := by
        rw [scopes, scopes, List.map_map]
        refine List.map_congr_left fun d _ => ?_
        by_cases hd : d = c <;> simp [Scope.cancel, hd, Connection.cancel]
      rw [hmap]
      exact .single (.canceled c _)

end Evaluation

end Effects
