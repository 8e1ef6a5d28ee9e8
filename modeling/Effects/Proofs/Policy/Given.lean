import Effects.Proofs.Group.Nested
import Effects.Proofs.Policy.Steps
import Mathlib.Data.List.Basic

/-!
Updates that compute. One that needs nobody else is done without an operation; one that runs a group
comes to what the group answers, once each branch has ended with an exit that it comes to itself.
-/

namespace Effects

open Gathering

namespace Node

/-- The computation may end with the exit, and so may the branches of each group that it runs. -/
inductive ComesTo : Node → Exit → Prop
  | computes {node run run' exit} (h : node.Yields run [] (.ok (exit, run'))) : ComesTo node exit
  | joins {branches combine run w place seen t code exit} (exits : Nat → Exit)
      (h : Runs (asked (Group.code branches combine run) w place) seen t)
      (ha : t.answer = some code) (hexit : Gathering.Hands code exit)
      (hended : ∀ i node, branches[i]? = some node → .ended i (.ok (exits i)) ∈ seen)
      (hcomes : ∀ i node, branches[i]? = some node → ComesTo node (exits i)) :
      ComesTo (.parMap branches combine) exit

variable {run : Run} {x : Except String (Exit × Run)} {exit : Exit}

/-- A group begins with an operation. -/
theorem not_yields_nil (a b : Node) (combine : List Value → Code) :
    ¬ (Node.parMap [a, b] combine).Yields run [] x := by
  rintro ⟨n, hn⟩
  have hcall : Activity.Silent ⟨.drive (.focus (.parMap [a, b] combine) []) run, []⟩
      ⟨.code (Group.code [a, b] combine run), [.node [] run]⟩ := Activity.silent_call fun _ => rfl
  obtain ⟨k, -, hk⟩ := hcall.reaches_of hn
  rw [code_eq, show List.range [a, b].length = [0, 1] from rfl, opening_cons] at hk
  generalize ht : ([] : Trace) = t, hy : Activity.yielding x = y at hk
  cases hk with
  | stay => cases x <;> simp [Activity.yielding] at hy
  | act => simp [Activity.performs] at ht

theorem Plain.comesTo_iff {node : Node} {v : Value} (h : node.Plain v) :
    node.ComesTo exit ↔ exit = .completed v := by
  constructor
  · intro hcomes
    cases hcomes with
    | computes hyields => exact congrArg Prod.fst (Except.ok.inj ((h.yields _ _ _).1 hyields).2)
    | joins => cases h
  · rintro rfl
    have hyields := (h.yields ⟨.inline, .uncancelable⟩ [] _).2 ⟨rfl, rfl⟩
    exact .computes hyields

/-- The computation comes to this value, and to nothing else, also as a branch of a group. -/
structure Gives (node : Node) (v : Value) : Prop where
  comes : node.ComesTo (.completed v)
  only : ∀ {exit}, node.ComesTo exit → exit = .completed v
  plays : Plays node v

theorem Plain.gives {node : Node} {v : Value} (h : node.Plain v) : node.Gives v where
  comes := h.comesTo_iff.2 rfl
  only := h.comesTo_iff.1
  plays := .plain h

end Node

namespace Effect

variable {ε α β γ : Type} [Datum ε] [Datum α] [Datum β] [Datum γ]

def ComesTo (e : Effect ε α) (o : Outcome ε α) : Prop :=
  ∃ exit, e.node.ComesTo exit ∧ exit.map read read = o

/-- The effect comes to this value, and to nothing else. -/
def Computes (e : Effect ε α) (a : α) : Prop := ∀ o, e.ComesTo o ↔ o = .completed a

/-- It does so also as a branch of a group. -/
def Gives (e : Effect ε α) (a : α) : Prop := ∃ v, e.node.Gives v ∧ read v = a

theorem Gives.computes {e : Effect ε α} {a : α} (h : e.Gives a) : e.Computes a := by
  obtain ⟨v, hv, rfl⟩ := h
  intro o
  constructor
  · rintro ⟨exit, hexit, rfl⟩
    rw [hv.only hexit]
    rfl
  · rintro rfl
    exact ⟨_, hv.comes, rfl⟩

omit [Datum ε] in
theorem Plain.gives {e : Effect ε α} {a : α} : e.Plain a → e.Gives a
  | ⟨v, hv, hread⟩ => ⟨v, hv.gives, hread⟩

section Pairs

variable {a : Effect ε α} {b : Effect ε β} {f : α → β → γ} {u v : Value}

omit [Datum ε] [Datum α] in
theorem underway_of_runs {e : Effect ε α} {branches : List Node} {finish : List Value → Code}
    {run : Run} {w : World} {place : Place} {seen : List Sign} {t : Scene}
    (hnode : e.node = .parMap branches finish)
    (h : Runs (asked (Group.code branches finish run) w place) seen t) : e.Underway seen t := by
  have hstep : (Machine.focus e.node []).step ⟨fun _ => true, fun _ => false⟩ run =
      .call (Group.code branches finish run) (.node [] run) := by
    rw [hnode]
    rfl
  exact .asked hstep h

omit [Datum ε] in
theorem parMap₂_only (ha : a.node.Gives u) (hb : b.node.Gives v) {exit : Exit}
    (h : (parMap₂ a b f).node.ComesTo exit) : exit = .completed (write (f (read u) (read v))) := by
  change Node.ComesTo (.parMap [a.node, b.node] _) exit at h
  cases h with
  | computes h => exact absurd h (Node.not_yields_nil _ _ _)
  | @joins _ _ run w place seen t code exit exits h hanswer hexit hended hcomes =>
    have hunderway : (parMap₂ a b f).Underway seen t := underway_of_runs rfl h
    have hfirst := ha.only (hcomes 0 _ rfl)
    have hsecond := hb.only (hcomes 1 _ rfl)
    obtain ⟨all, hlength, hends, hanswers⟩ := hunderway.joined.answered code hanswer
    obtain ⟨first, second, rfl⟩ := List.length_eq_two.1 hlength
    have hsome : t.answer ≠ none := by simp [hanswer]
    -- A branch ends once, so that the group has joined the exits that the branches come to.
    have h0 := (course_of_answer hunderway.joined hsome rfl (hended 0 _ rfl)).2 _ (hends 0 first rfl)
    have h1 := (course_of_answer hunderway.joined hsome rfl (hended 1 _ rfl)).2 _ (hends 1 second rfl)
    obtain rfl := (Except.ok.inj h0).trans hfirst
    obtain rfl := (Except.ok.inj h1).trans hsecond
    obtain ⟨values, hvalues, hhands⟩ | ⟨i, exit', -, hi, hfails, -⟩ := hanswers
    · obtain rfl := hexit.unique hhands
      obtain ⟨u, v, rfl⟩ : ∃ u v, values = [u, v] :=
        List.length_eq_two.1 (by simpa using (congrArg List.length hvalues).symm)
      cases hvalues
      rfl
    · obtain rfl | rfl : exit' = .completed u ∨ exit' = .completed v := by
        simpa using List.mem_of_getElem? hi
      all_goals cases hfails

omit [Datum ε] in
theorem parMap₂_comes (ha : a.node.Gives u) (hb : b.node.Gives v) :
    (parMap₂ a b f).node.ComesTo (.completed (write (f (read u) (read v)))) := by
  obtain ⟨finish, hnode⟩ : ∃ finish, (parMap₂ a b f).node = .parMap [a.node, b.node] finish :=
    ⟨_, rfl⟩
  obtain ⟨t, hplays, hlength, hover⟩ := Duo.plays finish ha.plays hb.plays
  have hunderway := underway_of_runs hnode hplays
  obtain ⟨-, joined, hjoins, hanswer⟩ := hunderway.joined.comes
    (by simp [← List.length_pos_iff, hlength]) hlength hover fun i message h => by
      simp [computing] at h
  have hall := hplays.trans hjoins
  rw [List.append_nil] at hall
  obtain ⟨code, hcode⟩ := Option.ne_none_iff_exists'.1 hanswer
  obtain ⟨exit, hexit⟩ : ∃ exit, Gathering.Hands code exit := by
    obtain ⟨_, -, -, ⟨_, -, h⟩ | ⟨_, _, -, -, -, h⟩⟩ :=
      (underway_of_runs hnode hall).joined.answered code hcode <;> exact ⟨_, h⟩
  have hcomes : (parMap₂ a b f).node.ComesTo exit := by
    rw [hnode]
    refine .joins (fun i => if i = 0 then .completed u else .completed v) hall hcode
      hexit (fun i node hi => ?_) fun i node hi => ?_
    all_goals
      match i, hi with
      | 0, hi => ?_
      | 1, hi => ?_
    · simp [computing, Duo.placed, lane]
    · simp [computing, Duo.placed, lane]
    · obtain rfl := Option.some.inj hi
      exact ha.comes
    · obtain rfl := Option.some.inj hi
      exact hb.comes
  rwa [← parMap₂_only ha hb hcomes]

omit [Datum ε] in
theorem parMap₂_gives {x : α} {y : β} : a.Gives x → b.Gives y → (parMap₂ a b f).Gives (f x y) := by
  rintro ⟨u, ha, rfl⟩ ⟨v, hb, rfl⟩
  exact ⟨_, ⟨parMap₂_comes ha hb, parMap₂_only ha hb, .pair _ _ rfl⟩, read_write _⟩

end Pairs

end Effect
end Effects
