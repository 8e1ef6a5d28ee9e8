import Effects.Proofs.Run.Answers
import Effects.Proofs.Custody.Signs
import Mathlib.Logic.Function.Iterate
import Mathlib.Data.Finset.Card

/-!
A thread on its own, and the tokens that it runs for the connections it cancels: each of them is
noted when it has come to its end, with the panic that it ended in if there was one.
-/

namespace Effects

/-- The panic that ended the code. -/
def Control.failure : Control → Option String
  | .unwinding message => some message
  | _ => none

namespace Cascade

/-- A token of the connection has been run to its end. -/
structure Visit where
  owner : ConnectionId
  token : Code
  failure : Option String

structure Trail where
  world : World
  activity : Activity
  /-- Whose tokens are run at each depth of the stack, and which of them is. -/
  running : Nat → Option (ConnectionId × Code)
  visits : List Visit

/-- What is running after the next step, and which token has come to its end. -/
def noted (w : World) (running : Nat → Option (ConnectionId × Code)) :
    Activity → (Nat → Option (ConnectionId × Code)) × List Visit
  | ⟨.ended _, _⟩ => (running, [])
  | ⟨.code (.perform (.connection c .cancel) _), fs⟩ =>
      let first := (w.connection c).tokens.head?
      (Function.update running fs.length (first.map (c, ·)), [])
  | ⟨control, .tokens rest _ _ :: fs⟩ =>
      if control.settles then
        -- the tokens of a cancel that is not followed have no owner here
        let own := running fs.length
        (Function.update running fs.length (own.bind fun (c, _) => rest.head?.map (c, ·)),
          (own.map fun (c, x) => Visit.mk c x control.failure).toList)
      else (running, [])
  | _ => (running, [])

def Trail.step (here : Place) (s : Trail) : Trail where
  world := (s.world.act here s.activity).1
  activity := (s.world.act here s.activity).2
  running := (noted s.world s.running s.activity).1
  visits := s.visits ++ (noted s.world s.running s.activity).2

def Trail.start (w : World) (a : Activity) : Trail := ⟨w, a, fun _ => none, []⟩

def Leads (here : Place) (s t : Trail) : Prop := ∃ n, (Trail.step here)^[n] s = t

/-- The code comes to an answer without an operation on any of these connections. -/
inductive Quiet (here : Place) (these : Finset ConnectionId) :
    World → Activity → World → Except String Answer → Prop
  | answers (w : World) (res : Except String Answer) : Quiet here these w ⟨.answering res, []⟩ w res
  | step {w w' : World} {a : Activity} {res : Except String Answer}
      (hs : a.stack ≠ [] ∨ a.control.settles = false)
      (hop : ∀ c op, a.op? = some (.connection c op) → c ∉ these)
      (h : Quiet here these (w.act here a).1 (w.act here a).2 w' res) : Quiet here these w a w' res

/-- No token of these connections is run at this depth or above it. -/
def Clear (these : Finset ConnectionId) (depth : Nat)
    (running : Nat → Option (ConnectionId × Code)) : Prop :=
  ∀ k c x, depth ≤ k → running k = some (c, x) → c ∉ these

variable {here : Place} {these : Finset ConnectionId} {w w' : World} {a : Activity} {s t u : Trail}
  {c : ConnectionId} {running : Nat → Option (ConnectionId × Code)} {visits : List Visit}
  {fs : List Frame} {res : Except String Answer}

namespace Leads

theorem refl (s : Trail) : Leads here s s := ⟨0, rfl⟩

theorem trans (h : Leads here s t) (h' : Leads here t u) : Leads here s u := by
  obtain ⟨m, rfl⟩ := h
  obtain ⟨n, rfl⟩ := h'
  exact ⟨n + m, Function.iterate_add_apply _ n m s⟩

theorem step (h : s.step here = t) : Leads here s t := ⟨1, h⟩

end Leads

theorem Clear.mono {depth depth' : Nat} (h : Clear these depth running) (hd : depth ≤ depth') :
    Clear these depth' running :=
  fun k c x hk => h k c x (hd.trans hk)

theorem Clear.update_below {depth k : Nat} (h : Clear these depth running) (hk : k < depth)
    (own : Option (ConnectionId × Code)) : Clear these depth (Function.update running k own) :=
  fun k' c x hk' hx => h k' c x hk' (by rwa [Function.update_of_ne (hk.trans_le hk').ne'] at hx)

theorem Clear.update {depth : Nat} (h : Clear these depth running) (k : Nat)
    {own : Option (ConnectionId × Code)} (hown : ∀ c x, own = some (c, x) → c ∉ these) :
    Clear these depth (Function.update running k own) := by
  intro k' c x hk' hx
  by_cases hk : k' = k
  · subst hk
    exact hown c x (by simpa using hx)
  · exact h k' c x hk' (by simpa [Function.update_of_ne hk] using hx)

/-- Code that goes on above other frames notes nothing of them, and nothing of these connections if
it does not operate on them. -/
theorem noted_atop (hs : a.stack ≠ [] ∨ a.control.settles = false)
    (hop : ∀ c op, a.op? = some (.connection c op) → c ∉ these)
    (hclear : Clear these fs.length running) :
    (∀ k < fs.length, (noted w running (a.atop fs)).1 k = running k) ∧
      Clear these fs.length (noted w running (a.atop fs)).1 ∧
      ∀ v ∈ (noted w running (a.atop fs)).2, v.owner ∉ these := by
  obtain ⟨control, stack⟩ := a
  have hlength : fs.length ≤ (stack ++ fs).length := by simp
  have other : (∀ k < fs.length, running k = running k) ∧ Clear these fs.length running ∧
      ∀ v ∈ ([] : List Visit), v.owner ∉ these :=
    ⟨fun _ _ => rfl, hclear, fun _ h => absurd h List.not_mem_nil⟩
  generalize hb : Activity.atop ⟨control, stack⟩ fs = b
  fun_cases noted w running b with
  | case1 | case4 | case5 => exact other
  | case2 c next fs' first =>
    obtain ⟨rfl, rfl⟩ := Activity.mk.inj hb
    refine ⟨fun k hk => Function.update_of_ne (hk.trans_le hlength).ne _ _, hclear.update _ ?_,
      other.2.2⟩
    intro c' x hx
    obtain ⟨y, -, hy⟩ := Option.map_eq_some_iff.1 hx
    obtain ⟨rfl, -⟩ := Prod.mk.inj hy
    exact hop _ _ rfl
  | case3 control' rest failure next fs' hended hcancel hsettles own =>
    obtain ⟨rfl, hstack⟩ := Activity.mk.inj hb
    -- the frame belongs to the code, for what is handed down to the others is the answer
    have hne : stack ≠ [] := hs.resolve_right (by simpa using hsettles)
    obtain ⟨frame, stack, rfl⟩ := List.exists_cons_of_ne_nil hne
    obtain ⟨rfl, rfl⟩ := List.cons.inj hstack
    have hlength : fs.length ≤ (stack ++ fs).length := by simp
    refine ⟨fun k hk => Function.update_of_ne (hk.trans_le hlength).ne _ _, hclear.update _ ?_,
      fun v hv => ?_⟩
    · intro c x hx
      obtain ⟨⟨c', y⟩, hown, hx⟩ := Option.bind_eq_some_iff.1 hx
      obtain ⟨z, -, hz⟩ := Option.map_eq_some_iff.1 hx
      obtain ⟨rfl, -⟩ := Prod.mk.inj hz
      exact hclear _ _ _ hlength hown
    · obtain ⟨⟨c, x⟩, hown, rfl⟩ := Option.map_eq_some_iff.1 (Option.mem_toList.1 hv)
      exact hclear _ _ _ hlength hown

namespace Trail

theorem step_cancel {σ : Connection Code} (hσ : w.connections[c]? = some σ) (next : Reply → Code) :
    step here ⟨w, ⟨.code (.perform (.connection c .cancel) next), fs⟩, running, visits⟩ =
      ⟨w.setConnection c σ.cancel.1, .runTokens σ.tokens none next fs,
        Function.update running fs.length (σ.tokens.head?.map (c, ·)), visits⟩ := by
  simp [step, noted, World.act, World.perform, World.onConnection, World.connection, hσ,
    Activity.respond]

theorem step_answering (w : World) (res : Except String Answer) {x : Code} {rest : List Code}
    {failure : Option String} {next : Reply → Code} (hown : running fs.length = some (c, x)) :
    step here ⟨w, ⟨.answering res, .tokens rest failure next :: fs⟩, running, visits⟩ =
      ⟨w, .runTokens rest (failure.or (Control.answering res).failure) next fs,
        Function.update running fs.length (rest.head?.map (c, ·)),
        visits ++ [⟨c, x, (Control.answering res).failure⟩]⟩ := by
  rcases res with message | (r | n | x') <;>
    simp [step, noted, Control.answering, World.act, Activity.unwind, Activity.close,
      Activity.reply, Control.settles, Control.failure, hown]

end Trail

namespace Quiet

theorem connection {σ : Connection Code} (h : Quiet here these w a w' res) (hc : c ∈ these)
    (hσ : w.connections[c]? = some σ) : w'.connections[c]? = some σ := by
  induction h with
  | answers => exact hσ
  | @step w w' a res hs hop h ih =>
    exact ih (World.act_connection hσ here fun op ha op' h => hop c op' (h ▸ ha) hc)

/-- Above other frames it comes to the same answer. -/
theorem leads (h : Quiet here these w a w' res) (hclear : Clear these fs.length running)
    (visits : List Visit) :
    ∃ running' more, Leads here ⟨w, a.atop fs, running, visits⟩
        ⟨w', ⟨.answering res, fs⟩, running', visits ++ more⟩ ∧
      (∀ k < fs.length, running' k = running k) ∧ Clear these fs.length running' ∧
      ∀ v ∈ more, v.owner ∉ these := by
  induction h generalizing running visits with
  | answers w res =>
    refine ⟨running, [], ?_, fun _ _ => rfl, hclear, fun _ h => absurd h List.not_mem_nil⟩
    rw [List.append_nil]
    exact .refl _
  | @step w w' a res hs hop h ih =>
    obtain ⟨hunder, hclear', hmore⟩ := noted_atop (w := w) hs hop hclear
    obtain ⟨running', more, hleads, hunder', hclear', hmore'⟩ := ih hclear' (visits ++ _)
    have hstep : Trail.step here ⟨w, a.atop fs, running, visits⟩ =
        ⟨(w.act here a).1, (w.act here a).2.atop fs, (noted w running (a.atop fs)).1,
          visits ++ (noted w running (a.atop fs)).2⟩ := by
      rw [Trail.step, World.act_atop w here a fs hs]
    refine ⟨running', _, (Leads.step hstep).trans (List.append_assoc visits _ _ ▸ hleads),
      fun k hk => (hunder' k hk).trans (hunder k hk), hclear',
      fun v hv => (List.mem_append.1 hv).elim (hmore v) (hmore' v)⟩

end Quiet
end Cascade
end Effects
