import Effects.Proofs.Balance.Worlds

/-!
What is seen of a connection while the threads of a world take their steps: the calls made on it,
and the tokens of it that begin to run. Calls may come from anywhere, tokens among them.
-/

namespace Effects

/-- A canceling thread has these tokens yet to run, with that many frames below them. -/
def Activity.Owes (depth : Nat) (tokens : List Code) (a : Activity) : Prop :=
  (∀ r, a.control ≠ .ended r) ∧ ∃ above failure next below,
    a.stack = above ++ .tokens tokens failure next :: below ∧ below.length = depth

/-- A token has come to its end, and another one follows. -/
def Activity.Passes (depth : Nat) (token : Code) (rest : List Code) (a : Activity) : Prop :=
  (∀ r, a.control ≠ .ended r) ∧ a.control.settles = true ∧ ∃ failure next below,
    a.stack = .tokens (token :: rest) failure next :: below ∧ below.length = depth

namespace Custody

inductive Sign where
  /-- A token is put on the stack. -/
  | pushed (token : Code)
  /-- It comes too late for that, and begins to run. -/
  | late (token : Code)
  | popped (token : Option Code)
  /-- The thread takes out these tokens, the first of which begins to run. -/
  | swapped (i : ThreadId) (depth : Nat) (tokens : List Code)
  /-- The thread goes on to the next of the tokens that it has taken out there, which begins. -/
  | next (i : ThreadId) (depth : Nat) (token : Code)
  | reactivated (was : Bool)
  | asked (canceled : Bool)

/-- The token that is pushed. -/
def Sign.brought : Sign → Option Code
  | .pushed token | .late token => some token
  | .popped _ | .swapped _ _ _ | .next _ _ _ | .reactivated _ | .asked _ => none

/-- The token that begins. -/
def Sign.begun : Sign → Option Code
  | .late token | .next _ _ token => some token
  | .swapped _ _ tokens => tokens.head?
  | .pushed _ | .popped _ | .reactivated _ | .asked _ => none

/-- What is seen of a call. -/
def heard (s : Connection Code) (i : ThreadId) (depth : Nat) : ConnectionOp Code → List Sign
  | .push token => [if (s.push token).2.isSome then .late token else .pushed token]
  | .pop | .popAndRun => [.popped s.pop.2]
  | .cancel => [.swapped i depth s.cancel.2]
  | .reactivate => [.reactivated s.reactivate.2]
  | .isCanceled => [.asked s.isCanceled]
  | .isUncancelable | .describe => []

def signs (c : ConnectionId) (w : World) (i : ThreadId) (a : Activity) : List Sign :=
  match a.control, a.stack with
  | .code (.perform (.connection d op) _), fs =>
      if d = c then heard (w.connection c) i fs.length op else []
  | .ended _, _ => []
  | control, .tokens (token :: _) _ _ :: fs =>
      if control.settles then [.next i fs.length token] else []
  | _, _ => []

end Custody

/-- What is seen of the next step of a thread. -/
def World.signs (c : ConnectionId) (w : World) (i : ThreadId) : List Custody.Sign :=
  (w.threads[i]?).elim [] fun thread => Custody.signs c w i thread.activity

/-- The thread has this code before it. -/
def World.Runs (v : World) (i : ThreadId) (x : Code) : Prop :=
  ∃ thread, v.threads[i]? = some thread ∧ thread.activity.control = .code x

/-- The threads of a world in any order, and what is seen of the connection meanwhile. -/
inductive Custody.Runs (c : ConnectionId) (w : World) : List Custody.Sign → World → Prop
  | start : Runs c w [] w
  | step {seen : List Custody.Sign} {v : World} (before : Runs c w seen v) (i : ThreadId) :
      Runs c w (seen ++ v.signs c i) (v.step i)
  | passing {seen : List Custody.Sign} {v : World} (before : Runs c w seen v) (nanos : Nat) :
      Runs c w seen { v with clock := v.clock + nanos }

variable {c : ConnectionId} {w : World} {here : Place} {a : Activity} {i j : ThreadId}
  {thread : Thread} {depth : Nat} {tokens rest : List Code} {token : Code}

namespace Activity

theorem op?_eq_some {op : Op} (h : a.op? = some op) :
    ∃ next, a.control = .code (.perform op next) := by
  obtain ⟨control, stack⟩ := a
  cases control with
  | code x =>
    cases x with
    | perform op' next =>
      obtain rfl := Option.some.inj h
      exact ⟨next, rfl⟩
    | _ => cases h
  | _ => cases h

theorem Passes.owes (h : a.Passes depth token rest) : a.Owes depth (token :: rest) := by
  obtain ⟨hended, -, failure, next, below, hstack, hdepth⟩ := h
  exact ⟨hended, [], failure, next, below, hstack, hdepth⟩

theorem Owes.lt_length (h : a.Owes depth tokens) : depth < a.stack.length := by
  obtain ⟨-, above, failure, next, below, hstack, rfl⟩ := h
  rw [hstack, List.length_append, List.length_cons]
  omega

theorem Owes.eq (h : a.Owes depth tokens) {tokens' : List Code} (h' : a.Owes depth tokens') :
    tokens = tokens' := by
  obtain ⟨-, above, failure, next, below, hstack, hdepth⟩ := h
  obtain ⟨-, above', failure', next', below', hstack', hdepth'⟩ := h'
  have hlength : (Frame.tokens tokens failure next :: below).length =
      (Frame.tokens tokens' failure' next' :: below').length := by
    rw [List.length_cons, List.length_cons, hdepth, hdepth']
  obtain ⟨-, hframes⟩ := List.append_inj' (hstack.symm.trans hstack') hlength
  exact (Frame.tokens.inj (List.cons.inj hframes).1).1

/-- The tokens that are to follow stay there until one has come to its end. -/
theorem Owes.act (h : a.Owes depth (token :: rest)) (w : World) (here : Place) :
    (w.act here a).2.Owes depth (token :: rest) ∨ a.Passes depth token rest := by
  obtain ⟨control, stack⟩ := a
  obtain ⟨hended, above, failure, next, below, rfl, hdepth⟩ := h
  by_cases hs : above ≠ [] ∨ control.settles = false
  · have hact := World.act_atop w here ⟨control, above⟩ (.tokens (token :: rest) failure next ::
      below) hs
    rw [atop] at hact
    refine .inl ⟨fun r => ?_, (w.act here ⟨control, above⟩).2.stack, failure, next, below, ?_,
      hdepth⟩
    · rw [hact]
      exact World.act_ne_ended w here hs r (hended r)
    · rw [hact]
      rfl
  · obtain ⟨habove, hsettles⟩ := not_or.1 hs
    obtain rfl := not_not.1 habove
    exact .inr ⟨hended, Bool.of_not_eq_false hsettles, failure, next, below, rfl, hdepth⟩

theorem Passes.depth_eq (h : a.Passes depth token rest) {depth' : Nat} {token' : Code}
    {rest' : List Code} (h' : a.Passes depth' token' rest') : depth = depth' := by
  obtain ⟨-, -, failure, next, below, hstack, rfl⟩ := h
  obtain ⟨-, -, failure', next', below', hstack', rfl⟩ := h'
  rw [(List.cons.inj (hstack.symm.trans hstack')).2]

theorem Passes.op?_ne (h : a.Passes depth token rest) (op : ConnectionOp Code) :
    a.op? ≠ some (.connection c op) := by
  intro hop
  obtain ⟨next, hcontrol⟩ := op?_eq_some hop
  obtain ⟨-, hsettles, -⟩ := h
  rw [hcontrol] at hsettles
  cases hsettles

theorem Passes.act (h : a.Passes depth token rest) (w : World) (here : Place) :
    ∃ failure next below, below.length = depth ∧
      w.act here a = (w, ⟨.code token, .tokens rest failure next :: below⟩) := by
  obtain ⟨control, stack⟩ := a
  obtain ⟨hended, hsettles, failure, next, below, rfl, hdepth⟩ := h
  cases control with
  | drive machine run => cases hsettles
  | ended r => exact absurd rfl (hended r)
  | unwinding message => exact ⟨failure.or (some message), next, below, hdepth, rfl⟩
  | code x =>
    cases x with
    | give | build | guard => exact ⟨failure, next, below, hdepth, rfl⟩
    | panic message => cases hsettles
    | perform op next => cases hsettles

end Activity

namespace World

theorem onContext_thread (h : w.threads[j]? = some thread) (home : Option ContextId)
    (d : ContextId) (op : ContextOp Code) :
    (w.onContext home d op).1.threads[j]? = some thread := by
  cases op with
  | execute task =>
    simp only [onContext, spawnThread]
    split
    · exact h
    · split
      · exact h
      · split
        · exact push_getElem? h
        · exact h
    · exact h
  | _ => exact h

theorem openContext_thread (h : w.threads[j]? = some thread) (name : String) (serial : Bool)
    (stackSize : Option Nat) :
    (w.openContext name serial stackSize).1.threads[j]? = some thread := by
  simp only [openContext]
  split
  · split
    · exact push_getElem? h
    · exact h
  · exact h

/-- An operation may start a thread; the others are as before. -/
theorem perform_thread (h : w.threads[j]? = some thread) (here : Place) (op : Op) :
    (w.perform here op).1.threads[j]? = some thread := by
  cases op with
  | connection d op =>
    obtain ⟨connections, hw⟩ := onConnection_shape w d op
    rwa [perform, hw]
  | await l =>
    simp only [perform]
    split <;> exact h
  | fiber f op => cases op <;> exact h
  | openContext name serial stackSize =>
    simp only [perform]
    split
    · exact h
    · exact openContext_thread h name serial stackSize
  | context d op => exact onContext_thread h here.home d op
  | fork body => exact push_getElem? h
  | slot s request phase =>
    obtain ⟨slots, latches, hw⟩ := onSlot_shape w s request phase
    rwa [perform, hw]
  | promise p request phase =>
    obtain ⟨promises, latches, hw⟩ := onPromise_shape w p request phase
    rwa [perform, hw]
  | factorBetween low high =>
    rw [perform_factorBetween]
    exact h
  | _ => exact h

theorem act_thread (h : w.threads[j]? = some thread) (here : Place) (a : Activity) :
    (w.act here a).1.threads[j]? = some thread := by
  rw [act_world]
  cases a.op? with
  | none => exact h
  | some op => exact perform_thread h here op

theorem step_self (h : w.threads[i]? = some thread)
    (hended : ∀ r, thread.activity.control ≠ .ended r) :
    (w.step i).threads[i]? =
      some { thread with activity := (w.act thread.place thread.activity).2 } := by
  rw [step_act h hended]
  exact setActivity_self (act_thread h _ _) _

theorem step_other (h : w.threads[j]? = some thread) (hij : i ≠ j) :
    (w.step i).threads[j]? = some thread := by
  generalize hu : w.step i = u
  cases steps_of_step hu with
  | stays => exact h
  | retires => rwa [retire_other hij]
  | skips _ htakes => rwa [htakes.kept.1]
  | begins _ htakes => rwa [setActivity_other hij, htakes.kept.1]
  | acts =>
    rw [setActivity_other hij]
    exact act_thread h _ _

end World

namespace Custody

theorem signs_passes (h : a.Passes depth token rest) :
    signs c w i a = [.next i depth token] := by
  obtain ⟨control, stack⟩ := a
  obtain ⟨hended, hsettles, failure, next, below, rfl, rfl⟩ := h
  cases control with
  | drive machine run => cases hsettles
  | ended r => exact absurd rfl (hended r)
  | unwinding message => rfl
  | code x =>
    cases x with
    | give | build | guard => rfl
    | panic message => cases hsettles
    | perform op next => cases hsettles

theorem signs_call {op : ConnectionOp Code} (h : a.op? = some (.connection c op)) :
    signs c w i a = heard (w.connection c) i a.stack.length op := by
  obtain ⟨control, stack⟩ := a
  obtain ⟨next, rfl⟩ := Activity.op?_eq_some h
  exact if_pos rfl

theorem signs_eq_nil (hcall : ∀ op, a.op? ≠ some (.connection c op))
    (hpasses : ∀ depth token rest, ¬ a.Passes depth token rest) : signs c w i a = [] := by
  obtain ⟨control, stack⟩ := a
  by_cases hended : ∃ r, control = .ended r
  · obtain ⟨r, rfl⟩ := hended
    rfl
  have hsettles : ∀ {token : Code} {rest : List Code} {failure : Option String}
      {next : Reply → Code} {below : List Frame}, stack = .tokens (token :: rest) failure next ::
        below → control.settles = false := by
    rintro token rest failure next below rfl
    refine Bool.of_not_eq_true fun hs => hpasses below.length token rest ?_
    exact ⟨fun r hr => hended ⟨r, hr⟩, hs, failure, next, below, rfl, rfl⟩
  unfold signs
  split
  · rename_i hcontrol
    exact if_neg fun hd => hcall _ (by rw [Activity.op?, hcontrol, hd])
  · rfl
  · rename_i hstack _ _
    exact if_neg (by simp [hsettles hstack])
  · rfl

end Custody
end Effects
