import Effects.Proofs.Suspend.Waiter

/-!
The steps of the threads that cancel the connection.
-/

namespace Effects.Suspension

open Routine

variable {c : ConnectionId} {l : LatchId} {w : World} {here : Place} {s s' : Connection Code}
  {a : Activity}

/-- The frame of a cancellation whose tokens run one after the other. -/
abbrev rest (tokens : List Code) (failure : Option String) : Frame :=
  .tokens tokens failure fun _ => .give .unit

/-- Where a thread is that has been told to cancel the connection, and `s` is the connection's state
now. -/
inductive Canceling (c : ConnectionId) (s : Connection Code) : Activity → Prop
  | start : Canceling c s ⟨.code (task c.cancel), []⟩
  | running (b : Activity) (tokens : List Code) (failure : Option String) (hs : s = .canceled)
      (hb : ∀ r, b.control ≠ .ended r) : Canceling c s (b.atop [rest tokens failure])
  | done : Canceling c s ⟨.code (.give .unit), []⟩
  | unwinding (message : String) : Canceling c s ⟨.unwinding message, []⟩
  | ended (r : Except String Reply) : Canceling c s ⟨.ended r, []⟩

theorem Canceling.mono (h : Canceling c s a) (hs : s = .canceled → s' = .canceled) :
    Canceling c s' a := by
  cases h with
  | start => exact .start
  | running b tokens failure hc hb => exact .running b tokens failure (hs hc) hb
  | done => exact .done
  | unwinding message => exact .unwinding message
  | ended r => exact .ended r

/-- The tokens that a canceler has yet to run. -/
def remaining (a : Activity) : List Code :=
  match a.stack.getLast? with
  | some (.tokens tokens _ _) => tokens
  | _ => []

@[simp] theorem remaining_nil (control : Control) : remaining ⟨control, []⟩ = [] := rfl

@[simp] theorem remaining_running (b : Activity) (tokens : List Code) (failure : Option String) :
    remaining (b.atop [rest tokens failure]) = tokens := by
  simp [remaining, Activity.atop]

/-- The canceler runs a token that wakes the callback in the end. -/
def Owes (l : LatchId) (a : Activity) : Prop :=
  ∃ b tokens failure, Owing l b ∧ a = b.atop [rest tokens failure]

theorem runTokens_canceling (tokens : List Code) (failure : Option String)
    (hs : tokens ≠ [] → s = .canceled) :
    Canceling c s (Activity.runTokens tokens failure (fun _ => .give .unit) []) ∧
      tokens.take 1 ++ remaining (Activity.runTokens tokens failure (fun _ => .give .unit) []) =
        tokens := by
  cases tokens with
  | nil =>
    cases failure with
    | none => exact ⟨.done, rfl⟩
    | some message => exact ⟨.unwinding message, rfl⟩
  | cons token tokens =>
    exact ⟨.running ⟨.code token, []⟩ tokens failure (hs (List.cons_ne_nil _ _)) (by simp), rfl⟩

theorem started_running {b : Activity} {tokens : List Code} {failure : Option String}
    (hb : b.stack ≠ [] ∨ b.control.settles = false) :
    started w c (b.atop [rest tokens failure]) =
      ((b.atop [rest tokens failure]).op?.map (handed w c)).getD [] := by
  obtain ⟨control, stack⟩ := b
  cases stack with
  | nil =>
    cases control with
    | code x => cases x <;> first | rfl | simp [Control.settles] at hb
    | drive => rfl
    | unwinding | ended => simp [Control.settles] at hb
  | cons frame stack =>
    have hne : stack ++ [rest tokens failure] ≠ [] := by simp
    cases hstack : stack ++ [rest tokens failure] with
    | nil => exact absurd hstack hne
    | cons frame' stack' =>
      cases control with
      | code x => cases x <;> simp [started, Activity.atop, Activity.op?, hstack]
      | _ => simp [started, Activity.atop, Activity.op?, hstack]

/-- What a canceler's step comes to. -/
structure Cancels (c : ConnectionId) (l : LatchId) (s s' : Connection Code) (w : World)
    (seen : List Sign) (a : Activity) (next : World × Activity) : Prop where
  connection : next.1.connections[c]? = some s'
  spared : Spared l s s' w next.1 seen (shown w c l a (started w c a))
  canceling : Canceling c s' next.2
  tokens : (started w c a ++ remaining next.2 ++ s'.tokens).Subperm (remaining a ++ s.tokens)
  /-- The callback is woken by the one who owes it. -/
  owes : Owes l a → w.latches[l]? = some (.holding (first seen)) →
    (first (seen ++ shown w c l a (started w c a))).isSome ∨ Owes l next.2
  /-- Who takes out a token that wakes the callback owes it from then on. -/
  takes : ∀ token tokens, token.Wakes l → s = .active (token :: tokens) → s' = .canceled →
    Owes l next.2

theorem not_owes_nil (control : Control) : ¬ Owes l ⟨control, []⟩ := by
  rintro ⟨b, tokens, failure, -, h⟩
  simp [Activity.atop] at h

theorem start_step (hc : w.connections[c]? = some s) (seen : List Sign) :
    Cancels c l s s.cancel.1 w seen ⟨.code (task c.cancel), []⟩
      (w.act here ⟨.code (task c.cancel), []⟩) := by
  have hop : (⟨.code (task c.cancel), []⟩ : Activity).op? = some (.connection c .cancel) := rfl
  have hstarted : started w c ⟨.code (task c.cancel), []⟩ = s.tokens.take 1 := by
    show (handed w c (.connection c .cancel)).take 1 = _
    simp [handed, World.connection, hc]
  have hact : w.act here ⟨.code (task c.cancel), []⟩ = (w.setConnection c s.cancel.1,
      Activity.runTokens s.tokens none (fun _ => .give .unit) []) := by
    show ((w.onConnection c .cancel).1, Activity.respond _ [] (w.onConnection c .cancel).2) = _
    simp only [World.onConnection, hc, Option.getD_some, Connection.cancel_snd]
    rfl
  have hspares : Spares c l (.connection c .cancel) := fun _ => trivial
  have hcanceled : s.tokens ≠ [] → s.cancel.1 = .canceled := by
    cases s <;> simp [Connection.tokens, Connection.cancel]
  obtain ⟨hcanceling, htokens⟩ := runTokens_canceling (c := c) s.tokens none hcanceled
  have hspared : Spared l s s.cancel.1 w (w.perform here (.connection c .cancel)).1 seen
      (signs w c l (.connection c .cancel) ++ (s.tokens.take 1).map .started) :=
    spared_perform hspares (.inr rfl) seen _
  have hw : (w.perform here (.connection c .cancel)).1 = w.setConnection c s.cancel.1 :=
    congrArg Prod.fst hact
  constructor
  · rw [hact]
    exact World.setConnection_getElem? hc _
  · rw [shown, hop, hstarted, hact]
    rw [hw] at hspared
    exact hspared
  · rw [hact]
    exact hcanceling
  · rw [hact, hstarted, htokens, Connection.tokens_cancel, List.append_nil]
    exact .refl _
  · exact fun h => absurd h (not_owes_nil _)
  · rintro token tokens ht rfl -
    rw [hact]
    exact ⟨⟨.code token, []⟩, tokens, none, .token ht, rfl⟩

/-- A step inside a token. -/
theorem running_step (hc : w.connections[c]? = some .canceled) {b : Activity} {tokens : List Code}
    {failure : Option String} (hb : ∀ r, b.control ≠ .ended r)
    (hs : b.stack ≠ [] ∨ b.control.settles = false)
    (hspares : ∀ op, (b.atop [rest tokens failure]).op? = some op → Spares c l op)
    (hreturns : (w.act here (b.atop [rest tokens failure])).2.Returns l) (seen : List Sign) :
    Cancels c l .canceled .canceled w seen (b.atop [rest tokens failure])
      (w.act here (b.atop [rest tokens failure])) := by
  have hact := World.act_atop w here b [rest tokens failure] hs
  obtain ⟨s', hc', hsp, ht⟩ := act_spared here hc hspares seen
    (started w c (b.atop [rest tokens failure]))
  obtain rfl : s' = .canceled := hsp.canceled rfl
  have hstarted : started w c (b.atop [rest tokens failure]) = [] := by
    rw [started_running hs]
    obtain ⟨-, ht⟩ | ⟨-, ht⟩ := ht <;> exact ht
  refine ⟨hc', hsp, ?_, ?_, ?_, fun _ _ _ h => nomatch h⟩
  · rw [hact]
    exact .running _ tokens failure rfl fun r => World.act_ne_ended w here hs r (hb r)
  · rw [hact, hstarted, remaining_running, remaining_running]
    exact .refl _
  · rintro ⟨b', tokens', failure', hb', hstack⟩ hl
    obtain ⟨rfl, rfl, rfl⟩ : b' = b ∧ tokens' = tokens ∧ failure' = failure := by
      obtain ⟨control, stack⟩ := b
      obtain ⟨control', stack'⟩ := b'
      simp [Activity.atop] at hstack
      simp [hstack]
    rw [hact] at hreturns ⊢
    obtain hb' | ⟨rfl, -⟩ := hb'.act hreturns.of_atop
    · exact .inr ⟨_, _, _, hb', rfl⟩
    · exact .inl (first_of_interrupt hl seen _ _)

/-- A token has ended, and the next one begins. -/
theorem next_step (hc : w.connections[c]? = some .canceled) (res : Except String Answer)
    (tokens : List Code) (failure : Option String) (seen : List Sign) :
    Cancels c l .canceled .canceled w seen ⟨.answering res, [rest tokens failure]⟩
      (w.act here ⟨.answering res, [rest tokens failure]⟩) := by
  have hop : (⟨.answering res, [rest tokens failure]⟩ : Activity).op? = none := by
    rcases res with message | (r | n | t) <;> rfl
  have hstarted : started w c ⟨.answering res, [rest tokens failure]⟩ = tokens.take 1 := by
    rcases res with message | (r | n | t) <;> rfl
  obtain ⟨failure', hact⟩ : ∃ failure', w.act here ⟨.answering res, [rest tokens failure]⟩ =
      (w, Activity.runTokens tokens failure' (fun _ => .give .unit) []) := by
    rcases res with message | (r | n | t) <;> exact ⟨_, rfl⟩
  obtain ⟨hcanceling, htokens⟩ :=
    runTokens_canceling (c := c) (s := .canceled) tokens failure' fun _ => rfl
  obtain ⟨s', hc', hsp, -⟩ := act_spared here hc (a := ⟨.answering res, [rest tokens failure]⟩)
    (by simp [hop]) seen (tokens.take 1)
  obtain rfl : s' = .canceled := hsp.canceled rfl
  refine ⟨hc', hstarted ▸ hsp, ?_, ?_, ?_, fun _ _ _ h => nomatch h⟩
  · rw [hact]
    exact hcanceling
  · rw [hact, hstarted, htokens]
    exact .refl _
  · rintro ⟨b, tokens', failure', hb, hstack⟩ -
    have hsettles := hb.unsettled
    obtain ⟨control, stack⟩ := b
    obtain ⟨hcontrol, hstack⟩ := Activity.mk.inj hstack
    obtain rfl : stack = [] := by
      have := congrArg List.length hstack
      simpa using this
    subst hcontrol
    simp [Control.settles_answering] at hsettles

/-- A step after the last token. -/
theorem idle_step (hc : w.connections[c]? = some s) {control control' : Control}
    (hact : w.act here ⟨control, []⟩ = (w, ⟨control', []⟩))
    (hop : (⟨control, []⟩ : Activity).op? = none) (hs : started w c ⟨control, []⟩ = [])
    (h : Canceling c s ⟨control', []⟩) (seen : List Sign) :
    Cancels c l s s w seen ⟨control, []⟩ (w.act here ⟨control, []⟩) := by
  obtain ⟨s', hc', hsp, -⟩ := act_spared here hc (a := ⟨control, []⟩) (by simp [hop]) seen []
  obtain rfl : s = s' := by
    rw [hact] at hc'
    exact Option.some.inj (hc.symm.trans hc')
  refine ⟨hc', hs.symm ▸ hsp, ?_, ?_, fun ho => absurd ho (not_owes_nil _), ?_⟩
  · rw [hact]
    exact h
  · rw [hact, hs]
    exact .refl _
  · rintro token tokens - rfl hcanceled
    cases hcanceled

theorem canceler_step (h : Canceling c s a) (hc : w.connections[c]? = some s)
    (hspares : ∀ op, a.op? = some op → Spares c l op) (hreturns : (w.act here a).2.Returns l)
    (seen : List Sign) : ∃ s', Cancels c l s s' w seen a (w.act here a) := by
  cases h with
  | start => exact ⟨_, start_step hc seen⟩
  | running b tokens failure hs hb =>
    subst hs
    obtain ⟨res, rfl⟩ | ⟨r, rfl⟩ | hunsettled := b.settled_or
    · exact ⟨_, next_step hc res tokens failure seen⟩
    · exact absurd rfl (hb r)
    · exact ⟨_, running_step hc hb hunsettled hspares hreturns seen⟩
  | done => exact ⟨s, idle_step hc rfl rfl rfl (.ended _) seen⟩
  | unwinding message => exact ⟨s, idle_step hc rfl rfl rfl (.ended _) seen⟩
  | ended r => exact ⟨s, idle_step hc rfl rfl rfl (.ended r) seen⟩

end Effects.Suspension
