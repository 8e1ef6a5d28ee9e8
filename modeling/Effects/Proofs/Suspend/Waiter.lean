import Mathlib.Data.List.Perm.Subperm
import Effects.Proofs.Run.Answers
import Effects.Proofs.Suspend.Stage

/-!
The steps of the waiting thread.
-/

namespace Effects.Suspension

variable {register : LatchId → Code} {c : ConnectionId} {l : LatchId} {w : World} {here : Place}
  {s s' s₀ : Connection Code} {seen more : List Sign} {a : Activity} {owed : Prop}

/-- What may be seen of a step, where `held` and `held'` have yet to run, before and after: a token
runs that has been held or pushed, the wait is over with the first delivery, and taken out is the
token that the wait has put on, or none. -/
structure Legal (s₀ : Connection Code) (held held' : List Code) (seen more : List Sign) : Prop where
  tokens : (starts more ++ held').Subperm (pushes more ++ held)
  woken : ∀ r, .woken r ∈ more → first seen = some r
  popped : ∀ before after, .popped before after ∈ more → after = before ∨
    ∃ token ∈ pushes seen, before = .active (token :: s₀.tokens) ∧ after = .active s₀.tokens

theorem Legal.quiet (s₀ : Connection Code) (held : List Code) (seen : List Sign) :
    Legal s₀ held held seen [] :=
  ⟨.refl _, by simp, by simp⟩

theorem Foreign.legal {held held' : List Code} (h : Foreign more)
    (ht : (starts more ++ held').Subperm held) : Legal s₀ held held' seen more where
  tokens := by
    rw [h.pushes]
    exact ht
  woken r hr := by
    obtain ⟨r', hr'⟩ | ⟨token, ht⟩ := h _ hr
    · cases hr'
    · cases ht
  popped before after hp := by
    obtain ⟨r, hr⟩ | ⟨token, ht⟩ := h _ hp
    · cases hr
    · cases ht

theorem starts_started (tokens : List Code) : starts (tokens.map Sign.started) = tokens := by
  simp only [starts, List.filterMap_map]
  exact List.filterMap_some

theorem starts_shown {a : Activity} (h : ∀ op, a.op? = some op → Spares c l op)
    (tokens : List Code) : starts (shown w c l a tokens) = tokens := by
  have hs : starts ((a.op?.map (signs w c l)).getD []) = [] := by
    cases ho : a.op? with
    | none => rfl
    | some op =>
      simp only [Option.map_some, Option.getD_some, signs_of_spares (h op ho)]
      split
      · cases w.delivered? l op <;> rfl
      · rfl
  rw [shown, starts_append, hs, starts_started, List.nil_append]

/-- What has been seen of the waiting thread's step, and how far it has come now. -/
def Advances (register : LatchId → Code) (c : ConnectionId) (l : LatchId) (s₀ s : Connection Code)
    (owed : Prop) (seen more : List Sign) (next : World × Activity) : Prop :=
  ∃ (s' : Connection Code) (phase : Phase), next.1.connections[c]? = some s' ∧
    phase.At register c l next.2 ∧ phase.Facts l s₀ s' next.1 owed (seen ++ more) ∧
    (s = .canceled → s' = .canceled) ∧ Legal s₀ s.tokens s'.tokens seen more

/-- What can be seen of the waiting thread. -/
abbrev view (w : World) (c : ConnectionId) (l : LatchId) (a : Activity) : List Sign :=
  shown w c l a ((a.op?.map (handed w c)).getD [])

theorem view_of_op (op : Op) (h : a.op? = some op) :
    view w c l a = signs w c l op ++ (handed w c op).map .started := by
  simp [view, shown, h]

theorem view_of_none (h : a.op? = none) : view w c l a = [] := by
  simp [view, shown, h]

/-- A step that is none of the wait's own. -/
theorem spared_step (here : Place) (s₀ : Connection Code) (seen : List Sign)
    (hc : w.connections[c]? = some s) (h : ∀ op, a.op? = some op → Spares c l op) :
    ∃ s', (w.act here a).1.connections[c]? = some s' ∧
      Spared l s s' w (w.act here a).1 seen (view w c l a) ∧
      Legal s₀ s.tokens s'.tokens seen (view w c l a) := by
  obtain ⟨s', hc', hsp, ht⟩ :=
    act_spared here hc h seen ((a.op?.map (handed w c)).getD [])
  refine ⟨s', hc', hsp, hsp.foreign.legal ?_⟩
  rw [starts_shown h]
  obtain ⟨rfl, ht⟩ | ⟨rfl, ht⟩ := ht
  · rw [ht]
    exact .refl _
  · rw [ht, Connection.tokens_cancel, List.append_nil]

/-- Nothing has happened that anybody could see. -/
theorem Advances.unseen (phase : Phase) {next : World × Activity} (hw : next.1 = w)
    (hc : w.connections[c]? = some s) (hview : more = []) (hat : phase.At register c l next.2)
    (hf : phase.Facts l s₀ s w owed seen) : Advances register c l s₀ s owed seen more next := by
  subst hw hview
  exact ⟨s, phase, hc, hat, (List.append_nil seen).symm ▸ hf, id, .quiet s₀ _ seen⟩

theorem asking_act (w : World) (here : Place) :
    w.act here ⟨.code (asking register c), []⟩ =
      (w, ⟨.code (if (w.connection c).isCanceled then .give (.outcome .canceled)
        else opening register c), []⟩) := by
  rw [asking_eq]
  rfl

theorem asking_step (hc : w.connections[c]? = some s)
    (hf : Phase.before.Facts l s₀ s w owed seen) :
    Advances register c l s₀ s owed seen (view w c l ⟨.code (asking register c), []⟩)
      (w.act here ⟨.code (asking register c), []⟩) := by
  have hspares : ∀ op, (⟨.code (asking register c), []⟩ : Activity).op? = some op →
      Spares c l op := by
    intro op hop
    rw [asking_eq] at hop
    cases hop
    exact fun _ => trivial
  obtain ⟨s', hc', hsp, hlegal⟩ := spared_step here s₀ seen hc hspares
  have hf' := hsp.facts (fun _ => .inr) hf (by simp)
  rw [asking_act] at hc' hf' ⊢
  cases hcanceled : (w.connection c).isCanceled with
  | true =>
    rw [World.connection, hc] at hcanceled
    have hs' : s' = .canceled := hsp.canceled (by cases s <;> first | rfl | cases hcanceled)
    refine ⟨s', .finished (some .canceled), hc', rfl, ⟨?_, .inl ⟨rfl, hs', hf'.2.2⟩⟩,
      hsp.canceled, hlegal⟩
    rw [hf'.2.2]
    exact Nat.zero_le 1
  | false => exact ⟨s', .before, hc', .inr rfl, hf', hsp.canceled, hlegal⟩

theorem opening_step (hg : ∀ l, (register l).Guards l) (hc : w.connections[c]? = some s)
    (hf : Phase.before.Facts l s₀ s w owed seen) (hfresh : w.latches.size = l) :
    Advances register c l s₀ s owed seen (view w c l ⟨.code (opening register c), []⟩)
      (w.act here ⟨.code (opening register c), []⟩) := by
  subst hfresh
  obtain ⟨hs, hfirst, hp⟩ := hf
  have hnone : first seen = none := hfirst.resolve_right (Nat.lt_irrefl _)
  have hview : view w c w.latches.size ⟨.code (opening register c), []⟩ = [] := by
    rw [view_of_op .openLatch rfl]
    simp [signs, handed]
  rw [hview]
  refine ⟨s, .registering, hc, ⟨_, .code (hg _), .code _⟩, ?_, id, .quiet s₀ _ seen⟩
  refine ⟨hs, ?_, by simpa using hp⟩
  rw [List.append_nil, hnone]
  exact Array.getElem?_push_size

theorem pushing_act (hc : w.connections[c]? = some s) (token : Code) :
    w.act here ⟨.code (pushing c l token), []⟩ =
      (w.setConnection c (s.push token).1,
        (s.push token).2.elim ⟨.code (waiting c l), []⟩
          fun late => ⟨.code late, [.call fun _ => waiting c l]⟩) := by
  show ((w.onConnection c (.push token)).1,
    Activity.respond (fun _ => waiting c l) [] (w.onConnection c (.push token)).2) = _
  simp only [World.onConnection, hc, Option.getD_some]
  split <;> rename_i hp <;> rw [hp] <;> rfl

theorem pushing_step {token : Code} (ht : token.Wakes l) (hc : w.connections[c]? = some s)
    (hf : Phase.registering.Facts l s₀ s w owed seen) :
    Advances register c l s₀ s owed seen (view w c l ⟨.code (pushing c l token), []⟩)
      (w.act here ⟨.code (pushing c l token), []⟩) := by
  obtain ⟨hs, hl, hp⟩ := hf
  have hview : view w c l ⟨.code (pushing c l token), []⟩ =
      [.pushed token] ++ (s.push token).2.toList.map .started := by
    rw [view_of_op (.connection c (.push token)) rfl]
    simp [signs, handed, World.connection, hc]
  have hfirst : first (seen ++ ([.pushed token] ++ (s.push token).2.toList.map .started)) =
      first seen := by
    rw [← List.append_assoc, first_started, first_append]
    exact Option.or_none
  have hpushed : pushes ([.pushed token] ++ (s.push token).2.toList.map .started) = [token] := by
    rw [pushes_append, (foreign_started _).pushes]
    rfl
  have hpushes : pushes (seen ++ ([.pushed token] ++ (s.push token).2.toList.map .started)) =
      [token] := by
    rw [pushes_append, hp, hpushed]
    rfl
  have hstarts : starts ([.pushed token] ++ (s.push token).2.toList.map .started) =
      (s.push token).2.toList := by
    rw [starts_append, starts_started]
    rfl
  have hlegal : ∀ s', (s' = (s.push token).1) → Legal s₀ s.tokens s'.tokens seen
      ([.pushed token] ++ (s.push token).2.toList.map .started) := by
    rintro s' rfl
    refine ⟨?_, by simp, by simp⟩
    rw [hstarts, hpushed]
    cases s with
    | uncancelable => exact List.nil_subperm
    | active | canceled => exact .refl _
  have hl' : ∀ s', (w.setConnection c s').latches[l]? = some (.holding (first seen)) := fun _ => hl
  rw [hview, pushing_act hc]
  refine ⟨(s.push token).1, ?_⟩
  cases s with
  | uncancelable =>
    refine ⟨.waiting token, World.setConnection_getElem? hc _, rfl, ?_, by simp, hlegal _ rfl⟩
    have hs₀ : s₀ = .uncancelable := (hs.resolve_left (by simp)).symm
    exact ⟨.inr (by rw [hs₀]; rfl), ht, by simp [Connection.push], hfirst ▸ hl' _, hpushes⟩
  | active rest =>
    refine ⟨.waiting token, World.setConnection_getElem? hc _, rfl, ?_, by simp, hlegal _ rfl⟩
    have hs₀ : s₀ = .active rest := (hs.resolve_left (by simp)).symm
    exact ⟨.inr (by rw [hs₀]; rfl), ht, by simp [Connection.push], hfirst ▸ hl' _, hpushes⟩
  | canceled =>
    refine ⟨.late token, World.setConnection_getElem? hc _, ?_, ?_, id, hlegal _ rfl⟩
    · exact ⟨⟨.code token, []⟩, .token ht, rfl⟩
    · exact ⟨rfl, ht, hfirst ▸ hl' _, hpushes⟩

/-- The registration is over, or goes on with nothing that is the wait's own. -/
theorem Phase.At.of_registering (hat : Phase.registering.At register c l a) :
    (∃ message, a = ⟨.unwinding message, []⟩) ∨
      (∃ token : Code, token.Wakes l ∧ a = ⟨.code (pushing c l token), []⟩) ∨
      ∃ b : Activity, Ahead (Code.Guards l) b ∧ Followed (after c l) b a ∧
        (b.stack ≠ [] ∨ b.control.settles = false) := by
  obtain ⟨b, hb, hfollowed⟩ := hat
  obtain ⟨res, rfl⟩ | ⟨r, rfl⟩ | hs := b.settled_or
  · obtain rfl := hfollowed.of_answering
    rcases res with message | answer
    · exact .inl ⟨message, rfl⟩
    · have hguards : ∀ x, Control.answering (.ok answer) = .code x → x.Guards l := by
        intro x hx
        rw [hx] at hb
        exact hb.of_code
      rcases answer with r | n | t
      · cases hguards _ rfl
      · cases hguards _ rfl
      · cases hguards _ rfl with
        | guard ht => exact .inr (.inl ⟨_, ht, rfl⟩)
  · exact absurd rfl hb.stack_ne_nil
  · exact .inr (.inr ⟨b, hb, hfollowed, hs⟩)

theorem registering_step (hs : a.stack ≠ [] ∨ a.control.settles = false)
    (hc : w.connections[c]? = some s)
    (hat : Phase.registering.At register c l a) (hf : Phase.registering.Facts l s₀ s w owed seen)
    (hown : ∀ op, a.op? = some op → Spares c l op ∨ Own c l a) :
    Advances register c l s₀ s owed seen (view w c l a) (w.act here a) := by
  obtain ⟨message, rfl⟩ | ⟨token, ht, rfl⟩ | ⟨b, hb, hfollowed, hb'⟩ := hat.of_registering
  · exact absurd hs (by simp [Control.settles])
  · exact pushing_step ht hc hf
  · have hspares : ∀ op, a.op? = some op → Spares c l op :=
      fun op hop => (hown op hop).resolve_right (not_own hfollowed hb')
    obtain ⟨s', hc', hsp, hlegal⟩ := spared_step here s₀ seen hc hspares
    obtain ⟨-, hfollowed'⟩ := hfollowed.act w here hb'
    exact ⟨s', .registering, hc', ⟨_, hb.act (Code.guards_stable l) w here hb', hfollowed'⟩,
      hsp.facts (fun _ => .inr) hf (by simp), hsp.canceled, hlegal⟩

/-- The callback is being called back as canceled. -/
theorem first_of_interrupt {latch : Latch (Except String Reply)} (hl : w.latches[l]? = some latch)
    (seen : List Sign) (below : List Frame) (tokens : List Code) :
    (first (seen ++ shown w c l ⟨.code (Routine.task l.interrupt), below⟩ tokens)).isSome := by
  have hop : (⟨.code (Routine.task l.interrupt), below⟩ : Activity).op? =
      some (.settle l (.ok (.outcome .canceled))) := rfl
  rw [shown, hop, ← List.append_assoc, first_started, first_append]
  simp [signs, hl, World.delivered?, first]

theorem late_step {token : Code} (hc : w.connections[c]? = some s)
    (hat : (Phase.late token).At register c l a) (hf : (Phase.late token).Facts l s₀ s w owed seen)
    (hown : ∀ op, a.op? = some op → Spares c l op ∨ Own c l a)
    (hreturns : (w.act here a).2.Returns l) :
    Advances register c l s₀ s owed seen (view w c l a) (w.act here a) := by
  obtain ⟨b, hb, rfl⟩ := hat
  have hnot : ¬ Own c l (b.atop [.call fun _ => waiting c l]) := by
    rintro (⟨token, h⟩ | h | ⟨exit, h⟩) <;> simp [Activity.atop] at h
  have hspares := fun op hop => (hown op hop).resolve_right hnot
  obtain ⟨s', hc', hsp, hlegal⟩ := spared_step here s₀ seen hc hspares
  have hf' := hsp.facts (fun _ => .inr) hf (by simp)
  have hact := World.act_atop w here b [.call fun _ => waiting c l] hb.unsettled
  refine ⟨s', ?_⟩
  rw [hact] at hreturns hc' hf' ⊢
  obtain hb' | ⟨rfl, hb'⟩ := hb.act hreturns.of_atop
  · exact ⟨.late token, hc', ⟨_, hb', rfl⟩, hf', hsp.canceled, hlegal⟩
  · obtain ⟨hs, ht, hl, hp⟩ := hf'
    refine ⟨.roused token, hc', ?_, ⟨hs, ht, ?_, hl, hp⟩, hsp.canceled, hlegal⟩
    · rw [hb']
      rfl
    · exact first_of_interrupt hf.2.2.1 seen _ _

theorem roused_step {token : Code} (hc : w.connections[c]? = some s)
    (hat : (Phase.roused token).At register c l a)
    (hf : (Phase.roused token).Facts l s₀ s w owed seen) :
    Advances register c l s₀ s owed seen (view w c l a) (w.act here a) := by
  obtain rfl := hat
  obtain ⟨hs, ht, hr, hl, hp⟩ := hf
  exact .unseen (.waiting token) rfl hc (view_of_none rfl) rfl
    ⟨.inl hs, ht, fun _ => .inl hr, hl, hp⟩

/-- Where a wait goes on that has come to a delivery. -/
def woken (c : ConnectionId) : Except String Reply → Code
  | .ok reply => leaving c reply.toExit
  | .error message => .panic message

theorem waiting_act (hl : w.latches[l]? = some (.holding none)) :
    w.act here ⟨.code (waiting c l), []⟩ = (w, ⟨.code (waiting c l), []⟩) := by
  show ((w.perform here (.await l)).1, Activity.respond _ [] (w.perform here (.await l)).2) = _
  simp only [World.perform, hl, Option.bind_some, Latch.holding, Latch.item?]
  rfl

theorem waiting_step {token : Code} (hc : w.connections[c]? = some s)
    (hat : (Phase.waiting token).At register c l a)
    (hf : (Phase.waiting token).Facts l s₀ s w owed seen) :
    Advances register c l s₀ s owed seen (view w c l a) (w.act here a) := by
  obtain rfl := hat
  have hop : (⟨.code (waiting c l), []⟩ : Activity).op? = some (.await l) := rfl
  obtain ⟨hs, ht, hw, hl, hp⟩ := hf
  cases hfirst : first seen with
  | none =>
    rw [hfirst] at hl
    refine .unseen (.waiting token) ?_ hc ?_ ?_ ⟨hs, ht, hw, hfirst ▸ hl, hp⟩
    · rw [waiting_act hl]
    · simp [view_of_op _ hop, signs, handed, hl, Latch.holding, Latch.item?]
    · rw [waiting_act hl]
      rfl
  | some r =>
    rw [hfirst] at hl
    have hview : view w c l ⟨.code (waiting c l), []⟩ = [.woken r] := by
      simp [view_of_op _ hop, signs, handed, hl, Latch.holding, Latch.item?]
    have hact : w.act here ⟨.code (waiting c l), []⟩ = (w.setLatch l .drained,
        ⟨.code (woken c r), []⟩) := by
      show ((w.perform here (.await l)).1,
        Activity.respond _ [] (w.perform here (.await l)).2) = _
      simp only [World.perform, hl, Option.bind_some, Latch.holding, Latch.item?]
      cases r <;> rfl
    have hlegal : Legal s₀ s.tokens s.tokens seen [.woken r] := by
      refine ⟨.refl _, fun r' hr' => ?_, by simp⟩
      obtain rfl : r' = r := by simpa using hr'
      exact hfirst
    have hpushes : pushes (seen ++ [.woken r]) = [token] := by
      rw [pushes_append, hp]
      rfl
    rw [hview, hact]
    cases r with
    | ok reply =>
      refine ⟨s, .leaving token reply, hc, rfl, ⟨hs, ?_, hpushes⟩, id, hlegal⟩
      rw [first_append, hfirst]
      rfl
    | error message =>
      refine ⟨s, .finished none, hc, ⟨message, .inl rfl⟩, ?_, id, hlegal⟩
      rw [Phase.Facts, hpushes]
      exact Nat.le_refl 1

theorem leaving_step {token : Code} {reply : Reply} (hc : w.connections[c]? = some s)
    (hat : (Phase.leaving token reply).At register c l a)
    (hf : (Phase.leaving token reply).Facts l s₀ s w owed seen) :
    Advances register c l s₀ s owed seen (view w c l a) (w.act here a) := by
  obtain rfl := hat
  obtain ⟨hs, hfirst, hp⟩ := hf
  have hview : view w c l ⟨.code (leaving c reply.toExit), []⟩ = [.popped s s.pop.1] := by
    rw [view_of_op (.connection c .pop) rfl]
    simp [signs, handed, World.connection, hc]
  have hact : w.act here ⟨.code (leaving c reply.toExit), []⟩ =
      (w.setConnection c s.pop.1, ⟨.code (.give (.outcome reply.toExit)), []⟩) := by
    show ((w.onConnection c .pop).1, Activity.respond _ [] (w.onConnection c .pop).2) = _
    simp only [World.onConnection, hc, Option.getD_some]
    rfl
  have hpushes : pushes (seen ++ [.popped s s.pop.1]) = [token] := by
    rw [pushes_append, hp]
    rfl
  rw [hview, hact]
  refine ⟨s.pop.1, .finished (some reply.toExit), World.setConnection_getElem? hc _, rfl, ?_,
    fun hs' => by rw [hs']; rfl, ?_⟩
  · refine ⟨by rw [hpushes]; exact Nat.le_refl 1, .inr ⟨reply, ?_, rfl⟩⟩
    rw [first_append, hfirst]
    rfl
  · refine ⟨?_, by simp, fun before after hpop => ?_⟩
    · show s.pop.1.tokens.Subperm s.tokens
      rcases s with _ | (_ | ⟨token, rest⟩) | _
      · exact .refl _
      · exact .refl _
      · exact (List.sublist_cons_self token rest).subperm
      · exact .refl _
    · obtain ⟨rfl, rfl⟩ : before = s ∧ after = s.pop.1 := by simpa using hpop
      obtain rfl | rfl := hs
      · exact .inl rfl
      · cases s₀ with
        | uncancelable | canceled => exact .inl rfl
        | active rest => exact .inr ⟨token, by simp [hp], rfl, rfl⟩

theorem finished_step {exit : Option Exit} (hs : a.stack ≠ [] ∨ a.control.settles = false)
    (hc : w.connections[c]? = some s) (hat : (Phase.finished exit).At register c l a)
    (hf : (Phase.finished exit).Facts l s₀ s w owed seen) :
    Advances register c l s₀ s owed seen (view w c l a) (w.act here a) := by
  cases exit with
  | none =>
    obtain ⟨message, rfl | rfl⟩ := hat
    · exact .unseen (.finished none) rfl hc (view_of_none rfl) ⟨message, .inr rfl⟩ hf
    · simp [Control.settles] at hs
  | some exit =>
    obtain rfl := hat
    simp [Control.settles] at hs

theorem waiter_step (hg : ∀ l, (register l).Guards l)
    (hs : a.stack ≠ [] ∨ a.control.settles = false) (hc : w.connections[c]? = some s)
    {phase : Phase} (hat : phase.At register c l a) (hf : phase.Facts l s₀ s w owed seen)
    (hown : ∀ op, a.op? = some op → Spares c l op ∨ Own c l a)
    (hfresh : a = ⟨.code (opening register c), []⟩ → w.latches.size = l)
    (hreturns : (w.act here a).2.Returns l) :
    Advances register c l s₀ s owed seen (view w c l a) (w.act here a) := by
  cases phase with
  | before =>
    obtain rfl | rfl := hat
    · exact asking_step hc hf
    · exact opening_step hg hc hf (hfresh rfl)
  | registering => exact registering_step hs hc hat hf hown
  | late token => exact late_step hc hat hf hown hreturns
  | roused token => exact roused_step hc hat hf
  | waiting token => exact waiting_step hc hat hf
  | leaving token reply => exact leaving_step hc hat hf
  | finished exit => exact finished_step hs hc hat hf

end Effects.Suspension
