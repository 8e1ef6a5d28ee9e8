import Effects.Proofs.Suspend.Scene

/-!
How far the waiting thread has come, what is then known of the connection, of the callback and of
what has been seen, and what a step of any thread does to the connection and to the callback.
-/

namespace Effects

open Routine

/-- With more tokens on top, if it keeps any. -/
def Connection.under {τ : Type} (tokens : List τ) : Connection τ → Connection τ
  | .active rest => .active (tokens ++ rest)
  | c => c

def Latch.holding {α : Type} : Option α → Latch α
  | none => .empty
  | some a => .full a

namespace Suspension

variable {register : LatchId → Code} {c : ConnectionId} {l : LatchId}

/-- What comes after the registration. -/
abbrev after (c : ConnectionId) (l : LatchId) : Answer → Code :=
  registered c l fun exit => .give (.outcome exit)

theorem after_cases (answer : Answer) :
    (∃ token, answer = .token (some token) ∧ after c l answer = pushing c l token) ∨
      after c l answer = l.wait fun exit => .give (.outcome exit) := by
  rcases answer with r | n | (_ | token)
  · exact .inr rfl
  · exact .inr rfl
  · exact .inr rfl
  · exact .inl ⟨token, rfl, rfl⟩

theorem andThen_cases (x : Code) (k : Answer → Code) :
    (∃ answer, x.andThen k = k answer) ∨ (∃ message, x.andThen k = .panic message) ∨
      ∃ (op : Op) (next : Reply → Code),
        x.andThen k = .perform op fun r => (next r).andThen k := by
  cases x with
  | give r => exact .inl ⟨.reply r, rfl⟩
  | build n => exact .inl ⟨.node n, rfl⟩
  | guard t => exact .inl ⟨.token t, rfl⟩
  | panic message => exact .inr (.inl ⟨message, rfl⟩)
  | perform op next => exact .inr (.inr ⟨op, next, rfl⟩)

theorem after_ne_give (x : Code) (r : Reply) : x.andThen (after c l) ≠ .give r := by
  intro h
  obtain ⟨answer, hx⟩ | ⟨message, hx⟩ | ⟨op, next, hx⟩ := andThen_cases x (after c l)
  · rw [hx] at h
    obtain ⟨token, -, ha⟩ | ha := after_cases (c := c) (l := l) answer <;> rw [ha] at h <;> cases h
  all_goals rw [hx] at h; cases h

theorem after_ne_leaving (x : Code) (exit : Exit) : x.andThen (after c l) ≠ leaving c exit := by
  intro h
  obtain ⟨answer, hx⟩ | ⟨message, hx⟩ | ⟨op, next, hx⟩ := andThen_cases x (after c l)
  · rw [hx] at h
    obtain ⟨token, -, ha⟩ | ha := after_cases (c := c) (l := l) answer <;> rw [ha] at h <;> cases h
  · rw [hx] at h
    cases h
  · obtain ⟨-, hnext⟩ := Code.perform.inj (hx.symm.trans h)
    exact after_ne_give _ _ (congrFun hnext .unit)

theorem after_ne_waiting {callback : LatchId} (x : Code) :
    x.andThen (after c l) ≠ waiting c callback := by
  intro h
  obtain ⟨answer, hx⟩ | ⟨message, hx⟩ | ⟨op, next, hx⟩ := andThen_cases x (after c l)
  · rw [hx] at h
    obtain ⟨token, -, ha⟩ | ha := after_cases (c := c) (l := l) answer
    · rw [ha] at h
      cases h
    · obtain ⟨-, hnext⟩ := Code.perform.inj (ha.symm.trans h)
      cases congrFun hnext (.caught (.ok .unit))
  · rw [hx] at h
    cases h
  · obtain ⟨-, hnext⟩ := Code.perform.inj (hx.symm.trans h)
    exact after_ne_leaving _ _ (congrFun hnext (.caught (.ok .unit)))

/-- The registration itself does nothing that is the wait's own. -/
theorem not_own {a b : Activity} (hf : Followed (after c l) b a)
    (hb : b.stack ≠ [] ∨ b.control.settles = false) : ¬ Own c l a := by
  cases hf with
  | code x =>
    rintro (⟨token, h⟩ | h | ⟨exit, h⟩) <;> obtain ⟨h, -⟩ := Activity.mk.inj h <;>
      have h := Control.code.inj h
    · cases x with
      | perform op next =>
        obtain ⟨-, hnext⟩ := Code.perform.inj h
        exact after_ne_waiting _ (congrFun hnext .unit)
      | panic message => cases h
      | _ => simp [Control.settles] at hb
    · exact after_ne_waiting _ h
    · exact after_ne_leaving _ _ h
  | unwinding => simp [Control.settles] at hb
  | above a frame =>
    rintro (⟨token, h⟩ | h | ⟨exit, h⟩) <;> simp [Activity.atop] at h

theorem not_give {a b : Activity} (hf : Followed (after c l) b a)
    (hb : b.stack ≠ [] ∨ b.control.settles = false) (r : Reply) : a ≠ ⟨.code (.give r), []⟩ := by
  intro h
  cases hf with
  | code x => exact after_ne_give x r (Control.code.inj (Activity.mk.inj h).1)
  | unwinding => simp [Control.settles] at hb
  | above a frame => simp [Activity.atop] at h

section Seen

variable (a b : List Sign)

theorem first_append : first (a ++ b) = (first a).or (first b) := List.findSome?_append

theorem pushes_append : pushes (a ++ b) = pushes a ++ pushes b := List.filterMap_append

theorem starts_append : starts (a ++ b) = starts a ++ starts b := List.filterMap_append

end Seen

/-- What others do is seen as deliveries and as tokens that begin to run. -/
def Foreign (more : List Sign) : Prop :=
  ∀ sign ∈ more, (∃ r, sign = .delivered r) ∨ ∃ token, sign = .started token

theorem Foreign.pushes {more : List Sign} (h : Foreign more) : pushes more = [] := by
  refine List.filterMap_eq_nil_iff.2 fun sign hs => ?_
  obtain ⟨r, rfl⟩ | ⟨token, rfl⟩ := h sign hs <;> rfl

/-- How far the waiting thread has come. -/
inductive Phase where
  | before
  | registering
  /-- The token has come too late to be kept, and runs. -/
  | late (token : Code)
  | roused (token : Code)
  | waiting (token : Code)
  | leaving (token : Code) (reply : Reply)
  | finished (exit : Option Exit)

namespace Phase

/-- What the thread does. -/
def At (register : LatchId → Code) (c : ConnectionId) (l : LatchId) (a : Activity) :
    Phase → Prop
  | .before => a = ⟨.code (asking register c), []⟩ ∨ a = ⟨.code (opening register c), []⟩
  | .registering => ∃ b, Ahead (Code.Guards l) b ∧ Followed (after c l) b a
  | .late _ => ∃ b, Owing l b ∧ a = b.atop [.call fun _ => Suspension.waiting c l]
  | .roused _ => a = ⟨.code (.give .unit), [.call fun _ => Suspension.waiting c l]⟩
  | .waiting _ => a = ⟨.code (Suspension.waiting c l), []⟩
  | .leaving _ reply => a = ⟨.code (Suspension.leaving c reply.toExit), []⟩
  | .finished (some exit) => a = ⟨.code (.give (.outcome exit)), []⟩
  | .finished none => ∃ message, a = ⟨.code (.panic message), []⟩ ∨ a = ⟨.unwinding message, []⟩

/-- What is known, where `s₀` was the state of the connection at first and `s` is it now, and where
`owed` says that a canceler has yet to wake the callback. -/
def Facts (l : LatchId) (s₀ s : Connection Code) (w : World) (owed : Prop) (seen : List Sign) :
    Phase → Prop
  | .before => (s = .canceled ∨ s = s₀) ∧ (first seen = none ∨ l < w.latches.size) ∧
      pushes seen = []
  | .registering => (s = .canceled ∨ s = s₀) ∧
      w.latches[l]? = some (.holding (first seen)) ∧ pushes seen = []
  | .late token => s = .canceled ∧ token.Wakes l ∧
      w.latches[l]? = some (.holding (first seen)) ∧ pushes seen = [token]
  | .roused token => s = .canceled ∧ token.Wakes l ∧ (first seen).isSome ∧
      w.latches[l]? = some (.holding (first seen)) ∧ pushes seen = [token]
  | .waiting token => (s = .canceled ∨ s = s₀.under [token]) ∧ token.Wakes l ∧
      (s = .canceled → (first seen).isSome ∨ owed) ∧
      w.latches[l]? = some (.holding (first seen)) ∧ pushes seen = [token]
  | .leaving token reply => (s = .canceled ∨ s = s₀.under [token]) ∧
      first seen = some (.ok reply) ∧ pushes seen = [token]
  | .finished none => (pushes seen).length ≤ 1
  | .finished (some exit) => (pushes seen).length ≤ 1 ∧
      (exit = .canceled ∧ s = .canceled ∧ pushes seen = [] ∨
        ∃ reply : Reply, first seen = some (.ok reply) ∧ exit = reply.toExit)

end Phase

/-- What a step of others leaves to the waiting thread. -/
structure Spared (l : LatchId) (s s' : Connection Code) (w w' : World) (seen more : List Sign) :
    Prop where
  connection : s' = s ∨ s' = s.cancel.1
  foreign : Foreign more
  latch : w.latches[l]? = some (.holding (first seen)) →
    w'.latches[l]? = some (.holding (first (seen ++ more)))
  known : l < w.latches.size → l < w'.latches.size
  first : first more = none ∨ l < w.latches.size

namespace Spared

variable {s s' : Connection Code} {w w' : World} {seen more : List Sign}

theorem canceled (h : Spared l s s' w w' seen more) (hs : s = .canceled) : s' = .canceled := by
  subst hs
  obtain rfl | rfl := h.connection <;> rfl

theorem canceled_or (h : Spared l s s' w w' seen more) {s₀ : Connection Code}
    (hs : s = .canceled ∨ s = s₀) : s' = .canceled ∨ s' = s₀ := by
  obtain rfl | rfl := hs
  · exact .inl (h.canceled rfl)
  · obtain rfl | rfl := h.connection
    · exact .inr rfl
    · cases s with
      | uncancelable => exact .inr rfl
      | active | canceled => exact .inl rfl

theorem pushes (h : Spared l s s' w w' seen more) :
    Suspension.pushes (seen ++ more) = Suspension.pushes seen := by
  rw [pushes_append, h.foreign.pushes, List.append_nil]

theorem first_of_some {r : Except String Reply} (hf : Suspension.first seen = some r) :
    Suspension.first (seen ++ more) = some r := by
  rw [first_append, hf]
  rfl

theorem isSome (hf : (Suspension.first seen).isSome) :
    (Suspension.first (seen ++ more)).isSome := by
  obtain ⟨r, hr⟩ := Option.isSome_iff_exists.1 hf
  rw [first_of_some hr]
  rfl

/-- The waiting thread has come as far as before. -/
theorem facts (h : Spared l s s' w w' seen more) {s₀ : Connection Code} {owed owed' : Prop}
    (howed : w.latches[l]? = some (.holding (Suspension.first seen)) → owed →
      (Suspension.first (seen ++ more)).isSome ∨ owed')
    {phase : Phase} (hf : phase.Facts l s₀ s w owed seen)
    (hcancel : ∀ token rest, phase = .waiting token → token.Wakes l →
      s = .active (token :: rest) → s' = .canceled → owed') :
    phase.Facts l s₀ s' w' owed' (seen ++ more) := by
  cases phase with
  | before =>
    obtain ⟨hs, hl, hp⟩ := hf
    refine ⟨h.canceled_or hs, ?_, h.pushes.trans hp⟩
    obtain hl | hl := hl
    · obtain hm | hm := h.first
      · exact .inl (by rw [first_append, hl, hm]; rfl)
      · exact .inr (h.known hm)
    · exact .inr (h.known hl)
  | registering => exact ⟨h.canceled_or hf.1, h.latch hf.2.1, h.pushes.trans hf.2.2⟩
  | late token =>
    obtain ⟨hs, ht, hl, hp⟩ := hf
    exact ⟨h.canceled hs, ht, h.latch hl, h.pushes.trans hp⟩
  | roused token =>
    obtain ⟨hs, ht, hr, hl, hp⟩ := hf
    exact ⟨h.canceled hs, ht, isSome hr, h.latch hl, h.pushes.trans hp⟩
  | waiting token =>
    obtain ⟨hs, ht, hw, hl, hp⟩ := hf
    refine ⟨h.canceled_or hs, ht, fun hs' => ?_, h.latch hl, h.pushes.trans hp⟩
    by_cases hsc : s = .canceled
    · exact (hw hsc).elim (fun hr => .inl (isSome hr)) (howed hl)
    · obtain rfl := hs.resolve_left hsc
      cases s₀ with
      | uncancelable =>
        obtain rfl | rfl := h.connection <;> cases hs'
      | active rest => exact .inr (hcancel token rest rfl ht rfl hs')
      | canceled => exact absurd rfl hsc
  | leaving token reply =>
    exact ⟨h.canceled_or hf.1, first_of_some hf.2.1, h.pushes.trans hf.2.2⟩
  | finished exit =>
    cases exit with
    | none =>
      rw [Phase.Facts, h.pushes]
      exact hf
    | some exit =>
      obtain ⟨hlen, hf⟩ := hf
      refine ⟨by rw [h.pushes]; exact hlen, ?_⟩
      obtain ⟨he, hs, hp⟩ | ⟨reply, hr, he⟩ := hf
      · exact .inl ⟨he, h.canceled hs, h.pushes.trans hp⟩
      · exact .inr ⟨reply, first_of_some hr, he⟩

end Spared

variable {w : World} {here : Place} {s : Connection Code} {seen : List Sign}

theorem holding_after (seen : List Sign) (r : Option (Except String Reply)) :
    World.after? r (.holding (first seen)) =
      .holding (first (seen ++ (r.map Sign.delivered).toList)) := by
  rw [first_append]
  cases r with
  | none => simp [first, World.after?]
  | some r => cases first seen <;> rfl

theorem signs_of_spares {op : Op} (h : Spares c l op) :
    signs w c l op =
      if (w.latches[l]?).isSome then ((w.delivered? l op).map Sign.delivered).toList else [] := by
  cases op with
  | connection d op =>
    cases op with
    | push token =>
      have hd : d ≠ c := h
      simp [signs, hd, World.delivered?]
    | pop =>
      have hd : d ≠ c := h
      simp [signs, hd, World.delivered?]
    | _ => rfl
  | await callback =>
    have hl : callback ≠ l := h
    simp [signs, hl, World.delivered?]
  | _ => rfl

theorem perform_spared (here : Place) (hc : w.connections[c]? = some s) {op : Op} (h : Spares c l op) :
    (w.perform here op).1.connections[c]? = some s ∧ handed w c op = [] ∨
      (w.perform here op).1.connections[c]? = some s.cancel.1 ∧ handed w c op = s.tokens := by
  by_cases hop : ∃ op', op = .connection c op'
  · obtain ⟨op', rfl⟩ := hop
    have hspares := h rfl
    cases op' with
    | isCanceled | isUncancelable | describe => exact .inl ⟨hc, rfl⟩
    | cancel =>
      refine .inr ⟨World.onConnection_self hc .cancel, ?_⟩
      simp [handed, World.connection, hc]
    | _ => exact hspares.elim
  · refine .inl ⟨World.perform_connection hc fun op' h' => hop ⟨op', h'⟩, ?_⟩
    cases op with
    | connection d op' =>
      have hd : d ≠ c := fun h' => hop ⟨op', h' ▸ rfl⟩
      cases op' <;> simp [handed, hd]
    | _ => rfl

theorem foreign_started (tokens : List Code) : Foreign (tokens.map Sign.started) := by
  intro sign hs
  obtain ⟨token, -, rfl⟩ := List.mem_map.1 hs
  exact .inr ⟨token, rfl⟩

theorem first_started (seen : List Sign) (tokens : List Code) :
    first (seen ++ tokens.map Sign.started) = first seen := by
  have h : first (tokens.map Sign.started) = none := by simp [first]
  rw [first_append, h, Option.or_none]

/-- An operation that leaves the connection's stack and the callback alone. -/
theorem spared_perform {s' : Connection Code} {op : Op} (h : Spares c l op)
    (hs : s' = s ∨ s' = s.cancel.1) (seen : List Sign) (tokens : List Code) :
    Spared l s s' w (w.perform here op).1 seen
      (signs w c l op ++ tokens.map Sign.started) := by
  have hop : op ≠ .await l := by
    rintro rfl
    exact h rfl
  have hlatch : ∀ {latch}, w.latches[l]? = some latch →
      (w.perform here op).1.latches[l]? = some (World.after? (w.delivered? l op) latch) :=
    fun hl => World.perform_latch hl hop
  rw [signs_of_spares h]
  refine ⟨hs, ?_, fun hl => ?_, fun hl => ?_, ?_⟩
  · intro sign hsign
    obtain hsign | hsign := List.mem_append.1 hsign
    · split at hsign
      · obtain ⟨r, -, rfl⟩ := by simpa using hsign
        exact .inl ⟨r, rfl⟩
      · cases hsign
    · exact foreign_started tokens sign hsign
  · rw [hlatch hl, hl, holding_after, ← List.append_assoc, first_started]
    rfl
  · obtain ⟨latch, hl⟩ : ∃ latch, w.latches[l]? = some latch := ⟨_, Array.getElem?_eq_getElem hl⟩
    exact (Array.getElem?_eq_some_iff.1 (hlatch hl)).1
  · by_cases hl : l < w.latches.size
    · exact .inr hl
    · left
      have : w.latches[l]? = none := by simpa using hl
      rw [this, first_started]
      rfl

/-- A step of a thread that does not own the connection's stack or the callback. -/
theorem act_spared (here : Place) (hc : w.connections[c]? = some s) {a : Activity}
    (h : ∀ op, a.op? = some op → Spares c l op) (seen : List Sign) (tokens : List Code) :
    ∃ s', (w.act here a).1.connections[c]? = some s' ∧
      Spared l s s' w (w.act here a).1 seen (shown w c l a tokens) ∧
      (s' = s ∧ (a.op?.map (handed w c)).getD [] = [] ∨
        s' = s.cancel.1 ∧ (a.op?.map (handed w c)).getD [] = s.tokens) := by
  rw [World.act_world, shown]
  cases ho : a.op? with
  | none =>
    refine ⟨s, hc, ⟨.inl rfl, foreign_started tokens, fun hl => ?_, id, .inl ?_⟩, .inl ⟨rfl, rfl⟩⟩
    · exact (first_started seen tokens).symm ▸ hl
    · exact first_started [] tokens
  | some op =>
    obtain ⟨hc', ht⟩ | ⟨hc', ht⟩ := perform_spared here hc (h op ho)
    · exact ⟨s, hc', spared_perform (h op ho) (.inl rfl) seen tokens, .inl ⟨rfl, ht⟩⟩
    · exact ⟨s.cancel.1, hc', spared_perform (h op ho) (.inr rfl) seen tokens, .inr ⟨rfl, ht⟩⟩


end Suspension
end Effects
