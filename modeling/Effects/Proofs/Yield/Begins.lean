import Effects.Proofs.Yield.Turns
import Effects.Proofs.Yield.Values

/-!
What is seen of a computation before it has come to its end: a part of it is under way, and those
before it have ended.
-/

namespace Effects

variable {n : Nat} {run run' : Run} {rest : List Cont} {below : List Frame} {t t₁ t₂ : Trace}

namespace Activity

variable {a b c : Activity} {y : Except String (Exit × Run)} {next : List Cont}

theorem act_yielding (w : World) (here : Place) (y : Except String (Exit × Run)) :
    (w.act here (yielding y)).2 = ⟨.ended (resultOf y), []⟩ := by
  cases y <;> rfl

/-- An end is all that is reached from itself before it is handed to the one who waits. -/
theorem reaches_yielding (h : Reaches n (yielding y) t c) :
    t = [] ∧ (c = yielding y ∨ c = ⟨.ended (resultOf y), []⟩) := by
  generalize ha : yielding y = a at h
  cases h with
  | stay => exact ⟨rfl, .inl rfl⟩
  | @act n w here _ _ _ hable rest =>
    subst ha
    rw [act_yielding] at rest
    cases rest with
    | stay => exact ⟨by cases y <;> rfl, .inr rfl⟩
    | act hable' => exact hable'.elim

/-- The machine has not come to its end, or what is below has gone on since. -/
theorem Reaches.split_or (h : Reaches n b t c) (hab : Onto next below a b) :
    (∃ d, Reaches n a t d ∧ Onto next below d c) ∨
      ∃ n₁ n₂ t₁ t₂ y d, Reaches n₁ a t₁ (yielding y) ∧ Onto next below (yielding y) d ∧
        Reaches n₂ d t₂ c ∧ n = n₁ + n₂ ∧ t = t₁ ++ t₂ := by
  induction h generalizing a with
  | stay => exact .inl ⟨a, .stay a, hab⟩
  | @act n w here b c t hable rest ih =>
    obtain ha | ⟨y, rfl⟩ := hab.open_or
    · obtain ⟨hiff, hperforms, hact⟩ := hab.act ha w here
      have hfirst := hiff.2 hable
      obtain ⟨d, hd, hdc⟩ | ⟨n₁, n₂, t₁, t₂, y, d, hy, hd, hrest, rfl, rfl⟩ := ih (hact hfirst)
      · exact .inl ⟨d, hperforms ▸ .act hfirst hd, hdc⟩
      · refine .inr ⟨n₁ + 1, n₂, _, t₂, y, d, .act hfirst hy, hd, hrest, by omega, ?_⟩
        rw [hperforms, List.append_assoc]
    · exact .inr ⟨0, n + 1, [], _, y, b, .stay _, hab, .act hable rest, by omega, rfl⟩

theorem Reaches.over (h : Reaches n a t c) (hab : Onto next below a b) :
    ∃ m d, Reaches m b t d := by
  induction h generalizing b with
  | stay => exact ⟨0, b, .stay b⟩
  | @act n w here a c t hable rest ih =>
    obtain ha | ⟨y, rfl⟩ := hab.open_or
    · obtain ⟨hiff, hperforms, hact⟩ := hab.act ha w here
      obtain ⟨m, d, hd⟩ := ih (hact hable)
      rw [hperforms]
      exact ⟨_, d, .act (hiff.1 hable) hd⟩
    · rw [(reaches_yielding (Reaches.act hable rest)).1]
      exact ⟨0, b, .stay b⟩

theorem Silent.reaches_or (h : Silent a b) (hr : Reaches n a t c) :
    (t = [] ∧ c = a) ∨ ∃ m, n = m + 1 ∧ Reaches m b t c := by
  cases hr with
  | stay => exact .inl ⟨rfl, rfl⟩
  | @act m w here _ _ _ hable hrest =>
    rw [h.act w here hable] at hrest
    rw [h.performs]
    exact .inr ⟨m, rfl, hrest⟩

/-- The closure of a continuation is being called, or the computation is under way. -/
theorem reaches_into_or (env : Surroundings) (node : Node)
    (h : Reaches n (after (Machine.continueInto env (.build node) rest run) below) t c) :
    ∃ n' ≤ n, ∃ d, Reaches n' ⟨.drive (.focus node rest) run, below⟩ t d := by
  have hbuild := silent_build node rest run below
  unfold Machine.continueInto at h
  split at h
  · obtain ⟨rfl, -⟩ | ⟨k, rfl, hnode⟩ := hbuild.reaches_or h
    · exact ⟨0, Nat.zero_le n, _, .stay _⟩
    · exact ⟨k, by omega, c, hnode⟩
  · have hcall := silent_suspend (.build node) rest run below
    obtain ⟨rfl, -⟩ | ⟨j, rfl, hbuilt⟩ := hcall.reaches_or h
    · exact ⟨0, Nat.zero_le n, _, .stay _⟩
    · obtain ⟨rfl, -⟩ | ⟨k, rfl, hnode⟩ := hbuild.reaches_or hbuilt
      · exact ⟨0, Nat.zero_le _, _, .stay _⟩
      · exact ⟨k, by omega, c, hnode⟩

end Activity

open Activity

namespace Node

variable {inner node : Node} {cont : Cont} {g : Exit → Option Node}

/-- The computation may so far have performed these operations from there on. -/
def Begins (node : Node) (run : Run) (t : Trace) : Prop :=
  ∃ n a, Reaches n ⟨.drive (.focus node []) run, []⟩ t a

theorem Begins.nil (node : Node) (run : Run) : node.Begins run [] := ⟨0, _, .stay _⟩

theorem Yields.begins {x : Except String (Exit × Run)} (h : node.Yields run t x) :
    node.Begins run t := by
  obtain ⟨n, hn⟩ := h
  exact ⟨n, _, hn⟩

/-- The computation is under way, or it has ended and what its exit has led to is. -/
inductive Thence (inner : Node) (g : Exit → Option Node) (run : Run) : Trace → Prop
  | first {t : Trace} (h : inner.Begins run t) : Thence inner g run t
  | goes {t₁ t₂ : Trace} {exit : Exit} {run' : Run} {node : Node}
      (h : inner.Yields run t₁ (.ok (exit, run'))) (hg : g exit = some node)
      (rest : node.Begins run' t₂) : Thence inner g run (t₁ ++ t₂)

/-- What comes after the first computation takes no more steps than both. -/
theorem begins_cases {b : Activity} (hcont : Leads cont g)
    (h : Reaches n ⟨.drive (.focus inner [cont]) run, []⟩ t b) :
    inner.Begins run t ∨ ∃ t₁ t₂ exit run' node, ∃ n' ≤ n, ∃ d,
      inner.Yields run t₁ (.ok (exit, run')) ∧ g exit = some node ∧
        Reaches n' ⟨.drive (.focus node []) run', []⟩ t₂ d ∧ t = t₁ ++ t₂ := by
  obtain ⟨d, hd, -⟩ | ⟨n₁, n₂, t₁, t₂, y, d, hfirst, hd, hrest, rfl, rfl⟩ :=
    h.split_or (.machine (.focus inner []) run)
  · exact .inl ⟨n, d, hd⟩
  · have hpassed : t₂ = [] → inner.Begins run (t₁ ++ t₂) := by
      rintro rfl
      rw [List.append_nil]
      exact ⟨n₁, _, hfirst⟩
    obtain message | ⟨exit, run'⟩ := y
    · obtain rfl := hd.of_panicked
      exact .inl (hpassed (reaches_yielding (y := .error message) hrest).1)
    · obtain ⟨env, rfl⟩ := hd.of_ended
      rw [hcont] at hrest
      cases hg : g exit with
      | some node =>
        rw [hg] at hrest
        obtain ⟨n', hle, d, hnode⟩ := reaches_into_or env node hrest
        exact .inr ⟨t₁, t₂, exit, run', node, n', by omega, d, ⟨n₁, hfirst⟩, hg, hnode, rfl⟩
      | none =>
        rw [hg] at hrest
        obtain ⟨rfl, -⟩ | ⟨k, -, hdone⟩ := (silent_exit exit run').reaches_or hrest
        · exact .inl (hpassed rfl)
        · exact .inl (hpassed ((reaches_yielding hdone).1))

theorem begins_of_sequence
    (h : ∀ env, (Machine.focus node []).step env run = .go (.focus inner [cont]) run)
    (hcont : Leads cont g) : node.Begins run t ↔ inner.Thence g run t := by
  constructor
  · rintro ⟨n, b, hn⟩
    obtain ⟨rfl, -⟩ | ⟨k, rfl, hk⟩ := (silent_go h).reaches_or hn
    · exact .first (.nil inner run)
    · obtain hinner | ⟨t₁, t₂, exit, run', next, n', -, d, hinner, hg, hnext, rfl⟩ :=
        begins_cases hcont hk
      · exact .first hinner
      · exact .goes hinner hg ⟨n', d, hnext⟩
  · intro hthence
    suffices hall : ∃ m d, Reaches m ⟨.drive (.focus inner [cont]) run, []⟩ t d by
      obtain ⟨m, d, hd⟩ := hall
      exact ⟨m + 1, d, (silent_go h).reaches hd⟩
    have honto : Onto [cont] [] ⟨.drive (.focus inner []) run, []⟩ _ :=
      .machine (.focus inner []) run
    cases hthence with
    | first hinner =>
      obtain ⟨n, a, hn⟩ := hinner
      exact hn.over honto
    | goes hinner hg hrest =>
      obtain ⟨n, hn⟩ := hinner
      obtain ⟨d, hreach, hd⟩ := hn.onto honto
      obtain ⟨env, rfl⟩ := hd.of_ended
      obtain ⟨j, c, hj⟩ := hrest
      obtain ⟨k, hk⟩ := into_reaches env hj
      refine ⟨n + k, c, hreach.trans ?_⟩
      rw [hcont, hg]
      exact hk

theorem pure_begins (v : Value) : (Node.pure v).Begins run t ↔ t = [] := by
  constructor
  · rintro ⟨n, b, hn⟩
    have hend : Silent ⟨.drive (.focus (.pure v) []) run, []⟩
        (.yielding (.ok (.completed v, run))) := silent_finished fun _ => rfl
    obtain ⟨rfl, -⟩ | ⟨k, -, hk⟩ := hend.reaches_or hn
    · rfl
    · exact (reaches_yielding hk).1
  · rintro rfl
    exact .nil _ run

section Loop

variable {body : Value → Node} {v : Value}

theorem loop_begins : (Node.loop body v).Begins run t ↔
    (body v).Thence (onValue (Machine.nextRound body)) run t := by
  have hround : (Node.flatMap (body v) fun u => .build (Machine.nextRound body u)).Begins run t ↔
      (body v).Thence (onValue (Machine.nextRound body)) run t :=
    begins_of_sequence (fun _ => rfl) (leads_flatMap (Machine.nextRound body))
  refine Iff.trans ⟨?_, ?_⟩ hround
  · rintro ⟨n, b, hn⟩
    obtain ⟨rfl, -⟩ | ⟨k, -, hk⟩ := (silent_round body v run).reaches_or hn
    · exact .nil _ run
    · exact ⟨k, b, hk⟩
  · rintro ⟨k, b, hk⟩
    exact ⟨k + 1, b, (silent_round body v run).reaches hk⟩

/-- What comes after a round takes fewer steps than the whole loop. -/
theorem loop_begins_cases {b : Activity}
    (h : Reaches n ⟨.drive (.focus (.loop body v) []) run, []⟩ t b) :
    (body v).Begins run t ∨ ∃ t₁ t₂ u run', ∃ n' < n, ∃ d,
      (body v).Yields run t₁ (.ok (.completed u, run')) ∧
        Reaches n' ⟨.drive (.focus (Machine.nextRound body u) []) run', []⟩ t₂ d ∧
        t = t₁ ++ t₂ := by
  have hround : Silent ⟨.drive (.focus (.flatMap (body v) fun u =>
      .build (Machine.nextRound body u)) []) run, []⟩ ⟨.drive (.focus (body v) [.flatMap fun u =>
      .build (Machine.nextRound body u)]) run, []⟩ := silent_go fun _ => rfl
  obtain ⟨rfl, -⟩ | ⟨k, rfl, hk⟩ := (silent_round body v run).reaches_or h
  · exact .inl (.nil _ run)
  · obtain ⟨rfl, -⟩ | ⟨j, rfl, hj⟩ := hround.reaches_or hk
    · exact .inl (.nil _ run)
    · obtain hbody | ⟨t₁, t₂, exit, run', node, n', hle, d, hbody, hg, hnext, rfl⟩ :=
        begins_cases (leads_flatMap _) hj
      · exact .inl hbody
      · cases exit with
        | completed u =>
          obtain rfl := Option.some.inj hg
          exact .inr ⟨t₁, t₂, u, run', n', by omega, d, hbody, hnext, rfl⟩
        | errored | canceled => cases hg

end Loop

/-- A closure that performs one operation, and builds the computation from the reply. -/
theorem suspend_begins {op : Op} {f : Reply → Node} {r : World → Reply}
    (hready : ∀ w : World, w.ready op = true)
    (hop : ∀ w here, (World.perform w here op).2 = .reply (r w)) :
    (Node.suspend (.perform op fun r => .build (f r))).Begins run t ↔
      t = [] ∨ ∃ w here t', t = ⟨w, here, op⟩ :: t' ∧ (f (r w)).Begins run t' := by
  have hcall := silent_suspend (.perform op fun r => .build (f r)) [] run []
  constructor
  · rintro ⟨n, b, hn⟩
    obtain ⟨rfl, -⟩ | ⟨k, -, hk⟩ := hcall.reaches_or hn
    · exact .inl rfl
    · cases hk with
      | stay => exact .inl rfl
      | @act m w here _ _ t' hable rest =>
        rw [act_building hop] at rest
        refine .inr ⟨w, here, t', rfl, ?_⟩
        obtain ⟨rfl, -⟩ | ⟨j, -, hj⟩ := (silent_build _ _ _ _).reaches_or rest
        · exact .nil _ run
        · exact ⟨j, b, hj⟩
  · rintro (rfl | ⟨w, here, t', rfl, k, b, hk⟩)
    · exact .nil _ run
    · have hbuilt := (silent_build (f (r w)) [] run []).reaches hk
      rw [← act_building hop w here] at hbuilt
      exact ⟨_, b, hcall.reaches (.act (hready w) hbuilt)⟩

end Node

namespace Effect

variable {ε δ α β : Type} [Datum ε] [Datum δ] [Datum α] [Datum β] {e : Effect ε α}

/-- The effect may so far have performed these operations from there on. -/
def Begins (e : Effect ε α) (run : Run) (t : Trace) : Prop := e.node.Begins run t

theorem Yields.begins {x : Upshot ε α} (h : e.Yields run t x) : e.Begins run t := by
  obtain ⟨y, hy, -⟩ := h
  exact Node.Yields.begins hy

omit [Datum ε] in
theorem pure_begins (a : α) : (pure a : Effect ε α).Begins run t ↔ t = [] :=
  Node.pure_begins _

/-- The effect is under way, or it has ended with a value and what comes of that is. -/
inductive Onward (e : Effect ε α) (rest : α → Run → Trace → Prop) (run : Run) : Trace → Prop
  | first {t : Trace} (h : e.Begins run t) : Onward e rest run t
  | goes {t₁ t₂ : Trace} {a : α} {run₁ : Run} (h : e.Yields run t₁ (.ok (.completed a, run₁)))
      (hrest : rest a run₁ t₂) : Onward e rest run (t₁ ++ t₂)

omit [Datum β] in
theorem thence_iff {f : α → Effect ε β} :
    e.node.Thence (Node.onValue fun v => (f (read v)).node) run t ↔
      e.Onward (fun a => (f a).Begins) run t := by
  constructor
  · intro h
    cases h with
    | first h => exact .first h
    | @goes t₁ t₂ exit run' node h hg hrest =>
      cases exit with
      | completed v =>
        obtain rfl := Option.some.inj hg
        exact .goes ⟨_, h, rfl⟩ hrest
      | errored | canceled => cases hg
  · intro h
    cases h with
    | first h => exact .first h
    | goes h hrest =>
      obtain ⟨y, hy, hread⟩ := h
      obtain ⟨exit, rfl, hexit⟩ := ok_of hread
      cases exit with
      | completed v =>
        obtain rfl := Outcome.completed.inj hexit
        exact .goes hy rfl hrest
      | errored | canceled => cases hexit

omit [Datum β] in
theorem bind_begins {f : α → Effect ε β} :
    (e.flatMap f).Begins run t ↔ e.Onward (fun a => (f a).Begins) run t :=
  (Node.begins_of_sequence (fun _ => rfl)
    (Node.leads_flatMap fun v => (f (read v)).node)).trans thence_iff

theorem map_begins {f : α → β} : (e.map f).Begins run t ↔ e.Begins run t := by
  have hmap : (e.map f).Begins run t ↔ e.Onward (fun a => (pure (f a) : Effect ε β).Begins) run t :=
    (Node.begins_of_sequence (fun _ => rfl)
      (Node.leads_map fun v => (pure (f (read v)) : Effect ε β).node)).trans
      (thence_iff (f := fun a => pure (f a)))
  rw [hmap]
  refine ⟨fun h => ?_, .first⟩
  cases h with
  | first h => exact h
  | goes h hrest =>
    obtain rfl := (pure_begins _).1 hrest
    rw [List.append_nil]
    exact h.begins

omit [Datum δ] in
theorem attempt_begins : (e.attempt : Effect δ (Except ε α)).Begins run t ↔ e.Begins run t := by
  let e' : Effect ε (Except ε α) := e.map Except.ok
  let f : ε → Effect δ (Except ε α) := fun error => pure (.error error)
  have hcatch : (e.attempt : Effect δ (Except ε α)).Begins run t ↔
      e'.node.Thence (Node.onError fun v => (f (read v)).node) run t :=
    Node.begins_of_sequence (fun _ => rfl) (Node.leads_recover fun v => (f (read v)).node)
  rw [hcatch, ← map_begins (f := (Except.ok : α → Except ε α))]
  refine ⟨fun h => ?_, .first⟩
  cases h with
  | first h => exact h
  | @goes t₁ t₂ exit run' node h hg hrest =>
    cases exit with
    | errored v =>
      obtain rfl := Option.some.inj hg
      obtain rfl := (pure_begins _).1 hrest
      rw [List.append_nil]
      exact Node.Yields.begins h
    | completed | canceled => cases hg

omit [Datum ε] [Datum α] in
theorem defer_now_begins {f : Nat → Effect ε α} :
    (defer do return f (← Routine.now)).Begins run t ↔
      t = [] ∨ ∃ w here t', t = ⟨w, here, .now⟩ :: t' ∧ (f w.clock).Begins run t' :=
  Node.suspend_begins (f := fun r => (f r.toId).node) (r := fun w => .id w.clock)
    (fun _ => rfl) fun _ _ => rfl

section Loop

variable {body : α → Effect ε (α ⊕ β)}

/-- A round of the loop is under way, and those before it have each given the next state. -/
inductive Turning (body : α → Effect ε (α ⊕ β)) : α → Run → Trace → Prop
  | round {a : α} {run : Run} {t : Trace} (h : (body a).Begins run t) : Turning body a run t
  | again {a a' : α} {run run' : Run} {t₁ t₂ : Trace}
      (h : (body a).Yields run t₁ (.ok (.completed (.inl a'), run')))
      (rest : Turning body a' run' t₂) : Turning body a run (t₁ ++ t₂)

theorem turning_of_reaches {v : Value} {b : Activity}
    (h : Activity.Reaches n
      ⟨.drive (.focus (.loop (fun v => (body (read v)).node) v) []) run, []⟩ t b) :
    Turning body (read v) run t := by
  induction n using Nat.strongRecOn generalizing v run t b with
  | ind n ih =>
    obtain hround | ⟨t₁, t₂, u, run', n', hlt, d, hround, hrest, rfl⟩ := Node.loop_begins_cases h
    · exact .round hround
    · have hbody : (body (read v)).Yields run t₁ (.ok (.completed (read u), run')) :=
        ⟨_, hround, rfl⟩
      unfold Machine.nextRound at hrest
      rw [read_sum] at hbody
      cases hu : (read u : Value ⊕ Value) with
      | inl seed =>
        rw [hu] at hbody hrest
        exact .again hbody (ih n' hlt hrest)
      | inr b =>
        rw [hu] at hrest
        obtain rfl := (Node.pure_begins b).1 ⟨n', d, hrest⟩
        rw [List.append_nil]
        exact .round hbody.begins

theorem Turning.begins {a : α} (h : Turning body a run t) {v : Value} (hv : read v = a) :
    (Node.loop (fun v => (body (read v)).node) v).Begins run t := by
  induction h generalizing v with
  | round h =>
    subst hv
    exact Node.loop_begins.2 (.first h)
  | @again a a' run run' t₁ t₂ h rest ih =>
    subst hv
    obtain ⟨y, hy, hread⟩ := h
    obtain ⟨exit, rfl, hexit⟩ := ok_of hread
    cases exit with
    | errored | canceled => cases hexit
    | completed u =>
      have hu : (read u : α ⊕ β) = .inl a' := Outcome.completed.inj hexit
      rw [read_sum] at hu
      cases hs : (read u : Value ⊕ Value) with
      | inr b => rw [hs] at hu; cases hu
      | inl seed =>
        rw [hs] at hu
        refine Node.loop_begins.2 (.goes hy rfl ?_)
        rw [Machine.nextRound, hs]
        exact ih (Sum.inl.inj hu)

theorem loop_begins {a : α} : (loop body a).Begins run t ↔ Turning body a run t := by
  refine ⟨fun ⟨n, b, hn⟩ => ?_, fun h => h.begins (read_write a)⟩
  have h := turning_of_reaches hn
  rwa [read_write] at h

end Loop

omit [Datum ε] [Datum α] in
/-- Wherever its hops lead, and whatever the others do meanwhile. -/
theorem turns_begin {c : ConnectionId} {hosts : Hosts} {ts : List Turn} {w : World}
    {here : Place} {u : Relay}
    (h : Relay.turns c hosts ts ⟨w, here, ⟨.drive (.focus e.node []) run, []⟩, []⟩ = (t, u)) :
    e.Begins run t := by
  have hstart : Relay.Based ⟨w, here, ⟨.drive (.focus e.node []) run, []⟩, []⟩ :=
    ⟨proper_of_ne (by simp), .inl (.machine _ run), by simp⟩
  obtain ⟨n, hn⟩ :
      ∃ n, Reaches n _ (Relay.turns c hosts ts _).1 (Relay.turns c hosts ts _).2.whole :=
    Relay.turns_whole hstart ts
  rw [h] at hn
  exact ⟨n, _, hn⟩

end Effect
end Effects
