import Effects.Proofs.Yield.Comes

/-!
Effects that come to an end, part by part. An effect settles if it comes to its end from wherever it
may have got to; of a loop this is so if a round that is begun goes on no more.
-/

namespace Effects

open Activity

variable {ε δ α β : Type} [Datum ε] [Datum δ] [Datum α] [Datum β] {W : World → Prop}
  {c : ConnectionId} {n : Nat} {run : Run}

namespace Node

variable {node inner : Node} {cont : Cont} {g : Exit → Option Node} {body : Value → Node}
  {v : Value}

/-- From its beginning, under the connection. -/
def Settles (W : World → Prop) (c : ConnectionId) (node : Node) : Prop :=
  ∀ run, run.connection = c → Activity.Settles W ⟨.drive (.focus node []) run, []⟩

theorem Settles.ends (h : node.Settles W c) (hc : run.connection = c) :
    Activity.Ends W (fun _ => True) ⟨.drive (.focus node []) run, []⟩ :=
  Activity.Settles.ends (h run hc) (.machine _ run)

theorem settles_of_finished {exit : Exit}
    (h : ∀ env run, (Machine.focus node []).step env run = .finished exit run) :
    node.Settles W c := by
  intro run _ n
  have hend : Silent ⟨.drive (.focus node []) run, []⟩ (.yielding (.ok (exit, run))) :=
    silent_finished fun env => h env run
  exact (SettlesWithin.silent hend (.inr rfl) (.ended trivial) (.of_yielding n _)).mono
    (Nat.le_succ n)

theorem pure_settles (v : Value) : (Node.pure v).Settles W c := settles_of_finished fun _ _ => rfl

theorem settles_of_sequence
    (h : ∀ env run, (Machine.focus node []).step env run = .go (.focus inner [cont]) run)
    (hcont : Leads cont g) (hinner : inner.Settles W c)
    (hgoes : ∀ exit next, g exit = some next → next.Settles W c) : node.Settles W c := by
  intro run hc n
  have hstep : Silent ⟨.drive (.focus node []) run, []⟩ _ := silent_go fun env => h env run
  have hends : Activity.Ends W (fun _ => True) ⟨.drive (.focus inner [cont]) run, []⟩ :=
    .sequence hcont (hinner.ends hc)
      (fun exit run' next _ hc' hg => (hgoes exit next hg).ends (hc'.trans hc))
      (fun _ _ _ _ => trivial) fun _ _ => trivial
  have hwithin : SettlesWithin W n ⟨.drive (.focus inner [cont]) run, []⟩ :=
    .sequence hcont (hinner run hc n) fun exit run' next hc' hg =>
      ⟨(hgoes exit next hg).ends (hc'.trans hc), hgoes exit next hg run' (hc'.trans hc) n⟩
  exact (SettlesWithin.silent hstep (.inr rfl) hends hwithin).mono (Nat.le_succ n)

/-- A round that is begun leads to no other one. -/
def Closes (W : World → Prop) (c : ConnectionId) (body : Value → Node) : Prop :=
  ∀ v run, run.connection = c → Activity.Ends W
    (fun y => ∀ u run' seed, y = .ok (.completed u, run') → (read u : Value ⊕ Value) ≠ .inl seed)
    ⟨.drive (.focus (body v) []) run, []⟩

theorem silent_first (body : Value → Node) (v : Value) (run : Run) :
    Silent
      ⟨.drive (.focus (.flatMap (body v) fun u => .build (Machine.nextRound body u)) []) run, []⟩
      ⟨.drive (.focus (body v) [.flatMap fun u => .build (Machine.nextRound body u)]) run, []⟩ :=
  silent_go fun _ => rfl

theorem loop_ends (h : Closes W c body) (hc : run.connection = c) :
    Activity.Ends W (fun _ => True) ⟨.drive (.focus (.loop body v) []) run, []⟩ := by
  refine .silent (silent_round body v run) (.inr rfl) ?_
  refine .silent (silent_first body v run) (.inr rfl) ?_
  refine Activity.Ends.sequence (leads_flatMap _) (h v run hc)
    (fun exit run' node hR hc' hg => ?_) (fun _ _ _ _ => trivial) fun _ _ => trivial
  cases exit with
  | errored | canceled => cases hg
  | completed u =>
    obtain rfl := Option.some.inj hg
    rw [Machine.nextRound]
    cases hu : (read u : Value ⊕ Value) with
    | inl seed => exact absurd hu (hR u run' seed rfl)
    | inr b => exact (pure_settles b).ends (hc'.trans hc)

/-- The loop may have gone round for long, but not where a round closes. -/
theorem loop_settles (hbody : ∀ v, (body v).Settles W c) (h : Closes W c body) :
    (Node.loop body v).Settles W c := by
  intro run hc n
  -- Induction on the number of steps: a round takes at least one, and leaves fewer to the rest. Up
  -- to there the worlds may be any, and the loop as endless as it likes.
  induction n generalizing v run with
  | zero => exact fun m hm => absurd hm (Nat.not_lt_zero m)
  | succ n ih =>
    have hnext : ∀ exit run' node, run'.connection = run.connection →
        onValue (Machine.nextRound body) exit = some node →
        Activity.Ends W (fun _ => True) ⟨.drive (.focus node []) run', []⟩ ∧
          SettlesWithin W n ⟨.drive (.focus node []) run', []⟩ := by
      intro exit run' node hc' hg
      cases exit with
      | errored | canceled => cases hg
      | completed u =>
        obtain rfl := Option.some.inj hg
        rw [Machine.nextRound]
        cases (read u : Value ⊕ Value) with
        | inl seed => exact ⟨loop_ends h (hc'.trans hc), ih run' (hc'.trans hc)⟩
        | inr b =>
          have hpure := pure_settles (W := W) (c := c) b
          exact ⟨hpure.ends (hc'.trans hc), hpure run' (hc'.trans hc) n⟩
    have hends : Activity.Ends W (fun _ => True) ⟨.drive (.focus (body v) [.flatMap fun u =>
        .build (Machine.nextRound body u)]) run, []⟩ :=
      .sequence (leads_flatMap _) ((hbody v).ends hc)
        (fun exit run' node _ hc' hg => (hnext exit run' node hc' hg).1)
        (fun _ _ _ _ => trivial) fun _ _ => trivial
    have hfirst := SettlesWithin.silent (silent_first body v run) (.inr rfl) hends
      (.sequence (leads_flatMap _) (hbody v run hc n) hnext)
    exact .silent (silent_round body v run) (.inr rfl)
      (.silent (silent_first body v run) (.inr rfl) hends) (hfirst.mono (Nat.le_succ n))

/-- A closure that performs one operation, and builds the computation from the reply. -/
theorem suspend_settles {op : Op} {f : Reply → Node} {r : World → Reply}
    (hop : ∀ w here, (World.perform w here op).2 = .reply (r w))
    (h : ∀ w, (f (r w)).Settles W c) :
    (Node.suspend (.perform op fun r => .build (f r))).Settles W c := by
  intro run hc n
  have hcall := silent_suspend (.perform op fun r => .build (f r)) [] run []
  have hopen : ∀ x : Code, Onto.Open ⟨.code x, [.node [] run]⟩ :=
    fun _ => .inl (List.cons_ne_nil _ _)
  have hbuilt : ∀ w, Activity.Ends W (fun _ => True) ⟨.code (.build (f (r w))), [.node [] run]⟩ :=
    fun w => .silent (silent_build _ [] run []) (hopen _) ((h w).ends hc)
  have hends : Activity.Ends W (fun _ => True)
      ⟨.code (.perform op fun r => .build (f r)), [.node [] run]⟩ := by
    refine .step (hopen _) fun w here _ _ => ?_
    rw [act_building hop]
    exact hbuilt w
  refine (SettlesWithin.silent hcall (.inr rfl) hends fun m hm t b hr hb => ?_).mono (Nat.le_succ n)
  cases hr with
  | stay => exact hends
  | @act m w here _ _ t _ hrest =>
    rw [act_building hop] at hrest
    have hwithin := SettlesWithin.silent (silent_build _ [] run []) (hopen _) ((h w).ends hc)
      (h w run hc n)
    exact hwithin m (by omega) t b hrest hb

end Node

namespace Effect

variable {e : Effect ε α} {R : Upshot ε α → Prop} {R' : Upshot ε β → Prop}

/-- From wherever it gets to in any worlds, it comes to its end in these. -/
def Settles (W : World → Prop) (c : ConnectionId) (e : Effect ε α) : Prop := e.node.Settles W c

/-- Begun in these worlds it comes to its end, and to such an end. -/
def Ends (W : World → Prop) (c : ConnectionId) (R : Upshot ε α → Prop) (e : Effect ε α) : Prop :=
  ∀ run, run.connection = c →
    Activity.Ends W (fun y => R (.of y)) ⟨.drive (.focus e.node []) run, []⟩

/-- Once the connection is canceled, it comes to its end from wherever it has got to. -/
abbrev Ceases (c : ConnectionId) (e : Effect ε α) : Prop :=
  e.Settles (fun w => w.isCanceled c = true) c

theorem Settles.ends (h : e.Settles W c) : e.Ends W c fun _ => True :=
  fun _ hc => Node.Settles.ends h hc

omit [Datum ε] in
theorem pure_settles (a : α) : (pure a : Effect ε α).Settles W c := Node.pure_settles _

omit [Datum α] in
theorem raise_settles (e : ε) : (raise e : Effect ε α).Settles W c :=
  Node.settles_of_finished fun _ _ => rfl

omit [Datum ε] [Datum β] in
theorem bind_settles {f : α → Effect ε β} (h : e.Settles W c) (hf : ∀ a, (f a).Settles W c) :
    (e.flatMap f).Settles W c := by
  refine Node.settles_of_sequence (fun _ _ => rfl)
    (Node.leads_flatMap fun v => (f (read v)).node) h fun exit next hg => ?_
  cases exit with
  | completed v =>
    obtain rfl := Option.some.inj hg
    exact hf (read v)
  | errored | canceled => cases hg

omit [Datum ε] in
theorem map_settles {f : α → β} (h : e.Settles W c) : (e.map f).Settles W c := by
  refine Node.settles_of_sequence (fun _ _ => rfl)
    (Node.leads_map fun v => (pure (f (read v)) : Effect ε β).node) h fun exit next hg => ?_
  cases exit with
  | completed v =>
    obtain rfl := Option.some.inj hg
    exact Node.pure_settles _
  | errored | canceled => cases hg

omit [Datum δ] in
theorem attempt_settles (h : e.Settles W c) :
    (e.attempt : Effect δ (Except ε α)).Settles W c := by
  refine Node.settles_of_sequence (fun _ _ => rfl)
    (Node.leads_recover fun v => (pure (.error (read v)) : Effect δ (Except ε α)).node)
    (map_settles h) fun exit next hg => ?_
  cases exit with
  | errored v =>
    obtain rfl := Option.some.inj hg
    exact Node.pure_settles _
  | completed | canceled => cases hg

omit [Datum ε] [Datum α] in
theorem defer_now_settles {f : Nat → Effect ε α} (h : ∀ clock, (f clock).Settles W c) :
    (defer do return f (← Routine.now)).Settles W c :=
  Node.suspend_settles (f := fun r => (f r.toId).node) (r := fun w => .id w.clock)
    (fun _ _ => rfl) fun w => h w.clock

theorem pure_ends {R : Upshot ε α → Prop} (a : α) (h : ∀ run, R (.ok (.completed a, run))) :
    (pure a : Effect ε α).Ends W c R := by
  intro run _
  have hend : Silent ⟨.drive (.focus (pure a : Effect ε α).node []) run, []⟩
      (.yielding (.ok (.completed (write a), run))) := silent_finished fun _ => rfl
  refine .silent hend (.inr rfl) (.ended ?_)
  show R (.of (.ok (.completed (write a), run)))
  rw [Upshot.of_completed]
  exact h run

theorem ends_of_onValue {e' : Effect ε β} {f : α → Effect ε β} {cont : Cont}
    (hstep : ∀ env run, (Machine.focus e'.node []).step env run = .go (.focus e.node [cont]) run)
    (hcont : Node.Leads cont (Node.onValue fun v => (f (read v)).node)) (h : e.Ends W c R)
    (hf : ∀ a run, R (.ok (.completed a, run)) → (f a).Ends W c R')
    (hpasses : ∀ x y, R x → x.Passes y → R' y) : e'.Ends W c R' := by
  intro run hc
  refine .silent (silent_go fun env => hstep env run) (.inr rfl) ?_
  refine Activity.Ends.sequence hcont (h run hc)
    (fun exit run' node hR hc' hg => ?_) (fun exit run' hR hg => ?_) fun message hR => ?_
  · cases exit with
    | completed v =>
      obtain rfl := Option.some.inj hg
      exact hf (read v) run' hR run' (hc'.trans hc)
    | errored | canceled => cases hg
  · cases exit with
    | completed v => cases hg
    | errored v => exact hpasses _ _ hR (.errored (read v) run')
    | canceled => exact hpasses _ _ hR (.canceled run')
  · exact hpasses _ _ hR (.panicked message)

theorem bind_ends {f : α → Effect ε β} (h : e.Ends W c R)
    (hf : ∀ a run, R (.ok (.completed a, run)) → (f a).Ends W c R')
    (hpasses : ∀ x y, R x → x.Passes y → R' y) : (e.flatMap f).Ends W c R' :=
  ends_of_onValue (fun _ _ => rfl) (Node.leads_flatMap fun v => (f (read v)).node) h hf hpasses

/-- An effect that never gives a value is never transformed. -/
theorem map_ends {f : α → β} (h : e.Ends W c fun x => ∀ a run, x ≠ .ok (.completed a, run)) :
    (e.map f).Ends W c fun x => ∀ b run, x ≠ .ok (.completed b, run) :=
  ends_of_onValue (f := fun a => pure (f a)) (fun _ _ => rfl)
    (Node.leads_map fun v => (pure (f (read v)) : Effect ε β).node) h
    (fun a run ha => absurd rfl (ha a run)) fun _ _ _ hpasses => hpasses.ne_completed

section Loop

variable {body : α → Effect ε (α ⊕ β)}

/-- A round that is begun in these worlds leads to no other one. -/
def Closes (W : World → Prop) (c : ConnectionId) (body : α → Effect ε (α ⊕ β)) : Prop :=
  ∀ a, (body a).Ends W c fun y => ∀ a' run, y ≠ .ok (.completed (.inl a'), run)

theorem loop_settles {a : α} (hbody : ∀ a, (body a).Settles W c) (h : Closes W c body) :
    (loop body a).Settles W c := by
  refine Node.loop_settles (fun v => hbody (read v)) fun v run hc => ?_
  refine (h (read v) run hc).mono fun _ y hy u run' seed hu hread => ?_
  subst hu
  refine hy (read seed) run' ?_
  show Except.ok (Outcome.completed (read u : α ⊕ β), run') = _
  rw [read_sum, hread]
  rfl

end Loop

end Effect
end Effects
