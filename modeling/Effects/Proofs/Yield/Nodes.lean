import Effects.Proofs.Run.Drives
import Effects.Proofs.Yield.Reaches

/-!
What computations do and how they end, part by part.
-/

namespace Effects

/-- The computation may perform these operations from there on, and then end like this: with an
exit, and the context and the connection that the run has come to, or with a panic. -/
def Node.Yields (node : Node) (run : Run) (t : Trace) (x : Except String (Exit × Run)) : Prop :=
  ∃ n, Activity.Reaches n ⟨.drive (.focus node []) run, []⟩ t (.yielding x)

variable {n : Nat} {m m' : Machine} {run run' : Run} {rest : List Cont} {below : List Frame}
  {t t₁ t₂ : Trace} {x : Except String (Exit × Run)} {node inner : Node} {exit : Exit}

namespace Activity

theorem drive_ne_yielding (m : Machine) (run : Run) (fs : List Frame)
    (x : Except String (Exit × Run)) : ⟨.drive m run, fs⟩ ≠ yielding x := by
  cases x <;> simp [yielding]

theorem able_drive (m : Machine) (run : Run) (fs : List Frame) :
    ∃ w here, Able w here ⟨.drive m run, fs⟩ :=
  ⟨.start, ⟨"", some run.context⟩, Spot.isCurrent_self _ _⟩

theorem act_drive {w : World} {here : Place} (h : Able w here ⟨.drive m run, below⟩) :
    (w.act here ⟨.drive m run, below⟩).2 =
      after (m.step (w.surroundings here.home) run) below := by
  have hcurrent : w.isCurrent here.home run.context = true := h
  simp only [World.act, hcurrent, if_true]

theorem silent_go (h : ∀ env, m.step env run = .go m' run') :
    Silent ⟨.drive m run, below⟩ ⟨.drive m' run', below⟩ where
  performs _ _ := rfl
  act w here hable := by rw [act_drive hable, h]; rfl
  able := able_drive m run below
  not_yielding := drive_ne_yielding m run below

theorem silent_call {closure : Code} {frame : Frame}
    (h : ∀ env, m.step env run = .call closure frame) :
    Silent ⟨.drive m run, below⟩ ⟨.code closure, frame :: below⟩ where
  performs _ _ := rfl
  act w here hable := by rw [act_drive hable, h]; rfl
  able := able_drive m run below
  not_yielding := drive_ne_yielding m run below

theorem silent_finished (h : ∀ env, m.step env run = .finished exit run') :
    Silent ⟨.drive m run, []⟩ (yielding (.ok (exit, run'))) where
  performs _ _ := rfl
  act w here hable := by rw [act_drive hable, h]; rfl
  able := able_drive m run []
  not_yielding := drive_ne_yielding m run []

theorem silent_exit (exit : Exit) (run : Run) :
    Silent ⟨.drive (.unwind exit []) run, []⟩ (yielding (.ok (exit, run))) :=
  silent_finished fun _ => rfl

theorem silent_build (node : Node) (rest : List Cont) (run : Run) (below : List Frame) :
    Silent ⟨.code (.build node), .node rest run :: below⟩
      ⟨.drive (.focus node rest) run, below⟩ where
  performs _ _ := rfl
  act _ _ _ := rfl
  able := ⟨.start, ⟨"", none⟩, trivial⟩
  not_yielding x := by cases x <;> simp [yielding]

theorem silent_suspend (closure : Code) (rest : List Cont) (run : Run) (below : List Frame) :
    Silent ⟨.drive (.focus (.suspend closure) rest) run, below⟩
      ⟨.code closure, .node rest run :: below⟩ :=
  silent_call fun _ => rfl

/-- A closure that performs one operation, and builds a computation from the reply. -/
theorem act_building {op : Op} {f : Reply → Node} {r : World → Reply}
    (hop : ∀ w here, (World.perform w here op).2 = .reply (r w)) (w : World) (here : Place) :
    (w.act here ⟨.code (.perform op fun r => .build (f r)), [.node [] run]⟩).2 =
      ⟨.code (.build (f (r w))), [.node [] run]⟩ := by
  simp only [World.act, hop]
  rfl

/-- The closure of a continuation builds the computation to go on with. -/
theorem reaches_into (env : Surroundings) (node : Node)
    (h : Reaches n (after (Machine.continueInto env (.build node) rest run) below) t (yielding x)) :
    ∃ n' ≤ n, Reaches n' ⟨.drive (.focus node rest) run, below⟩ t (yielding x) := by
  have hbuild := silent_build node rest run below
  unfold Machine.continueInto at h
  split at h
  · obtain ⟨k, rfl, hnode⟩ := hbuild.reaches_of h
    exact ⟨k, by omega, hnode⟩
  · obtain ⟨j, rfl, hbuilt⟩ := (silent_suspend (.build node) rest run below).reaches_of h
    obtain ⟨k, rfl, hnode⟩ := hbuild.reaches_of hbuilt
    exact ⟨k, by omega, hnode⟩

theorem into_reaches {a : Activity} (env : Surroundings)
    (h : Reaches n ⟨.drive (.focus node rest) run, below⟩ t a) :
    ∃ k, Reaches k (after (Machine.continueInto env (.build node) rest run) below) t a := by
  unfold Machine.continueInto
  split
  · exact ⟨_, (silent_build node rest run below).reaches h⟩
  · have hbuilt := (silent_build node rest run below).reaches h
    exact ⟨_, (silent_suspend (.build node) rest run below).reaches hbuilt⟩

end Activity

open Activity

namespace Node

/-- The computation first, and then what its exit leads to, if anything. -/
inductive Then (inner : Node) (g : Exit → Option Node) (run : Run) :
    Trace → Except String (Exit × Run) → Prop
  | goes {t₁ t₂ : Trace} {exit : Exit} {run' : Run} {node : Node}
      {x : Except String (Exit × Run)} (h : inner.Yields run t₁ (.ok (exit, run')))
      (hg : g exit = some node) (rest : node.Yields run' t₂ x) : Then inner g run (t₁ ++ t₂) x
  | passes {t : Trace} {exit : Exit} {run' : Run} (h : inner.Yields run t (.ok (exit, run')))
      (hg : g exit = none) : Then inner g run t (.ok (exit, run'))
  | panics {t : Trace} {message : String} (h : inner.Yields run t (.error message)) :
      Then inner g run t (.error message)

/-- A continuation that builds a computation from some exits and lets the others pass. -/
def Leads (cont : Cont) (g : Exit → Option Node) : Prop :=
  ∀ env exit run, Machine.resume env exit [cont] run =
    match g exit with
    | some node => Machine.continueInto env (.build node) [] run
    | none => .go (.unwind exit []) run

end Node

section Sequence

variable {cont : Cont} {g : Exit → Option Node}

theorem sequence_cases (hcont : Node.Leads cont g)
    (h : Reaches n ⟨.drive (.focus inner [cont]) run, []⟩ t (yielding x)) :
    (∃ t₁ t₂ exit run' node, ∃ n' ≤ n, inner.Yields run t₁ (.ok (exit, run')) ∧
        g exit = some node ∧ Reaches n' ⟨.drive (.focus node []) run', []⟩ t₂ (yielding x) ∧
        t = t₁ ++ t₂) ∨
      (∃ exit run', inner.Yields run t (.ok (exit, run')) ∧ g exit = none ∧
        x = .ok (exit, run')) ∨
      ∃ message, inner.Yields run t (.error message) ∧ x = .error message := by
  obtain ⟨n₁, n₂, t₁, t₂, y, d, hfirst, hd, hrest, rfl, rfl⟩ :=
    h.split (.machine (.focus inner []) run)
  generalize hy : yielding y = e at hd
  cases hd with
  | machine | frame => cases y <;> simp [yielding] at hy
  | panicked message =>
    obtain rfl := yielding_inj.1 hy
    obtain ⟨-, rfl, hx⟩ := (yielding_reaches (x := .error message)).1 hrest
    rw [List.append_nil]
    exact .inr (.inr ⟨message, ⟨n₁, hfirst⟩, hx.symm⟩)
  | ended env exit run' =>
    obtain rfl := yielding_inj.1 hy
    rw [hcont] at hrest
    cases hg : g exit with
    | some node =>
      rw [hg] at hrest
      obtain ⟨n', hle, hnode⟩ := reaches_into env node hrest
      exact .inl ⟨t₁, t₂, exit, run', node, n', by omega, ⟨n₁, hfirst⟩, hg, hnode, rfl⟩
    | none =>
      rw [hg] at hrest
      obtain ⟨k, rfl, hdone⟩ := (silent_exit exit run').reaches_of hrest
      obtain ⟨-, rfl, hx⟩ := yielding_reaches.1 hdone
      rw [List.append_nil]
      exact .inr (.inl ⟨exit, run', ⟨n₁, hfirst⟩, hg, hx.symm⟩)

/-- What a computation comes to, upon the continuation that waits for it. -/
theorem Node.Yields.upon (h : inner.Yields run t x) (cont : Cont) :
    ∃ n d, Reaches n ⟨.drive (.focus inner [cont]) run, []⟩ t d ∧ Onto [cont] [] (yielding x) d := by
  obtain ⟨n, hn⟩ := h
  obtain ⟨d, hd⟩ := hn.onto (Onto.machine (.focus inner []) run : Onto [cont] [] _ _)
  exact ⟨n, d, hd⟩

theorem sequence_reaches (hcont : Node.Leads cont g) (h : inner.Then g run t x) :
    ∃ n, Reaches n ⟨.drive (.focus inner [cont]) run, []⟩ t (yielding x) := by
  cases h with
  | panics h =>
    obtain ⟨n, d, hn, hd⟩ := h.upon cont
    obtain rfl := hd.of_panicked
    exact ⟨n, hn⟩
  | goes h hg rest =>
    obtain ⟨n, d, hn, hd⟩ := h.upon cont
    obtain ⟨env, rfl⟩ := hd.of_ended
    obtain ⟨j, hj⟩ := rest
    obtain ⟨k, hk⟩ := into_reaches env hj
    refine ⟨n + k, hn.trans ?_⟩
    rw [hcont, hg]
    exact hk
  | passes h hg =>
    obtain ⟨n, d, hn, hd⟩ := h.upon cont
    obtain ⟨env, rfl⟩ := hd.of_ended
    rw [hcont, hg] at hn
    have hall := hn.trans ((silent_exit _ _).reaches (.stay _))
    rw [List.append_nil] at hall
    exact ⟨_, hall⟩

end Sequence

namespace Node

theorem yields_of_finished (h : ∀ env, (Machine.focus node []).step env run = .finished exit run) :
    node.Yields run t x ↔ t = [] ∧ x = .ok (exit, run) := by
  constructor
  · rintro ⟨n, hn⟩
    obtain ⟨k, rfl, hk⟩ := (silent_finished h).reaches_of hn
    obtain ⟨-, ht, hx⟩ := yielding_reaches.1 hk
    exact ⟨ht, hx.symm⟩
  · rintro ⟨rfl, rfl⟩
    exact ⟨1, (silent_finished h).reaches (.stay _)⟩

theorem pure_yields (v : Value) :
    (Node.pure v).Yields run t x ↔ t = [] ∧ x = .ok (.completed v, run) :=
  yields_of_finished fun _ => rfl

theorem raise_yields (e : Value) :
    (Node.raise e).Yields run t x ↔ t = [] ∧ x = .ok (.errored e, run) :=
  yields_of_finished fun _ => rfl

variable {cont : Cont} {g : Exit → Option Node}

theorem yields_of_sequence
    (h : ∀ env, (Machine.focus node []).step env run = .go (.focus inner [cont]) run)
    (hcont : Leads cont g) : node.Yields run t x ↔ inner.Then g run t x := by
  constructor
  · rintro ⟨n, hn⟩
    obtain ⟨k, rfl, hk⟩ := (silent_go h).reaches_of hn
    obtain ⟨t₁, t₂, exit, run', next, n', -, hinner, hg, hnext, rfl⟩ |
      ⟨exit, run', hinner, hg, rfl⟩ | ⟨message, hinner, rfl⟩ := sequence_cases hcont hk
    · exact .goes hinner hg ⟨n', hnext⟩
    · exact .passes hinner hg
    · exact .panics hinner
  · intro hthen
    obtain ⟨k, hk⟩ := sequence_reaches hcont hthen
    exact ⟨k + 1, (silent_go h).reaches hk⟩

/-- Goes on with a value. -/
def onValue (f : Value → Node) : Exit → Option Node
  | .completed v => some (f v)
  | _ => none

/-- Goes on with an error. -/
def onError (f : Value → Node) : Exit → Option Node
  | .errored e => some (f e)
  | _ => none

theorem leads_flatMap (f : Value → Node) :
    Leads (.flatMap fun v => .build (f v)) (onValue f) := by
  intro env exit run
  cases exit <;> rfl

theorem leads_map (f : Value → Node) : Leads (.map fun v => .build (f v)) (onValue f) := by
  intro env exit run
  cases exit <;> rfl

theorem leads_recover (f : Value → Node) :
    Leads (.recover fun v => .build (f v)) (onError f) := by
  intro env exit run
  cases exit <;> rfl

theorem flatMap_yields (f : Value → Node) :
    (Node.flatMap inner fun v => .build (f v)).Yields run t x ↔
      inner.Then (onValue f) run t x :=
  yields_of_sequence (fun _ => rfl) (leads_flatMap f)

theorem map_yields (f : Value → Node) :
    (Node.map inner fun v => .build (f v)).Yields run t x ↔ inner.Then (onValue f) run t x :=
  yields_of_sequence (fun _ => rfl) (leads_map f)

theorem handleErrorWith_yields (f : Value → Node) :
    (Node.handleErrorWith inner fun v => .build (f v)).Yields run t x ↔
      inner.Then (onError f) run t x :=
  yields_of_sequence (fun _ => rfl) (leads_recover f)

section Loop

variable {body : Value → Node} {v : Value}

theorem silent_round (body : Value → Node) (v : Value) (run : Run) :
    Silent ⟨.drive (.focus (.loop body v) []) run, []⟩
      ⟨.drive (.focus (.flatMap (body v) fun u => .build (Machine.nextRound body u)) []) run, []⟩ :=
  silent_go fun _ => rfl

theorem loop_yields : (Node.loop body v).Yields run t x ↔
    (body v).Then (onValue (Machine.nextRound body)) run t x := by
  rw [← flatMap_yields]
  constructor
  · rintro ⟨n, hn⟩
    obtain ⟨k, -, hk⟩ := (silent_round body v run).reaches_of hn
    exact ⟨k, hk⟩
  · rintro ⟨k, hk⟩
    exact ⟨k + 1, (silent_round body v run).reaches hk⟩

/-- What comes after a round takes fewer steps than the whole loop. -/
theorem loop_cases
    (h : Reaches n ⟨.drive (.focus (.loop body v) []) run, []⟩ t (yielding x)) :
    (∃ t₁ t₂ u run', ∃ n' < n, (body v).Yields run t₁ (.ok (.completed u, run')) ∧
        Reaches n' ⟨.drive (.focus (Machine.nextRound body u) []) run', []⟩ t₂ (yielding x) ∧
        t = t₁ ++ t₂) ∨
      (∃ exit run', (body v).Yields run t (.ok (exit, run')) ∧ exit.isCompleted = false ∧
        x = .ok (exit, run')) ∨
      ∃ message, (body v).Yields run t (.error message) ∧ x = .error message := by
  have hround : Silent ⟨.drive (.focus (.flatMap (body v) fun u =>
      .build (Machine.nextRound body u)) []) run, []⟩ ⟨.drive (.focus (body v) [.flatMap fun u =>
      .build (Machine.nextRound body u)]) run, []⟩ := silent_go fun _ => rfl
  obtain ⟨k, rfl, hk⟩ := (silent_round body v run).reaches_of h
  obtain ⟨j, rfl, hj⟩ := hround.reaches_of hk
  obtain ⟨t₁, t₂, exit, run', next, n', hle, hinner, hg, hnext, rfl⟩ |
    ⟨exit, run', hinner, hg, rfl⟩ | hpanic := sequence_cases (leads_flatMap _) hj
  · cases exit with
    | completed u =>
      obtain rfl := Option.some.inj hg
      exact .inl ⟨t₁, t₂, u, run', n', by omega, hinner, hnext, rfl⟩
    | errored | canceled => cases hg
  · refine .inr (.inl ⟨exit, run', hinner, ?_, rfl⟩)
    cases exit with
    | completed => cases hg
    | errored | canceled => rfl
  · exact .inr (.inr hpanic)

end Loop

/-- A closure that performs one operation, and builds the computation from the reply. -/
theorem suspend_yields {op : Op} {f : Reply → Node} {r : World → Reply}
    (hready : ∀ w : World, w.ready op = true)
    (hop : ∀ w here, (World.perform w here op).2 = .reply (r w)) :
    (Node.suspend (.perform op fun r => .build (f r))).Yields run t x ↔
      ∃ w here t', t = ⟨w, here, op⟩ :: t' ∧ (f (r w)).Yields run t' x := by
  have hcall := silent_suspend (.perform op fun r => .build (f r)) [] run []
  constructor
  · rintro ⟨n, hn⟩
    obtain ⟨k, rfl, hk⟩ := hcall.reaches_of hn
    generalize hy : yielding x = y at hk
    cases hk with
    | stay => cases x <;> simp [yielding] at hy
    | @act n w here _ _ t' hable rest =>
      subst hy
      rw [act_building hop] at rest
      obtain ⟨j, rfl, hj⟩ := (silent_build _ _ _ _).reaches_of rest
      exact ⟨w, here, t', rfl, j, hj⟩
  · rintro ⟨w, here, t', rfl, k, hk⟩
    have hbuilt := (silent_build (f (r w)) [] run []).reaches hk
    rw [← act_building hop w here] at hbuilt
    exact ⟨_, hcall.reaches (.act (hready w) hbuilt)⟩

end Node
end Effects
