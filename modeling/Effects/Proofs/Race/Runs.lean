import Effects.Proofs.Race.Caller

/-!
What is known of a race at any time, whatever the order of the steps.
-/

namespace Effects.Racing

variable {nodes : List Node} {c : ContextId}
  {wrap : List FiberId → Nat → Except Value Value → Value} {l : LatchId} {seen more : List Sign}
  {t u : Scene} {i : Nat} {f : FiberId} {x : Lane}

/-- What the racer at a place has been given. -/
structure Given (nodes : List Node) (c : ContextId)
    (wrap : List FiberId → Nat → Except Value Value → Value) (l : LatchId) (cell : Option CellId)
    (fibers : List FiberId) (i : Nat) (x : Lane) : Prop where
  index : x.index = i
  node : nodes[i]? = some x.node
  context : x.run.context = c
  fiber : fibers[i]? = some x.fiber
  cell : cell = some x.cell
  callback : x.callback = l
  wrap : x.wrap = wrap fibers i

/-- All that is seen is of racers that have been dispatched and of the race's own fibers. -/
def Known (n : Nat) (fibers : List FiberId) (more : List Sign) : Prop :=
  ∀ sign ∈ more, (∃ i < n, sign.racer? = some i) ∨ ∃ g ∈ fibers, ∃ exit, sign = .heard g exit

structure Stands (nodes : List Node) (c : ContextId)
    (wrap : List FiberId → Nat → Except Value Value → Value) (l : LatchId) (seen : List Sign)
    (t : Scene) : Prop where
  caller : Calling nodes c wrap l t.world t.caller t.cell t.fibers t.racers.length
  claimed : ∀ k, t.cell = some k → Claimed k t.world seen
  nodup : t.fibers.Nodup
  waiting : ∀ i f, t.racers.length ≤ i → t.fibers[i]? = some f →
    ∃ s, t.world.fibers[f]? = some s ∧ Vacant l (taken f seen) s
  racing : ∀ i r, t.racers[i]? = some r → ∃ x phase, Given nodes c wrap l t.cell t.fibers i x ∧
    Stage x t.world seen r.activity phase
  known : Known t.racers.length t.fibers seen

theorem Known.append {n : Nat} {fibers : List FiberId} (h : Known n fibers seen)
    (hm : Known n fibers more) : Known n fibers (seen ++ more) := by
  intro sign hs
  obtain hs | hs := List.mem_append.1 hs
  · exact h sign hs
  · exact hm sign hs

theorem Known.mono {m n : Nat} {fibers fibers' : List FiberId} (h : Known m fibers seen)
    (hn : m ≤ n) (hf : fibers ⊆ fibers') : Known n fibers' seen := by
  intro sign hs
  obtain ⟨i, hi, hsign⟩ | ⟨g, hg, exit, hsign⟩ := h sign hs
  · exact .inl ⟨i, Nat.lt_of_lt_of_le hi hn, hsign⟩
  · exact .inr ⟨g, hf hg, exit, hsign⟩

/-- Nothing has been seen of a racer that is still to come. -/
theorem Known.course_eq_nil {n : Nat} {fibers : List FiberId} (h : Known n fibers seen)
    (hi : n ≤ i) : course i seen = [] := by
  refine List.filter_eq_nil_iff.2 fun sign hs => ?_
  obtain ⟨j, hj, hsign⟩ | ⟨g, -, exit, rfl⟩ := h sign hs
  · have hne : j ≠ i := by omega
    simp [hsign, hne]
  · simp [Sign.racer?]

theorem Known.taken_eq_nil {n : Nat} {fibers : List FiberId} (h : Known n fibers seen)
    (hf : f ∉ fibers) : taken f seen = [] := by
  refine List.filterMap_eq_nil_iff.2 fun sign hs => ?_
  obtain ⟨j, -, hsign⟩ | ⟨g, hg, exit, rfl⟩ := h sign hs
  · cases sign <;> first | rfl | cases hsign
  · have hne : g ≠ f := fun hgf => hf (hgf ▸ hg)
    simp [hne]

theorem Known.claims_eq_nil {fibers : List FiberId} (h : Known 0 fibers seen) :
    claims seen = [] := by
  refine List.filterMap_eq_nil_iff.2 fun sign hs => ?_
  obtain ⟨j, hj, -⟩ | ⟨g, -, exit, rfl⟩ := h sign hs
  · cases hj
  · rfl

theorem Overheard.known {n : Nat} {fibers : List FiberId} (h : Overheard fibers more) :
    Known n fibers more :=
  fun sign hs => .inr (h sign hs)

theorem asked_stands (w : World) (place : Place) :
    Stands nodes c wrap l [] (asked (Race.start nodes c wrap l .guard) w place) where
  caller := .asked
  claimed := nofun
  nodup := .nil
  waiting := nofun
  racing := nofun
  known := nofun

namespace Stands

/-- A fiber of the race waits for its racer, or its racer has been dispatched. -/
theorem fiber_cases (h : Stands nodes c wrap l seen t) (hf : t.fibers[i]? = some f) :
    (∃ s, t.world.fibers[f]? = some s ∧ Vacant l (taken f seen) s) ∨
      ∃ (r : Racer) (x : Lane) (phase : Phase), Stage x t.world seen r.activity phase ∧
        x.fiber = f ∧ x.index = i := by
  by_cases hn : t.racers.length ≤ i
  · exact .inl (h.waiting i f hn hf)
  · obtain ⟨x, phase, hx, hstage⟩ :=
      h.racing i _ (List.getElem?_eq_getElem (Nat.lt_of_not_le hn))
    exact .inr ⟨_, x, phase, hstage, Option.some.inj (hx.fiber.symm.trans hf), hx.index⟩

/-- Every fiber of the race is there. -/
theorem exists_fiber (h : Stands nodes c wrap l seen t) (hf : f ∈ t.fibers) :
    ∃ s, t.world.fibers[f]? = some s := by
  obtain ⟨i, hi⟩ := List.getElem?_of_mem hf
  obtain ⟨s, hs, -⟩ | ⟨r, x, phase, hstage, rfl, -⟩ := h.fiber_cases hi
  · exact ⟨s, hs⟩
  · obtain ⟨s, hs, -⟩ := hstage.fiber
    exact ⟨s, hs⟩

/-- A step of somebody who is no racer, and who has not dispatched one. -/
theorem visited (h : Stands nodes c wrap l seen t) {w : World}
    (hcell : ∀ k, t.cell = some k → ∀ value, t.world.cells[k]? = some value →
      w.cells[k]? = some value)
    (hvisits : ∀ f ∈ t.fibers, ∀ s, t.world.fibers[f]? = some s →
      ∃ s', w.fibers[f]? = some s' ∧ Visit l f more s s')
    (hover : Overheard t.fibers more) :
    Stands nodes c wrap l (seen ++ more) { t with world := w } where
  caller := by
    refine h.caller.mono fun f hf s hs => ?_
    obtain ⟨s', hs', hv⟩ := hvisits f hf s hs
    exact ⟨s', hs', hv.connection⟩
  claimed k hk := by
    have hclaims : claims (seen ++ more) = claims seen := by
      rw [claims_append, hover.claims, List.append_nil]
    rw [Claimed, hclaims]
    obtain ⟨hc, hvalue⟩ | ⟨i, hc, hvalue⟩ := h.claimed k hk
    · exact .inl ⟨hc, hcell k hk _ hvalue⟩
    · exact .inr ⟨i, hc, hcell k hk _ hvalue⟩
  nodup := h.nodup
  waiting i f hi hf := by
    obtain ⟨s, hs, hv⟩ := h.waiting i f hi hf
    obtain ⟨s', hs', hvisit⟩ := hvisits f (List.mem_of_getElem? hf) s hs
    rw [taken_append]
    exact ⟨s', hs', hv.visit hvisit⟩
  racing i r hr := by
    obtain ⟨x, phase, hx, hstage⟩ := h.racing i r hr
    refine ⟨x, phase, hx, hstage.visited (fun s hs => ?_) (hover.course _)⟩
    rw [hx.callback]
    exact hvisits x.fiber (List.mem_of_getElem? hx.fiber) s hs
  known := h.known.append hover.known

/-- A step that changes neither cells nor fibers. -/
theorem keeps (h : Stands nodes c wrap l seen t) {w : World} (hw : t.world.Keeps w) :
    Stands nodes c wrap l seen { t with world := w } := by
  have hstands : Stands nodes c wrap l (seen ++ []) { t with world := w } :=
    h.visited (fun k _ value hvalue => hw.1 ▸ hvalue)
      (fun f _ s hs => ⟨s, hw.2 ▸ hs, .passed rfl⟩) overheard_nil
  rwa [List.append_nil] at hstands

theorem opensCell (h : Stands nodes c wrap l seen t) (hf : t.fibers = []) (hr : t.racers = [])
    {w : World} {a : Activity}
    (hcells : w.cells = t.world.cells.push ⟨none, 0⟩)
    (hc : Calling nodes c wrap l w a (some t.world.cells.size) [] 0) :
    Stands nodes c wrap l seen
      { t with world := w, caller := a, cell := some t.world.cells.size } where
  caller := by
    rw [hf, hr]
    exact hc
  claimed k hk := by
    obtain rfl := Option.some.inj hk
    have hknown := h.known
    rw [hr] at hknown
    refine .inl ⟨hknown.claims_eq_nil, ?_⟩
    rw [hcells]
    exact Array.getElem?_push_size
  nodup := h.nodup
  waiting i f hi hf' := by
    rw [hf] at hf'
    cases hf'
  racing i r hr' := by
    rw [hr] at hr'
    cases hr'
  known := h.known

theorem opensFiber (h : Stands nodes c wrap l seen t) (hr : t.racers = []) {w : World}
    {a : Activity} {d : ConnectionId} (hcells : w.cells = t.world.cells)
    (hfibers : w.fibers = t.world.fibers.push ⟨d, .new, .closed⟩)
    (hc : Calling nodes c wrap l w a t.cell (t.fibers ++ [t.world.fibers.size]) 0) :
    Stands nodes c wrap l seen
      { t with world := w, caller := a, fibers := t.fibers ++ [t.world.fibers.size] } where
  caller := by
    rw [hr]
    exact hc
  claimed k hk := by
    rw [Claimed, hcells]
    exact h.claimed k hk
  nodup := by
    rw [List.nodup_append]
    refine ⟨h.nodup, by simp, fun f hf g hg => ?_⟩
    obtain rfl := List.mem_singleton.1 hg
    obtain ⟨s, hs⟩ := h.exists_fiber hf
    exact Nat.ne_of_lt (Array.getElem?_eq_some_iff.1 hs).1
  waiting i f hi hf := by
    have hkept : ∀ s, t.world.fibers[f]? = some s → w.fibers[f]? = some s := by
      rw [hfibers]
      exact fun s => World.push_getElem?
    obtain hlt | hlt := Nat.lt_or_ge i t.fibers.length
    · rw [List.getElem?_append_left hlt] at hf
      obtain ⟨s, hs, hv⟩ := h.waiting i f hi hf
      exact ⟨s, hkept s hs, hv⟩
    · rw [List.getElem?_append_right hlt] at hf
      obtain rfl := List.mem_singleton.1 (List.mem_of_getElem? hf)
      have hnot : t.world.fibers.size ∉ t.fibers := by
        intro hmem
        obtain ⟨s, hs⟩ := h.exists_fiber hmem
        exact Nat.lt_irrefl _ (Array.getElem?_eq_some_iff.1 hs).1
      refine ⟨⟨d, .new, .closed⟩, ?_, rfl, h.known.taken_eq_nil hnot, none, rfl, (Option.some_ne_none l).symm⟩
      rw [hfibers]
      exact Array.getElem?_push_size
  racing i r hr' := by
    rw [hr] at hr'
    cases hr'
  known := h.known.mono (Nat.le_refl _) (List.subset_append_left _ _)

/-- Who is about to dispatch a task dispatches the next racer. -/
theorem next_racer (h : Stands nodes c wrap l seen t) {d : ContextId} {task : Code}
    {next : Reply → Code}
    (hc : t.caller = ⟨.code (.perform (.context d (.execute task)) next), []⟩) :
    ∃ k node f s, t.cell = some k ∧ t.fibers.length = nodes.length ∧
      nodes[t.racers.length]? = some node ∧ t.fibers[t.racers.length]? = some f ∧
        t.world.fibers[f]? = some s ∧
          task = (lane c wrap l k t.fibers t.racers.length f node s.connection).task ∧
            next = fun _ => forks c wrap l k t.fibers
              ((items nodes t.fibers).drop (t.racers.length + 1)) := by
  have hcalling := h.caller
  rw [hc] at hcalling
  generalize t.cell = cell, t.fibers = fibers, t.racers.length = n at hcalling
  cases hcalling.calls with
  | execute hlen hnode hf hs => exact ⟨_, _, _, _, rfl, hlen, hnode, hf, hs, rfl, rfl⟩

/-- A racer has been dispatched. -/
theorem dispatches (h : Stands nodes c wrap l seen t) {d : ContextId} {task : Code}
    {next : Reply → Code} (hc : t.caller = ⟨.code (.perform (.context d (.execute task)) next), []⟩)
    {w : World} (hw : t.world.Keeps w) (place : Place) :
    Stands nodes c wrap l seen
      { t with
        world := w
        caller := ⟨.code (next .unit), []⟩
        racers := t.racers ++ [⟨place, ⟨.code task, []⟩⟩] } := by
  have hstands := h.keeps hw
  obtain ⟨k, node, f, s, hcell, hlen, hnode, hf, hs, rfl, rfl⟩ := h.next_racer hc
  have hlength : ∀ r, (t.racers ++ [r]).length = t.racers.length + 1 := fun r => by simp
  have hgiven : Given nodes c wrap l t.cell t.fibers t.racers.length
      (lane c wrap l k t.fibers t.racers.length f node s.connection) :=
    ⟨rfl, hnode, rfl, hf, hcell, rfl, rfl⟩
  have hstage : Stage (lane c wrap l k t.fibers t.racers.length f node s.connection) w seen
      ⟨.code (lane c wrap l k t.fibers t.racers.length f node s.connection).task, []⟩
        .dispatched := by
    obtain ⟨s', hs', hv⟩ := hstands.waiting _ f (Nat.le_refl _) hf
    have hsame : w.fibers[f]? = some s := hw.2 ▸ hs
    obtain rfl := Option.some.inj (hsame.symm.trans hs')
    exact ⟨rfl, h.known.course_eq_nil (Nat.le_refl _), ⟨s, hs', rfl, hv⟩, nofun⟩
  refine ⟨?_, hstands.claimed, h.nodup, fun i f hi hf => ?_, fun i r hr => ?_, ?_⟩
  · rw [hlength, hcell]
    exact .forking hlen
  · have hi' : t.racers.length + 1 ≤ i := by simpa using hi
    exact hstands.waiting i f (Nat.le_of_succ_le hi') hf
  · obtain hlt | hge := Nat.lt_or_ge i t.racers.length
    · rw [List.getElem?_append_left hlt] at hr
      exact hstands.racing i r hr
    · obtain rfl : i = t.racers.length := by
        have hi := (List.getElem?_eq_some_iff.1 hr).1
        rw [hlength] at hi
        exact Nat.le_antisymm (Nat.le_of_lt_succ hi) hge
      rw [List.getElem?_concat_length] at hr
      obtain rfl := Option.some.inj hr
      exact ⟨_, _, hgiven, hstage⟩
  · rw [hlength]
    exact h.known.mono (Nat.le_succ _) (List.Subset.refl _)

theorem caller_moves (h : Stands nodes c wrap l seen t) {op : Op} {next : Reply → Code}
    (hc : t.caller = ⟨.code (.perform op next), []⟩)
    (hop : ∀ c task, op ≠ .context c (.execute task)) :
    Stands nodes c wrap l seen
      { t with
        world := (t.world.act t.place t.caller).1
        caller := (t.world.act t.place t.caller).2
        cell := t.cellAfter op
        fibers := t.fibersAfter op } := by
  have hcalling := h.caller
  rw [hc] at hcalling
  obtain ⟨w, place, caller, cell, fibers, racers⟩ := t
  obtain rfl : caller = ⟨.code (.perform op next), []⟩ := hc
  change Calling nodes c wrap l w _ cell fibers racers.length at hcalling
  generalize hn : racers.length = n at hcalling
  cases hcalling.calls with
  | cell => exact h.opensCell rfl (List.length_eq_zero_iff.1 hn) rfl (.opened [] nodes rfl rfl)
  | fiber before rest hnodes hlen =>
    have hnodes' : nodes = (before ++ [_]) ++ rest := hnodes.trans (List.append_cons ..)
    refine h.opensFiber (List.length_eq_zero_iff.1 hn) rfl rfl (.opened _ rest hnodes' ?_)
    simp [hlen]
  | @connection k _ _ node f hlen hnode hf =>
    subst hn
    obtain ⟨s, hs⟩ := h.exists_fiber (List.mem_of_getElem? hf)
    refine ⟨?_, h.claimed, h.nodup, h.waiting, h.racing, h.known⟩
    have hd : (w.fibers[f]?.getD (⟨.uncancelable, .new, .closed⟩ : Fiber.State)).connection =
        s.connection := by
      rw [hs]
      rfl
    have hnext : Calling nodes c wrap l w _ (some k) _ racers.length :=
      .dispatching hlen hnode hf hs
    rw [← hd] at hnext
    exact hnext
  | execute => exact absurd rfl (hop _ _)

/-- A racer's step leaves the others where they are. -/
theorem racer_moves (h : Stands nodes c wrap l seen t) {before after : List Racer} {place : Place}
    {a : Activity} (hr : t.racers = before ++ ⟨place, a⟩ :: after)
    (hs : a.stack ≠ [] ∨ a.control.settles = false)
    (hspares : a.stack ≠ [] → ∀ op, a.op? = some op → Spares t.cell t.fibers l op) :
    Stands nodes c wrap l (seen ++ signs t.world t.fibers before.length a)
      { t with
        world := (t.world.act place a).1
        racers := before ++ ⟨place, (t.world.act place a).2⟩ :: after } := by
  have hself : t.racers[before.length]? = some ⟨place, a⟩ := by simp [hr]
  have hlength : ∀ r : Racer, (before ++ r :: after).length = t.racers.length :=
    fun r => by simp [hr]
  obtain ⟨x, phase, hx, hstage⟩ := h.racing _ _ hself
  have hadvances : Advances x t.fibers t.world seen (signs t.world t.fibers x.index a)
      (t.world.act place a) := by
    refine racer_step hstage (h.claimed _ hx.cell) (List.mem_of_getElem? hx.fiber) hs fun ha op ho => ?_
    rw [← hx.cell, hx.callback]
    exact hspares ha op ho
  rw [hx.index] at hadvances
  have hne : ∀ {i f}, t.fibers[i]? = some f → i ≠ before.length → f ≠ x.fiber := by
    rintro i f hf hi rfl
    exact hi ((List.getElem?_inj (List.getElem?_eq_some_iff.1 hf).1 h.nodup).1
      (hf.trans hx.fiber.symm))
  have hvisits : ∀ {i f}, t.fibers[i]? = some f → i ≠ before.length → ∀ s,
      t.world.fibers[f]? = some s → ∃ s', (t.world.act place a).1.fibers[f]? = some s' ∧
        Visit l f (signs t.world t.fibers before.length a) s s' := by
    intro i f hf hi s hs
    rw [← hx.callback]
    exact hadvances.visits f (List.mem_of_getElem? hf) (hne hf hi) s hs
  have hknown : Known t.racers.length t.fibers (signs t.world t.fibers before.length a) := by
    intro sign hsign
    obtain hsign | hsign := hadvances.signs sign hsign
    · refine .inl ⟨before.length, ?_, hx.index ▸ hsign⟩
      exact (List.getElem?_eq_some_iff.1 hself).1
    · exact .inr hsign
  refine ⟨?_, fun k hk => ?_, h.nodup, fun i f hi hf => ?_, fun i r hi => ?_, ?_⟩
  · rw [hlength]
    refine h.caller.mono fun f hf s hs => ?_
    obtain ⟨i, hi, rfl⟩ := List.getElem_of_mem hf
    have hi' : t.fibers[i]? = some t.fibers[i] := List.getElem?_eq_getElem hi
    by_cases hib : i = before.length
    · obtain ⟨phase', hstage'⟩ := hadvances.stage
      obtain ⟨s', hs', hconn', -⟩ := hstage'.fiber
      obtain ⟨s₀, hs₀, hconn, -⟩ := hstage.fiber
      have hfiber : t.fibers[i] = x.fiber := by
        subst hib
        exact Option.some.inj (hi'.symm.trans hx.fiber)
      rw [hfiber] at hs ⊢
      obtain rfl := Option.some.inj (hs.symm.trans hs₀)
      exact ⟨s', hs', hconn'.trans hconn.symm⟩
    · obtain ⟨s', hs', hv⟩ := hvisits hi' hib s hs
      exact ⟨s', hs', hv.connection⟩
  · obtain rfl := Option.some.inj (hk.symm.trans hx.cell)
    exact hadvances.claimed
  · have hlt := (List.getElem?_eq_some_iff.1 hself).1
    have hi' : t.racers.length ≤ i := by
      rw [← hlength]
      exact hi
    obtain ⟨s, hs, hv⟩ := h.waiting i f hi' hf
    obtain ⟨s', hs', hvisit⟩ := hvisits hf (by omega) s hs
    rw [taken_append]
    exact ⟨s', hs', hv.visit hvisit⟩
  · by_cases hib : i = before.length
    · subst hib
      obtain ⟨phase', hstage'⟩ := hadvances.stage
      obtain rfl : r = ⟨place, (t.world.act place a).2⟩ := by
        simpa using hi.symm
      exact ⟨x, phase', hx, hstage'⟩
    · have hi' : t.racers[i]? = some r := by
        rw [← hi, hr]
        simp only [List.getElem?_append, List.getElem?_cons]
        split
        · rfl
        · split
          · omega
          · rfl
      obtain ⟨y, phase', hy, hstage'⟩ := h.racing i r hi'
      refine ⟨y, phase', hy, hstage'.visited (fun s hs => ?_) ?_⟩
      · rw [hy.callback]
        exact hvisits hy.fiber hib s hs
      · refine List.filter_eq_nil_iff.2 fun sign hsign => ?_
        obtain hsign | ⟨g, -, exit, rfl⟩ := hadvances.signs sign hsign
        · have hne : before.length ≠ i := fun hbi => hib hbi.symm
          simp [hsign, hx.index, hy.index, hne]
        · simp [Sign.racer?]
  · rw [hlength]
    exact h.known.append hknown

/-- A thread that is started with a task is told nothing else. -/
theorem spawned_activity {w : World} {here : Place} {d : ContextId} {task : Code} {thread : Thread}
    (h : (w.onContext here.home d (.execute task)).1.threads = w.threads.push thread) :
    thread.activity = ⟨.code task, []⟩ := by
  have hsize : w.threads ≠ w.threads.push thread := by
    intro he
    have := congrArg Array.size he
    simp at this
  simp only [World.onContext, World.spawnThread] at h
  split at h
  · exact absurd h hsize
  · split at h
    · exact absurd h hsize
    · split at h
      · have hpush := congrArg Array.back? h
        simp only [World.addThread, World.replying, Array.back?_push, Option.some.injEq] at hpush
        rw [← hpush]
        rfl
      · exact absurd h hsize
  · exact absurd h hsize

theorem step (h : Stands nodes c wrap l seen t) (hm : Moves l t more u) :
    Stands nodes c wrap l (seen ++ more) u := by
  have hexecute : ∀ {d task next w a},
      t.caller = ⟨.code (.perform (.context d (.execute task)) next), []⟩ →
        t.world.act t.place t.caller = (w, a) →
          w = (t.world.onContext t.place.home d (.execute task)).1 := by
    intro d task next w a hc hact
    rw [hc] at hact
    exact (congrArg Prod.fst hact).symm
  cases hm with
  | caller hc hop =>
    rw [List.append_nil]
    exact h.caller_moves hc hop
  | spawns hc hact hthread =>
    rw [List.append_nil]
    obtain rfl := hexecute hc hact
    rw [spawned_activity hthread]
    exact h.dispatches hc (World.onContext_keeps _ _ _) _
  | inPlace hc hact =>
    rw [List.append_nil]
    obtain rfl := hexecute hc hact
    exact h.dispatches hc (World.onContext_keeps _ _ _) _
  | refused hc hact =>
    rw [List.append_nil]
    obtain rfl := hexecute hc hact
    rename_i d task next message
    have hstands := h.keeps (World.onContext_keeps (w := t.world) t.place.home d (.execute task))
    obtain ⟨-, -, -, -, -, hlen, -⟩ := h.next_racer hc
    exact ⟨.failed _ hlen, hstands.claimed, h.nodup, hstands.waiting, hstands.racing, h.known⟩
  | racer hr hs hspares =>
    exact h.racer_moves hr hs fun hstack op hop => (hspares hstack op hop).1
  | other place a hspares =>
    obtain ⟨hcell, hvisits, hover⟩ := act_spares t.world place hspares
    exact h.visited hcell hvisits hover
  | idle w hcells hfibers =>
    rw [List.append_nil]
    exact h.keeps ⟨hcells, hfibers⟩

end Stands

theorem Runs.stands {w : World} {place : Place}
    (h : Runs l (asked (Race.start nodes c wrap l .guard) w place) seen t) :
    Stands nodes c wrap l seen t := by
  induction h with
  | start => exact asked_stands w place
  | move _ hm ih => exact ih.step hm

end Effects.Racing
