import Effects.Proofs.Race.Visits

/-!
The steps of a racer.
-/

namespace Effects.Racing

variable {x : Lane} {fibers : List FiberId} {w w' : World} {here : Place} {seen more : List Sign}
  {a a' : Activity} {phase phase' : Phase} {exit : Delivery}

/-- All that is seen is of this racer. -/
def Mine (x : Lane) (more : List Sign) : Prop := ∀ sign ∈ more, sign.racer? = some x.index

theorem mine_nil : Mine x [] := nofun

theorem mine_one {sign : Sign} (h : sign.racer? = some x.index) : Mine x [sign] := by
  intro sign' hs
  obtain rfl := List.mem_singleton.1 hs
  exact h

theorem Mine.course (h : Mine x more) : course x.index more = more :=
  List.filter_eq_self.2 fun sign hs => decide_eq_true (h sign hs)

theorem Mine.taken (h : Mine x more) (f : FiberId) : taken f more = [] := by
  refine List.filterMap_eq_nil_iff.2 fun sign hs => ?_
  have hsign := h sign hs
  cases sign <;> first | rfl | cases hsign

theorem Stage.next (h : Stage x w seen a phase) (hat : phase'.At x a') (hmine : Mine x more)
    (htrace : phase'.trace x = phase.trace x ++ more)
    (hfiber : ∀ s, w.fibers[x.fiber]? = some s →
      phase.Fiber x.callback (Racing.taken x.fiber seen) s →
        ∃ s', w'.fibers[x.fiber]? = some s' ∧ s'.connection = s.connection ∧
          phase'.Fiber x.callback (Racing.taken x.fiber seen) s')
    (hbeaten : phase'.Beaten → claims (seen ++ more) ≠ []) :
    Stage x w' (seen ++ more) a' phase' where
  at_ := hat
  trace := by rw [course_append, h.trace, hmine.course, htrace]
  fiber := by
    obtain ⟨s, hs, hconn, hf⟩ := h.fiber
    obtain ⟨s', hs', hconn', hf'⟩ := hfiber s hs hf
    refine ⟨s', hs', hconn'.trans hconn, ?_⟩
    rw [taken_append, hmine.taken, List.append_nil]
    exact hf'
  beaten := hbeaten

/-- What a racer's step comes to. -/
structure Advances (x : Lane) (fibers : List FiberId) (w : World) (seen more : List Sign)
    (next : World × Activity) : Prop where
  stage : ∃ phase, Stage x next.1 (seen ++ more) next.2 phase
  claimed : Claimed x.cell next.1 (seen ++ more)
  visits : ∀ f ∈ fibers, f ≠ x.fiber → ∀ s, w.fibers[f]? = some s →
    ∃ s', next.1.fibers[f]? = some s' ∧ Visit x.callback f more s s'
  signs : ∀ sign ∈ more, sign.racer? = some x.index ∨ ∃ g ∈ fibers, ∃ exit, sign = .heard g exit

theorem Claimed.append (h : Claimed x.cell w seen) (hw : w'.cells = w.cells)
    (hmore : claims more = []) : Claimed x.cell w' (seen ++ more) := by
  rw [Claimed, claims_append, hmore, List.append_nil, hw]
  exact h

/-- A step that leaves all cells and fibers as they are. -/
theorem Advances.of_keeps (phase' : Phase) (h : Stage x w seen a phase)
    (hk : Claimed x.cell w seen) (hw : w.Keeps w') (hat : phase'.At x a') (hmine : Mine x more)
    (htrace : phase'.trace x = phase.trace x ++ more) (hmore : claims more = [])
    (hfiber : ∀ gone s, phase.Fiber x.callback gone s → phase'.Fiber x.callback gone s)
    (hbeaten : phase'.Beaten → phase.Beaten ∨ claims seen ≠ []) :
    Advances x fibers w seen more (w', a') where
  stage := by
    refine ⟨phase', h.next hat hmine htrace (fun s hs hf => ⟨s, ?_, rfl, hfiber _ s hf⟩) ?_⟩
    · rw [hw.2]
      exact hs
    · intro hb
      rw [claims_append, hmore, List.append_nil]
      exact (hbeaten hb).elim h.beaten id
  claimed := hk.append hw.1 hmore
  visits f _ _ s hs := ⟨s, hw.2 ▸ hs, .passed (hmine.taken f)⟩
  signs sign hs := .inl (hmine sign hs)

theorem dispatched_step (h : Stage x w seen a .dispatched) (hk : Claimed x.cell w seen) :
    Advances x fibers w seen (signs w fibers x.index a) (w.act here a) := by
  obtain rfl : a = ⟨.code x.task, []⟩ := h.at_
  exact .of_keeps .beginning h hk (.refl w) rfl mine_nil rfl rfl (fun _ _ => id) nofun

theorem beginning_step (h : Stage x w seen a .beginning) (hk : Claimed x.cell w seen) :
    Advances x fibers w seen (signs w fibers x.index a) (w.act here a) := by
  obtain rfl : a = ⟨.code x.body, [.attempt x.caught]⟩ := h.at_
  have hgives : (Frame.call .give).Awaits Gives := fun r => ⟨r, rfl⟩
  have hmine : Mine x [.began x.index (.focus x.node []) x.run] := mine_one rfl
  refine .of_keeps .running h hk (.refl w) ⟨_, .inside ⟨.drive _ _, []⟩ hgives, rfl⟩
    hmine rfl rfl (fun _ _ => id) nofun

/-- The computation has ended, or goes on above the frame that catches its end. -/
theorem running_cases {b : Activity} (h : Ahead Gives b) :
    (∃ r, b = ⟨.code (.give r), []⟩) ∨ (∃ message, b = ⟨.unwinding message, []⟩) ∨
      b.stack ≠ [] := by
  cases h with
  | code h =>
    obtain ⟨r, rfl⟩ := h
    exact .inl ⟨r, rfl⟩
  | unwinding message => exact .inr (.inl ⟨message, rfl⟩)
  | inside b hf => exact .inr (.inr (by simp [Activity.atop]))

theorem signs_running {b : Activity} (hb : b.stack ≠ []) (i : Nat) :
    signs w fibers i (b.atop [.attempt x.caught]) =
      ((b.atop [.attempt x.caught]).op?.map (heard w fibers)).getD [] := by
  obtain ⟨control, stack⟩ := b
  cases stack with
  | nil => exact absurd rfl hb
  | cons frame stack =>
    have hne : stack ++ [Frame.attempt x.caught] ≠ [] := by simp
    cases hstack : stack ++ [Frame.attempt x.caught] with
    | nil => exact absurd hstack hne
    | cons frame' stack' =>
      cases control with
      | code c => cases c <;> simp [signs, Activity.atop, Activity.op?, hstack]
      | _ => simp [signs, Activity.atop, Activity.op?, hstack]

/-- What is done by an activity that leaves the race's cell and the fibers to the racers. -/
theorem act_spares {cell? : Option CellId} {l : LatchId} (w : World) (here : Place)
    (h : ∀ op, a.op? = some op → Spares cell? fibers l op) :
    (∀ k, cell? = some k → ∀ value, w.cells[k]? = some value →
      (w.act here a).1.cells[k]? = some value) ∧
    (∀ f ∈ fibers, ∀ s, w.fibers[f]? = some s → ∃ s', (w.act here a).1.fibers[f]? = some s' ∧
      Visit l f ((a.op?.map (heard w fibers)).getD []) s s') ∧
    Overheard fibers ((a.op?.map (heard w fibers)).getD []) := by
  rw [World.act_world]
  cases ho : a.op? with
  | none => exact ⟨fun _ _ _ => id, fun f _ s hs => ⟨s, hs, .passed rfl⟩, overheard_nil⟩
  | some op =>
    have hspares := h op ho
    exact ⟨fun k hk value => hspares.cell here hk, fun f hf s hs => hspares.visits here hf hs,
      overheard w fibers op⟩

theorem Claimed.kept (h : Claimed x.cell w seen)
    (hw : ∀ value, w.cells[x.cell]? = some value → w'.cells[x.cell]? = some value)
    (hmore : claims more = []) : Claimed x.cell w' (seen ++ more) := by
  rw [Claimed, claims_append, hmore, List.append_nil]
  obtain ⟨hc, hcell⟩ | ⟨i, hc, hcell⟩ := h
  · exact .inl ⟨hc, hw _ hcell⟩
  · exact .inr ⟨i, hc, hw _ hcell⟩

theorem running_step (h : Stage x w seen a .running) (hk : Claimed x.cell w seen)
    (hmem : x.fiber ∈ fibers)
    (hspares : ∀ op, a.op? = some op → Spares (some x.cell) fibers x.callback op) :
    Advances x fibers w seen (signs w fibers x.index a) (w.act here a) := by
  obtain ⟨b, hb, rfl⟩ := h.at_
  obtain ⟨r, rfl⟩ | ⟨message, rfl⟩ | hstack := running_cases hb
  · have hact : w.act here ((⟨.code (.give r), []⟩ : Activity).atop [.attempt x.caught]) =
        (w, ⟨.code (x.reading (.ok r.toExit)), []⟩) := by
      cases r <;> rfl
    rw [hact]
    exact .of_keeps (.reading (.ok r.toExit)) h hk (.refl w) rfl (mine_one rfl) rfl rfl
      (fun _ _ => id) nofun
  · refine .of_keeps (.reading (.error message)) h hk (.refl w) rfl (mine_one rfl) rfl rfl
      (fun _ _ => id) nofun
  · obtain ⟨hcell, hvisits, hover⟩ := act_spares w here hspares
    have hb' := hb.act gives_stable w here (.inl hstack)
    have hact := World.act_atop w here b [.attempt x.caught] (.inl hstack)
    rw [signs_running hstack]
    refine ⟨⟨.running, ?_⟩, hk.kept (hcell _ rfl) hover.claims, fun f hf _ => hvisits f hf,
      fun sign hs => .inr (hover sign hs)⟩
    have hstage := h.visited (hvisits x.fiber hmem) (hover.course _)
    refine ⟨⟨_, hb', ?_⟩, hstage.trace, hstage.fiber, hstage.beaten⟩
    rw [hact]

theorem reading_step (h : Stage x w seen a (.reading exit)) (hk : Claimed x.cell w seen) :
    Advances x fibers w seen (signs w fibers x.index a) (w.act here a) := by
  obtain rfl : a = ⟨.code (x.reading exit), []⟩ := h.at_
  have hact : w.act here ⟨.code (x.reading exit), []⟩ =
      (w, ⟨.code (if (w.cells[x.cell]?.getD ⟨none, 0⟩).value.isSome then x.recording exit
        else x.writing exit (w.cells[x.cell]?.getD ⟨none, 0⟩)), []⟩) := rfl
  obtain ⟨hc, hcell⟩ | ⟨i, hc, hcell⟩ := id hk
  · rw [hact, hcell]
    exact .of_keeps (.writing exit) h hk (.refl w) rfl mine_nil rfl rfl (fun _ _ => id)
      nofun
  · rw [hact, hcell]
    refine .of_keeps (.recording exit) h hk (.refl w) rfl mine_nil rfl rfl
      (fun _ _ => id) fun _ => .inr ?_
    rw [hc]
    exact List.cons_ne_nil _ _

theorem writing_step (h : Stage x w seen a (.writing exit)) (hk : Claimed x.cell w seen) :
    Advances x fibers w seen (signs w fibers x.index a) (w.act here a) := by
  obtain rfl : a = ⟨.code (x.writing exit ⟨none, 0⟩), []⟩ := h.at_
  obtain ⟨hc, hcell⟩ | ⟨i, hc, hcell⟩ := id hk
  · have hsigns : signs w fibers x.index ⟨.code (x.writing exit ⟨none, 0⟩), []⟩ =
        [.claimed x.index] := by
      simp [signs, Lane.writing, shown, hcell, Cell.compareAndSet]
    have hact : w.act here ⟨.code (x.writing exit ⟨none, 0⟩), []⟩ =
        ({ w with cells := w.cells.setIfInBounds x.cell ⟨some x.index, 1⟩ },
          ⟨.code (x.calling exit), []⟩) := by
      simp [World.act, Lane.writing, World.perform, World.replying, Activity.respond, hcell,
        Cell.compareAndSet, Cell.set, Reply.toFlag]
    have hmine : Mine x [.claimed x.index] := mine_one rfl
    obtain ⟨hi, -⟩ := Array.getElem?_eq_some_iff.1 hcell
    rw [hsigns, hact]
    refine ⟨⟨.calling exit, h.next rfl hmine rfl (fun s hs hf => ⟨s, hs, rfl, hf⟩) False.elim⟩,
      .inr ⟨x.index, ?_, ?_⟩, fun f _ _ s hs => ⟨s, hs, .passed (hmine.taken f)⟩,
      fun sign hs => .inl (hmine sign hs)⟩
    · rw [claims_append, hc]
      rfl
    · simp [hi]
  · have hsigns : signs w fibers x.index ⟨.code (x.writing exit ⟨none, 0⟩), []⟩ = [] := by
      simp [signs, Lane.writing, shown, hcell, Cell.compareAndSet]
    have hact : w.act here ⟨.code (x.writing exit ⟨none, 0⟩), []⟩ =
        ({ w with cells := w.cells.setIfInBounds x.cell ⟨some i, 1⟩ },
          ⟨.code (x.recording exit), []⟩) := by
      simp [World.act, Lane.writing, World.perform, World.replying, Activity.respond, hcell,
        Cell.compareAndSet, Reply.toFlag]
    have hsame : w.cells.setIfInBounds x.cell ⟨some i, 1⟩ = w.cells := by
      obtain ⟨hi, hvalue⟩ := Array.getElem?_eq_some_iff.1 hcell
      simp [Array.setIfInBounds, hi, ← hvalue]
    rw [hsigns, hact]
    refine .of_keeps (.recording exit) h hk ⟨hsame, rfl⟩ rfl mine_nil rfl rfl
      (fun _ _ => id) fun _ => .inr ?_
    rw [hc]
    exact List.cons_ne_nil _ _

theorem calling_step (h : Stage x w seen a (.calling exit)) (hk : Claimed x.cell w seen) :
    Advances x fibers w seen (signs w fibers x.index a) (w.act here a) := by
  obtain rfl : a = ⟨.code (x.calling exit), []⟩ := h.at_
  exact .of_keeps (.won exit) h hk ⟨rfl, rfl⟩ rfl (mine_one rfl) rfl rfl
      (fun _ _ => id) nofun

theorem recording_step (h : Stage x w seen a (.recording exit)) (hk : Claimed x.cell w seen) :
    Advances x fibers w seen (signs w fibers x.index a) (w.act here a) := by
  obtain rfl : a = ⟨.code (x.recording exit), []⟩ := h.at_
  obtain ⟨s, hs, -, hgate, hgone, joiner, hslot, hjoiner⟩ := h.fiber
  have hworld : (w.act here ⟨.code (x.recording exit), []⟩).1 =
      (w.onFiber x.fiber (.complete exit)).1 := rfl
  have hself : (w.onFiber x.fiber (.complete exit)).1.fibers[x.fiber]? =
      some { s with slot := (s.slot.complete exit).1 } := World.onFiber_self hs _
  have hmine : Mine x [.recorded x.index x.fiber exit] := mine_one rfl
  have hbeaten : claims (seen ++ [.recorded x.index x.fiber exit]) ≠ [] := by
    rw [claims_append]
    exact fun hc => h.beaten trivial (List.append_eq_nil_iff.1 hc).1
  have hact : (w.act here ⟨.code (x.recording exit), []⟩).2 =
      ⟨.code (joiner.elim x.opening (x.handing exit)), []⟩ := by
    cases joiner <;> simp [World.act, Lane.recording, World.perform, World.onFiber, World.replying,
      Activity.respond, hs, hslot, FiberSlot.complete, Reply.toJoiner]
  have hnext : ∃ phase, Stage x (w.onFiber x.fiber (.complete exit)).1
      (seen ++ [.recorded x.index x.fiber exit])
        (w.act here ⟨.code (x.recording exit), []⟩).2 phase := by
    rw [hact]
    cases joiner with
    | none =>
      refine ⟨.opening exit none, h.next rfl hmine rfl (fun s' hs' _ => ?_) fun _ => hbeaten⟩
      obtain rfl := Option.some.inj (hs.symm.trans hs')
      exact ⟨_, hself, rfl, hgate, (Option.some_ne_none _).symm, .inl ⟨by rw [hslot]; rfl, hgone⟩⟩
    | some joiner =>
      refine ⟨.handing exit joiner, h.next rfl hmine rfl (fun s' hs' _ => ?_) fun _ => hbeaten⟩
      obtain rfl := Option.some.inj (hs.symm.trans hs')
      exact ⟨_, hself, rfl, hgate, fun hj => hjoiner (congrArg some hj), by rw [hslot]; rfl, hgone⟩
  refine ⟨?_, ?_, fun f _ hf s' hs' => ?_, fun sign hs => .inl (hmine sign hs)⟩
  · rw [hworld]
    exact hnext
  · exact hk.append (by rw [hworld, World.onFiber_cells]) rfl
  · refine ⟨s', ?_, .passed (hmine.taken f)⟩
    rw [hworld, World.onFiber_other hf.symm]
    exact hs'

theorem handing_step {joiner : LatchId} (h : Stage x w seen a (.handing exit joiner))
    (hk : Claimed x.cell w seen) :
    Advances x fibers w seen (signs w fibers x.index a) (w.act here a) := by
  obtain rfl : a = ⟨.code (x.handing exit joiner), []⟩ := h.at_
  exact .of_keeps (.opening exit (some joiner)) h hk ⟨rfl, rfl⟩ rfl (mine_one rfl) rfl rfl
    (fun gone s hf => ⟨hf.1, fun hj => hf.2.1 (Option.some.inj hj), hf.2.2⟩) fun _ => .inl trivial

theorem opening_step {joiner : Option LatchId} (h : Stage x w seen a (.opening exit joiner))
    (hk : Claimed x.cell w seen) :
    Advances x fibers w seen (signs w fibers x.index a) (w.act here a) := by
  obtain rfl : a = ⟨.code x.opening, []⟩ := h.at_
  have hmine : Mine x [.opened x.index x.fiber] := mine_one rfl
  have hworld : (w.act here ⟨.code x.opening, []⟩).1 = (w.onFiber x.fiber .openGate).1 := rfl
  refine ⟨⟨.lost exit joiner, h.next rfl hmine rfl (fun s hs hf => ?_) fun _ => ?_⟩, ?_,
    fun f _ hf s hs => ?_, fun sign hs => .inl (hmine sign hs)⟩
  · exact ⟨_, World.onFiber_self hs .openGate, rfl, rfl, hf.2⟩
  · rw [claims_append]
    exact fun hc => h.beaten trivial (List.append_eq_nil_iff.1 hc).1
  · exact hk.append (by rw [hworld, World.onFiber_cells]) rfl
  · refine ⟨s, ?_, .passed (hmine.taken f)⟩
    rw [hworld, World.onFiber_other hf.symm]
    exact hs

theorem racer_step (h : Stage x w seen a phase) (hk : Claimed x.cell w seen)
    (hmem : x.fiber ∈ fibers) (hs : a.stack ≠ [] ∨ a.control.settles = false)
    (hspares : a.stack ≠ [] → ∀ op, a.op? = some op →
      Spares (some x.cell) fibers x.callback op) :
    Advances x fibers w seen (signs w fibers x.index a) (w.act here a) := by
  cases phase with
  | dispatched => exact dispatched_step h hk
  | beginning => exact beginning_step h hk
  | running =>
    obtain ⟨b, -, rfl⟩ := id h.at_
    exact running_step h hk hmem (hspares (by simp [Activity.atop]))
  | reading exit => exact reading_step h hk
  | writing exit => exact writing_step h hk
  | calling exit => exact calling_step h hk
  | recording exit => exact recording_step h hk
  | handing exit joiner => exact handing_step h hk
  | opening exit joiner => exact opening_step h hk
  | won exit | lost exit joiner =>
    obtain rfl : a = ⟨.code (.give .unit), []⟩ := h.at_
    simp [Control.settles] at hs

end Effects.Racing
