import Effects.Proofs.Group.Stage
import Effects.Proofs.Race.Racer

/-!
The steps of a branch.
-/

namespace Effects.Gathering

open Routine

variable {x : Lane} {conns : List ConnectionId} {cell : Option CellId} {latches : List LatchId}
  {w w' : World} {here : Place} {seen more : List Sign} {a a' : Activity} {phase phase' : Phase}
  {taken : Bool} {exit : Delivery}

/-- What is the group's stays as it is, and a connection stays canceled. -/
structure Kept (conns : List ConnectionId) (cell : Option CellId) (latches : List LatchId)
    (w w' : World) : Prop where
  cell : ∀ k, cell = some k → ∀ value, w.cells[k]? = some value → w'.cells[k]? = some value
  canceled : ∀ d ∈ conns, w.isCanceled d = true → w'.isCanceled d = true
  cancelable : ∀ d ∈ conns, w.Cancelable d → w'.Cancelable d
  latch : ∀ l ∈ latches, ∀ latch, w.latches[l]? = some latch → w'.latches[l]? = some latch

theorem Kept.refl (w : World) : Kept conns cell latches w w :=
  ⟨fun _ _ _ => id, fun _ _ => id, fun _ _ => id, fun _ _ _ => id⟩

theorem Kept.of_eq (hcells : w'.cells = w.cells) (hconnections : w'.connections = w.connections)
    (hlatches : w'.latches = w.latches) : Kept conns cell latches w w' where
  cell k _ value h := by rwa [hcells]
  canceled d _ h := by rwa [World.isCanceled_iff, hconnections, ← World.isCanceled_iff]
  cancelable d _ h := by rwa [World.Cancelable, hconnections]
  latch l _ latch h := by rwa [hlatches]

theorem Kept.perform (here : Place) {op : Op} (hspares : Spares conns cell latches op)
    (hlatches : ∀ l ∈ latches, w.delivered? l op = none) :
    Kept conns cell latches w (w.perform here op).1 where
  cell k hk value hvalue := by
    refine World.perform_cell hvalue fun seen n hop => ?_
    subst hop
    exact hspares hk
  canceled d hd h := by
    refine World.perform_isCanceled here _ h fun hop => ?_
    subst hop
    exact hspares hd
  cancelable d _ h := h.perform here op
  latch l hl latch h := by
    have hop : op ≠ .await l := by
      rintro rfl
      exact hspares hl
    rw [World.perform_latch h hop, hlatches l hl]
    rfl

theorem Kept.act {w : World} (here : Place) (h : ∀ op, a.op? = some op →
      Spares conns cell latches op ∧ ∀ l ∈ latches, w.delivered? l op = none) :
    Kept conns cell latches w (w.act here a).1 := by
  rw [World.act_world]
  cases ho : a.op? with
  | none => exact .refl w
  | some op => exact .perform here (h op ho).1 (h op ho).2

/-- All that is seen is of this branch. -/
def Mine (x : Lane) (more : List Sign) : Prop := ∀ sign ∈ more, sign.branch = x.index

theorem mine_nil : Mine x [] := nofun

theorem mine_one {sign : Sign} (h : sign.branch = x.index) : Mine x [sign] := by
  intro sign' hs
  obtain rfl := List.mem_singleton.1 hs
  exact h

theorem Mine.course (h : Mine x more) : course x.index more = more :=
  List.filter_eq_self.2 fun sign hs => decide_eq_true (h sign hs)

theorem Stage.mem_trace (h : Stage x w seen a phase taken) {sign : Sign}
    (hi : sign.branch = x.index) : sign ∈ seen ↔ sign ∈ phase.trace x := by
  rw [← h.trace, mem_course]
  exact ⟨fun hs => ⟨hs, hi⟩, fun hs => hs.1⟩

/-- What a branch's step comes to. -/
structure Advances (x : Lane) (conns : List ConnectionId) (latches : List LatchId) (taken : Bool)
    (w : World) (seen more : List Sign) (next : World × Activity) : Prop where
  stage : ∃ phase, Stage x next.1 (seen ++ more) next.2 phase taken
  claimed : Claimed x.cell next.1 (seen ++ more)
  kept : Kept conns none (latches.filter (· ≠ x.callback)) w next.1
  mine : Mine x more
  induced : Induced (seen ++ more)

/-- A step that leaves to the group what is the group's. -/
theorem Advances.of_kept (phase' : Phase) (h : Stage x w seen a phase taken)
    (hk : Claimed x.cell w seen) (hinduced : Induced seen)
    (hw : Kept conns (some x.cell) latches w w') (hat : phase'.At x a') (hmine : Mine x more)
    (hcallback : x.callback ∈ latches)
    (htrace : phase'.trace x = phase.trace x ++ more) (hmore : claims more = [])
    (hcancels : ∀ i d, .canceled i d ∉ more) (hfacts : phase'.Facts x w' (seen ++ more))
    (hlatch : ∀ taken, phase'.latch taken = phase.latch taken)
    (hover : ∀ exit won, phase = .finished exit won → ∃ exit won, phase' = .finished exit won) :
    Advances x conns latches taken w seen more (w', a') where
  stage := by
    refine ⟨phase', hat, ?_, hfacts, ?_, fun ht => ?_⟩
    · rw [course_append, h.trace, hmine.course, htrace]
    · rw [hlatch]
      exact hw.latch _ hcallback _ h.latch
    · obtain ⟨exit, won, hphase⟩ := h.finished ht
      exact hover exit won hphase
  claimed := hk.kept (hw.cell _ rfl) hmore
  kept := ⟨nofun, hw.canceled, hw.cancelable, fun l hl => hw.latch l (List.mem_filter.1 hl).1⟩
  mine := hmine
  induced := hinduced.append_of_not_canceled hcancels

theorem signs_eq_nil {i : Nat} (h : a.stack ≠ []) (h' : ∀ next, a.stack ≠ [.attempt next]) :
    signs w i a = [] := by
  unfold signs
  split <;> simp_all

/-- A branch calls back. -/
theorem Advances.delivers (won : Bool) (h : Stage x w seen a phase taken)
    (ha : a = ⟨.code (x.calling exit), []⟩) (hk : Claimed x.cell w seen) (hinduced : Induced seen)
    (hover : ∀ exit won, phase ≠ .finished exit won)
    (htrace : (Phase.finished exit won).trace x =
      phase.trace x ++ [.called x.index x.callback (exit.map .outcome)])
    (hfacts : ∀ w', (∀ d, w.isCanceled d = true → w'.isCanceled d = true) → ∀ more,
      (Phase.finished exit won).Facts x w' (seen ++ more)) :
    Advances x conns latches taken w seen (signs w x.index a) (w.act here a) := by
  subst ha
  have hsigns : signs w x.index ⟨.code (x.calling exit), []⟩ =
      [.called x.index x.callback (exit.map .outcome)] := rfl
  have hact : w.act here ⟨.code (x.calling exit), []⟩ =
      (w.settle x.callback (exit.map .outcome), ⟨.code (.give .unit), []⟩) := rfl
  have hmine : Mine x [.called x.index x.callback (exit.map .outcome)] := mine_one rfl
  have htaken : taken = false := by
    refine Bool.eq_false_iff.2 fun ht => ?_
    obtain ⟨exit, won, hphase⟩ := h.finished ht
    exact hover exit won hphase
  have hempty : phase.latch taken = .empty := by
    cases phase with
    | finished exit won => exact absurd rfl (hover exit won)
    | _ => rfl
  have hlatch := h.latch
  rw [hempty] at hlatch
  rw [hsigns, hact]
  refine ⟨⟨.finished exit won, rfl, ?_, hfacts _ (fun _ => id) _, ?_, fun _ => ⟨exit, won, rfl⟩⟩,
    hk.kept (fun _ => id) rfl, ⟨nofun, fun _ _ => id, fun _ _ => id, fun l hl latch hl' => ?_⟩,
    hmine, hinduced.append_of_not_canceled (by simp)⟩
  · rw [course_append, h.trace, hmine.course, htrace]
  · subst htaken
    rw [World.settle_latch hlatch, if_pos rfl]
    rfl
  · have hne : l ≠ x.callback := by simpa using (List.mem_filter.1 hl).2
    rw [World.settle_latch hl', if_neg hne.symm]

section Steps

variable (hk : Claimed x.cell w seen) (hinduced : Induced seen) (hcallback : x.callback ∈ latches)
include hk hinduced hcallback

theorem dispatched_step (h : Stage x w seen a .dispatched taken) :
    Advances x conns latches taken w seen (signs w x.index a) (w.act here a) := by
  obtain rfl : a = ⟨.code x.task, []⟩ := h.at_
  exact .of_kept .beginning h hk hinduced (.refl w) rfl mine_nil hcallback rfl rfl nofun trivial
    (fun _ => rfl) nofun

theorem beginning_step (h : Stage x w seen a .beginning taken) :
    Advances x conns latches taken w seen (signs w x.index a) (w.act here a) := by
  obtain rfl : a = ⟨.code x.body, [.attempt x.caught]⟩ := h.at_
  have hgives : (Frame.call .give).Awaits Racing.Gives := fun r => ⟨r, rfl⟩
  have hmine : Mine x [Phase.began x] := mine_one rfl
  have hsigns : signs w x.index ⟨.code x.body, [.attempt x.caught]⟩ = [Phase.began x] := rfl
  rw [hsigns]
  exact .of_kept .running h hk hinduced (.refl w) ⟨_, .inside ⟨.drive _ _, []⟩ hgives, rfl⟩ hmine
    hcallback rfl rfl (by simp [Phase.began]) trivial (fun _ => rfl) nofun

omit hinduced hcallback in
theorem claims_ne_nil_of_cell {i : Nat} {version : Nat}
    (h : w.cells[x.cell]? = some ⟨some i, version⟩) : claims seen ≠ [] := by
  obtain ⟨-, hcell⟩ | ⟨j, hc, -⟩ := hk
  · rw [h] at hcell
    cases hcell
  · rw [hc]
    exact List.cons_ne_nil _ _

theorem ended_step (exit : Delivery) {a : Activity} (h : Stage x w seen a .running taken)
    (hsigns : signs w x.index a = [.ended x.index exit])
    (hact : w.act here a = (w, ⟨.code (x.reporting exit), []⟩)) :
    Advances x conns latches taken w seen (signs w x.index a) (w.act here a) := by
  have hmine : Mine x [.ended x.index exit] := mine_one rfl
  rw [hsigns, hact, Lane.reporting]
  cases hc : completes exit with
  | true =>
    exact .of_kept (.calling exit) h hk hinduced (.refl w) rfl hmine hcallback rfl rfl (by simp)
      (.inl hc) (fun _ => rfl) nofun
  | false =>
    exact .of_kept (.reading exit) h hk hinduced (.refl w) rfl hmine hcallback rfl rfl (by simp)
      hc (fun _ => rfl) nofun

theorem running_step (h : Stage x w seen a .running taken)
    (hleaves : ∀ op, a.op? = some op →
      Spares conns (some x.cell) latches op ∧ ∀ l ∈ latches, w.delivered? l op = none) :
    Advances x conns latches taken w seen (signs w x.index a) (w.act here a) := by
  obtain ⟨b, hb, rfl⟩ := h.at_
  obtain ⟨r, rfl⟩ | ⟨message, rfl⟩ | hstack := Racing.running_cases hb
  · exact ended_step hk hinduced hcallback (.ok r.toExit) h rfl (by cases r <;> rfl)
  · exact ended_step hk hinduced hcallback (.error message) h rfl rfl
  · have hsigns : signs w x.index (b.atop [.attempt x.caught]) = [] := by
      refine signs_eq_nil (by simp [Activity.atop]) fun next hnext => hstack ?_
      simpa [Activity.atop] using congrArg List.length hnext
    have hkept := Kept.act here hleaves
    have hb' := hb.act Racing.gives_stable w here (.inl hstack)
    have hact := World.act_atop w here b [.attempt x.caught] (.inl hstack)
    rw [hact] at hkept ⊢
    rw [hsigns]
    exact .of_kept .running h hk hinduced hkept ⟨_, hb', rfl⟩ mine_nil hcallback
      (List.append_nil _).symm rfl (fun _ _ => List.not_mem_nil) trivial (fun _ => rfl)
      (by rintro _ _ ⟨⟩)

theorem reading_step (h : Stage x w seen a (.reading exit) taken) :
    Advances x conns latches taken w seen (signs w x.index a) (w.act here a) := by
  obtain rfl : a = ⟨.code (x.reading exit), []⟩ := h.at_
  have hact : w.act here ⟨.code (x.reading exit), []⟩ =
      (w, ⟨.code (if (w.cells[x.cell]?.getD ⟨none, 0⟩).value.isSome then x.calling exit
        else x.writing exit (w.cells[x.cell]?.getD ⟨none, 0⟩)), []⟩) := rfl
  obtain ⟨hc, hcell⟩ | ⟨i, hc, hcell⟩ := id hk
  · rw [hact, hcell]
    exact .of_kept (.writing exit) h hk hinduced (.refl w) rfl mine_nil hcallback rfl rfl nofun
      h.facts (fun _ => rfl) nofun
  · rw [hact, hcell]
    exact .of_kept (.calling exit) h hk hinduced (.refl w) rfl mine_nil hcallback rfl rfl nofun
      (.inr (claims_ne_nil (claims_ne_nil_of_cell hk hcell))) (fun _ => rfl) nofun

theorem writing_step (h : Stage x w seen a (.writing exit) taken) :
    Advances x conns latches taken w seen (signs w x.index a) (w.act here a) := by
  obtain rfl : a = ⟨.code (x.writing exit ⟨none, 0⟩), []⟩ := h.at_
  obtain ⟨hc, hcell⟩ | ⟨i, hc, hcell⟩ := id hk
  · have hsigns : signs w x.index ⟨.code (x.writing exit ⟨none, 0⟩), []⟩ =
        [.claimed x.index] := by
      simp [signs, Lane.writing, shown, hcell, Cell.compareAndSet]
    have hact : w.act here ⟨.code (x.writing exit ⟨none, 0⟩), []⟩ =
        ({ w with cells := w.cells.setIfInBounds x.cell ⟨some x.index, 1⟩ },
          ⟨.code (x.canceling exit x.others), []⟩) := by
      simp [World.act, Lane.writing, World.perform, World.replying, Activity.respond, hcell,
        Cell.compareAndSet, Cell.set, Reply.toFlag]
    have hmine : Mine x [.claimed x.index] := mine_one rfl
    obtain ⟨hi, -⟩ := Array.getElem?_eq_some_iff.1 hcell
    rw [hsigns, hact]
    refine ⟨⟨.canceling exit [] x.others, .code, ?_,
        ⟨h.facts, rfl, fun _ hd => absurd hd List.not_mem_nil⟩, h.latch, fun ht => ?_⟩,
      .inr ⟨x.index, ?_, ?_⟩, ⟨(by rintro _ ⟨⟩), fun _ _ => id, fun _ _ => id, fun _ _ _ => id⟩,
      hmine, hinduced.append_of_not_canceled (by simp)⟩
    · rw [course_append, h.trace, hmine.course]
      rfl
    · obtain ⟨exit, won, hphase⟩ := h.finished ht
      cases hphase
    · rw [claims_append, hc]
      rfl
    · simp [hi]
  · have hsigns : signs w x.index ⟨.code (x.writing exit ⟨none, 0⟩), []⟩ = [] := by
      simp [signs, Lane.writing, shown, hcell, Cell.compareAndSet]
    have hsame : w.cells.setIfInBounds x.cell ⟨some i, 1⟩ = w.cells := by
      obtain ⟨hi, hvalue⟩ := Array.getElem?_eq_some_iff.1 hcell
      simp [Array.setIfInBounds, hi, ← hvalue]
    have hact : w.act here ⟨.code (x.writing exit ⟨none, 0⟩), []⟩ =
        (w, ⟨.code (x.calling exit), []⟩) := by
      simp [World.act, Lane.writing, World.perform, World.replying, Activity.respond, hcell,
        Cell.compareAndSet, Reply.toFlag, hsame]
    rw [hsigns, hact]
    exact .of_kept (.calling exit) h hk hinduced (.refl w) rfl mine_nil hcallback rfl rfl
      (fun _ _ => List.not_mem_nil) (.inr (claims_ne_nil (claims_ne_nil_of_cell hk hcell)))
      (fun _ => rfl) (by rintro _ _ ⟨⟩)

omit hcallback in
/-- Who has recorded its failure cancels the next sibling. -/
theorem cancels_step {done rest : List ConnectionId} {d : ConnectionId}
    (h : Stage x w seen a (.canceling exit done (d :: rest)) taken)
    (ha : a = ⟨.code (x.canceling exit (d :: rest)), []⟩) (hd : w.Cancelable d) :
    Advances x conns latches taken w seen (signs w x.index a) (w.act here a) := by
  subst ha
  obtain ⟨hfails, hsplit, hdone⟩ := h.facts
  obtain ⟨tokens, hact⟩ : ∃ tokens, w.act here ⟨.code (x.canceling exit (d :: rest)), []⟩ =
      ((w.onConnection d .cancel).1,
        .runTokens tokens none (fun _ => x.canceling exit rest) []) := ⟨_, rfl⟩
  have hsigns : signs w x.index ⟨.code (x.canceling exit (d :: rest)), []⟩ =
      [.canceled x.index d] := rfl
  have hmine : Mine x [.canceled x.index d] := mine_one rfl
  have hmono : ∀ e, w.isCanceled e = true → (w.onConnection d .cancel).1.isCanceled e = true :=
    fun e he => World.perform_isCanceled here (.connection d .cancel) he nofun
  have hlatches : (w.onConnection d .cancel).1.latches = w.latches :=
    World.onConnection_latches d .cancel
  have hclaims : claims seen = [x.index] :=
    hk.eq_of_mem (mem_claims.2 ((h.mem_trace rfl).2 (by simp [Phase.trace, Phase.claiming])))
  rw [hsigns, hact]
  refine ⟨⟨.canceling exit (done ++ [d]) rest, .runTokens _ _ _, ?_, ⟨hfails, ?_, ?_⟩, ?_,
    fun ht => ?_⟩, ?_, ⟨nofun, fun e _ => hmono e, fun e _ he => ?_, fun l _ latch hl => ?_⟩, hmine,
    ?_⟩
  · rw [course_append, h.trace, hmine.course]
    simp [Phase.trace, Phase.claiming]
  · rw [← hsplit, List.append_assoc]
    rfl
  · intro e he
    obtain he | he := List.mem_append.1 he
    · exact hmono e (hdone e he)
    · rw [List.mem_singleton.1 he]
      exact hd.cancel
  · rw [hlatches]
    exact h.latch
  · obtain ⟨exit', won, hphase⟩ := h.finished ht
    cases hphase
  · refine hk.kept (fun value hvalue => ?_) rfl
    rw [(World.onConnection_keeps d .cancel).1]
    exact hvalue
  · exact he.perform here (.connection d .cancel)
  · rw [hlatches]
    exact hl
  · refine hinduced.append fun before i e after heq => ?_
    cases before with
    | nil =>
      cases heq
      rw [List.append_nil]
      exact ⟨hclaims, exit, hfails, (h.mem_trace rfl).2 (by simp [Phase.trace, Phase.claiming])⟩
    | cons first before => simp at heq

theorem canceling_step {done rest : List ConnectionId}
    (h : Stage x w seen a (.canceling exit done rest) taken)
    (hs : a.stack ≠ [] ∨ a.control.settles = false) (hothers : ∀ d ∈ x.others, d ∈ conns)
    (hcancelable : ∀ d ∈ conns, w.Cancelable d)
    (hleaves : a.stack ≠ [] → ∀ op, a.op? = some op →
      Spares conns (some x.cell) latches op ∧ ∀ l ∈ latches, w.delivered? l op = none) :
    Advances x conns latches taken w seen (signs w x.index a) (w.act here a) := by
  obtain ⟨hfails, hsplit, hdone⟩ := h.facts
  have hat : Clears (x.canceling exit rest) a := h.at_
  cases hat with
  | unwinding message => simp [Control.settles] at hs
  | token b tokens failure =>
    have hsigns : signs w x.index (b.atop [.tokens tokens failure fun _ => x.canceling exit rest]) =
        [] := by
      refine signs_eq_nil (by simp [Activity.atop]) fun next hnext => ?_
      have hlast := congrArg List.getLast? hnext
      simp [Activity.atop] at hlast
    have hkept := Kept.act here (hleaves (by simp [Activity.atop]))
    rw [hsigns]
    refine .of_kept (.canceling exit done rest) h hk hinduced hkept (.act_token _ _ _ _ _ _)
      mine_nil hcallback (List.append_nil _).symm rfl (fun _ _ => List.not_mem_nil)
      ⟨hfails, hsplit, fun d hd => hkept.canceled d (hothers d ?_) (hdone d hd)⟩ (fun _ => rfl)
      (by rintro _ _ ⟨⟩)
    rw [← hsplit]
    exact List.mem_append_left rest hd
  | code =>
    cases rest with
    | nil =>
      rw [List.append_nil] at hsplit
      subst hsplit
      refine .delivers true h rfl hk hinduced (by rintro _ _ ⟨⟩) rfl fun w' hw' more =>
        ⟨hfails, fun d hd => ?_⟩
      exact hw' d (hdone d hd)
    | cons d rest =>
      have hmem : d ∈ conns := hothers d (by rw [← hsplit]; simp)
      exact cancels_step hk hinduced h rfl (hcancelable d hmem)

theorem branch_step (h : Stage x w seen a phase taken)
    (hs : a.stack ≠ [] ∨ a.control.settles = false) (hothers : ∀ d ∈ x.others, d ∈ conns)
    (hcancelable : ∀ d ∈ conns, w.Cancelable d)
    (hleaves : a.stack ≠ [] → ∀ op, a.op? = some op →
      Spares conns (some x.cell) latches op ∧ ∀ l ∈ latches, w.delivered? l op = none) :
    Advances x conns latches taken w seen (signs w x.index a) (w.act here a) := by
  cases phase with
  | dispatched => exact dispatched_step hk hinduced hcallback h
  | beginning => exact beginning_step hk hinduced hcallback h
  | running =>
    obtain ⟨b, -, rfl⟩ := id h.at_
    exact running_step hk hinduced hcallback h (hleaves (by simp [Activity.atop]))
  | reading exit => exact reading_step hk hinduced hcallback h
  | writing exit => exact writing_step hk hinduced hcallback h
  | canceling exit done rest =>
    exact canceling_step hk hinduced hcallback h hs hothers hcancelable hleaves
  | calling exit =>
    refine .delivers false h h.at_ hk hinduced (by rintro _ _ ⟨⟩) rfl fun w' _ more => ?_
    exact h.facts.imp_right claims_ne_nil
  | finished exit won =>
    obtain rfl : a = ⟨.code (.give .unit), []⟩ := h.at_
    simp [Control.settles] at hs

end Steps

end Effects.Gathering
