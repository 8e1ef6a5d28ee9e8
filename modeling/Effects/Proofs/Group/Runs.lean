import Effects.Proofs.Group.Caller
import Effects.Proofs.Race.Runs

/-!
What is known of a group at any time, whatever the order of the steps.
-/

namespace Effects.Gathering

open Routine

variable {branches : List Node} {finish : List Value → Code} {run : Run} {seen more : List Sign}
  {got : List Delivery} {t u : Scene} {i : Nat} {l : LatchId} {x : Lane}

/-- What the branch at a place among the others has been given. -/
structure Given (branches : List Node) (conns : List ConnectionId) (cell : Option CellId)
    (latches : List LatchId) (i : Nat) (x : Lane) : Prop where
  index : x.index = i
  node : branches[i]? = some x.node
  cell : cell = some x.cell
  callback : latches[i]? = some x.callback
  connection : conns[i]? = some x.run.connection
  others : x.others = conns.eraseIdx i

namespace Given

variable {conns : List ConnectionId} {cell : Option CellId} {latches : List LatchId}

theorem mem_conns (h : Given branches conns cell latches i x) {d : ConnectionId}
    (hd : d ∈ x.others) : d ∈ conns := by
  rw [h.others] at hd
  exact List.mem_of_mem_eraseIdx hd

theorem ne_callback (h : Given branches conns cell latches i x) (hn : latches.Nodup) {j : Nat}
    (hl : latches[j]? = some l) (hj : j ≠ i) : l ≠ x.callback := by
  rintro rfl
  exact hj ((List.getElem?_inj (List.getElem?_eq_some_iff.1 hl).1 hn).1
    (hl.trans h.callback.symm))

end Given

structure Stands (branches : List Node) (finish : List Value → Code) (run : Run) (seen : List Sign)
    (got : List Delivery) (t : Scene) : Prop where
  caller :
    Calling branches finish run t.caller t.conns t.cell t.latches t.branches.length got t.answer
  claimed : ∀ k, t.cell = some k → Claimed k t.world seen
  cancelable : ∀ d ∈ t.conns, t.world.Cancelable d
  nodup : t.latches.Nodup
  waiting : ∀ i l, t.branches.length ≤ i → t.latches[i]? = some l →
    t.world.latches[l]? = some .empty
  running : ∀ i b, t.branches[i]? = some b → ∃ x phase,
    Given branches t.conns t.cell t.latches i x ∧
      Stage x t.world seen b.activity phase (decide (i < got.length))
  collected : ∀ i exit, got[i]? = some exit → .ended i exit ∈ seen
  known : ∀ sign ∈ seen, sign.branch < t.branches.length
  induced : Induced seen
  answered : ∀ code, t.answer = some code → ∃ exits first, got = exits.map .ok ∧
    exits.length = branches.length ∧ code = answering finish exits first ∧
      first.value = (claims seen).head?

theorem asked_stands (w : World) (place : Place) :
    Stands branches finish run [] [] (asked (Group.code branches finish run) w place) where
  caller := by
    rw [asked, code_eq]
    exact .opening [] _ rfl rfl
  claimed := nofun
  cancelable := nofun
  nodup := .nil
  waiting := nofun
  running := nofun
  collected := nofun
  known := nofun
  induced before i d after h := by simp at h
  answered := nofun

/-- A token is kept, or is to be run at once. -/
theorem respond_push (P : Activity → Prop) (w : World) (here : Place) {d : ConnectionId}
    {token next : Code} (hnext : P ⟨.code next, []⟩)
    (htoken : ∀ token, P ((⟨.code token, []⟩ : Activity).atop [.call fun _ => next])) :
    P (.respond (fun _ => next) [] (w.perform here (.connection d (.push token))).2) := by
  simp only [World.perform, World.onConnection]
  split
  · exact hnext
  · exact htoken _

namespace Stands

/-- Nothing has been claimed before a branch has been dispatched. -/
theorem claims_eq_nil (h : Stands branches finish run seen got t) (hb : t.branches = []) :
    claims seen = [] := by
  refine List.filterMap_eq_nil_iff.2 fun sign hs => ?_
  have hlt := h.known sign hs
  rw [hb] at hlt
  cases hlt

/-- Nothing has been seen of a branch that is still to come. -/
theorem course_eq_nil (h : Stands branches finish run seen got t) (hi : t.branches.length ≤ i) :
    course i seen = [] := by
  refine List.filter_eq_nil_iff.2 fun sign hs => ?_
  have hlt := h.known sign hs
  have hne : sign.branch ≠ i := by omega
  simp [hne]

theorem exists_latch (h : Stands branches finish run seen got t) (hl : l ∈ t.latches) :
    ∃ latch, t.world.latches[l]? = some latch := by
  obtain ⟨i, hi, rfl⟩ := List.getElem_of_mem hl
  have hi' : t.latches[i]? = some t.latches[i] := List.getElem?_eq_getElem hi
  by_cases hn : t.branches.length ≤ i
  · exact ⟨_, h.waiting i _ hn hi'⟩
  · obtain ⟨x, phase, hx, hstage⟩ :=
      h.running i _ (List.getElem?_eq_getElem (Nat.lt_of_not_le hn))
    obtain hcallback := Option.some.inj (hi'.symm.trans hx.callback)
    rw [hcallback]
    exact ⟨_, hstage.latch⟩

/-- A step that leaves to the group what is the group's, and of which nothing is seen. -/
theorem kept (h : Stands branches finish run seen got t) {w : World}
    (hw : Kept t.conns t.cell t.latches t.world w) :
    Stands branches finish run seen got { t with world := w } where
  caller := h.caller
  claimed k hk := by
    obtain ⟨hc, hcell⟩ | ⟨i, hc, hcell⟩ := h.claimed k hk
    · exact .inl ⟨hc, hw.cell k hk _ hcell⟩
    · exact .inr ⟨i, hc, hw.cell k hk _ hcell⟩
  cancelable d hd := hw.cancelable d hd (h.cancelable d hd)
  nodup := h.nodup
  waiting i l hi hl := hw.latch l (List.mem_of_getElem? hl) _ (h.waiting i l hi hl)
  running i b hb := by
    obtain ⟨x, phase, hx, hstage⟩ := h.running i b hb
    refine ⟨x, phase, hx, hstage.still rfl (fun d hd => hw.canceled d (hx.mem_conns hd)) id ?_⟩
    exact hw.latch _ (List.mem_of_getElem? hx.callback)
  collected := h.collected
  known := h.known
  induced := h.induced
  answered := h.answered

/-- The caller goes on by itself. -/
theorem goes (h : Stands branches finish run seen got t) {w : World} {a : Activity}
    (hw : Kept t.conns t.cell t.latches t.world w)
    (hc : Calling branches finish run a t.conns t.cell t.latches t.branches.length got t.answer) :
    Stands branches finish run seen got { t with world := w, caller := a } :=
  { h.kept hw with caller := hc }

theorem opensConnection (h : Stands branches finish run seen got t) (hb : t.branches = [])
    {w : World} {a : Activity} (hw : Kept t.conns t.cell t.latches t.world w)
    (hconnections : w.connections = t.world.connections.push .new)
    (hc : Calling branches finish run a (t.conns ++ [t.world.connections.size]) t.cell t.latches
      t.branches.length got t.answer) :
    Stands branches finish run seen got
      { t with world := w, caller := a, conns := t.conns ++ [t.world.connections.size] } :=
  have hkept := h.kept hw
  { hkept with
    caller := hc
    cancelable := fun d hd => by
      obtain hd | hd := List.mem_append.1 hd
      · exact hkept.cancelable d hd
      · rw [List.mem_singleton.1 hd]
        refine ⟨.new, ?_, rfl⟩
        rw [hconnections]
        exact Array.getElem?_push_size
    running := fun i b hi => by
      rw [hb] at hi
      cases hi }

theorem opensCell (h : Stands branches finish run seen got t) (hb : t.branches = []) {w : World}
    {a : Activity} (hw : Kept t.conns t.cell t.latches t.world w)
    (hcells : w.cells = t.world.cells.push ⟨none, 0⟩)
    (hc : Calling branches finish run a t.conns (some t.world.cells.size) t.latches
      t.branches.length got t.answer) :
    Stands branches finish run seen got
      { t with world := w, caller := a, cell := some t.world.cells.size } :=
  { h.kept hw with
    caller := hc
    claimed := fun k hk => by
      obtain rfl := Option.some.inj hk
      refine .inl ⟨h.claims_eq_nil hb, ?_⟩
      rw [hcells]
      exact Array.getElem?_push_size
    running := fun i b hi => by
      rw [hb] at hi
      cases hi }

theorem opensLatch (h : Stands branches finish run seen got t) {w : World} {a : Activity}
    (hn : t.latches.length = t.branches.length)
    (hw : Kept t.conns t.cell t.latches t.world w)
    (hlatches : w.latches = t.world.latches.push .empty)
    (hc : Calling branches finish run a t.conns t.cell (t.latches ++ [t.world.latches.size])
      t.branches.length got t.answer) :
    Stands branches finish run seen got
      { t with world := w, caller := a, latches := t.latches ++ [t.world.latches.size] } :=
  have hkept := h.kept hw
  { hkept with
    caller := hc
    nodup := by
      rw [List.nodup_append]
      refine ⟨h.nodup, by simp, fun l hl l' hl' => ?_⟩
      obtain rfl := List.mem_singleton.1 hl'
      obtain ⟨latch, hlatch⟩ := h.exists_latch hl
      exact Nat.ne_of_lt (Array.getElem?_eq_some_iff.1 hlatch).1
    waiting := fun i l hi hl => by
      have hi' : t.latches.length ≤ i := hn ▸ hi
      rw [List.getElem?_append_right hi'] at hl
      obtain rfl := List.mem_singleton.1 (List.mem_of_getElem? hl)
      show w.latches[_]? = _
      rw [hlatches]
      exact Array.getElem?_push_size
    running := fun i b hb => by
      obtain ⟨x, phase, hx, hstage⟩ := hkept.running i b hb
      refine ⟨x, phase, ⟨hx.index, hx.node, hx.cell, ?_, hx.connection, hx.others⟩, hstage⟩
      exact List.getElem?_append_left (List.getElem?_eq_some_iff.1 hx.callback).1 ▸ hx.callback }

/-- The exits are collected in the order of the branches. -/
theorem collects (h : Stands branches finish run seen got t) {exit : Delivery}
    (hexit : .ended got.length exit ∈ seen) {exit' : Delivery}
    (hi : (got ++ [exit])[i]? = some exit') : .ended i exit' ∈ seen := by
  obtain hlt | hge := Nat.lt_or_ge i got.length
  · rw [List.getElem?_append_left hlt] at hi
    exact h.collected i exit' hi
  · rw [List.getElem?_append_right hge, List.getElem?_singleton] at hi
    split at hi
    · rename_i hi0
      obtain rfl := Option.some.inj hi
      obtain rfl : i = got.length := by omega
      exact hexit
    · cases hi

/-- The branch that is waited for has ended. -/
theorem exit_of_item (h : Stands branches finish run seen got t) {callback : LatchId}
    (hcallback : t.latches[got.length]? = some callback) (hi : got.length < t.branches.length)
    {r : Except String Reply} (hr : (t.world.latches[callback]?).bind Latch.item? = some r) :
    ∃ x exit won, Given branches t.conns t.cell t.latches got.length x ∧ x.callback = callback ∧
      Stage x t.world seen t.branches[got.length].activity (.finished exit won) false ∧
      r = exit.map .outcome := by
  obtain ⟨x, phase, hx, hstage⟩ := h.running _ _ (List.getElem?_eq_getElem hi)
  obtain rfl := Option.some.inj (hcallback.symm.trans hx.callback)
  have htaken : decide (got.length < got.length) = false := decide_eq_false (Nat.lt_irrefl _)
  rw [htaken] at hstage
  rw [hstage.latch] at hr
  cases phase with
  | finished exit won => exact ⟨x, exit, won, hx, rfl, hstage, (Option.some.inj hr).symm⟩
  | _ => cases hr

/-- Where the caller waits for a branch, and what it gets. -/
theorem awaits (h : Stands branches finish run seen got t) {w : World} {a : Activity}
    {callback : LatchId} (hcallback : t.latches[got.length]? = some callback)
    (hi : got.length < t.branches.length) {r : Except String Reply}
    (hr : (t.world.latches[callback]?).bind Latch.item? = some r)
    (hw : w = t.world.setLatch callback .drained)
    (hc : ∀ exit : Delivery, r = exit.map .outcome →
      Calling branches finish run a t.conns t.cell t.latches t.branches.length (got ++ [exit])
        t.answer) (ha : t.answer = none) :
    ∃ exit, Stands branches finish run seen (got ++ [exit]) { t with world := w, caller := a } := by
  obtain ⟨x, exit, won, hx, rfl, hstage, rfl⟩ := h.exit_of_item hcallback hi hr
  have hothers : ∀ l ≠ x.callback, w.latches[l]? = t.world.latches[l]? := by
    intro l hl
    rw [hw, World.setLatch]
    exact Array.getElem?_setIfInBounds_ne hl.symm
  have hself : w.latches[x.callback]? = some .drained := by
    obtain ⟨hlt, -⟩ := Array.getElem?_eq_some_iff.1 hstage.latch
    rw [hw, World.setLatch]
    simp [hlt]
  have hcells : w.cells = t.world.cells := by rw [hw]; rfl
  have hconnections : w.connections = t.world.connections := by rw [hw]; rfl
  have hcanceled : ∀ d, t.world.isCanceled d = true → w.isCanceled d = true := by
    intro d hd
    rw [World.isCanceled_iff, hconnections, ← World.isCanceled_iff]
    exact hd
  refine ⟨exit, hc exit rfl, fun k hk => ?_, fun d hd => ?_, h.nodup, fun i l hi' hl => ?_,
    fun i b hb => ?_, fun i exit' => h.collects ?_, h.known, h.induced, fun code hcode => ?_⟩
  · rw [Claimed, hcells]
    exact h.claimed k hk
  · rw [World.Cancelable, hconnections]
    exact h.cancelable d hd
  · have hlt : got.length < i := Nat.lt_of_lt_of_le hi hi'
    exact (hothers l (hx.ne_callback h.nodup hl (Nat.ne_of_gt hlt))).trans (h.waiting i l hi' hl)
  · by_cases hi' : i = got.length
    · subst hi'
      obtain rfl := Option.some.inj ((List.getElem?_eq_getElem hi).symm.trans hb)
      have hnow : decide (got.length < (got ++ [exit]).length) = true := by simp
      refine ⟨x, .finished exit won, hx, ?_⟩
      rw [hnow]
      exact ⟨hstage.at_, hstage.trace, hstage.facts.mono (fun d _ => hcanceled d) id, hself,
        fun _ => ⟨exit, won, rfl⟩⟩
    · obtain ⟨y, phase, hy, hstage'⟩ := h.running i b hb
      have hsame : decide (i < (got ++ [exit]).length) = decide (i < got.length) := by
        simp only [List.length_append, List.length_singleton]
        exact decide_eq_decide.2 (by omega)
      refine ⟨y, phase, hy, ?_⟩
      rw [hsame]
      refine hstage'.still rfl (fun d _ => hcanceled d) id fun latch hlatch => ?_
      exact (hothers _ (hx.ne_callback h.nodup hy.callback hi')).trans hlatch
  · rw [← hx.index]
    refine (hstage.mem_trace rfl).2 ?_
    cases won <;> simp [Phase.trace, Phase.claiming]
  · rw [ha] at hcode
    cases hcode

/-- The caller goes on by itself. -/
theorem caller_moves (h : Stands branches finish run seen got t) (ha : t.answer = none) {op : Op}
    {next : Reply → Code} (hc : t.caller = ⟨.code (.perform op next), []⟩)
    (hop : ∀ c task, op ≠ .context c (.execute task)) (hread : ∀ k, op ≠ .readCell k) :
    ∃ got, Stands branches finish run seen got
      { t with
        world := (t.world.act t.place t.caller).1
        caller := (t.world.act t.place t.caller).2
        conns := t.connsAfter op
        cell := t.cellAfter op
        latches := t.latchesAfter op } := by
  obtain ⟨w, place, caller, conns, cell, latches, running, answer⟩ := t
  obtain rfl : caller = ⟨.code (.perform op next), []⟩ := hc
  obtain rfl : answer = none := ha
  have hkept : ∀ op, Spares conns cell latches op → (∀ l ∈ latches, w.delivered? l op = none) →
      Kept conns cell latches w (w.perform place op).1 := fun _ => .perform place
  have hcalling : Calling branches finish run _ conns cell latches running.length got none :=
    h.caller
  generalize hn : running.length = n at hcalling
  cases hcalling.calls with
  | connection before rest hsplit hlen =>
    refine ⟨[], h.opensConnection (List.length_eq_zero_iff.1 hn)
      (hkept .openConnection trivial fun _ _ => rfl) rfl ?_⟩
    rw [hn]
    refine .opening (before ++ [_]) rest (hsplit.trans (List.append_cons ..)) ?_
    simp [hlen]
  | cell hlen =>
    refine ⟨[], h.opensCell (List.length_eq_zero_iff.1 hn)
      (hkept .openCell trivial fun _ _ => rfl) rfl ?_⟩
    rw [hn]
    exact .pushing (g := ⟨conns, _⟩) hlen
  | @push g hlen =>
    refine ⟨[], h.goes (hkept (.connection run.connection (.push (task g.cancelAll))) trivial
      fun _ _ => rfl) ?_⟩
    have hnext : Calling branches finish run ⟨.code (forking finish run g branches.zipIdx []), []⟩
        g.connections (some g.firstFailure) [] 0 [] none :=
      .forked [] hlen (Nat.zero_le _)
    rw [hn]
    have hframe : (Frame.call fun _ => forking finish run g branches.zipIdx []).Awaits
        (· = forking finish run g branches.zipIdx []) := fun _ => rfl
    exact respond_push (Calling branches finish run · g.connections (some g.firstFailure) [] 0 []
      none) w place hnext fun token => .token ⟨.code token, []⟩ hframe hlen
  | @latch g callbacks node hlen hnode =>
    refine ⟨[], h.opensLatch hn.symm (hkept .openLatch trivial fun _ _ => rfl) rfl ?_⟩
    rw [hn]
    exact .naming hlen hnode
  | @derive g callbacks callback node label hlen hnode =>
    refine ⟨[], h.goes (hkept (.context run.context (.derive label)) trivial fun _ _ => rfl) ?_⟩
    rw [hn]
    exact .dispatching _ hlen hnode
  | execute => exact absurd rfl (hop _ _)
  | @await g callbacks callback exits hlen hcallbacks hcallback =>
    have hlen' : (exits.map Except.ok : List Delivery).length = exits.length := by simp
    have hlt : exits.length < branches.length := by
      rw [← hcallbacks]
      exact (List.getElem?_eq_some_iff.1 hcallback).1
    cases hr : (w.latches[callback]?).bind Latch.item? with
    | none =>
      have hact : ∀ next, w.act place ⟨.code (.perform (.await callback) next), []⟩ =
          (w, ⟨.code (.perform (.await callback) next), []⟩) := by
        intro next
        simp [World.act, World.perform, hr, Activity.respond]
      rw [hact]
      exact ⟨_, h⟩
    | some r =>
      have hact : ∀ next, w.act place ⟨.code (.perform (.await callback) next), []⟩ =
          (w.setLatch callback .drained, ⟨.code (next (.caught r)), []⟩) := by
        intro next
        simp [World.act, World.perform, hr, Activity.respond, World.replying]
      rw [hact]
      have hnext : ∀ exit : Delivery, r = exit.map .outcome → Calling branches finish run
          ⟨.code (collecting finish run g (latches.drop (exits.length + 1)) exits (.caught r)), []⟩
            g.connections (some g.firstFailure) latches running.length (exits.map .ok ++ [exit])
              none := by
        rw [hn]
        exact fun exit => .collected hlen hcallbacks hlt
      obtain ⟨exit, hstands⟩ := h.awaits (hlen'.symm ▸ hcallback) (by rw [hlen', hn]; exact hlt) hr
        rfl hnext rfl
      exact ⟨_, hstands⟩
  | @pop g callbacks exits hexits =>
    refine ⟨_, h.goes (hkept (.connection run.connection .pop) trivial fun _ _ => rfl) ?_⟩
    rw [hn]
    exact .looking hexits
  | read => exact absurd rfl (hread _)

/-- The caller runs its own token. -/
theorem token_moves (h : Stands branches finish run seen got t) (ha : t.answer = none)
    (hstack : t.caller.stack ≠ [])
    (hleaves : ∀ op, t.caller.op? = some op → t.Leaves op) :
    Stands branches finish run seen got
      { t with
        world := (t.world.act t.place t.caller).1
        caller := (t.world.act t.place t.caller).2 } := by
  refine h.goes (.act t.place hleaves) ?_
  have hcalling := h.caller
  rw [ha] at hcalling ⊢
  generalize t.branches.length = n, t.caller = a, t.conns = conns, t.cell = cell,
    t.latches = latches at hcalling hstack
  generalize ho : (none : Option Code) = answer at hcalling
  cases hcalling with
  | @token g a frame hframe hlen =>
    generalize hx : (t.world.act t.place (a.atop [frame])).2 = b
    have hahead := hx ▸ Ahead.act_inside t.world t.place a hframe
    cases hahead with
    | code hc =>
      subst hc
      exact .forked [] hlen (Nat.zero_le _)
    | unwinding message => exact .failed message hlen (.inl rfl) _ (.inr rfl)
    | inside a hframe => exact .token a hframe hlen
  | answered a code => cases ho
  | _ => exact absurd rfl hstack

/-- Who is about to dispatch a task dispatches the next branch. -/
theorem next_branch (h : Stands branches finish run seen got t) (ha : t.answer = none)
    {c : ContextId} {task : Code} {next : Reply → Code}
    (hc : t.caller = ⟨.code (.perform (.context c (.execute task)) next), []⟩) :
    got = [] ∧ t.conns.length = branches.length ∧ t.branches.length < branches.length ∧ ∃ x,
      Given branches t.conns t.cell t.latches t.branches.length x ∧ task = x.task ∧
        Calling branches finish run ⟨.code (next .unit), []⟩ t.conns t.cell t.latches
          (t.branches.length + 1) [] none := by
  have hcalling := h.caller
  rw [hc, ha] at hcalling
  generalize t.branches.length = n, t.conns = conns, t.cell = cell, t.latches = latches at hcalling
  cases hcalling.calls with
  | @execute g callbacks callback node c hlen hnode =>
    obtain ⟨hlt, -⟩ := List.getElem?_eq_some_iff.1 hnode
    have hconn : g.connections[callbacks.length]? =
        some (g.connections.getD callbacks.length .uncancelable) := by
      rw [List.getD_eq_getElem?_getD, List.getElem?_eq_getElem (hlen ▸ hlt)]
      rfl
    have hle : (callbacks ++ [callback]).length ≤ branches.length := by
      simpa using Nat.succ_le_of_lt hlt
    have hnext : Calling branches finish run _ _ _ _ _ _ _ :=
      .forked (callbacks ++ [callback]) hlen hle
    rw [List.length_append] at hnext
    exact ⟨rfl, hlen, hlt, lane g callbacks.length callback node c,
      ⟨rfl, hnode, rfl, by simp [lane], hconn, rfl⟩, rfl, hnext⟩

/-- A branch has been dispatched. -/
theorem dispatches (h : Stands branches finish run seen got t) (ha : t.answer = none)
    {c : ContextId} {task : Code} {next : Reply → Code}
    (hc : t.caller = ⟨.code (.perform (.context c (.execute task)) next), []⟩)
    {w : World} (hw : Kept t.conns t.cell t.latches t.world w) (place : Place) :
    Stands branches finish run seen got
      { t with
        world := w
        caller := ⟨.code (next .unit), []⟩
        branches := t.branches ++ [⟨place, ⟨.code task, []⟩⟩] } := by
  have hkept := h.kept hw
  obtain ⟨rfl, hlen, hlt, x, hx, rfl, hnext⟩ := h.next_branch ha hc
  have hlength : ∀ b, (t.branches ++ [b]).length = t.branches.length + 1 := fun b => by simp
  refine ⟨?_, hkept.claimed, hkept.cancelable, h.nodup, fun i l hi hl => ?_, fun i b hb => ?_,
    nofun, fun sign hs => ?_, h.induced, h.answered⟩
  · rw [hlength, ha]
    exact hnext
  · have hi' : t.branches.length + 1 ≤ i := hlength _ ▸ hi
    exact hkept.waiting i l (Nat.le_of_succ_le hi') hl
  · obtain hlt | hge := Nat.lt_or_ge i t.branches.length
    · rw [List.getElem?_append_left hlt] at hb
      exact hkept.running i b hb
    · obtain rfl : i = t.branches.length := by
        have hi := (List.getElem?_eq_some_iff.1 hb).1
        rw [hlength] at hi
        exact Nat.le_antisymm (Nat.le_of_lt_succ hi) hge
      rw [List.getElem?_concat_length] at hb
      obtain rfl := Option.some.inj hb
      refine ⟨x, .dispatched, hx, rfl, ?_, trivial, ?_, nofun⟩
      · rw [hx.index]
        exact h.course_eq_nil (Nat.le_refl _)
      · exact hkept.waiting _ _ (Nat.le_refl _) hx.callback
  · rw [hlength]
    exact Nat.lt_succ_of_lt (h.known sign hs)

theorem refused (h : Stands branches finish run seen got t) (ha : t.answer = none)
    {c : ContextId} {task : Code} {next : Reply → Code} {message : String}
    (hc : t.caller = ⟨.code (.perform (.context c (.execute task)) next), []⟩)
    {w : World} (hw : Kept t.conns t.cell t.latches t.world w) :
    Stands branches finish run seen got
      { t with world := w, caller := ⟨.unwinding message, []⟩ } := by
  obtain ⟨-, hlen, hlt, -⟩ := h.next_branch ha hc
  refine h.goes hw ?_
  rw [ha]
  exact .failed message hlen (.inr (.inl hlt)) _ (.inr rfl)

/-- The caller has looked at the first failure. -/
theorem answers (h : Stands branches finish run seen got t) (ha : t.answer = none) {k : CellId}
    {next : Reply → Code} (hc : t.caller = ⟨.code (.perform (.readCell k) next), []⟩)
    (a : Activity) :
    Stands branches finish run seen got
      { t with
        caller := a
        answer := some (next (.snapshot (t.world.cells[k]?.getD ⟨none, 0⟩))) } := by
  have hcalling := h.caller
  rw [hc, ha] at hcalling
  obtain ⟨exits, hk, hn, hlen, hgot, hnext⟩ : ∃ exits, t.cell = some k ∧
      t.branches.length = branches.length ∧ exits.length = branches.length ∧ got = exits.map .ok ∧
        next = fun r => answering finish exits r.toSnapshot := by
    generalize t.branches.length = n, t.conns = conns, t.cell = cell,
      t.latches = latches at hcalling
    cases hcalling.calls with
    | read hexits => exact ⟨_, rfl, rfl, hexits, rfl, rfl⟩
  refine ⟨?_, h.claimed, h.cancelable, h.nodup, h.waiting, h.running, h.collected, h.known,
    h.induced, ?_⟩
  · rw [hn]
    exact .answered a _
  · rintro code hcode
    obtain rfl := Option.some.inj hcode
    refine ⟨exits, t.world.cells[k]?.getD ⟨none, 0⟩, hgot, hlen, by rw [hnext]; rfl, ?_⟩
    obtain ⟨hclaims, hcell⟩ | ⟨i, hclaims, hcell⟩ := h.claimed k hk <;> rw [hclaims, hcell] <;> rfl

/-- Once the caller has its answer, all branches are over. -/
theorem over_of_answer (h : Stands branches finish run seen got t) {code : Code}
    (ha : t.answer = some code) {b : Branch} (hb : b ∈ t.branches) :
    b.activity = ⟨.code (.give .unit), []⟩ := by
  obtain ⟨i, hi, rfl⟩ := List.getElem_of_mem hb
  obtain ⟨x, phase, -, hstage⟩ := h.running i _ (List.getElem?_eq_getElem hi)
  obtain ⟨exits, first, rfl, hlen, -, -⟩ := h.answered code ha
  have hn : t.branches.length = branches.length := (ha ▸ h.caller).length_eq
  obtain ⟨exit, won, rfl⟩ := hstage.finished (by simpa [hlen, ← hn] using hi)
  exact hstage.at_

/-- A branch's step leaves the others where they are. -/
theorem branch_moves (h : Stands branches finish run seen got t) {before after : List Branch}
    {place : Place} {a : Activity} (hb : t.branches = before ++ ⟨place, a⟩ :: after)
    (hs : a.stack ≠ [] ∨ a.control.settles = false)
    (hleaves : a.stack ≠ [] → ∀ op, a.op? = some op → t.Leaves op) :
    Stands branches finish run (seen ++ signs t.world before.length a) got
      { t with
        world := (t.world.act place a).1
        branches := before ++ ⟨place, (t.world.act place a).2⟩ :: after } := by
  have hself : t.branches[before.length]? = some ⟨place, a⟩ := by simp [hb]
  have hlength : ∀ b : Branch, (before ++ b :: after).length = t.branches.length :=
    fun b => by simp [hb]
  have hlt : before.length < t.branches.length := (List.getElem?_eq_some_iff.1 hself).1
  obtain ⟨x, phase, hx, hstage⟩ := h.running _ _ hself
  have hadvances : Advances x t.conns t.latches (decide (before.length < got.length)) t.world seen
      (signs t.world x.index a) (t.world.act place a) :=
    branch_step (h.claimed _ hx.cell) h.induced (List.mem_of_getElem? hx.callback) hstage hs
      (fun _ => hx.mem_conns) h.cancelable fun hstack op hop => hx.cell ▸ hleaves hstack op hop
  rw [hx.index] at hadvances
  have hmine : ∀ sign ∈ signs t.world before.length a, sign.branch = before.length :=
    fun sign hsign => (hadvances.mine sign hsign).trans hx.index
  have hlatch : ∀ {i l}, t.latches[i]? = some l → i ≠ before.length → ∀ latch,
      t.world.latches[l]? = some latch → (t.world.act place a).1.latches[l]? = some latch := by
    intro i l hl hi
    have hne : l ≠ x.callback := hx.ne_callback h.nodup hl hi
    exact hadvances.kept.latch l (List.mem_filter.2 ⟨List.mem_of_getElem? hl, decide_eq_true hne⟩)
  refine ⟨?_, fun k hk => ?_, fun d hd => hadvances.kept.cancelable d hd (h.cancelable d hd),
    h.nodup, fun i l hi hl => ?_, fun i b hi => ?_, fun i exit hexit => ?_, fun sign hsign => ?_,
    hadvances.induced, fun code hcode => ?_⟩
  · rw [hlength]
    exact h.caller
  · obtain rfl := Option.some.inj (hk.symm.trans hx.cell)
    exact hadvances.claimed
  · have hi' : t.branches.length ≤ i := hlength _ ▸ hi
    exact hlatch hl (by omega) _ (h.waiting i l hi' hl)
  · by_cases hib : i = before.length
    · subst hib
      obtain ⟨phase', hstage'⟩ := hadvances.stage
      obtain rfl : b = ⟨place, (t.world.act place a).2⟩ := by simpa using hi.symm
      exact ⟨x, phase', hx, hstage'⟩
    · have hi' : t.branches[i]? = some b := by
        rw [← hi, hb]
        simp only [List.getElem?_append, List.getElem?_cons]
        split
        · rfl
        · split
          · omega
          · rfl
      obtain ⟨y, phase', hy, hstage'⟩ := h.running i b hi'
      have hnone : course y.index (signs t.world before.length a) = [] := by
        refine List.filter_eq_nil_iff.2 fun sign hsign => ?_
        have hne : before.length ≠ i := fun hbi => hib hbi.symm
        simp [hmine sign hsign, hy.index, hne]
      have hcourse : course y.index (seen ++ signs t.world before.length a) =
          course y.index seen := by
        rw [course_append, hnone, List.append_nil]
      exact ⟨y, phase', hy, hstage'.still hcourse
        (fun d hd => hadvances.kept.canceled d (hy.mem_conns hd)) claims_ne_nil
        (hlatch hy.callback hib)⟩
  · exact List.mem_append_left _ (h.collected i exit hexit)
  · rw [hlength]
    obtain hsign | hsign := List.mem_append.1 hsign
    · exact h.known sign hsign
    · exact hmine sign hsign ▸ hlt
  · obtain rfl : a = _ := h.over_of_answer hcode (List.mem_of_getElem? hself)
    simp [Control.settles] at hs

theorem step (h : Stands branches finish run seen got t) (hm : Moves t more u) :
    ∃ got, Stands branches finish run (seen ++ more) got u := by
  have hexecute : ∀ {c task next w a},
      t.caller = ⟨.code (.perform (.context c (.execute task)) next), []⟩ →
        t.world.act t.place t.caller = (w, a) →
          w = (t.world.onContext t.place.home c (.execute task)).1 := by
    intro c task next w a hc hact
    rw [hc] at hact
    exact (congrArg Prod.fst hact).symm
  have hkept : ∀ c task, Kept t.conns t.cell t.latches t.world
      (t.world.onContext t.place.home c (.execute task)).1 := fun c task =>
    .perform t.place (show Spares _ _ _ (.context c (.execute task)) from trivial) fun _ _ => rfl
  cases hm with
  | caller ha hc hop hread =>
    rw [List.append_nil]
    exact h.caller_moves ha hc hop hread
  | token ha hstack hleaves =>
    rw [List.append_nil]
    exact ⟨got, h.token_moves ha hstack hleaves⟩
  | spawns ha hc hact hthread =>
    rw [List.append_nil]
    obtain rfl := hexecute hc hact
    rw [Racing.Stands.spawned_activity hthread]
    exact ⟨got, h.dispatches ha hc (hkept _ _) _⟩
  | inPlace ha hc hact =>
    rw [List.append_nil]
    obtain rfl := hexecute hc hact
    exact ⟨got, h.dispatches ha hc (hkept _ _) _⟩
  | refused ha hc hact =>
    rw [List.append_nil]
    obtain rfl := hexecute hc hact
    exact ⟨got, h.refused ha hc (hkept _ _)⟩
  | answers ha hc =>
    rw [List.append_nil]
    exact ⟨got, h.answers ha hc _⟩
  | branch hb hs hleaves => exact ⟨got, h.branch_moves hb hs hleaves⟩
  | other place a hleaves =>
    rw [List.append_nil]
    exact ⟨got, h.kept (.act place hleaves)⟩
  | idle w hcells hconnections hlatches =>
    rw [List.append_nil]
    exact ⟨got, h.kept (.of_eq hcells hconnections hlatches)⟩

end Stands

theorem Runs.stands {w : World} {place : Place}
    (h : Runs (asked (Group.code branches finish run) w place) seen t) :
    ∃ got, Stands branches finish run seen got t := by
  induction h with
  | start => exact ⟨[], asked_stands w place⟩
  | move _ hm ih =>
    obtain ⟨got, hstands⟩ := ih
    exact hstands.step hm

end Effects.Gathering
