import Mathlib.Logic.Relation
import Effects.Proofs.Group.Runs

/-!
What comes of a group: all its values in order, or the failure that was recorded first.
-/

namespace Effects

open Routine

namespace Gathering

variable {branches : List Node} {finish : List Value → Code} {run : Run} {seen : List Sign}
  {got : List Delivery} {s t u : Scene} {i : Nat} {x : Lane} {phase : Phase} {exit : Delivery}
  {taken : Bool}

/-- Whoever runs the code hands the exit to the machine that waits for it, and does nothing else; the
machine goes on with the run that it has waited with. -/
def Hands (code : Code) (exit : Exit) : Prop :=
  ∀ (w : World) (here : Place) (next : List Cont) (run : Run) (below : List Frame),
    w.isCurrent here.home run.context = true →
      Relation.ReflTransGen (fun a b => w.act here a = (w, b))
        ⟨.code code, .node next run :: below⟩
        (.after (Machine.resume (w.surroundings here.home) exit next run) below)

theorem hands_give (exit : Exit) : Hands (.give (.outcome exit)) exit :=
  fun _ _ _ _ _ _ => .single rfl

theorem hands_build (v : Value) : Hands (.build (.pure v)) (.completed v) := by
  intro w here next run below hcurrent
  refine .head (b := ⟨.drive (.focus (.pure v) next) run, below⟩) rfl (.single ?_)
  simp [World.act, hcurrent, Machine.step]

/-- All that is seen of a branch, if it is the first to fail or not. -/
def ending (i : Nat) (node : Node) (run : Run) (callback : LatchId) (others : List ConnectionId)
    (exit : Delivery) (first : Bool) : List Sign :=
  [.began i (.focus node []) run, .ended i exit] ++
    (if first then .claimed i :: others.map (.canceled i) else []) ++
      [.called i callback (exit.map .outcome)]

def Branch.Over (b : Branch) : Prop := b.activity = ⟨.code (.give .unit), []⟩

/-- What is known of a group at any time. -/
structure Joined (branches : List Node) (total : List Value → Value) (seen : List Sign) (t : Scene) :
    Prop where
  /-- One branch at most is recorded as the first to fail, and it has failed by itself: the group
  cancels its siblings only then, and nobody before. -/
  claimed : ∀ i ∈ claims seen, claims seen = [i] ∧ ∃ exit, completes exit = false ∧
    .ended i exit ∈ seen
  induced : Induced seen
  /-- Each branch runs its own computation on its own connection, and delivers how that has ended. -/
  course : ∀ i b, t.branches[i]? = some b → ∃ node c d callback exit,
    branches[i]? = some node ∧ t.conns[i]? = some d ∧ t.latches[i]? = some callback ∧
      let all := ending i node ⟨c, d⟩ callback (t.conns.eraseIdx i) exit (decide (claims seen = [i]))
      course i seen <+: all ∧ (b.Over → course i seen = all)
  /-- By the time that the first failure is delivered all others have been canceled. -/
  cleared : ∀ i callback r, .called i callback r ∈ seen → claims seen = [i] →
    ∀ j ≠ i, ∀ d, t.conns[j]? = some d → t.world.isCanceled d = true
  /-- The answer is made of all values in order, or it is the first failure. -/
  answered : ∀ code, t.answer = some code → ∃ exits : List Exit, exits.length = branches.length ∧
    (∀ i exit, exits[i]? = some exit → .ended i (.ok exit) ∈ seen) ∧
    ((∃ values, exits = values.map .completed ∧ Hands code (.completed (total values))) ∨
      ∃ i exit, claims seen = [i] ∧ exits[i]? = some exit ∧ exit.isCompleted = false ∧
        Hands code exit)
  finished : t.answer ≠ none → t.branches.length = branches.length ∧ ∀ b ∈ t.branches, b.Over
  /-- Nothing but the tokens that it runs holds a branch up whose computation has ended. -/
  unblocked : ∀ i b exit, t.branches[i]? = some b → .ended i exit ∈ seen → b.activity.stack = [] →
    ∀ op, b.activity.op? = some op → t.world.ready op = true
  /-- When all have stopped, and none with a panic, nothing holds the caller up until it answers. -/
  comes : t.branches ≠ [] → t.branches.length = branches.length → (∀ b ∈ t.branches, b.Over) →
    (∀ i message, .ended i (.error message) ∉ seen) →
      (∀ op, t.answer = none → t.caller.op? = some op → t.world.ready op = true) ∧
        ∃ u, Runs t [] u ∧ u.answer ≠ none

theorem Phase.At.finished {a : Activity} (h : phase.At x a) (ha : a = ⟨.code (.give .unit), []⟩) :
    ∃ exit won, phase = .finished exit won := by
  cases phase with
  | finished exit won => exact ⟨exit, won, rfl⟩
  | running =>
    obtain ⟨b, -, h⟩ := h
    rw [ha] at h
    simp [Activity.atop] at h
  | canceling exit done rest =>
    have hclears : Clears (x.canceling exit rest) a := h
    cases hclears with
    | code => cases rest <;> cases ha
    | unwinding message => cases ha
    | token a rest failure => simp [Activity.atop] at ha
  | _ =>
    rw [ha] at h
    cases h

/-- How the branch ends, so far as it is known. -/
def Phase.exit? : Phase → Option Delivery
  | .dispatched | .beginning | .running => none
  | .reading exit | .writing exit | .canceling exit _ _ | .calling exit | .finished exit _ => some exit

namespace Stage

variable {w : World} {a : Activity}

theorem ended_iff (h : Stage x w seen a phase taken) :
    .ended x.index exit ∈ seen ↔ phase.exit? = some exit := by
  rw [h.mem_trace rfl]
  cases phase with
  | finished exit won =>
    cases won <;> simp [Phase.trace, Phase.claiming, Phase.began, Phase.exit?, eq_comm]
  | _ => simp [Phase.trace, Phase.claiming, Phase.began, Phase.exit?, eq_comm]

theorem claimed_iff (h : Stage x w seen a phase taken) :
    x.index ∈ claims seen ↔ ∃ exit, (∃ done rest, phase = .canceling exit done rest) ∨
      phase = .finished exit true := by
  rw [mem_claims, h.mem_trace rfl]
  cases phase with
  | finished exit won => cases won <;> simp [Phase.trace, Phase.claiming, Phase.began]
  | _ => simp [Phase.trace, Phase.claiming, Phase.began]

theorem called_iff (h : Stage x w seen a phase taken) {callback : LatchId}
    {r : Except String Reply} : .called x.index callback r ∈ seen ↔
      ∃ exit won, phase = .finished exit won ∧ callback = x.callback ∧ r = exit.map .outcome := by
  rw [h.mem_trace rfl]
  cases phase with
  | finished exit won => cases won <;> simp [Phase.trace, Phase.claiming, Phase.began]
  | _ => simp [Phase.trace, Phase.claiming, Phase.began]

end Stage

namespace Stands

theorem lane_of_mem (h : Stands branches finish run seen got t) {sign : Sign} (hs : sign ∈ seen)
    (hi : sign.branch = i) : ∃ b x phase, t.branches[i]? = some b ∧
      Given branches t.conns t.cell t.latches i x ∧
        Stage x t.world seen b.activity phase (decide (i < got.length)) := by
  have hlt : i < t.branches.length := hi ▸ h.known sign hs
  obtain ⟨x, phase, hx, hstage⟩ := h.running i _ (List.getElem?_eq_getElem hlt)
  exact ⟨_, x, phase, List.getElem?_eq_getElem hlt, hx, hstage⟩

theorem claims_eq (h : Stands branches finish run seen got t) (hi : i ∈ claims seen) :
    claims seen = [i] := by
  obtain ⟨b, x, phase, -, hx, -⟩ := h.lane_of_mem (mem_claims.1 hi) rfl
  exact (h.claimed _ hx.cell).eq_of_mem hi

theorem claimant (h : Stands branches finish run seen got t) (hi : i ∈ claims seen) :
    ∃ exit, completes exit = false ∧ .ended i exit ∈ seen := by
  obtain ⟨b, x, phase, -, hx, hstage⟩ := h.lane_of_mem (mem_claims.1 hi) rfl
  obtain rfl := hx.index
  obtain ⟨exit, ⟨done, rest, rfl⟩ | rfl⟩ := hstage.claimed_iff.1 hi
  · exact ⟨exit, hstage.facts.1, hstage.ended_iff.2 rfl⟩
  · exact ⟨exit, hstage.facts.1, hstage.ended_iff.2 rfl⟩

/-- How far the branch has come on its way. -/
theorem follows (h : Stands branches finish run seen got t) {w : World} {a : Activity}
    (hstage : Stage x w seen a phase taken) : ∃ exit,
      let all := ending x.index x.node x.run x.callback x.others exit
        (decide (claims seen = [x.index]))
      course x.index seen <+: all ∧ (a = ⟨.code (.give .unit), []⟩ → course x.index seen = all) := by
  have hfirst : claims seen = [x.index] ↔ x.index ∈ claims seen :=
    ⟨fun hc => by simp [hc], h.claims_eq⟩
  have hcourse := hstage.trace
  have hclaimed := hfirst.trans hstage.claimed_iff
  have hpart : ∀ {signs}, phase.trace x <+: signs → (∀ exit won, phase ≠ .finished exit won) →
      course x.index seen <+: signs ∧
        (a = ⟨.code (.give .unit), []⟩ → course x.index seen = signs) := by
    intro signs hprefix hnot
    refine ⟨hcourse ▸ hprefix, fun ha => ?_⟩
    obtain ⟨exit, won, hphase⟩ := hstage.at_.finished ha
    exact absurd hphase (hnot exit won)
  cases phase with
  | dispatched | beginning => exact ⟨.ok .canceled, hpart List.nil_prefix nofun⟩
  | running => exact ⟨.ok .canceled, hpart ⟨_, rfl⟩ nofun⟩
  | reading exit | writing exit | calling exit => exact ⟨exit, hpart ⟨_, rfl⟩ nofun⟩
  | canceling exit done rest =>
    have hc : claims seen = [x.index] := hclaimed.2 ⟨exit, .inl ⟨done, rest, rfl⟩⟩
    obtain ⟨-, hothers, -⟩ := hstage.facts
    refine ⟨exit, hpart ?_ nofun⟩
    rw [decide_eq_true hc, ← hothers]
    refine ⟨rest.map (.canceled x.index) ++ [.called x.index x.callback (exit.map .outcome)], ?_⟩
    simp [Phase.trace, Phase.claiming, Phase.began, ending]
  | finished exit won =>
    have hall : (Phase.finished exit won).trace x = ending x.index x.node x.run x.callback x.others
        exit (decide (claims seen = [x.index])) := by
      cases won with
      | true =>
        rw [decide_eq_true (hclaimed.2 ⟨exit, .inr rfl⟩)]
        simp [Phase.trace, Phase.claiming, Phase.began, ending]
      | false =>
        rw [decide_eq_false fun hc => by simpa using hclaimed.1 hc]
        simp [Phase.trace, Phase.began, ending]
    have heq := hcourse.trans hall
    exact ⟨exit, ⟨[], by rw [List.append_nil, heq]⟩, fun _ => heq⟩

/-- What the caller has got from a branch is what the branch has ended with. -/
theorem over_of_got (h : Stands branches finish run seen got t) (hi : got[i]? = some exit) :
    ∃ b x won, t.branches[i]? = some b ∧ Given branches t.conns t.cell t.latches i x ∧
      Stage x t.world seen b.activity (.finished exit won) (decide (i < got.length)) := by
  have hended := h.collected i exit hi
  obtain ⟨b, x, phase, hb, hx, hstage⟩ := h.lane_of_mem (i := i) hended rfl
  obtain ⟨hlt, -⟩ := List.getElem?_eq_some_iff.1 hi
  obtain ⟨exit', won, rfl⟩ := hstage.finished (decide_eq_true hlt)
  rw [← hx.index] at hended
  obtain rfl := Option.some.inj (hstage.ended_iff.1 hended)
  exact ⟨b, x, won, hb, hx, hstage⟩

theorem completes_ok (exit : Exit) : completes (.ok exit) = exit.isCompleted := by
  cases exit <;> rfl

/-- Among the exits of all branches the first failure is found where it belongs. -/
theorem first_failure (h : Stands branches finish run seen got t) {exits : List Exit}
    (hgot : got = exits.map .ok) (hn : t.branches.length = exits.length) {j : Nat} {exit : Exit}
    (hj : exits[j]? = some exit) (hfails : exit.isCompleted = false) :
    ∃ i, ∃ e : Exit, claims seen = [i] ∧ exits[i]? = some e ∧ e.isCompleted = false := by
  have hexits : ∀ {i : Nat} {e : Exit}, exits[i]? = some e → got[i]? = some (.ok e) := by
    intro i e hi
    rw [hgot, List.getElem?_map, hi]
    rfl
  have hsome : claims seen ≠ [] := by
    obtain ⟨b, x, won, -, hx, hstage⟩ := h.over_of_got (hexits hj)
    cases won with
    | true => exact List.ne_nil_of_mem (hstage.claimed_iff.2 ⟨_, .inr rfl⟩)
    | false =>
      refine hstage.facts.resolve_left ?_
      rw [completes_ok, hfails]
      exact Bool.false_ne_true
  obtain ⟨i, hi⟩ := List.exists_mem_of_ne_nil _ hsome
  have hlt : i < exits.length := hn ▸ h.known _ (mem_claims.1 hi)
  have hexit := List.getElem?_eq_getElem hlt
  obtain ⟨b, x, won, -, hx, hstage⟩ := h.over_of_got (hexits hexit)
  obtain ⟨e, ⟨done, rest, hphase⟩ | hphase⟩ := hstage.claimed_iff.1 (hx.index.symm ▸ hi)
  · cases hphase
  · cases hphase
    exact ⟨i, _, h.claims_eq hi, hexit, completes_ok _ ▸ hstage.facts.1⟩

end Stands

/-- Without values for all there is one that has failed. -/
theorem values?_cases (exits : List Exit) :
    (∃ values, Group.values? exits = some values ∧ exits = values.map .completed) ∨
      Group.values? exits = none ∧
        ∃ j : Nat, ∃ e : Exit, exits[j]? = some e ∧ e.isCompleted = false := by
  induction exits with
  | nil => exact .inl ⟨[], rfl, rfl⟩
  | cons exit rest ih =>
    cases exit with
    | completed v =>
      obtain ⟨values, hvalues, rfl⟩ | ⟨hnone, j, exit, hj, hfails⟩ := ih
      · exact .inl ⟨v :: values, by simp [Group.values?, hvalues], rfl⟩
      · exact .inr ⟨by simp [Group.values?, hnone], j + 1, exit, hj, hfails⟩
    | errored e => exact .inr ⟨rfl, 0, .errored e, rfl, rfl⟩
    | canceled => exact .inr ⟨rfl, 0, .canceled, rfl, rfl⟩

theorem pick_eq {exits : List Exit} {exit : Exit} (hi : exits[i]? = some exit)
    (hfails : exit.isCompleted = false) : Group.pick (some i) exits = exit := by
  simp [Group.pick, hi, Option.filter_some, hfails]

section Waiting

variable {g : Group}

theorem Runs.looks (h : Runs s seen t) {exits : List Exit} (ha : t.answer = none)
    (hc : t.caller = ⟨.code (looking finish g exits), []⟩) :
    ∃ u, Runs s seen u ∧ u.answer ≠ none := by
  have hmove := h.move (.answers ha hc)
  rw [List.append_nil] at hmove
  exact ⟨_, hmove, Option.some_ne_none _⟩

/-- Whoever waits for branches that have all delivered an exit gets them all, and answers. -/
theorem Runs.awaits (callbacks : List LatchId) {exits : List Exit} (h : Runs s seen t)
    (ha : t.answer = none)
    (hc : t.caller = ⟨.code (awaiting finish run g callbacks exits), []⟩) (hnodup : callbacks.Nodup)
    (hfull : ∀ l ∈ callbacks, ∃ exit : Exit,
      t.world.latches[l]? = some (.full (.ok (.outcome exit)))) :
    ∃ u, Runs s seen u ∧ u.answer ≠ none := by
  induction callbacks generalizing t exits with
  | nil =>
    rw [awaiting_nil] at hc
    exact (h.calls ha hc nofun nofun).looks ha rfl
  | cons l rest ih =>
    obtain ⟨exit, hl⟩ := hfull l (List.mem_cons_self ..)
    obtain ⟨hnot, hrest⟩ := List.nodup_cons.1 hnodup
    rw [awaiting_cons] at hc
    have hnext := h.calls ha hc nofun nofun
    have hperform : t.world.perform t.place (.await l) =
        (t.world.setLatch l .drained, .reply (.caught (.ok (.outcome exit)))) := by
      simp [World.perform, hl, Latch.item?, World.replying]
    rw [hperform] at hnext
    refine ih hnext ha rfl hrest fun l' hl' => ?_
    obtain ⟨exit', h'⟩ := hfull l' (List.mem_cons_of_mem _ hl')
    refine ⟨exit', ?_⟩
    have hne : l ≠ l' := fun h => hnot (h ▸ hl')
    exact (Array.getElem?_setIfInBounds_ne hne).trans h'

end Waiting

namespace Stands

/-- A branch that is over and not yet waited for has its exit in its callback. -/
theorem full_of_over (h : Stands branches finish run seen got t) {b : Branch}
    (hb : t.branches[i]? = some b) (hover : b.Over) (hi : got.length ≤ i)
    (herror : ∀ i message, .ended i (.error message) ∉ seen) :
    ∃ l, ∃ exit : Exit, t.latches[i]? = some l ∧
      t.world.latches[l]? = some (.full (.ok (.outcome exit))) := by
  obtain ⟨x, phase, hx, hstage⟩ := h.running i b hb
  obtain ⟨exit, won, rfl⟩ := hstage.at_.finished hover
  have hlatch := hstage.latch
  rw [decide_eq_false (Nat.not_lt.2 hi)] at hlatch
  cases exit with
  | error message => exact absurd (hstage.ended_iff.2 rfl) (herror _ _)
  | ok exit => exact ⟨_, exit, hx.callback, hlatch⟩

theorem comes (h : Stands branches finish run seen got t) (hsome : t.branches ≠ [])
    (hn : t.branches.length = branches.length) (hover : ∀ b ∈ t.branches, b.Over)
    (herror : ∀ i message, .ended i (.error message) ∉ seen) :
    (∀ op, t.answer = none → t.caller.op? = some op → t.world.ready op = true) ∧
      ∃ u, Runs t [] u ∧ u.answer ≠ none := by
  have hfull : ∀ i l, got.length ≤ i → t.latches[i]? = some l → i < branches.length →
      ∃ exit : Exit, t.world.latches[l]? = some (.full (.ok (.outcome exit))) := by
    intro i l hi hl hlt
    have hb := List.getElem?_eq_getElem (hn ▸ hlt)
    obtain ⟨l', exit, hl', hexit⟩ := h.full_of_over hb (hover _ (List.mem_of_getElem? hb)) hi herror
    obtain rfl := Option.some.inj (hl.symm.trans hl')
    exact ⟨exit, hexit⟩
  cases ha : t.answer with
  | some code => exact ⟨nofun, t, .start, by simp [ha]⟩
  | none =>
    have hbranches : branches ≠ [] := by
      rintro rfl
      exact hsome (List.length_eq_zero_iff.1 hn)
    have hgot : ∀ message, .error message ∉ got := by
      intro message hm
      obtain ⟨i, hi⟩ := List.getElem?_of_mem hm
      exact herror i message (h.collected i _ hi)
    obtain ⟨g, exits, rfl, ⟨hlen, hc⟩ | hc⟩ := (ha ▸ h.caller).dispatched hn hbranches hgot
    · rw [List.length_map] at hfull
      have hrest : ∀ l ∈ t.latches.drop exits.length, ∃ exit : Exit,
          t.world.latches[l]? = some (.full (.ok (.outcome exit))) := by
        intro l hl
        obtain ⟨j, hj⟩ := List.getElem?_of_mem hl
        rw [List.getElem?_drop] at hj
        exact hfull _ l (Nat.le_add_right _ _) hj (hlen ▸ (List.getElem?_eq_some_iff.1 hj).1)
      refine ⟨fun op _ hop => ?_, Runs.start.awaits _ ha hc (h.nodup.drop) hrest⟩
      rw [hc] at hop
      cases hdrop : t.latches.drop exits.length with
      | nil =>
        rw [hdrop, awaiting_nil] at hop
        cases hop
        rfl
      | cons l rest =>
        obtain ⟨exit, hl⟩ := hrest l (by simp [hdrop])
        rw [hdrop, awaiting_cons] at hop
        cases hop
        simp [World.ready, hl, Latch.isFull, Latch.item?]
    · refine ⟨fun op _ hop => ?_, Runs.start.looks ha hc⟩
      rw [hc] at hop
      cases hop
      rfl

theorem joined {total : List Value → Value} (h : Stands branches finish run seen got t)
    (htotal : ∀ values, values.length = branches.length →
      Hands (finish values) (.completed (total values))) :
    Joined branches total seen t where
  claimed i hi := ⟨h.claims_eq hi, h.claimant hi⟩
  induced := h.induced
  course i b hb := by
    obtain ⟨x, phase, hx, hstage⟩ := h.running i b hb
    obtain ⟨exit, hfollows⟩ := h.follows hstage
    obtain rfl := hx.index
    rw [hx.others] at hfollows
    exact ⟨x.node, x.run.context, x.run.connection, x.callback, exit, hx.node, hx.connection,
      hx.callback, hfollows⟩
  cleared i callback r hs hc j hj d hd := by
    obtain ⟨b, x, phase, -, hx, hstage⟩ := h.lane_of_mem (i := i) hs rfl
    obtain rfl := hx.index
    obtain ⟨exit, won, rfl, -, -⟩ := hstage.called_iff.1 hs
    obtain ⟨e, ⟨done, rest, hphase⟩ | hphase⟩ := hstage.claimed_iff.1 (by simp [hc]) <;>
      cases hphase
    refine hstage.facts.2 d ?_
    rw [hx.others]
    exact List.mem_eraseIdx_iff_getElem?.2 ⟨j, hj, hd⟩
  answered code ha := by
    obtain ⟨exits, first, rfl, hlen, rfl, hfirst⟩ := h.answered code ha
    have hn : t.branches.length = branches.length := (ha ▸ h.caller).length_eq
    refine ⟨exits, hlen, fun i exit hi => h.collected i _ (by simp [hi]), ?_⟩
    obtain ⟨values, hvalues, rfl⟩ | ⟨hnone, j, exit, hj, hfails⟩ := values?_cases exits
    · refine .inl ⟨values, rfl, ?_⟩
      rw [answering, hvalues]
      exact htotal values (by simpa using hlen)
    · obtain ⟨i, exit', hc, hi, hfails'⟩ := h.first_failure rfl (hn.trans hlen.symm) hj hfails
      refine .inr ⟨i, exit', hc, hi, hfails', ?_⟩
      rw [answering, hnone, hfirst, hc, List.head?_cons, pick_eq hi hfails']
      exact hands_give exit'
  finished ha := by
    obtain ⟨code, hcode⟩ := Option.ne_none_iff_exists'.1 ha
    exact ⟨(hcode ▸ h.caller).length_eq, fun b hb => h.over_of_answer hcode hb⟩
  unblocked i b exit hb hs hstack op hop := by
    obtain ⟨x, phase, hx, hstage⟩ := h.running i b hb
    obtain rfl := hx.index
    have hexit := hstage.ended_iff.1 hs
    obtain ⟨place, a⟩ := b
    have hat := hstage.at_
    cases phase with
    | dispatched | beginning | running => cases hexit
    | canceling e done rest =>
      have hclears : Clears (x.canceling e rest) a := hat
      cases hclears with
      | code => cases rest <;> cases hop <;> rfl
      | unwinding message => cases hop
      | token a tokens failure => simp [Activity.atop] at hstack
    | _ =>
      obtain rfl : a = _ := hat
      cases hop <;> rfl
  comes hsome hn hover herror := h.comes hsome hn hover herror

end Stands

end Gathering
end Effects
