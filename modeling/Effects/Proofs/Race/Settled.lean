import Effects.Proofs.Race.Runs

/-!
What comes of a race: one racer claims it, and its end is the end of the race; all others record
theirs on their fibers, and those are the fibers that are handed out.
-/

namespace Effects

open Routine

namespace Racing

variable {nodes : List Node} {c : ContextId}
  {wrap : List FiberId → Nat → Except Value Value → Value} {l : LatchId} {seen : List Sign}
  {t : Scene} {i : Nat} {f : FiberId} {x : Lane} {phase : Phase} {r : Racer} {exit : Delivery}

/-- All that is seen of a racer who wins. -/
def winning (i : Nat) (l : LatchId) (wrap : Except Value Value → Value) (node : Node) (run : Run)
    (exit : Delivery) : List Sign :=
  [.began i (.focus node []) run, .ended i exit, .claimed i, .called i l (result wrap exit)]

/-- All that is seen of a racer who loses, and has a joiner to call back or none. -/
def losing (i : Nat) (f : FiberId) (node : Node) (run : Run) (exit : Delivery)
    (joiner : Option LatchId) : List Sign :=
  [.began i (.focus node []) run, .ended i exit, .recorded i f exit] ++
    (joiner.toList.map fun joiner => .called i joiner (exit.map .outcome)) ++ [.opened i f]

/-- The racer has nothing left to do. -/
def Racer.Over (r : Racer) : Prop := r.activity = ⟨.code (.give .unit), []⟩

/-- So far it has taken this course, and to its end if it is over. -/
def Racer.Follows (r : Racer) (i : Nat) (seen signs : List Sign) : Prop :=
  course i seen <+: signs ∧ (r.Over → course i seen = signs)

/-- What is known of a race at any time. -/
structure Settled (nodes : List Node) (c : ContextId)
    (wrap : List FiberId → Nat → Except Value Value → Value) (l : LatchId) (seen : List Sign)
    (t : Scene) : Prop where
  /-- One claims at most, and one has claimed as soon as any is over. -/
  claimed : (claims seen).length ≤ 1
  decided : ∀ r ∈ t.racers, r.Over → ∃ i, claims seen = [i]
  /-- Each runs its own computation under its own fiber's connection, and then wins or loses. -/
  course : ∀ i r, t.racers[i]? = some r → ∃ node f s exit,
    nodes[i]? = some node ∧ t.fibers[i]? = some f ∧ t.world.fibers[f]? = some s ∧
      (claims seen = [i] →
        r.Follows i seen (winning i l (wrap t.fibers i) node ⟨c, s.connection⟩ exit)) ∧
      (claims seen ≠ [i] → ∃ joiner, joiner ≠ some l ∧
        r.Follows i seen (losing i f node ⟨c, s.connection⟩ exit joiner))
  /-- Only the one who claims delivers to the callback. -/
  delivered : ∀ i result, .called i l result ∈ seen → claims seen = [i]
  recorded : ∀ i f exit, .recorded i f exit ∈ seen →
    t.fibers[i]? = some f ∧ .ended i exit ∈ seen ∧ ∃ j ≠ i, claims seen = [j]
  /-- Who finds an exit on a fiber, or would find one now, finds its racer's. -/
  heard : ∀ f exit, .heard f exit ∈ seen → ∃ i, .recorded i f exit ∈ seen
  found : ∀ i f s exit, t.fibers[i]? = some f → t.world.fibers[f]? = some s →
    s.slot = .finished (some exit) → .recorded i f exit ∈ seen
  /-- It is found once, unless a joiner has waited, who is called back with it. -/
  kept : ∀ i f exit, .recorded i f exit ∈ seen → ∃ s r, t.world.fibers[f]? = some s ∧
    t.racers[i]? = some r ∧
      (s.slot = .finished (some exit) ∧ taken f seen = [] ∨
        s.slot = .finished none ∧ taken f seen = [exit] ∨
        s.slot = .finished none ∧ taken f seen = [] ∧ ∃ joiner, joiner ≠ l ∧
          (r.activity.op? = some (.settle joiner (exit.map .outcome)) ∨
            .called i joiner (exit.map .outcome) ∈ seen))
  /-- Who waits for a racer to stop goes on after it has stopped. -/
  stopped : ∀ i f, t.fibers[i]? = some f → t.world.ready (.fiber f .awaitFinished) = true →
    ∃ exit, .ended i exit ∈ seen ∧ .recorded i f exit ∈ seen
  closed : ∀ i f, t.fibers[i]? = some f → .claimed i ∈ seen →
    t.world.ready (.fiber f .awaitFinished) = false
  /-- Once its computation has ended, nothing holds a racer up. -/
  unblocked : ∀ i r exit, t.racers[i]? = some r → .ended i exit ∈ seen →
    ∀ op, r.activity.op? = some op → t.world.ready op = true

theorem mem_course {sign : Sign} : sign ∈ course i seen ↔ sign ∈ seen ∧ sign.racer? = some i := by
  simp [course]

theorem mem_claims : i ∈ claims seen ↔ .claimed i ∈ seen := by
  simp only [claims, List.mem_filterMap]
  constructor
  · rintro ⟨sign, hs, hi⟩
    cases sign <;> simp_all
  · exact fun h => ⟨_, h, rfl⟩

/-- How the racer ends, so far as it is known. -/
def Phase.exit? : Phase → Option Delivery
  | .dispatched | .beginning | .running => none
  | .reading exit | .writing exit | .calling exit | .won exit | .recording exit
  | .handing exit _ | .opening exit _ | .lost exit _ => some exit

theorem Phase.At.over {a : Activity} (h : phase.At x a) (ha : a = ⟨.code (.give .unit), []⟩) :
    (∃ exit, phase = .won exit) ∨ ∃ exit joiner, phase = .lost exit joiner := by
  subst ha
  cases phase with
  | won exit => exact .inl ⟨exit, rfl⟩
  | lost exit joiner => exact .inr ⟨exit, joiner, rfl⟩
  | running =>
    obtain ⟨b, -, h⟩ := h
    simp [Activity.atop] at h
  | _ => cases h

namespace Stage

variable {w : World} {a : Activity}

theorem mem_trace (h : Stage x w seen a phase) {sign : Sign} (hi : sign.racer? = some x.index) :
    sign ∈ seen ↔ sign ∈ phase.trace x := by
  rw [← h.trace, mem_course]
  exact ⟨fun hs => ⟨hs, hi⟩, fun hs => hs.1⟩

theorem claimed_iff (h : Stage x w seen a phase) :
    x.index ∈ claims seen ↔ ∃ exit, phase = .calling exit ∨ phase = .won exit := by
  rw [mem_claims, h.mem_trace rfl]
  cases phase with
  | opening exit joiner | lost exit joiner => cases joiner <;> simp [Phase.trace]
  | _ => simp [Phase.trace]

theorem ended_iff (h : Stage x w seen a phase) :
    .ended x.index exit ∈ seen ↔ phase.exit? = some exit := by
  rw [h.mem_trace rfl]
  cases phase with
  | opening exit joiner | lost exit joiner =>
    cases joiner <;> simp [Phase.trace, Phase.exit?, eq_comm]
  | _ => simp [Phase.trace, Phase.exit?, eq_comm]

theorem recorded_iff (h : Stage x w seen a phase) :
    .recorded x.index f exit ∈ seen ↔ f = x.fiber ∧ ((∃ joiner, phase = .handing exit joiner) ∨
      (∃ joiner, phase = .opening exit joiner) ∨ ∃ joiner, phase = .lost exit joiner) := by
  rw [h.mem_trace rfl]
  cases phase with
  | opening exit joiner | lost exit joiner =>
    cases joiner <;> simp [Phase.trace, eq_comm]
  | _ => simp [Phase.trace, eq_comm]

/-- Nothing has been recorded on the fiber, or its exit is somewhere. -/
theorem vacant_or (h : Stage x w seen a phase) : ∃ s, w.fibers[x.fiber]? = some s ∧
    (Vacant x.callback (taken x.fiber seen) s ∨ ∃ exit joiner,
      Holding exit (taken x.fiber seen) s.slot joiner ∧
        .recorded x.index x.fiber exit ∈ seen) := by
  obtain ⟨s, hs, -, hf⟩ := h.fiber
  refine ⟨s, hs, ?_⟩
  cases phase with
  | handing exit joiner =>
    exact .inr ⟨exit, _, hf.2.2, h.recorded_iff.2 ⟨rfl, .inl ⟨joiner, rfl⟩⟩⟩
  | opening exit joiner =>
    exact .inr ⟨exit, _, hf.2.2, h.recorded_iff.2 ⟨rfl, .inr (.inl ⟨joiner, rfl⟩)⟩⟩
  | lost exit joiner =>
    exact .inr ⟨exit, _, hf.2.2, h.recorded_iff.2 ⟨rfl, .inr (.inr ⟨joiner, rfl⟩)⟩⟩
  | _ => exact .inl hf

theorem recorded_of_taken (h : Stage x w seen a phase) (ht : exit ∈ taken x.fiber seen) :
    .recorded x.index x.fiber exit ∈ seen := by
  obtain ⟨s, -, hv | ⟨exit', joiner, hh, hrecorded⟩⟩ := h.vacant_or
  · rw [hv.gone] at ht
    cases ht
  · cases joiner with
    | some joiner =>
      rw [hh.2] at ht
      cases ht
    | none =>
      obtain ⟨-, hgone⟩ | ⟨-, hgone⟩ := hh <;> rw [hgone] at ht
      · cases ht
      · rwa [List.mem_singleton.1 ht]

theorem recorded_of_slot (h : Stage x w seen a phase) {s : Fiber.State}
    (hs : w.fibers[x.fiber]? = some s) (hslot : s.slot = .finished (some exit)) :
    .recorded x.index x.fiber exit ∈ seen := by
  obtain ⟨s', hs', hv | ⟨exit', joiner, hh, hrecorded⟩⟩ := h.vacant_or <;>
    obtain rfl := Option.some.inj (hs.symm.trans hs')
  · obtain ⟨joiner, hrunning, -⟩ := hv.slot
    rw [hslot] at hrunning
    cases hrunning
  · rw [hslot] at hh
    cases joiner with
    | some joiner => cases hh.1
    | none =>
      obtain ⟨hslot', -⟩ | ⟨hslot', -⟩ := hh <;> cases hslot'
      exact hrecorded

theorem claimed_of_called (h : Stage x w seen a phase) {r : Except String Reply}
    (hs : .called x.index x.callback r ∈ seen) : x.index ∈ claims seen := by
  obtain ⟨s, -, -, hf⟩ := h.fiber
  rw [h.claimed_iff]
  rw [h.mem_trace rfl] at hs
  cases phase with
  | won exit => exact ⟨exit, .inr rfl⟩
  | opening exit joiner | lost exit joiner =>
    obtain ⟨-, hjoiner, -⟩ := hf
    cases joiner with
    | none => simp [Phase.trace] at hs
    | some joiner =>
      obtain ⟨rfl, -⟩ : x.callback = joiner ∧ _ := by simpa [Phase.trace] using hs
      exact absurd rfl hjoiner
  | _ => simp [Phase.trace] at hs

/-- An exit that has been recorded is in the slot, has been found there, or goes to a joiner. -/
theorem kept_of_recorded (h : Stage x w seen a phase)
    (hs : .recorded x.index f exit ∈ seen) : ∃ s, w.fibers[f]? = some s ∧
      (s.slot = .finished (some exit) ∧ taken f seen = [] ∨
        s.slot = .finished none ∧ taken f seen = [exit] ∨
        s.slot = .finished none ∧ taken f seen = [] ∧ ∃ joiner, joiner ≠ x.callback ∧
          (a.op? = some (.settle joiner (exit.map .outcome)) ∨
            .called x.index joiner (exit.map .outcome) ∈ seen)) := by
  obtain ⟨rfl, hphase⟩ := h.recorded_iff.1 hs
  obtain ⟨s, hfiber, -, hf⟩ := h.fiber
  refine ⟨s, hfiber, ?_⟩
  obtain ⟨joiner, rfl⟩ | ⟨joiner, rfl⟩ | ⟨joiner, rfl⟩ := hphase
  · obtain ⟨-, hjoiner, hslot, hgone⟩ := hf
    have ha : a = ⟨.code (x.handing exit joiner), []⟩ := h.at_
    refine .inr (.inr ⟨hslot, hgone, joiner, hjoiner, .inl ?_⟩)
    rw [ha]
    rfl
  all_goals
    obtain ⟨-, hjoiner, hholding⟩ := hf
    cases joiner with
    | none => exact hholding.imp id .inl
    | some joiner =>
      refine .inr (.inr ⟨hholding.1, hholding.2, joiner, fun hj => hjoiner (congrArg some hj),
        .inr ?_⟩)
      rw [h.mem_trace rfl]
      simp [Phase.trace]

theorem ready_of_ended (h : Stage x w seen a phase) (hs : .ended x.index exit ∈ seen) {op : Op}
    (hop : a.op? = some op) : w.ready op = true := by
  have hat := h.at_
  have hexit := h.ended_iff.1 hs
  cases phase with
  | dispatched | beginning | running => cases hexit
  | won | lost =>
    rw [show a = ⟨.code (.give .unit), []⟩ from hat] at hop
    cases hop
  | _ =>
    rw [show a = _ from hat] at hop
    cases hop
    rfl

end Stage

namespace Stands

theorem lane_of_mem (h : Stands nodes c wrap l seen t) {sign : Sign} (hs : sign ∈ seen)
    (hi : sign.racer? = some i) : ∃ r x phase, t.racers[i]? = some r ∧
      Given nodes c wrap l t.cell t.fibers i x ∧ Stage x t.world seen r.activity phase := by
  obtain ⟨j, hj, hsign⟩ | ⟨g, -, exit, rfl⟩ := h.known sign hs
  · obtain rfl := Option.some.inj (hsign.symm.trans hi)
    have hr := List.getElem?_eq_getElem hj
    obtain ⟨x, phase, hx, hstage⟩ := h.racing _ _ hr
    exact ⟨_, x, phase, hr, hx, hstage⟩
  · cases hi

theorem claims_cases (h : Stands nodes c wrap l seen t) :
    claims seen = [] ∨ ∃ i, claims seen = [i] := by
  cases hr : t.racers with
  | nil =>
    have hknown := h.known
    rw [hr] at hknown
    exact .inl hknown.claims_eq_nil
  | cons r rest =>
    have hr' : t.racers[0]? = some r := by rw [hr]; rfl
    obtain ⟨x, phase, hx, -⟩ := h.racing 0 r hr'
    obtain ⟨hc, -⟩ | ⟨i, hc, -⟩ := h.claimed _ hx.cell
    · exact .inl hc
    · exact .inr ⟨i, hc⟩

theorem claims_eq_iff (h : Stands nodes c wrap l seen t) : claims seen = [i] ↔ i ∈ claims seen := by
  constructor
  · intro hc
    simp [hc]
  · intro hi
    obtain hc | ⟨j, hc⟩ := h.claims_cases <;> rw [hc] at hi ⊢
    · cases hi
    · rw [List.mem_singleton.1 hi]

/-- Another one has claimed. -/
theorem beaten (h : Stands nodes c wrap l seen t) {w : World} {a : Activity}
    (hstage : Stage x w seen a phase) (hb : phase.Beaten) : ∃ j ≠ x.index, claims seen = [j] := by
  obtain ⟨j, hc⟩ := h.claims_cases.resolve_left (hstage.beaten hb)
  refine ⟨j, fun hj => ?_, hc⟩
  subst hj
  obtain ⟨exit, rfl | rfl⟩ := hstage.claimed_iff.1 (h.claims_eq_iff.1 hc) <;> exact hb

theorem follows (h : Stands nodes c wrap l seen t) (hstage : Stage x t.world seen r.activity phase) :
    (claims seen = [x.index] → ∃ exit,
      r.Follows x.index seen (winning x.index x.callback x.wrap x.node x.run exit)) ∧
    (claims seen ≠ [x.index] → ∃ exit joiner, joiner ≠ some x.callback ∧
      r.Follows x.index seen (losing x.index x.fiber x.node x.run exit joiner)) := by
  have hover : r.Over → _ := hstage.at_.over
  have hcourse := hstage.trace
  obtain ⟨s, -, -, hf⟩ := hstage.fiber
  rw [ne_eq, h.claims_eq_iff, hstage.claimed_iff]
  constructor
  · rintro ⟨exit, rfl | rfl⟩
    · refine ⟨exit, ?_, fun ho => ?_⟩
      · rw [hcourse]
        exact ⟨[_], rfl⟩
      · obtain ⟨_, h⟩ | ⟨_, _, h⟩ := hover ho <;> cases h
    · exact ⟨exit, by rw [hcourse]; exact List.prefix_refl _, fun _ => hcourse⟩
  · intro hnot
    have hpart : ∀ {signs}, phase.trace x <+: signs →
        (∀ exit joiner, phase = .lost exit joiner → phase.trace x = signs) →
          r.Follows x.index seen signs := by
      intro signs hpre hlost
      refine ⟨by rw [hcourse]; exact hpre, fun ho => ?_⟩
      obtain ⟨exit, rfl⟩ | ⟨exit, joiner, rfl⟩ := hover ho
      · exact absurd ⟨exit, .inr rfl⟩ hnot
      · exact hcourse.trans (hlost exit joiner rfl)
    cases phase with
    | dispatched | beginning =>
      exact ⟨.ok .canceled, none, nofun, hpart (List.nil_prefix) nofun⟩
    | running => exact ⟨.ok .canceled, none, nofun, hpart ⟨_, rfl⟩ nofun⟩
    | reading exit | writing exit | recording exit =>
      exact ⟨exit, none, nofun, hpart ⟨_, rfl⟩ nofun⟩
    | calling exit => exact absurd ⟨exit, .inl rfl⟩ hnot
    | won exit => exact absurd ⟨exit, .inr rfl⟩ hnot
    | handing exit joiner =>
      exact ⟨exit, some joiner, fun hj => hf.2.1 (Option.some.inj hj), hpart ⟨_, rfl⟩ nofun⟩
    | opening exit joiner => exact ⟨exit, joiner, hf.2.1, hpart ⟨_, rfl⟩ nofun⟩
    | lost exit joiner =>
      exact ⟨exit, joiner, hf.2.1, hpart (List.prefix_refl _) fun _ _ _ => rfl⟩

/-- Whoever waits for the fiber's gate can go on as soon as its racer has lost, and not before. -/
theorem gate_iff {w : World} {a : Activity} (hstage : Stage x w seen a phase) (hs : x.fiber = f) :
    w.ready (.fiber f .awaitFinished) = true ↔ ∃ exit joiner, phase = .lost exit joiner := by
  subst hs
  obtain ⟨s, hs, -, hf⟩ := hstage.fiber
  simp only [World.ready, hs, Option.any_some]
  cases phase with
  | lost exit joiner => simp [hf.1, Gate.isOpen]
  | handing exit joiner | opening exit joiner => simp [hf.1, Gate.isOpen]
  | _ => simp [Vacant.gate hf, Gate.isOpen]

theorem settled (h : Stands nodes c wrap l seen t) : Settled nodes c wrap l seen t where
  claimed := by
    obtain hc | ⟨i, hc⟩ := h.claims_cases <;> simp [hc]
  decided r hr ho := by
    obtain ⟨i, hi, rfl⟩ := List.getElem_of_mem hr
    obtain ⟨x, phase, hx, hstage⟩ := h.racing i _ (List.getElem?_eq_getElem hi)
    obtain ⟨exit, rfl⟩ | ⟨exit, joiner, rfl⟩ := hstage.at_.over ho
    · exact ⟨_, h.claims_eq_iff.2 (hstage.claimed_iff.2 ⟨exit, .inr rfl⟩)⟩
    · obtain ⟨j, -, hc⟩ := h.beaten hstage trivial
      exact ⟨j, hc⟩
  course i r hr := by
    obtain ⟨x, phase, hx, hstage⟩ := h.racing i r hr
    obtain ⟨s, hs, hconn, -⟩ := hstage.fiber
    obtain ⟨hwon, hlost⟩ := h.follows hstage
    have hrun : x.run = ⟨c, s.connection⟩ := by
      rw [hconn, ← hx.context]
    obtain rfl := hx.index
    rw [hx.callback, hx.wrap, hrun] at hwon
    rw [hx.callback, hrun] at hlost
    by_cases hc : claims seen = [x.index]
    · obtain ⟨exit, hfollows⟩ := hwon hc
      exact ⟨x.node, x.fiber, s, exit, hx.node, hx.fiber, hs, fun _ => hfollows,
        fun hn => absurd hc hn⟩
    · obtain ⟨exit, hfollows⟩ := hlost hc
      exact ⟨x.node, x.fiber, s, exit, hx.node, hx.fiber, hs, fun hn => absurd hn hc,
        fun _ => hfollows⟩
  delivered i result hs := by
    obtain ⟨r, x, phase, hr, hx, hstage⟩ := h.lane_of_mem hs rfl
    obtain rfl := hx.index
    rw [← hx.callback] at hs
    exact h.claims_eq_iff.2 (hstage.claimed_of_called hs)
  recorded i f exit hs := by
    obtain ⟨r, x, phase, hr, hx, hstage⟩ := h.lane_of_mem hs rfl
    obtain rfl := hx.index
    obtain ⟨rfl, hphase⟩ := hstage.recorded_iff.1 hs
    obtain ⟨joiner, rfl⟩ | ⟨joiner, rfl⟩ | ⟨joiner, rfl⟩ := hphase <;>
      exact ⟨hx.fiber, hstage.ended_iff.2 rfl, h.beaten hstage trivial⟩
  heard f exit hs := by
    obtain ⟨j, hj, hsign⟩ | ⟨g, hg, exit', hsign⟩ := h.known _ hs
    · cases hsign
    · cases hsign
      have htaken : exit ∈ taken f seen := by
        simp only [taken, List.mem_filterMap]
        exact ⟨_, hs, by simp⟩
      obtain ⟨i, hi⟩ := List.getElem?_of_mem hg
      obtain ⟨s, -, hv⟩ | ⟨r, x, phase, hstage, rfl, -⟩ := h.fiber_cases hi
      · rw [hv.gone] at htaken
        cases htaken
      · exact ⟨x.index, hstage.recorded_of_taken htaken⟩
  found i f s exit hf hs hslot := by
    obtain ⟨s', hs', hv⟩ | ⟨r, x, phase, hstage, rfl, rfl⟩ := h.fiber_cases hf
    · obtain rfl := Option.some.inj (hs.symm.trans hs')
      obtain ⟨joiner, hrunning, -⟩ := hv.slot
      rw [hslot] at hrunning
      cases hrunning
    · exact hstage.recorded_of_slot hs hslot
  kept i f exit hs := by
    obtain ⟨r, x, phase, hr, hx, hstage⟩ := h.lane_of_mem hs rfl
    obtain rfl := hx.index
    obtain ⟨s, hf, hkept⟩ := hstage.kept_of_recorded hs
    rw [hx.callback] at hkept
    exact ⟨s, r, hf, hr, hkept⟩
  stopped i f hf hready := by
    obtain ⟨s, hs, hv⟩ | ⟨r, x, phase, hstage, rfl, rfl⟩ := h.fiber_cases hf
    · simp [World.ready, hs, hv.gate, Gate.isOpen] at hready
    · obtain ⟨exit, joiner, rfl⟩ := (gate_iff hstage rfl).1 hready
      exact ⟨exit, hstage.ended_iff.2 rfl, hstage.recorded_iff.2 ⟨rfl, .inr (.inr ⟨joiner, rfl⟩)⟩⟩
  closed i f hf hs := by
    obtain ⟨r, x, phase, hr, hx, hstage⟩ := h.lane_of_mem hs rfl
    obtain rfl := hx.index
    obtain rfl : x.fiber = f := Option.some.inj (hx.fiber.symm.trans hf)
    rw [Bool.eq_false_iff, ne_eq, gate_iff hstage rfl]
    rintro ⟨exit, joiner, rfl⟩
    obtain ⟨exit', hphase | hphase⟩ := hstage.claimed_iff.1 (mem_claims.2 hs) <;> cases hphase
  unblocked i r exit hr hs op hop := by
    obtain ⟨x, phase, hx, hstage⟩ := h.racing i r hr
    obtain rfl := hx.index
    exact hstage.ready_of_ended hs hop

end Stands

end Racing
end Effects
