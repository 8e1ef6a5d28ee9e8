import Effects.Proofs.Cancel.Interrupted
import Effects.Proofs.Shield.Turns

/-!
What a run keeps to while it is in an uncancelable region, an acquire or a release of its own: the
course it would take if its connection had not been canceled.
-/

namespace Effects

variable {c : ConnectionId} {own : FiberId → Prop} {hosts : Hosts} {ts : List Code}
  {events : List Event} {σ : Connection Code} {fs : List Frame} {op : Op} {next : Reply → Code}
  {s : Relay} {turns : List Turn}

section Courses

theorem Stays.code_next (h : Stays c ts none σ ⟨.code (.perform op next), fs⟩) (r : Reply) :
    Stays c ts none σ ⟨.code (next r), fs⟩ := by
  generalize ha : (⟨.code (.perform op next), fs⟩ : Activity) = a at h
  generalize hn : (none : Option (LatchId → Code)) = awaited at h
  cases h with
  | @code b frame rest run fs hb hf h =>
    obtain ⟨control, stack⟩ := b
    obtain ⟨hstack, -⟩ | hb' := hb.cases_inside
    · obtain rfl : stack = [] := hstack
      obtain ⟨-, rfl⟩ := Activity.mk.inj ha
      exact .called hf h
    · have hne : stack ≠ [] := by
        rintro rfl
        cases hb'
      obtain ⟨-, rfl⟩ := Activity.mk.inj ha
      exact .code (b := ⟨.code (next r), stack⟩) (hb.other hne _) hf h
  | wait => cases hn
  | _ => cases ha

theorem Stands.code_next {ps : List Pending} (h : Stands ⟨.code (.perform op next), fs⟩ ps)
    (r : Reply) : Stands ⟨.code (next r), fs⟩ ps := by
  generalize ha : (⟨.code (.perform op next), fs⟩ : Activity) = a at h
  cases h with
  | @ahead b fs ps hb hm below =>
    cases hb with
    | code hx =>
      obtain ⟨hcode, rfl⟩ := Activity.mk.inj ha
      obtain rfl := Control.code.inj hcode
      exact .code (hx.next r) below
    | unwinding => cases ha
    | inside b hf =>
      obtain ⟨-, rfl⟩ := Activity.mk.inj ha
      exact .ahead (.inside ⟨.code (next r), b.stack⟩ hf) (by simp [Activity.atop]) below
  | _ => cases ha

/-- The code goes on with a reply, the world being as before. -/
theorem Course.code_next (h : Course c ts events ⟨s, none⟩)
    (hop : s.activity.control = .code (.perform op next)) (r : Reply) :
    Course c ts events ⟨{ s with activity := ⟨.code (next r), s.activity.stack⟩ }, none⟩ := by
  have hflat : s.flat = ⟨.code (.perform op next), s.frames⟩ := by rw [Relay.flat, hop]
  refine ⟨Activity.proper_of_ne fun _ => by simp, h.known, .inl ?_⟩
  obtain ⟨⟨σ, hc, hstays⟩, ps, hstands, hf⟩ : Underway c ts events ⟨s, none⟩ :=
    h.underway fun message => by simp [hop]
  rw [hflat] at hstays hstands
  exact ⟨⟨σ, hc, hstays.code_next r⟩, ps, hstands.code_next r, hf⟩

theorem Underway.active {u : Watched} (h : Underway c ts events u)
    (hi : u.relay.flat.inside = false) {m : Machine} {run : Run}
    (hm : u.relay.activity.control = .drive m run) :
    u.relay.world.connections[c]? = some (.active ts) := by
  obtain ⟨σ, hσ, hout⟩ := h.outside hi
  rw [hm] at hout
  generalize hk : Control.drive m run = k at hout
  generalize u.awaited = awaited, u.relay.frames = fs at hout
  cases hout with
  | drive => exact hσ
  | called hcontrol => obtain ⟨x, rfl⟩ | ⟨x, rfl⟩ | ⟨x, rfl⟩ := hcontrol <;> cases hk
  | waits hcontrol => obtain ⟨x, rfl⟩ | ⟨x, rfl⟩ := hcontrol <;> cases hk
  | closing hcontrol => obtain rfl | rfl := hcontrol <;> cases hk

/-- Others have done something, but not to the connection. -/
theorem Course.elsewhere (h : Course c ts events ⟨s, none⟩) {w : World}
    (hw : w.connections[c]? = s.world.connections[c]?) :
    Course c ts events ⟨{ s with world := w }, none⟩ := by
  obtain ⟨σ, hc⟩ := h.known
  refine ⟨h.proper, ⟨σ, hw.trans hc⟩, h.goes.imp_left fun hu => ?_⟩
  obtain ⟨⟨σ, hc, hstays⟩, hstands⟩ := hu
  exact ⟨⟨σ, hw.trans hc, hstays⟩, hstands⟩

end Courses

namespace Relay

theorem calm_allows (h : s.world.Apart c own) (ha : s.flat.Apart c own (Within c c))
    (hop : ∀ op, s.activity.op? = some op → ∀ op', op ≠ .connection c op') :
    (⟨s.calm c, none⟩ : Watched).Allows c .own := by
  obtain ⟨w, here, ⟨control, stack⟩, left⟩ := s
  cases control with
  | code x =>
    cases x with
    | perform op next => exact .inl (hop op rfl)
    | _ => trivial
  | drive m run => exact fun _ => ha.drives rfl
  | unwinding | ended => trivial

theorem calm_awaits (ha : s.flat.Apart c own (Within c c)) :
    (⟨s.calm c, none⟩ : Watched).awaits c = none := by
  have hdrives : ∀ m run, s.flat.control = .drive m run → run.connection ≠ c :=
    fun _ _ => ha.drives
  simp only [Watched.awaits, World.awaits]
  split
  · rfl
  · split
    · rename_i register rest run hm
      exact if_neg fun hc => hdrives _ _ hm hc.2
    · rfl
    · rfl

/-- In its region the run does nothing to the connection, but that it may cancel it. -/
theorem op_cases (ha : s.flat.Apart c own (Within c c)) :
    (∀ op, s.activity.op? = some op → ∀ op', op ≠ .connection c op') ∨
      ∃ next, s.activity.control = .code (.perform (.connection c .cancel) next) := by
  obtain ⟨w, here, ⟨control, stack⟩, left⟩ := s
  cases control with
  | code x =>
    cases x with
    | perform op next =>
      have ho : op.Apart c own := ha.performs rfl
      by_cases hop : ∀ op', op ≠ .connection c op'
      · exact .inl fun _ hsome => Option.some.inj hsome ▸ hop
      · simp only [Classical.not_forall, not_not] at hop
        obtain ⟨op', rfl⟩ := hop
        cases ho with
        | plain h => cases h
        | connection hd => exact absurd rfl hd
        | cancel => exact .inr ⟨next, rfl⟩
    | _ => exact .inl fun _ hsome => by cases hsome
  | _ => exact .inl fun _ hsome => by cases hsome

/-- Canceling its own connection, the run goes on. -/
theorem cancel_step (hosts : Hosts) {next : Reply → Code} (h : s.world.Apart c own)
    (hcontrol : s.activity.control = .code (.perform (.connection c .cancel) next)) :
    (s.step hosts).calm c =
        { s.calm c with activity := ⟨.code (next .unit), s.activity.stack⟩ } ∧ s.events = [] := by
  obtain ⟨w, here, ⟨control, stack⟩, left⟩ := s
  obtain rfl : control = _ := hcontrol
  have hact : w.act here ⟨.code (.perform (.connection c .cancel) next), stack⟩ =
      (w.setConnection c .canceled, ⟨.code (next .unit), stack⟩) := by
    show ((w.onConnection c .cancel).1,
      Activity.respond next stack (w.onConnection c .cancel).2) = _
    rw [World.cancel_bare (w := w) h]
    rfl
  refine ⟨?_, ite_self _⟩
  simp only [step, Relay.own, hact, calm, World.calm_setConnection]

theorem calm_or_canceled (h : s.world.Apart c own) :
    s = s.calm c ∨ s = (s.calm c).canceled c := by
  obtain hc | hc := h.bare
  · exact .inl (calm_of hc).symm
  · right
    rw [canceled, calm, World.calm, World.setConnection_setConnection, World.setConnection_of hc]

end Relay

/-- The run is in a region of its own, or has just left it. -/
structure Relay.Sheltered (c : ConnectionId) (own : FiberId → Prop) (events : List Event)
    (s : Relay) : Prop where
  world : s.world.Apart c own
  keeps : s.flat.Keeps c own (Within c c)
  course : Course c [] events ⟨s.calm c, none⟩

namespace Relay.Sheltered

theorem apart (h : s.Sheltered c own events) (h0 : c ≠ .uncancelable)
    (hs : s.flat.shielded c = true) : s.flat.Apart c own (Within c c) := by
  obtain ha | hleft := h.keeps
  · exact ha
  · rw [(hleft.back h0).unshielded] at hs
    cases hs

theorem calmed (h : s.Sheltered c own events) : (s.calm c).Sheltered c own events :=
  ⟨h.world.calm, h.keeps, (calm_calm s).symm ▸ h.course⟩

/-- The run's own step, as if the connection had not been canceled. -/
theorem course_step (h : s.Sheltered c own events) (ha : s.flat.Apart c own (Within c c))
    (hhosts : ∀ w s d, hosts (w.setConnection c s) d = hosts w d) :
    Course c [] (events ++ s.events) ⟨(s.step hosts).calm c, none⟩ := by
  obtain hop | ⟨next, hcontrol⟩ := op_cases ha
  · have hnext : Course c [] _ ((⟨s.calm c, none⟩ : Watched).next hosts c .own) :=
      h.course.own (calm_allows h.world ha hop)
    have hkept : ((s.calm c).step hosts).world.connections[c]? = some (.active []) := by
      obtain hw | hw := (s.calm c).step_world hosts
      · exact hw ▸ h.world.calm_connection
      · exact hw ▸ World.act_connection h.world.calm_connection _ hop
    have hcalm : (s.calm c).step hosts = (s.step hosts).calm c := by
      rw [← step_calm h.world ha hhosts, calm_of hkept]
    rw [Watched.next, calm_awaits ha, hcalm, events_calm h.world ha] at hnext
    exact hnext
  · obtain ⟨hstep, hevents⟩ := cancel_step hosts h.world hcontrol
    rw [hstep, hevents, List.append_nil]
    exact h.course.code_next hcontrol .unit

variable (hhosts : ∀ w s d, hosts (w.setConnection c s) d = hosts w d) {t : Turn}

include hhosts

theorem turn_calm (h : s.Sheltered c own events) (h0 : c ≠ .uncancelable)
    (hi : t = .own → s.flat.shielded c = true) :
    ((s.calm c).turn c hosts t).calm c = (s.turn c hosts t).calm c ∧
      (s.calm c).seen t = s.seen t := by
  cases t with
  | own =>
    have ha := h.apart h0 (hi rfl)
    have hready : (s.calm c).ready = s.ready := rfl
    simp only [turn, seen, hready, events_calm h.world ha]
    refine ⟨?_, trivial⟩
    split
    · exact step_calm h.world ha hhosts
    · exact calm_calm s
  | thread t =>
    refine ⟨?_, rfl⟩
    have henabled : (s.calm c).world.enabled t = s.world.enabled t := World.enabled_calm s.world t
    simp only [turn, henabled]
    split
    · simp only [calm, World.step_calm h.world]
    · exact calm_calm s
  | passing nanos => exact ⟨calm_calm (s.turn c hosts (.passing nanos)), rfl⟩
  | cancel =>
    have hcalm : ((s.calm c).canceled c).calm c = (s.canceled c).calm c := by
      rw [canceled_calm, canceled_calm, calm_calm]
    exact ⟨hcalm, rfl⟩

theorem turn_sheltered (h : s.Sheltered c own events) (h0 : c ≠ .uncancelable)
    (hi : t = .own → s.flat.shielded c = true) :
    (s.turn c hosts t).Sheltered c own (events ++ s.seen t) := by
  have elsewhere : ∀ w : World, w.Apart c own →
      Relay.Sheltered c own (events ++ []) { s with world := w } := fun w hw =>
    { world := hw
      keeps := h.keeps
      course := by
        rw [List.append_nil]
        exact h.course.elsewhere (hw.calm_connection.trans h.world.calm_connection.symm) }
  cases t with
  | own =>
    have ha := h.apart h0 (hi rfl)
    simp only [turn, seen]
    split
    · obtain ⟨hworld, hkeeps⟩ : (s.step hosts).world.Apart c own ∧
          (s.step hosts).flat.Keeps c own (Within c c) :=
        step_keeps h.world h0 ha h.course.proper
      exact ⟨hworld, hkeeps, h.course_step ha hhosts⟩
    · rw [List.append_nil]
      exact h
  | thread t =>
    simp only [turn, seen]
    split
    · exact elsewhere _ (World.step_apart h.world h0 t)
    · rw [List.append_nil]
      exact h
  | passing nanos => exact elsewhere _ { h.world with }
  | cancel => exact elsewhere _ (World.canceled_apart h.world)

/-- Whoever cancels the run while it is in the region, and whenever, it goes as if nobody had. -/
theorem plays (h : s.Sheltered c own events) (h0 : c ≠ .uncancelable)
    (hi : s.Inside c hosts turns) :
    (s.plays c hosts id turns).2.Sheltered c own (events ++ (s.plays c hosts id turns).1) ∧
      (s.calm c).plays c hosts (calm c) turns =
        ((s.plays c hosts id turns).1, (s.plays c hosts id turns).2.calm c) := by
  induction turns generalizing s events with
  | nil =>
    rw [Relay.plays, List.append_nil]
    exact ⟨h, rfl⟩
  | cons t turns ih =>
    obtain ⟨hcalm, hseen⟩ := turn_calm hhosts h h0 hi.1
    obtain ⟨hlater, hsame⟩ := ih (turn_sheltered hhosts h h0 hi.1) hi.2
    simp only [Relay.plays, id_eq, hcalm, hseen, hsame, ← List.append_assoc]
    exact ⟨hlater, trivial⟩

/-- As long as nobody cancels the run, no request has to be kept from it. -/
theorem plays_alone (h : s.Sheltered c own events) (h0 : c ≠ .uncancelable)
    (hi : s.Inside c hosts turns)
    (hquiet : ∀ before, before <+: turns.filter (!·.isCancel) →
      ((s.calm c).plays c hosts id before).2.world.isCanceled c = false) :
    (s.calm c).plays c hosts id (turns.filter (!·.isCancel)) =
      (s.calm c).plays c hosts (calm c) (turns.filter (!·.isCancel)) := by
  induction turns generalizing s events with
  | nil => rfl
  | cons t turns ih =>
    have hlater := turn_sheltered hhosts h h0 hi.1
    cases hcancel : t.isCancel with
    | true =>
      obtain rfl : t = .cancel := by
        cases t with
        | cancel => rfl
        | _ => cases hcancel
      have hsame : (s.turn c hosts .cancel).calm c = s.calm c := canceled_calm s
      rw [List.filter_cons_of_neg (by simp [Turn.isCancel])] at hquiet ⊢
      rw [← hsame] at hquiet ⊢
      exact ih hlater hi.2 hquiet
    | false =>
      rw [List.filter_cons_of_pos (by simp [hcancel])] at hquiet ⊢
      have hnot : ((s.calm c).turn c hosts t).world.isCanceled c = false :=
        hquiet [t] (List.cons_prefix_cons.2 ⟨rfl, List.nil_prefix⟩)
      have hnext : (s.calm c).turn c hosts t = (s.turn c hosts t).calm c := by
        rw [← (turn_calm hhosts h h0 hi.1).1]
        obtain hc | hc := (turn_sheltered hhosts h.calmed h0 hi.1).world.bare
        · exact (calm_of hc).symm
        · rw [World.isCanceled_iff.2 hc] at hnot
          cases hnot
      have hrest := ih hlater hi.2 fun before hbefore => by
        have hmore := hquiet (t :: before) (List.cons_prefix_cons.2 ⟨rfl, hbefore⟩)
        rwa [Relay.plays, id_eq, hnext] at hmore
      simp only [Relay.plays, id_eq, hnext, calm_calm, hrest]

end Relay.Sheltered

end Effects
