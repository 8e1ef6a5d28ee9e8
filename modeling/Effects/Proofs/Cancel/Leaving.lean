import Effects.Proofs.Cancel.Unwinding

/-!
A run on its way out, until it is over.
-/

namespace Effects

open Suspension

variable {hosts : Hosts} {c : ConnectionId} {k : Nat} {P : List Event → Prop} {held : List Held}

namespace Code.Waits

variable {op : Op} {next : Reply → Code}

theorem op_cases (h : (Code.perform op next).Waits c) :
    op = .connection c .isCanceled ∨ (∃ token, op = .connection c (.push token)) ∨
      op = .connection c .pop := by
  generalize hx : Code.perform op next = x at h
  cases h with
  | asking register =>
    rw [asking_eq] at hx
    exact .inl (Code.perform.inj hx).1
  | pushing l token => exact .inr (.inl ⟨token, (Code.perform.inj hx).1⟩)
  | leaving exit => exact .inr (.inr (Code.perform.inj hx).1)

/-- A wait leaves a canceled connection canceled. -/
theorem canceled (h : (Code.perform op next).Waits c) {w : World} {here : Place}
    (hc : w.connections[c]? = some .canceled) :
    (w.perform here op).1.connections[c]? = some .canceled := by
  have hset : (w.setConnection c .canceled).connections[c]? = some .canceled :=
    World.setConnection_getElem? hc _
  obtain rfl | ⟨token, rfl⟩ | rfl := h.op_cases
  · exact hc
  all_goals
    simp only [World.perform, World.onConnection, hc, Option.getD_some]
    exact hset

end Code.Waits

namespace Watched

variable {s : Watched} {act : Act} {acts : List Act}

theorem stays_canceled (hosts : Hosts) (hc : s.relay.world.connections[c]? = some .canceled)
    (h : s.Allows c act) :
    (s.next hosts c act).relay.world.connections[c]? = some .canceled := by
  cases act with
  | others f => exact (h.keeps _).trans hc
  | own =>
    have hown : (s.relay.world.act s.relay.place s.relay.activity).1.connections[c]? =
        some .canceled := by
      rw [World.act_world]
      obtain ⟨⟨w, here, ⟨control, stack⟩, left⟩, awaited⟩ := s
      cases control with
      | code x =>
        cases x with
        | perform op next =>
          obtain hfree | ⟨-, -, hw⟩ := h
          · exact World.perform_connection hc hfree
          · exact hw.canceled hc
        | _ => exact hc
      | _ => exact hc
    obtain hw | hw := s.relay.step_world hosts
    · exact hw ▸ hc
    · exact hw ▸ hown

/-- In a release a panic comes up. -/
def Panics (hosts : Hosts) (c : ConnectionId) (acts : List Act) (s : Watched) : Prop :=
  ∃ before after, acts = before ++ .own :: after ∧
    (s.play hosts c before).2.relay.flat.releasing = true ∧
      ((s.play hosts c before).2.next hosts c .own).relay.flat.Fails

theorem Panics.cons (h : (s.next hosts c act).Panics hosts c acts) :
    s.Panics hosts c (act :: acts) := by
  obtain ⟨before, after, rfl, hreleasing, hfails⟩ := h
  exact ⟨act :: before, after, rfl, hreleasing, hfails⟩

theorem play_proper (hp : s.relay.activity.Proper) :
    (s.play hosts c acts).2.relay.activity.Proper := by
  induction acts generalizing s with
  | nil => exact hp
  | cons act acts ih =>
    cases act with
    | own => exact ih (s := s.next hosts c .own) (Relay.step_proper hosts hp)
    | others f => exact ih (s := s.next hosts c (.others f)) hp

/-- After a panic nothing is seen of the run, and nothing stops the panic. -/
theorem fails_play (hp : s.relay.activity.Proper) (h : s.relay.flat.Fails) :
    (s.play hosts c acts).1 = [] ∧ (s.play hosts c acts).2.relay.flat.Fails := by
  induction acts generalizing s with
  | nil => exact ⟨rfl, h⟩
  | cons act acts ih =>
    cases act with
    | own =>
      have hseen : s.seen .own = [] := Relay.fails_events hp h
      obtain ⟨hrest, hfails⟩ := ih (s := s.next hosts c .own) (Relay.step_proper hosts hp)
        (Relay.fails_step hp h)
      rw [play, hseen, hrest]
      exact ⟨rfl, hfails⟩
    | others f => exact ih (s := s.next hosts c (.others f)) hp h

end Watched

/-- A step outside the releases brings a run nearer to its end, and does not panic. -/
structure Relay.Nears (hosts : Hosts) (t : Relay) (k k' : Nat) : Prop where
  le : k' ≤ k
  panic : k' = 0 → k = 0 ∨ t.flat.releasing = true
  lt : t.Over ∨ t.flat.releasing = true ∨ k' < k ∨
    (t.step hosts).pace < t.pace ∧ (t.step hosts).flat.releasing = false

theorem Stands.not_fails {a : Activity} {ps : List Pending} (h : Stands a ps) : ¬ a.Fails := by
  rintro ⟨hi, message, hm⟩
  cases h with
  | ahead hb hm' _ =>
    cases hb with
    | code => obtain hm | hm := hm <;> cases hm
    | unwinding message => exact hm' message rfl
    | inside b hf => simp [Activity.inside, Activity.atop, hf.isCode] at hi
  | _ => obtain hm | hm := hm <;> cases hm

namespace Sinks

theorem fails_iff {a : Activity} (h : Sinks c k a P) : a.Fails ↔ k = 0 := by
  constructor
  · rintro ⟨hi, message, hm⟩
    cases h with
    | fails => rfl
    | outcome _ _ _ _ hcontrol | stops _ _ _ _ hcontrol =>
      obtain rfl | rfl := hcontrol <;> obtain hm | hm := hm <;> cases hm
    | @cleaning b qs next fs ps hb =>
      simp only [Activity.inside, Activity.atop, List.any_append, Bool.or_eq_false_iff] at hi
      exact (hb.not_fails ⟨hi.1, message, hm⟩).elim
    | asking =>
      rw [asking_eq] at hm
      obtain hm | hm := hm <;> cases hm
    | _ => obtain hm | hm := hm <;> cases hm
  · intro hk
    cases h with
    | fails hf => exact hf
    | _ => exact absurd hk (Nat.succ_ne_zero _)

theorem relay_step (hosts : Hosts) (h0 : c ≠ .uncancelable) {t : Relay} (hp : t.activity.Proper)
    (h : Sinks c k t.flat P) (hc : t.world.connections[c]? = some .canceled) :
    Sinks.Then c (t.Nears hosts k) P t.events (t.step hosts).flat := by
  obtain hh | ha := Relay.step_cases hosts hp
  · have hs : Sinks c k ⟨t.activity.control, t.frames⟩ P := h
    have hflat : (t.step hosts).flat = ⟨(t.step hosts).activity.control, t.frames⟩ := by
      rw [Relay.flat, hh.frames]
    have hreleasing : (t.step hosts).flat.releasing = t.flat.releasing := by
      rw [hflat]
      rfl
    refine then_of (hflat ▸ hs.hands hh.hands) ⟨Nat.le_refl k, .inl, ?_⟩ hh.events
    obtain hover | hpace := hh.pace
    · exact .inl hover
    · cases hr : t.flat.releasing with
      | true => exact .inr (.inl rfl)
      | false => exact .inr (.inr (.inr ⟨hpace, hreleasing.trans hr⟩))
  · rw [ha.events, ha.flat]
    refine (h.act h0 hc ha.acts ha.unsettled).mono fun k' hk' => ?_
    obtain ⟨hpos, hlt⟩ | ⟨hr, hle⟩ | ⟨hf, rfl, rfl⟩ := hk'
    · exact ⟨Nat.le_of_lt hlt, fun hk => absurd hk (Nat.ne_of_gt hpos), .inr (.inr (.inl hlt))⟩
    · exact ⟨hle, fun _ => .inr hr, .inr (.inl hr)⟩
    · obtain ⟨hpace, frame, hframes⟩ := ha.fails hf
      refine ⟨Nat.le_refl 0, .inl, .inr ?_⟩
      cases hr : t.flat.releasing with
      | true => exact .inl rfl
      | false =>
        rw [Relay.flat, hframes, Activity.releasing, List.any_cons, Bool.or_eq_false_iff] at hr
        exact .inr (.inr ⟨hpace, hr.2⟩)

theorem play (h0 : c ≠ .uncancelable) {s : Watched} {acts : List Act}
    (hp : s.relay.activity.Proper) (h : Sinks c k s.relay.flat P)
    (hc : s.relay.world.connections[c]? = some .canceled) (hm : s.Minds hosts c acts) :
    Sinks.Then c (fun k' => k' = 0 → k = 0 ∨ s.Panics hosts c acts) P (s.play hosts c acts).1
      (s.play hosts c acts).2.relay.flat := by
  induction acts generalizing s P k with
  | nil => exact then_of h .inl rfl
  | cons act acts ih =>
    have hc' := Watched.stays_canceled hosts hc hm.1
    cases act with
    | own =>
      obtain ⟨k', Q, hk', hQ, hP⟩ := relay_step hosts h0 hp h hc
      obtain ⟨k'', R, hk'', hR, hQR⟩ := ih (Relay.step_proper hosts hp) hQ hc' hm.2
      refine ⟨k'', R, fun hk => ?_, hR, fun rest hrest => ?_⟩
      · obtain rfl | hpanics := hk'' hk
        · obtain hk | hr := hk'.panic rfl
          · exact .inl hk
          · exact .inr ⟨[], acts, rfl, hr, hQ.fails_iff.2 rfl⟩
        · exact .inr hpanics.cons
      · rw [Watched.play, List.append_assoc]
        exact hP _ (hQR rest hrest)
    | others f =>
      obtain ⟨k', Q, hk', hQ, hP⟩ := ih (s := s.next hosts c (.others f)) hp h hc' hm.2
      exact ⟨k', Q, fun hk => (hk' hk).imp_right .cons, hQ, hP⟩

end Sinks

namespace Watched

variable (hosts c)

/-- Where the run has come to after the first acts of a tape without an end. -/
def after (s : Watched) (tape : Nat → Act) (n : Nat) : Watched :=
  (s.play hosts c ((List.range n).map tape)).2

theorem after_succ (s : Watched) (tape : Nat → Act) (n : Nat) :
    s.after hosts c tape (n + 1) = (s.after hosts c tape n).next hosts c (tape n) := by
  rw [after, List.range_succ, List.map_append, play_append]
  rfl

/-- Others leave the connection alone, the run gets its turns, and no release goes on forever. -/
structure Fair (s : Watched) (tape : Nat → Act) : Prop where
  allows : ∀ n, (s.after hosts c tape n).Allows c (tape n)
  turns : ∀ n, ∃ m, n ≤ m ∧ tape m = .own
  releases : ∀ n, ∃ m, n ≤ m ∧ (s.after hosts c tape m).relay.flat.releasing = false

end Watched

section Ends

variable {s : Watched} {tape : Nat → Act}

/-- After so many acts the run is on its way out, and has so far still to go. -/
def Sinks.At (hosts : Hosts) (c : ConnectionId) (s : Watched) (tape : Nat → Act) (k n : Nat) :
    Prop :=
  (s.after hosts c tape n).relay.activity.Proper ∧
    (s.after hosts c tape n).relay.world.connections[c]? = some .canceled ∧
      ∃ P, Sinks c k (s.after hosts c tape n).relay.flat P

namespace Sinks.At

variable {n : Nat}

theorem next (h0 : c ≠ .uncancelable) (h : At hosts c s tape k n)
    (ha : (s.after hosts c tape n).Allows c (tape n)) :
    (∃ f, tape n = .others f ∧ At hosts c s tape k (n + 1)) ∨
      tape n = .own ∧ ∃ k', (s.after hosts c tape n).relay.Nears hosts k k' ∧
        At hosts c s tape k' (n + 1) := by
  obtain ⟨hp, hc, P, hs⟩ := h
  have hc' := Watched.stays_canceled hosts hc ha
  cases hact : tape n with
  | own =>
    rw [hact] at hc'
    obtain ⟨k', Q, hk', hQ, -⟩ := relay_step hosts h0 hp hs hc
    refine .inr ⟨rfl, k', hk', ?_⟩
    rw [At, Watched.after_succ, hact]
    exact ⟨Relay.step_proper hosts hp, hc', Q, hQ⟩
  | others f =>
    rw [hact] at hc'
    refine .inl ⟨f, rfl, ?_⟩
    rw [At, Watched.after_succ, hact]
    exact ⟨hp, hc', P, hs⟩

/-- However long a release takes, the run is not further from its end afterwards. -/
theorem later (h0 : c ≠ .uncancelable) (h : At hosts c s tape k n)
    (ha : ∀ n, (s.after hosts c tape n).Allows c (tape n)) (d : Nat) :
    ∃ k', k' ≤ k ∧ At hosts c s tape k' (n + d) := by
  induction d with
  | zero => exact ⟨k, Nat.le_refl k, h⟩
  | succ d ih =>
    obtain ⟨k', hk', h'⟩ := ih
    obtain ⟨f, -, h''⟩ | ⟨-, k'', hnears, h''⟩ := h'.next h0 (ha _)
    · exact ⟨k', hk', h''⟩
    · exact ⟨k'', Nat.le_trans hnears.le hk', h''⟩

/-- Nearer to its end, at least by a hand-over outside the releases, or over. -/
def Gains (hosts : Hosts) (c : ConnectionId) (s : Watched) (tape : Nat → Act) (k pace m : Nat) :
    Prop :=
  (s.after hosts c tape m).relay.Over ∨ (∃ k', k' < k ∧ At hosts c s tape k' m) ∨
    At hosts c s tape k m ∧ (s.after hosts c tape m).relay.flat.releasing = false ∧
      (s.after hosts c tape m).relay.pace < pace

/-- Outside the releases a run gets nearer to its end with a step of its own. -/
theorem own (h0 : c ≠ .uncancelable) (h : At hosts c s tape k n)
    (ha : (s.after hosts c tape n).Allows c (tape n))
    (hr : (s.after hosts c tape n).relay.flat.releasing = false) (hown : tape n = .own) :
    ∃ m, Gains hosts c s tape k (s.after hosts c tape n).relay.pace m := by
  have hstep : (s.after hosts c tape (n + 1)).relay =
      (s.after hosts c tape n).relay.step hosts := by
    rw [Watched.after_succ, hown]
    rfl
  obtain ⟨f, hf, -⟩ | ⟨-, k', hnears, h'⟩ := h.next h0 ha
  · cases hown.symm.trans hf
  · obtain hover | hr' | hlt | ⟨hpace, hr'⟩ := hnears.lt
    · exact ⟨n, .inl hover⟩
    · cases hr.symm.trans hr'
    · exact ⟨n + 1, .inr (.inl ⟨k', hlt, h'⟩)⟩
    · rw [← hstep] at hpace hr'
      obtain hlt | rfl := Nat.lt_or_eq_of_le hnears.le
      · exact ⟨n + 1, .inr (.inl ⟨k', hlt, h'⟩)⟩
      · exact ⟨n + 1, .inr (.inr ⟨h', hr', hpace⟩)⟩

theorem turn (h0 : c ≠ .uncancelable) (h : At hosts c s tape k n)
    (ha : ∀ n, (s.after hosts c tape n).Allows c (tape n))
    (hr : (s.after hosts c tape n).relay.flat.releasing = false) {d : Nat}
    (hown : tape (n + d) = .own) :
    ∃ m, Gains hosts c s tape k (s.after hosts c tape n).relay.pace m := by
  induction d generalizing n with
  | zero => exact h.own h0 (ha n) hr hown
  | succ d ih =>
    obtain ⟨f, hf, h'⟩ | ⟨htape, -⟩ := h.next h0 (ha n)
    · have hnext : s.after hosts c tape (n + 1) =
          (s.after hosts c tape n).next hosts c (.others f) := by
        rw [Watched.after_succ, hf]
      have hlater := ih (n := n + 1) h' (hnext ▸ hr) (by rwa [Nat.add_assoc, Nat.add_comm 1])
      rw [hnext] at hlater
      exact hlater
    · exact h.own h0 (ha n) hr htape

/-- The run is over some time: by induction on what it has still to go through, and outside the
releases on the hand-overs. -/
theorem ends (h0 : c ≠ .uncancelable) (hfair : s.Fair hosts c tape)
    (h : At hosts c s tape k n) : ∃ m, (s.after hosts c tape m).relay.Over := by
  induction k using Nat.strongRecOn generalizing n with
  | ind k ih =>
    obtain ⟨m, hm, hr⟩ := hfair.releases n
    obtain ⟨d, rfl⟩ := Nat.exists_eq_add_of_le hm
    obtain ⟨k', hk', h'⟩ := h.later h0 hfair.allows d
    obtain hlt | rfl := Nat.lt_or_eq_of_le hk'
    · exact ih k' hlt h'
    · generalize n + d = m at h' hr
      generalize hpace : (s.after hosts c tape m).relay.pace = pace
      induction pace using Nat.strongRecOn generalizing m with
      | ind pace ihpace =>
        obtain ⟨m', hm', hown⟩ := hfair.turns m
        obtain ⟨e, rfl⟩ := Nat.exists_eq_add_of_le hm'
        obtain ⟨m', hover | ⟨k'', hlt, h''⟩ | ⟨h'', hr', hlt⟩⟩ := h'.turn h0 hfair.allows hr hown
        · exact ⟨m', hover⟩
        · exact ih k'' hlt h''
        · exact ihpace _ (hpace ▸ hlt) m' h'' hr' rfl

end Sinks.At

end Ends

end Effects
