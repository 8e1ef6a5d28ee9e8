import Effects.Proofs.Cancel.Blind
import Effects.Proofs.Suspend.Stage

/-!
A run played from a tape: its own steps, and between any two of them whatever others do. Where its
connection is canceled, the run goes on as it would have, up to the first point at which it asks.
-/

namespace Effects

inductive Act where
  | own
  | others (f : World → World)

/-- Neither changes the connection nor looks at it. -/
structure Blind (c : ConnectionId) (f : World → World) : Prop where
  keeps : ∀ w, (f w).connections[c]? = w.connections[c]?
  overlooks : ∀ w s, f (w.setConnection c s) = (f w).setConnection c s

/-- The steps of a wait that are about the connection. -/
inductive Code.Waits (c : ConnectionId) : Code → Prop
  | asking (register : LatchId → Code) : Code.Waits c (Suspension.asking register c)
  | pushing (l : LatchId) (token : Code) : Code.Waits c (Suspension.pushing c l token)
  | leaving (exit : Exit) : Code.Waits c (Suspension.leaving c exit)

namespace Relay

variable {hosts : Hosts}

theorem step_world (hosts : Hosts) (t : Relay) : (t.step hosts).world = t.world ∨
    (t.step hosts).world = (t.world.act t.place t.activity).1 := by
  obtain ⟨w, here, ⟨control, stack⟩, left⟩ := t
  cases control with
  | drive m run =>
    simp only [step]
    split
    · exact .inr rfl
    · exact .inl rfl
  | ended r => cases left <;> exact .inl rfl
  | code | unwinding => exact .inr rfl

def canceled (c : ConnectionId) (s : Relay) : Relay :=
  { s with world := s.world.setConnection c .canceled }

/-- The next step is an async registration, or the start of an acquire or of a use, and it asks this
connection. -/
def Point (c : ConnectionId) (s : Relay) : Prop :=
  s.flat.inside = false ∧ ∃ m run, s.activity.control = .drive m run ∧
    s.world.isCurrent s.place.home run.context = true ∧ m.asks = true ∧ run.connection = c

end Relay

/-- Whoever waits for a callback goes on waiting, or with what was delivered. -/
theorem World.await_act (w : World) (here : Place) (l : LatchId) (k : Exit → Code)
    (stack : List Frame) :
    (w.act here ⟨.code (l.wait k), stack⟩).1.connections = w.connections ∧
      ((w.act here ⟨.code (l.wait k), stack⟩).2 = ⟨.code (l.wait k), stack⟩ ∨
        (∃ exit, (w.act here ⟨.code (l.wait k), stack⟩).2 = ⟨.code (k exit), stack⟩) ∨
          ∃ message, (w.act here ⟨.code (l.wait k), stack⟩).2 =
            ⟨.code (.panic message), stack⟩) := by
  have hact : w.act here ⟨.code (l.wait k), stack⟩ =
      ((w.perform here (.await l)).1,
        .respond (fun r => Routine.rethrow r.toCaught fun reply => k reply.toExit) stack
          (w.perform here (.await l)).2) := rfl
  have hwait : l.wait k =
      .perform (.await l) fun r => Routine.rethrow r.toCaught fun reply => k reply.toExit := rfl
  rw [hact]
  simp only [World.perform]
  split
  · rename_i r _
    refine ⟨rfl, .inr ?_⟩
    rcases r with message | reply
    · exact .inr ⟨message, rfl⟩
    · exact .inl ⟨reply.toExit, rfl⟩
  · exact ⟨rfl, .inl (hwait ▸ rfl)⟩

theorem World.leaving_act {w : World} {c : ConnectionId} {s : Connection Code} (here : Place)
    (hc : w.connections[c]? = some s) (exit : Exit) (stack : List Frame) :
    w.act here ⟨.code (Suspension.leaving c exit), stack⟩ =
      (w.setConnection c s.pop.1, ⟨.code (.give (.outcome exit)), stack⟩) := by
  show ((w.onConnection c .pop).1, Activity.respond _ stack (w.onConnection c .pop).2) = _
  simp only [World.onConnection, hc, Option.getD_some]
  rfl

/-- The registration that is awaited after a step of the activity, if the connection can interrupt
the wait. -/
def World.awaits (w : World) (c : ConnectionId) (here : Place) (awaited : Option (LatchId → Code))
    (a : Activity) : Option (LatchId → Code) :=
  if a.inside then awaited
  else
    match a.control with
    | .drive (.focus (.async register) _) run =>
        if w.isCurrent here.home run.context ∧ run.connection = c then some register else none
    | .code (.perform _ _) => awaited
    | _ => none

/-- A run, and the registration that it waits for if its connection can interrupt the wait. -/
structure Watched where
  relay : Relay
  awaited : Option (LatchId → Code)

namespace Watched

variable (hosts : Hosts) (c : ConnectionId)

/-- What is awaited after the next step. -/
def awaits (s : Watched) : Option (LatchId → Code) :=
  s.relay.world.awaits c s.relay.place s.awaited s.relay.flat

def next (s : Watched) : Act → Watched
  | .own => ⟨s.relay.step hosts, s.awaits c⟩
  | .others f => { s with relay := { s.relay with world := f s.relay.world } }

def seen (s : Watched) : Act → List Event
  | .own => s.relay.events
  | .others _ => []

def play : List Act → Watched → List Event × Watched
  | [], s => ([], s)
  | act :: acts, s =>
      (s.seen act ++ (play acts (s.next hosts c act)).1, (play acts (s.next hosts c act)).2)

/-- The connection is the run's own: no code that the run calls touches it, and others leave it
alone. -/
def Allows (s : Watched) : Act → Prop
  | .own =>
      match s.relay.activity.control with
      | .code (.perform op next) =>
          (∀ op', op ≠ .connection c op') ∨
            s.awaited ≠ none ∧ s.relay.flat.inside = false ∧ (Code.perform op next).Waits c
      | .drive _ run => s.relay.flat.inside = true → run.connection ≠ c
      | _ => True
  | .others f => Blind c f

def Minds : List Act → Watched → Prop
  | [], _ => True
  | act :: acts, s => s.Allows c act ∧ Minds acts (s.next hosts c act)

/-- Waits for what is delivered to it, or goes on with that. -/
inductive Idle (c : ConnectionId) : Control → Prop
  | bare (l : LatchId) : Idle c (.code (l.wait fun exit => .give (.outcome exit)))
  | waiting (l : LatchId) : Idle c (.code (Suspension.waiting c l))
  | leaving (exit : Exit) : Idle c (.code (Suspension.leaving c exit))
  | gives (exit : Exit) : Idle c (.code (.give (.outcome exit)))
  | failed (message : String) : Idle c (.code (.panic message))

/-- Has nothing to do with the connection before the next point, but to take its own token off. -/
def Passive (s : Watched) : Prop :=
  s.awaited = none ∨ s.relay.flat.inside = false ∧ Idle c s.relay.activity.control

/-- No step of the run's own is at a point where it asks the connection. -/
def Clear : List Act → Watched → Prop
  | [], _ => True
  | act :: acts, s => (act = .own → ¬ s.relay.Point c) ∧ Clear acts (s.next hosts c act)

def canceled (s : Watched) : Watched := { s with relay := s.relay.canceled c }

theorem play_append (as bs : List Act) (s : Watched) :
    s.play hosts c (as ++ bs) =
      ((s.play hosts c as).1 ++ ((s.play hosts c as).2.play hosts c bs).1,
        ((s.play hosts c as).2.play hosts c bs).2) := by
  induction as generalizing s with
  | nil => rfl
  | cons act as ih => simp only [List.cons_append, play, ih, List.append_assoc]

variable {hosts : Hosts} {c : ConnectionId} {s : Watched} {act : Act} {acts : List Act}
  {σ : Connection Code}

/-- A step of the run's own, and the acts after it. -/
theorem own_play {t u : Watched} {events more : List Event} (ht : s.next hosts c .own = t)
    (ha : s.Allows c .own) (hseen : s.relay.events ++ more = events)
    (h : t.Minds hosts c acts ∧ t.play hosts c acts = (more, u)) :
    s.Minds hosts c (.own :: acts) ∧ s.play hosts c (.own :: acts) = (events, u) := by
  subst ht hseen
  exact ⟨⟨ha, h.1⟩, by rw [play, h.2]; rfl⟩

section Alongside

/-- The next step has nothing to do with the connection, or takes the token off. -/
theorem overlooks (hn : s.Passive c) (h : s.Allows c .own) (hp : ¬ s.relay.Point c) :
    s.relay.world.Overlooks s.relay.place c s.relay.activity ∨
      ∃ exit, s.relay.activity.control = .code (Suspension.leaving c exit) := by
  obtain ⟨⟨w, here, ⟨control, stack⟩, left⟩, awaited⟩ := s
  by_cases hleaving : ∃ exit, control = .code (Suspension.leaving c exit)
  · exact .inr hleaving
  · refine .inl ⟨fun op hop => ?_, fun m run hm hcurrent hasks hc => ?_⟩
    · cases control with
      | code x =>
        cases x with
        | perform op' next =>
          obtain rfl := Option.some.inj hop
          obtain hn | ⟨-, hidle⟩ := hn
          · exact h.resolve_right fun hw => hw.1 hn
          · cases hidle with
            | bare | waiting => exact fun _ => nofun
            | leaving exit => exact absurd ⟨exit, rfl⟩ hleaving
        | _ => cases hop
      | _ => cases hop
    · obtain rfl : control = .drive m run := hm
      cases hi : Activity.inside ⟨.drive m run, stack ++ left.flatMap Prod.snd⟩ with
      | false => exact hp ⟨hi, m, run, rfl, hcurrent, hasks, hc⟩
      | true => exact h hi hc

theorem step_canceled (hhosts : ∀ w s d, hosts (w.setConnection c s) d = hosts w d)
    (hc : s.relay.world.connections[c]? = some σ)
    (h : s.relay.world.Overlooks s.relay.place c s.relay.activity) :
    (s.relay.canceled c).step hosts = (s.relay.step hosts).canceled c := by
  obtain ⟨⟨w, here, ⟨control, stack⟩, left⟩, awaited⟩ := s
  obtain ⟨hsize, -⟩ := Array.getElem?_eq_some_iff.1 hc
  have hown : Relay.own (Relay.canceled c ⟨w, here, ⟨control, stack⟩, left⟩) =
      (Relay.own ⟨w, here, ⟨control, stack⟩, left⟩).canceled c := by
    simp only [Relay.own, Relay.canceled]
    rw [World.act_setConnection hsize .canceled h]
  cases control with
  | drive m run =>
    have hhere : (w.setConnection c .canceled).isCurrent here.home run.context =
        w.isCurrent here.home run.context := rfl
    simp only [Relay.step, Relay.canceled, hhere]
    split
    · exact hown
    · simp only [hhosts]
  | ended r => cases left <;> rfl
  | code | unwinding => exact hown

theorem leaving_canceled {exit : Exit} (hc : s.relay.world.connections[c]? = some σ)
    (h : s.relay.activity.control = .code (Suspension.leaving c exit)) :
    (s.relay.canceled c).step hosts = (s.relay.step hosts).canceled c ∧
      (s.relay.canceled c).events = s.relay.events := by
  obtain ⟨⟨w, here, ⟨control, stack⟩, left⟩, awaited⟩ := s
  obtain rfl : control = .code (Suspension.leaving c exit) := h
  have hc' : (w.setConnection c .canceled).connections[c]? = some .canceled :=
    World.setConnection_getElem? hc _
  constructor
  · show Relay.own ⟨w.setConnection c .canceled, here, _, left⟩ =
      (Relay.own ⟨w, here, _, left⟩).canceled c
    simp only [Relay.own, Relay.canceled, World.leaving_act here hc, World.leaving_act here hc']
    simp [World.setConnection, Connection.pop]
  · rfl

theorem events_canceled (h : s.relay.world.Overlooks s.relay.place c s.relay.activity) :
    (s.relay.canceled c).events = s.relay.events := by
  have hmarks := World.marks_setConnection .canceled h
  have hcalls := World.calls_setConnection .canceled h
  show (if s.relay.flat.inside then [] else
      (s.relay.world.setConnection c .canceled).marks s.relay.place s.relay.activity ++
        ((s.relay.world.setConnection c .canceled).calls s.relay.place s.relay.activity).map
          .called) = s.relay.events
  rw [hmarks, hcalls]
  rfl

theorem awaits_none (hn : s.awaited = none) (hp : ¬ s.relay.Point c) : s.awaits c = none := by
  cases hi : s.relay.flat.inside with
  | true => simp [awaits, World.awaits, hi, hn]
  | false =>
    simp only [awaits, World.awaits, hi, Bool.false_eq_true, if_false]
    split
    · rename_i register next run hm
      refine if_neg fun h => hp ⟨hi, _, run, hm, h.1, rfl, h.2⟩
    · exact hn
    · rfl

theorem idle_next (hi : s.relay.flat.inside = false) (h : Idle c s.relay.activity.control)
    (hc : s.relay.world.connections[c]? = some σ) : (s.next hosts c .own).Passive c := by
  obtain ⟨⟨w, here, ⟨control, stack⟩, left⟩, awaited⟩ := s
  have hidle : ∀ {x : Code} {control' : Control},
      (w.act here ⟨.code x, stack⟩).2 = ⟨control', stack⟩ → Idle c control' →
        Passive c (next hosts c ⟨⟨w, here, ⟨.code x, stack⟩, left⟩, awaited⟩ .own) := by
    intro x control' hact hidle
    refine .inr ?_
    show Activity.inside ⟨_, (w.act here ⟨.code x, stack⟩).2.stack ++ _⟩ = false ∧
      Idle c (w.act here ⟨.code x, stack⟩).2.control
    rw [hact]
    exact ⟨hi, hidle⟩
  cases h with
  | bare l =>
    obtain ⟨-, h | ⟨exit, h⟩ | ⟨message, h⟩⟩ :=
      World.await_act w here l (fun exit => .give (.outcome exit)) stack
    · exact hidle h (.bare l)
    · exact hidle h (.gives exit)
    · exact hidle h (.failed message)
  | waiting l =>
    obtain ⟨-, h | ⟨exit, h⟩ | ⟨message, h⟩⟩ :=
      World.await_act w here l (Suspension.leaving c) stack
    · exact hidle h (.waiting l)
    · exact hidle h (.leaving exit)
    · exact hidle h (.failed message)
  | leaving exit =>
    exact hidle (congrArg Prod.snd (World.leaving_act here hc exit stack)) (.gives exit)
  | gives exit => exact .inl (if_neg (by simpa using hi))
  | failed message => exact .inl (if_neg (by simpa using hi))

/-- A step that does not ask the connection is the same whether that has been canceled or not. -/
theorem next_canceled (hhosts : ∀ w s d, hosts (w.setConnection c s) d = hosts w d)
    (hc : s.relay.world.connections[c]? = some σ) (hn : s.Passive c) (h : s.Allows c act)
    (hp : act = .own → ¬ s.relay.Point c) :
    (s.canceled c).next hosts c act = (s.next hosts c act).canceled c ∧
      (s.canceled c).seen act = s.seen act := by
  cases act with
  | own =>
    obtain ⟨hstep, hevents⟩ : (s.relay.canceled c).step hosts = (s.relay.step hosts).canceled c ∧
        (s.relay.canceled c).events = s.relay.events := by
      obtain hover | ⟨exit, hleaving⟩ := overlooks hn h (hp rfl)
      · exact ⟨step_canceled hhosts hc hover, events_canceled hover⟩
      · exact leaving_canceled hc hleaving
    refine ⟨?_, hevents⟩
    simp only [next, canceled, hstep]
    rfl
  | others f =>
    refine ⟨?_, rfl⟩
    simp only [next, canceled, Relay.canceled, h.overlooks]

theorem next_passive (hosts : Hosts) (hc : s.relay.world.connections[c]? = some σ)
    (hn : s.Passive c) (hp : act = .own → ¬ s.relay.Point c) :
    (s.next hosts c act).Passive c := by
  cases act with
  | own =>
    obtain hn | ⟨hi, hidle⟩ := hn
    · exact .inl (awaits_none hn (hp rfl))
    · exact idle_next hi hidle hc
  | others f => exact hn

theorem next_connection (hosts : Hosts) (hc : s.relay.world.connections[c]? = some σ)
    (hn : s.Passive c) (h : s.Allows c act) (hp : act = .own → ¬ s.relay.Point c) :
    ∃ σ, (s.next hosts c act).relay.world.connections[c]? = some σ := by
  cases act with
  | own =>
    have hown : ∃ σ, (s.relay.world.act s.relay.place s.relay.activity).1.connections[c]? =
        some σ := by
      obtain hover | ⟨exit, hleaving⟩ := overlooks hn h (hp rfl)
      · exact ⟨σ, World.act_connection hc s.relay.place hover.performs⟩
      · obtain ⟨⟨w, here, ⟨control, stack⟩, left⟩, awaited⟩ := s
        obtain rfl : control = .code (Suspension.leaving c exit) := hleaving
        rw [World.leaving_act here hc]
        exact ⟨_, World.setConnection_getElem? hc _⟩
    obtain hw | hw := s.relay.step_world hosts
    · exact ⟨σ, hw ▸ hc⟩
    · exact hw ▸ hown
  | others f => exact ⟨σ, (h.keeps _).trans hc⟩

end Alongside

/-- Up to the first point where it asks, a canceled run does what it does uncanceled. -/
theorem alongside (hhosts : ∀ w s d, hosts (w.setConnection c s) d = hosts w d)
    (hc : s.relay.world.connections[c]? = some σ) (hn : s.Passive c)
    (h : (s.canceled c).Minds hosts c acts) :
    (s.Clear hosts c acts ∧
      (s.canceled c).play hosts c acts =
        ((s.play hosts c acts).1, (s.play hosts c acts).2.canceled c)) ∨
    ∃ before after, acts = before ++ .own :: after ∧ s.Clear hosts c before ∧
      s.Minds hosts c before ∧ (s.play hosts c before).2.relay.Point c ∧
        (s.canceled c).play hosts c before =
          ((s.play hosts c before).1, (s.play hosts c before).2.canceled c) := by
  induction acts generalizing s σ with
  | nil => exact .inl ⟨trivial, rfl⟩
  | cons act acts ih =>
    by_cases hp : act = .own ∧ s.relay.Point c
    · obtain ⟨rfl, hp⟩ := hp
      exact .inr ⟨[], acts, rfl, trivial, trivial, hp, rfl⟩
    · have hp' : act = .own → ¬ s.relay.Point c := fun ha hs => hp ⟨ha, hs⟩
      have hallows : s.Allows c act := h.1
      obtain ⟨hnext, hseen⟩ := next_canceled hhosts hc hn hallows hp'
      obtain ⟨σ', hc'⟩ := next_connection hosts hc hn hallows hp'
      have hn' := next_passive hosts hc hn hp'
      have hminds : ((s.next hosts c act).canceled c).Minds hosts c acts := hnext ▸ h.2
      obtain ⟨hclear, hplay⟩ | ⟨before, after, rfl, hclear, hmind, hpoint, hplay⟩ :=
        ih hc' hn' hminds
      · refine .inl ⟨⟨hp', hclear⟩, ?_⟩
        simp only [play, hnext, hseen, hplay]
      · refine .inr ⟨act :: before, after, rfl, ⟨hp', hclear⟩, ⟨hallows, hmind⟩, hpoint, ?_⟩
        simp only [play, hnext, hseen, hplay]

end Watched

end Effects
