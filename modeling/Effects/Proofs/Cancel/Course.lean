import Effects.Proofs.Cancel.Staying
import Effects.Proofs.Cancel.Unwinding

/-!
The brackets that are open, read off what has been seen of the run; and a run from its first step
on, for as long as nobody cancels it.
-/

namespace Effects

section Opened

/-- A bracket is open from its acquire on, and until its use has ended. -/
def Event.opens (held : List Held) : Event → List Held
  | .acquired release resource => (release, resource) :: held
  | .used _ => held.tail
  | _ => held

/-- The brackets open after the events, the innermost first. -/
def opened (events : List Event) : List Held := events.foldl Event.opens []

/-- The end of a use is followed by the release of what was acquired last. -/
def Event.Pairs (held : List Held) (rest : List Event) : Event → Prop
  | .used exit => ∃ release resource outer more, held = (release, resource) :: outer ∧
      rest = .releasing (.suspend (release resource exit.exitCase)) ::
        .called (release resource exit.exitCase) :: more
  | _ => True

/-- In the end all that was open has been released. -/
def Paired : List Held → List Event → Prop
  | held, [] => held = []
  | held, event :: rest => event.Pairs held rest ∧ Paired (event.opens held) rest

theorem Bracketed.paired {events rest : List Event} {held : List Held} (h : Bracketed events)
    (hr : Paired held rest) : Paired held (events ++ rest) := by
  induction h generalizing held rest with
  | nil => exact hr
  | called code _ ih => exact ⟨trivial, ih hr⟩
  | @bracket release resource exit use cleanup after _ _ _ ihu ihc ih =>
    have hafter : Paired held (.closed exit :: (after ++ rest)) := ⟨trivial, ih hr⟩
    have hrelease : Paired ((release, resource) :: held) (.used exit ::
        .releasing (.suspend (release resource exit.exitCase)) ::
          .called (release resource exit.exitCase) ::
            (cleanup ++ .closed exit :: (after ++ rest))) :=
      ⟨⟨_, _, _, _, rfl, rfl⟩, trivial, trivial, ihc hafter⟩
    simp only [List.cons_append, List.append_assoc]
    exact ⟨trivial, ihu hrelease⟩

theorem Paired.opened {events rest : List Event} {held : List Held}
    (h : Paired held (events ++ rest)) : Paired (events.foldl Event.opens held) rest := by
  induction events generalizing held with
  | nil => exact h
  | cons event events ih => exact ih h.2

theorem Cleaned.mono {exit : Exit} {p q : List Event → Prop} (hpq : ∀ events, p events → q events)
    {events : List Event} (h : Cleaned exit p events) : Cleaned exit q events := by
  obtain ⟨cleanup, rest, hc, ha, rfl⟩ := h
  exact ⟨cleanup, rest, hc, hpq _ ha, rfl⟩

namespace Unwound

/-- Brackets are told apart by what they release only. -/
theorem of_paired {held own : List Held} (h : ∀ events, Unwound own events → Paired held events)
    (events : List Event) (hu : Unwound own events) : Unwound held events := by
  induction own generalizing held events with
  | nil =>
    obtain rfl := hu
    obtain rfl := h [] rfl
    rfl
  | cons inner own ih =>
    obtain ⟨release, resource⟩ := inner
    have hpaired : ∀ events, Unwound own events → Paired held (.used .canceled ::
        .releasing (.suspend (release resource .canceled)) ::
          .called (release resource .canceled) :: .closed .canceled :: events) :=
      fun events hu => h _ ⟨_, ⟨[], events, .nil, hu, rfl⟩, rfl⟩
    obtain ⟨some, hsome⟩ := nonempty own
    obtain ⟨⟨release', resource', outer, more, rfl, hmore⟩, -⟩ := hpaired some hsome
    have hsame : release resource .canceled = release' resource' .canceled :=
      Event.called.inj (List.cons.inj (List.cons.inj hmore).2).1
    obtain ⟨rest, hclean, rfl⟩ := hu
    rw [hsame]
    exact ⟨rest, hclean.mono (ih fun events hu => (hpaired events hu).2.2.2.2), rfl⟩

def pending (held : List Held) : List Pending := held.map fun own => .held own.1 own.2

theorem closing {held : List Held} {events : List Event} (h : Unwound held events) :
    Closing (pending held) events := by
  induction held generalizing events with
  | nil =>
    obtain rfl := h
    exact .nil
  | cons own held ih =>
    obtain ⟨rest, hclean, rfl⟩ := h
    exact ⟨[], .canceled, rest, .nil, hclean.mono fun _ h => ih h, rfl⟩

/-- What a run holds can be read off what has been seen of it. -/
theorem of_follows {events rest : List Event} {held : List Held}
    (h : Follows events [] (pending held)) (hu : Unwound held rest) :
    Unwound (opened events) rest := by
  refine of_paired (fun rest hu => ?_) rest hu
  have hb : Bracketed (events ++ rest) := h rest hu.closing
  have hp : Paired [] (events ++ rest) := by
    have hnil : Paired [] [] := rfl
    simpa using hb.paired hnil
  exact hp.opened

end Unwound

/-- A run that can be canceled is in the uses of all brackets that are open. -/
theorem Within.pending {c d : ConnectionId} {next : List Cont} {fs : List Frame}
    {ps : List Pending} (h : Within c d next fs) (h0 : d ≠ .uncancelable) (hp : Pends fs ps) :
    ps = Unwound.pending (heldBy fs) := by
  induction h generalizing ps with
  | nil =>
    cases hp
    rfl
  | cont _ _ ih => exact ih h0 hp
  | restore | acquiring | releasing => exact absurd rfl h0
  | inUse resource release _ ih =>
    cases hp with
    | inUse _ _ hp => exact congrArg (Pending.held release resource :: ·) (ih h0 hp)
  | instrumented _ ih =>
    cases hp with
    | instrumented _ hp => exact ih h0 hp

end Opened

section Course

variable {hosts : Hosts} {c : ConnectionId} {ts : List Code}

/-- Where a run is that nobody has canceled, and which brackets are open, after what has been
seen. -/
structure Underway (c : ConnectionId) (ts : List Code) (events : List Event) (s : Watched) :
    Prop where
  stays : ∃ σ, s.relay.world.connections[c]? = some σ ∧ Stays c ts s.awaited σ s.relay.flat
  stands : ∃ ps, Stands s.relay.flat ps ∧ Follows events [] ps

/-- The run is underway, or a panic ends it. -/
structure Course (c : ConnectionId) (ts : List Code) (events : List Event) (s : Watched) :
    Prop where
  proper : s.relay.activity.Proper
  known : ∃ σ, s.relay.world.connections[c]? = some σ
  goes : Underway c ts events s ∨ s.relay.flat.Fails

theorem Activity.fails_of_not_calm {a : Activity} (h : ¬ a.Calm) : a.Fails := by
  simp only [Calm, Classical.not_forall, not_not] at h
  obtain ⟨hi, message, hm⟩ := h
  exact ⟨hi, message, .inl hm⟩

theorem Follows.append {events more : List Event} {os ps qs : List Pending}
    (h : Follows events os ps) (h' : Follows more ps qs) : Follows (events ++ more) os qs := by
  intro rest hrest
  rw [List.append_assoc]
  exact h _ (h' rest hrest)

namespace Underway

variable {events : List Event} {s : Watched} {control : Control}

/-- The control goes on elsewhere. -/
theorem hands (h : Underway c ts events s) (hh : s.relay.Handed hosts) :
    Underway c ts events (s.next hosts c .own) ∨ (s.relay.step hosts).flat.Fails := by
  obtain ⟨⟨σ, hc, hstays⟩, ps, hstands, hf⟩ := h
  have hflat : (s.relay.step hosts).flat =
      ⟨(s.relay.step hosts).activity.control, s.relay.frames⟩ := by
    rw [Relay.flat, hh.frames]
  have hgoes : Activity.Goes c ts (s.awaits c) σ
      ⟨(s.relay.step hosts).activity.control, s.relay.frames⟩ := Stays.hands hstays hh.hands
  rw [← hflat] at hgoes
  refine hgoes.imp_left fun hstays' => ⟨⟨σ, hh.world ▸ hc, hstays'⟩, ps, ?_, hf⟩
  show Stands (s.relay.step hosts).flat ps
  rw [hflat]
  obtain hsame | hpass := hh.hands.passes
  · rw [hsame]
    exact hstands
  · exact hstands.passes hpass

/-- The run takes a step. -/
theorem act (h : Underway c ts events s) (ha : s.Allows c .own)
    (hacted : s.relay.Acted hosts) :
    (∃ σ, (s.relay.step hosts).world.connections[c]? = some σ) ∧
      (Underway c ts (events ++ s.relay.world.events s.relay.place s.relay.flat)
        (s.next hosts c .own) ∨ (s.relay.step hosts).flat.Fails) := by
  obtain ⟨⟨σ, hc, hstays⟩, ps, hstands, hf⟩ := h
  have hallowed : Stays.Allowed c s.awaited s.relay.flat := by
    intro op next hop
    have hcontrol : s.relay.activity.control = .code (.perform op next) := hop
    simpa only [Watched.Allows, hcontrol] using ha
  obtain ⟨σ', hc', hgoes⟩ := hstays.act hc hacted.acts hallowed
  rw [← hacted.world] at hc'
  rw [← hacted.flat] at hgoes
  refine ⟨⟨σ', hc'⟩, ?_⟩
  by_cases calm : (s.relay.step hosts).flat.Calm
  · refine hgoes.imp_left fun hstays' => ?_
    rw [hacted.flat] at calm
    obtain ⟨qs, hstands', hseen, hsame⟩ := hstands.act hacted.acts calm
    rw [← hacted.flat] at hstands'
    refine ⟨⟨σ', hc', hstays'⟩, qs, hstands', hf.append ?_⟩
    cases hi : s.relay.flat.inside with
    | true =>
      rw [World.events, hi, hsame hi]
      exact fun _ h => h
    | false =>
      rw [World.events, hi]
      exact hseen hi
  · exact .inr (Activity.fails_of_not_calm calm)

end Underway

namespace Course

variable {events : List Event} {s : Watched} {act : Act} {acts : List Act}

theorem own (h : Course c ts events s) (ha : s.Allows c .own) :
    Course c ts (events ++ s.relay.events) (s.next hosts c .own) := by
  have hproper := Relay.step_proper hosts h.proper
  obtain hu | hf := h.goes
  · obtain hh | hacted := Relay.step_cases hosts h.proper
    · rw [hh.events, List.append_nil]
      exact ⟨hproper, hh.world ▸ h.known, hu.hands hh⟩
    · rw [hacted.events]
      obtain ⟨hknown, hgoes⟩ := hu.act ha hacted
      exact ⟨hproper, hknown, hgoes⟩
  · have hworld := Relay.fails_world hosts hf
    exact ⟨hproper, hworld ▸ h.known, .inr (Relay.fails_step h.proper hf)⟩

theorem next (h : Course c ts events s) (ha : s.Allows c act) :
    Course c ts (events ++ s.seen act) (s.next hosts c act) := by
  cases act with
  | own => exact h.own ha
  | others f =>
    obtain ⟨σ, hc⟩ := h.known
    refine ⟨h.proper, ⟨σ, (ha.keeps _).trans hc⟩, h.goes.imp_left fun hu => ?_⟩
    obtain ⟨⟨σ, hc, hstays⟩, ps, hstands, hf⟩ := hu
    refine ⟨⟨σ, (ha.keeps _).trans hc, hstays⟩, ps, hstands, ?_⟩
    rw [Watched.seen, List.append_nil]
    exact hf

theorem play (h : Course c ts events s) (hm : s.Minds hosts c acts) :
    Course c ts (events ++ (s.play hosts c acts).1) (s.play hosts c acts).2 := by
  induction acts generalizing s events with
  | nil =>
    rw [Watched.play, List.append_nil]
    exact h
  | cons act acts ih =>
    have hnext := ih (h.next hm.1) hm.2
    rw [List.append_assoc] at hnext
    exact hnext

end Course

theorem Node.Composed.course {n : Node} (h : n.Composed) {w : World} {place : Place} {run : Run}
    (hc : w.connections[run.connection]? = some (.active ts)) :
    Course run.connection ts [] ⟨⟨w, place, ⟨.drive (.focus n []) run, []⟩, []⟩, none⟩ where
  proper := Activity.proper_of_ne nofun
  known := ⟨_, hc⟩
  goes := .inl
    { stays := ⟨_, hc, .drive .nil⟩
      stands := ⟨[], .focus h (by simp) .nil, fun _ h => h⟩ }

end Course

end Effects
