import Effects.Proofs.Shield.Calm

/-!
A run among the threads of a world. The turns are its own steps, those of the threads, and requests
to cancel it, in any order.
-/

namespace Effects

inductive Turn where
  | own
  | thread (t : ThreadId)
  /-- Time goes by. -/
  | passing (nanos : Nat)
  | cancel
  deriving DecidableEq

def Turn.isCancel : Turn → Bool
  | .cancel => true
  | _ => false

section

variable (c : ConnectionId)

def Cont.restores : Cont → Bool
  | .restore saved => saved == c
  | _ => false

def Frame.restores : Frame → Bool
  | .acquiring _ _ saved next | .releasing _ saved next =>
      saved == c || next.any (Cont.restores c)
  | .node next _ | .opening _ _ next _ | .using _ _ next | .instrumented next =>
      next.any (Cont.restores c)
  | .call _ | .attempt _ | .tokens _ _ _ => false

namespace Activity

/-- In an uncancelable region, an acquire or a release, at the end of which the run goes on with the
connection. -/
def shielded (a : Activity) : Bool :=
  (match a.control with
    | .drive m _ => m.conts.any (Cont.restores c)
    | _ => false) || a.stack.any (Frame.restores c)

/-- The run that the machines go on with. -/
def run? (a : Activity) : Option Run :=
  match a.control, a.stack with
  | .drive _ run, _ => some run
  | .code _, .node _ run :: _ | .code _, .opening _ _ _ run :: _ => some run
  | .code (.give (.ended _ run)), _ => some run
  | _, _ => none

/-- Outside of all such regions, and the connection is back in place. -/
structure Back (a : Activity) : Prop where
  outside : a.inside = false
  unshielded : a.shielded c = false
  restored : ∀ run, a.run? = some run → run.connection = c

end Activity

namespace Relay

def calm (s : Relay) : Relay := { s with world := s.world.calm c }

def ready (s : Relay) : Bool :=
  match s.activity.control with
  | .code (.perform op _) => s.world.ready op
  | _ => true

def turn (hosts : Hosts) (s : Relay) : Turn → Relay
  | .own => if s.ready then s.step hosts else s
  | .thread t => if s.world.enabled t then { s with world := s.world.step t } else s
  | .passing nanos => { s with world := { s.world with clock := s.world.clock + nanos } }
  | .cancel => s.canceled c

def seen (s : Relay) : Turn → List Event
  | .own => if s.ready then s.events else []
  | _ => []

/-- What is seen of the run, and where it is after the turns. After each of them the state is put
right by `f`. -/
def plays (hosts : Hosts) (f : Relay → Relay) : List Turn → Relay → List Event × Relay
  | [], s => ([], s)
  | t :: ts, s =>
      (s.seen t ++ (plays hosts f ts (f (s.turn c hosts t))).1,
        (plays hosts f ts (f (s.turn c hosts t))).2)

/-- The run takes its own steps in the region only; the last one may lead out of it. -/
def Inside (hosts : Hosts) : List Turn → Relay → Prop
  | [], _ => True
  | t :: ts, s => (t = .own → s.flat.shielded c = true) ∧ Inside hosts ts (s.turn c hosts t)

instance decidableInside (hosts : Hosts) :
    (ts : List Turn) → (s : Relay) → Decidable (s.Inside c hosts ts)
  | [], _ => inferInstanceAs (Decidable True)
  | t :: ts, s => @instDecidableAnd _ _ inferInstance (decidableInside hosts ts (s.turn c hosts t))

end Relay

end

variable {c : ConnectionId} {own : FiberId → Prop} {edge : List Cont → List Frame → Prop}
  {hosts : Hosts} {env : Surroundings} {exit : Exit} {run : Run} {next : List Cont}
  {fs : List Frame} {w : World} {here : Place} {control control' : Control} {a : Activity}
  {s : Relay}

section Leaving

theorem Below.shielded {rest : List Cont} {gs : List Frame} (he : edge rest gs)
    (h : Below c own edge next fs) :
    (next.any (Cont.restores c) || fs.any (Frame.restores c)) = true := by
  induction h with
  | bottom h => exact absurd he (h rest gs)
  | cont _ _ ih => simp only [List.any_cons, Bool.or_assoc, ih, Bool.or_true]
  | node _ _ ih | opening _ _ _ _ ih | inUse _ _ _ ih | instrumented _ ih | call _ _ ih
  | attempt _ _ ih | tokens _ _ _ _ ih => exact ih
  | acquiring _ _ _ _ ih | releasing _ _ _ ih =>
    simp only [List.any_cons, List.any_nil, Frame.restores, Bool.or_assoc, ih, Bool.or_true]
  | region | acquire | release =>
    simp [Cont.restores, Frame.restores]

theorem Activity.Apart.shielded {rest : List Cont} {gs : List Frame} (he : edge rest gs)
    (h : a.Apart c own edge) : a.shielded c = true := by
  cases h with
  | focus _ _ hb | unwind _ _ hb | code _ hb | unwinding _ hb | ended _ hb => exact hb.shielded he

theorem Within.unshielded (h0 : c ≠ .uncancelable) {d : ConnectionId} (h : Within c d next fs)
    (hd : d = c) : next.any (Cont.restores c) = false ∧ fs.any (Frame.restores c) = false := by
  induction h with
  | nil => exact ⟨rfl, rfl⟩
  | @cont _ cont _ _ hcont _ ih =>
    obtain ⟨hnext, hfs⟩ := ih hd
    refine ⟨?_, hfs⟩
    cases cont with
    | restore saved => exact absurd rfl (hcont saved)
    | _ => exact hnext
  | restore | acquiring | releasing => exact absurd hd.symm h0
  | inUse _ _ _ ih | instrumented _ ih =>
    obtain ⟨hnext, hfs⟩ := ih hd
    exact ⟨rfl, by simp only [List.any_cons, Frame.restores, hnext, hfs, Bool.or_self]⟩

namespace Activity

theorem back_drive (h0 : c ≠ .uncancelable) {m : Machine} (h : Within c c m.conts fs)
    (hr : run.connection = c) : Back c ⟨.drive m run, fs⟩ where
  outside := h.plain
  unshielded := by simp only [shielded, (h.unshielded h0 rfl), Bool.or_self]
  restored run hrun := Option.some.inj hrun ▸ hr

theorem back_called (h0 : c ≠ .uncancelable) (x : Code) (h : Within c c next fs)
    (hr : run.connection = c) : Back c ⟨.code x, .node next run :: fs⟩ := by
  obtain ⟨hnext, hfs⟩ := h.unshielded h0 rfl
  refine ⟨h.plain, ?_, fun run hrun => Option.some.inj hrun ▸ hr⟩
  simp only [shielded, List.any_cons, Frame.restores, hnext, hfs, Bool.or_self]

theorem back_given (h0 : c ≠ .uncancelable) (exit : Exit) (h : Within c c [] fs)
    (hr : run.connection = c) : Back c ⟨.code (.give (.ended exit run)), fs⟩ := by
  have hrun : run? ⟨.code (.give (.ended exit run)), fs⟩ = some run := by
    generalize c = d at h
    cases h <;> rfl
  exact ⟨h.plain, (h.unshielded h0 rfl).2, fun _ hr' => Option.some.inj (hrun.symm.trans hr') ▸ hr⟩

theorem back_failed (h0 : c ≠ .uncancelable) (message : String) (h : Within c c next fs) :
    Back c ⟨.unwinding message, fs⟩ :=
  ⟨h.plain, (h.unshielded h0 rfl).2, fun run hrun => by cases hrun⟩

theorem back_resumed (h0 : c ≠ .uncancelable) (h : Within c c next fs)
    (hr : run.connection = c) : Back c (after (Machine.resume env exit next run) fs) := by
  have hinto : ∀ closure rest, Within c c rest fs →
      Back c (after (Machine.continueInto env closure rest run) fs) := by
    intro closure rest h
    unfold Machine.continueInto
    split
    · exact back_called h0 closure h hr
    · exact back_drive h0 h hr
  cases next with
  | nil => cases exit <;> exact back_given h0 _ h hr
  | cons cont rest =>
    obtain ⟨hcont, hrest⟩ : (∀ saved, cont ≠ .restore saved) ∧ Within c c rest fs := by
      generalize hd : c = d at h
      cases h with
      | cont hcont h => exact ⟨hcont, hd ▸ h⟩
      | restore => exact absurd hd h0
    cases cont with
    | map f | flatMap f =>
      cases exit with
      | completed v => exact hinto (f v) rest hrest
      | errored | canceled => exact back_drive h0 hrest hr
    | recover f =>
      cases exit with
      | errored e => exact hinto (f e) rest hrest
      | completed | canceled => exact back_drive h0 hrest hr
    | switch target => cases exit <;> exact back_drive h0 hrest hr
    | restore saved => exact absurd rfl (hcont saved)

theorem Left.back (h0 : c ≠ .uncancelable) (h : a.Left c (Within c c)) : a.Back c := by
  cases h with
  | restored exit run h => exact back_drive h0 h rfl
  | acquired resource use release run h => exact back_drive h0 h rfl
  | resumed env exit run h => exact back_resumed h0 h rfl
  | failed message h => exact back_failed h0 message h

end Activity

end Leaving

namespace Relay

theorem calm_calm (s : Relay) : (s.calm c).calm c = s.calm c := by
  simp only [calm, World.calm_calm]

theorem calm_of (h : s.world.connections[c]? = some (.active [])) : s.calm c = s := by
  rw [calm, World.calm, World.setConnection_of h]

theorem canceled_calm (s : Relay) : (s.canceled c).calm c = s.calm c := by
  simp only [calm, canceled, World.calm_setConnection]

/-- Where no request comes through, none need be made. -/
theorem plays_filter (hosts : Hosts) (ts : List Turn) {s : Relay} (hs : s.calm c = s) :
    s.plays c hosts (calm c) (ts.filter (!·.isCancel)) = s.plays c hosts (calm c) ts := by
  induction ts generalizing s with
  | nil => rfl
  | cons t ts ih =>
    cases t with
    | cancel =>
      have hcancel : (s.turn c hosts .cancel).calm c = s := (canceled_calm s).trans hs
      simp only [plays, hcancel]
      exact ih hs
    | own | thread t | passing nanos =>
      rw [List.filter_cons_of_pos rfl]
      simp only [plays, ih (calm_calm _)]

theorem hands_keeps (ha : Activity.Apart c own edge ⟨control, fs⟩)
    (h : Hands w here control control') : Activity.Apart c own edge ⟨control', fs⟩ := by
  cases h with
  | hop => exact ha
  | answer res =>
    rcases res with message | (r | n | t)
    · cases ha with
      | unwinding _ hb => exact .ended (fun _ => by rintro ⟨⟩) hb
    · cases ha with
      | code hx hb =>
        cases hx with
        | give hr => exact .ended (fun x hx => Except.ok.inj hx ▸ hr) hb
    · cases ha with
      | code _ hb => exact .ended (fun x hx => Except.ok.inj hx ▸ Reply.not_carries_unit) hb
    · cases ha with
      | code _ hb => exact .ended (fun x hx => Except.ok.inj hx ▸ Reply.not_carries_unit) hb
  | back r =>
    cases ha with
    | ended hr hb =>
      cases r with
      | ok r => exact .code (.give (hr r rfl)) hb
      | error message => exact .unwinding message hb
  | idle r => exact ha

/-- A step of the run in the region keeps it there, or leads out of it. -/
theorem step_keeps (h : s.world.Apart c own) (h0 : c ≠ .uncancelable)
    (ha : s.flat.Apart c own edge) (hp : s.activity.Proper) :
    (s.step hosts).world.Apart c own ∧ (s.step hosts).flat.Keeps c own edge := by
  obtain hh | hacted := step_cases hosts hp
  · refine ⟨hh.world ▸ h, .inl ?_⟩
    rw [flat, hh.frames]
    exact hands_keeps ha hh.hands
  · have hdrives : ∀ m run, s.flat.control = .drive m run →
        s.world.isCurrent s.place.home run.context = true := by
      intro m run hm
      have hacts := hacted.acts
      rwa [Activity.Acts, hm] at hacts
    obtain ⟨hworld, hflat⟩ := World.act_keeps h h0 ha hdrives
    exact ⟨hacted.world ▸ hworld, hacted.flat ▸ hflat⟩

theorem step_calm (h : s.world.Apart c own) (ha : s.flat.Apart c own edge)
    (hhosts : ∀ w s d, hosts (w.setConnection c s) d = hosts w d) :
    ((s.calm c).step hosts).calm c = (s.step hosts).calm c := by
  have hperforms : ∀ op, s.activity.op? = some op → op.Apart c own := fun _ => ha.performs
  have hdrives : ∀ m run, s.activity.control = .drive m run → run.connection ≠ c :=
    fun _ _ => ha.drives
  have hown : ((s.calm c).own).calm c = s.own.calm c := by
    obtain ⟨hworld, hact⟩ := World.act_calm h hperforms hdrives s.place
    simp only [Relay.own, Relay.calm, hworld, hact]
  obtain ⟨w, here, ⟨control, stack⟩, left⟩ := s
  cases control with
  | drive m run =>
    have hhere : (w.calm c).isCurrent here.home run.context =
        w.isCurrent here.home run.context := rfl
    have hname : hosts (w.calm c) run.context = hosts w run.context := hhosts _ _ _
    cases hcurrent : w.isCurrent here.home run.context with
    | true => simpa only [step, calm, hhere, hcurrent, if_true] using hown
    | false =>
      simp only [step, calm, hhere, hcurrent, Bool.false_eq_true, if_false, hname,
        World.calm_calm]
  | ended r =>
    cases left with
    | nil => exact calm_calm _
    | cons p left => simp only [step, calm, World.calm_calm]
  | code | unwinding => exact hown

theorem events_calm (h : s.world.Apart c own) (ha : s.flat.Apart c own edge) :
    (s.calm c).events = s.events := by
  by_cases hop : ∀ op, s.activity.op? = some op → ∀ op', op ≠ .connection c op'
  · have hover : s.world.Overlooks s.place c s.activity :=
      World.overlooks_of hop fun _ _ => ha.drives
    have hmarks : (s.world.calm c).marks s.place s.activity = _ := World.marks_setConnection _ hover
    have hcalls : (s.world.calm c).calls s.place s.activity = _ := World.calls_setConnection _ hover
    have hflat : (s.calm c).flat = s.flat := rfl
    simp only [events, hflat, calls]
    rw [← hmarks, ← hcalls]
    rfl
  · simp only [Classical.not_forall] at hop
    obtain ⟨op, hop, -⟩ := hop
    obtain ⟨w, here, ⟨control, stack⟩, left⟩ := s
    cases control with
    | code x =>
      cases x with
      | perform => rfl
      | _ => cases hop
    | _ => cases hop

end Relay

end Effects
