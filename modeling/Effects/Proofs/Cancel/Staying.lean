import Effects.Proofs.Cancel.Turns

/-!
Step after step a run stays where its connection has not been canceled, until it ends or a panic
ends it.
-/

namespace Effects

open Suspension

variable {c : ConnectionId} {ts : List Code} {run : Run} {next : List Cont} {fs : List Frame}
  {s : Connection Code} {a b : Activity} {awaited : Option (LatchId → Code)} {w : World}
  {here : Place} {control control' : Control} {hosts : Hosts}

theorem Ahead.other {P : Code → Prop} (h : Ahead P a) (hs : a.stack ≠ []) (control : Control) :
    Ahead P ⟨control, a.stack⟩ := by
  cases h with
  | code | unwinding => exact absurd rfl hs
  | inside b hf => exact .inside ⟨control, b.stack⟩ hf

/-- Code that runs, or has been called by code that waits for it. -/
theorem Ahead.cases_inside {P : Code → Prop} (h : Ahead P a) :
    (a.stack = [] ∧ ((∃ x, a.control = .code x) ∨ ∃ message, a.control = .unwinding message)) ∨
      a.inside = true := by
  cases h with
  | code => exact .inl ⟨rfl, .inl ⟨_, rfl⟩⟩
  | unwinding message => exact .inl ⟨rfl, .inr ⟨message, rfl⟩⟩
  | inside b hf => exact .inr (by simp [Activity.inside, Activity.atop, hf.isCode])

namespace Wait

variable {register : LatchId → Code}

theorem other (h : Wait c ts register s b) (hs : b.stack ≠ []) (control : Control) :
    Wait c ts register s ⟨control, b.stack⟩ := by
  cases h with
  | registering ha hf =>
    cases hf with
    | above a frame hframe =>
      exact .registering (ha.other (by simp [Activity.atop]) control)
        (.above ⟨control, a.stack⟩ _ hframe)
    | code | unwinding => exact absurd rfl hs
  | _ => exact absurd rfl hs

theorem cases_inside (h : Wait c ts register s b) :
    (b.stack = [] ∧ ((∃ x, b.control = .code x) ∨ ∃ message, b.control = .unwinding message)) ∨
      b.inside = true := by
  cases h with
  | registering ha hf =>
    cases hf with
    | above a frame hframe =>
      right
      cases frame <;> simp [Activity.inside, Activity.atop, Frame.andThen, Frame.isCode] at hframe ⊢
    | code => exact .inl ⟨rfl, .inl ⟨_, rfl⟩⟩
    | unwinding message => exact .inl ⟨rfl, .inr ⟨message, rfl⟩⟩
  | _ => exact .inl ⟨rfl, .inl ⟨_, rfl⟩⟩

/-- What a wait hands over: its exit, and then the connection is as before, or a panic. -/
theorem of_answering {res : Except String Answer} (h : Wait c ts register s ⟨.answering res, []⟩) :
    (∃ message, res = .error message) ∨
      ∃ exit, res = .ok (.reply (.outcome exit)) ∧ s = .active ts := by
  rcases res with message | answer
  · exact .inl ⟨message, rfl⟩
  · right
    generalize hb : (⟨.answering (.ok answer), []⟩ : Activity) = b at h
    cases h with
    | gives exit =>
      refine ⟨exit, ?_, rfl⟩
      rcases answer with r | n | t <;> cases hb
      rfl
    | registering ha hf =>
      rename_i l a
      obtain ⟨res, rfl⟩ | ⟨r, rfl⟩ | hs := a.settled_or
      · obtain rfl := hf.of_answering
        rcases res with message | answer'
        · rcases answer with r | n | t <;> cases hb
        · obtain ⟨token, -, hafter⟩ | hafter := after_cases (c := c) (l := l) answer'
          all_goals
            rw [Control.following, hafter] at hb
            rcases answer with r | n | t <;> cases hb
      · exact absurd rfl ha.stack_ne_nil
      · exact absurd hb.symm (hf.ne_answering hs)
    | asking =>
      rw [asking_eq] at hb
      rcases answer with r | n | t <;> cases hb
    | _ => rcases answer with r | n | t <;> cases hb

end Wait

namespace Stays

theorem other (h : Stays c ts awaited s a) (hi : a.inside = true) (control : Control) :
    Stays c ts awaited s ⟨control, a.stack⟩ := by
  have hplain : ∀ {frame : Frame} {fs : List Frame}, frame.isCode = false →
      fs.any Frame.isCode = false → ∀ {b : Activity}, (b.atop (frame :: fs)).inside = true →
        b.stack ≠ [] := by
    intro frame fs hframe hfs b hb hstack
    simp [Activity.inside, Activity.atop, hstack, hframe, hfs] at hb
  cases h with
  | drive h => simp [Activity.inside, h.plain] at hi
  | given exit h => simp [Activity.inside, h.plain] at hi
  | ended exit h => simp [Activity.inside, h.plain] at hi
  | lent r hf h => simp [Activity.inside, hf.isCode, h.plain] at hi
  | @code b frame next run fs hb hf h =>
    exact .code (b := ⟨control, b.stack⟩) (hb.other (hplain hf.isCode h.plain hi) control) hf h
  | @wait register s b next run fs hw hr h =>
    exact .wait (b := ⟨control, b.stack⟩) (hw.other (hplain rfl h.plain hi) control) hr h

end Stays

/-- Where a run is that does not run code called by code. -/
inductive Outside (c : ConnectionId) (ts : List Code) :
    Option (LatchId → Code) → Connection Code → Control → List Frame → Prop
  | drive {m : Machine} {run : Run} {fs : List Frame} (h : Within c run.connection m.conts fs) :
      Outside c ts none (.active ts) (.drive m run) fs
  | called {control : Control} {frame : Frame} {next : List Cont} {run : Run} {fs : List Frame}
      (hcontrol : (∃ x, control = .code x) ∨ (∃ message, control = .unwinding message) ∨
        ∃ r, control = .ended (.ok r))
      (hf : frame.Calls next run) (h : Within c run.connection next fs) :
      Outside c ts none (.active ts) control (frame :: fs)
  | waits {register : LatchId → Code} {s : Connection Code} {control : Control}
      {next : List Cont} {run : Run} {fs : List Frame}
      (hcontrol : (∃ x, control = .code x) ∨ ∃ message, control = .unwinding message)
      (hw : Wait c ts register s ⟨control, []⟩) (hr : run.connection = c) (h : Within c c next fs) :
      Outside c ts (some register) s control (.node next run :: fs)
  | closing {control : Control} {exit : Exit} {run : Run} {fs : List Frame}
      (hcontrol : control = .code (.give (.ended exit run)) ∨
        control = .ended (.ok (.ended exit run)))
      (h : Within c run.connection [] fs) : Outside c ts none (.active ts) control fs

theorem Stays.outside (h : Stays c ts awaited s a) (hi : a.inside = false) :
    Outside c ts awaited s a.control a.stack := by
  have hinside : ∀ {b : Activity} {fs : List Frame}, (b.atop fs).inside = false →
      b.inside = true → False := by
    intro b fs hb hb'
    simp only [Activity.inside, Activity.atop, List.any_append, Bool.or_eq_false_iff] at hb hb'
    rw [hb.1] at hb'
    cases hb'
  cases h with
  | drive h => exact .drive h
  | given exit h => exact .closing (.inl rfl) h
  | ended exit h => exact .closing (.inr rfl) h
  | lent r hf h => exact .called (.inr (.inr ⟨r, rfl⟩)) hf h
  | @code b frame next run fs hb hf h =>
    obtain ⟨control, stack⟩ := b
    obtain ⟨rfl, hx⟩ | hb' := hb.cases_inside
    · exact .called (hx.imp_right .inl) hf h
    · exact (hinside hi hb').elim
  | @wait register s b next run fs hw hr h =>
    obtain ⟨control, stack⟩ := b
    obtain ⟨rfl, hx⟩ | hb' := hw.cases_inside
    · exact .waits hx hw hr h
    · exact (hinside hi hb').elim

namespace World

theorem awaits_inside (h : a.inside = true) : w.awaits c here awaited a = awaited := by
  simp [awaits, h]

theorem awaits_answering (res : Except String Answer)
    (h : Activity.inside ⟨.answering res, fs⟩ = false) :
    w.awaits c here awaited ⟨.answering res, fs⟩ = none := by
  rcases res with message | (r | n | t) <;> exact if_neg (by simpa using h)

theorem awaits_ended (r : Except String Reply) (h : Activity.inside ⟨.ended r, fs⟩ = false) :
    w.awaits c here awaited ⟨.ended r, fs⟩ = none :=
  if_neg (by simpa using h)

theorem awaits_perform (op : Op) (next : Reply → Code)
    (h : Activity.inside ⟨.code (.perform op next), fs⟩ = false) :
    w.awaits c here awaited ⟨.code (.perform op next), fs⟩ = awaited :=
  if_neg (by simpa using h)

theorem awaits_none (h : ∀ m run, a.control = .drive m run → a.inside = true) :
    w.awaits c here none a = none := by
  cases hi : a.inside with
  | true => exact awaits_inside hi
  | false =>
    have hd : ∀ m run, a.control ≠ .drive m run := fun m run hm => by
      rw [h m run hm] at hi
      cases hi
    simp only [awaits, hi, Bool.false_eq_true, if_false]
    split
    · rename_i hm
      exact absurd hm (hd _ _)
    · rfl
    · rfl

theorem awaits_machine {m : Machine} (h : Activity.inside ⟨.drive m run, fs⟩ = false)
    (hm : ∀ register next, m = .focus (.async register) next →
      w.isCurrent here.home run.context = true → run.connection ≠ c) :
    w.awaits c here awaited ⟨.drive m run, fs⟩ = none := by
  simp only [awaits, h, Bool.false_eq_true, if_false]
  split
  · rename_i hd
    cases hd
    exact if_neg fun hc => hm _ _ rfl hc.1 hc.2
  · rename_i hd
    cases hd
  · rfl

end World

namespace Stays

theorem answers {res : Except String Answer}
    (h : Outside c ts awaited s (.answering res) fs) :
    Stays c ts none s ⟨.ended (ending res), fs⟩ ∨ ∃ message, res = .error message := by
  rcases res with message | answer
  · exact .inr ⟨message, rfl⟩
  · left
    generalize hk : Control.answering (.ok answer) = k at h
    cases h with
    | drive h => rcases answer with r | n | t <;> cases hk
    | called hcontrol hf h => rcases answer with r | n | t <;> exact .lent _ hf h
    | waits hcontrol hw hr h =>
      subst hk
      obtain ⟨message, hres⟩ | ⟨exit, hres, rfl⟩ := hw.of_answering
      · cases hres
      · obtain rfl := Except.ok.inj hres
        exact .lent _ .node (hr ▸ h)
    | closing hcontrol h =>
      obtain rfl | rfl := hcontrol
      · rcases answer with r | n | t <;> cases hk
        exact .ended _ h
      · rcases answer with r | n | t <;> cases hk

theorem ends {r : Except String Reply} (h : Outside c ts awaited s (.ended r) fs) :
    Stays c ts none s ⟨.ended r, fs⟩ ∧ Stays c ts none s ⟨.returning r, fs⟩ := by
  generalize hk : Control.ended r = k at h
  cases h with
  | drive h => cases hk
  | called hcontrol hf h =>
    obtain ⟨x, rfl⟩ | ⟨m, rfl⟩ | ⟨r', rfl⟩ := hcontrol
    · cases hk
    · cases hk
    · obtain rfl := Control.ended.inj hk
      exact ⟨.lent r' hf h, .called hf h⟩
  | waits hcontrol => obtain ⟨x, rfl⟩ | ⟨m, rfl⟩ := hcontrol <;> cases hk
  | closing hcontrol h =>
    obtain rfl | rfl := hcontrol
    · cases hk
    · obtain rfl := Control.ended.inj hk
      exact ⟨.ended _ h, .given _ h⟩

/-- What one thread hands to another is where it was. -/
theorem hands (h : Stays c ts awaited s ⟨control, fs⟩) (hh : Hands w here control control') :
    Activity.Goes c ts (w.awaits c here awaited ⟨control, fs⟩) s ⟨control', fs⟩ := by
  cases hi : Activity.inside ⟨control, fs⟩ with
  | true =>
    rw [World.awaits_inside hi]
    exact .inl (h.other hi control')
  | false =>
    have hout := h.outside hi
    cases hh with
    | hop m hno =>
      rw [World.awaits_machine hi fun _ _ _ hyes => absurd (hno.symm.trans hyes) nofun]
      cases hout with
      | drive h => exact .inl (.drive h)
      | called hcontrol => obtain ⟨x, hx⟩ | ⟨m, hx⟩ | ⟨r, hx⟩ := hcontrol <;> cases hx
      | waits hcontrol => obtain ⟨x, hx⟩ | ⟨m, hx⟩ := hcontrol <;> cases hx
      | closing hcontrol => obtain hx | hx := hcontrol <;> cases hx
    | answer res =>
      rw [World.awaits_answering res hi]
      obtain h | ⟨message, rfl⟩ := answers hout
      · exact .inl h
      · exact .inr ⟨hi, message, .inr rfl⟩
    | back r =>
      rw [World.awaits_ended r hi]
      exact .inl (ends hout).2
    | idle r =>
      rw [World.awaits_ended r hi]
      exact .inl (ends hout).1

/-- The operations of a run: those of its waits, or such that leave the connection alone. -/
def Allowed (c : ConnectionId) (awaited : Option (LatchId → Code)) (a : Activity) : Prop :=
  ∀ op next, a.control = .code (.perform op next) →
    (∀ op', op ≠ .connection c op') ∨
      awaited ≠ none ∧ a.inside = false ∧ (Code.perform op next).Waits c

/-- A machine's step. -/
theorem drive_act {m : Machine} (h : Within c run.connection m.conts fs)
    (hacts : Activity.Acts w here ⟨.drive m run, fs⟩) :
    Stays c ts (w.awaits c here none ⟨.drive m run, fs⟩) (.active ts)
      (w.act here ⟨.drive m run, fs⟩).2 := by
  have hcurrent : w.isCurrent here.home run.context = true := hacts
  have hi : Activity.inside ⟨.drive m run, fs⟩ = false := h.plain
  by_cases hm : ∃ register next, m = .focus (.async register) next ∧ run.connection = c
  · obtain ⟨register, next, rfl, rfl⟩ := hm
    have hawaits : w.awaits run.connection here none
        ⟨.drive (.focus (.async register) next) run, fs⟩ = some register := by
      simp [World.awaits, hi, hcurrent]
    rw [hawaits]
    simp only [World.act, hcurrent, if_true]
    exact .wait (b := ⟨.code (asking register run.connection), []⟩) .asking rfl h
  · have hm' : ∀ register next, m = .focus (.async register) next → run.connection ≠ c :=
      fun register next h hc => hm ⟨register, next, h, hc⟩
    rw [World.awaits_machine hi fun register next h _ => hm' register next h]
    simp only [World.act, hcurrent, if_true]
    exact step h hm'

/-- An answer is handed to the machine's frame. -/
theorem answering_act (w : World) (here : Place) (ts : List Code) (answer : Answer)
    {frame : Frame} (hf : frame.Calls next run) (h : Within c run.connection next fs) :
    (w.act here ⟨.answering (.ok answer), frame :: fs⟩).1 = w ∧
      (w.act here ⟨.answering (.ok answer), frame :: fs⟩).2.Goes c ts none (.active ts) := by
  have hact : w.act here ⟨.answering (.ok answer), frame :: fs⟩ =
      (w, Activity.reply (w.surroundings here.home) answer frame fs) := by
    rcases answer with r | n | t <;> rfl
  rw [hact]
  exact ⟨rfl, reply answer hf h⟩

/-- A step of code that a machine has called. -/
theorem code_act {frame : Frame} (hb : Ahead (fun _ => True) b) (hf : frame.Calls next run)
    (h : Within c run.connection next fs) (hc : w.connections[c]? = some (.active ts))
    (hallowed : Allowed c none (b.atop (frame :: fs))) :
    (w.act here (b.atop (frame :: fs))).1.connections[c]? = some (.active ts) ∧
      (w.act here (b.atop (frame :: fs))).2.Goes c ts
        (w.awaits c here none (b.atop (frame :: fs))) (.active ts) := by
  have hnone : w.awaits c here none (b.atop (frame :: fs)) = none := by
    refine World.awaits_none fun m run hm => ?_
    obtain ⟨-, ⟨x, hx⟩ | ⟨message, hx⟩⟩ | hb' := hb.cases_inside
    · cases hm.symm.trans hx
    · cases hm.symm.trans hx
    · simp only [Activity.inside] at hb'
      simp [Activity.inside, Activity.atop, hb']
  rw [hnone]
  obtain ⟨res, rfl⟩ | ⟨r, rfl⟩ | hs := b.settled_or
  · rcases res with message | answer
    · have hact : w.act here ((⟨.unwinding message, []⟩ : Activity).atop (frame :: fs)) = _ :=
        World.act_unwinding w here hf.isCode fs message
      rw [Control.answering, hact]
      exact ⟨hc, .inr (Activity.fails_unwinding h.plain message)⟩
    · obtain ⟨hworld, hgoes⟩ := answering_act w here ts answer hf h
      rw [Activity.atop, List.nil_append, hworld]
      exact ⟨hc, hgoes⟩
  · exact absurd rfl hb.stack_ne_nil
  · refine ⟨World.act_connection hc here fun op hop op' => ?_, ?_⟩
    · obtain ⟨control, stack⟩ := b
      cases control with
      | code x =>
        cases x with
        | perform op'' next =>
          obtain rfl := Option.some.inj hop
          exact (hallowed op'' next rfl).resolve_right (fun hw => hw.1 rfl) op'
        | _ => cases hop
      | _ => cases hop
    · rw [World.act_atop _ _ _ _ hs]
      exact .inl (.code (hb.act ⟨fun _ _ => trivial, fun _ _ => trivial⟩ w here hs) hf h)

/-- A step of a wait. -/
theorem wait_act {register : LatchId → Code} (hw : Wait c ts register s b)
    (hr : run.connection = c) (h : Within c c next fs) (hc : w.connections[c]? = some s)
    (hallowed : Allowed c (some register) (b.atop (.node next run :: fs))) :
    ∃ s', (w.act here (b.atop (.node next run :: fs))).1.connections[c]? = some s' ∧
      (w.act here (b.atop (.node next run :: fs))).2.Goes c ts
        (w.awaits c here (some register) (b.atop (.node next run :: fs))) s' := by
  subst hr
  have hplain : (Frame.node next run :: fs).any Frame.isCode = false := h.plain
  obtain ⟨res, rfl⟩ | ⟨r, rfl⟩ | hs := b.settled_or
  · rw [Activity.atop, List.nil_append, World.awaits_answering res hplain]
    obtain ⟨message, rfl⟩ | ⟨exit, rfl, rfl⟩ := hw.of_answering
    · exact ⟨s, hc, .inr (Activity.fails_unwinding h.plain message)⟩
    · obtain ⟨hworld, hgoes⟩ := answering_act w here ts
        (.reply (.outcome exit)) .node h
      rw [hworld]
      exact ⟨_, hc, hgoes⟩
  · obtain ⟨-, ⟨x, hx⟩ | ⟨m, hx⟩⟩ | hx := hw.cases_inside <;> cases hx
  · have hallowed' : Wait.Allowed run.connection b := by
      intro op next hop
      obtain hfree | ⟨-, hi, hx⟩ := hallowed op next hop
      · exact .inl hfree
      · refine .inr ⟨?_, hx⟩
        obtain ⟨hstack, -⟩ | hb := hw.cases_inside
        · exact hstack
        · simp only [Activity.inside, Activity.atop, List.any_append, Bool.or_eq_false_iff]
            at hi hb
          rw [hi.1] at hb
          cases hb
    rw [World.act_atop _ _ _ _ hs]
    obtain ⟨s', hc', hw'⟩ | ⟨message, rfl | rfl⟩ | ⟨exit, rfl, -⟩ := hw.act here hc hallowed'
    · refine ⟨s', hc', ?_⟩
      obtain ⟨control, stack⟩ := b
      obtain ⟨rfl, ⟨x, rfl⟩ | ⟨message, rfl⟩⟩ | hb := hw.cases_inside
      · cases x with
        | perform op next' =>
          rw [Activity.atop, List.nil_append, World.awaits_perform op next' hplain]
          exact .inl (.wait hw' rfl h)
        | panic message => exact .inr ⟨hplain, message, .inl rfl⟩
        | _ => simp [Control.settles] at hs
      · simp [Control.settles] at hs
      · rw [World.awaits_inside]
        · exact .inl (.wait hw' rfl h)
        · simp only [Activity.inside] at hb
          simp [Activity.inside, Activity.atop, hb]
    · exact ⟨s, hc, .inr ⟨hplain, message, .inl rfl⟩⟩
    · simp [Control.settles] at hs
    · simp [Control.settles] at hs

theorem act (h : Stays c ts awaited s a) (hc : w.connections[c]? = some s) (hacts : a.Acts w here)
    (hallowed : Allowed c awaited a) :
    ∃ s', (w.act here a).1.connections[c]? = some s' ∧
      (w.act here a).2.Goes c ts (w.awaits c here awaited a) s' := by
  cases h with
  | drive h =>
    refine ⟨_, World.act_connection hc here nofun, .inl (drive_act h hacts)⟩
  | code hb hf h => exact ⟨_, code_act hb hf h hc hallowed⟩
  | lent => exact hacts.elim
  | wait hw hr h => exact wait_act hw hr h hc hallowed
  | @given exit run fs h =>
    refine ⟨_, hc, ?_⟩
    have hnone : w.awaits c here none ⟨.code (.give (.ended exit run)), fs⟩ = none :=
      World.awaits_none nofun
    rw [hnone]
    cases fs with
    | nil => exact .inl (.ended exit h)
    | cons frame fs => exact finish h
  | ended => exact hacts.elim

end Stays

/-- Nothing is seen of a panic that goes on. -/
theorem Activity.Fails.act (hf : a.Fails) (hacts : a.Acts w here) :
    w.events here a = [] ∧ (w.act here a).2.Fails := by
  obtain ⟨control, stack⟩ := a
  obtain ⟨hi, message, rfl | rfl⟩ := hf
  · refine ⟨by rw [World.events, hi]; rfl, ?_⟩
    cases stack with
    | nil => exact ⟨rfl, message, .inr rfl⟩
    | cons frame fs =>
      obtain ⟨hframe, hfs⟩ : frame.isCode = false ∧ fs.any Frame.isCode = false := by
        simpa [Activity.inside] using hi
      have hact : (w.act here ⟨.unwinding message, frame :: fs⟩).2 = ⟨.unwinding message, fs⟩ :=
        congrArg Prod.snd (World.act_unwinding w here hframe fs message)
      rw [hact]
      exact Activity.fails_unwinding hfs message
  · exact hacts.elim

/-- A panic goes on from frame to frame. -/
theorem Relay.Acted.fails {t : Relay} (h : t.Acted hosts) (hf : t.flat.Fails) :
    (t.step hosts).pace < t.pace ∧ ∃ frame, t.frames = frame :: (t.step hosts).frames := by
  obtain ⟨hi, message, hm⟩ := hf
  have hcontrol : t.activity.control = .unwinding message := by
    obtain hm | hm := hm
    · exact hm
    · have hacts := h.acts
      rw [Activity.Acts, hm] at hacts
      exact hacts.elim
  have hflat : t.flat = ⟨.unwinding message, t.frames⟩ := by rw [Relay.flat, hcontrol]
  cases hframes : t.frames with
  | nil =>
    have hu := h.unsettled
    rw [hflat, hframes] at hu
    simp [Control.settles] at hu
  | cons frame fs =>
    rw [hflat, hframes] at hi
    obtain ⟨hframe, -⟩ : frame.isCode = false ∧ fs.any Frame.isCode = false := by
      simpa [Activity.inside] using hi
    have hstep : (t.step hosts).flat = ⟨.unwinding message, fs⟩ := by
      rw [h.flat, hflat, hframes, World.act_unwinding _ _ hframe]
    have hcontrol' : (t.step hosts).activity.control = .unwinding message :=
      congrArg Activity.control hstep
    have hframes' : (t.step hosts).frames = fs := congrArg Activity.stack hstep
    refine ⟨?_, frame, by rw [hframes']⟩
    simp [pace, hcontrol, hcontrol', hframes, hframes', h.left]

namespace Relay

variable {t : Relay}

theorem fails_step (hp : t.activity.Proper) (h : t.flat.Fails) : (t.step hosts).flat.Fails := by
  obtain hh | ha := step_cases hosts hp
  · rw [flat, hh.frames]
    exact hh.hands.fails h
  · rw [ha.flat]
    exact (h.act ha.acts).2

theorem fails_world (hosts : Hosts) (h : t.flat.Fails) : (t.step hosts).world = t.world := by
  obtain ⟨-, message, hm⟩ := h
  have hop : t.activity.op? = none := by
    have hcontrol : t.activity.control = .unwinding message ∨
      t.activity.control = .ended (.error message) := hm
    obtain hm | hm := hcontrol <;> simp [Activity.op?, hm]
  obtain hw | hw := t.step_world hosts
  · exact hw
  · rw [hw, World.act_world, hop]
    rfl

theorem fails_events (hp : t.activity.Proper) (h : t.flat.Fails) : t.events = [] := by
  obtain hh | ha := step_cases (fun _ _ => t.place.name) hp
  · exact hh.events
  · rw [ha.events]
    exact (h.act ha.acts).1

end Relay

end Effects
