import Effects.Proofs.Bracket.Standing

/-!
In every run, and however others interfere with it, each acquired resource is released once.
-/

namespace Effects

variable {env : Surroundings} {exit : Exit} {next : List Cont} {run : Run} {fs : List Frame}
  {ps : List Pending}

namespace Activity

/-- What a machine's frame makes of the answers that it can be given. -/
theorem reply_cases (env : Surroundings) {frame : Frame} (hf : frame.isCode = false) (answer : Answer)
    (stack : List Frame) :
    (∃ n next run, answer = .node n ∧ frame = .node next run) ∨
    (∃ n resource release next run, answer = .node n ∧
      frame = .opening resource release next run) ∨
    (∃ exit run t, answer = .reply (.ended exit run) ∧ frame.exited env exit run = some t) ∨
    (∃ exit next run, answer = .reply (.outcome exit) ∧ frame = .node next run) ∨
    ∃ message, reply env answer frame stack = ⟨.unwinding message, stack⟩ := by
  cases answer with
  | node n =>
    cases frame with
    | node next run => exact .inl ⟨n, next, run, rfl, rfl⟩
    | opening resource release next run =>
      exact .inr (.inl ⟨n, resource, release, next, run, rfl, rfl⟩)
    | call | attempt | tokens => simp [Frame.isCode] at hf
    | _ => exact .inr (.inr (.inr (.inr ⟨_, rfl⟩)))
  | token t =>
    cases frame <;> first
      | exact .inr (.inr (.inr (.inr ⟨_, rfl⟩)))
      | simp [Frame.isCode] at hf
  | reply r =>
    cases r with
    | ended exit run =>
      cases ht : frame.exited env exit run with
      | some t => exact .inr (.inr (.inl ⟨exit, run, t, rfl, ht⟩))
      | none =>
        cases frame with
        | opening => exact .inr (.inr (.inr (.inr ⟨_, rfl⟩)))
        | call | attempt | tokens => simp [Frame.isCode] at hf
        | _ => simp [Frame.exited] at ht <;> split at ht <;> simp at ht
    | outcome exit =>
      cases frame with
      | node next run => exact .inr (.inr (.inr (.inl ⟨exit, next, run, rfl, rfl⟩)))
      | call | attempt | tokens => simp [Frame.isCode] at hf
      | _ => exact .inr (.inr (.inr (.inr ⟨_, rfl⟩)))
    | _ =>
      cases frame <;> first
        | exact .inr (.inr (.inr (.inr ⟨_, rfl⟩)))
        | simp [Frame.isCode] at hf

theorem not_calm (below : Pends fs ps) (message : String) :
    ¬ Calm ⟨.unwinding message, fs⟩ :=
  fun h => h (below.plain _) message rfl

end Activity

open Activity (not_calm)

/-- Once what is open afterwards has been closed, so has what was open before. -/
def Follows (events : List Event) (ps qs : List Pending) : Prop :=
  ∀ rest, Closing qs rest → Closing ps (events ++ rest)

theorem Follows.calls (hs : Steady ps) (calls : List Code) :
    Follows (calls.map .called) ps ps :=
  fun _ h => h.after_calls hs calls

/-- A machine goes on that waited in the frame. -/
theorem Pends.exited {frame : Frame} (h : Pends (frame :: fs) ps) {t : Transition}
    (ht : frame.exited env exit run = some t) :
    ∃ qs, Stands (Activity.after t fs) qs ∧
      Follows (frame.marks env exit run ++ t.calls.map .called) ps qs := by
  have resumed : ∀ {next run qs}, (∀ cont ∈ next, cont.Composed) → Pends fs qs →
      some (Machine.resume env exit next run) = some t →
      Stands (Activity.after t fs) qs ∧ Follows (t.calls.map .called) qs qs := by
    intro next run qs hnext below ht
    obtain rfl := Option.some.inj ht
    exact ⟨(Machine.resume_leads hnext below).2, .calls below.steady _⟩
  cases h with
  | node hnext below | instrumented hnext below => exact ⟨ps, resumed hnext below ht⟩
  | opening => simp [Frame.exited] at ht
  | acquiring hu hr hnext below =>
    cases exit with
    | completed resource =>
      obtain rfl := Option.some.inj ht
      exact ⟨_, .use hu hr hnext below, fun _ h => h.after_acquired below.steady⟩
    | errored | canceled => exact ⟨ps, resumed hnext below ht⟩
  | inUse hr hnext below =>
    obtain rfl := Option.some.inj ht
    exact ⟨_, .release exit hr hnext below, fun _ h => h.after_used exit⟩
  | releasing hnext below =>
    obtain rfl := Option.some.inj ht
    refine ⟨_, (Machine.resume_leads hnext below).2, fun _ h => ?_⟩
    exact (h.after_calls below.steady _).after_closed

namespace Stands

variable {w : World} {here : Place} {next : Reply → Code}

/-- What is seen of an activity's next step leaves these open. -/
abbrev Seen (w : World) (here : Place) (a : Activity) (ps qs : List Pending) : Prop :=
  Follows (w.marks here a ++ (w.calls here a).map .called) ps qs

theorem answered (answer : Answer) (hn : ∀ n, answer = .node n → n.Composed)
    (below : Pends fs ps) (calm : (w.act here ⟨.answering (.ok answer), fs⟩).2.Calm) :
    ∃ qs, Stands (w.act here ⟨.answering (.ok answer), fs⟩).2 qs ∧
      Seen w here ⟨.answering (.ok answer), fs⟩ ps qs := by
  cases fs with
  | nil =>
    refine ⟨ps, ?_, ?_⟩
    · cases answer <;> exact .ended below
    · rw [Seen, World.marks_answering, World.calls_answering]
      exact fun _ h => h
  | cons frame fs =>
    have hplain : frame.isCode = false ∧ fs.any Frame.isCode = false := by
      simpa [Activity.inside] using below.plain (.answering (.ok answer))
    have hact : (w.act here ⟨.answering (.ok answer), frame :: fs⟩).2 =
        Activity.reply (w.surroundings here.home) answer frame fs := by
      cases answer <;> rfl
    rw [hact] at calm ⊢
    obtain ⟨n, next, run, rfl, rfl⟩ | ⟨n, resource, release, next, run, rfl, rfl⟩ |
      ⟨exit, run, t, rfl, ht⟩ | ⟨exit, next, run, rfl, rfl⟩ | ⟨message, hm⟩ :=
      Activity.reply_cases (w.surroundings here.home) hplain.1 answer fs
    · cases below with
      | node hnext below => exact ⟨ps, .focus (hn n rfl) hnext below, fun _ h => h⟩
    · cases below with
      | opening hr hnext below =>
        exact ⟨_, .focus (hn n rfl) (by simp) (.inUse hr hnext below), fun _ h => h⟩
    · obtain ⟨qs, hs, hf⟩ := below.exited ht
      refine ⟨qs, ?_, ?_⟩
      · have : Activity.reply (w.surroundings here.home) (.reply (.ended exit run)) frame fs =
            Activity.after t fs := by
          cases frame <;> simp_all [Activity.reply, Activity.finish, Frame.isCode]
        rw [this]
        exact hs
      · have : w.calls here ⟨.answering (.ok (.reply (.ended exit run))), frame :: fs⟩ =
            t.calls := by
          simp [Control.answering, World.calls, ht]
        rw [Seen, this]
        exact hf
    · cases below with
      | node hnext below =>
        exact ⟨ps, (Machine.resume_leads hnext below).2, .calls below.steady _⟩
    · rw [hm] at calm
      exact absurd rfl (calm hplain.2 message)

theorem drive_act {machine : Machine} {run : Run}
    (hacts : Activity.Acts w here ⟨.drive machine run, fs⟩) :
    (w.act here ⟨.drive machine run, fs⟩).2 =
        Activity.after (machine.step (w.surroundings here.home) run) fs ∧
      w.marks here ⟨.drive machine run, fs⟩ = machine.marks (w.surroundings here.home) run ∧
      w.calls here ⟨.drive machine run, fs⟩ = machine.calls w (w.surroundings here.home) run := by
  have hcurrent : w.isCurrent here.home run.context = true := hacts
  simp [World.act, World.marks, World.calls, hcurrent]

/-- A step of code that the run has called, or of what that code has called. -/
theorem ahead_act {a : Activity} (ha : Ahead Code.Builds a)
    (hm : ∀ message, a ≠ ⟨.unwinding message, []⟩) (below : Pends fs ps)
    (hacts : (a.atop fs).Acts w here) (calm : (w.act here (a.atop fs)).2.Calm) :
    ∃ qs, Stands (w.act here (a.atop fs)).2 qs ∧
      ((a.atop fs).inside = false → Seen w here (a.atop fs) ps qs) ∧
      ((a.atop fs).inside = true → qs = ps) := by
  obtain ⟨res, rfl⟩ | ⟨r, rfl⟩ | hs := a.settled_or
  · rcases res with message | answer
    · exact absurd rfl (hm message)
    · have hn : ∀ n, answer = .node n → n.Composed := by
        rintro n rfl
        exact ha.of_code.node
      obtain ⟨qs, hstands, hseen⟩ := answered answer hn below calm
      exact ⟨qs, hstands, fun _ => hseen, below.not_inside⟩
  · exact hacts.elim
  · have hstep := World.act_atop w here a fs hs
    have hnext := ha.act Code.builds_stable w here hs
    refine ⟨ps, ?_, fun hplain => ?_, fun _ => rfl⟩
    · rw [hstep]
      refine .ahead hnext (fun message hu => ?_) below
      rw [hstep, hu] at calm
      exact not_calm below message calm
    · cases ha with
      | @code c hc =>
        cases c with
        | perform op next => exact fun _ h => h
        | panic message => exact fun _ h => h
        | _ => simp [Control.settles] at hs
      | unwinding message => exact absurd rfl (hm message)
      | inside a hf => simp [Activity.inside, Activity.atop, hf.isCode] at hplain

/-- What a step changes is seen, unless it is a step inside code that the run has called. -/
theorem act {a : Activity} (h : Stands a ps) (hacts : a.Acts w here)
    (calm : (w.act here a).2.Calm) :
    ∃ qs, Stands (w.act here a).2 qs ∧ (a.inside = false → Seen w here a ps qs) ∧
      (a.inside = true → qs = ps) := by
  cases h with
  | @focus n next run fs ps hn hnext below =>
    obtain ⟨hact, hmarks, hcalls⟩ := drive_act hacts
    obtain ⟨hm, hs⟩ := Machine.step_leads hn hnext below
    refine ⟨ps, hact ▸ hs, fun _ => ?_, below.not_inside⟩
    have : (Machine.focus n next).marks (w.surroundings here.home) run = [] := by
      cases hn <;> exact hm
    rw [Seen, hmarks, this]
    exact .calls below.steady _
  | unwind hnext below =>
    obtain ⟨hact, hmarks, hcalls⟩ := drive_act hacts
    obtain ⟨hm, hs⟩ := Machine.resume_leads hnext below
    refine ⟨ps, hact ▸ hs, fun _ => ?_, below.not_inside⟩
    rw [Seen, hmarks, Machine.marks, Machine.step, hm]
    · exact .calls below.steady _
    · intros; simp_all
  | @use resource use release next run fs ps hu hr hnext below =>
    obtain ⟨hact, hmarks, hcalls⟩ := drive_act hacts
    simp only [hact, Seen, hmarks, hcalls, Machine.marks, Machine.calls, Machine.step]
    split
    · exact ⟨_, .release .canceled hr hnext below, fun _ _ h => h.after_used .canceled,
        below.not_inside⟩
    · have hs : Steady (.held release resource :: ps) := trivial
      exact ⟨_, .code (hu resource) (.opening hr hnext below),
        fun _ => .calls hs [use resource], below.not_inside⟩
  | release exit hr hnext below =>
    obtain ⟨hact, hmarks, hcalls⟩ := drive_act hacts
    simp only [hact, Seen, hmarks, hcalls]
    exact ⟨_, .finalizer (hr _ _) hnext below, fun _ _ h => h.after_releasing, below.not_inside⟩
  | @finalizer release exit saved next run fs ps hr hnext below =>
    obtain ⟨hact, hmarks, hcalls⟩ := drive_act hacts
    have hp : Pends (.releasing exit saved next :: fs) (.cleaning exit :: ps) :=
      .releasing hnext below
    simp only [hact, Seen, hmarks, hcalls]
    exact ⟨_, .code hr (.node (by simp) hp), fun _ _ h => h.after_release, hp.not_inside⟩
  | ahead ha hm below => exact ahead_act ha hm below hacts calm
  | ended below => exact hacts.elim

theorem passes {control control' : Control} (h : Stands ⟨control, fs⟩ ps)
    (hc : Relay.Passes control control') : Stands ⟨control', fs⟩ ps := by
  generalize hx : (⟨control, fs⟩ : Activity) = x at h
  cases h with
  | focus hn hnext below => cases hx; cases hc; exact .focus hn hnext below
  | unwind hnext below => cases hx; cases hc; exact .unwind hnext below
  | use hu hr hnext below => cases hx; cases hc; exact .use hu hr hnext below
  | release exit hr hnext below => cases hx; cases hc; exact .release exit hr hnext below
  | finalizer hr hnext below => cases hx; cases hc; exact .finalizer hr hnext below
  | ended below => cases hx; cases hc; exact .code (.give _) below
  | ahead ha hm below =>
    cases ha with
    | code h => cases hx; cases hc <;> exact .ended below
    | unwinding message => exact absurd rfl (hm message)
    | inside a hf =>
      cases hx
      have hinside := Ahead.inside ⟨control', a.stack⟩ hf
      exact .ahead hinside (by simp [Activity.atop]) below

end Stands

namespace Relay

variable {s t : Relay} {events : List Event}

theorem Moves.stands (h : s.Moves t) (calm : t.flat.Calm) (hs : Stands s.flat ps) :
    ∃ qs, Stands t.flat qs ∧ Follows s.events ps qs := by
  obtain ⟨hframes, hc, hevents⟩ | ⟨hact, hevents, hacts⟩ := h.flat_cases
  · rw [flat, hframes, hevents]
    exact ⟨ps, hs.passes hc, fun _ h => h⟩
  · have hflat : s.flat.Acts s.world s.place := hacts
    rw [hact] at calm ⊢
    rw [hevents]
    obtain ⟨qs, hstands, hplain, hinside⟩ := hs.act hflat calm
    refine ⟨qs, hstands, ?_⟩
    cases hi : s.flat.inside with
    | true =>
      obtain rfl := hinside hi
      exact fun _ h => h
    | false => simpa using hplain hi

theorem Runs.own {seen : List Event} {u : Relay} (h : s.Runs events t)
    (hacts : t.activity.Acts t.world t.place) (hseen : events ++ t.events = seen)
    (hu : t.own = u) (calm : u.flat.Calm) : s.Runs seen u := by
  subst hseen hu
  exact h.move (.act hacts) calm

theorem Runs.stands (h : s.Runs events t) (hs : Stands s.flat []) :
    ∃ qs, Stands t.flat qs ∧ Follows events [] qs := by
  induction h with
  | start => exact ⟨[], hs, fun _ h => h⟩
  | move _ hm calm ih =>
    obtain ⟨ps, hs, hf⟩ := ih
    obtain ⟨qs, hs', hf'⟩ := hm.stands calm hs
    refine ⟨qs, hs', fun rest h => ?_⟩
    rw [List.append_assoc]
    exact hf _ (hf' rest h)
  | others _ _ ih => exact ih

end Relay

/-- However a composed computation is run and whenever it is canceled, short of a panic: what has
been seen can still become well bracketed, and once the run has ended it is. -/
theorem Node.Composed.bracketed {n : Node} (h : n.Composed) {w : World} {place : Place}
    {run : Run} {events : List Event} {t : Relay}
    (hr : Relay.Runs ⟨w, place, ⟨.drive (.focus n []) run, []⟩, []⟩ events t) :
    (∃ rest, Bracketed (events ++ rest)) ∧
      ∀ r, t.activity = ⟨.ended r, []⟩ → t.left = [] → Bracketed events := by
  obtain ⟨ps, hs, hf⟩ := hr.stands (.focus h (by simp) .nil)
  constructor
  · obtain ⟨rest, hrest⟩ := Closing.nonempty ps
    exact ⟨rest, hf rest hrest⟩
  · intro r ha hl
    have hflat : t.flat = ⟨.ended r, []⟩ := by simp [Relay.flat, Relay.frames, ha, hl]
    rw [hflat] at hs
    generalize hc : (⟨.ended r, []⟩ : Activity) = a at hs
    cases hs with
    | ended below =>
      cases hc
      cases below
      simpa [Closing] using hf [] .nil
    | ahead ha => cases ha <;> simp [Activity.atop] at hc
    | _ => simp at hc

/-- A run that is canceled between the acquire and the use. -/
theorem Node.Composed.bracketed_of_canceled :
    ∃ (s t : Relay) (events : List Event), s.Runs events t ∧ .used .canceled ∈ events ∧
      Bracketed events := by
  let use : Value → Code := fun v => .build (.pure v)
  let release : Value → ExitCase Value → Code := fun _ _ => .build (.pure .null)
  let resource : Value := .bool true
  let cleanup : Code := .build (.pure .null)
  have composed : (Node.bracket (.pure resource) use release).Composed :=
    .bracket (.pure _) (fun v => .build (.pure v)) fun _ _ => .build (.pure _)
  let before : World := { World.start with connections := #[.uncancelable, .new] }
  let after : World := { World.start with connections := #[.uncancelable, .canceled] }
  let run : Run := ⟨.inline, 1⟩
  let masked : Run := ⟨.inline, .uncancelable⟩
  let caller (w : World) (control : Control) (stack : List Frame) : Relay :=
    ⟨w, ⟨"caller", none⟩, ⟨control, stack⟩, []⟩
  let s := caller before (.drive (.focus (.bracket (.pure resource) use release) []) run) []
  have acquiring : s.Runs [] (caller before (.code (.give (.ended (.completed resource) masked)))
      [.acquiring use release 1 []]) :=
    .own (.own .start rfl (Eq.refl []) rfl fun _ _ => nofun) rfl rfl rfl fun _ _ => nofun
  have acquired : s.Runs [.acquired release resource] (caller before
      (.drive (.focus (.bracketUse resource use release) []) run) []) :=
    .own acquiring trivial rfl rfl fun _ _ => nofun
  have used : s.Runs [.acquired release resource, .used .canceled] (caller after
      (.drive (.focus (.bracketRelease (.suspend cleanup) .canceled) []) run) []) :=
    .own (acquired.others after) rfl rfl rfl fun _ _ => nofun
  have releasing : s.Runs [.acquired release resource, .used .canceled,
      .releasing (.suspend cleanup)] (caller after (.drive (.focus (.suspend cleanup) []) masked)
        [.releasing .canceled 1 []]) :=
    .own used rfl rfl rfl fun _ _ => nofun
  have called : s.Runs [.acquired release resource, .used .canceled,
      .releasing (.suspend cleanup), .called cleanup] (caller after (.code cleanup)
        [.node [] masked, .releasing .canceled 1 []]) :=
    .own releasing rfl rfl rfl fun _ _ => nofun
  have released : s.Runs [.acquired release resource, .used .canceled,
      .releasing (.suspend cleanup), .called cleanup] (caller after
        (.drive (.focus (.pure .null) []) masked) [.releasing .canceled 1 []]) :=
    .own called trivial rfl rfl fun _ _ => nofun
  have closing : s.Runs [.acquired release resource, .used .canceled,
      .releasing (.suspend cleanup), .called cleanup] (caller after
        (.code (.give (.ended (.completed .null) masked))) [.releasing .canceled 1 []]) :=
    .own released rfl rfl rfl fun _ _ => nofun
  have closed : s.Runs [.acquired release resource, .used .canceled,
      .releasing (.suspend cleanup), .called cleanup, .closed .canceled] (caller after
        (.code (.give (.ended .canceled run))) []) :=
    .own closing trivial rfl rfl fun _ _ => nofun
  have ended : s.Runs [.acquired release resource, .used .canceled,
      .releasing (.suspend cleanup), .called cleanup, .closed .canceled] (caller after
        (.ended (.ok (.ended .canceled run))) []) :=
    .own closed trivial rfl rfl fun _ _ => nofun
  exact ⟨s, _, _, ended, by simp, (composed.bracketed ended).2 _ rfl rfl⟩

end Effects
