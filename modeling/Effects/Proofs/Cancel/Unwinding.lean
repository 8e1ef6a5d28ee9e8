import Effects.Proofs.Cancel.Staying

/-!
What a run does that has come to a point where its connection is asked, and has been canceled: it
releases what is held, the innermost first, and ends.
-/

namespace Effects

open Suspension

variable {c : ConnectionId} {run : Run} {next : List Cont} {fs : List Frame} {ps : List Pending}
  {a b : Activity} {w : World} {here : Place} {env : Surroundings}
  {control control' : Control} {P : List Event → Prop} {k : Nat}

/-- A resource and how it is released. -/
abbrev Held := (Value → ExitCase Value → Code) × Value

/-- The releases of what is held, one after the other, each with the canceled exit. -/
def Unwound : List Held → List Event → Prop
  | [], events => events = []
  | (release, resource) :: held, events =>
      ∃ rest, Cleaned .canceled (Unwound held) rest ∧
        events = .used .canceled :: .releasing (.suspend (release resource .canceled)) ::
          .called (release resource .canceled) :: rest

theorem Unwound.nonempty : (held : List Held) → ∃ events, Unwound held events
  | [] => ⟨[], rfl⟩
  | _ :: held =>
    have ⟨rest, h⟩ := nonempty held
    ⟨_, _, ⟨[], rest, .nil, h, rfl⟩, rfl⟩

def Frame.held? : Frame → Option Held
  | .using resource release _ | .opening resource release _ _ => some (release, resource)
  | _ => none

/-- What is held by those who wait in the frames. -/
def heldBy (fs : List Frame) : List Held := fs.filterMap Frame.held?

/-- Waits for a release. -/
def Frame.isRelease : Frame → Bool
  | .releasing _ _ _ => true
  | _ => false

def Activity.releasing (a : Activity) : Bool := a.stack.any Frame.isRelease

theorem Activity.releasing_atop (b : Activity) (exit : Exit) (saved : ConnectionId)
    (next : List Cont) (fs : List Frame) :
    (b.atop (.releasing exit saved next :: fs)).releasing = true := by
  simp [releasing, atop, Frame.isRelease]

def Frame.room : Frame → Nat
  | .using _ _ next | .instrumented next => next.length + 5
  | _ => 0

/-- What a run has to go through on its way out. -/
def room : List Frame → Nat
  | [] => 0
  | frame :: fs => frame.room + room fs

/-- Where a canceled run is on the way out, how far it has still to go, and what is still to be seen
of it. -/
inductive Sinks (c : ConnectionId) : Nat → Activity → (List Event → Prop) → Prop
  | async (register : LatchId → Code) {next : List Cont} {run : Run} {fs : List Frame}
      {ps : List Pending} (hr : run.connection = c) (h : Within c c next fs) (hp : Pends fs ps) :
      Sinks c (next.length + room fs + 5) ⟨.drive (.focus (.async register) next) run, fs⟩
        (Unwound (heldBy fs))
  | bracket (acquire : Node) (use : Value → Code) (release : Value → ExitCase Value → Code)
      {next : List Cont} {run : Run} {fs : List Frame} {ps : List Pending}
      (hr : run.connection = c) (h : Within c c next fs) (hp : Pends fs ps) :
      Sinks c (next.length + room fs + 3)
        ⟨.drive (.focus (.bracket acquire use release) next) run, fs⟩ (Unwound (heldBy fs))
  | use (resource : Value) (use : Value → Code) {release : Value → ExitCase Value → Code}
      {next : List Cont} {run : Run} {fs : List Frame} {ps : List Pending}
      (hb : ∀ v case, (release v case).Builds) (hr : run.connection = c) (h : Within c c next fs)
      (hp : Pends fs ps) :
      Sinks c (next.length + room fs + 6)
        ⟨.drive (.focus (.bracketUse resource use release) next) run, fs⟩
        (Unwound ((release, resource) :: heldBy fs))
  | asking (register : LatchId → Code) {next : List Cont} {run : Run} {fs : List Frame}
      {ps : List Pending} (hr : run.connection = c) (h : Within c c next fs) (hp : Pends fs ps) :
      Sinks c (next.length + room fs + 4) ⟨.code (asking register c), .node next run :: fs⟩
        (Unwound (heldBy fs))
  | leaving {next : List Cont} {run : Run} {fs : List Frame} {ps : List Pending}
      (hr : run.connection = c) (h : Within c c next fs) (hp : Pends fs ps) :
      Sinks c (next.length + room fs + 4) ⟨.code (leaving c .canceled), .node next run :: fs⟩
        (Unwound (heldBy fs))
  | outcome {next : List Cont} {run : Run} {fs : List Frame} {ps : List Pending}
      (hr : run.connection = c) (h : Within c c next fs) (hp : Pends fs ps) (control : Control)
      (hcontrol : control = .code (.give (.outcome .canceled)) ∨
        control = .ended (.ok (.outcome .canceled))) :
      Sinks c (next.length + room fs + 3) ⟨control, .node next run :: fs⟩ (Unwound (heldBy fs))
  | unwind {next : List Cont} {run : Run} {fs : List Frame} {ps : List Pending}
      (hr : run.connection = c) (h : Within c c next fs) (hp : Pends fs ps) :
      Sinks c (next.length + room fs + 2) ⟨.drive (.unwind .canceled next) run, fs⟩
        (Unwound (heldBy fs))
  | stops {run : Run} {fs : List Frame} {ps : List Pending}
      (hr : run.connection = c) (h : Within c c [] fs) (hp : Pends fs ps) (control : Control)
      (hcontrol : control = .code (.give (.ended .canceled run)) ∨
        control = .ended (.ok (.ended .canceled run))) :
      Sinks c (room fs + 1) ⟨control, fs⟩ (Unwound (heldBy fs))
  | due {resource : Value} {release : Value → ExitCase Value → Code} {next : List Cont} {run : Run}
      {fs : List Frame} {ps : List Pending} (hb : (release resource .canceled).Builds)
      (hr : run.connection = c) (h : Within c c next fs) (hp : Pends fs ps) :
      Sinks c (next.length + room fs + 5)
        ⟨.drive (.focus (.bracketRelease (.suspend (release resource .canceled)) .canceled) next)
          run, fs⟩
        fun events => ∃ rest, Cleaned .canceled (Unwound (heldBy fs)) rest ∧
          events = .releasing (.suspend (release resource .canceled)) ::
            .called (release resource .canceled) :: rest
  | begins {code : Code} {run : Run} {next : List Cont} {fs : List Frame} {ps : List Pending}
      (hb : code.Builds) (h : Within c c next fs) (hp : Pends fs ps) :
      Sinks c (next.length + room fs + 4)
        ⟨.drive (.focus (.suspend code) []) run, .releasing .canceled c next :: fs⟩
        fun events => ∃ rest, Cleaned .canceled (Unwound (heldBy fs)) rest ∧
          events = .called code :: rest
  | cleaning {b : Activity} {qs : List Pending} {next : List Cont} {fs : List Frame}
      {ps : List Pending} (hb : Stands b qs) (h : Within c c next fs) (hp : Pends fs ps) :
      Sinks c (next.length + room fs + 3) (b.atop (.releasing .canceled c next :: fs))
        fun events => ∃ cleanup rest, Closing qs cleanup ∧ Unwound (heldBy fs) rest ∧
          events = cleanup ++ .closed .canceled :: rest
  | fails {a : Activity} {P : List Event → Prop} (h : a.Fails) (hP : ∃ events, P events) :
      Sinks c 0 a P

theorem Sinks.nonempty (h : Sinks c k a P) : ∃ events, P events := by
  have hcleaned : ∀ held : List Held, ∃ events, Cleaned .canceled (Unwound held) events :=
    fun held =>
      have ⟨rest, h⟩ := Unwound.nonempty held
      ⟨_, [], rest, .nil, h, rfl⟩
  cases h with
  | @due resource release next run fs ps hb hr h hp | @begins code run next fs ps hb h hp =>
    obtain ⟨rest, h⟩ := hcleaned (heldBy fs)
    exact ⟨_, rest, h, rfl⟩
  | @cleaning b qs next fs ps hb h hp =>
    obtain ⟨rest, h⟩ := Unwound.nonempty (heldBy fs)
    obtain ⟨cleanup, hc⟩ := Closing.nonempty qs
    exact ⟨_, cleanup, rest, hc, h, rfl⟩
  | fails h hP => exact hP
  | _ => exact Unwound.nonempty _

/-- What may be seen of a step, and then of the steps after it, and how far the run has still to go
after the step. -/
def Sinks.Then (c : ConnectionId) (R : Nat → Prop) (P : List Event → Prop) (events : List Event)
    (a : Activity) : Prop :=
  ∃ k Q, R k ∧ Sinks c k a Q ∧ ∀ rest, Q rest → P (events ++ rest)

/-- Nearer to the end, and not by a panic. -/
def Nearer (n k : Nat) : Prop := 0 < k ∧ k < n

namespace Sinks

variable {R S : Nat → Prop} {events : List Event}

theorem Then.mono (h : Sinks.Then c R P events b) (hRS : ∀ k, R k → S k) :
    Sinks.Then c S P events b := by
  obtain ⟨k, Q, hk, hQ, hP⟩ := h
  exact ⟨k, Q, hRS k hk, hQ, hP⟩

theorem then_of_fails (h : Sinks c k a P) (hR : R 0) (he : events = []) (hb : b.Fails) :
    Sinks.Then c R P events b := by
  subst he
  exact ⟨0, P, hR, .fails hb h.nonempty, fun _ => id⟩

theorem then_of (h : Sinks c k b P) (hR : R k) (he : events = []) :
    Sinks.Then c R P events b := by
  subst he
  exact ⟨k, P, hR, h, fun _ => id⟩

/-- A continuation passes the canceled exit on, and calls nothing. -/
theorem resumed (env : Surroundings) (h0 : c ≠ .uncancelable) (hr : run.connection = c)
    (h : Within c c next fs) (hp : Pends fs ps) :
    Sinks c (next.length + room fs + 1)
        (Activity.after (Machine.resume env .canceled next run) fs) (Unwound (heldBy fs)) ∧
      (Machine.resume env .canceled next run).calls = [] ∧
        (Machine.resume env .canceled next run).marks = [] := by
  cases next with
  | nil =>
    rw [List.length_nil, Nat.zero_add]
    exact ⟨.stops hr h hp _ (.inl rfl), rfl, rfl⟩
  | cons cont rest =>
    generalize hd : c = d at h
    cases h with
    | restore => exact absurd hd h0
    | cont hcont h =>
      obtain rfl := hd
      cases cont with
      | restore saved => exact absurd rfl (hcont saved)
      | _ =>
        rw [List.length_cons, Nat.add_right_comm rest.length, Nat.add_assoc _ 1 1]
        exact ⟨.unwind hr h hp, rfl, rfl⟩

theorem events_machine {m : Machine} (hplain : fs.any Frame.isCode = false)
    (hacts : Activity.Acts w here ⟨.drive m run, fs⟩) :
    w.events here ⟨.drive m run, fs⟩ = m.marks (w.surroundings here.home) run ++
      (m.calls w (w.surroundings here.home) run).map .called := by
  obtain ⟨-, hmarks, hcalls⟩ := Stands.drive_act hacts
  have hi : Activity.inside ⟨.drive m run, fs⟩ = false := hplain
  rw [World.events, hi, hmarks, hcalls]
  rfl

section Points

variable (h0 : c ≠ .uncancelable) (hr : run.connection = c) (h : Within c c next fs)
  (hp : Pends fs ps) (hc : w.connections[c]? = some .canceled)

include hr hc in
theorem asked (here : Place) : (w.surroundings here.home).canceled run.connection = true := by
  simp [World.surroundings, World.isCanceled, hr, hc, Connection.isCanceled]

include hr h hp hc in
theorem async_act {register : LatchId → Code}
    (hacts : Activity.Acts w here ⟨.drive (.focus (.async register) next) run, fs⟩) :
    Sinks.Then c (Nearer (next.length + room fs + 5)) (Unwound (heldBy fs))
      (w.events here ⟨.drive (.focus (.async register) next) run, fs⟩)
      (w.act here ⟨.drive (.focus (.async register) next) run, fs⟩).2 := by
  obtain ⟨hact, -, -⟩ := Stands.drive_act hacts
  have hcanceled := asked hr hc here
  subst hr
  rw [events_machine h.plain hacts, hact]
  refine then_of (.asking register rfl h hp) ⟨Nat.succ_pos _, by omega⟩ ?_
  simp [Machine.marks, Machine.step, Transition.marks, Machine.calls, hcanceled]

include h0 hr h hp hc in
theorem bracket_act {acquire : Node} {use : Value → Code}
    {release : Value → ExitCase Value → Code}
    (hacts : Activity.Acts w here ⟨.drive (.focus (.bracket acquire use release) next) run, fs⟩) :
    Sinks.Then c (Nearer (next.length + room fs + 3)) (Unwound (heldBy fs))
      (w.events here ⟨.drive (.focus (.bracket acquire use release) next) run, fs⟩)
      (w.act here ⟨.drive (.focus (.bracket acquire use release) next) run, fs⟩).2 := by
  obtain ⟨hact, -, -⟩ := Stands.drive_act hacts
  have hstep : (Machine.focus (.bracket acquire use release) next).step
      (w.surroundings here.home) run =
        Machine.resume (w.surroundings here.home) .canceled next run := if_pos (asked hr hc here)
  obtain ⟨hs, hcalls, hmarks⟩ := resumed (w.surroundings here.home) h0 hr h hp
  rw [events_machine h.plain hacts, hact, hstep]
  refine then_of hs ⟨Nat.succ_pos _, by omega⟩ ?_
  simp only [Machine.marks, Machine.calls, hstep, hmarks, hcalls, List.map_nil, List.append_nil]

include hr h hp hc in
theorem use_act {resource : Value} {use : Value → Code} {release : Value → ExitCase Value → Code}
    (hb : ∀ v case, (release v case).Builds)
    (hacts : Activity.Acts w here
      ⟨.drive (.focus (.bracketUse resource use release) next) run, fs⟩) :
    Sinks.Then c (Nearer (next.length + room fs + 6)) (Unwound ((release, resource) :: heldBy fs))
      (w.events here ⟨.drive (.focus (.bracketUse resource use release) next) run, fs⟩)
      (w.act here ⟨.drive (.focus (.bracketUse resource use release) next) run, fs⟩).2 := by
  obtain ⟨hact, -, -⟩ := Stands.drive_act hacts
  have hcanceled := asked hr hc here
  have hstep : (Machine.focus (.bracketUse resource use release) next).step
      (w.surroundings here.home) run = .go (.focus (.bracketRelease
        (.suspend (release resource .canceled)) .canceled) next) run := if_pos hcanceled
  rw [events_machine h.plain hacts, hact, hstep]
  refine ⟨_, _, ⟨Nat.succ_pos _, by omega⟩, .due (hb _ _) hr h hp, ?_⟩
  rintro rest ⟨rest', hrest, rfl⟩
  refine ⟨rest', hrest, ?_⟩
  simp [Machine.marks, Machine.calls, hstep, hcanceled, Transition.calls]

include h0 hr h hp in
theorem unwind_act (hacts : Activity.Acts w here ⟨.drive (.unwind .canceled next) run, fs⟩) :
    Sinks.Then c (Nearer (next.length + room fs + 2)) (Unwound (heldBy fs))
      (w.events here ⟨.drive (.unwind .canceled next) run, fs⟩)
      (w.act here ⟨.drive (.unwind .canceled next) run, fs⟩).2 := by
  obtain ⟨hact, -, -⟩ := Stands.drive_act hacts
  have hstep : (Machine.unwind .canceled next).step (w.surroundings here.home) run =
      Machine.resume (w.surroundings here.home) .canceled next run := rfl
  obtain ⟨hs, hcalls, hmarks⟩ := resumed (w.surroundings here.home) h0 hr h hp
  rw [events_machine h.plain hacts, hact, hstep]
  refine then_of hs ⟨Nat.succ_pos _, by omega⟩ ?_
  simp only [Machine.marks, Machine.calls, hstep, hmarks, hcalls, List.map_nil, List.append_nil]

end Points

theorem events_code {x : Code} (hx : Control.settles (.code x) = false) :
    w.events here ⟨.code x, fs⟩ = [] := by
  cases x with
  | perform | panic => exact ite_self []
  | _ => simp [Control.settles] at hx

section Waits

variable (h0 : c ≠ .uncancelable) (hr : run.connection = c) (h : Within c c next fs)
  (hp : Pends fs ps)

include hr h hp in
theorem asking_act (hc : w.connections[c]? = some .canceled) (register : LatchId → Code) :
    Sinks.Then c (Nearer (next.length + room fs + 4)) (Unwound (heldBy fs))
      (w.events here ⟨.code (Suspension.asking register c), .node next run :: fs⟩)
      (w.act here ⟨.code (Suspension.asking register c), .node next run :: fs⟩).2 := by
  have hact : w.act here ((⟨.code (Suspension.asking register c), []⟩ : Activity).atop
      (.node next run :: fs)) = _ := World.act_atop _ _ _ _ (.inr (by rw [asking_eq]; rfl))
  have hcanceled : (w.connection c).isCanceled = true := by
    rw [World.connection, hc]
    rfl
  rw [Suspension.asking_act, hcanceled] at hact
  have hact' : (w.act here ⟨.code (Suspension.asking register c), .node next run :: fs⟩).2 =
      ⟨.code (.give (.outcome .canceled)), .node next run :: fs⟩ := congrArg Prod.snd hact
  rw [hact']
  exact then_of (.outcome hr h hp _ (.inl rfl)) ⟨Nat.succ_pos _, by omega⟩
    (events_code (by rw [asking_eq]; rfl))

include hr h hp in
theorem leaving_act (hc : w.connections[c]? = some .canceled) :
    Sinks.Then c (Nearer (next.length + room fs + 4)) (Unwound (heldBy fs))
      (w.events here ⟨.code (Suspension.leaving c .canceled), .node next run :: fs⟩)
      (w.act here ⟨.code (Suspension.leaving c .canceled), .node next run :: fs⟩).2 := by
  have hact : w.act here ((⟨.code (Suspension.leaving c .canceled), []⟩ : Activity).atop
      (.node next run :: fs)) = _ := World.act_atop _ _ _ _ (.inr rfl)
  rw [World.leaving_act here hc] at hact
  have hact' : (w.act here ⟨.code (Suspension.leaving c .canceled), .node next run :: fs⟩).2 =
      ⟨.code (.give (.outcome .canceled)), .node next run :: fs⟩ := congrArg Prod.snd hact
  rw [hact']
  exact then_of (.outcome hr h hp _ (.inl rfl)) ⟨Nat.succ_pos _, by omega⟩ (events_code rfl)

include h0 hr h hp in
theorem outcome_act :
    Sinks.Then c (Nearer (next.length + room fs + 3)) (Unwound (heldBy fs))
      (w.events here ⟨.code (.give (.outcome .canceled)), .node next run :: fs⟩)
      (w.act here ⟨.code (.give (.outcome .canceled)), .node next run :: fs⟩).2 := by
  obtain ⟨hs, hcalls, -⟩ := resumed (w.surroundings here.home) h0 hr h hp
  refine then_of hs ⟨Nat.succ_pos _, by omega⟩ ?_
  have hplain : Activity.inside
      ⟨.code (.give (.outcome .canceled)), .node next run :: fs⟩ = false := h.plain
  rw [World.events, hplain]
  simp [World.marks, World.calls, hcalls]

end Waits

/-- A machine has ended, and whoever waits for it goes on. -/
theorem stops_act (h0 : c ≠ .uncancelable) (hr : run.connection = c) (h : Within c c [] fs)
    (hp : Pends fs ps) (hs : fs ≠ []) :
    Sinks.Then c (Nearer (room fs + 1)) (Unwound (heldBy fs))
      (w.events here ⟨.code (.give (.ended .canceled run)), fs⟩)
      (w.act here ⟨.code (.give (.ended .canceled run)), fs⟩).2 := by
  have hplain : Activity.inside ⟨.code (.give (.ended .canceled run)), fs⟩ = false := h.plain
  generalize hd : c = d at h
  cases h with
  | nil => exact absurd rfl hs
  | @inUse _ resource release next fs h =>
    obtain rfl := hd
    cases hp with
    | inUse hb hnext hp =>
      have hroom : room (.using resource release next :: fs) = next.length + 5 + room fs := rfl
      refine ⟨_, _, ⟨Nat.succ_pos _, by omega⟩, .due (hb _ _) hr h hp, ?_⟩
      rintro rest ⟨rest', hrest, rfl⟩
      refine ⟨rest', hrest, ?_⟩
      rw [World.events, hplain]
      rfl
  | @instrumented _ next fs h =>
    obtain rfl := hd
    cases hp with
    | instrumented hnext hp =>
      have hroom : room (.instrumented next :: fs) = next.length + 5 + room fs := rfl
      obtain ⟨hs, hcalls, -⟩ := resumed (w.surroundings here.home) h0 hr h hp
      refine then_of hs ⟨Nat.succ_pos _, by omega⟩ ?_
      rw [World.events, hplain]
      simp [World.marks, Frame.marks, World.calls, Frame.exited, hcalls]
  | acquiring | releasing => exact absurd hd h0

theorem due_act {resource : Value} {release : Value → ExitCase Value → Code}
    (hb : (release resource .canceled).Builds) (hr : run.connection = c) (h : Within c c next fs)
    (hp : Pends fs ps)
    (hacts : Activity.Acts w here ⟨.drive (.focus (.bracketRelease
      (.suspend (release resource .canceled)) .canceled) next) run, fs⟩) :
    Sinks.Then c (Nearer (next.length + room fs + 5))
      (fun events => ∃ rest, Cleaned .canceled (Unwound (heldBy fs)) rest ∧
        events = .releasing (.suspend (release resource .canceled)) ::
          .called (release resource .canceled) :: rest)
      (w.events here ⟨.drive (.focus (.bracketRelease
        (.suspend (release resource .canceled)) .canceled) next) run, fs⟩)
      (w.act here ⟨.drive (.focus (.bracketRelease
        (.suspend (release resource .canceled)) .canceled) next) run, fs⟩).2 := by
  obtain ⟨hact, -, -⟩ := Stands.drive_act hacts
  rw [events_machine h.plain hacts, hact]
  subst hr
  refine ⟨_, _, ⟨Nat.succ_pos _, by omega⟩, .begins hb h hp, ?_⟩
  rintro rest ⟨rest', hrest, rfl⟩
  exact ⟨rest', hrest, rfl⟩

theorem begins_act {code : Code} (hb : code.Builds) (h : Within c c next fs) (hp : Pends fs ps)
    (hacts : Activity.Acts w here
      ⟨.drive (.focus (.suspend code) []) run, .releasing .canceled c next :: fs⟩) :
    Sinks.Then c (Nearer (next.length + room fs + 4))
      (fun events => ∃ rest, Cleaned .canceled (Unwound (heldBy fs)) rest ∧
        events = .called code :: rest)
      (w.events here ⟨.drive (.focus (.suspend code) []) run, .releasing .canceled c next :: fs⟩)
      (w.act here
        ⟨.drive (.focus (.suspend code) []) run, .releasing .canceled c next :: fs⟩).2 := by
  obtain ⟨hact, -, -⟩ := Stands.drive_act hacts
  have hplain : (Frame.releasing .canceled c next :: fs).any Frame.isCode = false := h.plain
  rw [events_machine hplain hacts, hact]
  have hstands : Stands ⟨.code code, [.node [] run]⟩ [] := .code hb (.node (by simp) .nil)
  refine ⟨_, _, ⟨Nat.succ_pos _, by omega⟩, .cleaning hstands h hp, ?_⟩
  rintro rest ⟨cleanup, rest', hc, hrest, rfl⟩
  exact ⟨_, ⟨cleanup, rest', hc, hrest, rfl⟩, rfl⟩

end Sinks

/-- Nothing is seen of a step that a panic comes from. -/
theorem World.events_unwinding {message : String}
    (h : (w.act here a).2.control = .unwinding message) : w.events here a = [] := by
  obtain ⟨control, stack⟩ := a
  have hquiet : w.marks here ⟨control, stack⟩ = [] → w.calls here ⟨control, stack⟩ = [] →
      w.events here ⟨control, stack⟩ = [] := by
    intro hmarks hcalls
    rw [events, hmarks, hcalls]
    exact ite_self []
  have hafter : ∀ (t : Transition) (stack : List Frame),
      (Activity.after t stack).control ≠ .unwinding message := by
    intro t stack
    cases t <;> simp [Activity.after]
  cases control with
  | drive m run =>
    simp only [act] at h
    split at h
    · exact absurd h (hafter _ _)
    · cases h
  | code x =>
    cases x with
    | give r =>
      cases stack with
      | nil => cases h
      | cons frame stack =>
        cases r with
        | ended exit run =>
          cases ht : frame.exited (w.surroundings here.home) exit run with
          | some t =>
            have hcode : frame.isCode = false := by
              cases frame <;> first | rfl | cases ht
            have hact : (w.act here ⟨.code (.give (.ended exit run)), frame :: stack⟩).2 =
                Activity.after t stack := Activity.reply_ended hcode ht stack
            rw [hact] at h
            exact absurd h (hafter t stack)
          | none =>
            refine hquiet ?_ (by simp [calls, ht])
            cases frame with
            | opening | call | attempt | tokens => rfl
            | _ => cases exit <;> cases ht
        | outcome exit =>
          cases frame with
          | node next run => exact absurd h (hafter _ stack)
          | _ => exact hquiet rfl rfl
        | _ => exact hquiet rfl rfl
    | _ => exact hquiet rfl rfl
  | _ => exact hquiet rfl rfl

theorem Stands.of_code {x : Code} (h : Stands ⟨.code x, []⟩ ps) : ps = [] := by
  generalize ha : (⟨.code x, []⟩ : Activity) = a at h
  cases h with
  | ahead hb hm below =>
    obtain ⟨-, hstack⟩ := Activity.mk.inj ha
    obtain ⟨-, rfl⟩ := List.append_eq_nil_iff.1 hstack.symm
    cases below
    rfl
  | _ => cases ha

namespace Sinks

/-- The release has come to its end. -/
theorem cleaned (h0 : c ≠ .uncancelable) {qs : List Pending} (res : Except String Answer)
    (hb : Stands ⟨.answering res, []⟩ qs) (h : Within c c next fs) (hp : Pends fs ps) :
    Sinks.Then c (· ≤ next.length + room fs + 3)
      (fun events => ∃ cleanup rest, Closing qs cleanup ∧ Unwound (heldBy fs) rest ∧
        events = cleanup ++ .closed .canceled :: rest)
      (w.events here ⟨.answering res, .releasing .canceled c next :: fs⟩)
      (w.act here ⟨.answering res, .releasing .canceled c next :: fs⟩).2 := by
  have hplain : (Frame.releasing .canceled c next :: fs).any Frame.isCode = false := h.plain
  by_cases hended : ∃ exit run, res = .ok (.reply (.ended exit run))
  · obtain ⟨exit, run, rfl⟩ := hended
    obtain rfl := hb.of_code
    obtain ⟨hs, hcalls, -⟩ := resumed (w.surroundings here.home) h0
      (rfl : Run.connection { run with connection := c } = c) h hp
    refine ⟨_, _, by omega, hs, fun rest hrest => ⟨[], rest, .nil, hrest, ?_⟩⟩
    have hi : Activity.inside ⟨.answering (.ok (.reply (.ended exit run))),
        .releasing .canceled c next :: fs⟩ = false := hplain
    have hmarks : w.marks here ⟨.answering (.ok (.reply (.ended exit run))),
        .releasing .canceled c next :: fs⟩ = [.closed .canceled] := rfl
    have hcalls' : w.calls here ⟨.answering (.ok (.reply (.ended exit run))),
        .releasing .canceled c next :: fs⟩ = [] := hcalls
    rw [World.events, hi, hmarks, hcalls']
    rfl
  · obtain ⟨message, hact⟩ : ∃ message, (w.act here ⟨.answering res,
        .releasing .canceled c next :: fs⟩).2 = ⟨.unwinding message, fs⟩ := by
      rcases res with message | (r | n | t)
      · exact ⟨message, rfl⟩
      · cases r with
        | ended exit run => exact absurd ⟨exit, run, rfl⟩ hended
        | _ => exact ⟨_, rfl⟩
      · exact ⟨_, rfl⟩
      · exact ⟨_, rfl⟩
    have hquiet : w.events here ⟨.answering res, .releasing .canceled c next :: fs⟩ = [] :=
      World.events_unwinding (congrArg Activity.control hact)
    rw [hact]
    exact then_of_fails (.cleaning hb h hp) (Nat.zero_le _) hquiet
      (Activity.fails_unwinding h.plain message)

/-- A step of a release. -/
theorem cleaning_act (h0 : c ≠ .uncancelable) {qs : List Pending} (hb : Stands b qs)
    (h : Within c c next fs) (hp : Pends fs ps)
    (hacts : (b.atop (.releasing .canceled c next :: fs)).Acts w here) :
    Sinks.Then c (· ≤ next.length + room fs + 3)
      (fun events => ∃ cleanup rest, Closing qs cleanup ∧ Unwound (heldBy fs) rest ∧
        events = cleanup ++ .closed .canceled :: rest)
      (w.events here (b.atop (.releasing .canceled c next :: fs)))
      (w.act here (b.atop (.releasing .canceled c next :: fs))).2 := by
  have hplain : (Frame.releasing .canceled c next :: fs).any Frame.isCode = false := h.plain
  obtain ⟨res, rfl⟩ | ⟨r, rfl⟩ | hs := b.settled_or
  · exact cleaned h0 res hb h hp
  · exact hacts.elim
  · have hinside : (b.atop (.releasing .canceled c next :: fs)).inside = b.inside := by
      simp only [Activity.inside, Activity.atop, List.any_append, hplain, Bool.or_false]
    have hevents : w.events here (b.atop (.releasing .canceled c next :: fs)) =
        w.events here b := by
      rw [World.events, World.events, hinside, World.marks_atop _ _ _ _ hs,
        World.calls_atop _ _ _ _ hs]
    rw [hevents, World.act_atop _ _ _ _ hs]
    have hown : b.Acts w here := hacts
    by_cases calm : (w.act here b).2.Calm
    · obtain ⟨qs', hstands, hseen, hsame⟩ := hb.act hown calm
      refine ⟨_, _, Nat.le_refl _, .cleaning hstands h hp, ?_⟩
      rintro rest ⟨cleanup, rest', hc, hrest, rfl⟩
      refine ⟨w.events here b ++ cleanup, rest', ?_, hrest, (List.append_assoc ..).symm⟩
      cases hi : b.inside with
      | true =>
        rw [World.events, hi, ← hsame hi]
        exact hc
      | false =>
        rw [World.events, hi]
        exact hseen hi cleanup hc
    · simp only [Activity.Calm, Classical.not_forall, not_not] at calm
      obtain ⟨hi, message, hm⟩ := calm
      refine then_of_fails (.cleaning hb h hp) (Nat.zero_le _) (World.events_unwinding hm)
        ⟨?_, message, .inl hm⟩
      simp only [Activity.inside, Activity.atop, List.any_append, hplain, Bool.or_false]
      exact hi

/-- Outside the releases the run gets nearer to its end, and only a release can panic. -/
def Goes (k : Nat) (a : Activity) (k' : Nat) : Prop :=
  Nearer k k' ∨ a.releasing = true ∧ k' ≤ k ∨ a.Fails ∧ k = 0 ∧ k' = 0

theorem act (h0 : c ≠ .uncancelable) (h : Sinks c k a P)
    (hc : w.connections[c]? = some .canceled) (hacts : a.Acts w here)
    (hs : a.stack ≠ [] ∨ a.control.settles = false) :
    Sinks.Then c (Goes k a) P (w.events here a) (w.act here a).2 := by
  have hnearer : Sinks.Then c (Nearer k) P (w.events here a) (w.act here a).2 →
      Sinks.Then c (Goes k a) P (w.events here a) (w.act here a).2 :=
    fun h => h.mono fun _ => .inl
  cases h with
  | async register hr h hp => exact hnearer (async_act hr h hp hc hacts)
  | bracket acquire use release hr h hp => exact hnearer (bracket_act h0 hr h hp hc hacts)
  | use resource use hb hr h hp => exact hnearer (use_act hr h hp hc hb hacts)
  | asking register hr h hp => exact hnearer (asking_act hr h hp hc register)
  | leaving hr h hp => exact hnearer (leaving_act hr h hp hc)
  | outcome hr h hp control hcontrol =>
    obtain rfl | rfl := hcontrol
    · exact hnearer (outcome_act h0 hr h hp)
    · exact hacts.elim
  | unwind hr h hp => exact hnearer (unwind_act h0 hr h hp hacts)
  | stops hr h hp control hcontrol =>
    obtain rfl | rfl := hcontrol
    · exact hnearer (stops_act h0 hr h hp (hs.resolve_right (by simp [Control.settles])))
    · exact hacts.elim
  | due hb hr h hp => exact hnearer (due_act hb hr h hp hacts)
  | begins hb h hp => exact hnearer (begins_act hb h hp hacts)
  | cleaning hb h hp =>
    exact (cleaning_act h0 hb h hp hacts).mono fun _ hk =>
      .inr (.inl ⟨Activity.releasing_atop .., hk⟩)
  | fails hf hP =>
    obtain ⟨hquiet, hf'⟩ := hf.act hacts
    exact then_of_fails (.fails hf hP) (.inr (.inr ⟨hf, rfl, rfl⟩)) hquiet hf'

/-- What one thread hands to another is where it was. -/
theorem hands (h : Sinks c k ⟨control, fs⟩ P) (hh : Hands w here control control') :
    Sinks c k ⟨control', fs⟩ P := by
  generalize ha : (⟨control, fs⟩ : Activity) = a at h
  cases h with
  | async | bracket | use | unwind | due | begins =>
    cases ha
    rw [hh.of_drive]
    constructor <;> assumption
  | asking register =>
    cases ha
    exact absurd hh.settles (by rw [asking_eq]; exact nofun)
  | leaving =>
    cases ha
    exact absurd hh.settles nofun
  | outcome hr h hp _ hcontrol =>
    cases ha
    refine .outcome hr h hp _ ?_
    obtain rfl | rfl := hcontrol
    · exact .inr hh.of_give
    · exact hh.of_ended.symm
  | stops hr h hp _ hcontrol =>
    cases ha
    refine .stops hr h hp _ ?_
    obtain rfl | rfl := hcontrol
    · exact .inr hh.of_give
    · exact hh.of_ended.symm
  | @cleaning b qs next fs ps hb h hp =>
    cases ha
    obtain rfl | hpass := hh.passes
    · exact .cleaning hb h hp
    · exact .cleaning (b := ⟨control', b.stack⟩) (hb.passes hpass) h hp
  | fails hf hP =>
    subst ha
    exact .fails (hh.fails hf) hP

end Sinks

end Effects
