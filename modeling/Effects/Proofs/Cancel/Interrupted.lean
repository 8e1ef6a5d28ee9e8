import Effects.Proofs.Cancel.Course
import Effects.Proofs.Cancel.Leaving

/-!
What a canceled run does, against what it would have done.
-/

namespace Effects

open Suspension

variable {hosts : Hosts} {c : ConnectionId} {ts : List Code} {events : List Event} {s : Watched}
  {act : Act} {acts : List Act} {P : List Event → Prop} {held : List Held} {k : Nat}

/-- Whatever others do meanwhile, the run releases what is held, the innermost first, and calls
nothing else; it ends with the canceled exit, unless a release panics; after a panic it calls nothing
and ends with that; and it does end, unless a release goes on forever. -/
structure Watched.Leaves (hosts : Hosts) (c : ConnectionId) (held : List Held) (s : Watched) :
    Prop where
  releases : ∀ acts, s.Minds hosts c acts → ∃ rest, Unwound held ((s.play hosts c acts).1 ++ rest)
  exit : ∀ acts r, s.Minds hosts c acts →
    (s.play hosts c acts).2.relay.activity = ⟨.ended r, []⟩ →
    (s.play hosts c acts).2.relay.left = [] →
      (Unwound held (s.play hosts c acts).1 ∧ ∃ run, r = .ok (.ended .canceled run)) ∨
        (∃ message, r = .error message) ∧ s.Panics hosts c acts
  panics : ∀ acts more, (s.play hosts c acts).2.relay.flat.Fails →
    (s.play hosts c (acts ++ more)).1 = (s.play hosts c acts).1 ∧
      (s.play hosts c (acts ++ more)).2.relay.flat.Fails
  ends : ∀ tape, s.Fair hosts c tape → ∃ n, (s.after hosts c tape n).relay.Over

namespace Sinks

theorem of_ended {r : Reply} (h : Sinks c k ⟨.ended (.ok r), []⟩ P) :
    P [] ∧ ∃ run, r = .ended .canceled run := by
  generalize ha : (⟨.ended (.ok r), []⟩ : Activity) = a at h
  cases h with
  | stops hr h hp control hcontrol =>
    obtain ⟨rfl, rfl⟩ := Activity.mk.inj ha
    obtain hx | hx := hcontrol
    · cases hx
    · cases hx
      exact ⟨rfl, _, rfl⟩
  | cleaning =>
    have hstack := congrArg Activity.stack ha
    simp [Activity.atop] at hstack
  | fails hf =>
    subst ha
    obtain ⟨-, message, hm | hm⟩ := hf <;> cases hm
  | _ => cases ha

/-- A run on its way out comes to its end there. -/
theorem leaves (h0 : c ≠ .uncancelable) (hproper : s.relay.activity.Proper)
    (h : Sinks c k s.relay.flat P) (hk : k ≠ 0) (hP : ∀ rest, P rest → Unwound held rest)
    (hc : s.relay.world.connections[c]? = some .canceled) : s.Leaves hosts c held where
  releases acts hm := by
    obtain ⟨k', Q, -, hQ, hthen⟩ := h.play h0 hproper hc hm
    obtain ⟨rest, hrest⟩ := hQ.nonempty
    exact ⟨rest, hP _ (hthen rest hrest)⟩
  exit acts r hm ha hl := by
    obtain ⟨k', Q, hk', hQ, hthen⟩ := h.play h0 hproper hc hm
    have hflat : (s.play hosts c acts).2.relay.flat = ⟨.ended r, []⟩ := by
      simp [Relay.flat, Relay.frames, ha, hl]
    rw [hflat] at hQ
    cases r with
    | ok r =>
      obtain ⟨hnil, run, rfl⟩ := hQ.of_ended
      refine .inl ⟨hP _ ?_, run, rfl⟩
      simpa using hthen [] hnil
    | error message =>
      have hzero := hQ.fails_iff.1 ⟨rfl, message, .inr rfl⟩
      exact .inr ⟨⟨message, rfl⟩, (hk' hzero).resolve_left hk⟩
  panics acts more hfails := by
    obtain ⟨hquiet, hlater⟩ : ((s.play hosts c acts).2.play hosts c more).1 = [] ∧
        ((s.play hosts c acts).2.play hosts c more).2.relay.flat.Fails :=
      Watched.fails_play (Watched.play_proper hproper) hfails
    rw [Watched.play_append, hquiet, List.append_nil]
    exact ⟨rfl, hlater⟩
  ends tape hfair := Sinks.At.ends (n := 0) h0 hfair ⟨hproper, hc, P, h⟩

end Sinks

/-- Where a wait that can be interrupted waits for its callback, its token is on the connection. -/
theorem Wait.of_waiting {register : LatchId → Code} {σ : Connection Code} {l : LatchId}
    (h : Wait c ts register σ ⟨.code (Suspension.waiting c l), []⟩) :
    ∃ token, σ = .active (token :: ts) ∧ (register l).Offers token := by
  generalize ha : (⟨.code (Suspension.waiting c l), []⟩ : Activity) = a at h
  cases h with
  | asking =>
    rw [asking_eq] at ha
    cases ha
  | registering _ hf =>
    cases hf with
    | code x => exact absurd (Control.code.inj (Activity.mk.inj ha).1).symm (after_ne_waiting x)
    | above a frame hframe => simp [Activity.atop] at ha
    | unwinding => cases ha
  | bare l' =>
    obtain ⟨-, hnext⟩ := Code.perform.inj (Control.code.inj (Activity.mk.inj ha).1)
    cases congrFun hnext (.caught (.ok .unit))
  | waiting hoffers =>
    obtain ⟨hop, -⟩ := Code.perform.inj (Control.code.inj (Activity.mk.inj ha).1)
    obtain rfl := Op.await.inj hop
    exact ⟨_, rfl, hoffers⟩
  | _ => cases ha

theorem Stands.of_calling {x : Code} {fs : List Frame} {ps : List Pending}
    (h : Stands ⟨.code x, fs⟩ ps) (hplain : fs.any Frame.isCode = false) : Pends fs ps := by
  generalize ha : (⟨.code x, fs⟩ : Activity) = a at h
  cases h with
  | ahead hb _ below =>
    cases hb with
    | code => cases ha; exact below
    | unwinding => cases ha
    | inside b hf =>
      obtain ⟨-, rfl⟩ := Activity.mk.inj ha
      simp [Activity.atop, hf.isCode] at hplain
  | _ => cases ha

namespace Underway

theorem outside (h : Underway c ts events s) (hi : s.relay.flat.inside = false) :
    ∃ σ, s.relay.world.connections[c]? = some σ ∧
      Outside c ts s.awaited σ s.relay.activity.control s.relay.frames := by
  obtain ⟨σ, hc, hstays⟩ := h.stays
  exact ⟨σ, hc, hstays.outside hi⟩

theorem drives (h : Underway c ts events s) (hi : s.relay.flat.inside = false) {m : Machine}
    {run : Run} (hm : s.relay.activity.control = .drive m run) :
    s.awaited = none ∧ Within c run.connection m.conts s.relay.frames := by
  obtain ⟨σ, -, hout⟩ := h.outside hi
  rw [hm] at hout
  generalize hk : Control.drive m run = k at hout
  generalize s.awaited = awaited, s.relay.frames = fs at hout ⊢
  cases hout with
  | drive h =>
    cases hk
    exact ⟨rfl, h⟩
  | called hcontrol => obtain ⟨x, rfl⟩ | ⟨x, rfl⟩ | ⟨x, rfl⟩ := hcontrol <;> cases hk
  | waits hcontrol => obtain ⟨x, rfl⟩ | ⟨x, rfl⟩ := hcontrol <;> cases hk
  | closing hcontrol => obtain rfl | rfl := hcontrol <;> cases hk

/-- At a point where it asks, a run whose connection has been canceled is on its way out. -/
theorem point (h0 : c ≠ .uncancelable) (h : Underway c ts events s) (hp : s.relay.Point c) :
    ∃ k P, Sinks c (k + 1) s.relay.flat P ∧ ∀ rest, P rest → Unwound (opened events) rest := by
  obtain ⟨hi, m, run, hm, -, hasks, hr⟩ := hp
  obtain ⟨-, hw⟩ := h.drives hi hm
  obtain ⟨ps, hstands, hf⟩ := h.stands
  have hflat : s.relay.flat = ⟨.drive m run, s.relay.frames⟩ := by rw [Relay.flat, hm]
  rw [hflat] at hstands ⊢
  rw [hr] at hw
  generalize ha : (⟨.drive m run, s.relay.frames⟩ : Activity) = a at hstands
  cases hstands with
  | @focus n next _ fs _ hn hnext below =>
    obtain ⟨hc, rfl⟩ := Activity.mk.inj ha
    obtain ⟨rfl, rfl⟩ := Control.drive.inj hc
    obtain rfl := hw.pending h0 below
    have hheld : ∀ rest, Unwound (heldBy s.relay.frames) rest → Unwound (opened events) rest :=
      fun rest => Unwound.of_follows hf
    cases hn with
    | async register => exact ⟨_, _, .async register hr hw below, hheld⟩
    | bracket => exact ⟨_, _, .bracket _ _ _ hr hw below, hheld⟩
    | _ => cases hasks
  | @use resource use release next _ fs _ hu hrel hnext below =>
    obtain ⟨hc, rfl⟩ := Activity.mk.inj ha
    obtain ⟨rfl, rfl⟩ := Control.drive.inj hc
    obtain rfl := hw.pending h0 below
    exact ⟨_, _, .use resource use hrel hr hw below, fun rest => Unwound.of_follows hf⟩
  | unwind | release | finalizer =>
    obtain ⟨hc, -⟩ := Activity.mk.inj ha
    obtain ⟨rfl, -⟩ := Control.drive.inj hc
    cases hasks
  | ahead hx hm' below =>
    cases hx with
    | inside b hframe =>
      rw [hflat, ha] at hi
      simp [Activity.inside, Activity.atop, hframe.isCode] at hi
    | _ => cases ha
  | ended => cases ha

/-- A wait that the connection can interrupt: once it has, the run is on its way out. -/
theorem waits (h0 : c ≠ .uncancelable) (h : Underway c ts events s)
    (hi : s.relay.flat.inside = false) {register : LatchId → Code} {l : LatchId}
    (hawaited : s.awaited = some register)
    (hcontrol : s.relay.activity.control = .code (Suspension.waiting c l)) :
    (∃ token, s.relay.world.connections[c]? = some (.active (token :: ts)) ∧
      (register l).Offers token) ∧
    ∃ k P, Sinks c (k + 1) ⟨.code (Suspension.leaving c .canceled), s.relay.frames⟩ P ∧
      ∀ rest, P rest → Unwound (opened events) rest := by
  obtain ⟨σ, hc, hout⟩ := h.outside hi
  obtain ⟨ps, hstands, hf⟩ := h.stands
  rw [Relay.flat, hcontrol] at hstands
  rw [hcontrol, hawaited] at hout
  generalize s.relay.frames = fs at hout hstands ⊢
  cases hout with
  | @waits _ _ _ next run fs _ hw hr h =>
    obtain ⟨token, rfl, hoffers⟩ := hw.of_waiting
    refine ⟨⟨token, hc, hoffers⟩, ?_⟩
    have hp : Pends (.node next run :: fs) ps := hstands.of_calling h.plain
    cases hp with
    | node hnext below =>
      obtain rfl := h.pending h0 below
      exact ⟨_, _, .leaving hr h below, fun rest => Unwound.of_follows hf⟩

end Underway

/-- What becomes of a run that is canceled where it is, after these events, `ts` being the tokens
that its connection had before the run. -/
structure Watched.Cancels (hosts : Hosts) (c : ConnectionId) (ts : List Code) (events : List Event)
    (u : Watched) : Prop where
  /-- Between two steps of its machine no run waits. -/
  boundary : u.relay.flat.inside = false → ∀ m run, u.relay.activity.control = .drive m run →
    u.awaited = none
  /-- It goes on as it would have, up to the first point at which it asks, and from there on it
  leaves; or it meets no such point. -/
  asked : u.Passive c → ∀ acts, (u.canceled c).Minds hosts c acts →
    (u.Clear hosts c acts ∧ (u.canceled c).play hosts c acts =
      ((u.play hosts c acts).1, (u.play hosts c acts).2.canceled c)) ∨
    ∃ before after, acts = before ++ .own :: after ∧ u.Clear hosts c before ∧
      (u.play hosts c before).2.relay.Point c ∧
        (u.canceled c).play hosts c before =
          ((u.play hosts c before).1, (u.play hosts c before).2.canceled c) ∧
        ((u.play hosts c before).2.canceled c).Leaves hosts c
          (opened (events ++ (u.play hosts c before).1))
  /-- While it waits for what the connection can interrupt, the token of the wait is on the
  connection; and once it has been interrupted, it leaves. -/
  waiting : u.relay.flat.inside = false → ∀ register l, u.awaited = some register →
    u.relay.activity.control = .code (Suspension.waiting c l) →
      (∃ token, u.relay.world.connections[c]? = some (.active (token :: ts)) ∧
        (register l).Offers token) ∧
      ∀ w : World, w.connections[c]? = some .canceled →
        w.latches[l]? = some (.full (.ok (.outcome .canceled))) →
          ∀ v : Watched, v = ⟨{ u.relay with world := w }, u.awaited⟩ →
            v.relay.events = [] ∧ (v.next hosts c .own).Leaves hosts c (opened events)

namespace Course

theorem underway (h : Course c ts events s)
    (hf : ∀ message, s.relay.activity.control ≠ .unwinding message ∧
      s.relay.activity.control ≠ .ended (.error message)) : Underway c ts events s := by
  refine h.goes.resolve_right ?_
  rintro ⟨-, message, hm | hm⟩
  · exact (hf message).1 hm
  · exact (hf message).2 hm

theorem drives (h : Course c ts events s) {m : Machine} {run : Run}
    (hm : s.relay.activity.control = .drive m run) : Underway c ts events s :=
  h.underway fun message => by
    rw [hm]
    exact ⟨nofun, nofun⟩

theorem asked (h0 : c ≠ .uncancelable) (h : Course c ts events s)
    (hhosts : ∀ w s d, hosts (w.setConnection c s) d = hosts w d) (hpassive : s.Passive c)
    (hm : (s.canceled c).Minds hosts c acts) :
    (s.Clear hosts c acts ∧ (s.canceled c).play hosts c acts =
      ((s.play hosts c acts).1, (s.play hosts c acts).2.canceled c)) ∨
    ∃ before after, acts = before ++ .own :: after ∧ s.Clear hosts c before ∧
      (s.play hosts c before).2.relay.Point c ∧
        (s.canceled c).play hosts c before =
          ((s.play hosts c before).1, (s.play hosts c before).2.canceled c) ∧
        ((s.play hosts c before).2.canceled c).Leaves hosts c
          (opened (events ++ (s.play hosts c before).1)) := by
  obtain ⟨σ, hc⟩ := h.known
  obtain hclear | ⟨before, after, hacts, hclear, hmind, hpoint, hplay⟩ :=
    Watched.alongside hhosts hc hpassive hm
  · exact .inl hclear
  · refine .inr ⟨before, after, hacts, hclear, hpoint, hplay, ?_⟩
    have hcourse := h.play hmind
    obtain ⟨σ', hc'⟩ := hcourse.known
    obtain ⟨m, run, hcontrol, -⟩ := hpoint.2
    obtain ⟨k, P, hsinks, hP⟩ := (hcourse.drives hcontrol).point h0 hpoint
    exact Sinks.leaves (k := k + 1) h0 hcourse.proper hsinks (Nat.succ_ne_zero k) hP
      (World.setConnection_getElem? hc' _)

theorem interrupted_act {w : World} {here : Place} {l : LatchId} (fs : List Frame)
    (hl : w.latches[l]? = some (.full (.ok (.outcome .canceled)))) :
    w.act here ⟨.code (Suspension.waiting c l), fs⟩ =
      (w.setLatch l .drained, ⟨.code (Suspension.leaving c .canceled), fs⟩) := by
  show ((w.perform here (.await l)).1, Activity.respond _ fs (w.perform here (.await l)).2) = _
  simp only [World.perform, hl, Option.bind_some, Latch.item?]
  rfl

theorem waiting (h0 : c ≠ .uncancelable) (h : Course c ts events s)
    (hi : s.relay.flat.inside = false) {register : LatchId → Code} {l : LatchId}
    (hawaited : s.awaited = some register)
    (hcontrol : s.relay.activity.control = .code (Suspension.waiting c l)) :
    (∃ token, s.relay.world.connections[c]? = some (.active (token :: ts)) ∧
      (register l).Offers token) ∧
    ∀ w : World, w.connections[c]? = some .canceled →
      w.latches[l]? = some (.full (.ok (.outcome .canceled))) →
        ∀ v : Watched, v = ⟨{ s.relay with world := w }, s.awaited⟩ →
          v.relay.events = [] ∧ (v.next hosts c .own).Leaves hosts c (opened events) := by
  have hu : Underway c ts events s := h.underway fun message => by
    rw [hcontrol]
    exact ⟨nofun, nofun⟩
  obtain ⟨htoken, k, P, hsinks, hP⟩ := hu.waits h0 hi hawaited hcontrol
  refine ⟨htoken, ?_⟩
  rintro w hc hl v rfl
  have hsettles : Control.settles (.code (Suspension.waiting c l)) = false := rfl
  have hflat : Relay.flat { s.relay with world := w } =
      ⟨.code (Suspension.waiting c l), s.relay.frames⟩ := by
    rw [← hcontrol]
    rfl
  obtain hh | ha := Relay.step_cases hosts (t := { s.relay with world := w }) h.proper
  · have hands := hh.hands
    rw [hcontrol] at hands
    exact absurd hands.settles (by rw [hsettles]; exact nofun)
  · have hworld := ha.world
    have hstep := ha.flat
    rw [hflat, interrupted_act _ hl] at hworld hstep
    refine ⟨?_, Sinks.leaves (k := k + 1) h0 (Relay.step_proper hosts h.proper) ?_
      (Nat.succ_ne_zero k) hP ?_⟩
    · rw [ha.events, hflat]
      exact Sinks.events_code hsettles
    · exact hstep ▸ hsinks
    · exact hworld ▸ hc

theorem cancels (h0 : c ≠ .uncancelable) (h : Course c ts events s)
    (hhosts : ∀ w s d, hosts (w.setConnection c s) d = hosts w d) :
    s.Cancels hosts c ts events where
  boundary hi _ _ hm := ((h.drives hm).drives hi hm).1
  asked hpassive _ hm := h.asked h0 hhosts hpassive hm
  waiting hi _ _ hawaited hcontrol := h.waiting h0 hi hawaited hcontrol

end Course

/-- A run of a composed computation, canceled at whatever step. -/
theorem Node.Composed.run_cancels {n : Node} (h : n.Composed) {w : World} {place : Place}
    {run : Run} (h0 : run.connection ≠ .uncancelable)
    (hc : w.connections[run.connection]? = some (.active ts))
    (hhosts : ∀ w s d, hosts (w.setConnection run.connection s) d = hosts w d)
    (hs : s = ⟨⟨w, place, ⟨.drive (.focus n []) run, []⟩, []⟩, none⟩)
    (hm : s.Minds hosts run.connection acts) :
    (s.play hosts run.connection acts).2.Cancels hosts run.connection ts
      (s.play hosts run.connection acts).1 := by
  have hcourse : Course run.connection ts [] s := hs ▸ h.course hc
  exact (hcourse.play hm).cancels h0 hhosts

/-- A run that waits in the use of a bracket. -/
theorem Node.Composed.run_cancels_waiting :
    let register : LatchId → Code := fun l =>
      .guard (some (Routine.interrupting (.give .unit) l))
    let use : Value → Code := fun _ => .build (.async register)
    let release : Value → ExitCase Value → Code := fun _ _ => .build (.pure .null)
    let n : Node := .bracket (.pure (.bool true)) use release
    let w : World := { World.start with connections := #[.uncancelable, .new] }
    let hosts : Hosts := fun _ _ => "worker"
    let s : Watched :=
      ⟨⟨w, ⟨"caller", none⟩, ⟨.drive (.focus n []) ⟨.inline, 1⟩, []⟩, []⟩, none⟩
    let acts : List Act := List.replicate 9 .own
    let u := (s.play hosts 1 acts).2
    u.Cancels hosts 1 [] (s.play hosts 1 acts).1 ∧ u.relay.flat.inside = false ∧
      u.awaited = some register ∧
      u.relay.activity.control = .code (Suspension.waiting 1 0) ∧
      opened (s.play hosts 1 acts).1 = [(release, .bool true)] := by
  intro register use release n w hosts s acts u
  let run : Run := ⟨.inline, 1⟩
  let masked : Run := ⟨.inline, .uncancelable⟩
  let held : List Frame := [.using (.bool true) release []]
  let token : Code := Routine.interrupting (.give .unit) 0
  let is (w : World) (control : Control) (stack : List Frame) : Watched :=
    ⟨⟨w, ⟨"caller", none⟩, ⟨control, stack⟩, []⟩, none⟩
  let waits (w : World) (x : Code) : Watched :=
    ⟨⟨w, ⟨"caller", none⟩, ⟨.code x, .node [] run :: held⟩, []⟩, some register⟩
  let ringing : World := { w with latches := #[.empty] }
  let guarded : World := { ringing with connections := #[.uncancelable, .active [token]] }
  have hcomposed : n.Composed :=
    .bracket (.pure _) (fun _ => .build (.async _)) fun _ _ => .build (.pure _)
  have outside : ∀ c : ConnectionId, false = true → c ≠ 1 := fun _ h => absurd h Bool.false_ne_true
  obtain ⟨hminds, hplay⟩ : s.Minds hosts 1 acts ∧ s.play hosts 1 acts =
      ([.acquired release (.bool true), .called (use (.bool true)), .called (register 0)],
        waits guarded (Suspension.waiting 1 0)) :=
    Watched.own_play (t := is w (.drive (.focus (.pure (.bool true)) []) masked)
      [.acquiring use release 1 []]) rfl (outside _) rfl <|
    Watched.own_play (t := is w (.code (.give (.ended (.completed (.bool true)) masked)))
      [.acquiring use release 1 []]) rfl (outside _) rfl <|
    Watched.own_play (t := is w (.drive (.focus (.bracketUse (.bool true) use release) []) run) [])
      rfl trivial rfl <|
    Watched.own_play (t := is w (.code (.build (.async register)))
      [.opening (.bool true) release [] run]) rfl (outside _) rfl <|
    Watched.own_play (t := is w (.drive (.focus (.async register) []) run) held) rfl trivial rfl <|
    Watched.own_play (t := waits w (Suspension.asking register 1)) rfl (outside _) rfl <|
    Watched.own_play (t := waits w (Suspension.opening register 1)) rfl
      (.inr ⟨nofun, rfl, .asking register⟩) rfl <|
    Watched.own_play (t := waits ringing (Suspension.pushing 1 0 token))
      rfl (.inl fun _ => nofun) rfl <|
    Watched.own_play (t := waits guarded (Suspension.waiting 1 0)) rfl
      (.inr ⟨nofun, rfl, .pushing 0 token⟩) rfl ⟨trivial, rfl⟩
  have hcancels : u.Cancels hosts run.connection [] (s.play hosts run.connection acts).1 :=
    hcomposed.run_cancels (by decide) rfl (fun _ _ _ => rfl) rfl hminds
  refine ⟨hcancels, ?_⟩
  have hu : u = waits guarded (Suspension.waiting 1 0) := congrArg Prod.snd hplay
  rw [hu, hplay]
  exact ⟨rfl, rfl, rfl, rfl⟩

/-- A release that panics ends a canceled run, and what is held outside is not released. -/
theorem Watched.not_leaves_of_panic :
    let outer : Value → ExitCase Value → Code := fun _ _ => .build (.pure .null)
    let inner : Value → ExitCase Value → Code := fun _ _ => .panic "release"
    let use : Value → Code := fun _ =>
      .build (.bracket (.pure (.bool true)) (fun v => .build (.pure v)) inner)
    let n : Node := .bracket (.pure (.bool false)) use outer
    let w : World := { World.start with connections := #[.uncancelable, .new] }
    let hosts : Hosts := fun _ _ => "worker"
    let s : Watched :=
      ⟨⟨w, ⟨"caller", none⟩, ⟨.drive (.focus n []) ⟨.inline, 1⟩, []⟩, []⟩, none⟩
    let acts : List Act := List.replicate 8 .own
    let u := (s.play hosts 1 acts).2
    let tail := (u.canceled 1).play hosts 1 acts
    n.Composed ∧ s.Minds hosts 1 acts ∧ u.relay.Point 1 ∧ (u.canceled 1).Minds hosts 1 acts ∧
      opened (s.play hosts 1 acts).1 = [(inner, .bool true), (outer, .bool false)] ∧
      tail.2.relay.Over ∧ tail.2.relay.activity = ⟨.ended (.error "release"), []⟩ ∧
      tail.1 = [.used .canceled, .releasing (.suspend (.panic "release")),
        .called (.panic "release")] ∧
      ¬ Unwound (opened (s.play hosts 1 acts).1) tail.1 := by
  intro outer inner use n w hosts s acts u tail
  let run : Run := ⟨.inline, 1⟩
  let masked : Run := ⟨.inline, .uncancelable⟩
  let leaf : Value → Code := fun v => .build (.pure v)
  let inside : Node := .bracket (.pure (.bool true)) leaf inner
  let held : Frame := .using (.bool false) outer []
  let releasing : Frame := .releasing .canceled 1 []
  let point : Control := .drive (.focus (.bracketUse (.bool true) leaf inner) []) run
  let after : World := { World.start with connections := #[.uncancelable, .canceled] }
  let is (w : World) (control : Control) (stack : List Frame) : Watched :=
    ⟨⟨w, ⟨"caller", none⟩, ⟨control, stack⟩, []⟩, none⟩
  have outside : ∀ c : ConnectionId, false = true → c ≠ 1 := fun _ h => absurd h Bool.false_ne_true
  obtain ⟨hminds, hu⟩ : s.Minds hosts 1 acts ∧ s.play hosts 1 acts =
      ([.acquired outer (.bool false), .called (use (.bool false)),
        .acquired inner (.bool true)], is w point [held]) :=
    own_play (t := is w (.drive (.focus (.pure (.bool false)) []) masked)
      [.acquiring use outer 1 []]) rfl (outside _) rfl <|
    own_play (t := is w (.code (.give (.ended (.completed (.bool false)) masked)))
      [.acquiring use outer 1 []]) rfl (outside _) rfl <|
    own_play (t := is w (.drive (.focus (.bracketUse (.bool false) use outer) []) run) [])
      rfl trivial rfl <|
    own_play (t := is w (.code (.build inside)) [.opening (.bool false) outer [] run])
      rfl (outside _) rfl <|
    own_play (t := is w (.drive (.focus inside []) run) [held]) rfl trivial rfl <|
    own_play (t := is w (.drive (.focus (.pure (.bool true)) []) masked)
      [.acquiring leaf inner 1 [], held]) rfl (outside _) rfl <|
    own_play (t := is w (.code (.give (.ended (.completed (.bool true)) masked)))
      [.acquiring leaf inner 1 [], held]) rfl (outside _) rfl <|
    own_play (t := is w point [held]) rfl trivial rfl ⟨trivial, rfl⟩
  obtain ⟨hminds', htail⟩ : ((is w point [held]).canceled 1).Minds hosts 1 acts ∧
      ((is w point [held]).canceled 1).play hosts 1 acts = ([.used .canceled,
        .releasing (.suspend (.panic "release")), .called (.panic "release")],
          is after (.ended (.error "release")) []) :=
    own_play (t := is after (.drive (.focus (.bracketRelease
      (.suspend (.panic "release")) .canceled) []) run) [held]) rfl (outside _) rfl <|
    own_play (t := is after (.drive (.focus (.suspend (.panic "release")) []) masked)
      [releasing, held]) rfl (outside _) rfl <|
    own_play (t := is after (.code (.panic "release")) [.node [] masked, releasing, held])
      rfl (outside _) rfl <|
    own_play (t := is after (.unwinding "release") [.node [] masked, releasing, held])
      rfl trivial rfl <|
    own_play (t := is after (.unwinding "release") [releasing, held]) rfl trivial rfl <|
    own_play (t := is after (.unwinding "release") [held]) rfl trivial rfl <|
    own_play (t := is after (.unwinding "release") []) rfl trivial rfl <|
    own_play (t := is after (.ended (.error "release")) []) rfl trivial rfl ⟨trivial, rfl⟩
  have hu' : u = is w point [held] := congrArg Prod.snd hu
  have htail' : tail = _ :=
    (congrArg (fun v => (Watched.canceled 1 v).play hosts 1 acts) hu').trans htail
  rw [hu, hu', htail']
  refine ⟨?_, hminds, ⟨rfl, _, _, rfl, rfl, rfl, rfl⟩, hminds', rfl, ⟨_, rfl, rfl⟩,
    rfl, rfl, ?_⟩
  · exact .bracket (.pure _) (fun _ => .build (.bracket (.pure _) (fun v => .build (.pure v))
      fun _ _ => .panic _)) fun _ _ => .build (.pure _)
  · rintro ⟨rest, ⟨cleanup, more, -, -, rfl⟩, hevents⟩
    simp at hevents

end Effects
