import Effects.Proofs.Shield.Combinators
import Effects.Proofs.Shield.Sheltered

/-!
Uncancelable regions, acquires and releases: whoever cancels the run meanwhile, and whenever, they
go as if nobody had, and then the run has its connection back.
-/

namespace Effects

variable {c : ConnectionId} {own : FiberId → Prop} {hosts : Hosts} {events : List Event}
  {a : Activity} {s : Relay}

namespace Activity

/-- Has just begun with a region of the run, which goes on with the connection after it. -/
inductive Begins (c : ConnectionId) (n : Node) : Activity → Prop
  | uncancelable (context : ContextId) (next : List Cont) (fs : List Frame) :
      Begins c n ⟨.drive (.focus n (.restore c :: next)) ⟨context, .uncancelable⟩, fs⟩
  | acquire (context : ContextId) (use : Value → Code)
      (release : Value → ExitCase Value → Code) (next : List Cont) (fs : List Frame) :
      Begins c n ⟨.drive (.focus n []) ⟨context, .uncancelable⟩,
        .acquiring use release c next :: fs⟩
  | release (context : ContextId) (exit : Exit) (next : List Cont) (fs : List Frame) :
      Begins c n ⟨.drive (.focus n []) ⟨context, .uncancelable⟩, .releasing exit c next :: fs⟩

theorem Begins.apart {n : Node} (hb : a.Begins c n) (hn : n.Apart c own)
    (h0 : c ≠ .uncancelable)
    (hw : ∀ m run, a.control = .drive m run → Within c run.connection m.conts a.stack) :
    a.Apart c own (Within c c) := by
  cases hb with
  | uncancelable context next fs =>
    have hregion := hw _ _ rfl
    cases hregion with
    | cont hcont => exact absurd rfl (hcont c)
    | restore h => exact .focus hn h0.symm (.region h)
  | acquire context use release next fs =>
    have hregion := hw _ _ rfl
    cases hregion with
    | acquiring _ _ h => exact .focus hn h0.symm (.acquire use release h)
  | release context exit next fs =>
    have hregion := hw _ _ rfl
    cases hregion with
    | releasing _ h => exact .focus hn h0.symm (.release exit h)

end Activity

/-- What becomes of a run that is canceled while it is in a region, whatever has been seen of it
before. -/
structure Relay.Shields (hosts : Hosts) (c : ConnectionId) (events : List Event) (s : Relay)
    (turns : List Turn) (seen : List Event) (v : Relay) : Prop where
  /-- It goes as it does if nobody asks to cancel it, and no such request comes through. -/
  same : s.plays c hosts (calm c) (turns.filter (!·.isCancel)) = (seen, v.calm c)
  /-- Where nobody else cancels it, that is the run without the requests. -/
  alone : (∀ before, before <+: turns.filter (!·.isCancel) →
      (s.plays c hosts id before).2.world.isCanceled c = false) →
    s.plays c hosts id (turns.filter (!·.isCancel)) = (seen, v.calm c)
  /-- It stays in the region, or leaves it with its connection back in place. -/
  leaves : v.flat.shielded c = true ∨ v.flat.Back c
  /-- The connection has been canceled, or is as it was. -/
  known : v = v.calm c ∨ v = (v.calm c).canceled c
  /-- A run that has been canceled goes on as it does otherwise, up to the first point at which it
  asks, and from there on it leaves; or it meets no such point. -/
  cancels : v = (v.calm c).canceled c → ∀ acts, (⟨v, none⟩ : Watched).Minds hosts c acts →
    ((⟨v.calm c, none⟩ : Watched).Clear hosts c acts ∧
      (⟨v, none⟩ : Watched).play hosts c acts =
        (((⟨v.calm c, none⟩ : Watched).play hosts c acts).1,
          ((⟨v.calm c, none⟩ : Watched).play hosts c acts).2.canceled c)) ∨
    ∃ before after, acts = before ++ .own :: after ∧
      (⟨v.calm c, none⟩ : Watched).Clear hosts c before ∧
      ((⟨v, none⟩ : Watched).play hosts c before).2.relay.Point c ∧
      ((⟨v, none⟩ : Watched).play hosts c before).1 =
        ((⟨v.calm c, none⟩ : Watched).play hosts c before).1 ∧
      ((⟨v, none⟩ : Watched).play hosts c before).2.Leaves hosts c
        (opened (events ++ seen ++ ((⟨v, none⟩ : Watched).play hosts c before).1))

theorem Relay.Sheltered.outcome (h : s.Sheltered c own events) (h0 : c ≠ .uncancelable)
    (hc : s.world.connections[c]? = some (.active []))
    (hhosts : ∀ w s d, hosts (w.setConnection c s) d = hosts w d) {turns : List Turn}
    (hi : s.Inside c hosts turns) {seen : List Event} {v : Relay}
    (hv : s.plays c hosts id turns = (seen, v)) : s.Shields hosts c events turns seen v := by
  obtain ⟨hlater, hsame⟩ := h.plays hhosts h0 hi
  rw [hv] at hlater hsame
  have hfilter : s.plays c hosts (calm c) (turns.filter (!·.isCancel)) = (seen, v.calm c) := by
    rw [plays_filter hosts turns (calm_of hc)]
    exact calm_of hc ▸ hsame
  refine ⟨hfilter, fun hquiet => ?_, ?_, calm_or_canceled hlater.world, fun hcanceled acts hm => ?_⟩
  · have halone := h.plays_alone hhosts h0 hi ((calm_of hc).symm ▸ hquiet)
    rw [calm_of hc] at halone
    exact halone.trans hfilter
  · obtain ha | hleft := hlater.keeps
    · exact .inl (ha.shielded .nil)
    · exact .inr (hleft.back h0)
  · have hwatched : (⟨v, none⟩ : Watched) = (⟨v.calm c, none⟩ : Watched).canceled c :=
      congrArg (fun s => (⟨s, none⟩ : Watched)) hcanceled
    rw [hwatched] at hm ⊢
    obtain hclear | ⟨before, after, hacts, hclear, hpoint, hplay, hleaves⟩ :=
      hlater.course.asked h0 hhosts (.inl rfl) hm
    · exact .inl hclear
    · refine .inr ⟨before, after, hacts, hclear, ?_, ?_, ?_⟩ <;> rw [hplay]
      · exact hpoint
      · exact hleaves

/-- An uncancelable region, an acquire or a release of a run, from the state in which the run begins
with it. -/
theorem Node.Composed.shields {n P : Node} (hn : n.Composed) {w : World} {place : Place} {run : Run}
    (h0 : run.connection ≠ .uncancelable)
    (hc : w.connections[run.connection]? = some (.active []))
    (hhosts : ∀ w s d, hosts (w.setConnection run.connection s) d = hosts w d) {s : Watched}
    (hs : s = ⟨⟨w, place, ⟨.drive (.focus n []) run, []⟩, []⟩, none⟩) {acts : List Act}
    (hm : s.Minds hosts run.connection acts) {u : Relay}
    (hu : u = (s.play hosts run.connection acts).2.relay)
    (hb : u.flat.Begins run.connection P) (hi : u.flat.inside = false)
    (hP : P.Apart run.connection own) (hw : u.world.Apart run.connection own) {turns : List Turn}
    (hinside : u.Inside run.connection hosts turns) {seen : List Event} {v : Relay}
    (hv : u.plays run.connection hosts id turns = (seen, v)) :
    u.Shields hosts run.connection (s.play hosts run.connection acts).1 turns seen v := by
  have hcourse : Course run.connection [] [] s := hs ▸ hn.course hc
  have hbegun := hcourse.play hm
  rw [List.nil_append] at hbegun
  obtain ⟨m, inner, hcontrol⟩ : ∃ m inner, u.activity.control = .drive m inner := by
    generalize ha : u.flat = a at hb
    cases hb <;> exact ⟨_, _, congrArg Activity.control ha⟩
  generalize (s.play hosts run.connection acts).2 = t at hu hbegun
  obtain ⟨t, awaited⟩ := t
  obtain rfl : u = t := hu
  have hunderway := hbegun.drives hcontrol
  obtain ⟨rfl, hwithin⟩ := hunderway.drives hi hcontrol
  have hactive := hunderway.active hi hcontrol
  have hapart : u.flat.Apart run.connection own (Within run.connection run.connection) := by
    refine hb.apart hP h0 fun m' inner' hm' => ?_
    obtain ⟨rfl, rfl⟩ := Control.drive.inj (hcontrol.symm.trans hm')
    exact hwithin
  have hsheltered : u.Sheltered run.connection own (s.play hosts run.connection acts).1 :=
    ⟨hw, .inl hapart, (Relay.calm_of hactive).symm ▸ hbegun⟩
  exact hsheltered.outcome h0 hactive hhosts hinside hv

/-- A group in an uncancelable region, canceled as it begins. -/
theorem Node.Composed.shields_group :
    let P : Node := (Effect.parMap₂ (.pure 1 : Effect Unit Nat) (.pure 2) Nat.add).node
    let register : LatchId → Code := fun l => .guard (some (Routine.interrupting (.give .unit) l))
    let n : Node := .flatMap (.uncancelable P) fun _ => .build (.async register)
    let w : World := { World.start with connections := #[.uncancelable, .new] }
    let hosts : Hosts := fun _ _ => "worker"
    let s : Watched :=
      ⟨⟨w, ⟨"caller", none⟩, ⟨.drive (.focus n []) ⟨.inline, 1⟩, []⟩, []⟩, none⟩
    let u := (s.play hosts 1 [.own, .own]).2.relay
    let turns : List Turn := .cancel :: List.replicate 11 .own ++ List.replicate 6 (.thread 2) ++
      List.replicate 6 (.thread 3) ++ List.replicate 6 .own
    let (seen, v) := u.plays 1 hosts id turns
    u.Shields hosts 1 (s.play hosts 1 [.own, .own]).1 turns seen v ∧ u.Inside 1 hosts turns ∧
      v.flat.shielded 1 = false ∧ v.world.isCanceled 1 = true := by
  intro P register n w hosts s u turns
  have hcomposed : n.Composed := by
    refine .flatMap (.uncancelable (.parMap _ fun vs => ?_)) fun _ => .build (.async _)
    split
    · exact .build (.pure _)
    · exact .panic _
  have outside : false = true → (1 : ConnectionId) ≠ 1 := fun h => absurd h Bool.false_ne_true
  have hminds : s.Minds hosts 1 [.own, .own] := ⟨outside, outside, trivial⟩
  have hapart : P.Apart 1 fun _ => False := Effect.parMap₂_apart _ (.pure _) (.pure _)
  have h0 : (Run.mk .inline 1).connection ≠ .uncancelable := by decide
  have hinside : u.Inside 1 hosts turns := by decide +kernel
  refine ⟨?_, hinside, ?_⟩
  · exact hcomposed.shields h0 rfl (fun _ _ _ => rfl) rfl hminds rfl (.uncancelable _ _ _) rfl
      hapart World.start_apart hinside rfl
  · decide +kernel

/-- A run that is canceled in an uncancelable region, and does not end as canceled at the first
point after it, since a release panics. -/
theorem Relay.not_canceled_of_panic :
    let release : Value → ExitCase Value → Code := fun _ _ => .panic "release"
    let register : LatchId → Code := fun l => .guard (some (Routine.interrupting (.give .unit) l))
    let after : Value → Code := fun _ => .build (.async register)
    let use : Value → Code := fun _ => .build (.flatMap (.uncancelable (.pure .null)) after)
    let n : Node := .bracket (.pure .null) use release
    let w : World := { World.start with connections := #[.uncancelable, .new] }
    let hosts : Hosts := fun _ _ => "worker"
    let s : Watched :=
      ⟨⟨w, ⟨"caller", none⟩, ⟨.drive (.focus n []) ⟨.inline, 1⟩, []⟩, []⟩, none⟩
    let acts : List Act := List.replicate 7 .own
    let u := (s.play hosts 1 acts).2.relay
    let v := (u.plays 1 hosts id [.cancel, .own]).2
    let before : List Act := List.replicate 2 .own
    let rest : List Act := List.replicate 10 .own
    let point := ((⟨v, none⟩ : Watched).play hosts 1 before).2
    let last := (point.play hosts 1 rest).2.relay
    n.Composed ∧ s.Minds hosts 1 acts ∧ u.flat.Begins 1 (.pure .null) ∧
      u.Inside 1 hosts [.cancel, .own] ∧ v.flat.Back 1 ∧ v = (v.calm 1).canceled 1 ∧
      (⟨v, none⟩ : Watched).Minds hosts 1 before ∧ point.relay.Point 1 ∧
      point.Minds hosts 1 rest ∧ last.Over ∧
      last.activity = ⟨.ended (.error "release"), []⟩ := by
  intro release register after use n w hosts s acts u v before rest point last
  let run : Run := ⟨.inline, 1⟩
  let masked : Run := ⟨.inline, .uncancelable⟩
  let body : Node := .flatMap (.uncancelable (.pure .null)) after
  let held : List Frame := [.using .null release []]
  let releasing : Frame := .releasing .canceled 1 []
  let region : Control := .drive (.focus (.pure .null) [.restore 1, .flatMap after]) masked
  let w' : World := { World.start with connections := #[.uncancelable, .canceled] }
  let is (w : World) (control : Control) (stack : List Frame) : Relay :=
    ⟨w, ⟨"caller", none⟩, ⟨control, stack⟩, []⟩
  let bare (w : World) (control : Control) (stack : List Frame) : Watched :=
    ⟨is w control stack, none⟩
  let left : Control := .drive (.unwind (.completed .null) [.flatMap after]) run
  let asks : Control := .drive (.focus (.async register) []) run
  have outside : ∀ c : ConnectionId, false = true → c ≠ 1 := fun _ h => absurd h Bool.false_ne_true
  obtain ⟨hminds, hplay⟩ : s.Minds hosts 1 acts ∧ s.play hosts 1 acts =
      ([.acquired release .null, .called (use .null)], bare w region held) :=
    Watched.own_play (t := bare w (.drive (.focus (.pure .null) []) masked)
      [.acquiring use release 1 []]) rfl (outside _) rfl <|
    Watched.own_play (t := bare w (.code (.give (.ended (.completed .null) masked)))
      [.acquiring use release 1 []]) rfl (outside _) rfl <|
    Watched.own_play (t := bare w (.drive (.focus (.bracketUse .null use release) []) run) [])
      rfl trivial rfl <|
    Watched.own_play (t := bare w (.code (.build body)) [.opening .null release [] run])
      rfl (outside _) rfl <|
    Watched.own_play (t := bare w (.drive (.focus body []) run) held) rfl trivial rfl <|
    Watched.own_play (t := bare w (.drive (.focus (.uncancelable (.pure .null)) [.flatMap after])
      run) held) rfl (outside _) rfl <|
    Watched.own_play (t := bare w region held) rfl (outside _) rfl ⟨trivial, rfl⟩
  have hu : u = is w region held := congrArg (fun p => p.2.relay) hplay
  have hv : v = is w' left held :=
    congrArg (fun u : Relay => (u.plays 1 hosts id [.cancel, .own]).2) hu
  obtain ⟨hbefore, hpoint⟩ : (bare w' left held).Minds hosts 1 before ∧
      (bare w' left held).play hosts 1 before = ([.called (after .null)], bare w' asks held) :=
    Watched.own_play (t := bare w' (.code (.build (.async register))) (.node [] run :: held))
      rfl (outside _) rfl <|
    Watched.own_play (t := bare w' asks held) rfl trivial rfl ⟨trivial, rfl⟩
  obtain ⟨hrest, hlast⟩ : (bare w' asks held).Minds hosts 1 rest ∧
      (bare w' asks held).play hosts 1 rest = ([.used .canceled,
        .releasing (.suspend (.panic "release")), .called (.panic "release")],
          bare w' (.ended (.error "release")) []) :=
    Watched.own_play (t := ⟨is w' (.code (Suspension.asking register 1)) (.node [] run :: held),
      some register⟩) rfl (outside _) rfl <|
    Watched.own_play (t := ⟨is w' (.code (.give (.outcome .canceled))) (.node [] run :: held),
      some register⟩) rfl (.inr ⟨nofun, rfl, .asking register⟩) rfl <|
    Watched.own_play (t := bare w' (.code (.give (.ended .canceled run))) held)
      rfl trivial rfl <|
    Watched.own_play (t := bare w' (.drive (.focus (.bracketRelease
      (.suspend (.panic "release")) .canceled) []) run) []) rfl trivial rfl <|
    Watched.own_play (t := bare w' (.drive (.focus (.suspend (.panic "release")) []) masked)
      [releasing]) rfl (outside _) rfl <|
    Watched.own_play (t := bare w' (.code (.panic "release")) [.node [] masked, releasing])
      rfl (outside _) rfl <|
    Watched.own_play (t := bare w' (.unwinding "release") [.node [] masked, releasing])
      rfl trivial rfl <|
    Watched.own_play (t := bare w' (.unwinding "release") [releasing]) rfl trivial rfl <|
    Watched.own_play (t := bare w' (.unwinding "release") []) rfl trivial rfl <|
    Watched.own_play (t := bare w' (.ended (.error "release")) []) rfl trivial rfl ⟨trivial, rfl⟩
  have hpoint' : point = bare w' asks held :=
    (congrArg (fun v : Relay => ((⟨v, none⟩ : Watched).play hosts 1 before).2) hv).trans
      (congrArg Prod.snd hpoint)
  have hlast' : last = is w' (.ended (.error "release")) [] :=
    (congrArg (fun t : Watched => (t.play hosts 1 rest).2.relay) hpoint').trans
      (congrArg (fun p => p.2.relay) hlast)
  have hcomposed : n.Composed := by
    refine .bracket (.pure _) (fun _ => .build (.flatMap (.uncancelable (.pure _)) fun _ => ?_))
      fun _ _ => .panic _
    exact .build (.async _)
  rw [hlast', hpoint', hv, hu]
  refine ⟨hcomposed, hminds, .uncancelable _ _ _, ⟨nofun, fun _ => rfl, trivial⟩,
    ⟨rfl, rfl, fun run hrun => ?_⟩, rfl, hbefore, ⟨rfl, _, _, rfl, rfl, rfl, rfl⟩, hrest,
    ⟨_, rfl, rfl⟩, rfl⟩
  exact Option.some.inj hrun ▸ rfl

end Effects
