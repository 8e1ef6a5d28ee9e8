import Effects.Proofs.Group.Answered
import Effects.Proofs.Run.Drives
import Effects.Proofs.Yield.Running
import Mathlib.Tactic.IntervalCases

/-!
Groups among whose branches are groups. A branch that runs a group of its own opens what it needs
beside what is there, and leaves to the outer group what is the outer group's; the exits of the
inner branches are what it finds in their callbacks.
-/

namespace Effects.Gathering

variable {s t : Scene} {seen : List Sign} {place : Place} {w w' : World} {fs : List Frame}

/-- One branch among the others of the scene, and the world as it is then. -/
def Scene.at (t : Scene) (before after : List Branch) (place : Place) (w : World) (a : Activity) :
    Scene :=
  { t with world := w, branches := before ++ ⟨place, a⟩ :: after }

variable {before after : List Branch}

/-- A branch performs an operation within its computation. -/
theorem Runs.performs {op : Op} {next : Reply → Code} {r : Reply}
    (h : Runs s seen (t.at before after place w ⟨.code (.perform op next), fs⟩))
    (hfs : 2 ≤ fs.length) (hperform : w.perform place op = (w', .reply r))
    (hspares : Spares t.conns t.cell t.latches op)
    (hdelivers : ∀ l ∈ t.latches, w.delivered? l op = none) :
    Runs s seen (t.at before after place w' ⟨.code (next r), fs⟩) := by
  have hsigns : signs w before.length ⟨.code (.perform op next), fs⟩ = [] := by
    refine signs_eq_nil ?_ fun next => ?_
    all_goals
      rintro rfl
      simp at hfs
  have hact : w.act place ⟨.code (.perform op next), fs⟩ = (w', ⟨.code (next r), fs⟩) := by
    simp only [World.act, hperform]
    rfl
  have hmove := h.move (.branch rfl (.inr rfl) fun _ op' hop => by
    obtain rfl := Option.some.inj hop
    exact ⟨hspares, hdelivers⟩)
  change Runs s (seen ++ signs w before.length _) (t.at before after place
    (w.act place ⟨.code (.perform op next), fs⟩).1 (w.act place ⟨.code (.perform op next), fs⟩).2)
      at hmove
  rwa [hsigns, List.append_nil, hact] at hmove

/-- Another thread calls back, but none of the group's branches. -/
theorem Runs.settled {a : Activity} {l : LatchId} (r : Except String Reply)
    (h : Runs s seen (t.at before after place w a)) (hl : l ∉ t.latches) :
    Runs s seen (t.at before after place (w.settle l r) a) := by
  have hmove := h.move (.other place ⟨.code (.perform (.settle l r) .give), []⟩ fun op hop => by
    obtain rfl := Option.some.inj hop
    refine ⟨trivial, fun l' hl' => if_neg ?_⟩
    rintro rfl
    exact hl hl')
  rwa [List.append_nil] at hmove

/-- More has been opened, and no connection has been canceled. -/
structure Grows (w w' : World) : Prop where
  contexts : ∀ {c : ContextId} {context : Context},
    w.contexts[c]? = some context → w'.contexts[c]? = some context
  connections : ∀ {d : ConnectionId}, w.isCanceled d = false → w'.isCanceled d = false
  latches : w.latches.size ≤ w'.latches.size

namespace Grows

theorem trans {w'' : World} (h : Grows w w') (h' : Grows w' w'') : Grows w w'' where
  contexts hc := h'.contexts (h.contexts hc)
  connections hd := h'.connections (h.connections hd)
  latches := Nat.le_trans h.latches h'.latches

theorem of_eq (hcontexts : w'.contexts = w.contexts) (hconnections : w'.connections = w.connections)
    (hlatches : w'.latches.size = w.latches.size) : Grows w w' where
  contexts hc := by rwa [hcontexts]
  connections hd := by rwa [World.isCanceled, hconnections]
  latches := Nat.le_of_eq hlatches.symm

theorem opened : Grows w { w with connections := w.connections.push .new } where
  contexts := id
  connections {d} h := by
    rw [World.isCanceled, Array.getElem?_push]
    by_cases hd : d = w.connections.size
    · rw [if_pos hd]
      rfl
    · rw [if_neg hd]
      exact h
  latches := Nat.le_refl _

theorem setConnection (c : ConnectionId) {s : Connection Code}
    (h : w.isCanceled c = false → s.isCanceled = false) : Grows w (w.setConnection c s) where
  contexts := id
  connections {d} hd := by
    rw [World.isCanceled, World.setConnection, Array.getElem?_setIfInBounds]
    by_cases hc : c = d
    · subst hc
      rw [if_pos rfl]
      by_cases hsize : c < w.connections.size
      · rw [if_pos hsize]
        exact h hd
      · rw [if_neg hsize]
    · rw [if_neg hc]
      exact hd
  latches := Nat.le_refl _

theorem settle (l : LatchId) (r : Except String Reply) : Grows w (w.settle l r) :=
  of_eq rfl rfl Array.size_modify

theorem setLatch (l : LatchId) (latch : Latch (Except String Reply)) :
    Grows w (w.setLatch l latch) :=
  of_eq rfl rfl Array.size_setIfInBounds

/-- A token is taken out, if there is one. -/
theorem pop (w : World) (c : ConnectionId) : Grows w (w.onConnection c .pop).1 := by
  refine setConnection c fun hc => ?_
  rw [World.isCanceled] at hc
  cases hs : w.connections[c]? with
  | none => rfl
  | some s =>
    rw [hs] at hc
    cases s with
    | uncancelable => rfl
    | active tokens => cases tokens <;> rfl
    | canceled => cases hc

end Grows

section Inner

variable {finish : List Value → Code} {run : Run} {g : Group} {context : Context}

/-- A thread can be had for each branch of a group on the context. -/
def Hosts (context : Context) (label : String) : Prop :=
  Context.nameFault? (context.derive label).threadName = none ∧
    (context.derive label).canSpawn = true

/-- The caller of a group dispatches a branch. -/
theorem Runs.forks {node : Node} {i : Nat} {rest : List (Node × Nat)} {callbacks : List LatchId}
    (h : Runs s seen (t.at before after place w
      ⟨.code (forking finish run g ((node, i) :: rest) callbacks), fs⟩)) (hfs : 2 ≤ fs.length)
    (hhosts : Hosts context ("par-" ++ toString i))
    (hc : w.contexts[run.context]? = some context) :
    ∃ w', Runs s seen (t.at before after place w'
        ⟨.code (forking finish run g rest (callbacks ++ [w.latches.size])), fs⟩) ∧
      w'.latches = w.latches.push .empty ∧ Grows w w' := by
  rw [forking_cons] at h
  have hlatch := h.performs hfs rfl trivial fun _ _ => rfl
  have hnamed := hlatch.performs hfs rfl trivial fun _ _ => rfl
  rw [hc, Option.getD_some] at hnamed
  have hspawned := hnamed.performs hfs
    (World.execute_spawns _ Array.getElem?_push_size rfl hhosts.1 hhosts.2) trivial fun _ _ => rfl
  refine ⟨_, hspawned, rfl, fun {c context'} h' => ?_, id, ?_⟩
  · obtain ⟨hsize, -⟩ := Array.getElem?_eq_some_iff.1 h'
    show ((w.contexts.push _).setIfInBounds w.contexts.size _)[c]? = _
    rw [Array.getElem?_setIfInBounds_ne (Nat.ne_of_gt hsize), Array.getElem?_push,
      if_neg (Nat.ne_of_lt hsize), h']
  · exact Nat.le_of_lt (Array.size_push _ ▸ Nat.lt_succ_self _)

theorem push_replies (place : Place) {d : ConnectionId} (token : Code) (h : w.isCanceled d = false) :
    ∃ w', w.perform place (.connection d (.push token)) = (w', .reply .unit) ∧
      w'.latches = w.latches ∧ Grows w w' := by
  simp only [World.perform, World.onConnection]
  cases hd : w.connections[d]? with
  | none => exact ⟨_, rfl, rfl, .setConnection d fun _ => rfl⟩
  | some s =>
    cases s with
    | uncancelable | active => exact ⟨_, rfl, rfl, .setConnection d fun _ => rfl⟩
    | canceled => simp [World.isCanceled, hd, Connection.isCanceled] at h

/-- The caller of a group of two opens what the branches are given. -/
theorem Runs.opens {x y : Node}
    (h : Runs s seen (t.at before after place w ⟨.code (Group.code [x, y] finish run), fs⟩))
    (hfs : 2 ≤ fs.length) (hcanceled : w.isCanceled run.connection = false) :
    ∃ g w', Runs s seen (t.at before after place w'
        ⟨.code (forking finish run g [(x, 0), (y, 1)] []), fs⟩) ∧
      w'.latches = w.latches ∧ Grows w w' := by
  rw [code_eq, show List.range [x, y].length = [0, 1] from rfl, opening_cons] at h
  have hfirst := h.performs hfs rfl trivial fun _ _ => rfl
  rw [opening_cons] at hfirst
  have hsecond := hfirst.performs hfs rfl trivial fun _ _ => rfl
  rw [opening_nil] at hsecond
  have hcell := hsecond.performs hfs rfl trivial fun _ _ => rfl
  let opened : World :=
    { w with
      connections := (w.connections.push .new).push .new
      cells := w.cells.push ⟨none, 0⟩ }
  have hgrows : Grows w opened := Grows.opened.trans (Grows.opened.trans (.of_eq rfl rfl rfl))
  obtain ⟨w', hpush, hlatches, hgrows'⟩ :=
    push_replies place _ (hgrows.connections hcanceled)
  exact ⟨_, w', hcell.performs hfs hpush trivial fun _ _ => rfl, hlatches, hgrows.trans hgrows'⟩

theorem Runs.collects {callbacks : List LatchId} {exits : List Exit} {l : LatchId} {exit : Exit}
    (h : Runs s seen (t.at before after place w
      ⟨.code (awaiting finish run g (l :: callbacks) exits), fs⟩)) (hfs : 2 ≤ fs.length)
    (hl : w.latches[l]? = some (.full (.ok (.outcome exit)))) (hnot : l ∉ t.latches) :
    Runs s seen (t.at before after place (w.setLatch l .drained)
      ⟨.code (awaiting finish run g callbacks (exits ++ [exit])), fs⟩) := by
  have hperform : w.perform place (.await l) =
      (w.setLatch l .drained, .reply (.caught (.ok (.outcome exit)))) := by
    simp [World.perform, hl, Latch.item?, World.replying]
  rw [awaiting_cons] at h
  exact h.performs hfs hperform hnot fun _ _ => rfl

theorem Runs.concludes {exits : List Exit} {values : List Value}
    (h : Runs s seen (t.at before after place w ⟨.code (awaiting finish run g [] exits), fs⟩))
    (hfs : 2 ≤ fs.length) (hvalues : Group.values? exits = some values) :
    ∃ w', Runs s seen (t.at before after place w' ⟨.code (finish values), fs⟩) ∧ Grows w w' := by
  rw [awaiting_nil] at h
  have hpopped := h.performs hfs rfl trivial fun _ _ => rfl
  have hlooked := hpopped.performs hfs rfl trivial fun _ _ => rfl
  rw [answering, hvalues] at hlooked
  exact ⟨_, hlooked, .pop w run.connection⟩

end Inner

/-- How the computation of a branch comes to a value in a scene: by itself, or it is a group of two
whose branches have come to values from which it makes its own. -/
inductive Plays : Node → Value → Prop
  | plain {node : Node} {v : Value} (h : node.Plain v) : Plays node v
  | pair (x y : Node) {combine : List Value → Code} {u v z : Value}
      (h : combine [u, v] = .build (.pure z)) : Plays (.parMap [x, y] combine) z

/-- The branch can be run to its end in the scene. -/
structure Welcomes (t : Scene) (run : Run) : Prop where
  hosts : ∃ context, t.world.contexts[run.context]? = some context ∧
    Hosts context "par-0" ∧ Hosts context "par-1"
  spared : t.world.isCanceled run.connection = false
  latches : ∀ l ∈ t.latches, l < t.world.latches.size

theorem Welcomes.grows {run : Run} (h : Welcomes t run) (hw : Grows t.world w) {branches}
    : Welcomes { t with world := w, branches } run := by
  obtain ⟨⟨context, hc, hhosts⟩, hspared, hlatches⟩ := h
  exact ⟨⟨context, hw.contexts hc, hhosts⟩, hw.connections hspared,
    fun l hl => Nat.lt_of_lt_of_le (hlatches l hl) hw.latches⟩

/-- The callbacks of a group's two branches are called, and the group comes to the values. -/
theorem Runs.joins {finish : List Value → Code} {run : Run} {g : Group} {u v : Value}
    {l l' : LatchId} (h : Runs s seen (t.at before after place w
      ⟨.code (awaiting finish run g [l, l'] []), fs⟩)) (hfs : 2 ≤ fs.length)
    (hl : w.latches[l]? = some .empty) (hl' : w.latches[l']? = some .empty) (hne : l ≠ l')
    (hnot : l ∉ t.latches) (hnot' : l' ∉ t.latches) :
    ∃ w', Runs s seen (t.at before after place w' ⟨.code (finish [u, v]), fs⟩) ∧ Grows w w' := by
  let called := (w.settle l (.ok (.outcome (.completed u)))).settle l'
    (.ok (.outcome (.completed v)))
  have hcalled : called.latches[l]? = some (.full (.ok (.outcome (.completed u)))) := by
    rw [World.settle_latch (World.settle_latch hl _ _), if_pos rfl, if_neg hne.symm]
    rfl
  have hcalled' : called.latches[l']? = some (.full (.ok (.outcome (.completed v)))) := by
    rw [World.settle_latch (World.settle_latch hl' _ _), if_neg hne, if_pos rfl]
    rfl
  have hfirst := ((h.settled _ hnot).settled _ hnot').collects hfs hcalled hnot
  have hsecond := hfirst.collects hfs
    ((Array.getElem?_setIfInBounds_ne hne).trans hcalled') hnot'
  obtain ⟨w', hw', hgrows⟩ := hsecond.concludes hfs
    (show Group.values? [.completed u, .completed v] = some [u, v] from rfl)
  exact ⟨w', hw', (Grows.settle l _).trans ((Grows.settle l' _).trans
    ((Grows.setLatch l _).trans ((Grows.setLatch l' _).trans hgrows)))⟩

/-- A step of the branch that shows nothing. -/
theorem Runs.goes {a b : Activity} (h : Runs s seen (t.at before after place w a))
    (hcalm : calm a = true) (hsigns : signs w before.length a = []) (hact : w.act place a = (w', b)) :
    Runs s seen (t.at before after place w' b) := by
  have hran := h.runs before rfl hcalm
  change Runs s (seen ++ signs w before.length a)
    (t.at before after place (w.act place a).1 (w.act place a).2) at hran
  rwa [hsigns, List.append_nil, hact] at hran

/-- A branch whose computation is pure comes to its value, in whatever it is a part of. -/
theorem Runs.reckons {node : Node} {v : Value} {next : List Cont} {run : Run}
    (hplain : node.Plain v) (hfs : fs ≠ []) (hcurrent : w.isCurrent place.home run.context = true)
    (h : Runs s seen (t.at before after place w ⟨.drive (.focus node next) run, fs⟩)) :
    Runs s seen (t.at before after place w ⟨.drive (.focus (.pure v) next) run, fs⟩) := by
  have hdrives : ∀ {m b}, m.step (w.surroundings place.home) run = b →
      Runs s seen (t.at before after place w ⟨.drive m run, fs⟩) →
      Runs s seen (t.at before after place w (Activity.after b fs)) := by
    rintro m b rfl hm
    exact hm.goes (by cases fs <;> simp_all [calm, Activity.op?]) rfl
      (by simp [World.act, hcurrent])
  have hbuilds : ∀ {node next},
      Runs s seen (t.at before after place w ⟨.code (.build node), .node next run :: fs⟩) →
      Runs s seen (t.at before after place w ⟨.drive (.focus node next) run, fs⟩) :=
    fun hm => hm.goes rfl rfl rfl
  have hinto : ∀ {node next}, Runs s seen (t.at before after place w
        (Activity.after (Machine.continueInto (w.surroundings place.home) (.build node) next run)
          fs)) →
      Runs s seen (t.at before after place w ⟨.drive (.focus node next) run, fs⟩) := by
    intro node next hm
    rw [Machine.continueInto, World.surroundings, if_pos hcurrent] at hm
    exact hbuilds hm
  induction hplain generalizing next with
  | pure v => exact h
  | map _ _ ih ih' | flatMap _ _ ih ih' => exact ih' (hinto (hdrives rfl (ih (hdrives rfl h))))
  | suspend _ ih => exact ih (hbuilds (hdrives rfl h))

/-- A branch that runs a group of two comes to the value of the group. -/
theorem Runs.meets {run : Run} {a b : Node} {combine : List Value → Code} {u v z : Value}
    (h : Runs s seen (t.at before after place t.world
      ⟨.drive (.focus (.parMap [a, b] combine) []) run, fs⟩)) (hfs : fs ≠ [])
    (hhome : place.home = some run.context) (hw : Welcomes t run)
    (hcombine : combine [u, v] = .build (.pure z)) :
    ∃ w', Runs s seen (t.at before after place w' ⟨.drive (.focus (.pure z) []) run, fs⟩) ∧
      Grows t.world w' := by
  obtain ⟨⟨context, hc, hhosts, hhosts'⟩, hspared, hbound⟩ := hw
  have hlen : 2 ≤ (Frame.node [] run :: fs).length := by
    cases fs with
    | nil => exact absurd rfl hfs
    | cons => simp
  have hcurrent : t.world.isCurrent place.home run.context = true :=
    hhome ▸ Spot.isCurrent_self t.world run.context
  have hasked : Runs s seen (t.at before after place t.world
      ⟨.code (Group.code [a, b] combine run), .node [] run :: fs⟩) :=
    h.goes (by cases fs <;> simp_all [calm, Activity.op?]) rfl
      (by simp [World.act, hcurrent, Machine.step, Activity.after])
  obtain ⟨g, w₁, hopened, hlatches₁, hgrows₁⟩ := hasked.opens hlen hspared
  obtain ⟨w₂, hforked, hlatches₂, hgrows₂⟩ := hopened.forks hlen hhosts (hgrows₁.contexts hc)
  obtain ⟨w₃, hforked', hlatches₃, hgrows₃⟩ :=
    hforked.forks hlen hhosts' (hgrows₂.contexts (hgrows₁.contexts hc))
  rw [forking_nil] at hforked'
  have hnew : w₁.latches.size ∉ t.latches := fun hl =>
    Nat.lt_irrefl _ (hlatches₁ ▸ hbound _ hl)
  have hnew' : w₂.latches.size ∉ t.latches := fun hl => by
    have hlt := hbound _ hl
    rw [hlatches₂, Array.size_push, hlatches₁] at hlt
    exact Nat.lt_irrefl _ (Nat.lt_of_succ_lt hlt)
  have hne : w₁.latches.size ≠ w₂.latches.size := by
    rw [hlatches₂, Array.size_push]
    exact Nat.ne_of_lt (Nat.lt_succ_self _)
  have hempty : w₃.latches[w₁.latches.size]? = some .empty := by
    rw [hlatches₃, Array.getElem?_push, if_neg hne, hlatches₂, Array.getElem?_push_size]
  have hempty' : w₃.latches[w₂.latches.size]? = some .empty := by
    rw [hlatches₃, Array.getElem?_push_size]
  obtain ⟨w₄, hjoined, hgrows₄⟩ := hforked'.joins (u := u) (v := v) hlen hempty hempty' hne hnew hnew'
  rw [hcombine] at hjoined
  exact ⟨w₄, hjoined.goes rfl rfl rfl, hgrows₁.trans (hgrows₂.trans (hgrows₃.trans hgrows₄))⟩

theorem Runs.plays (before : List Branch) {after : List Branch} {x : Lane} {v : Value}
    (h : Runs s seen t) (hb : t.branches = before ++ ⟨place, .start x.task⟩ :: after)
    (hindex : before.length = x.index) (hhome : place.home = some x.run.context)
    (hw : Welcomes t x.run) (hplays : Plays x.node v) :
    ∃ w', Runs s (seen ++ computing x v)
      (t.at before after place w' ⟨.code (.give .unit), []⟩) ∧ Grows t.world w' := by
  have hcurrent : ∀ w : World, w.isCurrent place.home x.run.context = true := fun w =>
    hhome ▸ Spot.isCurrent_self w x.run.context
  have hcompletes : ∀ {w}, Runs s (seen ++ [.began x.index (.focus x.node []) x.run])
      (t.at before after place w
        ⟨.drive (.focus (.pure v) []) x.run, [.call .give, .attempt x.caught]⟩) →
      Runs s (seen ++ computing x v) (t.at before after place
        (w.settle x.callback (.ok (.outcome (.completed v)))) ⟨.code (.give .unit), []⟩) := by
    intro w hdrive
    have hover := hdrive.completes before rfl hindex (hcurrent w)
    rwa [List.append_assoc] at hover
  have hbegun := h.begins before hb hindex
  generalize hnode : x.node = node at hplays
  have hfocus : Runs s (seen ++ [.began x.index (.focus x.node []) x.run])
      (t.at before after place t.world
        ⟨.drive (.focus node []) x.run, [.call .give, .attempt x.caught]⟩) := by
    rw [← hnode]
    exact hbegun
  cases hplays with
  | plain hplain =>
    exact ⟨_, hcompletes (hfocus.reckons hplain nofun (hcurrent _)), .settle _ _⟩
  | pair a b hcombine =>
    obtain ⟨w', hmet, hgrows⟩ := hfocus.meets nofun hhome hw hcombine
    exact ⟨_, hcompletes hmet, hgrows.trans (.settle _ _)⟩

namespace Duo

variable (finish : List Value → Code) {a b : Node} {u v : Value}

theorem welcomes (i : Nat) (hi : i < 2) : Welcomes (waiting finish
    (world [hosting 0 a, hosting 1 b] [used 0, used 1] [.empty, .empty]) a b) (placed i a).run where
  hosts := by
    refine ⟨used i, ?_, ?_⟩
    · interval_cases i <;> rfl
    · interval_cases i <;> exact ⟨⟨by decide +kernel, rfl⟩, by decide +kernel, rfl⟩
  spared := by interval_cases i <;> rfl
  latches := (by decide : ∀ l ∈ [0, 1], l < 2)

/-- Whatever its branches compute, by themselves or in groups of their own, a group can come to an
answer. -/
theorem plays (ha : Plays a u) (hb : Plays b v) : ∃ t,
    Runs (asked (Group.code [a, b] finish run) Duo.before here)
        (computing (placed 0 a) u ++ computing (placed 1 b) v) t ∧
      t.branches.length = 2 ∧ ∀ branch ∈ t.branches, branch.Over := by
  obtain ⟨w, hfirst, hgrows⟩ :=
    (dispatches finish a b).plays [] rfl rfl rfl (welcomes finish 0 (by decide)) ha
  obtain ⟨w', hsecond, -⟩ := hfirst.plays [_] rfl rfl rfl
    ((welcomes finish 1 (by decide)).grows hgrows) hb
  exact ⟨_, hsecond, rfl, List.forall_mem_cons.2 ⟨rfl, List.forall_mem_singleton.2 rfl⟩⟩

end Duo

end Effects.Gathering
