import Effects.Proofs.Group.Combined

/-!
What is known of the branches once a group has answered. A group of two whose branches only compute
can come to an answer.
-/

namespace Effects

namespace Gathering

section Handed

/-- A step of a thread in the world as it is at first. -/
def Alone (a b : Activity) : Prop := World.start.act ⟨"caller", none⟩ a = (World.start, b)

theorem alone_rightUnique : Relator.RightUnique Alone :=
  fun _ _ _ hb hc => congrArg Prod.snd (hb.symm.trans hc)

theorem eq_of_ended {r : Reply} {a : Activity}
    (h : Relation.ReflTransGen Alone ⟨.ended (.ok r), []⟩ a) : a = ⟨.ended (.ok r), []⟩ := by
  induction h with
  | refl => rfl
  | tail _ hlast ih =>
    subst ih
    exact (congrArg Prod.snd hlast).symm

theorem eq_of_given {e e' : Exit} {run : Run} (h : Relation.ReflTransGen Alone
    ⟨.code (.give (.ended e run)), []⟩ ⟨.code (.give (.ended e' run)), []⟩) : e = e' := by
  obtain heq | ⟨a, hfirst, hrest⟩ := h.cases_head
  · cases heq
    rfl
  · obtain rfl : a = ⟨.ended (.ok (.ended e run)), []⟩ := (congrArg Prod.snd hfirst).symm
    cases eq_of_ended hrest

/-- What some code hands over is one exit. -/
theorem Hands.unique {code : Code} {e e' : Exit} (h : Hands code e) (h' : Hands code e') :
    e = e' := by
  obtain hfirst | hfirst := Relation.ReflTransGen.total_of_right_unique alone_rightUnique
    (h World.start ⟨"caller", none⟩ [] ⟨0, 0⟩ [] rfl)
    (h' World.start ⟨"caller", none⟩ [] ⟨0, 0⟩ [] rfl)
  · exact eq_of_given hfirst
  · exact (eq_of_given hfirst).symm

end Handed

variable {s t : Scene} {seen : List Sign} {v : Value}

/-- Once the group has answered, the branch has run its own computation to an end. -/
theorem course_of_answer {branches : List Node} {total : List Value → Value}
    {i : Nat} {node : Node} {exit : Delivery}
    (h : Joined branches total seen t) (ha : t.answer ≠ none) (hnode : branches[i]? = some node)
    (hend : .ended i exit ∈ seen) :
    (∃ run, [.began i (.focus node []) run, .ended i exit] <+: course i seen) ∧
      ∀ exit', .ended i exit' ∈ seen → exit' = exit := by
  obtain ⟨hlength, hover⟩ := h.finished ha
  obtain ⟨hi, -⟩ := List.getElem?_eq_some_iff.1 hnode
  have hb := List.getElem?_eq_getElem (hlength ▸ hi)
  obtain ⟨node', c, d, callback, exit', hnode', -, -, hcourse⟩ := h.course i _ hb
  obtain rfl := Option.some.inj (hnode.symm.trans hnode')
  have hall := hcourse.2 (hover _ (List.mem_of_getElem? hb))
  have honly : ∀ e, .ended i e ∈ seen → e = exit' := by
    intro e he
    have hmem : .ended i e ∈ course i seen := mem_course.2 ⟨he, rfl⟩
    rw [hall] at hmem
    simpa [ending] using hmem
  obtain rfl := honly exit hend
  rw [hall]
  exact ⟨⟨⟨c, d⟩, by simp [ending]⟩, honly⟩

theorem Runs.trans {u : Scene} {more : List Sign} (h : Runs s seen t) (h' : Runs t more u) :
    Runs s (seen ++ more) u := by
  induction h' with
  | start => rwa [List.append_nil]
  | move _ hmove ih =>
    rw [← List.append_assoc]
    exact .move ih hmove

def computing (x : Lane) (v : Value) : List Sign :=
  [.began x.index (.focus x.node []) x.run, .ended x.index (.ok (.completed v)),
    .called x.index x.callback (.ok (.outcome (.completed v)))]

/-- The branch takes its computation into focus. -/
theorem Runs.begins (before : List Branch) {after : List Branch} {place : Place} {x : Lane}
    (h : Runs s seen t) (hb : t.branches = before ++ ⟨place, .start x.task⟩ :: after)
    (hindex : before.length = x.index) :
    Runs s (seen ++ [.began x.index (.focus x.node []) x.run])
      { t with branches := before ++
          ⟨place, ⟨.drive (.focus x.node []) x.run, [.call .give, .attempt x.caught]⟩⟩ :: after } := by
  have hbegun := h.runs before hb rfl |>.runs before rfl rfl
  rw [hindex] at hbegun
  simp only [List.append_assoc] at hbegun
  exact hbegun

/-- The branch comes to a value, and calls back. -/
theorem Runs.completes (before : List Branch) {after : List Branch} {place : Place} {x : Lane}
    (h : Runs s seen t) (hb : t.branches = before ++
      ⟨place, ⟨.drive (.focus (.pure v) []) x.run, [.call .give, .attempt x.caught]⟩⟩ :: after)
    (hindex : before.length = x.index)
    (hcurrent : t.world.isCurrent place.home x.run.context = true) :
    Runs s (seen ++ [.ended x.index (.ok (.completed v)),
        .called x.index x.callback (.ok (.outcome (.completed v)))])
      { t with
        world := t.world.settle x.callback (.ok (.outcome (.completed v)))
        branches := before ++ ⟨place, ⟨.code (.give .unit), []⟩⟩ :: after } := by
  have hdrive : t.world.act place
      ⟨.drive (.focus (.pure v) []) x.run, [.call .give, .attempt x.caught]⟩ = (t.world,
        ⟨.code (.give (.ended (.completed v) x.run)), [.call .give, .attempt x.caught]⟩) := by
    simp [World.act, hcurrent, Machine.step, Machine.resume, Activity.after]
  have hdriven := h.runs before hb rfl
  rw [hdrive] at hdriven
  have hended := hdriven.runs before rfl rfl |>.runs before rfl rfl |>.runs before rfl rfl
  rw [hindex] at hended
  simp only [List.append_assoc] at hended
  exact hended

theorem Runs.computes (before : List Branch) {after : List Branch} {place : Place} {x : Lane}
    (h : Runs s seen t) (hb : t.branches = before ++ ⟨place, .start x.task⟩ :: after)
    (hindex : before.length = x.index) (hnode : x.node = .pure v)
    (hcurrent : t.world.isCurrent place.home x.run.context = true) :
    Runs s (seen ++ computing x v)
      { t with
        world := t.world.settle x.callback (.ok (.outcome (.completed v)))
        branches := before ++ ⟨place, ⟨.code (.give .unit), []⟩⟩ :: after } := by
  have hcompleted := (h.begins before hb hindex).completes before (by rw [hnode]) hindex hcurrent
  rwa [List.append_assoc] at hcompleted

namespace Duo

/-! A caller on the global context, and its two branches. -/

def here : Place := ⟨"caller", none⟩

def run : Run := ⟨1, 1⟩

def group : Group := ⟨[2, 3], 0⟩

def derived (i : Nat) : Context := Context.global.derive ("par-" ++ toString i)

def placed (i : Nat) (node : Node) : Lane := lane group i i node (2 + i)

def hosting (i : Nat) (node : Node) : Thread :=
  ⟨(derived i).threadName, some (2 + i), .task, .start (placed i node).task⟩

def branch (i : Nat) (v : Value) : Lane := lane group i i (.pure v) (2 + i)

def thread (i : Nat) (v : Value) : Thread :=
  ⟨(derived i).threadName, some (2 + i), .task, .start (branch i v).task⟩

def caller : Thread := ⟨"caller", none, .task, World.idle⟩

def before : World :=
  { World.start with threads := #[caller], connections := #[.uncancelable, .new] }

def world (threads : List Thread) (contexts : List Context)
    (latches : List (Latch (Except String Reply))) : World :=
  { World.start with
    threads := ⟨caller :: threads⟩
    contexts := ⟨[.inline, .global] ++ contexts⟩
    connections := #[.uncancelable, .active [Routine.task group.cancelAll], .new, .new]
    cells := #[⟨none, 0⟩]
    latches := ⟨latches⟩ }

def used (i : Nat) : Context := { derived i with spawned := 1 }

def scene (finish : List Value → Code) (v w : Value)
    (latches : List (Latch (Except String Reply))) (one two : Activity) : Scene where
  world := world [thread 0 v, thread 1 w] [used 0, used 1] latches
  place := here
  caller := ⟨.code (awaiting finish run group [0, 1] []), []⟩
  conns := [2, 3]
  cell := some 0
  latches := [0, 1]
  branches := [⟨(thread 0 v).place, one⟩, ⟨(thread 1 w).place, two⟩]
  answer := none

variable (finish : List Value → Code) (v w : Value)

/-- The branches have been dispatched and the caller waits for them. -/
def waiting (world : World) (a b : Node) : Scene where
  world := world
  place := here
  caller := ⟨.code (awaiting finish run group [0, 1] []), []⟩
  conns := [2, 3]
  cell := some 0
  latches := [0, 1]
  branches := [⟨(hosting 0 a).place, .start (placed 0 a).task⟩,
    ⟨(hosting 1 b).place, .start (placed 1 b).task⟩]
  answer := none

theorem dispatches (a b : Node) :
    Runs (asked (Group.code [a, b] finish run) before here) [] (waiting finish
      (world [hosting 0 a, hosting 1 b] [used 0, used 1] [.empty, .empty]) a b) := by
  have hpushed : Runs (asked (Group.code [a, b] finish run) before here) []
      ⟨world [] [] [], here, ⟨.code (forking finish run group [(a, 0), (b, 1)] []), []⟩,
        [2, 3], some 0, [], [], none⟩ :=
    (Runs.start (s := asked (Group.code [a, b] finish run) before here)).calls rfl rfl nofun nofun
      |>.calls rfl rfl nofun nofun |>.calls rfl rfl nofun nofun |>.calls rfl rfl nofun nofun
  rw [forking_cons] at hpushed
  have hfirst : Runs (asked (Group.code [a, b] finish run) before here) []
      ⟨world [hosting 0 a] [used 0] [.empty], here,
        ⟨.code (forking finish run group [(b, 1)] [0]), []⟩, [2, 3], some 0, [0],
          [⟨(hosting 0 a).place, .start (placed 0 a).task⟩], none⟩ :=
    hpushed.calls rfl rfl nofun nofun |>.calls rfl rfl nofun nofun
      |>.spawns rfl rfl rfl rfl (by decide +kernel) rfl
  rw [forking_cons] at hfirst
  have hsecond : Runs (asked (Group.code [a, b] finish run) before here) []
      ⟨world [hosting 0 a, hosting 1 b] [used 0, used 1] [.empty, .empty], here,
        ⟨.code (forking finish run group [] [0, 1]), []⟩, [2, 3], some 0, [0, 1],
          [⟨(hosting 0 a).place, .start (placed 0 a).task⟩,
            ⟨(hosting 1 b).place, .start (placed 1 b).task⟩], none⟩ :=
    hfirst.calls rfl rfl nofun nofun |>.calls rfl rfl nofun nofun
      |>.spawns rfl rfl rfl rfl (by decide +kernel) rfl
  rwa [forking_nil] at hsecond

def start : Scene := asked (Group.code [.pure v, .pure w] finish run) before here

theorem dispatched : Runs (start finish v w) []
    (scene finish v w [.empty, .empty] (.start (branch 0 v).task) (.start (branch 1 w).task)) :=
  dispatches finish (.pure v) (.pure w)

theorem answers : ∃ t,
    Runs (start finish v w) (computing (branch 0 v) v ++ computing (branch 1 w) w) t ∧
      t.answer ≠ none := by
  have hcomputed := (dispatched finish v w).computes [] rfl rfl rfl rfl
    |>.computes [_] rfl rfl rfl rfl
  refine hcomputed.awaits [0, 1] rfl rfl (by decide) fun l hl => ?_
  obtain rfl | hl := List.mem_cons.1 hl
  · exact ⟨_, rfl⟩
  · obtain rfl := List.mem_singleton.1 hl
    exact ⟨_, rfl⟩

end Duo

end Gathering

namespace Effect

variable {ε α β γ : Type} [Datum α] [Datum β] [Datum γ] {seen : List Gathering.Sign}
  {t : Gathering.Scene}

/-- Some machine has started the effect, which asks for a group, and the group is under way. -/
inductive Underway (e : Effect ε α) (seen : List Gathering.Sign) (t : Gathering.Scene) : Prop
  | asked {env run next code frame w place}
      (hstep : (Machine.focus e.node next).step env run = .call code frame)
      (h : Gathering.Runs (Gathering.asked code w place) seen t)

theorem Underway.joined {a : Effect ε α} {b : Effect ε β} {f : α → β → γ}
    (h : (parMap₂ a b f).Underway seen t) :
    Gathering.Joined [a.node, b.node] (Gathering.pairTotal f) seen t := by
  obtain ⟨hstep, h⟩ := h
  refine (Gathering.joined_of_step hstep rfl (fun values hlength => ?_) h).2
  match values, hlength with
  | [v, w], _ => exact Gathering.hands_build _

/-- When both branches have ended, and none with a panic, the two come to an answer. -/
theorem Underway.comes {a : Effect ε α} {b : Effect ε β} {f : α → β → γ}
    (h : (parMap₂ a b f).Underway seen t) (hlength : t.branches.length = 2)
    (hover : ∀ branch ∈ t.branches, branch.Over)
    (hpanic : ∀ i message, .ended i (.error message) ∉ seen) :
    ∃ u, (parMap₂ a b f).Underway seen u ∧ u.answer ≠ none := by
  have hsome : t.branches ≠ [] := by
    intro hnil
    rw [hnil] at hlength
    cases hlength
  obtain ⟨-, u, hu, hanswer⟩ := h.joined.comes hsome hlength hover hpanic
  obtain ⟨hstep, h⟩ := h
  have hall := h.trans hu
  rw [List.append_nil] at hall
  exact ⟨u, .asked hstep hall, hanswer⟩

/-- Effects that only compute can come to an answer. -/
theorem pure_underway (ε : Type) (a : α) (b : β) (f : α → β → γ) :
    ∃ t, (parMap₂ (.pure a : Effect ε α) (.pure b) f).Underway
      (Gathering.computing (Gathering.Duo.branch 0 (write a)) (write a) ++
        Gathering.computing (Gathering.Duo.branch 1 (write b)) (write b)) t ∧ t.answer ≠ none := by
  obtain ⟨finish, hstep⟩ : ∃ finish, (Machine.focus
      (parMap₂ (.pure a : Effect ε α) (.pure b) f).node []).step
        ⟨fun _ => true, fun _ => false⟩ Gathering.Duo.run =
      .call (Group.code [.pure (write a), .pure (write b)] finish Gathering.Duo.run)
        (.node [] Gathering.Duo.run) := ⟨_, rfl⟩
  obtain ⟨t, hruns, hsome⟩ := Gathering.Duo.answers finish (write a) (write b)
  exact ⟨t, .asked hstep hruns, hsome⟩

end Effect
end Effects
