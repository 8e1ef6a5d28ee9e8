import Effects.Proofs.Hop.Team

/-!
A team does what one thread would do that is wherever the run's context is. What a hop brings back
from the other thread is what the machine came to there, be it an exit or a panic.
-/

namespace Effects

namespace Hop

open Activity

/-- What the thread at work has below its machine for the sake of hops, and what the run has there:
all that was left behind on the threads that wait. -/
inductive Ground : List Waiter → List Frame → List Frame → Prop
  | home : Ground [] [] []
  | host {ws : List Waiter} {G O fs : List Frame} (h : Ground ws G O)
      (hfs : ws = [] ∨ Frame.Based fs) (p : Place) {l : LatchId}
      (hl : ∀ waiter ∈ ws, waiter.latch ≠ l) :
      Ground (⟨p, l, ⟨.code (awaiting l), fs ++ G⟩⟩ :: ws) (floor l) (fs ++ O)

/-- Nothing has come back yet. -/
def Clear (w : World) (ws : List Waiter) : Prop :=
  ∀ waiter ∈ ws, w.latches[waiter.latch]? = some .empty

/-- On the way from the thread that hops. -/
inductive Leaving (w : World) (ws : List Waiter) (m : Machine) (run : Run) : Code → Stage → Prop
  | asks : Leaving w ws m run (Routine.hop m run .give) .asking
  | opens : Leaving w ws m run (opening m run) .opening
  | dispatches {l : LatchId} (hl : w.latches[l]? = some .empty)
      (hnew : ∀ waiter ∈ ws, waiter.latch ≠ l) :
      Leaving w ws m run (dispatching m run l) (.dispatching l)

/-- On the way into the machine, on the other thread. -/
inductive Entering (m : Machine) (run : Run) (l : LatchId) : Activity → Prop
  | starts : Entering m run l ⟨.code (task m run l), []⟩
  | catches : Entering m run l ⟨.code (body m run), [.attempt (settling l)]⟩

/-- On the way back; the latch is filled underway. -/
inductive Reporting (l : LatchId) (r : Except String Reply) :
    Latch (Except String Reply) → Activity → Prop
  | caught : Reporting l r .empty ⟨.returning r, [.attempt (settling l)]⟩
  | settles : Reporting l r .empty ⟨.code (settling l (.caught r)), []⟩
  | settled : Reporting l r (.full r) ⟨.code (.give .unit), []⟩
  | gone : Reporting l r (.full r) (atEnd (.ok .unit))

/-- Where the team is with what the run is at. -/
inductive Follows : Team → Activity → Prop
  | works {w : World} {p : Place} {ws : List Waiter} {G O : List Frame} {a : Activity}
      (hg : Ground ws G O) (hw : Clear w ws) (ha : ws = [] ∨ a.Based) :
      Follows ⟨w, p, a.atop G, .working, ws⟩ (a.atop O)
  | leaves {w : World} {p : Place} {ws : List Waiter} {G O fs : List Frame} {m : Machine}
      {run : Run} {c : Code} {stage : Stage} (hg : Ground ws G O) (hw : Clear w ws)
      (hfs : ws = [] ∨ Frame.Based fs) (haway : w.isCurrent p.home run.context = false)
      (h : Leaving w ws m run c stage) :
      Follows ⟨w, p, ⟨.code c, fs ++ G⟩, stage, ws⟩ ⟨.drive m run, fs ++ O⟩
  | enters {w : World} {p : Place} {ws : List Waiter} {waiter : Waiter} {G O : List Frame}
      {m : Machine} {run : Run} {a : Activity} (hg : Ground (waiter :: ws) G O)
      (hw : Clear w (waiter :: ws)) (h : Entering m run waiter.latch a) :
      Follows ⟨w, p, a, .working, waiter :: ws⟩ ⟨.drive m run, O⟩
  | reports {w : World} {p : Place} {ws : List Waiter} {waiter : Waiter} {G O : List Frame}
      {x : Except String (Exit × Run)} {latch : Latch (Except String Reply)} {a : Activity}
      (hg : Ground (waiter :: ws) G O) (hw : Clear w ws)
      (hl : w.latches[waiter.latch]? = some latch)
      (h : Reporting waiter.latch (resultOf x) latch a) :
      Follows ⟨w, p, a, .working, waiter :: ws⟩ ((yielding x).atop O)
  /-- A panic has come back, and goes on. -/
  | fails {w : World} {p : Place} {ws : List Waiter} {G O fs : List Frame} {message : String}
      (hg : Ground ws G O) (hw : Clear w ws) (hfs : ws = [] ∨ Frame.Based fs) :
      Follows ⟨w, p, ⟨.code (.panic message), fs ++ G⟩, .working, ws⟩
        ⟨.unwinding message, fs ++ O⟩

variable {w w' : World} {p : Place} {ws : List Waiter} {waiter : Waiter} {G O fs : List Frame}
  {a b : Activity} {m : Machine} {run : Run} {l : LatchId} {x : Except String (Exit × Run)}
  {t u : Team} {q : Passage}

theorem Ground.eq_floor (h : Ground (waiter :: ws) G O) : G = floor waiter.latch := by
  cases h with
  | host => rfl

theorem Clear.keeps {ls : List LatchId} (h : Clear w ws) (hk : Keeps ls w w')
    (hls : ∀ waiter ∈ ws, waiter.latch ∈ ls) : Clear w' ws :=
  fun waiter hwaiter => (hk _ (hls waiter hwaiter)).trans (h waiter hwaiter)

theorem Clear.of_eq (h : Clear w ws) (hl : w'.latches = w.latches) : Clear w' ws := by
  intro waiter hwaiter
  rw [hl]
  exact h waiter hwaiter

theorem Ground.other (hg : Ground (waiter :: ws) G O) :
    ∀ other ∈ ws, waiter.latch ≠ other.latch := by
  cases hg with
  | host _ _ _ hl => exact fun other hother => (hl other hother).symm

theorem Clear.settle {r : Except String Reply} (h : Clear w ws)
    (hl : ∀ waiter ∈ ws, l ≠ waiter.latch) : Clear (w.settle l r) ws := by
  intro waiter hwaiter
  rw [World.settle_latch (h waiter hwaiter), if_neg (hl waiter hwaiter)]

theorem Clear.drain (h : Clear w ws) (hl : ∀ waiter ∈ ws, l ≠ waiter.latch) :
    Clear (w.setLatch l .drained) ws := by
  intro waiter hwaiter
  simpa only [World.setLatch, Array.getElem?_setIfInBounds, if_neg (hl waiter hwaiter)]
    using h waiter hwaiter

theorem settled_latch {r : Except String Reply} (hl : w.latches[l]? = some .empty) :
    (w.settle l r).latches[l]? = some (.full r) := by
  rw [World.settle_latch hl, if_pos rfl]
  rfl

/-- The next latch to be opened is another one. -/
theorem Clear.fresh (h : Clear w ws) : ∀ waiter ∈ ws, waiter.latch ≠ w.latches.size := by
  intro waiter hwaiter heq
  have hnone : w.latches[waiter.latch]? = none := Array.getElem?_eq_none (Nat.le_of_eq heq.symm)
  exact Option.some_ne_none _ ((h waiter hwaiter).symm.trans hnone)

/-- The one who waits goes on when the latch is full. -/
theorem Ground.able_iff {latch : Latch (Except String Reply)} (h : Ground (waiter :: ws) G O)
    (hl : w.latches[waiter.latch]? = some latch) :
    waiter.activity.Able w waiter.place ↔ latch.isFull = true := by
  cases h with
  | host =>
    show (w.latches[_]?).any Latch.isFull = true ↔ _
    rw [hl]
    rfl

theorem shallow {control : Control} (hlen : fs.length < 2) :
    ¬Team.Own ⟨w, p, ⟨control, fs⟩, .working, waiter :: ws⟩ := by
  intro hown
  obtain ⟨a, ha, -⟩ := hown waiter rfl
  have hfs : fs = a.stack ++ floor waiter.latch := congrArg Activity.stack ha
  rw [hfs, List.length_append] at hlen
  exact absurd hlen (Nat.not_lt.2 (Nat.le_add_left 2 _))

theorem Entering.shallow (h : Entering m run waiter.latch a) :
    ¬Team.Own ⟨w, p, a, .working, waiter :: ws⟩ := by
  cases h <;> exact Hop.shallow (by simp)

theorem Reporting.shallow {r : Except String Reply} {latch : Latch (Except String Reply)}
    (h : Reporting waiter.latch r latch a) : ¬Team.Own ⟨w, p, a, .working, waiter :: ws⟩ := by
  cases h <;> exact Hop.shallow (by simp)

/-- Above the ground, the thread at work is open exactly if it is at something of the run's. -/
theorem Ground.own_iff (hg : Ground (waiter :: ws) G O) :
    Team.Own ⟨w, p, a.atop G, .working, waiter :: ws⟩ ↔ Onto.Open a := by
  obtain rfl := hg.eq_floor
  constructor
  · intro hown
    obtain ⟨a', ha, hopen⟩ := hown waiter rfl
    exact atop_inj.1 ha ▸ hopen
  · rintro hopen _ ⟨⟩
    exact ⟨a, rfl, hopen⟩

theorem Ground.own_of_open (hg : Ground ws G O) (hopen : ws = [] ∨ Onto.Open a) :
    Team.Own ⟨w, p, a.atop G, .working, ws⟩ := by
  cases ws with
  | nil => rintro _ ⟨⟩
  | cons waiter ws => exact hg.own_iff.2 (hopen.resolve_left (List.cons_ne_nil _ _))

/-- The run's own steps are seen, and taken at the place where they are. -/
theorem Follows.acts (h : Follows t b) (hs : t.stage = .working) (hown : t.Own)
    (hable : t.activity.Able t.world t.place) (hkeeps : Keeps t.latches t.world t.next.world) :
    ∃ b', Proceeds b (t.activity.moments t.world t.place) b' ∧ Follows t.next b' := by
  cases h with
  | @works w p ws G O a hg hw ha =>
    have hw' : Clear (w.act p (a.atop G)).1 ws := hw.keeps hkeeps fun waiter hwaiter =>
      List.mem_append_right _ (List.mem_map_of_mem hwaiter)
    refine ⟨_, Proceeds.one (a := a.atop O) hable, ?_⟩
    cases ws with
    | nil =>
      cases hg
      have hnext := @Follows.works _ p _ _ _ (w.act p (a.atop [])).2 .home hw' (.inl rfl)
      simpa [Team.next, atop] using hnext
    | cons waiter ws =>
      have hopen : Onto.Open a := hg.own_iff.1 hown
      have hbased : a.Based := ha.resolve_left (List.cons_ne_nil _ _)
      rw [Onto.act_atop hopen O, Team.next, Onto.act_atop hopen G]
      exact .works hg hw' (.inr (hbased.act hopen hable))
  | leaves _ _ _ _ h => cases h <;> cases hs
  | enters _ _ h => exact absurd hown h.shallow
  | reports _ _ _ h => exact absurd hown h.shallow
  | @fails w p ws G O fs message hg hw hfs =>
    refine ⟨_, .stay _, ?_⟩
    have hbased : ws = [] ∨ Based ⟨.unwinding message, fs⟩ :=
      hfs.imp_right fun h => .of_frames (x := .error message) h
    exact .works hg hw hbased

/-- What a thread does for a hop is not the run's. -/
theorem Follows.aside (h : Follows t b) (hs : t.stage = .working) (hown : ¬t.Own)
    (hable : t.activity.Able t.world t.place) : Follows t.next b := by
  cases h with
  | @works w p ws G O a hg hw ha =>
    cases ws with
    | nil => exact absurd (hg.own_of_open (.inl rfl)) hown
    | cons waiter ws =>
      have hbased : a.Based := ha.resolve_left (List.cons_ne_nil _ _)
      obtain ⟨x, rfl⟩ := hbased.open_or.resolve_left fun hopen => hown (hg.own_iff.2 hopen)
      have hl := hw waiter (List.mem_cons_self ..)
      have hws : Clear w ws := fun waiter hwaiter => hw waiter (List.mem_cons_of_mem _ hwaiter)
      obtain rfl := hg.eq_floor
      rw [next_yielding]
      exact .reports hg hws hl .caught
  | leaves _ _ _ _ h => cases h <;> cases hs
  | enters hg hw h =>
    cases h with
    | starts => exact .enters hg hw .catches
    | catches =>
      obtain rfl := hg.eq_floor
      exact .works (a := ⟨.drive _ _, []⟩) hg hw (.inr (.machine _ _))
  | @reports w p ws waiter G O x latch a hg hw hl h =>
    cases h with
    | caught =>
      rw [next_returning]
      exact .reports hg hw hl .settles
    | settles => exact .reports hg (hw.settle hg.other) (settled_latch hl) .settled
    | settled => exact .reports hg hw hl .gone
    | gone => exact hable.elim
  | @fails w p ws G O fs message hg =>
    exact absurd (hg.own_of_open (a := ⟨.code (.panic message), fs⟩) (.inr (.inr rfl))) hown

/-- A machine that is away from its context takes no step of its own. -/
theorem Follows.hops (h : Follows t b) (hs : t.stage = .working)
    (hc : t.activity.control = .drive m run)
    (haway : t.world.isCurrent t.place.home run.context = false) :
    Follows { t.next with stage := .asking } b := by
  cases h with
  | @works w p ws G O a hg hw ha =>
    obtain ⟨control, fs⟩ := a
    obtain rfl : control = .drive m run := hc
    rw [show Team.next ⟨w, p, atop ⟨.drive m run, fs⟩ G, .working, ws⟩ = _ from next_drive haway]
    exact .leaves hg hw (ha.imp_right Based.frames) haway .asks
  | leaves _ _ _ _ h => cases h <;> cases hs
  | enters _ _ h => cases h <;> cases hc
  | @reports _ _ _ _ _ _ x _ _ _ _ _ h =>
    cases h with
    | caught => cases x <;> cases hc
    | _ => cases hc
  | fails => cases hc

/-- It is still away. -/
theorem Follows.asks (h : Follows t b) (hs : t.stage = .asking) :
    Follows { t.next with stage := .opening } b := by
  cases h with
  | @leaves w p ws G O fs m run c stage hg hw hfs haway h =>
    obtain rfl : stage = .asking := hs
    cases h with
    | asks =>
      rw [next_hop haway]
      exact .leaves hg hw hfs haway .opens
  | _ => cases hs

theorem Follows.opens (h : Follows t b) (hs : t.stage = .opening) :
    Follows { t.next with stage := .dispatching t.world.latches.size } b := by
  cases h with
  | @leaves w p ws G O fs m run c stage hg hw hfs haway h =>
    obtain rfl : stage = .opening := hs
    cases h with
    | opens =>
      exact .leaves hg (fun waiter hwaiter => World.push_getElem? (hw waiter hwaiter)) hfs haway
        (.dispatches Array.getElem?_push_size hw.fresh)
  | _ => cases hs

/-- The machine is with a thread of its context, and this one waits for it. -/
theorem Follows.dispatches {c : ContextId} {task : Code} {next : Reply → Code}
    (h : Follows t b) (hs : t.stage = .dispatching l)
    (hc : t.activity.control = .code (.perform (.context c (.execute task)) next))
    (hr : (t.world.perform t.place (.context c (.execute task))).2 = .reply .unit) (name : String) :
    Follows
      ⟨t.next.world, ⟨name, some c⟩, .start task, .working,
        ⟨t.place, l, t.next.activity⟩ :: t.waiting⟩ b := by
  cases h with
  | @leaves w p ws G O fs m run c stage hg hw hfs haway h =>
    obtain rfl : stage = .dispatching l := hs
    cases h with
    | dispatches hl hnew =>
      cases hc
      have hclear : Clear _ (⟨p, l, ⟨.code (awaiting l), fs ++ G⟩⟩ :: ws) :=
        .of_eq (List.forall_mem_cons.2 ⟨hl, hw⟩)
          (World.context_latches w p run.context (.execute (task m run l)))
      rw [next_dispatching, hr]
      exact .enters (.host hg hfs p hnew) hclear .starts
  | _ => cases hs

theorem Follows.refused {c : ContextId} {task : Code} {next : Reply → Code} {message : String}
    (h : Follows t b) (hs : t.stage = .dispatching l)
    (hc : t.activity.control = .code (.perform (.context c (.execute task)) next))
    (hr : (t.world.perform t.place (.context c (.execute task))).2 = .panic message) :
    ∃ b', Proceeds b [⟨t.world, t.place, none⟩] b' ∧
      Follows { t.next with stage := .working } b' := by
  cases h with
  | @leaves w p ws G O fs m run c stage hg hw hfs haway h =>
    obtain rfl : stage = .dispatching l := hs
    cases h with
    | dispatches hl hnew =>
      cases hc
      have hrefuses : w.Refuses p run.context message := ⟨haway, _, hr⟩
      refine ⟨_, .refused hrefuses (.stay _), ?_⟩
      rw [next_dispatching, hr]
      exact .works (a := ⟨.unwinding message, fs⟩) hg
        (hw.of_eq (World.context_latches w p run.context (.execute (task m run l))))
        (hfs.imp_right fun h => .of_frames (x := .error message) h)
  | _ => cases hs

/-- What has come back is the end that the machine has come to. -/
theorem Follows.returns {rest : List Waiter} (h : Follows t b) (hw : t.waiting = waiter :: rest)
    (hable : waiter.activity.Able t.world waiter.place) :
    Follows (Team.next ⟨t.world, waiter.place, waiter.activity, .working, rest⟩) b := by
  have hempty : ∀ {G O : List Frame}, Ground (waiter :: rest) G O →
      t.world.latches[waiter.latch]? ≠ some .empty := fun hg hl => by
    simpa [Latch.isFull, Latch.item?] using (hg.able_iff hl).1 hable
  cases h with
  | works hg hclear =>
    subst hw
    exact absurd (hclear waiter (List.mem_cons_self ..)) (hempty hg)
  | leaves hg hclear =>
    subst hw
    exact absurd (hclear waiter (List.mem_cons_self ..)) (hempty hg)
  | fails hg hclear =>
    subst hw
    exact absurd (hclear waiter (List.mem_cons_self ..)) (hempty hg)
  | enters hg hclear =>
    obtain ⟨rfl, rfl⟩ := List.cons.inj hw
    exact absurd (hclear _ (List.mem_cons_self ..)) (hempty hg)
  | @reports w p ws waiter G O x latch a hg hclear hl h =>
    obtain ⟨rfl, rfl⟩ := List.cons.inj hw
    obtain rfl : latch = .full (resultOf x) := by
      cases h with
      | caught | settles => exact absurd hl (hempty hg)
      | settled | gone => rfl
    have hdrained : Clear (w.setLatch waiter.latch .drained) ws := hclear.drain hg.other
    cases hg with
    | @host _ G O fs hground hfs p l hne =>
      rw [next_awaiting hl]
      obtain message | ⟨exit, run⟩ := x
      · exact .fails hground hdrained hfs
      · exact .works (a := ⟨.code (.give (.ended exit run)), fs⟩) hground hdrained
          (hfs.imp_right fun h => .of_frames (x := .ok (exit, run)) h)

theorem Leaving.others {c : Code} {stage : Stage} (h : Leaving w ws m run c stage)
    (hkeeps : Keeps stage.latches w w') : Leaving w' ws m run c stage := by
  cases h with
  | asks => exact .asks
  | opens => exact .opens
  | dispatches hl hnew => exact .dispatches ((hkeeps _ (List.mem_singleton_self _)).trans hl) hnew

/-- What others do is not seen. -/
theorem Follows.others (h : Follows t b) (hk : t.world.SameKinds w)
    (hkeeps : Keeps t.latches t.world w) : Follows { t with world := w } b := by
  have hmem : ∀ waiter ∈ t.waiting, waiter.latch ∈ t.latches := fun waiter hwaiter =>
    List.mem_append_right _ (List.mem_map_of_mem hwaiter)
  cases h with
  | works hg hw ha => exact .works hg (hw.keeps hkeeps hmem) ha
  | leaves hg hw hfs haway h =>
    exact .leaves hg (hw.keeps hkeeps hmem) hfs (hk.away haway)
      (h.others fun l hl => hkeeps l (List.mem_append_left _ hl))
  | enters hg hw h => exact .enters hg (hw.keeps hkeeps hmem) h
  | reports hg hw hl h =>
    exact .reports hg
      (hw.keeps hkeeps fun waiter hwaiter => hmem waiter (List.mem_cons_of_mem _ hwaiter))
      ((hkeeps _ (hmem _ (List.mem_cons_self ..))).trans hl) h
  | fails hg hw hfs => exact .fails hg (hw.keeps hkeeps hmem) hfs

theorem Follows.moves (h : Follows t b) (hm : Moves t q u) :
    ∃ b', Proceeds b q b' ∧ Follows u b' := by
  cases hm with
  | acts hs hown hable hkeeps => exact h.acts hs hown hable hkeeps
  | aside hs hown hable => exact ⟨b, .stay b, h.aside hs hown hable⟩
  | hops hs hc haway => exact ⟨b, .stay b, h.hops hs hc haway⟩
  | asks hs => exact ⟨b, .stay b, h.asks hs⟩
  | opens hs => exact ⟨b, .stay b, h.opens hs⟩
  | dispatches hs hc hr name => exact ⟨b, .stay b, h.dispatches hs hc hr name⟩
  | refused hs hc hr => exact h.refused hs hc hr
  | returns hw hable => exact ⟨b, .stay b, h.returns hw hable⟩
  | others w hk hkeeps => exact ⟨b, .stay b, h.others hk hkeeps⟩

theorem Follows.start (w : World) (p : Place) (c : Code) : Follows (.start w p c) (.start c) :=
  .works (a := .start c) .home (by rintro _ ⟨⟩) (.inl rfl)

theorem Follows.runs (h : Follows t b) (hr : Runs t q u) :
    ∃ b', Proceeds b q b' ∧ Follows u b' := by
  induction hr with
  | stay => exact ⟨b, .stay b, h⟩
  | move _ hm ih =>
    obtain ⟨b₁, hb₁, h₁⟩ := ih
    obtain ⟨b₂, hb₂, h₂⟩ := h₁.moves hm
    exact ⟨b₂, hb₁.trans hb₂, h₂⟩

/-- A team that has come to its end has come to the run's end. -/
theorem Follows.eq_atEnd {r : Except String Reply} (h : Follows t b) (ht : t.activity = atEnd r)
    (hw : t.waiting = []) : b = atEnd r := by
  cases h with
  | works hg =>
    subst hw
    cases hg
    exact ht
  | leaves _ _ _ _ h => cases h <;> cases ht
  | enters | reports => cases hw
  | fails => cases ht

end Hop
end Effects
