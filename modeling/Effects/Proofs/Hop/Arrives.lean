import Effects.Proofs.Hop.Follows

/-!
No hop gets stuck: wherever a team is, it comes by itself to where the next step is the run's, if
the context that the machine has to go to can have a thread.
-/

namespace Effects

open Activity

namespace World

/-- Tasks of the context are dispatched. -/
def Accepts (w : World) (c : ContextId) : Prop :=
  ∀ here task, (w.perform here (.context c (.execute task))).2 = .reply .unit

/-- What becomes of a task. -/
def taken (context : Context) (task : Code) : Response :=
  match context.kind with
  | .inline => .inPlace task .unit
  | .concurrent =>
      match Context.nameFault? context.threadName with
      | some message => .panic message
      | none => if context.canSpawn then .reply .unit else .inPlace task .unit
  | .serial => .reply .unit

theorem perform_execute (w : World) (here : Place) (c : ContextId) (task : Code) :
    (w.perform here (.context c (.execute task))).2 = taken (w.contexts[c]?.getD .inline) task := by
  simp only [perform, onContext, spawnThread, taken]
  cases (w.contexts[c]?.getD .inline).kind with
  | concurrent =>
    cases Context.nameFault? (w.contexts[c]?.getD .inline).threadName with
    | none => cases (w.contexts[c]?.getD .inline).canSpawn <;> rfl
    | some message => rfl
  | _ => rfl

theorem Accepts.of_eq {w w' : World} {c : ContextId} (h : w.Accepts c)
    (hc : w'.contexts = w.contexts) : w'.Accepts c := by
  intro here task
  rw [perform_execute, hc, ← perform_execute w here]
  exact h here task

end World

namespace Hop

/-- The team's next step is the run's. -/
structure AtWork (t : Team) (b : Activity) : Prop where
  stage : t.stage = .working
  own : t.Own
  control : t.activity.control = b.control
  current : ∀ m run, b.control = .drive m run →
    t.world.isCurrent t.place.home run.context = true

/-- Gets there without being seen. -/
def Arrives (t : Team) (b : Activity) : Prop := ∃ u, Runs t [] u ∧ AtWork u b

variable {w : World} {p : Place} {ws : List Waiter} {waiter : Waiter} {G O fs : List Frame}
  {a b : Activity} {m : Machine} {run : Run} {l : LatchId} {x : Except String (Exit × Run)}
  {t u : Team}

theorem Arrives.move (hm : Moves t [] u) (h : Arrives u b) : Arrives t b := by
  obtain ⟨v, hv, hwork⟩ := h
  exact ⟨v, (Runs.one hm).trans hv, hwork⟩

theorem Arrives.of_open (hopen : ws = [] ∨ Onto.Open a) (hg : Ground ws G O)
    (hcurrent : ∀ m run, a.control = .drive m run → w.isCurrent p.home run.context = true) :
    Arrives ⟨w, p, a.atop G, .working, ws⟩ (a.atop O) :=
  ⟨_, .stay, rfl, hg.own_of_open hopen, rfl, hcurrent⟩

theorem Entering.arrives (h : Entering m run waiter.latch a)
    (hdrive : Arrives ⟨w, p, ⟨.drive m run, floor waiter.latch⟩, .working, waiter :: ws⟩
      ⟨.drive m run, O⟩) :
    Arrives ⟨w, p, a, .working, waiter :: ws⟩ ⟨.drive m run, O⟩ := by
  have hcatches : Arrives
      ⟨w, p, ⟨.code (body m run), [.attempt (settling waiter.latch)]⟩, .working, waiter :: ws⟩
      ⟨.drive m run, O⟩ :=
    .move (.aside rfl (Entering.catches (m := m)).shallow rfl) hdrive
  cases h with
  | starts => exact .move (.aside rfl (Entering.starts (m := m)).shallow rfl) hcatches
  | catches => exact hcatches

/-- A hop that has begun takes the machine to a thread of its context. -/
theorem Leaving.arrives {c : Code} {stage : Stage} (h : Leaving w ws m run c stage)
    (hg : Ground ws G O) (hw : Clear w ws) (hfs : ws = [] ∨ Frame.Based fs)
    (haway : w.isCurrent p.home run.context = false) (ha : w.Accepts run.context) :
    Arrives ⟨w, p, ⟨.code c, fs ++ G⟩, stage, ws⟩ ⟨.drive m run, fs ++ O⟩ := by
  have hdispatches : ∀ {w : World} {l : LatchId}, w.Accepts run.context →
      (∀ waiter ∈ ws, waiter.latch ≠ l) →
      Arrives ⟨w, p, ⟨.code (dispatching m run l), fs ++ G⟩, .dispatching l, ws⟩
        ⟨.drive m run, fs ++ O⟩ := by
    intro w l ha hnew
    have hr := ha p (task m run l)
    refine .move (.dispatches rfl rfl hr "") ?_
    rw [next_dispatching, hr]
    refine Entering.arrives .starts (.of_open (a := ⟨.drive m run, []⟩) (.inr (.inr rfl))
      (.host hg hfs p hnew) ?_)
    rintro _ _ ⟨⟩
    exact Spot.isCurrent_self _ _
  have hopens : ∀ {w : World}, w.Accepts run.context → Clear w ws →
      Arrives ⟨w, p, ⟨.code (opening m run), fs ++ G⟩, .opening, ws⟩ ⟨.drive m run, fs ++ O⟩ := by
    intro w ha hw
    refine .move (.opens rfl) (hdispatches (ha.of_eq rfl) (hw.fresh))
  cases h with
  | asks =>
    refine .move (.asks rfl) ?_
    rw [next_hop haway]
    exact hopens ha hw
  | opens => exact hopens ha hw
  | dispatches _ hnew => exact hdispatches ha hnew

theorem Ground.open_arrives (hg : Ground ws G O) (hw : Clear w ws) (ha : ws = [] ∨ a.Based)
    (hopen : ws = [] ∨ Onto.Open a)
    (haccepts : ∀ m run, a.control = .drive m run → w.Accepts run.context) :
    Arrives ⟨w, p, a.atop G, .working, ws⟩ (a.atop O) := by
  by_cases hc : ∃ m run, a.control = .drive m run ∧ w.isCurrent p.home run.context = false
  · obtain ⟨m, run, hc, haway⟩ := hc
    obtain ⟨control, fs⟩ := a
    obtain rfl : control = .drive m run := hc
    refine .move (.hops rfl rfl haway) ?_
    rw [show Team.next ⟨w, p, atop ⟨.drive m run, fs⟩ G, .working, ws⟩ = _ from next_drive haway]
    exact Leaving.arrives .asks hg hw (ha.imp_right Based.frames) haway (haccepts m run rfl)
  · refine .of_open hopen hg fun m run hdrive => ?_
    exact Bool.of_not_eq_false fun haway => hc ⟨m, run, hdrive, haway⟩

theorem Ground.moves_panic {message : String} (hg : Ground ws G O) :
    Moves ⟨w, p, ⟨.code (.panic message), fs ++ G⟩, .working, ws⟩ []
      ⟨w, p, ⟨.unwinding message, fs ++ G⟩, .working, ws⟩ :=
  .acts rfl (hg.own_of_open (a := ⟨.code (.panic message), fs⟩) (.inr (.inr rfl))) trivial
    fun _ _ => rfl

/-- What has been put into the latch is what the run goes on with, on the thread that waits. -/
theorem Reporting.arrives {latch : Latch (Except String Reply)}
    (h : Reporting waiter.latch (resultOf x) latch a) (hg : Ground (waiter :: ws) G O)
    (hw : Clear w ws) (hl : w.latches[waiter.latch]? = some latch)
    (hrest : ∀ {G O : List Frame} {w : World} {p : Place} {a : Activity}, Ground ws G O →
      Clear w ws → (ws = [] ∨ a.Based) → (∀ m run, a.control ≠ .drive m run) →
        Arrives ⟨w, p, a.atop G, .working, ws⟩ (a.atop O)) :
    Arrives ⟨w, p, a, .working, waiter :: ws⟩ ((yielding x).atop O) := by
  have hfull : ∀ {w : World} {a : Activity}, Clear w ws →
      w.latches[waiter.latch]? = some (.full (resultOf x)) →
        Arrives ⟨w, p, a, .working, waiter :: ws⟩ ((yielding x).atop O) := by
    intro w a hw hl
    have hdrained := hw.drain hg.other
    refine .move (.returns rfl ((hg.able_iff hl).2 rfl)) ?_
    cases hg with
    | @host _ G O fs hground hfs p l hne =>
      rw [next_awaiting hl]
      obtain message | ⟨exit, run⟩ := x
      · exact .move hground.moves_panic (hrest (a := ⟨.unwinding message, fs⟩) hground hdrained
          (hfs.imp_right fun h => .of_frames (x := .error message) h) (by simp))
      · exact hrest (a := ⟨.code (.give (.ended exit run)), fs⟩) hground hdrained
          (hfs.imp_right fun h => .of_frames (x := .ok (exit, run)) h) (by simp)
  have hsettles : Clear w ws → w.latches[waiter.latch]? = some .empty →
      Arrives ⟨w, p, ⟨.code (settling waiter.latch (.caught (resultOf x))), []⟩, .working,
        waiter :: ws⟩ ((yielding x).atop O) := fun hw hl =>
    .move (.aside rfl Reporting.settles.shallow rfl)
      (hfull (hw.settle hg.other) (settled_latch hl))
  cases h with
  | caught =>
    refine .move (.aside rfl Reporting.caught.shallow ?_) ?_
    · cases x <;> trivial
    · rw [next_returning]
      exact hsettles hw hl
  | settles => exact hsettles hw hl
  | settled | gone => exact hfull hw hl

/-- What a machine has come to gets back to where the run goes on. -/
theorem Ground.arrives (hg : Ground ws G O) (hw : Clear w ws) (ha : ws = [] ∨ a.Based)
    (haccepts : ∀ m run, a.control = .drive m run → w.Accepts run.context) :
    Arrives ⟨w, p, a.atop G, .working, ws⟩ (a.atop O) := by
  induction ws generalizing w p a G O with
  | nil => exact hg.open_arrives hw ha (.inl rfl) haccepts
  | cons waiter ws ih =>
    have hbased : a.Based := ha.resolve_left (List.cons_ne_nil _ _)
    by_cases hopen : Onto.Open a
    · exact hg.open_arrives hw ha (.inr hopen) haccepts
    · obtain ⟨x, rfl⟩ := hbased.open_or.resolve_left hopen
      obtain ⟨hl, hws⟩ := List.forall_mem_cons.1 hw
      refine .move (.aside rfl (fun hown => hopen (hg.own_iff.1 hown)) ?_) ?_
      · cases x <;> trivial
      · obtain rfl := hg.eq_floor
        rw [next_yielding]
        exact Reporting.arrives .caught hg hws hl fun hg hw ha hd =>
          ih hg hw ha fun m run h => absurd h (hd m run)

theorem Follows.arrives (h : Follows t b)
    (ha : ∀ m run, b.control = .drive m run → t.world.Accepts run.context) : Arrives t b := by
  cases h with
  | works hg hw hbased => exact hg.arrives hw hbased ha
  | leaves hg hw hfs haway h => exact h.arrives hg hw hfs haway (ha _ _ rfl)
  | enters hg hw h =>
    obtain rfl := hg.eq_floor
    exact h.arrives (hg.arrives (a := ⟨.drive _ _, []⟩) hw (.inr (.machine _ _)) ha)
  | reports hg hw hl h =>
    exact h.arrives hg hw hl fun hg hw ha hd => hg.arrives hw ha fun m run h => absurd h (hd m run)
  | fails hg hw hfs =>
    exact .move hg.moves_panic (hg.arrives (a := ⟨.unwinding _, _⟩) hw
      (hfs.imp_right fun h => .of_frames (x := .error _) h) ha)

end Hop
end Effects
