import Effects.Proofs.Placed.Switches

/-!
What a run is at that is on some context. Its machine goes on with that context wherever it is, and
the thread that runs what the machine has called belongs to it.

A step of a run leaves it on its context, or on the one that it switches to.
-/

namespace Effects.Placed

open Evaluation (isEval)

/-- Waits for the ends of evaluations, and for nothing else. -/
def Evals (fs : List Frame) : Prop := ∀ frame ∈ fs, isEval frame = true

/-- Code that a machine has called, or what that has called. -/
inductive Called : Activity → Prop
  | code (x : Code) : Called ⟨.code x, []⟩
  | unwinding (message : String) : Called ⟨.unwinding message, []⟩
  | inside (a : Activity) {f : Frame} (hf : f.isCode = true) : Called (a.atop [f])

/-- Who runs what: this thread, and those that wait. -/
def threads (t : Relay) : List (Place × List Frame) := (t.place, t.activity.stack) :: t.left

/-- What a run is at that is on the context. -/
inductive Stands (d : ContextId) : Relay → Prop
  | drive {w : World} {here : Place} (m : Machine) {run : Run} {fs : List Frame}
      {left : List (Place × List Frame)} (hd : run.context = d)
      (hfs : Evals (fs ++ left.flatMap Prod.snd)) : Stands d ⟨w, here, ⟨.drive m run, fs⟩, left⟩
  | given {w : World} {here : Place} (exit : Exit) {run : Run} {fs : List Frame}
      {left : List (Place × List Frame)} (hd : run.context = d)
      (hfs : Evals (fs ++ left.flatMap Prod.snd)) :
      Stands d ⟨w, here, ⟨.code (.give (.ended exit run)), fs⟩, left⟩
  | ended {w : World} {here : Place} (exit : Exit) {run : Run}
      {left : List (Place × List Frame)} (hd : run.context = d)
      (hfs : Evals (left.flatMap Prod.snd)) :
      Stands d ⟨w, here, ⟨.ended (.ok (.ended exit run)), []⟩, left⟩
  | called {w : World} {here : Place} (x : Code) {run : Run} {frame : Frame} {fs : List Frame}
      {left : List (Place × List Frame)} (hl : frame.lends? = some run) (hd : run.context = d)
      (hfs : Evals (fs ++ left.flatMap Prod.snd)) (hw : w.isCurrent here.home d = true) :
      Stands d ⟨w, here, ⟨.code x, frame :: fs⟩, left⟩
  | inside {t : Relay} (above : List (Place × List Frame)) {below : List (Place × List Frame)}
      {there : Place} (gs : List Frame) {fs : List Frame} {f frame : Frame} {run : Run}
      (ht : threads t = above ++ (there, gs ++ f :: frame :: fs) :: below) (hf : f.isCode = true)
      (hl : frame.lends? = some run) (hd : run.context = d)
      (hfs : Evals (fs ++ below.flatMap Prod.snd)) (hw : t.world.isCurrent there.home d = true) :
      Stands d t
  | panicked {w : World} {here : Place} (message : String) {run : Run} {frame : Frame}
      {fs : List Frame} {left : List (Place × List Frame)} (hl : frame.lends? = some run)
      (hd : run.context = d) (hfs : Evals (fs ++ left.flatMap Prod.snd))
      (hw : w.isCurrent here.home d = true) :
      Stands d ⟨w, here, ⟨.unwinding message, frame :: fs⟩, left⟩
  | unwinding {w : World} {here : Place} (message : String) {fs : List Frame}
      {left : List (Place × List Frame)} (hfs : Evals (fs ++ left.flatMap Prod.snd)) :
      Stands d ⟨w, here, ⟨.unwinding message, fs⟩, left⟩
  | failed {w : World} {here : Place} (message : String) {left : List (Place × List Frame)}
      (hfs : Evals (left.flatMap Prod.snd)) :
      Stands d ⟨w, here, ⟨.ended (.error message), []⟩, left⟩

variable {d : ContextId} {w : World} {here : Place} {a : Activity} {fs : List Frame}
  {left : List (Place × List Frame)} {frame : Frame} {run : Run} {tr : Transition}

theorem Evals.plain (h : Evals fs) : fs.any Frame.isCode = false := by
  rw [List.any_eq_false]
  intro frame hframe
  rw [Frame.isCode_of_isEval (h frame hframe)]
  exact Bool.false_ne_true

theorem Evals.cons (hf : isEval frame = true) (h : Evals fs) : Evals (frame :: fs) :=
  List.forall_mem_cons.2 ⟨hf, h⟩

theorem Called.act (h : Called a) (hs : a.stack ≠ [] ∨ a.control.settles = false) (w : World)
    (here : Place) : Called (w.act here a).2 := by
  -- with whatever the code is to be followed by
  have hfollowed : ∀ {b b' : Activity}, Followed (fun _ => .panic "") b b' → Called b := by
    intro b b' h
    cases h with
    | code x => exact .code x
    | unwinding message => exact .unwinding message
    | above b f hf => exact .inside b hf
  obtain ⟨b, hb⟩ : ∃ b, Followed (fun _ => .panic "") a b := by
    cases h with
    | code x => exact ⟨_, .code x⟩
    | unwinding message => exact ⟨_, .unwinding message⟩
    | inside a hf => exact ⟨_, .above a _ hf⟩
  exact hfollowed (hb.act w here hs).2

namespace Stands

/-- Called code is run on a thread of the context. -/
theorem of_called (ha : Called a) (hl : frame.lends? = some run) (hd : run.context = d)
    (hfs : Evals (fs ++ left.flatMap Prod.snd)) (hw : w.isCurrent here.home d = true) :
    Stands d ⟨w, here, a.atop (frame :: fs), left⟩ := by
  cases ha with
  | code x => exact .called x hl hd hfs hw
  | unwinding message => exact .panicked message hl hd hfs hw
  | inside a hf =>
    refine .inside [] a.stack ?_ hf hl hd hfs hw
    simp [threads, Activity.atop]

theorem of_on (ht : tr.On (w.surroundings here.home) d)
    (hfs : Evals (fs ++ left.flatMap Prod.snd)) : Stands d ⟨w, here, .after tr fs, left⟩ := by
  cases tr with
  | go machine run => exact .drive machine ht hfs
  | call code frame =>
    obtain ⟨hw, run, hl, hd⟩ := ht
    exact .called code hl hd hfs hw
  | enter node run frame => exact .drive _ ht.1 (.cons ht.2 hfs)
  | finished exit run => exact .given exit ht hfs

theorem of_kinds (h : Stands d ⟨w, here, a, left⟩) {w' : World} (hw : w.SameKinds w')
    (hd : d < w.contexts.size) : Stands d ⟨w', here, a, left⟩ := by
  cases h with
  | drive m hrun hfs => exact .drive m hrun hfs
  | given exit hrun hfs => exact .given exit hrun hfs
  | ended exit hrun hfs => exact .ended exit hrun hfs
  | called x hl hrun hfs hc => exact .called x hl hrun hfs (by rwa [hw.isCurrent hd])
  | inside above gs ht hf hl hrun hfs hc =>
    exact .inside (t := ⟨w', here, a, left⟩) above gs ht hf hl hrun hfs (by rwa [hw.isCurrent hd])
  | panicked message hl hrun hfs hc =>
    exact .panicked message hl hrun hfs (by rwa [hw.isCurrent hd])
  | unwinding message hfs => exact .unwinding message hfs
  | failed message hfs => exact .failed message hfs

end Stands

variable {t u : Relay} {gs : List Frame} {exit : Exit} {x : Code}

theorem switches_of_plain (fs : List Frame) {control : Control}
    (h : (fs ++ left.flatMap Prod.snd).any Frame.isCode = false) :
    Relay.switches ⟨w, here, ⟨control, fs⟩, left⟩ = w.switches here ⟨control, fs⟩ := by
  rw [Relay.switches, Activity.inside, Relay.flat, Relay.frames, h]
  rfl

theorem inside_of_threads {above below : List (Place × List Frame)} {there : Place} {f : Frame}
    (ht : threads t = above ++ (there, gs ++ f :: fs) :: below) (hf : f.isCode = true) :
    t.flat.inside = true := by
  have hframes : t.frames = (threads t).flatMap Prod.snd := rfl
  rw [Activity.inside, Relay.flat, hframes, ht]
  exact List.any_eq_true.2 ⟨f, by simp, hf⟩

theorem exited_of_isEval (hf : isEval frame = true) (env : Surroundings) (exit : Exit) (run : Run) :
    ∃ tr, frame.exited env exit run = some tr := by
  cases frame with
  | acquiring => cases exit <;> exact ⟨_, rfl⟩
  | node | opening | call | attempt | tokens => cases hf
  | _ => exact ⟨_, rfl⟩

namespace Stands

theorem given_act (hfs : Evals (fs ++ left.flatMap Prod.snd)) :
    Stands (run.context.after (w.switches here ⟨.code (.give (.ended exit run)), fs⟩))
      (Relay.own ⟨w, here, ⟨.code (.give (.ended exit run)), fs⟩, left⟩) := by
  cases fs with
  | nil => exact .ended exit rfl hfs
  | cons frame fs =>
    have hf : isEval frame = true := hfs frame List.mem_cons_self
    obtain ⟨tr, htr⟩ := exited_of_isEval hf (w.surroundings here.home) exit run
    have hact : w.act here ⟨.code (.give (.ended exit run)), frame :: fs⟩ =
        (w, .after tr fs) := by
      have hfinish : Activity.finish (w.surroundings here.home) exit run frame fs =
          .after tr fs := by
        simp only [Activity.finish, htr]
      cases frame <;> first | exact congrArg (Prod.mk w) hfinish | cases hf
    have hon := Frame.exited_on hf htr
    rw [Relay.own, hact]
    exact of_on hon fun frame h => hfs frame (List.mem_cons_of_mem _ h)

theorem called_act (hl : frame.lends? = some run) (hfs : Evals (fs ++ left.flatMap Prod.snd))
    (hw : w.isCurrent here.home run.context = true) (hsize : run.context < w.contexts.size) :
    Stands (run.context.after (w.switches here ⟨.code x, frame :: fs⟩))
      (Relay.own ⟨w, here, ⟨.code x, frame :: fs⟩, left⟩) := by
  by_cases hsettles : (Control.code x).settles = false
  · have hact := World.act_atop w here ⟨.code x, []⟩ (frame :: fs) (.inr hsettles)
    have hswitches : w.switches here ⟨.code x, frame :: fs⟩ = [] := by
      cases x <;> first | rfl | cases hsettles
    have hkinds := World.act_kinds w here ⟨.code x, []⟩
    rw [hswitches]
    show Stands run.context ⟨(w.act here (Activity.atop ⟨.code x, []⟩ (frame :: fs))).1, here,
      (w.act here (Activity.atop ⟨.code x, []⟩ (frame :: fs))).2, left⟩
    rw [hact]
    exact of_called ((Called.code x).act (.inr hsettles) w here) hl rfl hfs
      (by rwa [hkinds.isCurrent hsize])
  · cases frame with
    | node next run' =>
      obtain rfl := Option.some.inj hl
      cases x with
      | give r =>
        cases r with
        | ended exit run => exact of_on (Machine.resume_on _ exit next run') hfs
        | outcome exit => exact of_on (Machine.resume_on _ exit next run') hfs
        | _ => exact .unwinding _ hfs
      | build n => exact .drive _ rfl hfs
      | guard => exact .unwinding _ hfs
      | panic | perform => exact absurd rfl hsettles
    | opening resource release next run' =>
      obtain rfl := Option.some.inj hl
      cases x with
      | give r => cases r <;> exact .unwinding _ hfs
      | build n => exact .drive _ rfl (.cons rfl hfs)
      | guard => exact .unwinding _ hfs
      | panic | perform => exact absurd rfl hsettles
    | _ => cases hl

/-- What the code does that has been called is no step of the run. -/
theorem inside_moves {above below : List (Place × List Frame)} {there : Place} {f : Frame}
    (ht : threads t = above ++ (there, gs ++ f :: frame :: fs) :: below) (hf : f.isCode = true)
    (hl : frame.lends? = some run) (hd : run.context = d)
    (hfs : Evals (fs ++ below.flatMap Prod.snd)) (hw : t.world.isCurrent there.home d = true)
    (hsize : d < t.world.contexts.size) (h : t.Moves u) : Stands d u := by
  cases h with
  | hop next hc =>
    exact .inside ((next, []) :: above) gs (congrArg (List.cons (next, [])) ht) hf hl hd hfs hw
  | back =>
    cases above with
    | nil =>
      obtain ⟨-, hnil⟩ := Prod.mk.inj (List.cons.inj ht).1
      simp at hnil
    | cons p above => exact .inside above gs (List.cons.inj ht).2 hf hl hd hfs hw
  | act ha =>
    obtain ⟨w, here, ⟨control, stack⟩, left⟩ := t
    have hkinds := World.act_kinds w here ⟨control, stack⟩
    have hw' : (w.act here ⟨control, stack⟩).1.isCurrent there.home d = true := by
      rwa [hkinds.isCurrent hsize]
    cases above with
    | nil =>
      obtain ⟨hhead, rfl⟩ := List.cons.inj ht
      obtain ⟨rfl, rfl⟩ := Prod.mk.inj hhead
      have hne : gs ++ [f] ≠ [] := by simp
      have hact := World.act_atop w here ⟨control, gs ++ [f]⟩ (frame :: fs) (.inl hne)
      have hflat : Activity.atop ⟨control, gs ++ [f]⟩ (frame :: fs) =
          ⟨control, gs ++ f :: frame :: fs⟩ := by simp [Activity.atop]
      rw [hflat] at hact
      have hcalled : Called ⟨control, gs ++ [f]⟩ := .inside ⟨control, gs⟩ hf
      rw [Relay.own]
      simp only [hact] at hw' ⊢
      exact of_called (hcalled.act (.inl hne) w here) hl hd hfs hw'
    | cons p above =>
      obtain ⟨-, hleft⟩ := List.cons.inj ht
      refine .inside ((here, (w.act here ⟨control, stack⟩).2.stack) :: above) gs ?_ hf hl hd hfs hw'
      exact congrArg (List.cons _) hleft

theorem moves (hs : Stands d t) (hsize : d < t.world.contexts.size) (h : t.Moves u) :
    Stands (d.after t.switches) u := by
  cases hs with
  | @drive w here m run fs left hd hfs =>
    subst hd
    rw [switches_of_plain fs hfs.plain]
    cases h with
    | hop there hc =>
      have hswitches : w.switches here ⟨.drive m run, fs⟩ = [] := if_neg (by simp [hc])
      rw [hswitches]
      exact .drive m rfl hfs
    | act ha =>
      have hc : w.isCurrent here.home run.context = true := ha
      have hswitches : w.switches here ⟨.drive m run, fs⟩ =
          m.switches (w.surroundings here.home) run := if_pos hc
      have hact : w.act here ⟨.drive m run, fs⟩ =
          (w, .after (m.step (w.surroundings here.home) run) fs) := if_pos hc
      rw [hswitches, Relay.own, hact]
      exact of_on (Machine.step_on m hc) hfs
  | @given w here exit run fs left hd hfs =>
    subst hd
    rw [switches_of_plain fs hfs.plain]
    cases h with
    | act => exact given_act hfs
  | @ended w here exit run left hd hfs =>
    subst hd
    rw [switches_of_plain [] hfs.plain]
    cases h with
    | act ha => exact ha.elim
    | back => exact .given exit rfl hfs
  | @called w here x run frame fs left hl hd hfs hw =>
    subst hd
    have hplain : (frame :: (fs ++ left.flatMap Prod.snd)).any Frame.isCode = false := by
      rw [List.any_cons, Frame.isCode_of_lends hl, hfs.plain]
      rfl
    rw [switches_of_plain (frame :: fs) hplain]
    cases h with
    | act => exact called_act hl hfs hw hsize
  | inside above gs ht hf hl hd hfs hw =>
    rw [Relay.switches, if_pos (inside_of_threads ht hf)]
    exact inside_moves ht hf hl hd hfs hw hsize h
  | @panicked w here message run frame fs left hl hd hfs hw =>
    cases h with
    | act =>
      rw [Relay.own, World.act_unwinding w here (Frame.isCode_of_lends hl)]
      exact .unwinding message hfs
  | @unwinding w here message fs left hfs =>
    cases h with
    | act =>
      cases fs with
      | nil => exact .failed message hfs
      | cons frame fs =>
        have hf : isEval frame = true := hfs frame List.mem_cons_self
        rw [Relay.own, World.act_unwinding w here (Frame.isCode_of_isEval hf)]
        exact .unwinding message fun frame h => hfs frame (List.mem_cons_of_mem _ h)
  | @failed w here message left hfs =>
    cases h with
    | act ha => exact ha.elim
    | back => exact .unwinding message hfs

end Stands
end Effects.Placed
