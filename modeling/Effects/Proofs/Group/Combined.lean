import Effects.Proofs.Group.Joined

/-!
What parallel maps and sequences come to.
-/

namespace Effects.Gathering

open Effect

variable {ε α β γ κ : Type} [Datum α] [Datum β] [Datum γ] [Datum κ] {branches : List Node}
  {combine : List Value → Code} {total : List Value → Value} {code : Code} {frame : Frame}
  {env : Surroundings} {run : Run} {next : List Cont} {w : World} {place : Place} {seen : List Sign}
  {t : Scene}

def pairTotal (f : α → β → γ) : List Value → Value
  | [v, w] => write (f (read v) (read w))
  | _ => .null

def tripleTotal (f : α → β → γ → κ) : List Value → Value
  | [v, w, x] => write (f (read v) (read w) (read x))
  | _ => .null

theorem joined_of_step {node : Node}
    (hstep : (Machine.focus node next).step env run = .call code frame)
    (hnode : (Machine.focus node next).step env run =
      .call (Group.code branches combine run) (.node next run))
    (htotal : ∀ values, values.length = branches.length →
      Hands (combine values) (.completed (total values)))
    (h : Runs (asked code w place) seen t) :
    frame = .node next run ∧ Joined branches total seen t := by
  obtain ⟨rfl, rfl⟩ := Transition.call.inj (hstep.symm.trans hnode)
  obtain ⟨got, hstands⟩ := h.stands
  exact ⟨rfl, hstands.joined htotal⟩

/-- Parallel maps and sequences, in every order of the steps of all threads. The frame that waits for
the answer keeps the run of the machine, its context included. -/
theorem group_joins {node : Node}
    (hstep : (Machine.focus node next).step env run = .call code frame)
    (h : Runs (asked code w place) seen t) :
    (∀ (a : Effect ε α) (b : Effect ε β) (f : α → β → γ), node = (parMap₂ a b f).node →
      frame = .node next run ∧ Joined [a.node, b.node] (pairTotal f) seen t) ∧
    (∀ (a : Effect ε α) (b : Effect ε β) (c : Effect ε γ) (f : α → β → γ → κ),
      node = (parMap₃ a b c f).node →
        frame = .node next run ∧ Joined [a.node, b.node, c.node] (tripleTotal f) seen t) ∧
    ∀ es : List (Effect ε α), es ≠ [] → node = (parSequence es).node →
      frame = .node next run ∧ Joined (es.map Effect.node) .arr seen t := by
  refine ⟨?_, ?_, ?_⟩
  · rintro a b f rfl
    refine joined_of_step hstep rfl (fun values hlen => ?_) h
    match values, hlen with
    | [v, w], _ => exact hands_build _
  · rintro a b c f rfl
    refine joined_of_step hstep rfl (fun values hlen => ?_) h
    match values, hlen with
    | [v, w, x], _ => exact hands_build _
  · rintro es hsome rfl
    cases es with
    | nil => exact absurd rfl hsome
    | cons e es => exact joined_of_step hstep rfl (fun values _ => hands_give _) h

/-- The second branch fails, and cancels the first one, which has completed all the same. -/
theorem group_joins_of_error : ∃ (code : Code) (frame : Frame) (env : Surroundings) (w : World)
    (place : Place) (seen : List Sign) (t : Scene),
      (Machine.focus (parMap₂ (.pure 1 : Effect Unit Nat) (.raise () : Effect Unit Nat)
        Nat.add).node []).step env ⟨1, 1⟩ = .call code frame ∧
      Runs (asked code w place) seen t ∧ claims seen = [1] ∧ t.answer ≠ none ∧
      Joined [(Effect.pure 1 : Effect Unit Nat).node, (Effect.raise () : Effect Unit Nat).node]
        (pairTotal Nat.add) seen t := by
  let a : Node := (Effect.pure 1 : Effect Unit Nat).node
  let b : Node := (Effect.raise () : Effect Unit Nat).node
  let here : Place := ⟨"caller", none⟩
  let caller : Thread := ⟨"caller", none, .task, World.idle⟩
  let env : Surroundings := ⟨fun _ => true, fun _ => false⟩
  let run : Run := ⟨1, 1⟩
  let g : Group := ⟨[2, 3], 0⟩
  let finish : List Value → Code := fun
    | [v, w] => .build (.pure (write (Nat.add (read v) (read w))))
    | _ => .panic "two values expected"
  let x : Lane := lane g 0 0 a 2
  let y : Lane := lane g 1 1 b 3
  let derived (i : Nat) : Context := Context.global.derive ("par-" ++ toString i)
  let thread (i : Nat) (z : Lane) : Thread :=
    ⟨(derived i).threadName, some z.run.context, .task, .start z.task⟩
  let branch (i : Nat) (z : Lane) (a : Activity) : Branch := ⟨(thread i z).place, a⟩
  let world (threads : List Thread) (contexts : List Context) (connection : Connection Code)
      (cell : Cell (Option Nat)) (latches : List (Latch (Except String Reply))) : World :=
    { World.start with
      threads := ⟨caller :: threads⟩
      contexts := ⟨[.inline, .global] ++ contexts⟩
      connections := #[.uncancelable, .active [Routine.task g.cancelAll], connection, .new]
      cells := #[cell]
      latches := ⟨latches⟩ }
  let free : Cell (Option Nat) := ⟨none, 0⟩
  let used (i : Nat) : Context := { derived i with spawned := 1 }
  let s := asked (Group.code [a, b] finish run)
    { World.start with threads := #[caller], connections := #[.uncancelable, .new] } here
  have hpushed : Runs s [] ⟨world [] [] .new free [], here,
      ⟨.code (forking finish run g [(a, 0), (b, 1)] []), []⟩, [2, 3], some 0, [], [], none⟩ :=
    Runs.start (s := s) |>.calls rfl rfl nofun nofun |>.calls rfl rfl nofun nofun
      |>.calls rfl rfl nofun nofun |>.calls rfl rfl nofun nofun
  rw [forking_cons] at hpushed
  have hfirst : Runs s [] ⟨world [thread 0 x] [used 0] .new free [.empty], here,
      ⟨.code (forking finish run g [(b, 1)] [0]), []⟩, [2, 3], some 0, [0],
        [branch 0 x (thread 0 x).activity], none⟩ :=
    hpushed.calls rfl rfl nofun nofun |>.calls rfl rfl nofun nofun
      |>.spawns rfl rfl rfl rfl (by decide +kernel) rfl
  rw [forking_cons] at hfirst
  have hsecond : Runs s [] ⟨world [thread 0 x, thread 1 y] [used 0, used 1] .new free
      [.empty, .empty], here, ⟨.code (forking finish run g [] [0, 1]), []⟩, [2, 3], some 0, [0, 1],
        [branch 0 x (thread 0 x).activity, branch 1 y (thread 1 y).activity], none⟩ :=
    hfirst.calls rfl rfl nofun nofun |>.calls rfl rfl nofun nofun
      |>.spawns rfl rfl rfl rfl (by decide +kernel) rfl
  rw [forking_nil] at hsecond
  let scene (connection : Connection Code) (cell : Cell (Option Nat))
      (latches : List (Latch (Except String Reply))) (one two : Activity) : Scene :=
    ⟨world [thread 0 x, thread 1 y] [used 0, used 1] connection cell latches, here,
      ⟨.code (awaiting finish run g [0, 1] []), []⟩, [2, 3], some 0, [0, 1],
        [branch 0 x one, branch 1 y two], none⟩
  let done : Activity := ⟨.code (.give .unit), []⟩
  let value : Exit := .completed (write 1)
  let error : Exit := .errored (write ())
  let failing : List Sign := ending 1 b y.run 1 [2] (.ok error) true
  let completing : List Sign := ending 0 a x.run 0 [3] (.ok value) false
  have hended : Runs s [.began 1 (.focus b []) y.run, .ended 1 (.ok error)]
      (scene .new free [.empty, .empty] (thread 0 x).activity
        ⟨.code (y.reporting (.ok error)), []⟩) :=
    hsecond.runs [_] rfl rfl |>.runs [_] rfl rfl |>.runs [_] rfl rfl |>.runs [_] rfl rfl
      |>.runs [_] rfl rfl
  have hclaimed : Runs s [.began 1 (.focus b []) y.run, .ended 1 (.ok error), .claimed 1]
      (scene .new ⟨some 1, 1⟩ [.empty, .empty] (thread 0 x).activity
        ⟨.code (y.canceling (.ok error) [2]), []⟩) :=
    hended.runs [_] rfl rfl |>.runs [_] rfl rfl
  have hfailed : Runs s failing (scene .canceled ⟨some 1, 1⟩
      [.empty, .full (.ok (.outcome error))] (thread 0 x).activity done) :=
    hclaimed.runs [_] rfl rfl |>.runs [_] rfl rfl
  have hvalue : Runs s (failing ++ [.began 0 (.focus a []) x.run, .ended 0 (.ok value)])
      (scene .canceled ⟨some 1, 1⟩ [.empty, .full (.ok (.outcome error))]
        ⟨.code (x.reporting (.ok value)), []⟩ done) :=
    hfailed.runs [] rfl rfl |>.runs [] rfl rfl |>.runs [] rfl rfl |>.runs [] rfl rfl
      |>.runs [] rfl rfl
  have hcompleted : Runs s (failing ++ completing) (scene .canceled ⟨some 1, 1⟩
      [.full (.ok (.outcome value)), .full (.ok (.outcome error))] done done) :=
    hvalue.runs [] rfl rfl
  have hfull : ∀ l ∈ [0, 1], ∃ exit : Exit, (scene .canceled ⟨some 1, 1⟩
      [.full (.ok (.outcome value)), .full (.ok (.outcome error))] done done).world.latches[l]? =
        some (.full (.ok (.outcome exit))) := by
    intro l hl
    obtain rfl | hl := List.mem_cons.1 hl
    · exact ⟨value, rfl⟩
    · obtain rfl := List.mem_singleton.1 hl
      exact ⟨error, rfl⟩
  obtain ⟨u, hu, hanswer⟩ := hcompleted.awaits [0, 1] rfl rfl (by decide) hfull
  have hstep : (Machine.focus (parMap₂ (.pure 1 : Effect Unit Nat) (.raise () : Effect Unit Nat)
      Nat.add).node []).step env run = .call (Group.code [a, b] finish run) (.node [] run) := rfl
  refine ⟨_, _, env, _, _, _, u, hstep, hu, ?_, hanswer, ?_⟩
  · simp [failing, completing, ending, claims]
  · exact ((group_joins (γ := Nat) (κ := Nat) hstep hu).1 _ _ _ rfl).2

end Effects.Gathering
