import Effects.Proofs.Placed.Moved

/-!
Where the closures of a run are called, and where what they come to is run: on a thread of the
context that the run is on by then.
-/

namespace Effects

/-- The thread runs code that a machine of the run has called. -/
def Relay.Lends (t : Relay) (run : Run) : Prop :=
  ∃ above frame below, t.activity.stack = above ++ frame :: below ∧ frame.lends? = some run ∧
    (below ++ t.left.flatMap Prod.snd).any Frame.isCode = false

namespace Placed

open Evaluation (isEval)

variable {d : ContextId} {w : World} {here : Place} {t u : Relay} {fs gs : List Frame}
  {frame : Frame} {run : Run} {n : Node}
  {switched : List ContextId}

theorem Moves.kinds (h : t.Moves u) : t.world.SameKinds u.world := by
  cases h with
  | act => exact World.act_kinds t.world t.place t.activity
  | hop | back => exact .refl _

/-- The context exists, and the run is on it. -/
structure Holds (d : ContextId) (t : Relay) : Prop where
  stands : Stands d t
  exist : d < t.world.contexts.size

namespace Holds

theorem moves (h : Holds d t) (hm : t.Moves u) (hs : ∀ d ∈ t.switches, d < t.world.contexts.size) :
    Holds (d.after t.switches) u := by
  refine ⟨h.stands.moves h.exist hm, (Moves.kinds hm).lt_size ?_⟩
  cases hlast : t.switches.getLast? with
  | none =>
    rw [ContextId.after, hlast]
    exact h.exist
  | some target =>
    rw [ContextId.after, hlast]
    exact hs target (List.mem_of_getLast? hlast)

theorem others (h : Holds d t) {w : World} (hw : t.world.SameKinds w) :
    Holds d { t with world := w } :=
  ⟨h.stands.of_kinds hw h.exist, hw.lt_size h.exist⟩

theorem travels {s : Relay} (h : Holds d s) (ht : s.Travels switched t) :
    Holds (d.after switched) t := by
  induction ht with
  | start => exact h
  | own _ hm hs ih => exact ContextId.after_append d _ _ ▸ ih.moves hm hs
  | @thread switched t _ i ih => exact ih.others (World.step_kinds t.world i)
  | passing _ nanos ih => exact ih.others (.of_eq rfl)

end Holds

theorem Evals.not_lends (h : Evals fs) (hl : frame.lends? = some run) : frame ∉ fs := by
  intro hf
  have heval := h frame hf
  cases frame with
  | node | opening | call | attempt | tokens => cases heval
  | _ => cases hl

/-- Above the frame itself there is other code, below it there are evaluations only. -/
theorem eq_of_append {f frame₀ : Frame} {fs₀ above below : List Frame}
    (h : (gs ++ [f]) ++ frame₀ :: fs₀ = above ++ frame :: below) (hf : f.isCode = true)
    (hfs : Evals fs₀) (hl : frame.lends? = some run) (hbelow : below.any Frame.isCode = false) :
    frame = frame₀ := by
  -- were it further down, it would be an evaluation, and further up, `f` would stand below it
  obtain ⟨more, hmore, hrest⟩ | ⟨more, hmore, hrest⟩ := List.append_eq_append_iff.1 h
  · cases more with
    | nil => exact (List.cons.inj hrest).1.symm
    | cons x more =>
      obtain ⟨-, rfl⟩ := List.cons.inj hrest
      exact absurd (by simp) (hfs.not_lends hl)
  · cases more with
    | nil => exact (List.cons.inj hrest).1
    | cons x more =>
      obtain ⟨rfl, rfl⟩ := List.cons.inj hrest
      have hlast : (frame :: more).getLast? = some f := by
        rw [← List.getLast?_append_cons above, ← hmore, List.getLast?_concat]
      obtain rfl | hmem := List.mem_cons.1 (List.mem_of_getLast? hlast)
      · rw [Frame.isCode_of_lends hl] at hf
        cases hf
      · have hany := List.any_eq_false.1 hbelow f (List.mem_append_left _ hmem)
        exact absurd hf hany

theorem Stands.lends (h : Stands d t) (hl : t.Lends run) :
    run.context = d ∧ t.world.isCurrent t.place.home d = true := by
  obtain ⟨above, frame, below, hstack, hl, hbelow⟩ := hl
  have hmem : frame ∈ t.activity.stack := by simp [hstack]
  cases h with
  | drive _ _ hfs | given _ _ hfs | unwinding _ hfs =>
    exact absurd (List.mem_append_left _ hmem) (hfs.not_lends hl)
  | ended | failed => cases hmem
  | called _ hl' hd hfs hw | panicked _ hl' hd hfs hw =>
    cases above with
    | nil =>
      obtain ⟨rfl, rfl⟩ := List.cons.inj hstack
      obtain rfl := Option.some.inj (hl.symm.trans hl')
      exact ⟨hd, hw⟩
    | cons x above =>
      obtain ⟨-, rfl⟩ := List.cons.inj hstack
      exact absurd (by simp) (hfs.not_lends hl)
  | @inside t others waiting there gs fs f frame₀ run' ht hf hl' hd hfs hw =>
    cases others with
    | nil =>
      obtain ⟨hhead, rfl⟩ := List.cons.inj ht
      obtain ⟨rfl, hstack'⟩ := Prod.mk.inj hhead
      have hsplit : (gs ++ [f]) ++ frame₀ :: fs = above ++ frame :: below := by
        rw [← hstack, hstack']
        simp
      rw [List.any_append, Bool.or_eq_false_iff] at hbelow
      obtain rfl := eq_of_append hsplit hf (fun frame h => hfs frame (List.mem_append_left _ h)) hl
        hbelow.1
      obtain rfl := Option.some.inj (hl.symm.trans hl')
      exact ⟨hd, hw⟩
    | cons p others =>
      obtain ⟨-, hleft⟩ := List.cons.inj ht
      have hmem : f ∈ below ++ t.left.flatMap Prod.snd := by
        rw [hleft]
        simp
      exact absurd hf (List.any_eq_false.1 hbelow f hmem)

theorem Stands.calls (h : Stands d t) (hin : t.flat.inside = false) (hc : t.calls ≠ []) :
    t.world.isCurrent t.place.home d = true := by
  cases h with
  | @drive w here m run fs left hd hfs =>
    subst hd
    by_contra hcurrent
    exact hc (if_neg hcurrent)
  | @given w here exit run fs left hd hfs =>
    subst hd
    cases fs with
    | nil => exact absurd rfl hc
    | cons frame fs => exact Frame.exited_calls (hfs frame List.mem_cons_self) hc
  | called _ _ _ _ hw => exact hw
  | inside above gs ht hf => exact absurd (inside_of_threads ht hf) (by simp [hin])
  | ended | unwinding | failed | panicked => exact absurd rfl hc

/-- A run calls its closures, and runs what they come to, on a thread that belongs to the context
that it has switched to last, or to the one that it has begun with if there was no switch. It does
not matter on which thread it has begun, how the computation has ended that made the switch, or in
which evaluation and where that was. The branches of a parallel group are runs of their own; what is
made of their values is a part of the code that the run of the group has called. -/
theorem closures_on_context (hd : run.context < w.contexts.size)
    (h : Relay.Travels ⟨w, here, ⟨.drive (.focus n []) run, []⟩, []⟩ switched t) :
    (t.flat.inside = false → t.calls ≠ [] →
      t.world.isCurrent t.place.home (run.context.after switched) = true) ∧
    ∀ run', t.Lends run' → run'.context = run.context.after switched ∧
      t.world.isCurrent t.place.home (run.context.after switched) = true := by
  have hstart : Holds run.context ⟨w, here, ⟨.drive (.focus n []) run, []⟩, []⟩ :=
    ⟨.drive _ rfl fun _ h => absurd h List.not_mem_nil, hd⟩
  have hstands := (hstart.travels h).stands
  exact ⟨hstands.calls, fun run' hl => hstands.lends hl⟩

/-- What is instrumented switches to another context, and ends there; its exit comes back to the
thread that has waited for it, and the closure is called on the other one all the same. -/
theorem closures_on_context_of_instrumented :
    let f : Value → Code := fun v => .build (.pure v)
    let n : Node := .map (.instrument (.continueOn (.pure .null) .global)) f
    let run : Run := ⟨.inline, .uncancelable⟩
    let here : Place := ⟨"caller", none⟩
    ∃ t : Relay, run.context < World.start.contexts.size ∧
      Relay.Travels ⟨.start, here, ⟨.drive (.focus n []) run, []⟩, []⟩ [.global] t ∧
      t.flat.inside = false ∧ t.calls = [f .null] ∧
      (t.flat.inside = false → t.calls ≠ [] →
        t.world.isCurrent t.place.home (run.context.after [.global]) = true) ∧
      ∀ run', t.Lends run' → run'.context = run.context.after [.global] ∧
        t.world.isCurrent t.place.home (run.context.after [.global]) = true := by
  intro f n run here
  let there : Place := ⟨"global", some .global⟩
  let run' : Run := ⟨.global, .uncancelable⟩
  let wait : List Frame := [.instrumented [.map f]]
  let is (place : Place) (control : Control) (stack : List Frame)
      (left : List (Place × List Frame)) : Relay := ⟨.start, place, ⟨control, stack⟩, left⟩
  let s := is here (.drive (.focus n []) run) [] []
  let given : Control := .code (.give (.ended (.completed .null) run'))
  have moved : ∀ {ds : List ContextId} {t : Relay} (more : List ContextId) (u : Relay),
      Relay.Travels s ds t → t.Moves u → t.switches = more →
        (∀ d ∈ more, d < t.world.contexts.size) → Relay.Travels s (ds ++ more) u := by
    rintro ds t _ u h hm rfl hs
    exact .own h hm hs
  have acts : ∀ {ds : List ContextId} {t : Relay} (more : List ContextId) (u : Relay),
      Relay.Travels s ds t → t.own = u → t.activity.Acts t.world t.place → t.switches = more →
        (∀ d ∈ more, d < t.world.contexts.size) → Relay.Travels s (ds ++ more) u := by
    rintro ds t more _ h rfl ha hm hs
    exact moved more _ h (.act ha) hm hs
  have entered := acts [] (is here (.drive (.focus (.instrument (.continueOn (.pure .null) .global))
    [.map f]) run) [] []) .start rfl rfl rfl nofun
  have instrumented := acts [] (is here (.drive (.focus (.continueOn (.pure .null) .global) []) run)
    wait []) entered rfl rfl rfl nofun
  have pushed := acts [] (is here (.drive (.focus (.pure .null) [.switch .global]) run) wait [])
    instrumented rfl rfl rfl nofun
  have switched := acts [.global] (is here (.drive (.unwind (.completed .null) []) run') wait [])
    pushed rfl rfl rfl (by decide)
  have hopped := moved [] (is there (.drive (.unwind (.completed .null) []) run') [] [(here, wait)])
    switched (.hop there rfl) rfl nofun
  have finished := acts [] (is there given [] [(here, wait)]) hopped rfl rfl rfl nofun
  have ended := acts [] (is there (.ended (.ok (.ended (.completed .null) run'))) [] [(here, wait)])
    finished rfl trivial rfl nofun
  have back := moved [] (is here given wait []) ended .back rfl nofun
  have deferred := acts [] (is here (.drive (.focus (.suspend (f .null)) []) run') [] []) back rfl
    trivial rfl nofun
  have calling := moved [] (is there (.drive (.focus (.suspend (f .null)) []) run') [] [(here, [])])
    deferred (.hop there rfl) rfl nofun
  have hd : run.context < World.start.contexts.size := by decide
  exact ⟨_, hd, calling, rfl, rfl, closures_on_context hd calling⟩

end Placed
end Effects
