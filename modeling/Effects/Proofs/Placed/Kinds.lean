import Effects.Proofs.Custody.Signs

/-!
Whether a thread belongs to a context is settled once and for all: contexts never change their kind,
and threads never their context.
-/

namespace Effects.World

/-- The contexts of the first world are in the second one, each of its kind. -/
def SameKinds (w w' : World) : Prop :=
  ∀ (d : ContextId) (context : Context), w.contexts[d]? = some context →
    ∃ context' : Context, w'.contexts[d]? = some context' ∧ context'.kind = context.kind

variable {w w' w'' : World} {d : ContextId}

namespace SameKinds

theorem of_eq (h : w'.contexts = w.contexts) : w.SameKinds w' :=
  fun _ context hd => ⟨context, h ▸ hd, rfl⟩

theorem refl (w : World) : w.SameKinds w := of_eq rfl

theorem trans (h : w.SameKinds w') (h' : w'.SameKinds w'') : w.SameKinds w'' := by
  intro d context hd
  obtain ⟨context', hd', hk⟩ := h d context hd
  obtain ⟨context'', hd'', hk'⟩ := h' d context' hd'
  exact ⟨context'', hd'', hk'.trans hk⟩

theorem push (w : World) (context : Context) :
    w.SameKinds { w with contexts := w.contexts.push context } :=
  fun _ context' hd => ⟨context', push_getElem? hd, rfl⟩

theorem set (d : ContextId) (context : Context)
    (h : ∀ old, w.contexts[d]? = some old → context.kind = old.kind) :
    w.SameKinds { w with contexts := w.contexts.setIfInBounds d context } := by
  intro d' old hd'
  by_cases hd : d = d'
  · subst hd
    have hsize : d < w.contexts.size := (Array.getElem?_eq_some_iff.1 hd').1
    exact ⟨context, by simp [hsize], h old hd'⟩
  · exact ⟨old, by simp [hd, hd'], rfl⟩

theorem lt_size (h : w.SameKinds w') (hd : d < w.contexts.size) : d < w'.contexts.size := by
  obtain ⟨context', hd', -⟩ := h d w.contexts[d] (Array.getElem?_eq_getElem hd)
  exact (Array.getElem?_eq_some_iff.1 hd').1

theorem isCurrent (h : w.SameKinds w') (hd : d < w.contexts.size) (home : Option ContextId) :
    w'.isCurrent home d = w.isCurrent home d := by
  have hw := Array.getElem?_eq_getElem hd
  obtain ⟨context', hw', hk⟩ := h d _ hw
  simp only [World.isCurrent, hw, hw', hk]

end SameKinds

theorem onContext_kinds (w : World) (home : Option ContextId) (d : ContextId)
    (op : ContextOp Code) : w.SameKinds (w.onContext home d op).1 := by
  have here : ∀ {old}, w.contexts[d]? = some old → w.contexts[d]?.getD .inline = old :=
    fun h => by rw [h, Option.getD_some]
  cases op with
  | isCurrent | describe => exact .refl w
  | derive label => exact .push w _
  | close => exact .set d _ fun old h => by rw [← here h]
  | execute task =>
    simp only [onContext, spawnThread]
    split
    · exact .refl w
    · have hcounted := SameKinds.set (w := w) d
        { w.contexts[d]?.getD .inline with spawned := (w.contexts[d]?.getD .inline).spawned + 1 }
        fun old h => by rw [← here h]
      split
      · exact hcounted
      · split <;> exact hcounted
    · exact .set d _ fun old h => by rw [← here h]

theorem openContext_kinds (w : World) (name : String) (serial : Bool) (stackSize : Option Nat) :
    w.SameKinds (w.openContext name serial stackSize).1 := by
  simp only [openContext]
  split
  · split <;> exact .push w _
  · exact .push w _

theorem perform_kinds (w : World) (here : Place) (op : Op) : w.SameKinds (w.perform here op).1 := by
  cases op with
  | connection c op =>
    obtain ⟨connections, hw⟩ := onConnection_shape w c op
    exact .of_eq (by rw [perform, hw])
  | await l =>
    simp only [perform]
    split <;> exact .of_eq rfl
  | fiber f op => cases op <;> exact .of_eq rfl
  | openContext name serial stackSize =>
    simp only [perform]
    split
    · exact .refl w
    · exact openContext_kinds w name serial stackSize
  | context d op => exact onContext_kinds w here.home d op
  | slot s request phase =>
    obtain ⟨slots, latches, hw⟩ := onSlot_shape w s request phase
    exact .of_eq (by rw [perform, hw])
  | promise p request phase =>
    obtain ⟨promises, latches, hw⟩ := onPromise_shape w p request phase
    exact .of_eq (by rw [perform, hw])
  | factorBetween low high =>
    rw [perform_factorBetween]
    exact .of_eq rfl
  | _ => exact .of_eq rfl

theorem act_kinds (w : World) (here : Place) (a : Activity) : w.SameKinds (w.act here a).1 := by
  rw [act_world]
  cases a.op? with
  | none => exact .refl w
  | some op => exact perform_kinds w here op

theorem Takes.kinds {role : Role} {task : Option Code} (h : w.Takes role w' task) :
    w.SameKinds w' := by
  cases h with
  | worker hcontext =>
    refine .set _ _ fun old hold => ?_
    obtain rfl := Option.some.inj (hcontext.symm.trans hold)
    rfl
  | timer => exact .of_eq rfl

theorem step_kinds (w : World) (i : ThreadId) : w.SameKinds (w.step i) := by
  generalize hu : w.step i = u
  cases steps_of_step hu with
  | stays | retires => exact .of_eq rfl
  | skips _ htakes => exact htakes.kinds
  | begins _ htakes => exact htakes.kinds.trans (.of_eq rfl)
  | @acts thread => exact (act_kinds w thread.place thread.activity).trans (.of_eq rfl)

end Effects.World
