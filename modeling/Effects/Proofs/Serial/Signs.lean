import Effects.Proofs.Placed.Kinds

/-!
What is seen of a serial context while the threads of a world take their steps: what is put into its
queue, and what its worker does with that.
-/

namespace Effects

/-- Takes the tasks of the context. -/
def Role.works (c : ContextId) : Role → Bool
  | .worker d => d == c
  | _ => false

/-- What code hands down at its end: a reply, or a panic. -/
def Control.result? : Control → Option (Except String Reply)
  | .code (.give r) => some (.ok r)
  | .unwinding message => some (.error message)
  | _ => none

namespace Serial

inductive Sign where
  | queued (task : Code)
  | closed
  /-- The thread has taken the task out of the queue, and runs it from now on. -/
  | began (i : ThreadId) (task : Code)
  /-- A closure that the task has called has come to its end, and its panic has been caught. -/
  | answered (i : ThreadId) (result : Except String Reply)
  | ended (i : ThreadId) (result : Except String Reply)
  /-- The thread takes no more tasks. -/
  | retired (i : ThreadId)

def Sign.queued? : Sign → Option Code
  | .queued task => some task
  | _ => none

def Sign.begun? : Sign → Option Code
  | .began _ task => some task
  | _ => none

/-- What is seen of a call, from whatever thread. -/
def called (c : ContextId) (a : Activity) : List Sign :=
  match a.op? with
  | some (.context d (.execute task)) => if d = c then [.queued task] else []
  | some (.context d .close) => if d = c then [.closed] else []
  | _ => []

/-- What is seen of a thread that has no task. -/
def rested (w : World) (i : ThreadId) (role : Role) : List Sign :=
  match w.nextTask? role with
  | some (_, task) => task.toList.map (.began i)
  | none => if w.retires role then [.retired i] else []

/-- What is seen of a thread that has a task. -/
def worked (i : ThreadId) (a : Activity) : List Sign :=
  match a.stack with
  | [] => if a.control.settles then [.ended i (a.control.result?.getD (.ok .unit))] else []
  | [.attempt _] => a.control.result?.toList.map (.answered i)
  | _ => []

/-- What is seen of a thread that takes tasks. -/
def tended (w : World) (i : ThreadId) (thread : Thread) : List Sign :=
  match thread.activity.control with
  | .ended _ => rested w i thread.role
  | _ => worked i thread.activity

/-- What is seen of the context in the next step of a thread. -/
def signs (c : ContextId) (w : World) (i : ThreadId) : List Sign :=
  (w.threads[i]?).elim [] fun thread =>
    called c thread.activity ++ if thread.role.works c then tended w i thread else []

/-- The threads of a world in any order, and what is seen of the context meanwhile. -/
inductive Runs (c : ContextId) (w : World) : List Sign → World → Prop
  | start : Runs c w [] w
  | step {seen : List Sign} {v : World} (before : Runs c w seen v) (i : ThreadId) :
      Runs c w (seen ++ signs c v i) (v.step i)
  | passing {seen : List Sign} {v : World} (before : Runs c w seen v) (nanos : Nat) :
      Runs c w seen { v with clock := v.clock + nanos }

end Serial

variable {c d : ContextId} {w w' : World} {here : Place} {a : Activity} {i j : ThreadId}
  {thread : Thread} {context : Context} {op : Op}

/-- Neither puts a task into the queue of the context, nor closes it. -/
def Op.Spares (c : ContextId) (op : Op) : Prop :=
  (∀ task, op ≠ .context c (.execute task)) ∧ op ≠ .context c .close

namespace World

/-- The contexts are as before, one has been added, or another one has been used. -/
inductive ContextsFrom (w : World) (c : ContextId) (w' : World) : Prop
  | same (h : w'.contexts = w.contexts)
  | pushed (context : Context) (h : w'.contexts = w.contexts.push context)
  | other (d : ContextId) (context : Context) (hd : d ≠ c)
      (h : w'.contexts = w.contexts.setIfInBounds d context)

theorem ContextsFrom.kept (h : w.ContextsFrom c w') (hc : w.contexts[c]? = some context) :
    w'.contexts[c]? = some context := by
  cases h with
  | same h => rwa [h]
  | pushed context' h => rw [h, push_getElem? hc]
  | other d context' hd h => rw [h, Array.getElem?_setIfInBounds_ne hd, hc]

theorem openContext_contexts (name : String) (serial : Bool) (stackSize : Option Nat) :
    ∃ context, (w.openContext name serial stackSize).1.contexts = w.contexts.push context := by
  simp only [openContext]
  split
  · split <;> exact ⟨_, rfl⟩
  · exact ⟨_, rfl⟩

theorem perform_contexts (w : World) (here : Place) (hop : op.Spares c) :
    w.ContextsFrom c (w.perform here op).1 := by
  cases op with
  | connection d op =>
    obtain ⟨connections, hw⟩ := onConnection_shape w d op
    exact .same (by rw [perform, hw])
  | await l =>
    simp only [perform]
    split <;> exact .same rfl
  | fiber f op => cases op <;> exact .same rfl
  | openContext name serial stackSize =>
    simp only [perform]
    split
    · exact .same rfl
    · obtain ⟨context, h⟩ := openContext_contexts (w := w) name serial stackSize
      exact .pushed context h
  | context d op =>
    cases op with
    | isCurrent | describe => exact .same rfl
    | derive label => exact .pushed _ rfl
    | close => exact .other d _ (fun hd => hop.2 (hd ▸ rfl)) rfl
    | execute task =>
      have hd : d ≠ c := fun hd => hop.1 task (hd ▸ rfl)
      simp only [perform, onContext, spawnThread]
      split
      · exact .same rfl
      · split
        · exact .other d _ hd rfl
        · split <;> exact .other d _ hd rfl
      · exact .other d _ hd rfl
  | slot s request phase =>
    obtain ⟨slots, latches, hw⟩ := onSlot_shape w s request phase
    exact .same (by rw [perform, hw])
  | promise p request phase =>
    obtain ⟨promises, latches, hw⟩ := onPromise_shape w p request phase
    exact .same (by rw [perform, hw])
  | factorBetween low high =>
    rw [perform_factorBetween]
    exact .same rfl
  | _ => exact .same rfl

/-- No thread takes the tasks of the context that did not take them before. -/
def WorksFrom (w : World) (c : ContextId) (w' : World) : Prop :=
  ∀ (j : ThreadId) (thread : Thread), w'.threads[j]? = some thread → thread.role.works c = true →
    ∃ old : Thread, w.threads[j]? = some old ∧ old.role.works c = true

theorem WorksFrom.of_eq (h : w'.threads = w.threads) : w.WorksFrom c w' :=
  fun _ thread hj hw => ⟨thread, h ▸ hj, hw⟩

theorem WorksFrom.trans {w'' : World} (h : w.WorksFrom c w') (h' : w'.WorksFrom c w'') :
    w.WorksFrom c w'' := by
  intro j thread hj hw
  obtain ⟨old, hold, hw'⟩ := h' j thread hj hw
  exact h j old hold hw'

theorem worksFrom_setActivity (i : ThreadId) (a : Activity) :
    w.WorksFrom c (w.setActivity i a) := by
  intro j thread hj hw
  rw [setActivity, Array.getElem?_modify] at hj
  split at hj
  · obtain ⟨old, hold, rfl⟩ := Option.map_eq_some_iff.1 hj
    exact ⟨old, hold, hw⟩
  · exact ⟨thread, hj, hw⟩

theorem worksFrom_retire (i : ThreadId) : w.WorksFrom c (w.retire i) := by
  intro j thread hj hw
  rw [retire, Array.getElem?_modify] at hj
  split at hj
  · obtain ⟨old, -, rfl⟩ := Option.map_eq_some_iff.1 hj
    cases hw
  · exact ⟨thread, hj, hw⟩

theorem worksFrom_push (new : Thread) (hnew : new.role.works c = false)
    (h : w'.threads = w.threads.push new) :
    w.WorksFrom c w' := by
  intro j thread' hj hw
  rw [h, Array.getElem?_push] at hj
  split at hj
  · obtain rfl := Option.some.inj hj
    exact absurd hw (by simp [hnew])
  · exact ⟨thread', hj, hw⟩

/-- The threads that operations start take tasks of contexts that are as new, or none. -/
theorem perform_works (hc : c < w.contexts.size) (here : Place) (op : Op) :
    w.WorksFrom c (w.perform here op).1 := by
  cases op with
  | connection d op =>
    obtain ⟨connections, hw⟩ := onConnection_shape w d op
    exact .of_eq (by rw [perform, hw])
  | await l =>
    simp only [perform]
    split <;> exact .of_eq rfl
  | fiber f op => cases op <;> exact .of_eq rfl
  | openContext name serial stackSize =>
    simp only [perform]
    split
    · exact .of_eq rfl
    · simp only [openContext]
      split
      · split
        · refine worksFrom_push ⟨name, some w.contexts.size, .worker w.contexts.size, idle⟩ ?_ rfl
          simpa [Role.works] using Nat.ne_of_gt hc
        · exact .of_eq rfl
      · exact .of_eq rfl
  | context d op =>
    cases op with
    | execute task =>
      simp only [perform, onContext, spawnThread]
      split
      · exact .of_eq rfl
      · split
        · exact .of_eq rfl
        · split
          · exact worksFrom_push ⟨_, some d, .task, .start task⟩ rfl rfl
          · exact .of_eq rfl
      · exact .of_eq rfl
    | _ => exact .of_eq rfl
  | fork body => exact worksFrom_push ⟨"", none, .task, .start body⟩ rfl rfl
  | slot s request phase =>
    obtain ⟨slots, latches, hw⟩ := onSlot_shape w s request phase
    exact .of_eq (by rw [perform, hw])
  | promise p request phase =>
    obtain ⟨promises, latches, hw⟩ := onPromise_shape w p request phase
    exact .of_eq (by rw [perform, hw])
  | factorBetween low high =>
    rw [perform_factorBetween]
    exact .of_eq rfl
  | _ => exact .of_eq rfl

theorem act_works (hc : c < w.contexts.size) (here : Place) (a : Activity) :
    w.WorksFrom c (w.act here a).1 := by
  rw [act_world]
  cases a.op? with
  | none => exact .of_eq rfl
  | some op => exact perform_works hc here op

theorem step_works (hc : c < w.contexts.size) (i : ThreadId) : w.WorksFrom c (w.step i) := by
  generalize hu : w.step i = u
  cases steps_of_step hu with
  | stays => exact .of_eq rfl
  | retires => exact worksFrom_retire i
  | skips _ htakes => exact .of_eq htakes.kept.1
  | begins _ htakes => exact (WorksFrom.of_eq htakes.kept.1).trans (worksFrom_setActivity i _)
  | acts => exact (act_works hc _ _).trans (worksFrom_setActivity i _)

end World
end Effects
