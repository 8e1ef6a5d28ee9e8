import Effects.Proofs.Serial.Book

/-!
The tasks of a serial context, whatever the threads of its world do in whatever order: its worker
runs each of them, one after the other, in the order in which they were queued.
-/

namespace Effects

variable {c : ContextId} {k i j : ThreadId} {v w : World} {thread : Thread} {a : Activity}
  {context : Context}

/-- Control that has come to the end of a thread's task. -/
def Control.Over (control : Control) : Prop := ∃ r, control = .ended r

namespace World

theorem act_over (here : Place) (ha : a.stack ≠ [] ∨ a.control.settles = false)
    (hover : ¬ a.control.Over) : ¬ (w.act here a).2.control.Over := fun ⟨r, hr⟩ =>
  act_ne_ended w here ha r (fun h => hover ⟨r, h⟩) hr

theorem act_end (w : World) (here : Place) {control : Control} (h : control.settles = true)
    (hover : ¬ control.Over) :
    (w.act here ⟨control, []⟩).2.control = .ended (control.result?.getD (.ok .unit)) := by
  cases control with
  | drive => cases h
  | code x => cases x <;> first | rfl | cases h
  | unwinding message => rfl
  | ended r => exact absurd ⟨r, rfl⟩ hover

theorem nextTask_worker (hc : w.contexts[c]? = some context) :
    w.nextTask? (.worker c) = context.queue.next?.map fun p =>
      ({ w with contexts := w.contexts.setIfInBounds c { context with queue := p.2 } }, some p.1) := by
  cases h : context.queue.next? <;> simp [nextTask?, hc, h]

theorem retires_worker (hc : w.contexts[c]? = some context) :
    w.retires (.worker c) = context.queue.finished := by
  simp [retires, hc]

theorem step_idle (h : w.threads[i]? = some thread) (hover : thread.activity.control.Over)
    (hnext : w.nextTask? thread.role = none) :
    w.step i = if w.retires thread.role then w.retire i else w := by
  obtain ⟨r, hr⟩ := hover
  simp only [step, h, hr, hnext]

theorem step_begins (h : w.threads[i]? = some thread) (hover : thread.activity.control.Over)
    {w' : World} {task : Code} (hnext : w.nextTask? thread.role = some (w', some task)) :
    w.step i = w'.setActivity i (.start task) := by
  obtain ⟨r, hr⟩ := hover
  simp only [step, h, hr, hnext]

/-- A thread that does not work for the context takes no task out of its queue. -/
theorem Takes.elsewhere (hworks : thread.role.works c = false) {w' : World} {task : Option Code}
    (h : w.Takes thread.role w' task) : w'.contexts[c]? = w.contexts[c]? := by
  generalize thread.role = role at h hworks
  cases h with
  | @worker d =>
    have hd : d ≠ c := by simpa [Role.works] using hworks
    exact Array.getElem?_setIfInBounds_ne hd
  | timer => rfl

end World

namespace Serial

theorem signs_of_none (h : v.threads[i]? = none) : signs c v i = [] := by
  rw [signs, h, Option.elim_none]

theorem signs_of_not_works (h : v.threads[i]? = some thread)
    (hworks : thread.role.works c = false) :
    signs c v i = called c thread.activity := by
  rw [signs, h, Option.elim_some, hworks]
  exact List.append_nil _

theorem signs_of_works (h : v.threads[i]? = some thread) (hworks : thread.role.works c = true) :
    signs c v i = called c thread.activity ++ tended v i thread := by
  rw [signs, h, Option.elim_some, if_pos hworks]

theorem enabled_of_over (hi : v.threads[i]? = some thread) (hover : thread.activity.control.Over) :
    v.enabled i = (v.hasTask thread.role || v.retires thread.role) := by
  obtain ⟨r, hr⟩ := hover
  simp only [World.enabled, hi, hr]

theorem called_of_over (h : a.control.Over) : called c a = [] := by
  obtain ⟨r, hr⟩ := h
  simp [called, Activity.op?, hr]

theorem called_of_spares (h : ∀ op, a.op? = some op → op.Spares c) : called c a = [] := by
  unfold called
  split
  · rename_i d task hop
    exact if_neg fun hd => (h _ hop).1 task (by rw [hd])
  · rename_i d hop
    exact if_neg fun hd => (h _ hop).2 (by rw [hd])
  · rfl

theorem called_of_settles (h : a.control.settles = true) : called c a = [] := by
  refine called_of_spares fun op hop => ?_
  obtain ⟨next, hcontrol⟩ := Activity.op?_eq_some hop
  rw [hcontrol] at h
  cases h

theorem tended_of_over (v : World) (i : ThreadId) (hover : thread.activity.control.Over) :
    tended v i thread = rested v i thread.role := by
  obtain ⟨r, hr⟩ := hover
  simp only [tended, hr]

theorem tended_of_not_over (v : World) (i : ThreadId) (hover : ¬ thread.activity.control.Over) :
    tended v i thread = worked i thread.activity := by
  unfold tended
  split
  · exact absurd ⟨_, ‹_›⟩ hover
  · rfl

/-- What a step is seen as of a thread at work: its task ends, or a closure of it, or neither. -/
inductive Works (i : ThreadId) (a : Activity) : Prop
  | ended (hstack : a.stack = []) (hs : a.control.settles = true)
      (h : worked i a = [.ended i (a.control.result?.getD (.ok .unit))])
  | answered {next : Reply → Code} {result : Except String Reply}
      (hstack : a.stack = [.attempt next]) (hresult : a.control.result? = some result) (h : worked i a = [.answered i result])
  | goes (hs : a.stack ≠ [] ∨ a.control.settles = false) (h : worked i a = [])

theorem works (i : ThreadId) (a : Activity) : Works i a := by
  obtain ⟨control, stack⟩ := a
  rcases stack with _ | ⟨f, _ | ⟨g, fs⟩⟩
  · cases hs : control.settles with
    | true => exact .ended rfl hs (if_pos hs)
    | false => exact .goes (.inr hs) (if_neg (by simp [hs]))
  · cases f with
    | attempt next =>
      cases hr : control.result? with
      | none => exact .goes (.inl (List.cons_ne_nil _ _)) (by simp [worked, hr])
      | some result => exact .answered rfl hr (by simp [worked, hr])
    | _ => exact .goes (.inl (List.cons_ne_nil _ _)) rfl
  · exact .goes (.inl (List.cons_ne_nil _ _)) (by cases f <;> rfl)

/-- While the thread performs an operation nothing comes to its end. -/
theorem tended_of_op? {op : Op} (h : thread.activity.op? = some op) : tended v i thread = [] := by
  obtain ⟨name, home, role, control, stack⟩ := thread
  obtain ⟨next, rfl⟩ := Activity.op?_eq_some h
  cases works i ⟨.code (.perform op next), stack⟩ with
  | ended _ hs => cases hs
  | answered _ hresult => cases hresult
  | goes _ h => exact h

theorem signs_of_op? (h : v.threads[i]? = some thread) {op : Op}
    (hop : thread.activity.op? = some op) :
    signs c v i = called c thread.activity := by
  rw [signs, h, Option.elim_some, tended_of_op? hop, ite_self, List.append_nil]

namespace Book

variable {b b' : Book}

/-- The book tells of the context and its worker in this world. -/
structure Agrees (c : ContextId) (k : ThreadId) (v : World) (b : Book) : Prop where
  context : ∃ context, v.contexts[c]? = some context ∧ context.kind = .serial ∧
    context.queue = ⟨b.queued.drop b.jobs.length, b.closed⟩
  worker : ∃ thread, v.threads[k]? = some thread ∧ thread.home = some c ∧
    thread.role = (if b.retired then .task else .worker c) ∧
      (b.Idle ↔ thread.activity.control.Over)
  alone : ∀ (j : ThreadId) (thread : Thread), v.threads[j]? = some thread →
    thread.role.works c = true → j = k

namespace Agrees

theorem lt_size (h : b.Agrees c k v) : c < v.contexts.size := by
  obtain ⟨context, hc, -⟩ := h.context
  exact (Array.getElem?_eq_some_iff.1 hc).1

theorem alone_step (h : b.Agrees c k v) (i : ThreadId) :
    ∀ (j : ThreadId) (thread : Thread), (v.step i).threads[j]? = some thread →
      thread.role.works c = true → j = k := by
  intro j thread hj hw
  obtain ⟨old, hold, hw'⟩ := World.step_works h.lt_size i j thread hj hw
  exact h.alone j old hold hw'

theorem not_works (h : b.Agrees c k v) (hi : v.threads[i]? = some thread) (hik : i ≠ k) :
    thread.role.works c = false :=
  Bool.eq_false_iff.2 fun hw => hik (h.alone i thread hi hw)

theorem not_over {jobs : List Job} {task : Code} {answers : List (Except String Reply)}
    (h : b.Agrees c k v) (hi : v.threads[k]? = some thread)
    (hjobs : b.jobs = jobs ++ [⟨task, answers, none⟩]) : ¬ thread.activity.control.Over := by
  obtain ⟨thread', hi', -, -, hidle⟩ := h.worker
  obtain rfl := Option.some.inj (hi.symm.trans hi')
  exact fun hover => not_idle hjobs (hidle.2 hover)

/-- What is seen of the worker while it has a task. -/
theorem signs_of_busy (h : b.Agrees c k v) (hs : b.Sound) (hi : v.threads[k]? = some thread)
    (hover : ¬ thread.activity.control.Over) :
    signs c v k = called c thread.activity ++ worked k thread.activity := by
  obtain ⟨thread', hi', -, hrole, hidle⟩ := h.worker
  obtain rfl := Option.some.inj (hi.symm.trans hi')
  have hretired : b.retired = false :=
    Bool.eq_false_iff.2 fun hr => hover (hidle.1 (hs.retired hr).2)
  rw [hretired, if_neg Bool.false_ne_true] at hrole
  rw [signs_of_works hi (by simp [hrole, Role.works]), tended_of_not_over v k hover]

/-- The other threads do nothing to the tasks that have begun. -/
theorem jobs_of_ne (h : b.Agrees c k v) (hik : i ≠ k) (hr : Replays k b (signs c v i) b') :
    b'.jobs = b.jobs := by
  cases hi : v.threads[i]? with
  | none =>
    rw [signs_of_none hi] at hr
    rw [hr.of_nil]
  | some thread =>
    rw [signs_of_not_works hi (h.not_works hi hik)] at hr
    exact hr.of_called

/-- The worker takes the next task. -/
theorem begins (h : b.Agrees c k v) (hi : v.threads[k]? = some thread)
    (hover : thread.activity.control.Over) (hretired : b.retired = false) {task : Code}
    (ht : b.queued[b.jobs.length]? = some task) :
    v.enabled k = true ∧ signs c v k = [.began k task] ∧
      (∃ thread', (v.step k).threads[k]? = some thread' ∧ thread'.activity = .start task) ∧
        Agrees c k (v.step k) { b with jobs := b.jobs ++ [⟨task, [], none⟩] } := by
  obtain ⟨thread', hi', hhome, hrole, hidle⟩ := h.worker
  obtain rfl := Option.some.inj (hi.symm.trans hi')
  obtain ⟨context, hc, hkind, hqueue⟩ := h.context
  rw [hretired, if_neg Bool.false_ne_true] at hrole
  have hdrop := List.drop_eq_getElem_cons (List.getElem?_eq_some_iff.1 ht).1
  rw [(List.getElem?_eq_some_iff.1 ht).2] at hdrop
  have htasks : context.queue.next? =
      some (task, ⟨b.queued.drop (b.jobs.length + 1), b.closed⟩) := by
    rw [hqueue, SerialQueue.next?, hdrop]
  have hnext := World.nextTask_worker hc
  rw [htasks, Option.map_some, ← hrole] at hnext
  have hstep := World.step_begins hi hover hnext
  have hself : (v.step k).threads[k]? = some { thread with activity := .start task } := by
    rw [hstep]
    exact World.setActivity_self hi _
  refine ⟨?_, ?_, ⟨_, hself, rfl⟩, ?_⟩
  · have hhas : v.hasTask thread.role = true := by simp [World.hasTask, hrole, hc, hqueue, hdrop]
    rw [enabled_of_over hi hover, hhas, Bool.true_or]
  · rw [signs_of_works hi (by simp [hrole, Role.works]), called_of_over hover, List.nil_append,
      tended_of_over v k hover, rested, hnext]
    rfl
  · refine ⟨⟨{ context with queue := ⟨b.queued.drop (b.jobs.length + 1), b.closed⟩ }, ?_,
      hkind, ?_⟩,
      ⟨_, hself, hhome, ?_, ?_⟩, h.alone_step k⟩
    · rw [hstep]
      exact Array.getElem?_setIfInBounds_self_of_lt h.lt_size
    · simp
    · simp [hretired, hrole]
    · constructor
      · exact fun hidle' => absurd hidle' (not_idle rfl)
      · rintro ⟨r', hr'⟩
        cases hr'

/-- There is no task for the worker, which waits if there may be one yet. -/
theorem waits (h : b.Agrees c k v) (hi : v.threads[k]? = some thread)
    (hover : thread.activity.control.Over) (hretired : b.retired = false)
    (hall : b.jobs.length = b.queued.length) :
    v.enabled k = b.closed ∧ signs c v k = (if b.closed then [.retired k] else []) ∧
      v.step k = if b.closed then v.retire k else v := by
  obtain ⟨thread', hi', -, hrole, -⟩ := h.worker
  obtain rfl := Option.some.inj (hi.symm.trans hi')
  obtain ⟨context, hc, -, hqueue⟩ := h.context
  rw [hretired, if_neg Bool.false_ne_true] at hrole
  have hdrop : b.queued.drop b.jobs.length = [] := by rw [hall, List.drop_length]
  have hnext : v.nextTask? thread.role = none := by
    rw [hrole, World.nextTask_worker hc, hqueue, hdrop]
    rfl
  have hretires : v.retires thread.role = b.closed := by
    rw [hrole, World.retires_worker hc, hqueue, hdrop]
    exact Bool.true_and _
  have hhas : v.hasTask thread.role = false := by simp [World.hasTask, hrole, hc, hqueue, hdrop]
  refine ⟨?_, ?_, hretires ▸ World.step_idle hi hover hnext⟩
  · rw [enabled_of_over hi hover, hhas, hretires, Bool.false_or]
  rw [signs_of_works hi (by simp [hrole, Role.works]), called_of_over hover, List.nil_append,
    tended_of_over v k hover, rested, hnext]
  simp only [hretires]

theorem retire (h : b.Agrees c k v) (hi : v.threads[k]? = some thread) :
    Agrees c k (v.retire k) { b with retired := true } := by
  obtain ⟨thread', hi', hhome, -, hidle⟩ := h.worker
  obtain rfl := Option.some.inj (hi.symm.trans hi')
  refine ⟨h.context, ⟨{ thread with role := .task }, ?_, hhome, rfl, hidle⟩, ?_⟩
  · simp [World.retire, Array.getElem?_modify, hi]
  · intro j thread' hj hw
    obtain ⟨old, hold, hw'⟩ := World.worksFrom_retire k j thread' hj hw
    exact h.alone j old hold hw'

/-- The worker takes a task, is through, or has nothing to do. -/
theorem rests (h : b.Agrees c k v) (hs : b.Sound) (hi : v.threads[k]? = some thread)
    (hover : thread.activity.control.Over) :
    ∃ b', Replays k b (signs c v k) b' ∧ b'.Agrees c k (v.step k) := by
  obtain ⟨thread', hi', -, hrole, hidle⟩ := h.worker
  obtain rfl := Option.some.inj (hi.symm.trans hi')
  cases hretired : b.retired with
  | true =>
    rw [hretired, if_pos rfl] at hrole
    have hsigns : signs c v k = [] := by
      rw [signs_of_not_works hi (by rw [hrole]; rfl), called_of_over hover]
    have hstay : v.step k = v := by
      rw [World.step_idle hi hover (by rw [hrole]; rfl), hrole]
      exact if_neg Bool.false_ne_true
    exact ⟨b, hsigns ▸ .nil b, hstay.symm ▸ h⟩
  | false =>
    obtain hlt | hall := Nat.lt_or_eq_of_le hs.le
    · obtain ⟨-, hsigns, -, hagrees⟩ := h.begins hi hover hretired (List.getElem?_eq_getElem hlt)
      exact ⟨_, hsigns ▸ .single (.began (hidle.2 hover) hretired (List.getElem?_eq_getElem hlt)),
        hagrees⟩
    · obtain ⟨-, hsigns, hstep⟩ := h.waits hi hover hretired hall
      rw [hsigns, hstep]
      cases hclosed : b.closed with
      | false => exact ⟨b, .nil b, h⟩
      | true => exact ⟨_, .single (.retired (hidle.2 hover) hclosed hall), h.retire hi⟩

/-- A thread that has nothing to do for the context goes on to something else. -/
theorem elsewhere (h : b.Agrees c k v) (hi : v.threads[i]? = some thread) (hik : i ≠ k)
    (hover : thread.activity.control.Over) :
    ∃ b', Replays k b (signs c v i) b' ∧ b'.Agrees c k (v.step i) := by
  have hworks := h.not_works hi hik
  have hsigns : signs c v i = [] := by rw [signs_of_not_works hi hworks, called_of_over hover]
  obtain ⟨context, hc, hcontext⟩ := h.context
  obtain ⟨worker, hk, hworker⟩ := h.worker
  refine ⟨b, hsigns ▸ .nil b, ⟨context, ?_, hcontext⟩, ⟨worker, World.step_other hk hik, hworker⟩,
    h.alone_step i⟩
  generalize hu : v.step i = u
  cases World.steps_of_step hu with
  | stays | retires => exact hc
  | skips hi' htakes | begins hi' htakes =>
    obtain rfl := Option.some.inj (hi.symm.trans hi')
    exact (htakes.elsewhere hworks).trans hc
  | acts hi' hended =>
    obtain rfl := Option.some.inj (hi.symm.trans hi')
    obtain ⟨r, hr⟩ := hover
    exact absurd hr (hended r)

/-- A thread goes on with what it does. -/
theorem acts (h : b.Agrees c k v) (hi : v.threads[i]? = some thread)
    (hover : ¬ thread.activity.control.Over) (hretired : b'.retired = b.retired)
    (hself : i = k → (b'.Idle ↔ (v.act thread.place thread.activity).2.control.Over))
    (hother : i ≠ k → (b'.Idle ↔ b.Idle))
    (hcontext : ∃ context, (v.act thread.place thread.activity).1.contexts[c]? = some context ∧
      context.kind = .serial ∧ context.queue = ⟨b'.queued.drop b'.jobs.length, b'.closed⟩) :
    b'.Agrees c k (v.step i) := by
  have hended : ∀ r, thread.activity.control ≠ .ended r := fun r hr => hover ⟨r, hr⟩
  obtain ⟨worker, hk, hhome, hrole, hidle⟩ := h.worker
  refine ⟨?_, ?_, h.alone_step i⟩
  · rw [World.step_act hi hended]
    exact hcontext
  · by_cases hik : i = k
    · subst hik
      obtain rfl := Option.some.inj (hi.symm.trans hk)
      exact ⟨_, World.step_self hi hended, hhome, hretired.symm ▸ hrole, hself rfl⟩
    · exact ⟨worker, World.step_other hk hik, hhome, hretired.symm ▸ hrole,
        (hother hik).trans hidle⟩

/-- A call on the context, from whatever thread. -/
theorem calls (h : b.Agrees c k v) (hi : v.threads[i]? = some thread) {op : Op}
    (hop : thread.activity.op? = some op) (hretired : b'.retired = b.retired)
    (hjobs : b'.jobs = b.jobs)
    (hcontext : ∃ context, (v.perform thread.place op).1.contexts[c]? = some context ∧
      context.kind = .serial ∧ context.queue = ⟨b'.queued.drop b'.jobs.length, b'.closed⟩) :
    b'.Agrees c k (v.step i) := by
  have hsame : b'.Idle ↔ b.Idle := by simp only [Idle, hjobs]
  have hact : (v.act thread.place thread.activity).1 = (v.perform thread.place op).1 := by
    rw [World.act_world, hop]
    rfl
  have hover : ¬ thread.activity.control.Over := by
    rintro ⟨r, hr⟩
    simp [Activity.op?, hr] at hop
  refine h.acts hi hover hretired ?_ (fun _ => hsame) (hact ▸ hcontext)
  rintro rfl
  obtain ⟨worker, hk, -, -, hidle⟩ := h.worker
  obtain rfl := Option.some.inj (hi.symm.trans hk)
  refine hsame.trans (hidle.trans (iff_of_false hover (World.act_over _ (.inr ?_) hover)))
  obtain ⟨next, hcontrol⟩ := Activity.op?_eq_some hop
  rw [hcontrol]
  rfl

theorem executes (h : b.Agrees c k v) (hs : b.Sound) (hi : v.threads[i]? = some thread)
    {task : Code} (hop : thread.activity.op? = some (.context c (.execute task))) :
    signs c v i = [.queued task] ∧
      Agrees c k (v.step i) { b with queued := b.queued ++ [task] } := by
  obtain ⟨context, hc, hkind, hqueue⟩ := h.context
  constructor
  · rw [signs_of_op? hi hop, called, hop]
    exact if_pos rfl
  · refine h.calls hi hop rfl rfl ⟨{ context with queue := context.queue.push task }, ?_, hkind, ?_⟩
    · simp only [World.perform, World.onContext, hc, Option.getD_some, hkind, World.replying]
      exact Array.getElem?_setIfInBounds_self_of_lt h.lt_size
    · simp [SerialQueue.push, hqueue, List.drop_append_of_le_length hs.le]

theorem closes (h : b.Agrees c k v) (hi : v.threads[i]? = some thread)
    (hop : thread.activity.op? = some (.context c .close)) :
    signs c v i = [.closed] ∧ Agrees c k (v.step i) { b with closed := true } := by
  obtain ⟨context, hc, hkind, hqueue⟩ := h.context
  constructor
  · rw [signs_of_op? hi hop, called, hop]
    exact if_pos rfl
  · refine h.calls hi hop rfl rfl ⟨{ context with queue := context.queue.close }, ?_, hkind, ?_⟩
    · simp only [World.perform, World.onContext, hc, Option.getD_some, World.replying]
      exact Array.getElem?_setIfInBounds_self_of_lt h.lt_size
    · simp [SerialQueue.close, hqueue]

/-- What the context is after a step of a thread that leaves it alone. -/
theorem spared (h : b.Agrees c k v) (here : Place) {a : Activity}
    (hop : ∀ op, a.op? = some op → op.Spares c) : ∃ context, (v.act here a).1.contexts[c]? =
      some context ∧ context.kind = .serial ∧
        context.queue = ⟨b.queued.drop b.jobs.length, b.closed⟩ := by
  obtain ⟨context, hc, hcontext⟩ := h.context
  refine ⟨context, ?_, hcontext⟩
  rw [World.act_world]
  cases hop' : a.op? with
  | none => exact hc
  | some op => exact (World.perform_contexts v here (hop op hop')).kept hc

/-- The worker goes on with its task, and may come to an answer or to the end. -/
theorem tends (h : b.Agrees c k v) (hs : b.Sound) (hi : v.threads[k]? = some thread)
    (hover : ¬ thread.activity.control.Over)
    (hop : ∀ op, thread.activity.op? = some op → op.Spares c) :
    ∃ b', Replays k b (signs c v k) b' ∧ b'.Agrees c k (v.step k) := by
  obtain ⟨thread', hi', -, -, hidle⟩ := h.worker
  obtain rfl := Option.some.inj (hi.symm.trans hi')
  obtain ⟨jobs, task, answers, hjobs⟩ := hs.running fun hb => hover (hidle.1 hb)
  have hsigns : signs c v k = worked k thread.activity := by
    rw [h.signs_of_busy hs hi hover, called_of_spares hop, List.nil_append]
  have hcontext := h.spared thread.place hop
  have goes : ∀ {b' : Book}, b'.retired = b.retired →
      (b'.Idle ↔ (v.act thread.place thread.activity).2.control.Over) → b'.queued = b.queued →
      b'.jobs.length = b.jobs.length → b'.closed = b.closed → b'.Agrees c k (v.step k) := by
    intro b' hr hself hqueued hlength hclosed
    refine h.acts hi hover hr (fun _ => hself) (fun hne => absurd rfl hne) ?_
    rwa [hqueued, hlength, hclosed]
  have busy : ∀ (answers : List (Except String Reply)), thread.activity.stack ≠ [] ∨
      thread.activity.control.settles = false →
      Agrees c k (v.step k) { b with jobs := jobs ++ [⟨task, answers, none⟩] } :=
    fun answers hopen => goes rfl (iff_of_false (not_idle rfl) (World.act_over _ hopen hover)) rfl (by simp [hjobs]) rfl
  rw [hsigns]
  cases works k thread.activity with
  | ended hstack hs' h =>
    have hend : (v.act thread.place thread.activity).2.control.Over := by
      have hactivity : thread.activity = ⟨thread.activity.control, []⟩ := by rw [← hstack]
      rw [hactivity]
      exact ⟨_, World.act_end v thread.place hs' hover⟩
    rw [h]
    refine ⟨_, .single (.ended hjobs _), goes rfl (iff_of_true ?_ hend) rfl (by simp [hjobs]) rfl⟩
    intro job hjob
    obtain hjob | hjob := List.mem_append.1 hjob
    · exact hs.one jobs _ hjobs job hjob
    · rw [List.mem_singleton.1 hjob]
      rfl
  | answered hstack _ h =>
    rw [h]
    exact ⟨_, .single (.answered hjobs _), busy _ (.inl (by simp [hstack]))⟩
  | goes hopen h =>
    rw [h]
    exact ⟨b, .nil b, by simpa only [← hjobs] using busy answers hopen⟩

theorem step (h : b.Agrees c k v) (hs : b.Sound) (i : ThreadId) :
    ∃ b', Replays k b (signs c v i) b' ∧ b'.Agrees c k (v.step i) := by
  cases hi : v.threads[i]? with
  | none =>
    have hstep : v.step i = v := by simp [World.step, hi]
    exact ⟨b, signs_of_none hi ▸ .nil b, hstep.symm ▸ h⟩
  | some thread =>
    -- a step is one of the worker's without a task, or a call, or leaves the queue alone
    by_cases hover : thread.activity.control.Over
    · by_cases hik : i = k
      · subst hik
        exact h.rests hs hi hover
      · exact h.elsewhere hi hik hover
    by_cases hexecute : ∃ task, thread.activity.op? = some (.context c (.execute task))
    · obtain ⟨task, hop⟩ := hexecute
      obtain ⟨hsigns, hagrees⟩ := h.executes hs hi hop
      exact ⟨_, hsigns ▸ .single (.queued task), hagrees⟩
    by_cases hclose : thread.activity.op? = some (.context c .close)
    · obtain ⟨hsigns, hagrees⟩ := h.closes hi hclose
      exact ⟨_, hsigns ▸ .single .closed, hagrees⟩
    have hop : ∀ op, thread.activity.op? = some op → op.Spares c := fun op hop =>
      ⟨fun task h => hexecute ⟨task, h ▸ hop⟩, fun h => hclose (h ▸ hop)⟩
    by_cases hik : i = k
    · subst hik
      exact h.tends hs hi hover hop
    · have hworks := h.not_works hi hik
      refine ⟨b, ?_, h.acts hi hover rfl (fun h => absurd h hik) (fun _ => Iff.rfl)
        (h.spared thread.place hop)⟩
      rw [signs_of_not_works hi hworks, called_of_spares hop]
      exact .nil b

theorem quiet (h : b.Agrees c k v) (hs : b.Sound) (hsigns : signs c v i = []) :
    b.Agrees c k (v.step i) := by
  obtain ⟨b', hr, ha⟩ := h.step hs i
  rw [hsigns] at hr
  exact hr.of_nil ▸ ha

theorem passing (h : b.Agrees c k v) (nanos : Nat) :
    b.Agrees c k { v with clock := v.clock + nanos } := ⟨h.context, h.worker, h.alone⟩

end Agrees
end Book

/-- The context has just been opened, with a worker of its own. -/
structure Opened (c : ContextId) (k : ThreadId) (w : World) : Prop where
  context : ∃ context, w.contexts[c]? = some context ∧ context.kind = .serial ∧ context.queue = .new
  worker : ∃ name, w.threads[k]? = some ⟨name, some c, .worker c, World.idle⟩
  alone : ∀ (j : ThreadId) (thread : Thread), w.threads[j]? = some thread →
    thread.role.works c = true → j = k

theorem Opened.agrees (h : Opened c k w) : Book.start.Agrees c k w := by
  obtain ⟨name, hk⟩ := h.worker
  refine ⟨h.context, ⟨_, hk, rfl, rfl, ?_⟩, h.alone⟩
  exact iff_of_true (fun _ hjob => by cases hjob) ⟨_, rfl⟩

theorem Runs.agrees {seen : List Sign} (hw : Opened c k w) (h : Runs c w seen v) :
    ∃ b, Book.Replays k .start seen b ∧ b.Agrees c k v := by
  induction h with
  | start => exact ⟨_, .nil _, hw.agrees⟩
  | step _ i ih =>
    obtain ⟨b, hr, ha⟩ := ih
    obtain ⟨b', hr', ha'⟩ := ha.step (Book.start_sound.replays hr) i
    exact ⟨b', hr.append hr', ha'⟩
  | passing _ nanos ih =>
    obtain ⟨b, hr, ha⟩ := ih
    exact ⟨b, hr, ha.passing nanos⟩

/-- Any context that is opened as a serial one, if its worker can be started, and no thread has been
given the work of contexts that are yet to come. -/
theorem opened_of_openContext {name : String} {stackSize : Option Nat}
    (hspawn : (Context.new name .serial stackSize).canSpawn = true)
    (hw : ∀ thread ∈ w.threads, ∀ d, thread.role = .worker d → d < w.contexts.size) :
    Opened w.contexts.size w.threads.size (w.openContext name true stackSize).1 := by
  have hopen : (w.openContext name true stackSize).1 =
      { w with contexts := w.contexts.push (Context.new name .serial stackSize) }.addThread
        ⟨name, some w.contexts.size, .worker w.contexts.size, World.idle⟩ := by
    simp [World.openContext, hspawn]
  rw [hopen]
  refine ⟨⟨_, Array.getElem?_push_size, rfl, rfl⟩, ⟨name, Array.getElem?_push_size⟩, ?_⟩
  intro j thread hj hworks
  rw [World.addThread, Array.getElem?_push] at hj
  split at hj
  · assumption
  · have hrole : thread.role = .worker w.contexts.size := by
      cases hr : thread.role with
      | worker d => rw [hr, Role.works, beq_iff_eq] at hworks; rw [hworks]
      | _ => rw [hr] at hworks; cases hworks
    exact absurd (hw thread (Array.mem_of_getElem? hj) _ hrole) (Nat.lt_irrefl _)

/-- What is known of a serial context at any time. -/
structure Serves (c : ContextId) (k : ThreadId) (seen : List Sign) (b : Book) (v : World) :
    Prop where
  jobs : b.jobs.map Job.task = seen.filterMap Sign.begun?
  /-- Tasks begin in the order in which the calls have queued them, and none twice; the others are
  still there. -/
  order : ∃ context, v.contexts[c]? = some context ∧
    seen.filterMap Sign.queued? = seen.filterMap Sign.begun? ++ context.queue.tasks
  worker : ∀ i task, .began i task ∈ seen → i = k
  /-- One begins when all before it have ended. -/
  one : ∀ jobs job, b.jobs = jobs ++ [job] → ∀ job' ∈ jobs, job'.result?.isSome = true
  running : ∃ thread, v.threads[k]? = some thread ∧ (b.Idle ↔ thread.activity.control.Over)
  /-- When a task has ended, with a panic or without, the next one is begun. -/
  next : b.Idle → b.retired = false → ∀ task,
    (seen.filterMap Sign.queued?)[b.jobs.length]? = some task →
      v.enabled k = true ∧ signs c v k = [.began k task] ∧
        ∃ thread, (v.step k).threads[k]? = some thread ∧ thread.activity = .start task
  /-- When there is none, the worker waits, or ends if the queue has been closed. -/
  through : b.Idle → b.retired = false → b.jobs.length = (seen.filterMap Sign.queued?).length →
    v.enabled k = b.closed ∧ signs c v k = if b.closed then [.retired k] else []
  retired : b.retired = true → b.closed = true ∧ b.Idle ∧ v.enabled k = false ∧
    (Punctual seen → b.jobs.length = (seen.filterMap Sign.queued?).length)

theorem serves_of_agrees {seen : List Sign} {b : Book} (hr : Book.Replays k .start seen b)
    (h : b.Agrees c k v) : Serves c k seen b v := by
  have hs : b.Sound := Book.start_sound.replays hr
  have hqueued : b.queued = seen.filterMap Sign.queued? := hr.queued_eq
  have hbegun : b.jobs.map Job.task = seen.filterMap Sign.begun? := hr.begun_eq
  obtain ⟨context, hc, hkind, hqueue⟩ := h.context
  obtain ⟨thread, hk, hhome, hrole, hidle⟩ := h.worker
  have hemptied := hr.emptied Book.start_sound
  refine ⟨hbegun, ⟨context, hc, ?_⟩, fun i task => hr.worker, hs.one, ⟨thread, hk, hidle⟩, ?_, ?_,
    ?_⟩
  · rw [← hqueued, ← hbegun, hs.begun, hqueue, List.take_append_drop]
  · intro hi hretired task ht
    rw [← hqueued] at ht
    obtain ⟨henabled, hsigns, hruns, -⟩ := h.begins hk (hidle.1 hi) hretired ht
    exact ⟨henabled, hsigns, hruns⟩
  · intro hi hretired hall
    rw [← hqueued] at hall
    obtain ⟨henabled, hsigns, -⟩ := h.waits hk (hidle.1 hi) hretired hall
    exact ⟨henabled, hsigns⟩
  · intro hretired
    obtain ⟨hclosed, hi⟩ := hs.retired hretired
    refine ⟨hclosed, hi, ?_, fun hp => ?_⟩
    · rw [enabled_of_over hk (hidle.1 hi), hrole, if_pos hretired]
      rfl
    · rw [← hqueued]
      exact hr.emptied Book.start_sound hp (fun h => by cases h) (fun h => by cases h) hretired

end Serial
end Effects
