import Effects.Proofs.Cancel.Turns
import Effects.Proofs.Run.Local
import Effects.Proofs.Shield.Worlds

/-!
Steps in a world in which a connection is kept by its own run. Whether that connection has been
canceled makes no difference to them.
-/

namespace Effects

variable {c : ConnectionId} {own : FiberId → Prop} {edge : List Cont → List Frame → Prop}
  {w : World} {here : Place} {fs : List Frame} {a : Activity} {op : Op}

namespace Activity.Apart

theorem performs (h : a.Apart c own edge) (hop : a.op? = some op) : op.Apart c own := by
  cases h with
  | @code x fs hx _ =>
    cases hx with
    | perform ho _ =>
      obtain rfl := Option.some.inj hop
      exact ho
    | _ => cases hop
  | _ => cases hop

theorem drives (h : a.Apart c own edge) {m : Machine} {run : Run} (hm : a.control = .drive m run) :
    run.connection ≠ c := by
  cases h with
  | focus _ hr _ | unwind _ hr _ =>
    obtain ⟨rfl, rfl⟩ := Control.drive.inj hm
    exact hr
  | _ => cases hm

end Activity.Apart

namespace World

/-- The connection as if nobody had canceled it. -/
def calm (c : ConnectionId) (w : World) : World := w.setConnection c (.active [])

theorem setConnection_setConnection (w : World) (s s' : Connection Code) :
    (w.setConnection c s).setConnection c s' = w.setConnection c s' := by
  simp [setConnection]

theorem calm_setConnection (w : World) (s : Connection Code) :
    (w.setConnection c s).calm c = w.calm c :=
  w.setConnection_setConnection s _

theorem calm_calm (w : World) : (w.calm c).calm c = w.calm c := calm_setConnection w _

theorem setConnection_of {s : Connection Code} (h : w.connections[c]? = some s) :
    w.setConnection c s = w := by
  have hsame : w.connections.setIfInBounds c s = w.connections := by
    refine Array.ext_getElem? fun d => ?_
    rw [Array.getElem?_setIfInBounds]
    split
    · rename_i hd
      subst hd
      rw [h, if_pos (Array.getElem?_eq_some_iff.1 h).1]
    · rfl
  rw [setConnection, hsame]

theorem Apart.calm (h : w.Apart c own) : (w.calm c).Apart c own := by
  obtain ⟨s, hs⟩ := h.known_connection
  exact { h with
    tokens := forall_mem_setIfInBounds h.tokens fun _ h => absurd h List.not_mem_nil
    bare := .inl (setConnection_getElem? hs _) }

theorem Apart.calm_connection (h : w.Apart c own) :
    (w.calm c).connections[c]? = some (.active []) := by
  obtain ⟨s, hs⟩ := h.known_connection
  exact setConnection_getElem? hs _

/-- Either the connection is not asked, or it is canceled, which it may have been before. -/
theorem perform_calm (h : w.Apart c own) (ho : op.Apart c own) (here : Place) :
    ((w.calm c).perform here op).1.calm c = (w.perform here op).1.calm c ∧
      ((w.calm c).perform here op).2 = (w.perform here op).2 := by
  by_cases hc : ∃ op', op = .connection c op'
  · obtain ⟨op', rfl⟩ := hc
    obtain rfl : op' = .cancel := by
      cases ho with
      | plain h => cases h
      | connection hd => exact absurd rfl hd
      | cancel => rfl
    simp only [perform, cancel_bare h, cancel_bare h.calm]
    exact ⟨by rw [calm_setConnection, calm_setConnection, calm_calm], trivial⟩
  · have hop : ∀ op', op ≠ .connection c op' := fun op' h => hc ⟨op', h⟩
    have hperform : (w.calm c).perform here op = _ := perform_setConnection h.lt_size _ hop
    rw [hperform]
    exact ⟨calm_setConnection _ _, rfl⟩

theorem overlooks_of (hop : ∀ op, a.op? = some op → ∀ op', op ≠ .connection c op')
    (hd : ∀ m run, a.control = .drive m run → run.connection ≠ c) : w.Overlooks here c a :=
  ⟨hop, fun m run hm _ _ => hd m run hm⟩

theorem act_calm (h : w.Apart c own) (ho : ∀ op, a.op? = some op → op.Apart c own)
    (hd : ∀ m run, a.control = .drive m run → run.connection ≠ c) (here : Place) :
    ((w.calm c).act here a).1.calm c = (w.act here a).1.calm c ∧
      ((w.calm c).act here a).2 = (w.act here a).2 := by
  cases hop : a.op? with
  | none =>
    have hover : w.Overlooks here c a := overlooks_of (fun op h => by simp [hop] at h) hd
    have hact : (w.calm c).act here a = _ := act_setConnection h.lt_size _ hover
    rw [hact]
    exact ⟨calm_setConnection _ _, rfl⟩
  | some op =>
    obtain ⟨control, stack⟩ := a
    cases control with
    | code x =>
      cases x with
      | perform op' next =>
        obtain ⟨hworld, hresponse⟩ := perform_calm h (ho op' rfl) here
        exact ⟨hworld, congrArg (Activity.respond next stack) hresponse⟩
      | _ => cases hop
    | _ => cases hop

theorem act_keeps (h : w.Apart c own) (h0 : c ≠ .uncancelable) (ha : a.Apart c own edge)
    (hacts : ∀ m run, a.control = .drive m run → w.isCurrent here.home run.context = true) :
    (w.act here a).1.Apart c own ∧ (w.act here a).2.Keeps c own edge := by
  cases ha with
  | focus hn hr hb =>
    simp only [act, hacts _ _ rfl, if_true]
    exact ⟨h, Machine.step_keeps h0 hn hr hb⟩
  | unwind exit hr hb =>
    simp only [act, hacts _ _ rfl, if_true]
    exact ⟨h, Machine.resume_keeps exit hr hb⟩
  | @code x fs hx hb =>
    cases hx with
    | perform ho hnext =>
      obtain ⟨hworld, hresponse⟩ := perform_apart h h0 here ho
      exact ⟨hworld, .inl (Activity.respond_apart hnext hresponse hb)⟩
    | give hr => exact ⟨h, Activity.close_keeps (.reply hr) hb⟩
    | build hn => exact ⟨h, Activity.close_keeps (.node hn) hb⟩
    | guard ht => exact ⟨h, Activity.close_keeps (.token ht) hb⟩
    | panic message => exact ⟨h, .inl (.unwinding message hb)⟩
  | @unwinding message fs hb =>
    refine ⟨h, ?_⟩
    cases fs with
    | nil => exact .inl (.ended (fun _ => by rintro ⟨⟩) hb)
    | cons frame fs => exact Activity.unwind_keeps message hb
  | ended hr hb => exact ⟨h, .inl (.ended hr hb)⟩

/-- A thread that has to go on elsewhere hands the rest of its machine over. -/
theorem hop_elsewhere {m : Machine} {run : Run}
    (ha : Activity.Elsewhere c own ⟨.drive m run, fs⟩) :
    Activity.Elsewhere c own ⟨.code (Routine.hop m run .give), fs⟩ := by
  have hm : m.Apart c own ∧ run.connection ≠ c ∧ Below c own (fun _ _ => False) [] fs := by
    cases ha with
    | focus hn hr hb => exact ⟨.focus hn hb.conts.1, hr, hb.conts.2⟩
    | unwind exit hr hb => exact ⟨.unwind exit hb.conts.1, hr, hb.conts.2⟩
  obtain ⟨hm, hr, hb⟩ := hm
  exact .code (Routine.Apart.hop hm hr _ fun _ hr => .give hr) hb

theorem act_elsewhere (h : w.Apart c own) (h0 : c ≠ .uncancelable) (ha : a.Elsewhere c own)
    (here : Place) :
    (w.act here a).1.Apart c own ∧ (w.act here a).2.Elsewhere c own := by
  by_cases hacts : ∀ m run, a.control = .drive m run → w.isCurrent here.home run.context = true
  · obtain ⟨hworld, ha | ha⟩ := act_keeps h h0 ha hacts
    · exact ⟨hworld, ha⟩
    · exact ha.absurd.elim
  · simp only [Classical.not_forall] at hacts
    obtain ⟨m, run, hm, hc⟩ := hacts
    obtain ⟨control, stack⟩ := a
    obtain rfl : control = .drive m run := hm
    simp only [act, hc]
    exact ⟨h, hop_elsewhere ha⟩

section Threads

theorem Apart.retire (h : w.Apart c own) (t : ThreadId) : (w.retire t).Apart c own := by
  have hretired : ∀ thread ∈ w.threads,
      ({ thread with role := .task } : Thread).activity.Elsewhere c own := h.threads
  exact { h with threads := by exact forall_mem_modify h.threads hretired }

theorem timer_fires {timer timer' : Timer Code} {now : Nat} {task : Option Code}
    (h : timer.fire? now = some (timer', task)) :
    (∀ entry ∈ timer'.tasks, entry ∈ timer.tasks) ∧
      ∀ x, task = some x → ∃ seq, (seq, x) ∈ timer.tasks := by
  simp only [Timer.fire?] at h
  split at h
  · cases h
  · split at h
    · obtain ⟨rfl, rfl⟩ := Prod.mk.inj (Option.some.inj h)
      refine ⟨fun entry he => List.mem_of_mem_filter he, fun x hx => ?_⟩
      obtain ⟨⟨seq, y⟩, hfind, rfl⟩ := Option.map_eq_some_iff.1 hx
      exact ⟨seq, List.mem_of_find?_eq_some hfind⟩
    · cases h

theorem nextTask_calm (w : World) (role : Role) :
    (w.calm c).nextTask? role = (w.nextTask? role).map fun p => (p.1.calm c, p.2) := by
  cases role with
  | task => rfl
  | worker d =>
    have hcontexts : (w.calm c).contexts = w.contexts := rfl
    simp only [nextTask?, hcontexts]
    cases w.contexts[d]? with
    | none => rfl
    | some context =>
      cases hq : context.queue.next? with
      | none => simp [hq]
      | some p => simp [hq]; rfl
  | timer =>
    have htimer : (w.calm c).timer = w.timer := rfl
    have hclock : (w.calm c).clock = w.clock := rfl
    simp only [nextTask?, htimer, hclock]
    cases w.timer.fire? w.clock <;> rfl

theorem Takes.calm {role : Role} {w' : World} {task : Option Code} (h : w.Takes role w' task)
    (c : ConnectionId) : (w.calm c).Takes role (w'.calm c) task := by
  cases h with
  | worker hcontext hqueue => exact .worker hcontext hqueue
  | timer hfire => exact .timer hfire

theorem Takes.apart {role : Role} {w' : World} {task : Option Code} (ht : w.Takes role w' task)
    (h : w.Apart c own) : w'.Apart c own ∧ ∀ x, task = some x → x.Apart c own := by
  cases ht with
  | @worker d context x queue hcontext hq =>
    have hqueue := h.tasks context (Array.mem_of_getElem? hcontext)
    simp only [SerialQueue.next?] at hq
    split at hq
    · cases hq
    · rename_i rest htasks
      obtain ⟨rfl, rfl⟩ := Prod.mk.inj (Option.some.inj hq)
      rw [htasks] at hqueue
      obtain ⟨hx, hrest⟩ := List.forall_mem_cons.1 hqueue
      have hkept : ∀ y ∈ ({ context.queue with tasks := rest } : SerialQueue Code).tasks,
          y.Apart c own := hrest
      exact ⟨h.setContexts hkept, fun y hy => Option.some.inj hy ▸ hx⟩
  | timer hfire =>
    obtain ⟨htasks, htask⟩ := timer_fires hfire
    refine ⟨{ h with timed := fun entry he => h.timed entry (htasks entry he) }, fun x hx => ?_⟩
    obtain ⟨seq, hseq⟩ := htask x hx
    exact h.timed _ hseq

theorem step_apart (h : w.Apart c own) (h0 : c ≠ .uncancelable) (t : ThreadId) :
    (w.step t).Apart c own := by
  generalize hu : w.step t = u
  cases steps_of_step hu with
  | stays => exact h
  | retires => exact h.retire t
  | skips _ htakes => exact (htakes.apart h).1
  | begins _ htakes =>
    obtain ⟨hworld, htask⟩ := htakes.apart h
    exact hworld.setActivity t (.start (htask _ rfl))
  | @acts thread ht =>
    have hactivity := h.threads thread (Array.mem_of_getElem? ht)
    obtain ⟨hworld, hacts⟩ := act_elsewhere h h0 hactivity thread.place
    exact hworld.setActivity t hacts

theorem step_calm (h : w.Apart c own) (t : ThreadId) :
    ((w.calm c).step t).calm c = (w.step t).calm c := by
  have hthreads : (w.calm c).threads = w.threads := rfl
  unfold step
  rw [hthreads]
  cases ht : w.threads[t]? with
  | none => exact calm_calm w
  | some thread =>
    have hactivity := h.threads thread (Array.mem_of_getElem? ht)
    obtain ⟨hworld, hact⟩ := act_calm h (fun _ => hactivity.performs) (fun _ _ => hactivity.drives)
      thread.place
    have hset : ∀ (w : World) (a : Activity), (w.setActivity t a).calm c =
        (w.calm c).setActivity t a := fun _ _ => rfl
    cases hcontrol : thread.activity.control with
    | ended r =>
      have hretires : (w.calm c).retires thread.role = w.retires thread.role := rfl
      simp only [hcontrol, nextTask_calm, hretires]
      cases hn : w.nextTask? thread.role with
      | none =>
        simp only [Option.map_none]
        split
        · exact congrArg (retire · t) (calm_calm w)
        · exact calm_calm w
      | some p =>
        obtain ⟨w', task⟩ := p
        cases task with
        | none => exact calm_calm w'
        | some task => exact congrArg (setActivity · t (.start task)) (calm_calm w')
    | _ => simp only [hcontrol, hset, hworld, hact]

theorem enabled_calm (w : World) (t : ThreadId) : (w.calm c).enabled t = w.enabled t := rfl

end Threads

end World

end Effects
