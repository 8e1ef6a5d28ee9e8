import Effects.Proofs.Serial.Calls

/-!
Runs without an end. If the worker of a serial context gets its turns and no task goes on forever,
each task that is queued while the context is in use is run to its end, and calls that wait for one
go on.
-/

namespace Effects.Serial

inductive Turn where
  | step (i : ThreadId)
  | passing (nanos : Nat)

namespace Turn

def take (v : World) : Turn → World
  | step i => v.step i
  | passing nanos => { v with clock := v.clock + nanos }

def signs (c : ContextId) (v : World) : Turn → List Sign
  | step i => Serial.signs c v i
  | passing _ => []

end Turn

/-- What has been seen after the first turns, and the world then. -/
def told (c : ContextId) (w : World) (turns : Nat → Turn) : Nat → List Sign × World
  | 0 => ([], w)
  | n + 1 =>
      let before := told c w turns n
      (before.1 ++ (turns n).signs c before.2, (turns n).take before.2)

/-- The worker gets its turns, no task goes on forever, and the last handle of the context is
dropped when nobody has one any more. -/
structure Fair (c : ContextId) (k : ThreadId) (w : World) (turns : Nat → Turn) : Prop where
  works : ∀ n, ∃ m, n ≤ m ∧ turns m = .step k
  ends : ∀ n, ∃ m, n ≤ m ∧ ∃ thread, (told c w turns m).2.threads[k]? = some thread ∧
    thread.activity.control.Over
  punctual : ∀ n, Punctual (told c w turns n).1

variable {c : ContextId} {k : ThreadId} {v w : World} {turns : Nat → Turn} {n : Nat}
  {b b' b'' : Book} {sign : Sign} {seen : List Sign}

theorem told_runs (c : ContextId) (w : World) (turns : Nat → Turn) (n : Nat) :
    Runs c w (told c w turns n).1 (told c w turns n).2 := by
  induction n with
  | zero => exact .start
  | succ n ih =>
    rw [told]
    cases turns n with
    | step i => exact .step ih i
    | passing nanos =>
      simp only [Turn.signs, List.append_nil]
      exact .passing ih nanos

theorem told_mono {m : Nat} (h : n ≤ m) : (told c w turns n).1 <+: (told c w turns m).1 := by
  induction h with
  | refl => exact List.prefix_refl _
  | step _ ih => exact ih.trans (List.prefix_append _ _)

/-- From some time on only the worker has its turns, and has nothing left to do. -/
theorem fair_of_stays (hturns : ∀ d, turns (n + d) = .step k)
    (hstep : (told c w turns n).2.step k = (told c w turns n).2)
    (hsigns : signs c (told c w turns n).2 k = [])
    (hover : ∃ thread, (told c w turns n).2.threads[k]? = some thread ∧
      thread.activity.control.Over)
    (hp : Punctual (told c w turns n).1) : Fair c k w turns := by
  have stays : ∀ d, told c w turns (n + d) = told c w turns n := by
    intro d
    induction d with
    | zero => rfl
    | succ d ih =>
      rw [← Nat.add_assoc, told, ih, hturns]
      simp only [Turn.signs, Turn.take, hstep, hsigns, List.append_nil]
  refine ⟨fun m => ⟨n + m, Nat.le_add_left m n, hturns m⟩,
    fun m => ⟨n + m, Nat.le_add_left m n, ?_⟩, fun m => ?_⟩
  · rw [stays]
    exact hover
  · exact (stays m ▸ hp).of_isPrefix (told_mono (Nat.le_add_left m n))

namespace Book

/-- The book of the first turns. -/
def Tells (c : ContextId) (k : ThreadId) (w : World) (turns : Nat → Turn) (n : Nat) (b : Book) :
    Prop :=
  Replays k .start (told c w turns n).1 b ∧ b.Agrees c k (told c w turns n).2

namespace Tells

theorem sound (h : b.Tells c k w turns n) : b.Sound := start_sound.replays h.1

theorem next (h : b.Tells c k w turns n) : ∃ b', b'.Tells c k w turns (n + 1) ∧
    Replays k b ((turns n).signs c (told c w turns n).2) b' := by
  cases hturn : turns n with
  | step i =>
    obtain ⟨b', hr, ha⟩ := h.2.step h.sound i
    refine ⟨b', ⟨?_, ?_⟩, hr⟩
    · rw [told, hturn]
      exact h.1.append hr
    · rw [told, hturn]
      exact ha
  | passing nanos =>
    refine ⟨b, ⟨?_, ?_⟩, .nil b⟩
    · simp only [told, hturn, Turn.signs, List.append_nil]
      exact h.1
    · rw [told, hturn]
      exact h.2.passing nanos

theorem later (h : b.Tells c k w turns n) {m : Nat} (hm : n ≤ m) :
    ∃ b' more, b'.Tells c k w turns m ∧ Replays k b more b' := by
  induction hm with
  | refl => exact ⟨b, [], h, .nil b⟩
  | step _ ih =>
    obtain ⟨b', more, h', hr⟩ := ih
    obtain ⟨b'', h'', hr'⟩ := h'.next
    exact ⟨b'', _, h'', hr.append hr'⟩

theorem replays (h : b.Tells c k w turns n) {m : Nat} (h' : b'.Tells c k w turns m) (hm : n ≤ m) :
    ∃ more, Replays k b more b' := by
  obtain ⟨b₁, more, h₁, hr⟩ := h.later hm
  exact ⟨more, h₁.1.unique h'.1 ▸ hr⟩

theorem queued_eq (h : b.Tells c k w turns n) :
    b.queued = (told c w turns n).1.filterMap Sign.queued? := h.1.queued_eq

/-- A worker that has retired has left no task behind. -/
theorem not_retired (h : b.Tells c k w turns n) (hp : Punctual (told c w turns n).1)
    (hlt : b.jobs.length < b.queued.length) : b.retired = false :=
  Bool.eq_false_iff.2 fun hr => Nat.ne_of_lt hlt
    (h.1.emptied start_sound hp (fun h => by cases h) (fun h => by cases h) hr)

/-- In its turn an idle worker begins a task. -/
theorem takes (h : b.Tells c k w turns n) (hp : Punctual (told c w turns n).1) (hidle : b.Idle)
    (hlt : b.jobs.length < b.queued.length) (hturn : turns n = .step k) :
    ∃ b' : Book, b'.Tells c k w turns (n + 1) ∧ b.jobs.length < b'.jobs.length := by
  obtain ⟨thread, hk, -, -, hworker⟩ := h.2.worker
  have hr := h.not_retired hp hlt
  have ht := List.getElem?_eq_getElem hlt
  obtain ⟨-, hsigns, -, hagrees⟩ := h.2.begins hk (hworker.1 hidle) hr ht
  refine ⟨{ b with jobs := b.jobs ++ [⟨b.queued[b.jobs.length], [], none⟩] }, ⟨?_, ?_⟩, by simp⟩
  · simp only [told, hturn, Turn.signs, hsigns]
    exact h.1.append (.single (.began hidle hr ht))
  · simp only [told, hturn]
    exact hagrees

/-- The turns of the others leave an idle worker idle until it has its turn. -/
theorem awaits (hfair : Fair c k w turns) (h : b.Tells c k w turns n) (hidle : b.Idle)
    (hlt : b.jobs.length < b.queued.length) {d : Nat} (hturn : turns (n + d) = .step k) :
    ∃ (m : Nat) (b' : Book), n ≤ m ∧ b'.Tells c k w turns m ∧ b.jobs.length < b'.jobs.length := by
  induction d generalizing n b with
  | zero =>
    obtain ⟨b', h', hlt'⟩ := h.takes (hfair.punctual n) hidle hlt hturn
    exact ⟨n + 1, b', Nat.le_succ n, h', hlt'⟩
  | succ d ih =>
    obtain ⟨b', h', hr⟩ := h.next
    by_cases hself : turns n = .step k
    · obtain ⟨b', h', hlt'⟩ := h.takes (hfair.punctual n) hidle hlt hself
      exact ⟨n + 1, b', Nat.le_succ n, h', hlt'⟩
    · have hjobs : b'.jobs = b.jobs := by
        cases hother : turns n with
        | step i =>
          rw [hother] at hr hself
          exact h.2.jobs_of_ne (fun hik => hself (hik ▸ rfl)) hr
        | passing nanos =>
          rw [hother] at hr
          rw [hr.of_nil]
      obtain ⟨m, b'', hm, h'', hlt'⟩ := ih h' (fun job hjob => hidle job (hjobs ▸ hjob))
        (hjobs ▸ Nat.lt_of_lt_of_le hlt hr.length_le.2) (by rwa [Nat.add_assoc, Nat.add_comm 1])
      exact ⟨m, b'', Nat.le_of_succ_le hm, h'', hjobs ▸ hlt'⟩

theorem idle_of_over (h : b.Tells c k w turns n) {thread : Thread}
    (hk : (told c w turns n).2.threads[k]? = some thread) (hover : thread.activity.control.Over) :
    b.Idle := by
  obtain ⟨thread', hk', -, -, hidle⟩ := h.2.worker
  obtain rfl := Option.some.inj (hk.symm.trans hk')
  exact hidle.2 hover

/-- While there are tasks that have not begun, one begins some time. -/
theorem advances (hfair : Fair c k w turns) (h : b.Tells c k w turns n)
    (hlt : b.jobs.length < b.queued.length) :
    ∃ (m : Nat) (b' : Book), n ≤ m ∧ b'.Tells c k w turns m ∧ b.jobs.length < b'.jobs.length := by
  obtain ⟨m, hm, thread, hk, hover⟩ := hfair.ends n
  obtain ⟨b', more, h', hr⟩ := h.later hm
  obtain hlt' | heq := Nat.lt_or_eq_of_le hr.length_le.1
  · exact ⟨m, b', hm, h', hlt'⟩
  · obtain ⟨m', hm', hturn⟩ := hfair.works m
    obtain ⟨d, rfl⟩ := Nat.exists_eq_add_of_le hm'
    obtain ⟨m'', b'', hm'', h'', hlt''⟩ := h'.awaits hfair (h'.idle_of_over hk hover)
      (heq ▸ Nat.lt_of_lt_of_le hlt hr.length_le.2) hturn
    exact ⟨m'', b'', Nat.le_trans hm hm'', h'', heq ▸ hlt''⟩

/-- By induction on how many tasks are before it. -/
theorem begins (hfair : Fair c k w turns) (h : b.Tells c k w turns n) {t : Nat}
    (ht : t < b.queued.length) :
    ∃ (m : Nat) (b' : Book), n ≤ m ∧ b'.Tells c k w turns m ∧ t < b'.jobs.length := by
  generalize hd : t + 1 - b.jobs.length = d
  induction d using Nat.strongRecOn generalizing n b with
  | ind d ih =>
    by_cases hbegun : t < b.jobs.length
    · exact ⟨n, b, Nat.le_refl n, h, hbegun⟩
    · have hwaiting := Nat.lt_of_le_of_lt (Nat.le_of_not_lt hbegun) ht
      obtain ⟨m, b', hm, h', hlt⟩ := h.advances hfair hwaiting
      obtain ⟨more, hr⟩ := h.replays h' hm
      obtain ⟨m', b'', hm', h'', ht'⟩ := ih _ (by omega) h'
        (Nat.lt_of_lt_of_le ht hr.length_le.2) rfl
      exact ⟨m', b'', Nat.le_trans hm hm', h'', ht'⟩

/-- Every task that has been queued ends some time. -/
theorem ends (hfair : Fair c k w turns) (h : b.Tells c k w turns n) {t : Nat} {task : Code}
    (ht : b.queued[t]? = some task) :
    ∃ (m : Nat) (b' : Book) (job : Job), n ≤ m ∧ b'.Tells c k w turns m ∧
      b'.jobs[t]? = some job ∧ job.task = task ∧
      job.result?.isSome = true := by
  obtain ⟨m, b₁, hm, h₁, hbegun⟩ := h.begins hfair (List.getElem?_eq_some_iff.1 ht).1
  obtain ⟨m', hm', thread, hk, hover⟩ := hfair.ends m
  obtain ⟨b', more, h', hr⟩ := h₁.later hm'
  obtain ⟨more', hr'⟩ := h.replays h' (Nat.le_trans hm hm')
  have hlt : t < b'.jobs.length := Nat.lt_of_lt_of_le hbegun hr.length_le.1
  refine ⟨m', b', b'.jobs[t], Nat.le_trans hm hm', h', List.getElem?_eq_getElem hlt, ?_,
    h'.idle_of_over hk hover _ (List.getElem_mem hlt)⟩
  have htask := h'.sound.task (List.getElem?_eq_getElem hlt)
  rw [hr'.queued_eq, List.getElem?_append_left (List.getElem?_eq_some_iff.1 ht).1, ht] at htask
  exact (Option.some.inj htask).symm

end Tells
end Book

variable {x : Caller} {l : LatchId} {t : Nat}

/-- When the task of a call has ended, the call waits no longer. -/
theorem Caller.waits_no_longer (hw : Opened c k w) (hfair : Fair c k w turns)
    (hbody : x.body.Replies)
    (hx : ∀ m, n ≤ m → x.Course c k w (told c w turns m).1 (told c w turns m).2 (.waiting l t)) :
    ∃ m, n ≤ m ∧ ∀ m', m ≤ m' → (told c w turns m').2.enabled x.thread = true := by
  have served : ∀ m, n ≤ m → ∃ b : Book, b.Tells c k w turns m ∧
      x.Served c b (told c w turns m).2 (.waiting l t) := by
    intro m hm
    obtain ⟨b, hr, ha, hstanding⟩ := (hx m hm).standing hw hbody
    exact ⟨b, ⟨hr, ha⟩, hstanding.served (Book.start_sound.replays hr)⟩
  obtain ⟨b, h, htask, -⟩ := served n (Nat.le_refl n)
  obtain ⟨m, b', job, hm, h', hjob, -, hend⟩ := h.ends hfair htask
  refine ⟨m, hm, fun m' hm' => ?_⟩
  obtain ⟨b'', h'', -, henabled⟩ := served m' (Nat.le_trans hm hm')
  obtain ⟨more, hr⟩ := h'.replays h'' hm'
  exact henabled ⟨job, hr.kept hjob hend, hend⟩

/-- Whatever calls come from whatever threads to a serial context and whichever of its tasks panic,
its worker alone runs the tasks, each once, one at a time and in the order of the calls, and ends
when the queue has been closed and emptied. Calls that wait for a closure go on with its value, or
with its panic, after all tasks that were queued before it. -/
theorem context_serves_calls (h : Opened c k w) :
    (∀ seen v, Runs c w seen v → ∃ b, Book.Replays k .start seen b ∧ Serves c k seen b v) ∧
    (∀ x : Caller, x.body.Replies → ∀ seen v stage, x.Course c k w seen v stage →
      ∃ b, Book.Replays k .start seen b ∧ Serves c k seen b v ∧ x.Served c b v stage) ∧
    ∀ turns, Fair c k w turns →
      (∀ (n t : Nat) (task : Code), ((told c w turns n).1.filterMap Sign.queued?)[t]? = some task →
        ∃ (m : Nat) (b : Book) (job : Job), n ≤ m ∧ Book.Replays k .start (told c w turns m).1 b ∧
          b.jobs[t]? = some job ∧ job.task = task ∧ job.result?.isSome = true) ∧
      ∀ x : Caller, x.body.Replies → ∀ (n t : Nat) (l : LatchId),
        (∀ m, n ≤ m → x.Course c k w (told c w turns m).1 (told c w turns m).2 (.waiting l t)) →
          ∃ m, n ≤ m ∧ ∀ m', m ≤ m' → (told c w turns m').2.enabled x.thread = true := by
  refine ⟨fun seen v hruns => ?_, fun x hbody seen v stage hx => ?_, fun turns hfair =>
    ⟨fun n t task ht => ?_, fun x hbody n t l hx => Caller.waits_no_longer h hfair hbody hx⟩⟩
  · obtain ⟨b, hr, ha⟩ := hruns.agrees h
    exact ⟨b, hr, serves_of_agrees hr ha⟩
  · obtain ⟨b, hr, ha, hstanding⟩ := hx.standing h hbody
    exact ⟨b, hr, serves_of_agrees hr ha, hstanding.served (Book.start_sound.replays hr)⟩
  · obtain ⟨b, hr, ha⟩ := (told_runs c w turns n).agrees h
    have hb : b.Tells c k w turns n := ⟨hr, ha⟩
    obtain ⟨m, b', job, hm, h', hjob⟩ := hb.ends hfair (hb.queued_eq ▸ ht)
    exact ⟨m, b', job, hm, h'.1, hjob⟩

/-- Queues a last task, with which it leaves the worker alone. -/
def parting (_ : Reply) : Code :=
  .perform (.context 2 (.execute (.give .unit))) fun _ => .perform (.context 2 .close) .give

def visitor : Caller := ⟨0, .give (.flag true), parting, []⟩

def lobby : World := { World.start with
  threads := #[⟨"visitor", none, .task, .start (.perform (.context 2 (.execute (.panic "boom")))
      fun _ => (2 : ContextId).runSync visitor.body parting)⟩] }

def resilient : World := (lobby.openContext "resilient" true none).1

/-- The visitor until it waits, the worker until it has answered, and the visitor again. -/
def visit (n : Nat) : Turn := .step (if n < 4 ∨ 11 ≤ n ∧ n < 14 then 0 else 1)

theorem visit_seen : (told 2 resilient visit 18).1 =
    [.queued (.panic "boom"), .queued (errand 0 visitor.body), .began 1 (.panic "boom"),
      .ended 1 (.error "boom"), .began 1 (errand 0 visitor.body), .answered 1 (.ok (.flag true)),
      .queued (.give .unit)] ++ .closed :: [.ended 1 (.ok .unit), .began 1 (.give .unit),
        .ended 1 (.ok .unit), .retired 1] := rfl

theorem resilient_opened : Opened 2 1 resilient := by
  refine opened_of_openContext (w := lobby) rfl fun thread hthread d hrole => ?_
  obtain rfl : thread = _ := List.mem_singleton.1 (Array.mem_toList_iff.2 hthread)
  cases hrole

theorem visit_fair : Fair 2 1 resilient visit := by
  refine fair_of_stays (n := 18) (fun d => ?_) rfl rfl ⟨_, rfl, _, rfl⟩ ?_
  · have hlate : ¬ (18 + d < 4 ∨ 11 ≤ 18 + d ∧ 18 + d < 14) := by omega
    rw [visit, if_neg hlate]
  · rw [visit_seen]
    exact punctual_append (by simp) (by simp)

theorem visitor_returns : visitor.Course 2 1 resilient (told 2 resilient visit 12).1
    (told 2 resilient visit 12).2 (.returned 0 1) := by
  have asked : visitor.Course 2 1 resilient (told 2 resilient visit 1).1
      (told 2 resilient visit 1).2 .asking :=
    .asks (told_runs 2 resilient visit 1) ⟨⟨"visitor", none, .task, _⟩, rfl, by simp, rfl⟩
  have waits := asked.opens.dispatches.waits
  -- the worker runs the task before, and then the closure
  have began := waits.others (i := 1) (by decide) (.inl rfl)
  have panics := began.others (i := 1) (by decide) (.inl rfl)
  have ended := panics.others (i := 1) (by decide) (.inl rfl)
  have next := ended.others (i := 1) (by decide) (.inl rfl)
  have calls := next.others (i := 1) (by decide) (.inl rfl)
  have answered := calls.others (i := 1) (by decide) (.inl rfl)
  have settled := answered.others (i := 1) (by decide) (.inr ⟨rfl, rfl, _, rfl, rfl⟩)
  exact settled.returns rfl

theorem visit_served :
    (∃ b, Book.Replays 1 .start (told 2 resilient visit 12).1 b ∧
      Serves 2 1 (told 2 resilient visit 12).1 b (told 2 resilient visit 12).2 ∧
      visitor.Served 2 b (told 2 resilient visit 12).2 (.returned 0 1)) ∧
    ∃ (m : Nat) (b : Book) (job : Job), 14 ≤ m ∧
      Book.Replays 1 .start (told 2 resilient visit m).1 b ∧ b.jobs[2]? = some job ∧
        job.task = .give .unit ∧ job.result?.isSome = true := by
  have h := context_serves_calls resilient_opened
  exact ⟨h.2.1 visitor (.give _) _ _ _ visitor_returns,
    (h.2.2 visit visit_fair).1 14 2 (.give .unit) rfl⟩

end Effects.Serial
