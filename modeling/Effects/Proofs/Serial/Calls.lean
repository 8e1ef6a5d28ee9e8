import Effects.Proofs.Run.Ahead
import Effects.Proofs.Serial.Tasks

/-!
Calls that run a closure on a serial context and wait for it, from other threads. A call opens a
latch, queues a task that puts into the latch what the closure comes to, and waits for that.
-/

namespace Effects

theorem Control.settles_of_result? {control : Control} {result : Except String Reply}
    (h : control.result? = some result) : control.settles = true := by
  unfold Control.result? at h
  split at h <;> first | rfl | cases h

theorem World.Takes.latches {w w' : World} {role : Role} {task : Option Code}
    (h : w.Takes role w' task) : w'.latches = w.latches := by
  cases h <;> rfl

/-- Answers with a reply, as closures do that are run for it. -/
inductive Code.Replies : Code → Prop
  | give (r : Reply) : Code.Replies (.give r)
  | panic (message : String) : Code.Replies (.panic message)
  | perform (op : Op) {next : Reply → Code} (h : ∀ r, Code.Replies (next r)) :
      Code.Replies (.perform op next)

theorem Code.replies_stable : Stable Replies where
  next h := by
    cases h with
    | perform _ h => exact h
  again op' h := by
    cases h with
    | perform _ h => exact .perform op' h

namespace Serial

section Codes

variable (c : ContextId) (l : LatchId) (body : Code) (rest : Reply → Code)

def settling (r : Reply) : Code := .perform (.settle l r.toCaught) fun _ => .give .unit

/-- The task of a call. -/
def errand : Code := .perform (.attempt body) (settling l)

def awaiting : Code :=
  .perform (.await l) fun r => (Routine.rethrow r.toCaught : Routine Reply) rest

def dispatching : Code :=
  .perform (.context c (.execute (errand l body))) fun _ => awaiting l rest

def opening : Code := .perform .openLatch fun r => dispatching c r.toId body rest

theorem runSync_eq : c.runSync body rest = .perform (.context c .isCurrent) fun r =>
    if r.toFlag = true then .perform (.call body) rest else opening c body rest := by
  refine congrArg (Code.perform _) (funext fun r => ?_)
  show (if r.toFlag = true then _ else _ : Routine Reply) rest = _
  split <;> rfl

end Codes

/-- A thread that calls, with what it does afterwards. -/
structure Caller where
  thread : ThreadId
  body : Code
  rest : Reply → Code
  below : List Frame

/-- How far the call has come. -/
inductive Stage where
  | asking
  | opening
  | dispatching (l : LatchId)
  /-- The task is the one of that number among all that have been queued. -/
  | waiting (l : LatchId) (n : Nat)
  | returned (l : LatchId) (n : Nat)

/-- The step of another thread leaves the latch of the call to those that it belongs to, the caller
and the task of the call. -/
def Stage.Spared (k : ThreadId) (seen : List Sign) (v : World) (i : ThreadId) : Stage → Prop
  | .dispatching l => (v.step i).latches[l]? = v.latches[l]?
  | .waiting l n => (v.step i).latches[l]? = v.latches[l]? ∨
      i = k ∧ (seen.filterMap Sign.begun?).length = n + 1 ∧
        ∃ thread, v.threads[k]? = some thread ∧ thread.activity.stack = []
  | _ => True

namespace Caller

variable (x : Caller)

/-- The caller, on a thread of its own, has come to this code. -/
def At (c : ContextId) (v : World) (code : Code) : Prop :=
  ∃ thread, v.threads[x.thread]? = some thread ∧ thread.home ≠ some c ∧
    thread.activity = ⟨.code code, x.below⟩

/-- The threads of a world in any order, and how far the call has come meanwhile. -/
inductive Course (c : ContextId) (k : ThreadId) (w : World) : List Sign → World → Stage → Prop
  | asks {seen : List Sign} {v : World} (before : Runs c w seen v)
      (h : x.At c v (c.runSync x.body x.rest)) : Course c k w seen v .asking
  | opens {seen : List Sign} {v : World} (before : Course c k w seen v .asking) :
      Course c k w (seen ++ signs c v x.thread) (v.step x.thread) .opening
  | dispatches {seen : List Sign} {v : World} (before : Course c k w seen v .opening) :
      Course c k w (seen ++ signs c v x.thread) (v.step x.thread) (.dispatching v.latches.size)
  | waits {seen : List Sign} {v : World} {l : LatchId}
      (before : Course c k w seen v (.dispatching l)) :
      Course c k w (seen ++ signs c v x.thread) (v.step x.thread)
        (.waiting l (seen.filterMap Sign.queued?).length)
  | returns {seen : List Sign} {v : World} {l : LatchId} {n : Nat}
      (before : Course c k w seen v (.waiting l n)) (h : v.enabled x.thread = true) :
      Course c k w (seen ++ signs c v x.thread) (v.step x.thread) (.returned l n)
  | others {seen : List Sign} {v : World} {stage : Stage} (before : Course c k w seen v stage)
      {i : ThreadId} (hi : i ≠ x.thread) (h : stage.Spared k seen v i) :
      Course c k w (seen ++ signs c v i) (v.step i) stage
  | passing {seen : List Sign} {v : World} {stage : Stage} (before : Course c k w seen v stage)
      (nanos : Nat) : Course c k w seen { v with clock := v.clock + nanos } stage

/-- What a call comes to. It waits until its task has been run, and then goes on with the value of
the closure, or with its panic. -/
def Served (c : ContextId) (b : Book) (v : World) : Stage → Prop
  | .waiting l n => b.queued[n]? = some (errand l x.body) ∧
      ((∃ job, b.jobs[n]? = some job ∧ job.result?.isSome = true) → v.enabled x.thread = true)
  | .returned l n => ∃ job result, b.jobs[n]? = some job ∧ job.task = errand l x.body ∧
      job.answers = [result] ∧
        (∀ m < n, ∃ job', b.jobs[m]? = some job' ∧ job'.result?.isSome = true) ∧
        x.At c v ((Routine.rethrow result : Routine Reply) x.rest)
  | _ => v.enabled x.thread = true

end Caller

variable {c : ContextId} {k i : ThreadId} {v w : World} {x : Caller} {b b' : Book} {l : LatchId}
  {n : Nat} {seen : List Sign} {sign : Sign} {thread : Thread} {a : Activity}
  {result : Except String Reply}

/-- How far the task of a call has come, and what it has put into the latch, if it has. -/
inductive Phase (k : ThreadId) (body : Code) (l : LatchId) (n : Nat) (b : Book) (v : World) :
    Option (Except String Reply) → Prop
  | queued (h : b.jobs.length ≤ n) : Phase k body l n b v none
  | begun {jobs : List Job} (hjobs : b.jobs = jobs ++ [⟨errand l body, [], none⟩])
      (hn : jobs.length = n) {thread : Thread} (hk : v.threads[k]? = some thread)
      (ha : thread.activity = .start (errand l body)) : Phase k body l n b v none
  | inside {jobs : List Job} (hjobs : b.jobs = jobs ++ [⟨errand l body, [], none⟩])
      (hn : jobs.length = n) {thread : Thread} (hk : v.threads[k]? = some thread) {a : Activity}
      (ha : thread.activity = a.atop [.attempt (settling l)]) (h : Ahead Code.Replies a) :
      Phase k body l n b v none
  | answered {jobs : List Job} {result : Except String Reply}
      (hjobs : b.jobs = jobs ++ [⟨errand l body, [result], none⟩]) (hn : jobs.length = n)
      {thread : Thread} (hk : v.threads[k]? = some thread)
      (ha : thread.activity = ⟨.code (settling l (.caught result)), []⟩) : Phase k body l n b v none
  | leaving {jobs : List Job} {result : Except String Reply}
      (hjobs : b.jobs = jobs ++ [⟨errand l body, [result], none⟩]) (hn : jobs.length = n)
      {thread : Thread} (hk : v.threads[k]? = some thread)
      (ha : thread.activity = ⟨.code (.give .unit), []⟩) : Phase k body l n b v (some result)
  | ended {result : Except String Reply}
      (hjob : b.jobs[n]? = some ⟨errand l body, [result], some (.ok .unit)⟩) :
      Phase k body l n b v (some result)

/-- What is in the latch. -/
def Holds (l : LatchId) (held : Option (Except String Reply)) (v : World) : Prop :=
  v.latches[l]? = some (held.elim .empty .full)

theorem begun_called (c : ContextId) (a : Activity) : (called c a).filterMap Sign.begun? = [] := by
  unfold called
  split
  · split <;> rfl
  · split <;> rfl
  · rfl

theorem begun_worked (i : ThreadId) (a : Activity) : (worked i a).filterMap Sign.begun? = [] := by
  cases works i a with
  | ended _ _ h | answered _ _ h | goes _ h => rw [h]; rfl

theorem worked_atop (i : ThreadId) {next : Reply → Code}
    (h : a.stack ≠ [] ∨ a.control.settles = false) :
    worked i (a.atop [.attempt next]) = [] := by
  obtain ⟨control, stack⟩ := a
  cases works i (Activity.atop ⟨control, stack⟩ [.attempt next]) with
  | ended hstack => exact absurd hstack (by simp [Activity.atop])
  | answered hstack hresult =>
    obtain rfl : stack = [] := by simpa [Activity.atop] using congrArg List.length hstack
    obtain h | h := h
    · exact absurd rfl h
    · exact absurd ((Control.settles_of_result? hresult).symm.trans h) (by decide)
  | goes _ h => exact h

theorem latches_of_over (hi : v.threads[i]? = some thread) (hover : thread.activity.control.Over) :
    (v.step i).latches = v.latches := by
  generalize hu : v.step i = u
  cases World.steps_of_step hu with
  | stays | retires => rfl
  | skips _ htakes | begins _ htakes => exact htakes.latches
  | acts hi' hended =>
    obtain rfl := Option.some.inj (hi.symm.trans hi')
    obtain ⟨r, hr⟩ := hover
    exact absurd hr (hended r)

theorem step_of_busy (hi : v.threads[i]? = some thread) (hover : ¬ thread.activity.control.Over) :
    (v.step i).threads[i]? =
        some { thread with activity := (v.act thread.place thread.activity).2 } ∧
      (v.step i).latches = (v.act thread.place thread.activity).1.latches := by
  have hended : ∀ r, thread.activity.control ≠ .ended r := fun r hr => hover ⟨r, hr⟩
  refine ⟨World.step_self hi hended, ?_⟩
  rw [World.step_act hi hended]
  rfl

/-- The call's latch is as before, or it may have been the task of the call that was at it. -/
def Untouched (k : ThreadId) (l : LatchId) (n : Nat) (b : Book) (v : World) : Prop :=
  (v.step k).latches[l]? = v.latches[l]? ∨
    b.jobs.length = n + 1 ∧ ∃ thread, v.threads[k]? = some thread ∧ thread.activity.stack = []

namespace Phase

variable {body : Code} {held : Option (Except String Reply)}

/-- Where the worker brings the task, and what is in the latch then. -/
def Goes (k : ThreadId) (body : Code) (l : LatchId) (n : Nat) (b : Book) (v : World) (b' : Book)
    (held : Option (Except String Reply)) : Prop :=
  ∃ held', Phase k body l n b' (v.step k) held' ∧ (∀ result, held = some result → held' = held) ∧
    (Untouched k l n b v → Holds l held v → Holds l held' (v.step k))

theorem goes_of_latches (h : Phase k body l n b' (v.step k) held)
    (hl : Untouched k l n b v → (v.step k).latches[l]? = v.latches[l]?) :
    Goes k body l n b v b' held :=
  ⟨held, h, fun _ _ => rfl, fun hu hheld => (hl hu).trans hheld⟩

theorem act_attempt {control : Control} (h : Ahead Code.Replies ⟨control, []⟩)
    (hs : control.settles = true) : ∃ result, control.result? = some result ∧
      ∀ (v : World) (here : Place) (next : Reply → Code), v.act here (Activity.atop ⟨control, []⟩
        [.attempt next]) = (v, ⟨.code (next (.caught result)), []⟩) := by
  cases control with
  | drive => cases hs
  | code x =>
    cases h.of_code with
    | give r => exact ⟨.ok r, rfl, fun v here next => by cases r <;> rfl⟩
    | panic => cases hs
    | perform => cases hs
  | unwinding message => exact ⟨.error message, rfl, fun _ _ _ => rfl⟩
  | ended r => exact absurd rfl h.stack_ne_nil

section Cases

variable (ha : b.Agrees c k v) (hs : b.Sound) (hr : Book.Replays k b (signs c v k) b')

include ha hs hr

/-- The worker takes the task when it has run those before it. -/
theorem goes_queued (htask : b.queued[n]? = some (errand l body)) (h : b.jobs.length ≤ n) :
    Goes k body l n b v b' none := by
  obtain ⟨thread, hk, -, hrole, hidle⟩ := ha.worker
  have hearly : ¬ b.jobs.length = n + 1 := by omega
  by_cases hover : thread.activity.control.Over
  · refine goes_of_latches ?_ fun _ => by rw [latches_of_over hk hover]
    cases hretired : b.retired with
    | true =>
      rw [hretired, if_pos rfl] at hrole
      rw [signs_of_not_works hk (by rw [hrole]; rfl), called_of_over hover] at hr
      exact .queued (by rwa [hr.of_nil])
    | false =>
      have hlt : b.jobs.length < b.queued.length :=
        Nat.lt_of_le_of_lt h (List.getElem?_eq_some_iff.1 htask).1
      have ht := List.getElem?_eq_getElem hlt
      obtain ⟨-, hsigns, ⟨thread', hk', hcode⟩, -⟩ := ha.begins hk hover hretired ht
      rw [hsigns] at hr
      cases hr.of_single
      obtain hlt' | rfl := Nat.lt_or_eq_of_le h
      · exact .queued (by simpa using Nat.succ_le_of_lt hlt')
      · rw [Option.some.inj (ht.symm.trans htask)] at hcode ⊢
        exact .begun rfl rfl hk' hcode
  · refine goes_of_latches ?_ fun hu => hu.resolve_right fun hu => hearly hu.1
    refine .queued ?_
    have hbegun := hr.begun_eq
    rw [ha.signs_of_busy hs hk hover, List.filterMap_append, begun_called, begun_worked,
      List.append_nil, List.append_nil] at hbegun
    have hlength := congrArg List.length hbegun
    simp only [List.length_map] at hlength
    rwa [hlength]

/-- The task calls the closure. -/
theorem goes_begun {jobs : List Job} (hjobs : b.jobs = jobs ++ [⟨errand l body, [], none⟩])
    (hn : jobs.length = n) (hk : v.threads[k]? = some thread)
    (hactivity : thread.activity = .start (errand l body)) (hbody : body.Replies) :
    Goes k body l n b v b' none := by
  have hover := ha.not_over hk hjobs
  obtain ⟨hself, hlatches⟩ := step_of_busy hk hover
  rw [ha.signs_of_busy hs hk hover, hactivity] at hr
  refine goes_of_latches (.inside ((congrArg Book.jobs hr.of_nil).trans hjobs) hn hself
    (a := .start body) ?_ (.code hbody)) fun _ => ?_
  · rw [hactivity]
    rfl
  · rw [hlatches, hactivity]
    rfl

/-- The closure goes on, or has come to an answer. -/
theorem goes_inside {jobs : List Job} (hjobs : b.jobs = jobs ++ [⟨errand l body, [], none⟩])
    (hn : jobs.length = n) (hk : v.threads[k]? = some thread)
    (hactivity : thread.activity = a.atop [.attempt (settling l)]) (h : Ahead Code.Replies a) :
    Goes k body l n b v b' none := by
  have hover := ha.not_over hk hjobs
  obtain ⟨hself, hlatches⟩ := step_of_busy hk hover
  rw [ha.signs_of_busy hs hk hover, hactivity] at hr
  have hstack : thread.activity.stack ≠ [] := by simp [hactivity, Activity.atop]
  have hl : Untouched k l n b v → (v.step k).latches[l]? = v.latches[l]? := by
    rintro (hl | ⟨-, thread', hk', hempty⟩)
    · exact hl
    · obtain rfl := Option.some.inj (hk.symm.trans hk')
      exact absurd hempty hstack
  refine goes_of_latches ?_ hl
  by_cases hopen : a.stack ≠ [] ∨ a.control.settles = false
  · rw [worked_atop k hopen, List.append_nil] at hr
    rw [hactivity, World.act_atop v thread.place a _ hopen] at hself
    exact .inside (hr.of_called.trans hjobs) hn hself rfl (h.act Code.replies_stable v _ hopen)
  · obtain ⟨control, stack⟩ := a
    obtain ⟨hnil, hsettles⟩ := not_or.1 hopen
    obtain rfl : stack = [] := by simpa using hnil
    obtain ⟨result, hresult, hact⟩ := act_attempt h (by simpa using hsettles)
    have hworked : worked k (Activity.atop ⟨control, []⟩ [.attempt (settling l)]) =
        [.answered k result] := by
      show control.result?.toList.map (Sign.answered k) = _
      rw [hresult]
      rfl
    have hcalled : called c (Activity.atop ⟨control, []⟩ [.attempt (settling l)]) = [] :=
      called_of_settles (Control.settles_of_result? hresult)
    rw [hworked, hcalled, List.nil_append] at hr
    rw [hactivity, hact] at hself
    exact .answered (hr.of_single.of_answered hjobs) hn hself rfl

/-- The task puts the answer into the latch. -/
theorem goes_answered {jobs : List Job}
    (hjobs : b.jobs = jobs ++ [⟨errand l body, [result], none⟩]) (hn : jobs.length = n)
    (hk : v.threads[k]? = some thread)
    (hactivity : thread.activity = ⟨.code (settling l (.caught result)), []⟩) :
    Goes k body l n b v b' none := by
  have hover := ha.not_over hk hjobs
  obtain ⟨hself, hlatches⟩ := step_of_busy hk hover
  rw [ha.signs_of_busy hs hk hover, hactivity] at hr
  refine ⟨some result, .leaving ((congrArg Book.jobs hr.of_nil).trans hjobs) hn hself ?_, ?_, ?_⟩
  · rw [hactivity]
    rfl
  · exact fun _ h => by cases h
  · intro _ hheld
    have hsettle := World.settle_latch hheld l result
    rw [if_pos rfl] at hsettle
    rw [Holds, hlatches, hactivity]
    exact hsettle

/-- The task comes to its end. -/
theorem goes_leaving {jobs : List Job}
    (hjobs : b.jobs = jobs ++ [⟨errand l body, [result], none⟩]) (hn : jobs.length = n)
    (hk : v.threads[k]? = some thread) (hactivity : thread.activity = ⟨.code (.give .unit), []⟩) :
    Goes k body l n b v b' (some result) := by
  have hover := ha.not_over hk hjobs
  obtain ⟨-, hlatches⟩ := step_of_busy hk hover
  rw [ha.signs_of_busy hs hk hover, hactivity] at hr
  refine goes_of_latches (.ended ?_) fun _ => ?_
  · have hjobs' := hr.of_single.of_ended hjobs
    rw [hjobs', ← hn]
    exact List.getElem?_concat_length
  · rw [hlatches, hactivity]
    rfl

/-- The worker is at other tasks. -/
theorem goes_ended (hjob : b.jobs[n]? = some ⟨errand l body, [result], some (.ok .unit)⟩) :
    Goes k body l n b v b' (some result) := by
  refine goes_of_latches (.ended (hr.kept hjob rfl)) fun hu => ?_
  obtain hl | ⟨hlength, -⟩ := hu
  · exact hl
  · have hidle : b.Idle := by
      by_contra hbusy
      obtain ⟨jobs, task, answers, hjobs⟩ := hs.running hbusy
      obtain rfl : jobs.length = n := by simpa [hjobs] using hlength
      rw [hjobs, List.getElem?_concat_length] at hjob
      cases hjob
    obtain ⟨thread, hk, -, -, hworker⟩ := ha.worker
    rw [latches_of_over hk (hworker.1 hidle)]

end Cases

theorem congr (h : Phase k body l n b v held) (hjobs : b'.jobs = b.jobs) {v' : World}
    (hthread : v'.threads[k]? = v.threads[k]?) : Phase k body l n b' v' held := by
  cases h with
  | queued h => exact .queued (hjobs ▸ h)
  | begun hj hn hk ha => exact .begun (hjobs.trans hj) hn (hthread.trans hk) ha
  | inside hj hn hk ha h => exact .inside (hjobs.trans hj) hn (hthread.trans hk) ha h
  | answered hj hn hk ha => exact .answered (hjobs.trans hj) hn (hthread.trans hk) ha
  | leaving hj hn hk ha => exact .leaving (hjobs.trans hj) hn (hthread.trans hk) ha
  | ended hj => exact .ended (hjobs.symm ▸ hj)

/-- When the task of the call has ended, it has put the answer into the latch. -/
theorem of_ended (h : Phase k body l n b v held)
    (hend : ∃ job, b.jobs[n]? = some job ∧ job.result?.isSome = true) :
    ∃ result, held = some result := by
  obtain ⟨job, hjob, hresult⟩ := hend
  have running : ∀ {jobs : List Job} {task : Code} {answers : List (Except String Reply)},
      b.jobs = jobs ++ [⟨task, answers, none⟩] → jobs.length = n → False := by
    rintro jobs task answers hjobs rfl
    rw [hjobs, List.getElem?_concat_length] at hjob
    cases hjob
    cases hresult
  cases h with
  | queued h =>
    rw [List.getElem?_eq_none h] at hjob
    cases hjob
  | begun hjobs hn | inside hjobs hn | answered hjobs hn => exact (running hjobs hn).elim
  | leaving | ended => exact ⟨_, rfl⟩

/-- What a step of another thread than the caller is to the task of the call. -/
theorem step (ha : b.Agrees c k v) (hs : b.Sound) (hr : Book.Replays k b (signs c v i) b')
    (hbody : body.Replies) (htask : b.queued[n]? = some (errand l body))
    (h : Phase k body l n b v held) :
    ∃ held', Phase k body l n b' (v.step i) held' ∧
      (∀ result, held = some result → held' = held) ∧ (Holds l held v →
        ((v.step i).latches[l]? = v.latches[l]? ∨ i = k ∧ Untouched k l n b v) →
          Holds l held' (v.step i)) := by
  by_cases hik : i = k
  · subst hik
    obtain ⟨held', hphase, hsame, hholds⟩ : Goes i body l n b v b' held := by
      cases h with
      | queued h => exact goes_queued ha hs hr htask h
      | begun hj hn hk hactivity => exact goes_begun ha hs hr hj hn hk hactivity hbody
      | inside hj hn hk hactivity h => exact goes_inside ha hs hr hj hn hk hactivity h
      | answered hj hn hk hactivity => exact goes_answered ha hs hr hj hn hk hactivity
      | leaving hj hn hk hactivity => exact goes_leaving ha hs hr hj hn hk hactivity
      | ended hj => exact goes_ended ha hs hr hj
    exact ⟨held', hphase, hsame, fun hheld hl => hholds (hl.elim .inl And.right) hheld⟩
  · obtain ⟨worker, hk, -⟩ := ha.worker
    refine ⟨held, h.congr (ha.jobs_of_ne hik hr) ((World.step_other hk hik).trans hk.symm),
      fun _ _ => rfl, fun hheld hl => ?_⟩
    exact (hl.resolve_right fun h => hik h.1).trans hheld

end Phase

namespace Caller

theorem At.other {code : Code} (h : x.At c v code) (hi : i ≠ x.thread) :
    x.At c (v.step i) code := by
  obtain ⟨thread, hx, hhome, ha⟩ := h
  exact ⟨thread, World.step_other hx hi, hhome, ha⟩

theorem At.ne {code : Code} (hx : x.At c v code) (h : b.Agrees c k v) : k ≠ x.thread := by
  rintro rfl
  obtain ⟨thread, hk, hhome, -⟩ := h.worker
  obtain ⟨thread', hx, hne, -⟩ := hx
  obtain rfl := Option.some.inj (hk.symm.trans hx)
  exact hne hhome

/-- The caller is answered. -/
theorem At.replied {op : Op} {next : Reply → Code} (hx : x.At c v (.perform op next)) {w' : World}
    {r : Reply} (h : ∀ here : Place, here.home ≠ some c → v.perform here op = (w', .reply r)) :
    signs c v x.thread = called c ⟨.code (.perform op next), x.below⟩ ∧
      x.At c (v.step x.thread) (next r) ∧ (v.step x.thread).latches = w'.latches := by
  obtain ⟨thread, hthread, hhome, ha⟩ := hx
  have hover : ¬ thread.activity.control.Over := by
    rintro ⟨r', hr'⟩
    rw [ha] at hr'
    cases hr'
  have hop : thread.activity.op? = some op := by
    rw [ha]
    rfl
  have hact : v.act thread.place thread.activity = (w', ⟨.code (next r), x.below⟩) := by
    rw [ha]
    show ((v.perform thread.place op).1,
      Activity.respond next x.below (v.perform thread.place op).2) = _
    rw [h thread.place hhome]
    rfl
  obtain ⟨hself, hlatches⟩ := step_of_busy hthread hover
  rw [hact] at hself hlatches
  exact ⟨ha ▸ signs_of_op? hthread hop, ⟨_, hself, hhome, rfl⟩, hlatches⟩

/-- How far the call has come, and the task of the call. -/
def Standing (c : ContextId) (k : ThreadId) (b : Book) (v : World) : Stage → Prop
  | .asking => x.At c v (c.runSync x.body x.rest)
  | .opening => x.At c v (Serial.opening c x.body x.rest)
  | .dispatching l => x.At c v (Serial.dispatching c l x.body x.rest) ∧ Holds l none v
  | .waiting l n => x.At c v (awaiting l x.rest) ∧ b.queued[n]? = some (errand l x.body) ∧
      ∃ held, Phase k x.body l n b v held ∧ Holds l held v
  | .returned l n => ∃ result, x.At c v ((Routine.rethrow result : Routine Reply) x.rest) ∧
      b.queued[n]? = some (errand l x.body) ∧ Phase k x.body l n b v (some result)

theorem Standing.opens (ha : b.Agrees c k v) (h : x.Standing c k b v .asking) :
    signs c v x.thread = [] ∧ x.Standing c k b (v.step x.thread) .opening := by
  obtain ⟨context, hc, hkind, -⟩ := ha.context
  have hx : x.At c v (c.runSync x.body x.rest) := h
  rw [runSync_eq] at hx
  have hreply : ∀ here : Place, here.home ≠ some c →
      v.perform here (.context c .isCurrent) = (v, .reply (.flag false)) := by
    intro here hne
    have hcurrent : v.isCurrent here.home c = false := by simp [World.isCurrent, hc, hkind, hne]
    simp only [World.perform, World.onContext, hcurrent]
    rfl
  obtain ⟨hsigns, hx', -⟩ := hx.replied hreply
  exact ⟨hsigns, hx'⟩

theorem Standing.dispatches (h : x.Standing c k b v .opening) :
    signs c v x.thread = [] ∧
      x.Standing c k b (v.step x.thread) (.dispatching v.latches.size) := by
  have hx : x.At c v (Serial.opening c x.body x.rest) := h
  obtain ⟨hsigns, hx', hlatches⟩ := hx.replied fun here _ => rfl
  refine ⟨hsigns, hx', ?_⟩
  rw [Holds, hlatches]
  exact Array.getElem?_push_size

theorem Standing.waits (ha : b.Agrees c k v) (hs : b.Sound)
    (h : x.Standing c k b v (.dispatching l)) :
    signs c v x.thread = [.queued (errand l x.body)] ∧
      ({ b with queued := b.queued ++ [errand l x.body] } : Book).Agrees c k (v.step x.thread) ∧
        x.Standing c k { b with queued := b.queued ++ [errand l x.body] } (v.step x.thread)
          (.waiting l b.queued.length) := by
  obtain ⟨context, hc, hkind, -⟩ := ha.context
  obtain ⟨hx, hl⟩ := h
  obtain ⟨thread, hthread, -, hactivity⟩ := id hx
  have hop : thread.activity.op? = some (.context c (.execute (errand l x.body))) := by
    rw [hactivity]
    rfl
  obtain ⟨hsigns, hagrees⟩ := ha.executes hs hthread hop
  obtain ⟨-, hx', hlatches⟩ := hx.replied fun here _ => by
    simp only [World.perform, World.onContext, hc, Option.getD_some, hkind]
    rfl
  refine ⟨hsigns, hagrees, hx', ?_, none, .queued hs.le, ?_⟩
  · exact List.getElem?_concat_length
  · rw [Holds, hlatches]
    exact hl

theorem Standing.returns (ha : b.Agrees c k v) (h : x.Standing c k b v (.waiting l n))
    (henabled : v.enabled x.thread = true) :
    signs c v x.thread = [] ∧ x.Standing c k b (v.step x.thread) (.returned l n) := by
  obtain ⟨hx, htask, held, hphase, hl⟩ := h
  obtain ⟨thread, hthread, -, hactivity⟩ := id hx
  have hready : (v.latches[l]?).any Latch.isFull = true := by
    simp only [World.enabled, hthread, hactivity] at henabled
    exact henabled
  rw [show v.latches[l]? = _ from hl] at hready
  cases held with
  | none => cases hready
  | some result =>
    obtain ⟨hsigns, hx', -⟩ := hx.replied (r := .caught result) fun here _ => by
      simp only [World.perform, show v.latches[l]? = _ from hl]
      rfl
    obtain ⟨worker, hk, -⟩ := ha.worker
    have hk' := World.step_other hk (hx.ne ha).symm
    exact ⟨hsigns, result, hx', htask, hphase.congr rfl (hk'.trans hk.symm)⟩

theorem Standing.others (ha : b.Agrees c k v) (hs : b.Sound)
    (hr : Book.Replays k b (signs c v i) b') (hbody : x.body.Replies) {stage : Stage}
    (h : x.Standing c k b v stage) (hi : i ≠ x.thread) (hl : stage.Spared k seen v i)
    (hbegun : b.jobs.map Job.task = seen.filterMap Sign.begun?) :
    x.Standing c k b' (v.step i) stage := by
  have hkept : ∀ {n : Nat} {task : Code}, b.queued[n]? = some task → b'.queued[n]? = some task := by
    intro n task htask
    rw [hr.queued_eq]
    exact List.getElem?_append_left (List.getElem?_eq_some_iff.1 htask).1 ▸ htask
  cases stage with
  | asking => exact At.other h hi
  | opening => exact At.other h hi
  | dispatching l => exact ⟨h.1.other hi, Eq.trans hl h.2⟩
  | waiting l n =>
    obtain ⟨hx, htask, held, hphase, hheld⟩ := h
    obtain ⟨held', hphase', -, hholds⟩ := hphase.step ha hs hr hbody htask
    refine ⟨hx.other hi, hkept htask, held', hphase', hholds hheld ?_⟩
    obtain hsame | ⟨hik, hlength, hstack⟩ := hl
    · exact .inl hsame
    · rw [← hbegun, List.length_map] at hlength
      exact .inr ⟨hik, .inr ⟨hlength, hstack⟩⟩
  | returned l n =>
    obtain ⟨result, hx, htask, hphase⟩ := h
    obtain ⟨held', hphase', hsame, -⟩ := hphase.step ha hs hr hbody htask
    exact ⟨result, hx.other hi, hkept htask, hsame result rfl ▸ hphase'⟩

theorem Standing.passing {stage : Stage} (h : x.Standing c k b v stage) (nanos : Nat) :
    x.Standing c k b { v with clock := v.clock + nanos } stage := by
  cases stage with
  | asking | opening | dispatching => exact h
  | waiting l n =>
    obtain ⟨hx, htask, held, hphase, hheld⟩ := h
    exact ⟨hx, htask, held, hphase.congr rfl rfl, hheld⟩
  | returned l n =>
    obtain ⟨result, hx, htask, hphase⟩ := h
    exact ⟨result, hx, htask, hphase.congr rfl rfl⟩

theorem At.enabled {op : Op} {next : Reply → Code} (hx : x.At c v (.perform op next)) :
    v.enabled x.thread = v.ready op := by
  obtain ⟨thread, hthread, -, hactivity⟩ := hx
  simp only [World.enabled, hthread, hactivity]

theorem Standing.served {stage : Stage} (hs : b.Sound) (h : x.Standing c k b v stage) :
    x.Served c b v stage := by
  cases stage with
  | asking => exact At.enabled h
  | opening => exact At.enabled h
  | dispatching l => exact At.enabled h.1
  | waiting l n =>
    obtain ⟨hx, htask, held, hphase, hheld⟩ := h
    refine ⟨htask, fun hend => hx.enabled.trans ?_⟩
    obtain ⟨result, rfl⟩ := hphase.of_ended hend
    show (v.latches[l]?).any Latch.isFull = true
    rw [show v.latches[l]? = _ from hheld]
    rfl
  | returned l n =>
    obtain ⟨result, hx, htask, hphase⟩ := h
    obtain ⟨job, hjob, hpart⟩ : ∃ job, b.jobs[n]? = some job ∧
        job.task = errand l x.body ∧ job.answers = [result] := by
      cases hphase with
      | leaving hjobs hn =>
        subst hn
        exact ⟨_, hjobs ▸ List.getElem?_concat_length, rfl, rfl⟩
      | ended hjob => exact ⟨_, hjob, rfl, rfl⟩
    exact ⟨job, result, hjob, hpart.1, hpart.2, fun m hm => hs.earlier hjob hm, hx⟩

/-- However far a call has come, the book tells of the tasks, and what the call has come to. -/
theorem Course.standing (hw : Opened c k w) (hbody : x.body.Replies) {stage : Stage}
    (h : x.Course c k w seen v stage) :
    ∃ b, Book.Replays k .start seen b ∧ b.Agrees c k v ∧ x.Standing c k b v stage := by
  induction h with
  | asks before h =>
    obtain ⟨b, hr, ha⟩ := before.agrees hw
    exact ⟨b, hr, ha, h⟩
  | opens _ ih =>
    obtain ⟨b, hr, ha, hx⟩ := ih
    obtain ⟨hsigns, hx'⟩ := hx.opens ha
    rw [hsigns, List.append_nil]
    exact ⟨b, hr, ha.quiet (Book.start_sound.replays hr) hsigns, hx'⟩
  | dispatches _ ih =>
    obtain ⟨b, hr, ha, hx⟩ := ih
    obtain ⟨hsigns, hx'⟩ := hx.dispatches
    rw [hsigns, List.append_nil]
    exact ⟨b, hr, ha.quiet (Book.start_sound.replays hr) hsigns, hx'⟩
  | waits _ ih =>
    obtain ⟨b, hr, ha, hx⟩ := ih
    obtain ⟨hsigns, ha', hx'⟩ := hx.waits ha (Book.start_sound.replays hr)
    rw [← show b.queued = List.filterMap _ _ from hr.queued_eq]
    exact ⟨_, hr.append (hsigns ▸ .single (.queued _)), ha', hx'⟩
  | returns _ henabled ih =>
    obtain ⟨b, hr, ha, hx⟩ := ih
    obtain ⟨hsigns, hx'⟩ := hx.returns ha henabled
    rw [hsigns, List.append_nil]
    exact ⟨b, hr, ha.quiet (Book.start_sound.replays hr) hsigns, hx'⟩
  | others _ hi hl ih =>
    obtain ⟨b, hr, ha, hx⟩ := ih
    have hs := Book.start_sound.replays hr
    obtain ⟨b', hr', ha'⟩ := ha.step hs _
    exact ⟨b', hr.append hr', ha', hx.others ha hs hr' hbody hi hl hr.begun_eq⟩
  | passing _ nanos ih =>
    obtain ⟨b, hr, ha, hx⟩ := ih
    exact ⟨b, hr, ha.passing nanos, Standing.passing hx nanos⟩

end Caller

end Serial
end Effects
