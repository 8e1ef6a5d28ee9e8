import Effects.Proofs.Serial.Signs

/-!
A book of the tasks of a serial context: those that have been queued, and what its worker has done
with them.
-/

namespace Effects.Serial

/-- A task that has begun. -/
structure Job where
  task : Code
  /-- What the closures have come to that the task has called. -/
  answers : List (Except String Reply)
  /-- Its end, when it has come to it. -/
  result? : Option (Except String Reply)

structure Book where
  queued : List Code
  jobs : List Job
  closed : Bool
  retired : Bool

/-- Nothing is queued after the queue has been closed: its last handle is gone by then. -/
def Punctual (seen : List Sign) : Prop :=
  ∀ before after, seen = before ++ .closed :: after → ∀ task, .queued task ∉ after

theorem Punctual.tail {sign : Sign} {signs : List Sign} (h : Punctual (sign :: signs)) :
    Punctual signs := fun before after heq => h (sign :: before) after (by rw [heq]; rfl)

theorem Punctual.of_isPrefix {more : List Sign} (h : Punctual more) (hp : seen <+: more) :
    Punctual seen := by
  obtain ⟨rest, rfl⟩ := hp
  rintro before after rfl task htask
  exact h before (after ++ rest) (by simp) task (List.mem_append_left _ htask)

theorem punctual_append {early late : List Sign} (h : .closed ∉ early)
    (h' : ∀ task, .queued task ∉ late) : Punctual (early ++ .closed :: late) := by
  intro before after heq task htask
  obtain ⟨more, rfl, hmore⟩ | ⟨more, rfl, hmore⟩ := List.append_eq_append_iff.1 heq
  · cases more with
    | nil =>
      obtain ⟨-, rfl⟩ := List.cons.inj hmore
      exact h' task htask
    | cons sign more =>
      obtain ⟨-, rfl⟩ := List.cons.inj hmore
      exact h' task (List.mem_append_right _ (List.mem_cons_of_mem _ htask))
  · cases more with
    | nil =>
      obtain ⟨-, rfl⟩ := List.cons.inj hmore
      exact h' task htask
    | cons sign more =>
      obtain ⟨rfl, -⟩ := List.cons.inj hmore
      exact absurd (by simp) h

namespace Book

def start : Book := ⟨[], [], false, false⟩

/-- No task runs. -/
def Idle (b : Book) : Prop := ∀ job ∈ b.jobs, job.result?.isSome = true

/-- What each sign comes to; the worker alone takes the tasks, one after the other. -/
inductive Follows (k : ThreadId) (b : Book) : Sign → Book → Prop
  | queued (task : Code) : Follows k b (.queued task) { b with queued := b.queued ++ [task] }
  | closed : Follows k b .closed { b with closed := true }
  /-- It is the earliest of those that have not begun. -/
  | began {task : Code} (hidle : b.Idle) (hr : b.retired = false)
      (ht : b.queued[b.jobs.length]? = some task) :
      Follows k b (.began k task) { b with jobs := b.jobs ++ [⟨task, [], none⟩] }
  | answered {jobs : List Job} {task : Code} {answers : List (Except String Reply)}
      (h : b.jobs = jobs ++ [⟨task, answers, none⟩]) (result : Except String Reply) :
      Follows k b (.answered k result)
        { b with jobs := jobs ++ [⟨task, answers ++ [result], none⟩] }
  | ended {jobs : List Job} {task : Code} {answers : List (Except String Reply)}
      (h : b.jobs = jobs ++ [⟨task, answers, none⟩]) (result : Except String Reply) :
      Follows k b (.ended k result) { b with jobs := jobs ++ [⟨task, answers, some result⟩] }
  | retired (hidle : b.Idle) (hc : b.closed = true) (hall : b.jobs.length = b.queued.length) :
      Follows k b (.retired k) { b with retired := true }

inductive Replays (k : ThreadId) : Book → List Sign → Book → Prop
  | nil (b : Book) : Replays k b [] b
  | cons {b b' b'' : Book} {sign : Sign} {signs : List Sign} (h : Follows k b sign b')
      (hs : Replays k b' signs b'') : Replays k b (sign :: signs) b''

variable {c : ContextId} {k i : ThreadId} {b b' b'' : Book} {sign : Sign} {seen more : List Sign}
  {n : Nat} {a : Activity} {result : Except String Reply}

theorem Replays.single (h : Follows k b sign b') : Replays k b [sign] b' := .cons h (.nil b')

theorem Replays.append (h : Replays k b seen b') (h' : Replays k b' more b'') :
    Replays k b (seen ++ more) b'' := by
  induction h with
  | nil => exact h'
  | cons h _ ih => exact .cons h (ih h')

/-- In the order of the calls, and the worker has come to a place in it. -/
structure Sound (b : Book) : Prop where
  begun : b.jobs.map Job.task = b.queued.take b.jobs.length
  /-- One at a time. -/
  one : ∀ jobs job, b.jobs = jobs ++ [job] → ∀ job' ∈ jobs, job'.result?.isSome = true
  retired : b.retired = true → b.closed = true ∧ b.Idle

theorem Sound.le (h : b.Sound) : b.jobs.length ≤ b.queued.length := by
  have hlength := congrArg List.length h.begun
  rw [List.length_map, List.length_take] at hlength
  omega

theorem Sound.task (h : b.Sound) {job : Job} (hjob : b.jobs[n]? = some job) :
    b.queued[n]? = some job.task := by
  have htask : (b.jobs.map Job.task)[n]? = some job.task := by
    rw [List.getElem?_map, hjob]
    rfl
  rwa [h.begun, List.getElem?_take_of_lt (List.getElem?_eq_some_iff.1 hjob).1] at htask

theorem start_sound : start.Sound := ⟨rfl, by simp [start], by simp [start]⟩

/-- What has begun earlier has ended. -/
theorem Sound.earlier (h : b.Sound) {m : Nat} {job : Job} (hjob : b.jobs[n]? = some job)
    (hm : m < n) : ∃ job', b.jobs[m]? = some job' ∧ job'.result?.isSome = true := by
  obtain ⟨hn, -⟩ := List.getElem?_eq_some_iff.1 hjob
  obtain hnil | ⟨jobs, last, hjobs⟩ := List.eq_nil_or_concat b.jobs
  · simp [hnil] at hn
  · rw [List.concat_eq_append] at hjobs
    have hlt : m < jobs.length := by
      rw [hjobs, List.length_append, List.length_singleton] at hn
      omega
    exact ⟨jobs[m], by rw [hjobs, List.getElem?_append_left hlt, List.getElem?_eq_getElem hlt],
      h.one jobs last hjobs _ (List.getElem_mem hlt)⟩

/-- A task runs: the last one that has begun. -/
theorem Sound.running (h : b.Sound) (hidle : ¬ b.Idle) :
    ∃ jobs task answers, b.jobs = jobs ++ [⟨task, answers, none⟩] := by
  obtain hnil | ⟨jobs, job, hjobs⟩ := List.eq_nil_or_concat b.jobs
  · exact absurd (by simp [Idle, hnil]) hidle
  · rw [List.concat_eq_append] at hjobs
    obtain ⟨task, answers, _ | result⟩ := job
    · exact ⟨jobs, task, answers, hjobs⟩
    · refine absurd (fun job hjob => ?_) hidle
      obtain hjob | hjob := List.mem_append.1 (hjobs ▸ hjob)
      · exact h.one jobs _ hjobs job hjob
      · rw [List.mem_singleton.1 hjob]
        rfl

theorem not_idle {jobs : List Job} {task : Code} {answers : List (Except String Reply)}
    (h : b.jobs = jobs ++ [⟨task, answers, none⟩]) : ¬ b.Idle := by
  intro hidle
  cases hidle ⟨task, answers, none⟩ (by simp [h])

theorem Sound.follows (h : b.Sound) (hs : Follows k b sign b') : b'.Sound := by
  obtain ⟨queued, jobs, closed, retired⟩ := b
  cases hs with
  | queued task =>
    refine ⟨?_, h.one, h.retired⟩
    rw [List.take_append_of_le_length h.le]
    exact h.begun
  | closed => exact ⟨h.begun, h.one, fun hr => ⟨rfl, (h.retired hr).2⟩⟩
  | @began task hidle hr ht =>
    refine ⟨?_, ?_, fun hr' => absurd (hr'.symm.trans hr) (by decide)⟩
    · simp only [List.map_append, List.map_cons, List.map_nil, List.length_append,
        List.length_singleton]
      have ht' : queued[jobs.length]? = some task := ht
      have hbegun : jobs.map Job.task = queued.take jobs.length := h.begun
      rw [List.take_add_one, ht', hbegun]
      rfl
    · intro jobs' job hjobs job' hjob'
      obtain ⟨rfl, -⟩ := List.append_inj' hjobs rfl
      exact hidle job' hjob'
  | @answered jobs' task answers hjobs result =>
    obtain rfl : jobs = jobs' ++ [⟨task, answers, none⟩] := hjobs
    refine ⟨?_, ?_, fun hr => absurd (h.retired hr).2 (not_idle rfl)⟩
    · simpa using h.begun
    · intro jobs job hjobs
      obtain ⟨rfl, -⟩ := List.append_inj' hjobs rfl
      exact h.one jobs' _ rfl
  | @ended jobs' task answers hjobs result =>
    obtain rfl : jobs = jobs' ++ [⟨task, answers, none⟩] := hjobs
    refine ⟨?_, ?_, fun hr => absurd (h.retired hr).2 (not_idle rfl)⟩
    · simpa using h.begun
    · intro jobs job hjobs
      obtain ⟨rfl, -⟩ := List.append_inj' hjobs rfl
      exact h.one jobs' _ rfl
  | retired hidle hc => exact ⟨h.begun, h.one, fun _ => ⟨hc, hidle⟩⟩

theorem Sound.replays (h : b.Sound) (hs : Replays k b seen b') : b'.Sound := by
  induction hs with
  | nil => exact h
  | cons hf _ ih => exact ih (h.follows hf)

theorem Follows.queued_eq (h : Follows k b sign b') :
    b'.queued = b.queued ++ sign.queued?.toList := by
  cases h <;> simp [Sign.queued?]

theorem Replays.queued_eq (h : Replays k b seen b') :
    b'.queued = b.queued ++ seen.filterMap Sign.queued? := by
  induction h with
  | nil => simp
  | @cons b b' b'' sign seen hf _ ih =>
    rw [ih, hf.queued_eq, List.append_assoc]
    cases hs : sign.queued? <;> simp [hs]

theorem Follows.begun_eq (h : Follows k b sign b') :
    b'.jobs.map Job.task = b.jobs.map Job.task ++ sign.begun?.toList := by
  cases h with
  | answered h | ended h => simp [Sign.begun?, h]
  | _ => simp [Sign.begun?]

theorem Replays.begun_eq (h : Replays k b seen b') :
    b'.jobs.map Job.task = b.jobs.map Job.task ++ seen.filterMap Sign.begun? := by
  induction h with
  | nil => simp
  | @cons b b' b'' sign seen hf _ ih =>
    rw [ih, hf.begun_eq, List.append_assoc]
    cases hs : sign.begun? <;> simp [hs]

theorem Replays.worker (h : Replays k b seen b') {task : Code}
    (hs : .began i task ∈ seen) : i = k := by
  induction h with
  | nil => cases hs
  | cons hf _ ih =>
    obtain hs | hs := List.mem_cons.1 hs
    · subst hs
      cases hf
      rfl
    · exact ih hs

/-- All tasks have been run when the worker takes no more, if none come after the queue is
closed. -/
theorem Replays.emptied (h : Replays k b seen b') (hs : b.Sound) (hp : Punctual seen)
    (hclosed : b.closed = true → ∀ task, .queued task ∉ seen)
    (hb : b.retired = true → b.jobs.length = b.queued.length) :
    b'.retired = true → b'.jobs.length = b'.queued.length := by
  induction h with
  | nil => exact hb
  | @cons b b' b'' sign signs hf _ ih =>
    have hlate : ∀ task, b.closed = true → sign ≠ .queued task := by
      rintro task hc rfl
      exact hclosed hc task List.mem_cons_self
    refine ih (hs.follows hf) hp.tail (fun hc task ht => ?_) ?_
    · cases hf with
      | closed => exact hp [] signs rfl task ht
      | _ => exact hclosed hc task (List.mem_cons_of_mem _ ht)
    · intro hr
      cases hf with
      | queued task => exact absurd rfl (hlate task (hs.retired hr).1)
      | began _ hr' => exact absurd (hr'.symm.trans hr) (by decide)
      | answered h | ended h =>
        have hlength := hb hr
        simpa [h] using hlength
      | closed => exact hb hr
      | retired _ _ hall => exact hall

theorem Replays.of_nil (h : Replays k b [] b') : b' = b := by
  cases h
  rfl

theorem Replays.of_single (h : Replays k b [sign] b') : Follows k b sign b' := by
  cases h with
  | cons hf hs => exact hs.of_nil ▸ hf

/-- What has ended is not gone back to. -/
theorem Follows.kept (h : Follows k b sign b') {job : Job} (hjob : b.jobs[n]? = some job)
    (hend : job.result?.isSome = true) : b'.jobs[n]? = some job := by
  have hearly : ∀ {jobs : List Job} {task : Code} {answers : List (Except String Reply)},
      b.jobs = jobs ++ [⟨task, answers, none⟩] → ∀ job' : Job, (jobs ++ [job'])[n]? = some job := by
    intro jobs task answers hjobs job'
    rw [hjobs] at hjob
    have hn : n < jobs.length := by
      by_contra hn
      obtain hgt | rfl := Nat.lt_or_eq_of_le (Nat.le_of_not_lt hn)
      · rw [List.getElem?_eq_none (by simpa using Nat.succ_le_of_lt hgt)] at hjob
        cases hjob
      · rw [List.getElem?_concat_length] at hjob
        cases hjob
        cases hend
    rwa [List.getElem?_append_left hn] at hjob ⊢
  cases h with
  | answered h | ended h => exact hearly h _
  | began =>
    rwa [List.getElem?_append_left (List.getElem?_eq_some_iff.1 hjob).1]
  | _ => exact hjob

theorem Replays.kept (h : Replays k b seen b') {job : Job} (hjob : b.jobs[n]? = some job)
    (hend : job.result?.isSome = true) : b'.jobs[n]? = some job := by
  induction h with
  | nil => exact hjob
  | cons hf _ ih => exact ih (hf.kept hjob hend)

theorem Follows.of_answered {jobs : List Job} {task : Code} {answers : List (Except String Reply)}
    (h : Follows k b (.answered i result) b') (hjobs : b.jobs = jobs ++ [⟨task, answers, none⟩]) :
    b'.jobs = jobs ++ [⟨task, answers ++ [result], none⟩] := by
  cases h with
  | answered h =>
    obtain ⟨rfl, hjob⟩ := List.append_inj' (h.symm.trans hjobs) rfl
    cases hjob
    rfl

theorem Follows.of_ended {jobs : List Job} {task : Code} {answers : List (Except String Reply)}
    (h : Follows k b (.ended i result) b') (hjobs : b.jobs = jobs ++ [⟨task, answers, none⟩]) :
    b'.jobs = jobs ++ [⟨task, answers, some result⟩] := by
  cases h with
  | ended h =>
    obtain ⟨rfl, hjob⟩ := List.append_inj' (h.symm.trans hjobs) rfl
    cases hjob
    rfl

/-- Calls are nothing to the tasks that have begun. -/
theorem Replays.of_called (h : Replays k b (called c a) b') : b'.jobs = b.jobs := by
  unfold called at h
  split at h
  · split at h
    · cases h.of_single
      rfl
    · rw [h.of_nil]
  · split at h
    · cases h.of_single
      rfl
    · rw [h.of_nil]
  · rw [h.of_nil]

/-- A book is nothing but what has been seen. -/
theorem Follows.unique (h : Follows k b sign b') (h' : Follows k b sign b'') : b' = b'' := by
  cases h with
  | queued | closed => cases h'; rfl
  | began => cases h'; rfl
  | retired => cases h'; rfl
  | answered hjobs =>
    cases h' with
    | answered hjobs' =>
      obtain ⟨rfl, hjob⟩ := List.append_inj' (hjobs.symm.trans hjobs') rfl
      cases hjob
      rfl
  | ended hjobs =>
    cases h' with
    | ended hjobs' =>
      obtain ⟨rfl, hjob⟩ := List.append_inj' (hjobs.symm.trans hjobs') rfl
      cases hjob
      rfl

theorem Replays.unique (h : Replays k b seen b') (h' : Replays k b seen b'') : b' = b'' := by
  induction h with
  | nil => exact h'.of_nil.symm
  | cons hf _ ih =>
    cases h' with
    | cons hf' hs' =>
      cases hf.unique hf'
      exact ih hs'

theorem Follows.length_le (h : Follows k b sign b') :
    b.jobs.length ≤ b'.jobs.length ∧ b.queued.length ≤ b'.queued.length := by
  cases h with
  | answered h | ended h => simp [h]
  | _ => simp

theorem Replays.length_le (h : Replays k b seen b') :
    b.jobs.length ≤ b'.jobs.length ∧ b.queued.length ≤ b'.queued.length := by
  induction h with
  | nil => exact ⟨Nat.le_refl _, Nat.le_refl _⟩
  | cons hf _ ih =>
    exact ⟨Nat.le_trans hf.length_le.1 ih.1, Nat.le_trans hf.length_le.2 ih.2⟩

end Book
end Effects.Serial
