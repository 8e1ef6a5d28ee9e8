import Effects.Proofs.Cancel.Regions
import Effects.Proofs.Shield.Apart

/-!
Activities that have nothing to do with a connection, down to the bottom of their stack or to where
a region ends that the connection's own run is in.
-/

namespace Effects

section

variable (c : ConnectionId) (own : FiberId → Prop) (edge : List Cont → List Frame → Prop)

/-- All that is left to do is apart, up to the end of a region with `edge` below it; or there is
nothing below. -/
inductive Below : List Cont → List Frame → Prop
  | bottom (h : ∀ next fs, ¬ edge next fs) : Below [] []
  | cont {cont : Cont} {next : List Cont} {fs : List Frame} (hc : cont.Apart c own)
      (h : Below next fs) : Below (cont :: next) fs
  | node {next : List Cont} {run : Run} {fs : List Frame} (hr : run.connection ≠ c)
      (h : Below next fs) : Below [] (.node next run :: fs)
  | acquiring {use : Value → Code} {release : Value → ExitCase Value → Code}
      {saved : ConnectionId} {next : List Cont} {fs : List Frame}
      (hu : ∀ v, (use v).Apart c own) (hr : ∀ v e, (release v e).Apart c own) (hs : saved ≠ c)
      (h : Below next fs) : Below [] (.acquiring use release saved next :: fs)
  | opening (resource : Value) {release : Value → ExitCase Value → Code} {next : List Cont}
      {run : Run} {fs : List Frame} (hf : ∀ v e, (release v e).Apart c own)
      (hr : run.connection ≠ c) (h : Below next fs) :
      Below [] (.opening resource release next run :: fs)
  | inUse (resource : Value) {release : Value → ExitCase Value → Code} {next : List Cont}
      {fs : List Frame} (hf : ∀ v e, (release v e).Apart c own) (h : Below next fs) :
      Below [] (.using resource release next :: fs)
  | releasing (exit : Exit) {saved : ConnectionId} {next : List Cont} {fs : List Frame}
      (hs : saved ≠ c) (h : Below next fs) : Below [] (.releasing exit saved next :: fs)
  | instrumented {next : List Cont} {fs : List Frame} (h : Below next fs) :
      Below [] (.instrumented next :: fs)
  | call {next : Reply → Code} {fs : List Frame}
      (hn : ∀ r, ¬ r.Carries c → (next r).Apart c own) (h : Below [] fs) :
      Below [] (.call next :: fs)
  | attempt {next : Reply → Code} {fs : List Frame}
      (hn : ∀ r, ¬ r.Carries c → (next r).Apart c own) (h : Below [] fs) :
      Below [] (.attempt next :: fs)
  | tokens {rest : List Code} (failure : Option String) {next : Reply → Code} {fs : List Frame}
      (ht : ∀ x ∈ rest, x.Apart c own) (hn : (next .unit).Apart c own) (h : Below [] fs) :
      Below [] (.tokens rest failure next :: fs)
  | region {next : List Cont} {fs : List Frame} (h : edge next fs) : Below (.restore c :: next) fs
  | acquire (use : Value → Code) (release : Value → ExitCase Value → Code) {next : List Cont}
      {fs : List Frame} (h : edge next fs) : Below [] (.acquiring use release c next :: fs)
  | release (exit : Exit) {next : List Cont} {fs : List Frame} (h : edge next fs) :
      Below [] (.releasing exit c next :: fs)

inductive Activity.Apart : Activity → Prop
  | focus {n : Node} {next : List Cont} {run : Run} {fs : List Frame} (hn : n.Apart c own)
      (hr : run.connection ≠ c) (h : Below c own edge next fs) :
      Activity.Apart ⟨.drive (.focus n next) run, fs⟩
  | unwind (exit : Exit) {next : List Cont} {run : Run} {fs : List Frame}
      (hr : run.connection ≠ c) (h : Below c own edge next fs) :
      Activity.Apart ⟨.drive (.unwind exit next) run, fs⟩
  | code {x : Code} {fs : List Frame} (hx : x.Apart c own) (h : Below c own edge [] fs) :
      Activity.Apart ⟨.code x, fs⟩
  | unwinding (message : String) {fs : List Frame} (h : Below c own edge [] fs) :
      Activity.Apart ⟨.unwinding message, fs⟩
  | ended {r : Except String Reply} {fs : List Frame} (hr : ∀ x, r = .ok x → ¬ x.Carries c)
      (h : Below c own edge [] fs) : Activity.Apart ⟨.ended r, fs⟩

/-- Has just left the region. -/
inductive Activity.Left : Activity → Prop
  | restored (exit : Exit) {next : List Cont} (run : Run) {fs : List Frame} (h : edge next fs) :
      Activity.Left ⟨.drive (.unwind exit next) { run with connection := c }, fs⟩
  | acquired (resource : Value) (use : Value → Code) (release : Value → ExitCase Value → Code)
      {next : List Cont} (run : Run) {fs : List Frame} (h : edge next fs) :
      Activity.Left ⟨.drive (.focus (.bracketUse resource use release) next)
        { run with connection := c }, fs⟩
  | resumed (env : Surroundings) (exit : Exit) {next : List Cont} (run : Run) {fs : List Frame}
      (h : edge next fs) :
      Activity.Left (after (Machine.resume env exit next { run with connection := c }) fs)
  | failed (message : String) {next : List Cont} {fs : List Frame} (h : edge next fs) :
      Activity.Left ⟨.unwinding message, fs⟩

/-- Stays apart, or leaves the region. -/
def Activity.Keeps (a : Activity) : Prop := a.Apart c own edge ∨ a.Left c edge

end

variable {c : ConnectionId} {own : FiberId → Prop} {edge : List Cont → List Frame → Prop}
  {env : Surroundings} {exit : Exit} {run : Run} {next : List Cont} {fs : List Frame}
  {frame : Frame} {a : Activity}

namespace Below

/-- What is below the continuations of a machine that a panic ends. -/
theorem panics (h : Below c own edge next fs) :
    Below c own edge [] fs ∨ ∃ rest, edge rest fs := by
  induction h with
  | cont _ _ ih => exact ih
  | region h => exact .inr ⟨_, h⟩
  | bottom h => exact .inl (.bottom h)
  | node hr h => exact .inl (.node hr h)
  | acquiring hu hr hs h => exact .inl (.acquiring hu hr hs h)
  | opening resource hf hr h => exact .inl (.opening resource hf hr h)
  | inUse resource hf h => exact .inl (.inUse resource hf h)
  | releasing exit hs h => exact .inl (.releasing exit hs h)
  | instrumented h => exact .inl (.instrumented h)
  | call hn h => exact .inl (.call hn h)
  | attempt hn h => exact .inl (.attempt hn h)
  | tokens failure ht hn h => exact .inl (.tokens failure ht hn h)
  | acquire use release h => exact .inl (.acquire use release h)
  | release exit h => exact .inl (.release exit h)

theorem failed (h : Below c own edge next fs) (message : String) :
    Activity.Keeps c own edge ⟨.unwinding message, fs⟩ := by
  obtain h | ⟨rest, h⟩ := h.panics
  · exact .inl (.unwinding message h)
  · exact .inr (.failed message h)

/-- A region that no run leaves is not one of the connection's own run. -/
theorem conts (h : Below c own (fun _ _ => False) next fs) :
    (∀ cont ∈ next, cont.Apart c own) ∧ Below c own (fun _ _ => False) [] fs := by
  obtain hfs | ⟨_, h⟩ := h.panics
  · refine ⟨?_, hfs⟩
    induction next with
    | nil => exact fun _ h => absurd h List.not_mem_nil
    | cons cont rest ih =>
      cases h with
      | cont hc h => exact List.forall_mem_cons.2 ⟨hc, ih h⟩
      | region h => exact h.elim
  · exact h.elim

theorem prepend (hn : ∀ cont ∈ next, cont.Apart c own) (h : Below c own edge [] fs) :
    Below c own edge next fs := by
  induction next with
  | nil => exact h
  | cons cont rest ih =>
    obtain ⟨hcont, hrest⟩ := List.forall_mem_cons.1 hn
    exact .cont hcont (ih hrest)

end Below

theorem Activity.drive_apart {machine : Machine} {run : Run} (h : machine.Apart c own)
    (hr : run.connection ≠ c) (hb : Below c own edge [] fs) :
    Activity.Apart c own edge ⟨.drive machine run, fs⟩ := by
  cases h with
  | focus hn hnext => exact .focus hn hr (hb.prepend hnext)
  | unwind exit hnext => exact .unwind exit hr (hb.prepend hnext)

theorem Activity.Left.absurd (h : a.Left c fun _ _ => False) : False := by
  cases h with
  | restored _ _ h | acquired _ _ _ _ h | resumed _ _ _ h | failed _ h => exact h

namespace Machine

theorem continueInto_keeps {closure : Code} (hx : closure.Apart c own) (hr : run.connection ≠ c)
    (h : Below c own edge next fs) :
    (Activity.after (continueInto env closure next run) fs).Apart c own edge := by
  unfold continueInto
  split
  · exact .code hx (.node hr h)
  · exact .focus (.suspend hx) hr h

theorem resume_keeps (exit : Exit) (hr : run.connection ≠ c) (h : Below c own edge next fs) :
    (Activity.after (resume env exit next run) fs).Keeps c own edge := by
  cases next with
  | nil =>
    refine .inl ?_
    cases exit <;> exact .code (.give (Reply.not_carries_ended hr)) h
  | cons cont rest =>
    cases h with
    | region h => cases exit <;> exact .inr (.restored _ run h)
    | cont hc h =>
      refine .inl ?_
      cases hc with
      | map hf | flatMap hf =>
        cases exit with
        | completed v => exact continueInto_keeps (hf v) hr h
        | errored | canceled => exact .unwind _ hr h
      | recover hf =>
        cases exit with
        | errored e => exact continueInto_keeps (hf e) hr h
        | completed | canceled => exact .unwind _ hr h
      | switch target => cases exit <;> exact .unwind _ hr h
      | restore hs => cases exit <;> exact .unwind _ hs h

theorem nextRound_apart {body : Value → Node} (h : ∀ v, (body v).Apart c own) (v : Value) :
    (nextRound body v).Apart c own := by
  unfold nextRound
  split
  · exact .loop _ h
  · exact .pure _

theorem step_keeps {n : Node} (h0 : c ≠ .uncancelable) (hn : n.Apart c own)
    (hr : run.connection ≠ c) (h : Below c own edge next fs) :
    (Activity.after ((Machine.focus n next).step env run) fs).Keeps c own edge := by
  have hshielded : (shielded run).connection ≠ c := h0.symm
  cases hn with
  | pure v | raise e => exact resume_keeps _ hr h
  | suspend hx => exact .inl (.code hx (.node hr h))
  | async hx =>
    refine .inl (.code ?_ (.node hr h))
    exact Routine.Apart.suspend hx hr _ fun exit _ => .give (Reply.not_carries_outcome exit)
  | map hn hf => exact .inl (.focus hn hr (.cont (.map hf) h))
  | flatMap hn hf => exact .inl (.focus hn hr (.cont (.flatMap hf) h))
  | handleErrorWith hn hf => exact .inl (.focus hn hr (.cont (.recover hf) h))
  | continueOn target hn => exact .inl (.focus hn hr (.cont (.switch target) h))
  | uncancelable hn => exact .inl (.focus hn hshielded (.cont (.restore hr) h))
  | bracket ha hu hf =>
    simp only [step]
    split
    · exact resume_keeps _ hr h
    · exact .inl (.focus ha hshielded (.acquiring hu hf hr h))
  | bracketUse resource hu hf =>
    simp only [step]
    split
    · exact .inl (.focus (.bracketRelease _ (.suspend (hf resource _))) hr h)
    · exact .inl (.code (hu resource) (.opening resource hf hr h))
  | bracketRelease exit hn => exact .inl (.focus hn hshielded (.releasing exit hr h))
  | parMap hbranches hf => exact .inl (.code (Group.code_apart h0 hr hbranches hf) (.node hr h))
  | parSequence hbranches =>
    refine .inl (.code (Group.code_apart h0 hr hbranches fun vs => ?_) (.node hr h))
    exact .give (Reply.not_carries_outcome _)
  | instrument hn => exact .inl (.focus hn hr (.instrumented h))
  | loop seed hb =>
    exact .inl (.focus (.flatMap (hb seed) fun v => .build (nextRound_apart hb v)) hr h)

end Machine

namespace Below

/-- A machine goes on that waited in the frame. -/
theorem exited (h : Below c own edge [] (frame :: fs)) (hr : run.connection ≠ c) {t : Transition}
    (ht : frame.exited env exit run = some t) : (Activity.after t fs).Keeps c own edge := by
  cases h with
  | node hown h =>
    obtain rfl := Option.some.inj ht
    exact Machine.resume_keeps exit hown h
  | instrumented h =>
    obtain rfl := Option.some.inj ht
    exact Machine.resume_keeps exit hr h
  | acquiring hu hf hs h =>
    cases exit with
    | completed resource =>
      obtain rfl := Option.some.inj ht
      exact .inl (.focus (.bracketUse resource hu hf) hs h)
    | errored | canceled =>
      obtain rfl := Option.some.inj ht
      exact Machine.resume_keeps _ hs h
  | inUse resource hf h =>
    obtain rfl := Option.some.inj ht
    exact .inl (.focus (.bracketRelease exit (.suspend (hf resource _))) hr h)
  | releasing kept hs h =>
    obtain rfl := Option.some.inj ht
    exact Machine.resume_keeps kept hs h
  | acquire use release h =>
    cases exit with
    | completed resource =>
      obtain rfl := Option.some.inj ht
      exact .inr (.acquired resource use release run h)
    | errored | canceled =>
      obtain rfl := Option.some.inj ht
      exact .inr (.resumed env _ run h)
  | release kept h =>
    obtain rfl := Option.some.inj ht
    exact .inr (.resumed env kept run h)
  | opening | call | attempt | tokens => simp [Frame.exited] at ht

/-- What is below the frame, if a panic passes it. -/
theorem tail (h : Below c own edge [] (frame :: fs)) :
    ∃ rest, Below c own edge rest fs ∨ edge rest fs := by
  cases h with
  | node _ h | instrumented h | acquiring _ _ _ h | opening _ _ _ h | inUse _ _ h
  | releasing _ _ h | call _ h | attempt _ h | tokens _ _ _ h => exact ⟨_, .inl h⟩
  | acquire _ _ h | release _ h => exact ⟨_, .inr h⟩

theorem passed (h : Below c own edge [] (frame :: fs)) (message : String) :
    Activity.Keeps c own edge ⟨.unwinding message, fs⟩ := by
  obtain ⟨rest, h | h⟩ := h.tail
  · exact h.failed message
  · exact .inr (.failed message h)

end Below

namespace Activity

theorem runTokens_apart {rest : List Code} (failure : Option String) {next : Reply → Code}
    (ht : ∀ x ∈ rest, x.Apart c own) (hn : (next .unit).Apart c own)
    (h : Below c own edge [] fs) : (runTokens rest failure next fs).Apart c own edge := by
  cases rest with
  | nil =>
    cases failure with
    | none => exact .code hn h
    | some message => exact .unwinding message h
  | cons token rest =>
    obtain ⟨htoken, hrest⟩ := List.forall_mem_cons.1 ht
    exact .code htoken (.tokens failure hrest hn h)

theorem reply_keeps {answer : Answer} (ha : answer.Apart c own)
    (h : Below c own edge [] (frame :: fs)) :
    (reply env answer frame fs).Keeps c own edge := by
  by_cases hf : frame.isCode = true
  · cases h with
    | tokens failure ht hn h => exact .inl (runTokens_apart failure ht hn h)
    | call hn h =>
      cases ha with
      | @reply r hr => cases r <;> exact .inl (.code (hn _ hr) h)
      | node | token => exact .inl (.unwinding _ h)
    | attempt hn h =>
      cases ha with
      | @reply r hr =>
        have hcaught : ¬ (Reply.caught (.ok r)).Carries c :=
          Reply.not_carries_caught fun x hx => Except.ok.inj hx ▸ hr
        cases r <;> exact .inl (.code (hn _ hcaught) h)
      | node | token => exact .inl (.unwinding _ h)
    | _ => cases hf
  · rw [Bool.not_eq_true] at hf
    obtain ⟨n, next, own', rfl, rfl⟩ | ⟨n, resource, release, next, own', rfl, rfl⟩ |
      ⟨exit, inner, t, rfl, ht⟩ | ⟨exit, next, own', rfl, rfl⟩ | ⟨message, hm⟩ :=
      reply_cases env hf answer fs
    · cases ha with
      | node hn =>
        cases h with
        | node hr h => exact .inl (.focus hn hr h)
    · cases ha with
      | node hn =>
        cases h with
        | opening _ hf hr h => exact .inl (.focus hn hr (.inUse resource hf h))
    · cases ha with
      | reply hr =>
        rw [reply_ended hf ht]
        exact h.exited (fun hc => hr (.ended exit hc)) ht
    · cases h with
      | node hr h => exact Machine.resume_keeps exit hr h
    · rw [hm]
      exact h.passed message

theorem unwind_keeps (message : String) (h : Below c own edge [] (frame :: fs)) :
    (unwind message (frame :: fs)).Keeps c own edge := by
  have hcaught : ¬ (Reply.caught (.error message)).Carries c :=
    Reply.not_carries_caught fun _ => by rintro ⟨⟩
  cases h with
  | attempt hn h => exact .inl (.code (hn _ hcaught) h)
  | tokens failure ht hn h => exact .inl (runTokens_apart _ ht hn h)
  | call _ h => exact .inl (.unwinding message h)
  | node _ h | instrumented h | acquiring _ _ _ h | opening _ _ _ h | inUse _ _ h
  | releasing _ _ h => exact h.failed message
  | acquire _ _ h | release _ h => exact .inr (.failed message h)

theorem close_keeps {answer : Answer} (ha : answer.Apart c own) (h : Below c own edge [] fs) :
    (close env answer fs).Keeps c own edge := by
  cases fs with
  | nil =>
    refine .inl ?_
    cases ha with
    | reply hr => exact .ended (fun x hx => Except.ok.inj hx ▸ hr) h
    | node | token => exact .ended (fun x hx => Except.ok.inj hx ▸ Reply.not_carries_unit) h
  | cons frame fs => exact reply_keeps ha h

end Activity

end Effects
