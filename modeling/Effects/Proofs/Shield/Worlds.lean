import Effects.Proofs.Cancel.Blind
import Effects.Proofs.Shield.Activities

/-!
A world in which a connection is kept by its own run: whoever else there is, and whatever waits to
be run, is apart.
-/

namespace Effects

section

variable (c : ConnectionId) (own : FiberId → Prop)

/-- Nobody leaves a region that is not his own. -/
def Activity.Elsewhere (a : Activity) : Prop := a.Apart c own fun _ _ => False

structure World.Apart (w : World) : Prop where
  threads : ∀ t ∈ w.threads, t.activity.Elsewhere c own
  tasks : ∀ context ∈ w.contexts, ∀ task ∈ context.queue.tasks, task.Apart c own
  tokens : ∀ s ∈ w.connections, ∀ token ∈ s.tokens, token.Apart c own
  timed : ∀ entry ∈ w.timer.tasks, entry.2.Apart c own
  items : ∀ latch ∈ w.latches, ∀ r, latch.item? = some (.ok r) → ¬ r.Carries c
  fibers : ∀ f s, w.fibers[f]? = some s → s.connection = c → own f
  known : ∀ f, own f → f < w.fibers.size
  /-- Canceling it runs nothing. -/
  bare : w.connections[c]? = some (.active []) ∨ w.connections[c]? = some .canceled

/-- What the one who performs the operation goes on with. -/
inductive Response.Apart (op : Op) : Response → Prop
  | reply {r : Reply} (h : op.Answers c own r) : Response.Apart op (.reply r)
  | panic (message : String) : Response.Apart op (.panic message)
  | call {body : Code} (h : body.Apart c own) (hr : ∀ r, ¬ r.Carries c → op.Answers c own r) :
      Response.Apart op (.call body)
  | inPlace {body : Code} {r : Reply} (h : body.Apart c own) (hr : op.Answers c own r) :
      Response.Apart op (.inPlace body r)
  | attempt {body : Code} (h : body.Apart c own) (hr : ∀ r, ¬ r.Carries c → op.Answers c own r) :
      Response.Apart op (.attempt body)
  | drive {machine : Machine} {run : Run} (h : machine.Apart c own) (hc : run.connection ≠ c)
      (hr : ∀ r, ¬ r.Carries c → op.Answers c own r) : Response.Apart op (.drive machine run)
  | tokens {tokens : List Code} (h : ∀ x ∈ tokens, x.Apart c own) (hr : op.Answers c own .unit) :
      Response.Apart op (.tokens tokens)
  | again {op' : Op} (ho : op'.Apart c own)
      (hr : ∀ r, op'.Answers c own r → op.Answers c own r) : Response.Apart op (.again op')

end

variable {c : ConnectionId} {own : FiberId → Prop} {edge : List Cont → List Frame → Prop}
  {w : World} {here : Place} {fs : List Frame} {a : Activity} {op : Op}

theorem Activity.Elsewhere.start {x : Code} (h : x.Apart c own) :
    (Activity.start x).Elsewhere c own :=
  .code h (.bottom fun _ _ h => h)

section Arrays

variable {α : Type} {P : α → Prop} {xs : Array α}

theorem forall_mem_push {x : α} (h : ∀ y ∈ xs, P y) (hx : P x) : ∀ y ∈ xs.push x, P y := by
  intro y hy
  obtain hy | rfl := Array.mem_push.1 hy
  · exact h y hy
  · exact hx

theorem forall_mem_setIfInBounds {i : Nat} {x : α} (h : ∀ y ∈ xs, P y) (hx : P x) :
    ∀ y ∈ xs.setIfInBounds i x, P y := by
  intro y hy
  obtain hy | rfl := Array.mem_or_eq_of_mem_setIfInBounds hy
  · exact h y hy
  · exact hx

theorem forall_mem_modify {i : Nat} {f : α → α} (h : ∀ y ∈ xs, P y) (hf : ∀ y ∈ xs, P (f y)) :
    ∀ y ∈ xs.modify i f, P y := by
  intro y hy
  obtain ⟨j, hj⟩ := Array.mem_iff_getElem?.1 hy
  rw [Array.getElem?_modify] at hj
  split at hj
  · obtain ⟨x, hx, rfl⟩ := Option.map_eq_some_iff.1 hj
    exact hf x (Array.mem_of_getElem? hx)
  · exact h y (Array.mem_of_getElem? hj)

end Arrays

theorem Activity.respond_apart {k : Reply → Code}
    (hn : ∀ r, op.Answers c own r → (k r).Apart c own) {response : Response}
    (h : response.Apart c own op) (hb : Below c own edge [] fs) :
    (respond k fs response).Apart c own edge := by
  cases h with
  | reply h => exact .code (hn _ h) hb
  | panic message => exact .unwinding message hb
  | call h hr => exact .code h (.call (fun r hc => hn r (hr r hc)) hb)
  | inPlace h hr => exact .code h (.call (fun _ _ => hn _ hr) hb)
  | attempt h hr => exact .code h (.attempt (fun r hc => hn r (hr r hc)) hb)
  | drive h hc hr => exact drive_apart h hc (.call (fun r hc => hn r (hr r hc)) hb)
  | tokens h hr => exact runTokens_apart none h (hn _ hr) hb
  | again ho hr => exact .code (.perform ho fun r h => hn r (hr r h)) hb

namespace World

/-- What an operation leads to is apart, as the world was before. -/
def Performed.Apart (c : ConnectionId) (own : FiberId → Prop) (op : Op) (p : Performed) : Prop :=
  p.1.Apart c own ∧ p.2.Apart c own op

namespace Apart

variable {r : Reply} {d : ConnectionId} {s : Connection Code}

theorem known_connection (h : w.Apart c own) : ∃ s, w.connections[c]? = some s := by
  obtain hc | hc := h.bare
  · exact ⟨_, hc⟩
  · exact ⟨_, hc⟩

theorem lt_size (h : w.Apart c own) : c < w.connections.size := by
  obtain ⟨s, hs⟩ := h.known_connection
  exact (Array.getElem?_eq_some_iff.1 hs).1

theorem replying (h : w.Apart c own) (hr : op.Answers c own r) :
    (w.replying r).Apart c own op :=
  ⟨h, .reply hr⟩

theorem setConnection (h : w.Apart c own) (hd : d ≠ c) (hs : ∀ x ∈ s.tokens, x.Apart c own) :
    (w.setConnection d s).Apart c own :=
  { h with
    tokens := forall_mem_setIfInBounds h.tokens hs
    bare := by simpa [World.setConnection, hd] using h.bare }

theorem setLatch (h : w.Apart c own) (l : LatchId) {latch : Latch (Except String Reply)}
    (hl : ∀ r, latch.item? = some (.ok r) → ¬ r.Carries c) : (w.setLatch l latch).Apart c own :=
  { h with items := forall_mem_setIfInBounds h.items hl }

theorem settle (h : w.Apart c own) (l : LatchId) {result : Except String Reply}
    (hr : ∀ r, result = .ok r → ¬ r.Carries c) : (w.settle l result).Apart c own := by
  have hset : ∀ latch ∈ w.latches, ∀ r, (latch.set result).1.item? = some (.ok r) →
      ¬ r.Carries c := by
    intro latch hlatch r hitem
    cases latch with
    | empty => exact hr r (Option.some.inj hitem)
    | full item => exact h.items _ hlatch r hitem
    | drained => cases hitem
  exact { h with items := by exact forall_mem_modify h.items hset }

theorem addThread (h : w.Apart c own) {t : Thread} (ht : t.activity.Elsewhere c own) :
    (w.addThread t).Apart c own :=
  { h with threads := forall_mem_push h.threads ht }

theorem setActivity (h : w.Apart c own) (t : ThreadId) (ha : a.Elsewhere c own) :
    (w.setActivity t a).Apart c own := by
  have hset : ∀ thread ∈ w.threads,
      ({ thread with activity := a } : Thread).activity.Elsewhere c own := fun _ _ => ha
  exact { h with threads := by exact forall_mem_modify h.threads hset }

theorem setContexts (h : w.Apart c own) {d : ContextId} {context : Context}
    (hq : ∀ task ∈ context.queue.tasks, task.Apart c own) :
    World.Apart c own { w with contexts := w.contexts.setIfInBounds d context } :=
  { h with tasks := forall_mem_setIfInBounds h.tasks hq }

theorem pushContext (h : w.Apart c own) (context : Context) (hq : context.queue.tasks = []) :
    World.Apart c own { w with contexts := w.contexts.push context } :=
  { h with tasks := forall_mem_push h.tasks fun x hx => by simp [hq] at hx }

/-- A connection that is new is not the one that is kept. -/
theorem pushConnection (h : w.Apart c own) :
    World.Apart c own { w with connections := w.connections.push .new } where
  threads := h.threads
  tasks := h.tasks
  tokens := forall_mem_push h.tokens fun _ h => absurd h List.not_mem_nil
  timed := h.timed
  items := h.items
  fibers := h.fibers
  known := h.known
  bare := h.bare.imp push_getElem? push_getElem?

theorem tokens_of (h : w.Apart c own) (d : ConnectionId) :
    ∀ x ∈ (w.connections[d]?.getD .uncancelable).tokens, x.Apart c own := by
  cases hd : w.connections[d]? with
  | none => exact fun _ h => absurd h List.not_mem_nil
  | some s => exact h.tokens s (Array.mem_of_getElem? hd)

theorem queue_of (h : w.Apart c own) (d : ContextId) :
    ∀ x ∈ (w.contexts[d]?.getD .inline).queue.tasks, x.Apart c own := by
  cases hd : w.contexts[d]? with
  | none => exact fun _ h => absurd h List.not_mem_nil
  | some s => exact h.tasks s (Array.mem_of_getElem? hd)

theorem setFiber (h : w.Apart c own) (f : FiberId) (slot : FiberSlot Delivery LatchId)
    (gate : Gate) :
    (w.setFiber f ⟨(w.fibers[f]?.getD ⟨.uncancelable, .new, .closed⟩).connection, slot, gate⟩).Apart
      c own := by
  have hsize : ∀ s, (w.setFiber f s).fibers.size = w.fibers.size := fun s => by
    simp [World.setFiber]
  refine { h with fibers := fun g s hs hc => ?_, known := fun g hg => hsize _ ▸ h.known g hg }
  by_cases hg : f = g
  · subst hg
    cases hf : w.fibers[f]? with
    | none =>
      have hlt := (Array.getElem?_eq_some_iff.1 hs).1
      rw [hsize] at hlt
      exact absurd (Array.getElem?_eq_getElem hlt ▸ hf) (by simp)
    | some old =>
      have hlt := (Array.getElem?_eq_some_iff.1 hf).1
      simp only [World.setFiber, Array.getElem?_setIfInBounds_self_of_lt hlt, hf,
        Option.getD_some, Option.some.injEq] at hs
      exact h.fibers f old hf (by rw [← hc, ← hs])
  · refine h.fibers g s ?_ hc
    simpa [World.setFiber, hg] using hs

end Apart

variable {d : ConnectionId} {s : Connection Code}

theorem onConnection_apart (h : w.Apart c own) (hd : d ≠ c) (op : ConnectionOp Code)
    (ht : ∀ token, op = .push token → token.Apart c own) :
    (w.onConnection d op).Apart c own (.connection d op) := by
  have htokens := h.tokens_of d
  simp only [onConnection]
  generalize w.connections[d]?.getD .uncancelable = s at htokens
  cases op with
  | isCanceled | isUncancelable | describe => exact h.replying ⟨by rintro ⟨⟩, trivial⟩
  | push token =>
    have htoken := ht token rfl
    cases s with
    | uncancelable => exact (h.setConnection hd htokens).replying ⟨by rintro ⟨⟩, trivial⟩
    | active tokens =>
      have hpush : ∀ x ∈ (Connection.active (token :: tokens)).tokens, x.Apart c own :=
        List.forall_mem_cons.2 ⟨htoken, htokens⟩
      exact (h.setConnection hd hpush).replying ⟨by rintro ⟨⟩, trivial⟩
    | canceled => exact ⟨h.setConnection hd htokens, .inPlace htoken ⟨by rintro ⟨⟩, trivial⟩⟩
  | pop =>
    have hpop : ∀ x ∈ s.pop.1.tokens, x.Apart c own := by
      rcases s with _ | (_ | ⟨token, rest⟩) | _
      · exact htokens
      · exact htokens
      · exact (List.forall_mem_cons.1 htokens).2
      · exact htokens
    exact (h.setConnection hd hpop).replying ⟨by rintro ⟨⟩, trivial⟩
  | popAndRun =>
    rcases s with _ | (_ | ⟨token, rest⟩) | _
    · exact (h.setConnection hd htokens).replying ⟨by rintro ⟨⟩, trivial⟩
    · exact (h.setConnection hd htokens).replying ⟨by rintro ⟨⟩, trivial⟩
    · obtain ⟨htoken, hrest⟩ := List.forall_mem_cons.1 htokens
      exact ⟨h.setConnection hd hrest, .inPlace htoken ⟨by rintro ⟨⟩, trivial⟩⟩
    · exact (h.setConnection hd htokens).replying ⟨by rintro ⟨⟩, trivial⟩
  | cancel =>
    refine ⟨h.setConnection hd ?_, .tokens ?_ ⟨by rintro ⟨⟩, trivial⟩⟩
    · rw [Connection.tokens_cancel]
      exact fun _ h => absurd h List.not_mem_nil
    · rw [Connection.cancel_snd]
      exact htokens
  | reactivate =>
    refine (h.setConnection hd ?_).replying ⟨by rintro ⟨⟩, trivial⟩
    cases s with
    | canceled => exact fun _ h => absurd h List.not_mem_nil
    | uncancelable | active => exact htokens

/-- To cancel it takes no token off it, as there is none. -/
theorem cancel_bare (h : w.Apart c own) :
    w.onConnection c .cancel = (w.setConnection c .canceled, .tokens []) := by
  obtain hc | hc := h.bare <;> simp [onConnection, hc, Connection.cancel]

theorem canceled_apart (h : w.Apart c own) : (w.setConnection c .canceled).Apart c own := by
  obtain ⟨s, hs⟩ := h.known_connection
  refine { h with
    tokens := forall_mem_setIfInBounds h.tokens fun _ h => absurd h List.not_mem_nil
    bare := .inr (setConnection_getElem? hs _) }

theorem onFiber_apart (h : w.Apart c own) (h0 : c ≠ .uncancelable) (f : FiberId) (op : FiberOp) :
    (w.onFiber f op).Apart c own (.fiber f op) := by
  cases op with
  | connection =>
    refine h.replying ⟨by rintro ⟨⟩, fun hf hc => hf ?_⟩
    cases hs : w.fibers[f]? with
    | none =>
      rw [hs] at hc
      exact absurd hc.symm h0
    | some s =>
      rw [hs] at hc
      exact h.fibers f s hs hc
  | complete exit | listen callback | detach | openGate =>
    exact (h.setFiber f _ _).replying ⟨by rintro ⟨⟩, trivial⟩
  | isFinished | awaitFinished => exact h.replying ⟨by rintro ⟨⟩, trivial⟩

theorem onContext_apart (h : w.Apart c own) (home : Option ContextId) (d : ContextId)
    {op : ContextOp Code} (hop : Op.Apart c own (.context d op)) :
    (w.onContext home d op).Apart c own (.context d op) := by
  have hqueue := h.queue_of d
  simp only [onContext]
  generalize w.contexts[d]?.getD .inline = context at hqueue
  obtain ⟨name, kind, stackSize, spawned, queue⟩ := context
  cases op with
  | isCurrent | describe => exact h.replying ⟨by rintro ⟨⟩, trivial⟩
  | derive label =>
    exact (h.pushContext _ rfl).replying ⟨by rintro ⟨⟩, trivial⟩
  | close =>
    have hclosed : ∀ x ∈ queue.close.tasks, x.Apart c own := hqueue
    exact (h.setContexts hclosed).replying ⟨by rintro ⟨⟩, trivial⟩
  | execute task =>
    have htask : task.Apart c own := by
      cases hop with
      | plain h => cases h
      | execute _ h => exact h
    have hstart : Activity.Elsewhere c own (.start task) := .start htask
    have hreply : (Op.context d (.execute task)).Answers c own .unit := ⟨by rintro ⟨⟩, trivial⟩
    cases kind with
    | inline => exact ⟨h, .inPlace htask hreply⟩
    | serial =>
      have hpush : ∀ x ∈ (queue.push task).tasks, x.Apart c own := by
        intro x hx
        obtain hx | hx := List.mem_append.1 hx
        · exact hqueue x hx
        · exact List.mem_singleton.1 hx ▸ htask
      exact (h.setContexts hpush).replying hreply
    | concurrent =>
      let counted : Context := ⟨name, .concurrent, stackSize, spawned + 1, queue⟩
      have hcounted : World.Apart c own
          { w with contexts := w.contexts.setIfInBounds d counted } := h.setContexts hqueue
      simp only [spawnThread]
      split
      · exact ⟨hcounted, .panic _⟩
      · split
        · exact (hcounted.addThread hstart).replying hreply
        · exact ⟨hcounted, .inPlace htask hreply⟩

theorem idle_elsewhere : idle.Elsewhere c own := by
  refine .ended (fun x hx => ?_) (.bottom fun _ _ h => h)
  obtain rfl := Except.ok.inj hx
  exact Reply.not_carries_unit

/-- A world with one run that has not begun. -/
theorem start_apart :
    World.Apart 1 (fun _ => False) { start with connections := #[.uncancelable, .new] } where
  threads := by simp [start, idle_elsewhere]
  tasks := by simp [start, Context.inline, Context.global, Context.new, SerialQueue.new]
  tokens := by simp [Connection.new, Connection.tokens]
  timed := fun _ h => absurd h List.not_mem_nil
  items := by simp [start]
  fibers := by simp [start]
  known := fun _ h => h.elim
  bare := .inl rfl

theorem openContext_apart (h : w.Apart c own) (name : String) (serial : Bool)
    (stackSize : Option Nat) : (w.openContext name serial stackSize).1.Apart c own := by
  simp only [openContext]
  split
  · split
    · exact (h.pushContext _ rfl).addThread idle_elsewhere
    · exact h.pushContext _ rfl
  · exact h.pushContext _ rfl

theorem not_carries_item {exit : Exit} {r : Reply}
    (hr : (.ok (.outcome exit) : Except String Reply) = .ok r) :
    ¬ r.Carries c := by
  obtain rfl := Except.ok.inj hr
  exact Reply.not_carries_outcome exit

theorem onSlot_apart (h : w.Apart c own) (i : SlotId) (request : MVar.Request Value LatchId)
    (phase : MVar.Phase Value LatchId) :
    (w.onSlot i request phase).Apart c own (.slot i request phase) := by
  cases hi : w.slots[i]? with
  | none =>
    simp only [onSlot, hi]
    exact h.replying ⟨by rintro ⟨⟩, trivial⟩
  | some slot =>
    have hset : ∀ slot', World.Apart c own { w with slots := w.slots.setIfInBounds i slot' } :=
      fun _ => { h with }
    refine ⟨?_, ?_⟩
    · rw [onSlot_world hi]
      split
      · rename_i notice _
        cases notice <;> exact (hset _).settle _ fun _ => not_carries_item
      · exact hset _
    · simp only [onSlot, hi]
      rcases phase.step request slot with ⟨slot', phase', call⟩
      cases phase' with
      | done answer => exact .reply ⟨by rintro ⟨⟩, trivial⟩
      | _ => exact .again (.plain rfl) fun _ hr => hr

theorem onPromise_apart (h : w.Apart c own) (p : PromiseId)
    (request : Promise.Request Value Value LatchId) (phase : Promise.Phase Value Value LatchId) :
    (w.onPromise p request phase).Apart c own (.promise p request phase) := by
  cases hp : w.promises[p]? with
  | none =>
    simp only [onPromise, hp]
    exact h.replying ⟨by rintro ⟨⟩, trivial⟩
  | some slot =>
    have hset : ∀ slot', World.Apart c own
        { w with promises := w.promises.setIfInBounds p slot' } := fun _ => { h with }
    refine ⟨?_, ?_⟩
    · rw [onPromise_world hp]
      split
      · exact (hset _).settle _ fun _ => not_carries_item
      · exact hset _
    · simp only [onPromise, hp]
      rcases phase.step request slot with ⟨slot', phase', call⟩
      cases phase' with
      | done answer => exact .reply ⟨by rintro ⟨⟩, trivial⟩
      | _ => exact .again (.plain rfl) fun _ hr => hr

theorem await_apart (h : w.Apart c own) (here : Place) (l : LatchId) :
    (w.perform here (.await l)).Apart c own (.await l) := by
  simp only [perform]
  split
  · rename_i result hresult
    obtain ⟨latch, hlatch, hitem⟩ := Option.bind_eq_some_iff.1 hresult
    refine World.Apart.replying (h.setLatch l fun r hr => by cases hr) ⟨?_, trivial⟩
    refine Reply.not_carries_caught fun r hr => ?_
    exact h.items latch (Array.mem_of_getElem? hlatch) r (hr ▸ hitem)
  · exact ⟨h, .again (.plain rfl) fun _ hr => hr⟩

theorem openFiber_apart (h : w.Apart c own) (here : Place) :
    (w.perform here .openFiber).Apart c own .openFiber := by
  have hfresh : ¬ own w.fibers.size := fun hf => Nat.lt_irrefl _ (h.known _ hf)
  refine World.Apart.replying ?_ ⟨by rintro ⟨⟩, hfresh⟩
  refine { h.pushConnection with fibers := fun f s hs hc => ?_, known := fun f hf => ?_ }
  · rw [Array.getElem?_push] at hs
    split at hs
    · obtain rfl := Option.some.inj hs
      exact absurd hc (Nat.ne_of_gt h.lt_size)
    · exact h.fibers f s hs hc
  · exact Nat.lt_of_lt_of_le (h.known f hf) (by simp)

/-- Code that has nothing to do with the connection does nothing to its run. -/
theorem perform_apart (h : w.Apart c own) (h0 : c ≠ .uncancelable) (here : Place)
    (ho : op.Apart c own) : (w.perform here op).Apart c own op := by
  cases ho with
  | connection hd ht => exact onConnection_apart h hd _ ht
  | cancel d =>
    by_cases hd : d = c
    · subst hd
      rw [perform, cancel_bare h]
      exact ⟨canceled_apart h, .tokens (fun _ h => absurd h List.not_mem_nil)
        ⟨by rintro ⟨⟩, trivial⟩⟩
    · exact onConnection_apart h hd _ fun _ => by rintro ⟨⟩
  | settle l hr => exact (h.settle l hr).replying ⟨by rintro ⟨⟩, trivial⟩
  | execute d ht => exact onContext_apart h here.home d (.execute d ht)
  | fork hb =>
    have hstart : Activity.Elsewhere c own (.start _) := .start hb
    exact (h.addThread hstart).replying ⟨by rintro ⟨⟩, trivial⟩
  | schedule delay ht =>
    have htimed : ∀ entry ∈ (w.timer.push w.clock delay.nanos _).1.tasks, entry.2.Apart c own :=
      List.forall_mem_cons.2 ⟨ht, h.timed⟩
    exact World.Apart.replying { h with timed := htimed } ⟨by rintro ⟨⟩, trivial⟩
  | drive hm hr => exact ⟨h, .drive hm hr fun _ hr => ⟨hr, trivial⟩⟩
  | call hb => exact ⟨h, .call hb fun _ hr => ⟨hr, trivial⟩⟩
  | attempt hb => exact ⟨h, .attempt hb fun _ hr => ⟨hr, trivial⟩⟩
  | plain hp =>
    cases op with
    | connection | settle | fork | schedule | drive | call | attempt => cases hp
    | openConnection =>
      exact h.pushConnection.replying ⟨by rintro ⟨⟩, Nat.ne_of_gt h.lt_size⟩
    | openFiber => exact openFiber_apart h here
    | fiber f op => exact onFiber_apart h h0 f op
    | context d op => exact onContext_apart h here.home d (.plain hp)
    | slot i request phase => exact onSlot_apart h i request phase
    | promise p request phase => exact onPromise_apart h p request phase
    | await l => exact await_apart h here l
    | openContext name serial stackSize =>
      simp only [perform]
      split
      · exact ⟨h, .panic _⟩
      · exact (openContext_apart h name serial stackSize).replying ⟨by rintro ⟨⟩, trivial⟩
    | unschedule seq =>
      have htimed : ∀ entry ∈ (w.timer.remove seq).tasks, entry.2.Apart c own := by
        intro entry hentry
        simp only [Timer.remove] at hentry
        split at hentry
        · split at hentry <;> exact h.timed entry (List.mem_of_mem_filter hentry)
        · exact h.timed entry hentry
      exact World.Apart.replying { h with timed := htimed } ⟨by rintro ⟨⟩, trivial⟩
    | factorBetween low high =>
      obtain ⟨seed, hseed⟩ : ∃ seed, nextSeed w.seed = seed := ⟨_, rfl⟩
      rw [perform_seeded here hseed]
      exact ⟨{ h with }, .reply ⟨by rintro ⟨⟩, trivial⟩⟩
    | openLatch =>
      have hitems := forall_mem_push (x := Latch.empty) h.items fun r hr => by cases hr
      exact World.Apart.replying { h with items := hitems } ⟨by rintro ⟨⟩, trivial⟩
    | _ => exact World.Apart.replying { h with } ⟨by rintro ⟨⟩, trivial⟩

end World

end Effects
