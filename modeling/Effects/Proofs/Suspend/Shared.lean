import Effects.Proofs.Run.Local

/-!
What one operation does to a latch and to a connection that are there already.
-/

namespace Effects

namespace World

/-- What an operation puts, or tries to put, into the latch. -/
def delivered? (w : World) (l : LatchId) : Op → Option (Except String Reply)
  | .settle callback r => if callback = l then some r else none
  | .slot s request phase =>
      match (w.slots[s]?).bind fun slot => (phase.step request slot).2.2 with
      | some (callback, notice) =>
          if callback = l then some (.ok (Notice.reply notice)) else none
      | none => none
  | .promise p request phase =>
      match (w.promises[p]?).bind fun slot => (phase.step request slot).2.2 with
      | some (callback, r) =>
          if callback = l then some (.ok (.outcome (.ofExcept r))) else none
      | none => none
  | _ => none

variable {w : World} {here : Place} {l : LatchId} {latch : Latch (Except String Reply)}
  {c : ConnectionId} {s : Connection Code}

theorem settle_latch (hl : w.latches[l]? = some latch) (callback : LatchId)
    (r : Except String Reply) :
    (w.settle callback r).latches[l]? =
      some (if callback = l then (latch.set r).1 else latch) := by
  by_cases h : callback = l
  · subst h
    simp [settle, Array.getElem?_modify, hl]
  · simp [settle, Array.getElem?_modify, hl, h]

theorem onConnection_shape (w : World) (d : ConnectionId) (op : ConnectionOp Code) :
    ∃ connections, (w.onConnection d op).1 = { w with connections } := by
  cases op with
  | push token | popAndRun =>
    simp only [onConnection]
    split <;> exact ⟨_, rfl⟩
  | _ => exact ⟨_, rfl⟩

theorem onConnection_latches (d : ConnectionId) (op : ConnectionOp Code) :
    (w.onConnection d op).1.latches = w.latches := by
  obtain ⟨connections, hw⟩ := onConnection_shape w d op
  rw [hw]

theorem onContext_shape (w : World) (home : Option ContextId) (d : ContextId)
    (op : ContextOp Code) :
    ∃ threads contexts, (w.onContext home d op).1 = { w with threads, contexts } := by
  cases op with
  | execute task =>
    simp only [onContext, spawnThread]
    split
    · exact ⟨_, _, rfl⟩
    · split
      · exact ⟨_, _, rfl⟩
      · split <;> exact ⟨_, _, rfl⟩
    · exact ⟨_, _, rfl⟩
  | _ => exact ⟨_, _, rfl⟩

theorem onFiber_kept (f : FiberId) (op : FiberOp) :
    (w.onFiber f op).1.latches = w.latches ∧ (w.onFiber f op).1.connections = w.connections := by
  cases op <;> exact ⟨rfl, rfl⟩

theorem openContext_shape (w : World) (name : String) (serial : Bool) (stackSize : Option Nat) :
    ∃ threads contexts, (w.openContext name serial stackSize).1 = { w with threads, contexts } := by
  simp only [openContext]
  split
  · split <;> exact ⟨_, _, rfl⟩
  · exact ⟨_, _, rfl⟩

theorem onSlot_world {i : SlotId} {slot : Slots} (hi : w.slots[i]? = some slot)
    (request : MVar.Request Value LatchId) (phase : MVar.Phase Value LatchId) :
    (w.onSlot i request phase).1 =
      match (phase.step request slot).2.2 with
      | some (callback, notice) =>
          { w with slots := w.slots.setIfInBounds i (phase.step request slot).1 }.settle callback
            (.ok (Notice.reply notice))
      | none => { w with slots := w.slots.setIfInBounds i (phase.step request slot).1 } := by
  rcases hstep : phase.step request slot with ⟨slot', phase', call⟩
  simp only [onSlot, hi, hstep]
  cases phase' <;> rfl

theorem onPromise_world {p : PromiseId} {slot : Promises} (hp : w.promises[p]? = some slot)
    (request : Promise.Request Value Value LatchId) (phase : Promise.Phase Value Value LatchId) :
    (w.onPromise p request phase).1 =
      match (phase.step request slot).2.2 with
      | some (callback, r) =>
          { w with promises := w.promises.setIfInBounds p (phase.step request slot).1 }.settle
            callback (.ok (.outcome (.ofExcept r)))
      | none => { w with promises := w.promises.setIfInBounds p (phase.step request slot).1 } := by
  rcases hstep : phase.step request slot with ⟨slot', phase', call⟩
  simp only [onPromise, hp, hstep]
  cases phase' <;> rfl

theorem onSlot_shape (w : World) (i : SlotId) (request : MVar.Request Value LatchId)
    (phase : MVar.Phase Value LatchId) :
    ∃ slots latches, (w.onSlot i request phase).1 = { w with slots, latches } := by
  cases hi : w.slots[i]? with
  | none =>
    simp only [onSlot, hi]
    exact ⟨_, _, rfl⟩
  | some slot =>
    rw [onSlot_world hi]
    split <;> exact ⟨_, _, rfl⟩

theorem onPromise_shape (w : World) (p : PromiseId)
    (request : Promise.Request Value Value LatchId) (phase : Promise.Phase Value Value LatchId) :
    ∃ promises latches, (w.onPromise p request phase).1 = { w with promises, latches } := by
  cases hp : w.promises[p]? with
  | none =>
    simp only [onPromise, hp]
    exact ⟨_, _, rfl⟩
  | some slot =>
    rw [onPromise_world hp]
    split <;> exact ⟨_, _, rfl⟩

/-- The latch afterwards. -/
def after? (r : Option (Except String Reply)) (latch : Latch (Except String Reply)) :
    Latch (Except String Reply) :=
  match r with
  | some r => (latch.set r).1
  | none => latch

theorem onSlot_latch (hl : w.latches[l]? = some latch) (i : SlotId)
    (request : MVar.Request Value LatchId) (phase : MVar.Phase Value LatchId) :
    (w.onSlot i request phase).1.latches[l]? =
      some (after? (w.delivered? l (.slot i request phase)) latch) := by
  cases hi : w.slots[i]? with
  | none => simp [onSlot, delivered?, hi, hl, replying, after?]
  | some slot =>
    rw [onSlot_world hi]
    simp only [delivered?, hi, Option.bind_some]
    split
    · refine (settle_latch (by exact hl) _ _).trans ?_
      split <;> rfl
    · exact hl

theorem onPromise_latch (hl : w.latches[l]? = some latch) (p : PromiseId)
    (request : Promise.Request Value Value LatchId) (phase : Promise.Phase Value Value LatchId) :
    (w.onPromise p request phase).1.latches[l]? =
      some (after? (w.delivered? l (.promise p request phase)) latch) := by
  cases hp : w.promises[p]? with
  | none => simp [onPromise, delivered?, hp, hl, replying, after?]
  | some slot =>
    rw [onPromise_world hp]
    simp only [delivered?, hp, Option.bind_some]
    split
    · refine (settle_latch (by exact hl) _ _).trans ?_
      split <;> rfl
    · exact hl

theorem push_getElem? {α : Type} {xs : Array α} {i : Nat} {x y : α} (h : xs[i]? = some x) :
    (xs.push y)[i]? = some x := by
  obtain ⟨hi, hx⟩ := Array.getElem?_eq_some_iff.1 h
  rw [Array.getElem?_push_lt hi, hx]

/-- The seed is not to be computed here. -/
theorem perform_factorBetween (low high : Float) :
    (w.perform here (.factorBetween low high)).1 = { w with seed := nextSeed w.seed } := by
  generalize h : nextSeed w.seed = seed
  rw [perform, h]
  rfl

theorem perform_latch (hl : w.latches[l]? = some latch) {op : Op} (h : op ≠ .await l) :
    (w.perform here op).1.latches[l]? = some (after? (w.delivered? l op) latch) := by
  cases op with
  | connection d op => simpa only [perform, onConnection_latches, delivered?, after?] using hl
  | openLatch => exact push_getElem? hl
  | settle callback r =>
    simp only [perform, replying, settle_latch hl, delivered?]
    split <;> rfl
  | await callback =>
    have hne : callback ≠ l := fun h' => h (h' ▸ rfl)
    simp only [perform]
    split
    · simp only [replying, setLatch, Array.getElem?_setIfInBounds, hne, if_false]
      exact hl
    · exact hl
  | fiber f op => simpa only [perform, (onFiber_kept f op).1, delivered?, after?] using hl
  | openContext name serial stackSize =>
    simp only [perform, delivered?, after?]
    split
    · exact hl
    · obtain ⟨threads, contexts, hw⟩ := openContext_shape w name serial stackSize
      rwa [replying, hw]
  | context d op =>
    obtain ⟨threads, contexts, hw⟩ := onContext_shape w here.home d op
    rwa [perform, hw]
  | slot i request phase => exact onSlot_latch hl i request phase
  | promise p request phase => exact onPromise_latch hl p request phase
  | factorBetween low high =>
    rw [perform_factorBetween]
    exact hl
  | _ => exact hl

end World

/-- What an operation makes of the state of the connection it is about. -/
def ConnectionOp.after (s : Connection Code) : ConnectionOp Code → Connection Code
  | .push token => (s.push token).1
  | .pop | .popAndRun => s.pop.1
  | .cancel => s.cancel.1
  | .reactivate => s.reactivate.1
  | .isCanceled | .isUncancelable | .describe => s

namespace World

variable {w : World} {here : Place} {c : ConnectionId} {s : Connection Code}

theorem isCanceled_iff : w.isCanceled c = true ↔ w.connections[c]? = some .canceled := by
  rw [isCanceled]
  cases w.connections[c]? with
  | none => simp
  | some s => cases s <;> simp [Connection.isCanceled]

theorem setConnection_getElem? (hc : w.connections[c]? = some s) (s' : Connection Code) :
    (w.setConnection c s').connections[c]? = some s' := by
  obtain ⟨hi, -⟩ := Array.getElem?_eq_some_iff.1 hc
  simp [setConnection, hi]

theorem onConnection_self (hc : w.connections[c]? = some s) (op : ConnectionOp Code) :
    (w.onConnection c op).1.connections[c]? = some (op.after s) := by
  cases op with
  | push token =>
    simp only [onConnection, hc, Option.getD_some]
    split <;> rename_i hp <;>
      simp [replying, setConnection_getElem? hc, ConnectionOp.after, hp]
  | popAndRun =>
    simp only [onConnection, hc, Option.getD_some]
    split <;> rename_i hp <;>
      simp [replying, setConnection_getElem? hc, ConnectionOp.after, hp]
  | isCanceled | isUncancelable | describe => exact hc
  | _ =>
    simp only [onConnection, hc, Option.getD_some]
    exact setConnection_getElem? hc _

theorem onConnection_other (hc : w.connections[c]? = some s) {d : ConnectionId} (hd : d ≠ c)
    (op : ConnectionOp Code) : (w.onConnection d op).1.connections[c]? = some s := by
  have hset : ∀ s', (w.setConnection d s').connections[c]? = some s := fun s' => by
    simpa [setConnection, Array.getElem?_setIfInBounds, hd] using hc
  cases op with
  | push token =>
    simp only [onConnection]
    split <;> exact hset _
  | popAndRun =>
    simp only [onConnection]
    split <;> exact hset _
  | isCanceled | isUncancelable | describe => exact hc
  | _ => exact hset _

theorem perform_connection (hc : w.connections[c]? = some s) {op : Op}
    (h : ∀ op', op ≠ .connection c op') : (w.perform here op).1.connections[c]? = some s := by
  cases op with
  | openConnection => exact push_getElem? hc
  | connection d op => exact onConnection_other hc (fun hd => h op (hd ▸ rfl)) op
  | openFiber => exact push_getElem? hc
  | settle callback r => exact hc
  | await callback =>
    simp only [perform]
    split <;> exact hc
  | fiber f op => simpa only [perform, (onFiber_kept f op).2] using hc
  | openContext name serial stackSize =>
    simp only [perform]
    split
    · exact hc
    · obtain ⟨threads, contexts, hw⟩ := openContext_shape w name serial stackSize
      rwa [replying, hw]
  | context d op =>
    obtain ⟨threads, contexts, hw⟩ := onContext_shape w here.home d op
    rwa [perform, hw]
  | slot i request phase =>
    obtain ⟨slots, latches, hw⟩ := onSlot_shape w i request phase
    rwa [perform, hw]
  | promise p request phase =>
    obtain ⟨promises, latches, hw⟩ := onPromise_shape w p request phase
    rwa [perform, hw]
  | factorBetween low high =>
    rw [perform_factorBetween]
    exact hc
  | _ => exact hc

end World

/-- The operation that an activity performs in its next step. -/
def Activity.op? (a : Activity) : Option Op :=
  match a.control with
  | .code (.perform op _) => some op
  | _ => none

theorem Activity.settles_of_op? {a : Activity} {op : Op} (h : a.op? = some op) :
    a.control.settles = false := by
  obtain ⟨control, stack⟩ := a
  cases control with
  | code c => cases c <;> first | rfl | cases h
  | _ => cases h

section Execute

variable {w : World} {c : ContextId} {context : Context} {task : Code}

/-- What a concurrent context makes of a task. -/
theorem World.execute_concurrent (here : Place) (hc : w.contexts[c]? = some context)
    (hk : context.kind = .concurrent) :
    w.perform here (.context c (.execute task)) = w.spawnThread c context task := by
  simp only [perform, onContext, hc, Option.getD_some, hk]

theorem World.act_execute (here : Place) (hc : w.contexts[c]? = some context)
    (hk : context.kind = .concurrent) (task : Code) (next : Reply → Code) :
    w.act here ⟨.code (.perform (.context c (.execute task)) next), []⟩ =
      ((w.spawnThread c context task).1, .respond next [] (w.spawnThread c context task).2) := by
  simp only [act, execute_concurrent here hc hk]

theorem World.execute_spawns (here : Place) (hc : w.contexts[c]? = some context)
    (hk : context.kind = .concurrent) (hname : Context.nameFault? context.threadName = none)
    (hs : context.canSpawn = true) :
    w.perform here (.context c (.execute task)) =
      ({ w with
        contexts := w.contexts.setIfInBounds c { context with spawned := context.spawned + 1 }
        threads := w.threads.push ⟨context.threadName, some c, .task, .start task⟩ },
        .reply .unit) := by
  rw [execute_concurrent here hc hk]
  simp only [spawnThread, hname, hs, if_true]
  rfl

end Execute

theorem World.act_world (w : World) (here : Place) (a : Activity) :
    (w.act here a).1 = (a.op?.map fun op => (w.perform here op).1).getD w := by
  obtain ⟨control, stack⟩ := a
  cases control with
  | drive machine run =>
    simp only [act]
    split <;> rfl
  | code c => cases c <;> rfl
  | _ => rfl

theorem World.act_connection {w : World} {a : Activity} {c : ConnectionId} {s : Connection Code}
    (hc : w.connections[c]? = some s) (here : Place)
    (h : ∀ op, a.op? = some op → ∀ op', op ≠ .connection c op') :
    (w.act here a).1.connections[c]? = some s := by
  rw [act_world]
  cases hop : a.op? with
  | none => exact hc
  | some op => exact perform_connection hc (h op hop)

end Effects
