import Effects.World

/-!
What the operations do to the world, and with what the thread that performs one goes on.
-/

namespace Effects.World

/-- The world after an operation, and what the one who performs it gets. -/
abbrev Performed := World × Response

def replying (w : World) (r : Reply) : Performed := (w, .reply r)

def onConnection (w : World) (c : ConnectionId) : ConnectionOp Code → Performed :=
  let s := w.connections[c]?.getD .uncancelable
  fun
  | .isCanceled => w.replying (.flag s.isCanceled)
  | .isUncancelable => w.replying (.flag s.isUncancelable)
  | .describe => w.replying (.value (.str s.text))
  | .push token =>
      match s.push token with
      | (s, none) => (w.setConnection c s).replying .unit
      | (s, some token) => (w.setConnection c s, .inPlace token .unit)
  | .pop =>
      let (s, token) := s.pop
      (w.setConnection c s).replying (.flag token.isSome)
  | .popAndRun =>
      match s.pop with
      | (s, none) => (w.setConnection c s).replying (.flag false)
      | (s, some token) => (w.setConnection c s, .inPlace token (.flag true))
  | .cancel =>
      let (s, tokens) := s.cancel
      (w.setConnection c s, .tokens tokens)
  | .reactivate =>
      let (s, was) := s.reactivate
      (w.setConnection c s).replying (.flag was)

def onFiber (w : World) (f : FiberId) : FiberOp → Performed :=
  let s := w.fibers[f]?.getD ⟨.uncancelable, .new, .closed⟩
  fun
  | .connection => w.replying (.id s.connection)
  | .complete exit =>
      let (slot, joiner) := s.slot.complete exit
      (w.setFiber f { s with slot }).replying (.joiner joiner)
  | .listen callback =>
      let (slot, heard) := s.slot.listen callback
      (w.setFiber f { s with slot }).replying (.heard heard)
  | .detach =>
      let (slot, had) := s.slot.detach
      (w.setFiber f { s with slot }).replying (.flag had)
  | .openGate => (w.setFiber f { s with gate := .opened }).replying .unit
  | .isFinished => w.replying (.flag s.gate.isOpen)
  | .awaitFinished => w.replying .unit

/-- Dispatches a task of a concurrent context: on a new thread, or in place if there can be none. -/
def spawnThread (w : World) (c : ContextId) (context : Context) (task : Code) : Performed :=
  let counted := { w with
    contexts := w.contexts.setIfInBounds c { context with spawned := context.spawned + 1 } }
  match Context.nameFault? context.threadName with
  | some message => (counted, .panic message)
  | none =>
      if context.canSpawn then
        (counted.addThread ⟨context.threadName, some c, .task, .start task⟩).replying .unit
      else (counted, .inPlace task .unit)

def onContext (w : World) (home : Option ContextId) (c : ContextId) : ContextOp Code → Performed :=
  let context := w.contexts[c]?.getD .inline
  fun
  | .isCurrent => w.replying (.flag (w.isCurrent home c))
  | .describe => w.replying (.context context.name context.kind)
  | .derive label =>
      { w with contexts := w.contexts.push (context.derive label) }.replying (.id w.contexts.size)
  | .close =>
      { w with contexts :=
          w.contexts.setIfInBounds c { context with queue := context.queue.close } }.replying .unit
  | .execute task =>
      match context.kind with
      | .inline => (w, .inPlace task .unit)
      | .concurrent => w.spawnThread c context task
      | .serial =>
          let queue := context.queue.push task
          { w with contexts := w.contexts.setIfInBounds c { context with queue } }.replying .unit

/-- A serial context comes with its worker; without one it runs its tasks in place. -/
def openContext (w : World) (name : String) (serial : Bool) (stackSize : Option Nat) :
    World × ContextId :=
  let c := w.contexts.size
  let kind := if serial then ContextKind.serial else .concurrent
  let context := Context.new name kind stackSize
  if serial then
    if context.canSpawn then
      ({ w with contexts := w.contexts.push context }.addThread
        ⟨name, some c, .worker c, idle⟩, c)
    else ({ w with contexts := w.contexts.push { context with kind := .inline } }, c)
  else ({ w with contexts := w.contexts.push context }, c)

def Notice.reply : MVar.Notice Value → Reply
  | .value v => .outcome (.completed v)
  | .room => .outcome (.completed .null)

/-- One atomic step of an operation on a slot. -/
def onSlot (w : World) (s : SlotId) (request : MVar.Request Value LatchId)
    (phase : MVar.Phase Value LatchId) : Performed :=
  match w.slots[s]? with
  | none => w.replying (.slot .served)
  | some slot =>
      let (slot, phase, call) := phase.step request slot
      let w := { w with slots := w.slots.setIfInBounds s slot }
      let w :=
        match call with
        | some (callback, notice) => w.settle callback (.ok (Notice.reply notice))
        | none => w
      match phase with
      | .done answer => w.replying (.slot answer)
      | phase => (w, .again (.slot s request phase))

/-- One atomic step of an operation on a promise. -/
def onPromise (w : World) (p : PromiseId) (request : Promise.Request Value Value LatchId)
    (phase : Promise.Phase Value Value LatchId) : Performed :=
  match w.promises[p]? with
  | none => w.replying (.promise .served)
  | some slot =>
      let (slot, phase, call) := phase.step request slot
      let w := { w with promises := w.promises.setIfInBounds p slot }
      let w :=
        match call with
        | some (callback, r) => w.settle callback (.ok (.outcome (.ofExcept r)))
        | none => w
      match phase with
      | .done answer => w.replying (.promise answer)
      | phase => (w, .again (.promise p request phase))

/-- The next number of a fixed pseudo-random sequence. -/
def nextSeed (seed : Nat) : Nat := (seed * 1103515245 + 12345) % 2147483648

def factorBetween (seed : Nat) (low high : Float) : Float :=
  let x := low + (high - low) * ((UInt64.ofNat seed).toFloat / 2147483648.0)
  if x < low then low else if high < x then high else x

/-- Performs an operation, on a thread at the given place. -/
def perform (w : World) (here : Place) (op : Op) : Performed :=
  match op with
  | .openConnection =>
      { w with connections := w.connections.push .new }.replying (.id w.connections.size)
  | .connection c op => w.onConnection c op
  | .openLatch => { w with latches := w.latches.push .empty }.replying (.id w.latches.size)
  | .settle l r => (w.settle l r).replying .unit
  | .await l =>
      match (w.latches[l]?).bind Latch.item? with
      | some r => (w.setLatch l .drained).replying (.caught r)
      | none => (w, .again op)
  | .openCell => { w with cells := w.cells.push ⟨none, 0⟩ }.replying (.id w.cells.size)
  | .readCell c => w.replying (.snapshot (w.cells[c]?.getD ⟨none, 0⟩))
  | .writeCell c seen n =>
      let (cell, done) := (w.cells[c]?.getD ⟨none, 0⟩).compareAndSet seen (some n)
      { w with cells := w.cells.setIfInBounds c cell }.replying (.flag done)
  | .openFiber =>
      { w with
        connections := w.connections.push .new
        fibers := w.fibers.push ⟨w.connections.size, .new, .closed⟩ }.replying (.id w.fibers.size)
  | .fiber f op => w.onFiber f op
  | .openContext name serial stackSize =>
      match (Context.nameFault? name).filter fun _ => serial with
      | some message => (w, .panic message)
      | none =>
          let (w, c) := w.openContext name serial stackSize
          w.replying (.id c)
  | .context c op => w.onContext here.home c op
  | .threadName => w.replying (.value (.str here.name))
  | .fork body => (w.addThread ⟨"", none, .task, .start body⟩).replying .unit
  | .schedule delay task =>
      let (timer, seq) := w.timer.push w.clock delay.nanos task
      { w with timer }.replying (.id seq)
  | .unschedule seq => { w with timer := w.timer.remove seq }.replying .unit
  | .openSlot contents cancelable =>
      { w with slots := w.slots.push (.new contents cancelable) }.replying (.id w.slots.size)
  | .slot s request phase => w.onSlot s request phase
  | .describeSlot s => w.replying (.value (.str ((w.slots[s]?).elim "" MVar.Slot.text)))
  | .awaitSlot _ _ => w.replying .unit
  | .openPromise cancelable =>
      { w with promises := w.promises.push (.new cancelable) }.replying (.id w.promises.size)
  | .promise p request phase => w.onPromise p request phase
  | .describePromise p =>
      w.replying (.value (.str ((w.promises[p]?).elim "" Promise.Slot.text)))
  | .awaitPromise _ _ => w.replying .unit
  | .drive machine run => (w, .drive machine run)
  | .call body => (w, .call body)
  | .attempt body => (w, .attempt body)
  | .log v => { w with log := v :: w.log }.replying .unit
  | .remember key v => (w.remember key v).replying .unit
  | .remembered key => w.replying (.value (w.remembered key))
  | .signal name => { w with signals := name :: w.signals }.replying .unit
  | .awaitSignal _ => w.replying .unit
  | .now => w.replying (.id w.clock)
  | .factorBetween low high =>
      let seed := nextSeed w.seed
      { w with seed }.replying (.factor (factorBetween seed low high))

/-- Whether an operation can be performed now; one that waits for something cannot before that is
there. -/
def ready (w : World) : Op → Bool
  | .await l => (w.latches[l]?).any Latch.isFull
  | .fiber f .awaitFinished => (w.fibers[f]?).any (·.gate.isOpen)
  | .awaitSlot s state => (w.slots[s]?).any (·.stateText == state)
  | .awaitPromise p state => (w.promises[p]?).any (·.stateText == state)
  | .awaitSignal name => w.signals.contains name
  | _ => true

end Effects.World
