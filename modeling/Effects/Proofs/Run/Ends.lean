import Effects.Proofs.Run.Answers
import Effects.Proofs.Run.Registration

/-!
How a computation ends, by recursion on the computation: each part ends before what depends on it
begins, and there is neither a list of continuations nor a stack. Closures are called on a thread of
the run's context, and what they do is left to them.
-/

namespace Effects

/-- Where a run stands: on which thread, and for which context. -/
structure Spot where
  place : Place
  context : ContextId

namespace Spot

/-- On a thread of the context. -/
def arrive (hosts : Hosts) (w : World) (s : Spot) : Spot :=
  if w.isCurrent s.place.home s.context then s
  else ⟨⟨hosts w s.context, some s.context⟩, s.context⟩

/-- The same thread, with the context in which something else ended. -/
def back (s ended : Spot) : Spot := ⟨s.place, ended.context⟩

def run (s : Spot) (c : ConnectionId) : Run := ⟨s.context, c⟩

end Spot

/-- The exit and where the run stands then, or the message of the panic that came instead. -/
abbrev Ending := Except String (Exit × Spot)

namespace Answer

/-- The answer of a closure from which a computation is expected. -/
def computation : Answer → Except String (Node ⊕ Exit)
  | .node n => .ok (.inl n)
  | .reply (.outcome exit) => .ok (.inr exit)
  | .reply (.ended exit _) => .ok (.inr exit)
  | .reply _ => .error "a reply has no place here"
  | .token _ => .error "a token has no place here"

/-- The answer of a closure that uses a resource. -/
def use : Answer → Except String Node
  | .node n => .ok n
  | .reply (.ended _ _) => .error "a use must be a computation"
  | .reply _ => .error "a reply has no place here"
  | .token _ => .error "a token has no place here"

/-- The answer of code that is run for what it does. -/
def task : Answer → Except String Unit
  | .reply _ => .ok ()
  | .node _ => .error "a computation has no place here"
  | .token _ => .error "a token has no place here"

def token? : Answer → Option Code
  | .token t => t
  | _ => none

end Answer

namespace World

def withLatch (w : World) : World := { w with latches := w.latches.push .empty }

/-- Takes back the token that a registration left on the connection. -/
def popped (w : World) (c : ConnectionId) : Option Code → World
  | none => w
  | some _ => w.setConnection c (w.connection c).pop.1

end World

/-- What becomes of the token of a registration: it is kept on the connection, or runs at once if
the connection was canceled meanwhile. -/
inductive Installs (hosts : Hosts) (c : ConnectionId) (w : World) (here : Place) :
    Option Code → List Code → Except String Unit → World → Prop
  | none : Installs hosts c w here none [] (.ok ()) w
  | kept {token : Code} {s : Connection Code} (h : (w.connection c).push token = (s, .none)) :
      Installs hosts c w here (some token) [] (.ok ()) (w.setConnection c s)
  | late {token late : Code} {s : Connection Code} {calls : List Code} {res : Except String Answer}
      {w' : World} (h : (w.connection c).push token = (s, some late))
      (hl : late.Answers hosts (w.setConnection c s) here calls res w') :
      Installs hosts c w here (some token) calls (res.bind Answer.task) w'

/-- A registration and the wait for what is delivered to its callback. -/
inductive Waits (hosts : Hosts) (c : ConnectionId) (register : LatchId → Code) (w : World)
    (here : Place) : List Code → Except String Exit → World → Prop
  | canceled (h : w.isCanceled c = true) : Waits hosts c register w here [] (.ok .canceled) w
  | panics {calls message w₁} (h : w.isCanceled c = false)
      (hr : (register w.latches.size).Answers hosts w.withLatch here calls (.error message) w₁) :
      Waits hosts c register w here (register w.latches.size :: calls) (.error message) w₁
  | token_panics {calls answer w₁ calls' message w₂} (h : w.isCanceled c = false)
      (hr : (register w.latches.size).Answers hosts w.withLatch here calls (.ok answer) w₁)
      (ht : Installs hosts c w₁ here answer.token? calls' (.error message) w₂) :
      Waits hosts c register w here (register w.latches.size :: (calls ++ calls'))
        (.error message) w₂
  | delivered_panic {calls answer w₁ calls' w₂ message} (h : w.isCanceled c = false)
      (hr : (register w.latches.size).Answers hosts w.withLatch here calls (.ok answer) w₁)
      (ht : Installs hosts c w₁ here answer.token? calls' (.ok ()) w₂)
      (hd : w₂.latches[w.latches.size]? = some (.full (.error message))) :
      Waits hosts c register w here (register w.latches.size :: (calls ++ calls'))
        (.error message) (w₂.setLatch w.latches.size .drained)
  | delivered {calls answer w₁ calls' w₂ reply} (h : w.isCanceled c = false)
      (hr : (register w.latches.size).Answers hosts w.withLatch here calls (.ok answer) w₁)
      (ht : Installs hosts c w₁ here answer.token? calls' (.ok ()) w₂)
      (hd : w₂.latches[w.latches.size]? = some (.full (.ok reply))) :
      Waits hosts c register w here (register w.latches.size :: (calls ++ calls'))
        (.ok reply.toExit) ((w₂.setLatch w.latches.size .drained).popped c answer.token?)

/-- The part that begins where the computation itself stands, and the connection that can cancel it. -/
def Node.first? (c : ConnectionId) : Node → Option (ConnectionId × Node)
  | .map inner _ | .flatMap inner _ | .handleErrorWith inner _ | .continueOn inner _ =>
      some (c, inner)
  | .uncancelable inner => some (.uncancelable, inner)
  | _ => none

/-- How a computation ends that runs under the connection `c`, and which closures it calls. -/
inductive Node.Ends (hosts : Hosts) :
    ConnectionId → Node → World → Spot → List Code → Ending → World → Prop
  | pure {c v w s} : Ends hosts c (.pure v) w s [] (.ok (.completed v, s.arrive hosts w)) w
  | raise {c e w s} : Ends hosts c (.raise e) w s [] (.ok (.errored e, s.arrive hosts w)) w
  | suspend_panics {c thunk w s calls res message w₁}
      (h : thunk.Answers hosts w (s.arrive hosts w).place calls res w₁)
      (hr : res.bind Answer.computation = .error message) :
      Ends hosts c (.suspend thunk) w s (thunk :: calls) (.error message) w₁
  | suspend_exits {c thunk w s calls res exit w₁}
      (h : thunk.Answers hosts w (s.arrive hosts w).place calls res w₁)
      (hr : res.bind Answer.computation = .ok (.inr exit)) :
      Ends hosts c (.suspend thunk) w s (thunk :: calls) (.ok (exit, s.arrive hosts w)) w₁
  | suspend {c thunk w s calls res n w₁ calls' ending w₂}
      (h : thunk.Answers hosts w (s.arrive hosts w).place calls res w₁)
      (hr : res.bind Answer.computation = .ok (.inl n))
      (hn : Ends hosts c n w₁ (s.arrive hosts w) calls' ending w₂) :
      Ends hosts c (.suspend thunk) w s (thunk :: (calls ++ calls')) ending w₂
  | async {c register w s calls res w₁}
      (h : Waits hosts c register w (s.arrive hosts w).place calls res w₁) :
      Ends hosts c (.async register) w s calls (res.map (·, s.arrive hosts w)) w₁
  | first_panics {c n c' inner w s calls message w₁} (h : n.first? c = some (c', inner))
      (hi : Ends hosts c' inner w s calls (.error message) w₁) :
      Ends hosts c n w s calls (.error message) w₁
  | map {c inner f w s calls v s₁ w₁ calls' ending w₂}
      (h : Ends hosts c inner w s calls (.ok (.completed v, s₁)) w₁)
      (hf : Ends hosts c (.suspend (f v)) w₁ s₁ calls' ending w₂) :
      Ends hosts c (.map inner f) w s (calls ++ calls') ending w₂
  | map_passes {c inner f w s calls exit s₁ w₁} (he : exit.isCompleted = false)
      (h : Ends hosts c inner w s calls (.ok (exit, s₁)) w₁) :
      Ends hosts c (.map inner f) w s calls (.ok (exit, s₁.arrive hosts w₁)) w₁
  | flatMap {c inner f w s calls v s₁ w₁ calls' ending w₂}
      (h : Ends hosts c inner w s calls (.ok (.completed v, s₁)) w₁)
      (hf : Ends hosts c (.suspend (f v)) w₁ s₁ calls' ending w₂) :
      Ends hosts c (.flatMap inner f) w s (calls ++ calls') ending w₂
  | flatMap_passes {c inner f w s calls exit s₁ w₁} (he : exit.isCompleted = false)
      (h : Ends hosts c inner w s calls (.ok (exit, s₁)) w₁) :
      Ends hosts c (.flatMap inner f) w s calls (.ok (exit, s₁.arrive hosts w₁)) w₁
  | recover {c inner f w s calls e s₁ w₁ calls' ending w₂}
      (h : Ends hosts c inner w s calls (.ok (.errored e, s₁)) w₁)
      (hf : Ends hosts c (.suspend (f e)) w₁ s₁ calls' ending w₂) :
      Ends hosts c (.handleErrorWith inner f) w s (calls ++ calls') ending w₂
  | recover_passes {c inner f w s calls exit s₁ w₁} (he : exit.isErrored = false)
      (h : Ends hosts c inner w s calls (.ok (exit, s₁)) w₁) :
      Ends hosts c (.handleErrorWith inner f) w s calls (.ok (exit, s₁.arrive hosts w₁)) w₁
  | continueOn {c inner target w s calls exit s₁ w₁}
      (h : Ends hosts c inner w s calls (.ok (exit, s₁)) w₁) :
      Ends hosts c (.continueOn inner target) w s calls
        (.ok (exit, Spot.arrive hosts w₁ ⟨s₁.place, target⟩)) w₁
  | uncancelable {c inner w s calls exit s₁ w₁}
      (h : Ends hosts .uncancelable inner w s calls (.ok (exit, s₁)) w₁) :
      Ends hosts c (.uncancelable inner) w s calls (.ok (exit, s₁.arrive hosts w₁)) w₁
  | bracket_canceled {c acquire use release w s} (h : w.isCanceled c = true) :
      Ends hosts c (.bracket acquire use release) w s [] (.ok (.canceled, s.arrive hosts w)) w
  | acquire_panics {c acquire use release w s calls message w₁} (h : w.isCanceled c = false)
      (ha : Ends hosts .uncancelable acquire w (s.arrive hosts w) calls (.error message) w₁) :
      Ends hosts c (.bracket acquire use release) w s calls (.error message) w₁
  | acquire_passes {c acquire use release w s calls exit s₁ w₁} (h : w.isCanceled c = false)
      (he : exit.isCompleted = false)
      (ha : Ends hosts .uncancelable acquire w (s.arrive hosts w) calls (.ok (exit, s₁)) w₁) :
      Ends hosts c (.bracket acquire use release) w s calls
        (.ok (exit, (s.arrive hosts w).back s₁)) w₁
  | bracket {c acquire use release w s calls resource s₁ w₁ calls' ending w₂}
      (h : w.isCanceled c = false)
      (ha : Ends hosts .uncancelable acquire w (s.arrive hosts w) calls
        (.ok (.completed resource, s₁)) w₁)
      (hu : Ends hosts c (.bracketUse resource use release) w₁ ((s.arrive hosts w).back s₁) calls'
        ending w₂) :
      Ends hosts c (.bracket acquire use release) w s (calls ++ calls') ending w₂
  | use_canceled {c resource use release w s calls ending w₁} (h : w.isCanceled c = true)
      (hr : Ends hosts c (.bracketRelease (.suspend (release resource .canceled)) .canceled) w
        (s.arrive hosts w) calls ending w₁) :
      Ends hosts c (.bracketUse resource use release) w s calls ending w₁
  | use_misused {c resource use release w s calls res message w₁} (h : w.isCanceled c = false)
      (hu : (use resource).Answers hosts w (s.arrive hosts w).place calls res w₁)
      (hr : res.bind Answer.use = .error message) :
      Ends hosts c (.bracketUse resource use release) w s (use resource :: calls)
        (.error message) w₁
  | use_panics {c resource use release w s calls res n w₁ calls' message w₂}
      (h : w.isCanceled c = false)
      (hu : (use resource).Answers hosts w (s.arrive hosts w).place calls res w₁)
      (hr : res.bind Answer.use = .ok n)
      (hn : Ends hosts c n w₁ (s.arrive hosts w) calls' (.error message) w₂) :
      Ends hosts c (.bracketUse resource use release) w s (use resource :: (calls ++ calls'))
        (.error message) w₂
  | use {c resource use release w s calls res n w₁ calls' exit s₁ w₂ calls'' ending w₃}
      (h : w.isCanceled c = false)
      (hu : (use resource).Answers hosts w (s.arrive hosts w).place calls res w₁)
      (hr : res.bind Answer.use = .ok n)
      (hn : Ends hosts c n w₁ (s.arrive hosts w) calls' (.ok (exit, s₁)) w₂)
      (hl : Ends hosts c (.bracketRelease (.suspend (release resource exit.exitCase)) exit) w₂
        ((s.arrive hosts w).back s₁) calls'' ending w₃) :
      Ends hosts c (.bracketUse resource use release) w s
        (use resource :: (calls ++ (calls' ++ calls''))) ending w₃
  | release_panics {c finalizer exit w s calls message w₁}
      (h : Ends hosts .uncancelable finalizer w (s.arrive hosts w) calls (.error message) w₁) :
      Ends hosts c (.bracketRelease finalizer exit) w s calls (.error message) w₁
  | release {c finalizer exit w s calls ignored s₁ w₁}
      (h : Ends hosts .uncancelable finalizer w (s.arrive hosts w) calls (.ok (ignored, s₁)) w₁) :
      Ends hosts c (.bracketRelease finalizer exit) w s calls
        (.ok (exit, (s.arrive hosts w).back s₁)) w₁
  | instrument_panics {c inner w s calls message w₁}
      (h : Ends hosts c inner w (s.arrive hosts w) calls (.error message) w₁) :
      Ends hosts c (.instrument inner) w s calls (.error message) w₁
  | instrument {c inner w s calls exit s₁ w₁}
      (h : Ends hosts c inner w (s.arrive hosts w) calls (.ok (exit, s₁)) w₁) :
      Ends hosts c (.instrument inner) w s calls (.ok (exit, (s.arrive hosts w).back s₁)) w₁
  | loop {c body seed w s calls ending w₁}
      (h : Ends hosts c (.flatMap (body seed) fun v => .build (Machine.nextRound body v)) w s calls
        ending w₁) :
      Ends hosts c (.loop body seed) w s calls ending w₁
  | parMap {c branches combine w s calls ending w₁}
      (h : Ends hosts c (.suspend (Group.code branches combine (s.run c))) w s calls ending w₁) :
      Ends hosts c (.parMap branches combine) w s calls ending w₁
  | parSequence {c branches w s calls ending w₁}
      (h : Ends hosts c (.suspend (Group.code branches
        (fun vs => .give (.outcome (.completed (.arr vs)))) (s.run c))) w s calls ending w₁) :
      Ends hosts c (.parSequence branches) w s calls ending w₁

end Effects
