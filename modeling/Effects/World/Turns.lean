import Effects.World.Step

/-!
One way to let the threads of a world take turns. Time stands still while any thread can take a
step, and then passes to the next deadline.
-/

namespace Effects.World

/-- The most steps of one turn. -/
def turnLength : Nat := 200

/-- Up to `n` steps of one thread. -/
def turn (t : ThreadId) : Nat → World → World
  | 0, w => w
  | n + 1, w => if w.enabled t then turn t n (w.step t) else w

/-- The first of `n` threads that can take a step, starting with `t` and going round. -/
def nextEnabled? (w : World) (t : ThreadId) : Nat → Option ThreadId
  | 0 => none
  | n + 1 =>
      let t := if t < w.threads.size then t else 0
      if w.enabled t then some t else w.nextEnabled? (t + 1) n

/-- Turns until `done` holds, or nothing can happen any more. -/
def runUntil (done : World → Bool) : Nat → ThreadId → World → World
  | 0, _, w => w
  | turns + 1, t, w =>
      if done w then w
      else
        match w.nextEnabled? t w.threads.size with
        | some t => runUntil done turns (t + 1) (turn t turnLength w)
        | none =>
            match w.timer.nextDeadline? with
            | some deadline => runUntil done turns t { w with clock := max w.clock deadline }
            | none => w

/-- More turns than any program takes that ends. -/
def turns : Nat := 1000000000000

def callerResult? (w : World) : Option (Except String Reply) :=
  match w.threads[ThreadId.caller]? with
  | some ⟨_, _, _, ⟨.ended r, _⟩⟩ => some r
  | _ => none

/-- Runs code on the caller's thread and waits for its reply, none if it never comes. -/
def call (w : World) (c : Code) : World × Option (Except String Reply) :=
  let w := runUntil (·.callerResult?.isSome) turns 0 (w.setActivity .caller (.start c))
  (w, w.callerResult?)

/-- Lets everything happen that can happen at this instant. -/
def quiesce (w : World) : World :=
  runUntil (fun w => (w.nextEnabled? 0 w.threads.size).isNone) turns 0 w

end Effects.World
