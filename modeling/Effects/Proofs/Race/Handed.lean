import Mathlib.Data.List.Basic
import Effects.Proofs.Race.Settled

/-!
What a race goes on with: the fibers that come with the winner's value are those of all others, in
the order of the racers.
-/

namespace Effects

open Routine Race Racing

variable {ε α β γ : Type}

/-- Who joins a fiber listens to it, and is called back with the exit if it is there. -/
theorem Fiber.join_node [Datum ε] [Datum α] (f : Fiber ε α) : f.join.node = .async fun callback =>
    .perform (.fiber f.id (.listen callback)) fun r =>
      match r.toHeard with
      | .ended exit => .perform (.settle callback (exit.map .outcome)) fun _ => .guard none
      | .taken => .perform (.settle callback (.ok (.outcome .canceled))) fun _ => .guard none
      | .waiting => .guard (some (task do if ← f.id.detach then callback.interrupt)) := by
  refine congrArg Node.async (funext fun callback => congrArg (Code.perform _) (funext fun r => ?_))
  cases r with
  | heard what => cases what <;> rfl
  | _ => rfl

/-- Who cancels a fiber goes on only when its gate is open. -/
theorem Fiber.cancel_node [Datum ε] (f : Fiber ε α) : (f.cancel : Effect ε Unit).node = .suspend
    (.perform (.fiber f.id .connection) fun r =>
      .perform (.connection r.toId .cancel) fun _ =>
        .perform (.fiber f.id .awaitFinished) fun _ => .build (Effect.unit : Effect ε Unit).node) :=
  rfl

namespace Racing

variable [Datum ε] [Datum α] [Datum β] [Datum γ] {l : LatchId} {seen : List Sign} {t : Scene}
  {next : Value → Code}

/-- With this value the computation goes on as the effect. -/
def Continues (next : Value → Code) (v : Value) (e : Effect ε α) : Prop := next v = .build e.node

/-- What comes of a race of two. -/
structure PairSettled (c : ContextId) (a : Effect ε α) (b : Effect ε β) (next : Value → Code)
    (l : LatchId) (seen : List Sign) (t : Scene) : Prop where
  settled : Settled [a.node, b.node] c pairWrap l seen t
  handed : t.racers ≠ [] → ∃ f g, f ≠ g ∧ t.fibers = [f, g] ∧
    (∀ v, Continues next (pairWrap t.fibers 0 (.ok v))
      (.pure (.inl (read v, ⟨g⟩)) : Effect ε ((α × Fiber ε β) ⊕ (Fiber ε α × β)))) ∧
    (∀ v, Continues next (pairWrap t.fibers 1 (.ok v))
      (.pure (.inr (⟨f⟩, read v)) : Effect ε ((α × Fiber ε β) ⊕ (Fiber ε α × β)))) ∧
    ∀ i < 2, ∀ e, Continues next (pairWrap t.fibers i (.error e)) (.raise (read e) : Effect ε Unit)

/-- What comes of a race of three. -/
structure TripleSettled (x : ContextId) (a : Effect ε α) (b : Effect ε β) (c : Effect ε γ)
    (next : Value → Code) (l : LatchId) (seen : List Sign) (t : Scene) : Prop where
  settled : Settled [a.node, b.node, c.node] x tripleWrap l seen t
  handed : t.racers ≠ [] → ∃ f g h, [f, g, h].Nodup ∧ t.fibers = [f, g, h] ∧
    (∀ v, Continues next (tripleWrap t.fibers 0 (.ok v))
      (.pure (.first (read v, ⟨g⟩, ⟨h⟩)) : Effect ε (RaceTriple ε α β γ))) ∧
    (∀ v, Continues next (tripleWrap t.fibers 1 (.ok v))
      (.pure (.second (⟨f⟩, read v, ⟨h⟩)) : Effect ε (RaceTriple ε α β γ))) ∧
    (∀ v, Continues next (tripleWrap t.fibers 2 (.ok v))
      (.pure (.third (⟨f⟩, ⟨g⟩, read v)) : Effect ε (RaceTriple ε α β γ))) ∧
    ∀ i < 3, ∀ e, Continues next (tripleWrap t.fibers i (.error e)) (.raise (read e) : Effect ε Unit)

variable {nodes : List Node} {c : ContextId} {wrap : List FiberId → Nat → Except Value Value → Value}

theorem Stands.length_eq (h : Stands nodes c wrap l seen t) (hr : t.racers ≠ []) :
    t.fibers.length = nodes.length :=
  h.caller.length_eq fun hn => hr (List.length_eq_zero_iff.1 hn)

theorem pair_settled (c : ContextId) (a : Effect ε α) (b : Effect ε β)
    {register : LatchId → Code} (hn : (racePair c a b).node = .flatMap (.async register) next)
    {w : World} {place : Place} (h : Runs l (asked (register l) w place) seen t) :
    PairSettled c a b next l seen t := by
  obtain ⟨rfl, rfl⟩ : (fun l => start [a.node, b.node] c pairWrap l .guard) = register ∧ _ = next := by
    obtain ⟨hregister, hnext⟩ := Node.flatMap.inj hn
    exact ⟨Node.async.inj hregister, hnext⟩
  have hstands := h.stands
  refine ⟨hstands.settled, fun hr => ?_⟩
  have hnodup := hstands.nodup
  obtain ⟨f, g, hfibers⟩ := List.length_eq_two.1 (hstands.length_eq hr)
  rw [hfibers] at hnodup ⊢
  refine ⟨f, g, by simpa using hnodup, rfl, fun v => rfl, fun v => rfl, fun i hi e => ?_⟩
  match i, hi with
  | 0, _ | 1, _ => rfl

theorem triple_settled (x : ContextId) (a : Effect ε α) (b : Effect ε β) (c : Effect ε γ)
    {register : LatchId → Code} (hn : (raceTriple x a b c).node = .flatMap (.async register) next)
    {w : World} {place : Place} (h : Runs l (asked (register l) w place) seen t) :
    TripleSettled x a b c next l seen t := by
  obtain ⟨rfl, rfl⟩ : (fun l => start [a.node, b.node, c.node] x tripleWrap l .guard) = register ∧
      _ = next := by
    obtain ⟨hregister, hnext⟩ := Node.flatMap.inj hn
    exact ⟨Node.async.inj hregister, hnext⟩
  have hstands := h.stands
  refine ⟨hstands.settled, fun hr => ?_⟩
  have hnodup := hstands.nodup
  obtain ⟨f, g, k, hfibers⟩ := List.length_eq_three.1 (hstands.length_eq hr)
  rw [hfibers] at hnodup ⊢
  refine ⟨f, g, k, hnodup, rfl, fun v => rfl, fun v => rfl, fun v => rfl, fun i hi e => ?_⟩
  match i, hi with
  | 0, _ | 1, _ | 2, _ => rfl

/-- The registration of a race of two or three, in every order of the steps of all threads. -/
theorem race_settles {node : Node} {register : LatchId → Code}
    (hnode : node = .flatMap (.async register) next) {w : World} {place : Place}
    (h : Runs l (asked (register l) w place) seen t) :
    (∀ (c : ContextId) (a : Effect ε α) (b : Effect ε β), node = (racePair c a b).node →
      PairSettled c a b next l seen t) ∧
    ∀ (x : ContextId) (a : Effect ε α) (b : Effect ε β) (c : Effect ε γ),
      node = (raceTriple x a b c).node → TripleSettled x a b c next l seen t :=
  ⟨fun c a b hn => pair_settled c a b (hn.symm.trans hnode) h,
    fun x a b c hn => triple_settled x a b c (hn.symm.trans hnode) h⟩

/-- The second racer wins with its value, and the first one records its error. -/
theorem race_settles_of_error : ∃ (register : LatchId → Code) (next : Value → Code) (w : World)
    (place : Place) (seen : List Sign) (t : Scene),
      (racePair 1 (.raise () : Effect Unit Nat) (.pure 1 : Effect Unit Nat)).node =
        .flatMap (.async register) next ∧
      Runs 0 (asked (register 0) w place) seen t ∧ claims seen = [1] ∧
      (∀ r ∈ t.racers, r.Over) ∧ .recorded 0 0 (.ok (.errored (write ()))) ∈ seen ∧
      PairSettled 1 (.raise () : Effect Unit Nat) (.pure 1 : Effect Unit Nat) next 0 seen t := by
  let a : Node := (Effect.raise () : Effect Unit Nat).node
  let b : Node := (Effect.pure 1 : Effect Unit Nat).node
  let here : Place := ⟨"caller", none⟩
  let caller : Thread := ⟨"caller", none, .task, World.idle⟩
  let name (spawned : Nat) : String := Context.threadName { Context.global with spawned := spawned }
  let x : Lane := lane 1 pairWrap 0 0 [0, 1] 0 0 a 1
  let y : Lane := lane 1 pairWrap 0 0 [0, 1] 1 1 b 2
  let first : Thread := ⟨name 0, some 1, .task, .start x.task⟩
  let second : Thread := ⟨name 1, some 1, .task, .start y.task⟩
  let world (threads : List Thread) (cell : Cell (Option Nat)) (loser : Fiber.State) : World :=
    { World.start with
      threads := ⟨caller :: threads⟩
      contexts := #[.inline, { Context.global with spawned := threads.length }]
      connections := #[.uncancelable, .new, .new]
      cells := #[cell]
      fibers := #[loser, ⟨2, .new, .closed⟩] }
  let free : Cell (Option Nat) := ⟨none, 0⟩
  let vacant : Fiber.State := ⟨1, .new, .closed⟩
  let forks (i : Nat) := Racing.forks 1 pairWrap 0 0 [0, 1] ((items [a, b] [0, 1]).drop i)
  let s := asked (start [a, b] 1 pairWrap 0 .guard)
    { World.start with threads := #[caller] } here
  let racer (t : Thread) : Racer := ⟨t.place, t.activity⟩
  have hopened : Runs 0 s []
      ⟨world [] free vacant, here, ⟨.code (forks 0), []⟩, some 0, [0, 1], []⟩ := by
    have h : Runs 0 s [] ⟨world [] free vacant, here,
        ⟨.code (opens [a, b] 1 pairWrap 0 0 [] [0, 1]), []⟩, some 0, [0, 1], []⟩ :=
      Runs.start (s := s) |>.calls rfl nofun |>.calls rfl nofun |>.calls rfl nofun
    rwa [opens_nil] at h
  rw [show forks 0 = _ from forks_cons ..] at hopened
  have hfirst : Runs 0 s [] ⟨world [first] free vacant, here, ⟨.code (forks 1), []⟩, some 0, [0, 1],
      [racer first]⟩ :=
    (hopened.calls rfl nofun).spawns rfl rfl rfl (by decide +kernel) rfl
  rw [show forks 1 = _ from forks_cons ..] at hfirst
  let scene (cell : Cell (Option Nat)) (loser : Fiber.State) (one two : Activity) : Scene :=
    ⟨world [first, second] cell loser, here, ⟨.code (forks 2), []⟩, some 0, [0, 1],
      [⟨first.place, one⟩, ⟨second.place, two⟩]⟩
  have hsecond : Runs 0 s [] (scene free vacant first.activity second.activity) :=
    (hfirst.calls rfl nofun).spawns rfl rfl rfl (by decide +kernel) rfl
  let done : Activity := ⟨.code (.give .unit), []⟩
  let value : Delivery := .ok (.completed (write 1))
  let error : Delivery := .ok (.errored (write ()))
  have hvalue : Runs 0 s [.began 1 (.focus b []) y.run, .ended 1 value]
      (scene free vacant first.activity ⟨.code (y.reading value), []⟩) :=
    hsecond.races [_] rfl rfl |>.races [_] rfl rfl |>.races [_] rfl rfl |>.races [_] rfl rfl
      |>.races [_] rfl rfl
  have hwon : Runs 0 s (winning 1 0 y.wrap b y.run value)
      (scene ⟨some 1, 1⟩ vacant first.activity done) :=
    hvalue.races [_] rfl rfl |>.races [_] rfl rfl |>.races [_] rfl rfl
  have herror : Runs 0 s
      (winning 1 0 y.wrap b y.run value ++ [.began 0 (.focus a []) x.run, .ended 0 error])
      (scene ⟨some 1, 1⟩ vacant ⟨.code (x.reading error), []⟩ done) :=
    hwon.races [] rfl rfl |>.races [] rfl rfl |>.races [] rfl rfl |>.races [] rfl rfl
      |>.races [] rfl rfl
  have hlost : Runs 0 s (winning 1 0 y.wrap b y.run value ++ losing 0 0 a x.run error none)
      (scene ⟨some 1, 1⟩ ⟨1, .finished (some error), .opened⟩ done done) :=
    herror.races [] rfl rfl |>.races [] rfl rfl |>.races [] rfl rfl
  have hover : ∀ r ∈ [Racer.mk first.place done, Racer.mk second.place done], r.Over := by
    intro r hr
    obtain rfl | hr := List.mem_cons.1 hr
    · rfl
    · obtain rfl := List.mem_singleton.1 hr
      rfl
  refine ⟨fun l => start [a, b] 1 pairWrap l .guard, _, _, _, _, _, rfl, hlost, rfl, hover, ?_, ?_⟩
  · simp [winning, losing, error]
  · exact (race_settles (ε := Unit) (α := Nat) (β := Nat) (γ := Nat) rfl hlost).1 1 _ _ rfl

end Racing
end Effects
