import Effects.Proofs.Suspend.Runs

/-!
What comes of a wait, and that it begins where a run suspends.
-/

namespace Effects

open Routine

namespace Suspension

variable {register : LatchId → Code} {c : ConnectionId} {l : LatchId} {s₀ s : Connection Code}
  {seen : List Sign} {t : Scene}

theorem Phase.At.of_waiting {phase : Phase}
    (h : phase.At register c l ⟨.code (Suspension.waiting c l), []⟩) : ∃ token, phase = .waiting token := by
  cases phase with
  | before =>
    rw [Phase.At, asking_eq] at h
    obtain h | h := h <;> cases h
  | registering =>
    obtain ⟨message, h⟩ | ⟨token, -, h⟩ | ⟨b, -, hfollowed, hb⟩ := h.of_registering
    · cases h
    · cases h
    · exact absurd (.inr (.inl rfl)) (not_own hfollowed hb)
  | late token =>
    obtain ⟨b, -, h⟩ := h
    simp [Activity.atop] at h
  | roused token => cases h
  | waiting token => exact ⟨token, rfl⟩
  | leaving token reply => cases h
  | finished exit =>
    cases exit with
    | none => obtain ⟨message, h | h⟩ := h <;> cases h
    | some exit => cases h

theorem Phase.At.of_give {phase : Phase} {exit : Exit}
    (h : phase.At register c l ⟨.code (.give (.outcome exit)), []⟩) : phase = .finished (some exit) := by
  cases phase with
  | before =>
    rw [Phase.At, asking_eq] at h
    obtain h | h := h <;> cases h
  | registering =>
    obtain ⟨message, h⟩ | ⟨token, -, h⟩ | ⟨b, -, hfollowed, hb⟩ := h.of_registering
    · cases h
    · cases h
    · exact absurd rfl (not_give hfollowed hb _)
  | late token =>
    obtain ⟨b, -, h⟩ := h
    simp [Activity.atop] at h
  | roused token => cases h
  | waiting token => cases h
  | leaving token reply => cases h
  | finished exit =>
    cases exit with
    | none => obtain ⟨message, h | h⟩ := h <;> cases h
    | some exit =>
      cases h
      rfl

theorem Phase.Facts.pushes_le {phase : Phase} {w : World} {owed : Prop}
    (h : phase.Facts l s₀ s w owed seen) : (pushes seen).length ≤ 1 := by
  cases phase with
  | before => simp [h.2.2]
  | registering => simp [h.2.2]
  | late token => simp [h.2.2.2]
  | roused token => simp [h.2.2.2.2]
  | waiting token => simp [h.2.2.2.2]
  | leaving token reply => simp [h.2.2]
  | finished exit =>
    cases exit with
    | none => exact h
    | some exit => exact h.1

/-- What comes of a wait, where `s₀` is the state of the connection before it. -/
structure Delivered (c : ConnectionId) (l : LatchId) (s₀ : Connection Code) (seen : List Sign)
    (t : Scene) : Prop where
  woken : ∀ r, .woken r ∈ seen → first seen = some r
  /-- It comes to the first delivery, unless the connection has been canceled before it begins. -/
  returned : ∀ exit, t.waiter = ⟨.code (.give (.outcome exit)), []⟩ →
    (exit = .canceled ∧ (t.world.connection c).isCanceled = true ∧ pushes seen = []) ∨
      ∃ reply : Reply, first seen = some (.ok reply) ∧ exit = reply.toExit
  pushed : (pushes seen).length ≤ 1
  /-- Each token runs at most as often as it is there. -/
  started : (starts seen).Subperm (pushes seen ++ s₀.tokens)
  popped : ∀ before after, .popped before after ∈ seen → after = before ∨
    ∃ token ∈ pushes seen, before = .active (token :: s₀.tokens) ∧ after = .active s₀.tokens
  /-- No cancellation is lost. -/
  awake : (t.world.connection c).isCanceled = true →
    (∀ p ∈ t.cancelers, ∃ r, p.2.control = .ended r) → t.waiter = ⟨.code (waiting c l), []⟩ →
      ∃ r, first seen = some r ∧ t.world.latches[l]? = some (.full r)

theorem not_owed {cancelers : List (Place × Activity)} (h : ∀ p ∈ cancelers, Canceling c s p.2)
    (hended : ∀ p ∈ cancelers, ∃ r, p.2.control = .ended r) : ¬ Owed l cancelers := by
  rintro ⟨⟨place, a⟩, hp, howes⟩
  obtain ⟨r, hr⟩ := hended _ hp
  cases h _ hp with
  | running b tokens failure hs hb => exact hb r hr
  | start | done | unwinding | ended => exact not_owes_nil _ howes

theorem Stands.delivered (h : Stands register c l s₀ s seen t) : Delivered c l s₀ seen t := by
  have hconn : t.world.connection c = s := by simp [World.connection, h.connection]
  obtain ⟨phase, hat, hf⟩ := h.waiter
  refine ⟨h.orderly.woken, fun exit hexit => ?_, hf.pushes_le, ?_, h.orderly.popped, ?_⟩
  · rw [hexit] at hat
    obtain rfl := hat.of_give
    obtain ⟨-, ⟨he, hs, hp⟩ | hfirst⟩ := hf
    · exact .inl ⟨he, by rw [hconn, hs]; rfl, hp⟩
    · exact .inr hfirst
  · exact (List.sublist_append_left _ _).subperm.trans h.orderly.tokens
  · intro hcanceled hended hwaiting
    rw [hwaiting] at hat
    obtain ⟨token, rfl⟩ := hat.of_waiting
    obtain ⟨-, -, hw, hl, -⟩ := hf
    have hs : s = .canceled := by
      rw [hconn] at hcanceled
      cases s <;> first | rfl | cases hcanceled
    obtain ⟨r, hr⟩ := Option.isSome_iff_exists.1
      ((hw hs).resolve_right (not_owed h.cancelers hended))
    exact ⟨r, hr, by rw [hl, hr]; rfl⟩

/-- A thread that takes no part in the wait does one of the steps that are allowed to others. -/
theorem Moves.of_act (t : Scene) (place : Place) {a : Activity}
    (hc : t.world.connections[c]? = some s)
    (h : ∀ op, a.op? = some op → Spares c l op ∧ op ≠ .connection c .cancel) :
    ∃ more, Moves register c l t more { t with world := (t.world.act place a).1 } := by
  rw [World.act_world]
  cases ho : a.op? with
  | none => exact ⟨[], .others _ rfl fun _ => id⟩
  | some op =>
    obtain ⟨hspares, hcancel⟩ := h op ho
    have hop : op ≠ .await l := by
      rintro rfl
      exact hspares rfl
    have hsame : (t.world.perform place op).1.connections[c]? = t.world.connections[c]? := by
      rw [hc]
      by_cases hself : ∃ op', op = .connection c op'
      · obtain ⟨op', rfl⟩ := hself
        cases op' with
        | isCanceled | isUncancelable | describe => exact hc
        | cancel => exact absurd rfl hcancel
        | _ => exact (hspares rfl).elim
      · exact World.perform_connection hc fun op' h' => hself ⟨op', h'⟩
    cases hd : t.world.delivered? l op with
    | none =>
      refine ⟨[], .others _ hsame fun latch hl => ?_⟩
      rw [Option.map_some, Option.getD_some, World.perform_latch hl hop, hd]
      rfl
    | some r =>
      cases hl : t.world.latches[l]? with
      | none => exact ⟨[], .others _ hsame fun latch hl' => by rw [hl] at hl'; cases hl'⟩
      | some latch =>
        refine ⟨[.delivered r], .delivers _ hsame r hl ?_⟩
        rw [World.perform_latch hl hop, hd]
        rfl

end Suspension

open Suspension

/-- Where a run suspends, the wait begins. -/
theorem World.act_async (w : World) (here : Place) (register : LatchId → Code)
    (next : List Cont) (run : Run) (below : List Frame)
    (h : w.isCurrent here.home run.context = true) :
    w.act here ⟨.drive (.focus (.async register) next) run, below⟩ =
      (w, (⟨.code (asking register run.connection), []⟩ : Activity).atop
        (.node next run :: below)) := by
  simp only [act, h, if_true]
  rfl

theorem Node.Cancelable.wait_delivers {register : LatchId → Code}
    (hn : (Node.async register).Cancelable) {c : ConnectionId} {l : LatchId} {w : World}
    {s₀ : Connection Code} (hc : w.connections[c]? = some s₀) {place : Place} {below : List Frame}
    {seen : List Sign} {t : Scene}
    (h : Runs register c l (asked register c w place below) seen t) :
    Delivered c l s₀ seen t := by
  obtain ⟨s, hstands⟩ := h.stands hn hc
  exact hstands.delivered

theorem Node.Cancelable.wait_delivers_of_canceled :
    ∃ (register : LatchId → Code) (w : World) (seen : List Sign) (t : Scene),
      Runs register 1 0 (asked register 1 w ⟨"runner", none⟩ []) seen t ∧
        t.waiter = ⟨.code (.give (.outcome .canceled)), []⟩ ∧ starts seen ≠ [] ∧
        Delivered 1 0 .new seen t := by
  let token : LatchId → Code := fun l => task l.interrupt
  let register : LatchId → Code := fun l => .guard (some (token l))
  have cancelable : (Node.async register).Cancelable := fun _ => .guard .interrupt
  let world (connection : Connection Code) (latches : Array (Latch (Except String Reply))) :
      World := { World.start with connections := #[.uncancelable, connection], latches := latches }
  let scene (connection : Connection Code) (latches : Array (Latch (Except String Reply)))
      (waiter : Code) (cancelers : List (Place × Activity)) : Scene :=
    ⟨world connection latches, ⟨"runner", none⟩, ⟨.code waiter, []⟩, [], cancelers⟩
  let start := asked register 1 (world .new #[]) ⟨"runner", none⟩ []
  let canceled : Except String Reply := .ok (.outcome .canceled)
  let late : Except String Reply := .ok (.outcome (.completed .null))
  let canceler (a : Activity) : List (Place × Activity) := [(⟨"canceler", none⟩, a)]
  have cancels : ∀ {w : World} {waiter : Activity} {a : Activity},
      (∀ op, a.op? = some op → Spares 1 0 op) → (w.act ⟨"canceler", none⟩ a).2.Returns 0 →
        Moves register 1 0 ⟨w, ⟨"runner", none⟩, waiter, [], canceler a⟩
          (shown w 1 0 a (started w 1 a))
          ⟨(w.act ⟨"canceler", none⟩ a).1, ⟨"runner", none⟩, waiter, [],
            canceler (w.act ⟨"canceler", none⟩ a).2⟩ :=
    fun hspares hreturns => @Moves.canceler register 1 0 _ [] [] _ _ rfl hspares hreturns
  have opens : Runs register 1 0 start [] (scene .new #[] (opening register 1) []) := by
    refine .move .start (.waiter (.inr rfl) rfl (fun op hop => ?_) nofun nofun)
    cases hop
    exact .inl fun _ => trivial
  have registered : Runs register 1 0 start []
      (scene .new #[.empty] (pushing 1 0 (token 0)) []) := by
    refine .move opens (.waiter (.inr rfl) rfl (fun op hop => ?_) (fun _ => rfl) nofun)
    cases hop
    exact .inl trivial
  have pushed : Runs register 1 0 start [.pushed (token 0)]
      (scene (.active [token 0]) #[.empty] (waiting 1 0) []) :=
    .move registered (.waiter (.inr rfl) rfl (fun _ _ => .inr (.inl ⟨token 0, rfl⟩)) nofun nofun)
  have told : Runs register 1 0 start [.pushed (token 0)]
      (scene (.active [token 0]) #[.empty] (waiting 1 0)
        (canceler ⟨.code (task (ConnectionId.cancel 1)), []⟩)) :=
    .move pushed (.joins _)
  have started : Runs register 1 0 start [.pushed (token 0), .started (token 0)]
      (scene .canceled #[.empty] (waiting 1 0) (canceler ⟨.code (token 0), [rest [] none]⟩)) :=
    .move told (cancels (fun op hop => by cases hop; exact fun _ => trivial) nofun)
  have delivered : Runs register 1 0 start
      [.pushed (token 0), .started (token 0), .delivered canceled]
      (scene .canceled #[.full canceled] (waiting 1 0)
        (canceler ⟨.code (.give .unit), [rest [] none]⟩)) :=
    .move started (cancels (fun op hop => by cases hop; exact trivial) nofun)
  have ignored : Runs register 1 0 start
      [.pushed (token 0), .started (token 0), .delivered canceled, .delivered late]
      (scene .canceled #[.full canceled] (waiting 1 0)
        (canceler ⟨.code (.give .unit), [rest [] none]⟩)) :=
    .move delivered (.delivers _ rfl late rfl rfl)
  have woken : Runs register 1 0 start
      [.pushed (token 0), .started (token 0), .delivered canceled, .delivered late,
        .woken canceled]
      (scene .canceled #[.drained] (leaving 1 .canceled)
        (canceler ⟨.code (.give .unit), [rest [] none]⟩)) :=
    .move ignored (.waiter (.inr rfl) rfl (fun _ _ => .inr (.inr (.inl rfl))) nofun nofun)
  have left : Runs register 1 0 start
      [.pushed (token 0), .started (token 0), .delivered canceled, .delivered late,
        .woken canceled, .popped .canceled .canceled]
      (scene .canceled #[.drained] (.give (.outcome .canceled))
        (canceler ⟨.code (.give .unit), [rest [] none]⟩)) :=
    .move woken (.waiter (.inr rfl) rfl (fun _ _ => .inr (.inr (.inr ⟨_, rfl⟩))) nofun nofun)
  exact ⟨register, _, _, _, left, rfl, nofun, cancelable.wait_delivers rfl left⟩

end Effects
