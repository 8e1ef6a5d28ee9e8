import Effects.Proofs.Paced.Drivers

/-!
What becomes of repeating and retrying when the connection is canceled: one more run starts at most,
and no pause outlasts the cancellation.
-/

namespace Effects

namespace Relay

variable {c : ConnectionId} {hosts : Hosts} {ts us : List Turn} {s u u' : Relay} {t t' : Trace}

/-- The run is canceled between two turns. -/
theorem turns_canceled (h : turns c hosts ts s = (t, u))
    (h' : turns c hosts us (u.canceled c) = (t', u')) :
    turns c hosts (ts ++ .cancel :: us) s = (t ++ t', u') :=
  turns_append h (by rw [turns, turn, h']; rfl)

end Relay

namespace Schedule

variable {ε δ α ζ κ σ τ ο ρ β γ : Type}

/-- What a driver makes of a cancellation. -/
structure Heeds [Datum δ] [Datum α] [Datum κ] [Datum β] [Datum γ] (e : Effect δ γ)
    (v : Paced.Drive δ α ζ κ σ β γ) : Prop where
  /-- However far it has come, the runs that it has started can be told. -/
  course : ∀ {run t}, e.Begins run t → ∃ starts, v.Course run t starts
  /-- From when on the connection is canceled, one run starts at most. -/
  once : ∀ {run t starts j}, v.Course run t starts →
    (∀ o ∈ t.drop j, o.world.isCanceled run.connection = true) →
      (starts.filter (j ≤ ·)).length ≤ 1
  /-- So it is when it is canceled between two turns, among the threads of a world. -/
  interrupted : ∀ {hosts ts us w here run t u t' u'},
    Relay.turns run.connection hosts ts ⟨w, here, ⟨.drive (.focus e.node []) run, []⟩, []⟩ =
      (t, u) →
    Relay.turns run.connection hosts us (u.canceled run.connection) = (t', u') →
    (∀ o ∈ t', o.world.isCanceled run.connection = true) →
      ∃ starts, v.Course run (t ++ t') starts ∧ (starts.filter (t.length ≤ ·)).length ≤ 1
  /-- It ends canceled, unless a run of the action or a step of the schedule has ended it before. -/
  ending : ∀ {run t x}, e.Yields run t x → v.Ending run t x
  happens : ∀ {run t x}, e.Happens run t x → v.Ending run t x

section Drivers

variable [Datum δ] [Datum α] [Datum κ] [Datum β] [Datum γ] {e : Effect δ γ}
  {v : Paced.Drive δ α ζ κ σ β γ}

theorem heeds_of (hcourse : ∀ {run t}, e.Begins run t → ∃ starts, v.Course run t starts)
    (hending : ∀ {run t x}, e.Yields run t x → v.Ending run t x)
    (hv : ∀ {run t d state run₀}, v.enters run t d state run₀ → run₀.connection = run.connection) :
    Heeds e v where
  course := hcourse
  once h ht := h.starts_once hv ht
  interrupted {hosts ts us w here run t u t' u'} h h' ht := by
    obtain ⟨starts, hstarts⟩ := hcourse (Effect.turns_begin (Relay.turns_canceled h h'))
    refine ⟨starts, hstarts, hstarts.starts_once hv fun o ho => ht o ?_⟩
    rwa [List.drop_left] at ho
  ending := hending
  happens h := hending h.yields

end Drivers

section Recurrence

variable [Datum ε] [Datum δ] [Datum α] [Datum σ] [Datum τ] [Datum ο] [Datum ρ]

theorem repeat_heeds (make : Nat → Effect ε α) (s : Schedule ε α σ ο) :
    Heeds (Schedule.repeat make s) (repeats make s) :=
  heeds_of course_of_repeat ending_of_repeat fun h => h.2.connection

theorem attempts_heed (make : Nat → Effect ε α) (r : Schedule ε ε τ ρ)
    (given : GivingUp ε ρ → Effect δ α) :
    Heeds ((attempts make r).flatMap (answers given)) (retries make r given) := by
  refine heeds_of course_of_attempts ending_of_attempts fun h => ?_
  obtain ⟨w, here, t', -, -, hinitial⟩ := h
  exact hinitial.connection

theorem retry_eq (make : Nat → Effect ε α) (r : Schedule ε ε τ ρ) :
    retry make r = (attempts make r).flatMap (answers exhausted) :=
  congrArg (Effect.flatMap _) (funext fun x => by cases x <;> rfl)

theorem retryOrElse_eq (make : Nat → Effect ε α) (r : Schedule ε ε τ ρ)
    (fallback : ε → Option ρ → Effect ε α) : retryOrElse make r fallback =
      (attempts make r).flatMap (answers fun g => fallback g.error g.output) :=
  congrArg (Effect.flatMap _) (funext fun x => by cases x <;> rfl)

/-- What repeating and retrying make of a cancellation, under schedules of whatever delays. -/
structure Heedful (make : Nat → Effect ε α) (s : Schedule ε α σ ο) (r : Schedule ε ε τ ρ) :
    Prop where
  repeats : Heeds (Schedule.repeat make s) (Schedule.repeats make s)
  retries : Heeds (retry make r) (Schedule.retries make r exhausted)
  falls_back : ∀ fallback, Heeds (retryOrElse make r fallback)
    (Schedule.retries make r fun g => fallback g.error g.output)
  /-- They come to their end if the runs and the steps of the schedule do. -/
  repeat_ceases : ∀ {c}, (∀ k, (make k).Ceases c) → s.initial.Ceases c →
    (∀ value state, (s.update value state).Ceases c) → (Schedule.repeat make s).Ceases c
  retry_ceases : ∀ {c}, (∀ k, (make k).Ceases c) → r.initial.Ceases c →
    (∀ error state, (r.update error state).Ceases c) → (retry make r).Ceases c
  retryOrElse_ceases : ∀ {c fallback}, (∀ k, (make k).Ceases c) → r.initial.Ceases c →
    (∀ error state, (r.update error state).Ceases c) →
      (∀ error output, (fallback error output).Ceases c) → (retryOrElse make r fallback).Ceases c
  /-- Nor is a pause left to wait, whatever the order of the steps. -/
  sleep_wakes : ∀ {delay register c l w s₀ place below seen t}, delay ≠ .zero →
    (pause delay : Effect ε Unit).node = .async register → w.connections[c]? = some s₀ →
    Suspension.Runs register c l (Suspension.asked register c w place below) seen t →
    (t.world.connection c).isCanceled = true → (∀ p ∈ t.cancelers, ∃ r, p.2.control = .ended r) →
    t.waiter = ⟨.code (Suspension.waiting c l), []⟩ → t.world.ready (.await l) = true
  boundary_ready : ∀ {register c l w place below seen t},
    (pause .zero : Effect ε Unit).node = .async register →
    Suspension.Runs register c l (Suspension.asked register c w place below) seen t →
    t.waiter = ⟨.code (Suspension.lingering l), []⟩ → t.world.ready (.await l) = true

/-- Once the connection is canceled, one more run starts at most, and then a pause ends the whole as
canceled, if nothing has ended it before. -/
theorem cancellation_heeded (make : Nat → Effect ε α) (s : Schedule ε α σ ο)
    (r : Schedule ε ε τ ρ) : Heedful make s r where
  repeats := repeat_heeds make s
  retries := retry_eq make r ▸ attempts_heed make r exhausted
  falls_back fallback := retryOrElse_eq make r fallback ▸ attempts_heed make r _
  repeat_ceases := repeat_ceases
  retry_ceases hmake hinitial hupdate := by
    rw [retry_eq]
    exact attempts_cease hmake hinitial hupdate fun g =>
      Effect.defer_now_settles fun _ => Effect.raise_settles _
  retryOrElse_ceases hmake hinitial hupdate hfallback := by
    rw [retryOrElse_eq]
    exact attempts_cease hmake hinitial hupdate fun g => hfallback g.error g.output
  sleep_wakes := Schedule.sleep_wakes
  boundary_ready := Schedule.boundary_ready

/-- The run is canceled after the look of a pause without delay: one more follows, and the next
pause ends it. -/
example :
    let make : Nat → Effect Unit Unit := fun k => .delay (Routine.log (write k))
    let s : Schedule Unit Unit Unit Unit :=
      { initial := .pure (), update := fun _ _ => .pure (.now ()), extract := fun _ _ => () }
    let w : World := { World.start with connections := #[.uncancelable, .new] }
    let start : Relay :=
      ⟨w, ⟨"caller", none⟩, ⟨.drive (.focus (Schedule.repeat make s).node []) ⟨.inline, 1⟩, []⟩, []⟩
    let turns : List Turn := List.replicate 17 .own ++ .cancel :: List.replicate 40 .own
    let u := (Relay.turns 1 (fun _ _ => "worker") turns start).2
    u.activity = ⟨.ended (.ok (.ended .canceled ⟨.inline, 1⟩)), []⟩ ∧
      u.world.log = [write 2, write 1] := by
  constructor <;> cbv

end Recurrence

end Schedule
end Effects
