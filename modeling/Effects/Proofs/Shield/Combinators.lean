import Effects.Proofs.Shield.Apart
import Effects.Race

/-!
The combinators lead from programs that are apart to such programs: what they start has connections
of its own.
-/

namespace Effects

open Routine.Apart

variable {c : ConnectionId} {own : FiberId → Prop} {ε δ α β γ κ : Type}

namespace Effect

abbrev Apart (c : ConnectionId) (own : FiberId → Prop) (e : Effect ε α) : Prop :=
  e.node.Apart c own

theorem ofExcept_apart [Datum ε] [Datum α] :
    (r : Except ε α) → (ofExcept r : Effect ε α).Apart c own
  | .ok _ => .pure _
  | .error _ => .raise _

theorem defer_apart {r : Routine (Effect ε α)} (h : r.Apart c own (Apart c own)) :
    (defer r).Apart c own :=
  .suspend (h _ fun _ he => .build he)

theorem delay_apart [Datum α] {r : Routine α} (h : r.Apart c own fun _ => True) :
    (delay r : Effect ε α).Apart c own :=
  defer_apart (h.bind fun _ _ => ret (.pure _))

theorem invoke_apart [Datum ε] [Datum α] {r : Routine (Except ε α)}
    (h : r.Apart c own fun _ => True) : (invoke r : Effect ε α).Apart c own :=
  defer_apart (h.bind fun r _ => ret (ofExcept_apart r))

theorem register_apart {r : LatchId → Routine (Option Code)}
    (h : ∀ l, (r l).Apart c own fun token => ∀ x, token = some x → x.Apart c own) :
    (register r : Effect ε α).Apart c own :=
  .async fun l => h l _ fun _ ht => .guard ht

theorem async_apart {r : LatchId → Routine Unit} (h : ∀ l, (r l).Apart c own fun _ => True) :
    (async r : Effect ε α).Apart c own :=
  register_apart fun l => (h l).bind fun _ _ => ret fun _ => by rintro ⟨⟩

theorem token_apart {token : Code} (h : token.Apart c own) :
    Routine.Apart c own (fun t => ∀ x, t = some x → x.Apart c own) (Pure.pure (some token)) :=
  ret fun _ hx => Option.some.inj hx ▸ h

theorem interrupting_apart {token : Code} (h : token.Apart c own) (l : LatchId) :
    (Routine.interrupting token l).Apart c own :=
  task ((call h).bind fun _ _ => deliver l _)

theorem cancelable_apart {r : LatchId → Routine Code}
    (h : ∀ l, (r l).Apart c own fun token => token.Apart c own) :
    (cancelable r : Effect ε α).Apart c own :=
  register_apart fun l => (h l).bind fun _ ht => token_apart (interrupting_apart ht l)

theorem never_apart : (never : Effect ε α).Apart c own :=
  register_apart fun l => token_apart (task (deliver l _))

theorem ofOutcome_apart [Datum ε] [Datum α] (o : Outcome ε α) : (ofOutcome o).Apart c own := by
  cases o with
  | completed a => exact .pure _
  | errored e => exact .raise _
  | canceled => exact async_apart fun l => deliver l _

theorem sleep_apart (d : Duration) : (sleep d : Effect ε Unit).Apart c own :=
  register_apart fun l =>
    (perform (.schedule d (task (deliver l _)))).bind fun _ _ =>
      token_apart (interrupting_apart (task (done (.plain rfl))) l)

theorem boundary_apart : (boundary : Effect ε Unit).Apart c own :=
  async_apart fun l => deliver l _

theorem mapRunning_apart [Datum α] [Datum β] {e : Effect ε α} {f : α → Routine β}
    (he : e.Apart c own) (hf : ∀ a, (f a).Apart c own fun _ => True) :
    (e.mapRunning f).Apart c own :=
  .map he fun _ => hf _ _ fun _ _ => .build (.pure _)

theorem map_apart [Datum α] [Datum β] {e : Effect ε α} (f : α → β) (he : e.Apart c own) :
    (e.map f).Apart c own :=
  mapRunning_apart he fun _ => ret trivial

theorem flatMap_apart [Datum α] {e : Effect ε α} {f : α → Effect ε β} (he : e.Apart c own)
    (hf : ∀ a, (f a).Apart c own) : (e.flatMap f).Apart c own :=
  .flatMap he fun _ => .build (hf _)

theorem followedBy_apart [Datum α] {e : Effect ε α} {next : Effect ε β} (he : e.Apart c own)
    (hn : next.Apart c own) : (e.followedBy next).Apart c own :=
  flatMap_apart he fun _ => hn

theorem handleErrorWith_apart [Datum ε] {e : Effect ε α} {f : ε → Effect δ α}
    (he : e.Apart c own) (hf : ∀ error, (f error).Apart c own) :
    (e.handleErrorWith f).Apart c own :=
  .handleErrorWith he fun _ => .build (hf _)

theorem mapError_apart [Datum ε] [Datum δ] {e : Effect ε α} (f : ε → δ) (he : e.Apart c own) :
    (e.mapError f).Apart c own :=
  handleErrorWith_apart he fun _ => .raise _

theorem loop_apart [Datum α] [Datum β] {body : α → Effect ε (α ⊕ β)} (seed : α)
    (h : ∀ a, (body a).Apart c own) : (loop body seed).Apart c own :=
  .loop _ fun _ => h _

theorem bracketCase_apart [Datum ε] [Datum α] {acquire : Effect ε α}
    {release : α → ExitCase ε → Effect ε Unit} {use : α → Effect ε β} (ha : acquire.Apart c own)
    (hr : ∀ a x, (release a x).Apart c own) (hu : ∀ a, (use a).Apart c own) :
    (acquire.bracketCase release use).Apart c own :=
  .bracket ha (fun _ => .build (hu _)) fun _ _ => .build (hr _ _)

theorem guaranteeCase_apart [Datum ε] {e : Effect ε α} {finalizer : ExitCase ε → Effect ε Unit}
    (he : e.Apart c own) (hf : ∀ x, (finalizer x).Apart c own) :
    (e.guaranteeCase finalizer).Apart c own :=
  bracketCase_apart (.pure _) (fun _ x => hf x) fun _ => he

theorem parMap₂_apart [Datum α] [Datum β] [Datum γ] {a : Effect ε α} {b : Effect ε β}
    (f : α → β → γ) (ha : a.Apart c own) (hb : b.Apart c own) : (parMap₂ a b f).Apart c own := by
  refine .parMap (by simp [ha, hb]) fun vs => ?_
  split
  · exact .build (.pure _)
  · exact .panic _

theorem parMap₃_apart [Datum α] [Datum β] [Datum γ] [Datum κ] {a : Effect ε α} {b : Effect ε β}
    {d : Effect ε γ} (f : α → β → γ → κ) (ha : a.Apart c own) (hb : b.Apart c own)
    (hd : d.Apart c own) : (parMap₃ a b d f).Apart c own := by
  refine .parMap (by simp [ha, hb, hd]) fun vs => ?_
  split
  · exact .build (.pure _)
  · exact .panic _

theorem parSequence_apart [Datum α] {branches : List (Effect ε α)}
    (h : ∀ e ∈ branches, e.Apart c own) : (parSequence branches).Apart c own := by
  cases branches with
  | nil => exact .pure _
  | cons e rest =>
    refine .parSequence fun n hn => ?_
    obtain ⟨e', he', rfl⟩ := List.mem_map.1 hn
    exact h e' he'

end Effect

namespace Fiber

/-- A fiber that is new is none of those with the connection. -/
theorem fresh_apart : FiberId.fresh.Apart c own fun f => ¬ own f :=
  reads (.plain rfl) fun _ hr => hr.2

theorem connection_apart {f : FiberId} (hf : ¬ own f) : f.connection.Apart c own fun d => d ≠ c :=
  reads (.plain rfl) fun _ hr => hr.2 hf

theorem complete_apart (f : FiberId) (exit : Delivery) :
    (f.complete exit).Apart c own fun _ => True := by
  have hopen : Routine.Apart c own (fun _ => True) (do
      let _ ← Routine.perform (.fiber f .openGate)) := done (.plain rfl)
  refine (perform (.plain rfl)).bind fun r _ => ?_
  cases r.toJoiner with
  | none => exact hopen
  | some joiner => exact (deliver joiner exit).bind fun _ _ => hopen

theorem spawn_apart {e : Effect ε α} (he : e.Apart c own) (x : ContextId) :
    (Fiber.spawn e x).Apart c own fun _ => True := by
  refine fresh_apart.bind fun f hf => (connection_apart hf).bind fun d hd => ?_
  have hown : (Run.mk x d).connection ≠ c := hd
  exact (Routine.Apart.spawn he hown (complete_apart f)).bind fun _ _ => ret trivial

theorem join_apart [Datum ε] [Datum α] (f : Fiber ε α) : f.join.Apart c own := by
  refine Effect.register_apart fun l => (ask rfl).bind fun heard _ => ?_
  have hnone : ∀ x : Code, none = some x → x.Apart c own := fun _ => by rintro ⟨⟩
  cases heard with
  | ended exit => exact (deliver l exit).bind fun _ _ => ret hnone
  | taken => exact (deliver l _).bind fun _ _ => ret hnone
  | waiting =>
    refine Effect.token_apart (task ((ask rfl).bind fun had _ => ?_))
    cases had with
    | true => exact deliver l _
    | false => exact ret trivial

theorem cancel_apart [Datum δ] (f : Fiber ε α) : (f.cancel : Effect δ Unit).Apart c own :=
  Effect.delay_apart ((ask rfl).bind fun d _ =>
    (Routine.Apart.cancel d).bind fun _ _ => done (.plain rfl))

end Fiber

theorem Effect.startOn_apart [Datum δ] {e : Effect ε α} (he : e.Apart c own) (x : ContextId) :
    (e.startOn x : Effect δ (Fiber ε α)).Apart c own :=
  delay_apart (Fiber.spawn_apart he x)

namespace Race

theorem stopped_apart (claim : CellId) (index : Nat) (fiber : FiberId) (callback : LatchId)
    (wrap : Except Value Value → Value) (exit : Delivery) :
    (stopped claim index fiber callback wrap exit).Apart c own fun _ => True := by
  refine (Group.claim_apart claim index).bind fun first _ => ?_
  cases first with
  | true => rcases exit with message | (v | e | _) <;> exact deliver callback _
  | false => exact Fiber.complete_apart fiber exit

theorem start_apart {nodes : List Node} (h : ∀ n ∈ nodes, n.Apart c own) (x : ContextId)
    (wrap : List FiberId → Nat → Except Value Value → Value) (callback : LatchId) :
    (start nodes x wrap callback).Apart c own fun token =>
      ∀ y, token = some y → y.Apart c own := by
  refine (ask rfl).bind fun claim _ => (collect fun _ _ => Fiber.fresh_apart).bind
    fun fibers hfibers => ?_
  refine bind (P := fun _ => True) (forEach fun racer hracer => ?_) fun _ _ =>
    Effect.token_apart (task ((forEach fun f _ => ?_).bind fun _ _ => deliver callback _))
  · obtain ⟨hnode, hfiber⟩ := List.of_mem_zip (List.fst_mem_of_mem_zipIdx hracer)
    refine (Fiber.connection_apart (hfibers _ hfiber)).bind fun d hd => ?_
    have hown : (Run.mk x d).connection ≠ c := hd
    exact spawn (h _ hnode) hown (stopped_apart claim _ _ callback _)
  · exact (ask rfl).bind fun d _ => cancel d

variable {a : Effect ε α} {b : Effect ε β} {d : Effect ε γ}

theorem pairEnd_apart (x : ContextId) (ha : a.Apart c own) (hb : b.Apart c own) :
    (pairEnd x a b).Apart c own :=
  Effect.register_apart (start_apart (by simp [ha, hb]) x pairWrap)

theorem tripleEnd_apart (x : ContextId) (ha : a.Apart c own) (hb : b.Apart c own)
    (hd : d.Apart c own) : (tripleEnd x a b d).Apart c own :=
  Effect.register_apart (start_apart (by simp [ha, hb, hd]) x tripleWrap)

end Race

section Races

open Effect

variable [Datum ε] [Datum α] [Datum β] [Datum γ] {a : Effect ε α} {b : Effect ε β}
  {d : Effect ε γ}

theorem racePair_apart (x : ContextId) (ha : a.Apart c own) (hb : b.Apart c own) :
    (racePair x a b).Apart c own := by
  refine flatMap_apart (Race.pairEnd_apart x ha hb) fun r => ?_
  rcases r with ⟨_ | _, _⟩ | ⟨_, _ | _⟩ <;> constructor

theorem race_apart (x : ContextId) (ha : a.Apart c own) (hb : b.Apart c own) :
    (race x a b).Apart c own := by
  refine flatMap_apart (Race.pairEnd_apart x ha hb) fun r => ?_
  rcases r with ⟨_, loser⟩ | ⟨loser, _⟩ <;>
    exact followedBy_apart loser.cancel_apart (ofExcept_apart _)

theorem raceTriple_apart (x : ContextId) (ha : a.Apart c own) (hb : b.Apart c own)
    (hd : d.Apart c own) : (raceTriple x a b d).Apart c own := by
  refine flatMap_apart (Race.tripleEnd_apart x ha hb hd) fun r => ?_
  rcases r with ⟨_ | _, _, _⟩ | ⟨_, _ | _, _⟩ | ⟨_, _, _ | _⟩ <;> constructor

theorem race₃_apart (x : ContextId) (ha : a.Apart c own) (hb : b.Apart c own)
    (hd : d.Apart c own) : (race₃ x a b d).Apart c own := by
  refine flatMap_apart (Race.tripleEnd_apart x ha hb hd) fun r => ?_
  rcases r with ⟨_, f, g⟩ | ⟨f, _, g⟩ | ⟨f, g, _⟩ <;>
    exact followedBy_apart (followedBy_apart f.cancel_apart g.cancel_apart) (ofExcept_apart _)

theorem Effect.timeout_apart (x : ContextId) (after : Duration) (ha : a.Apart c own) :
    (a.timeout x after).Apart c own := by
  refine flatMap_apart (race_apart x (mapError_apart _ ha) (sleep_apart after)) fun r => ?_
  rcases r with _ | _ <;> constructor

end Races

end Effects
