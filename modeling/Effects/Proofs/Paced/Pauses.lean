import Effects.Proofs.Suspend.Delivered
import Effects.Proofs.Yield.Running
import Effects.Proofs.Yield.Settles
import Effects.Schedule.Recurrence

/-!
The pauses between two runs. A pause begins with a look at the connection; where this is canceled
the pause ends at once, and else it ends with what it finds in its callback.

No pause is left to wait once its connection is canceled, whatever the order of the steps. One with
a delay is woken by its token, and one without calls itself back before it waits.
-/

namespace Effects

open Activity

variable {ε : Type} [Datum ε] {W : World → Prop} {Q : Trace → Except String (Exit × Run) → Prop}
  {c : ConnectionId} {l : LatchId} {run : Run} {t : Trace} {delay : Duration}

namespace Activity

theorem Comes.perform {op : Op} {next : Reply → Code} {fs : List Frame}
    (h : ∀ w here, W w → w.ready op = true →
      Comes W (fun t y => Q (⟨w, here, op⟩ :: t) y) (respond next fs (w.perform here op).2)) :
    Comes W Q ⟨.code (.perform op next), fs⟩ :=
  .step (.inr rfl) h

theorem silent_outcome (exit : Exit) (run : Run) :
    Silent ⟨.code (.give (.outcome exit)), [.node [] run]⟩ (yielding (.ok (exit, run))) where
  performs _ _ := rfl
  act _ _ _ := by cases exit <;> rfl
  able := ⟨.start, ⟨"", none⟩, trivial⟩
  not_yielding x := by cases x <;> simp [yielding]

theorem silent_returned (next : Reply → Code) (fs : List Frame) :
    Silent ⟨.code (.give .unit), .call next :: fs⟩ ⟨.code (next .unit), fs⟩ where
  performs _ _ := rfl
  act _ _ _ := rfl
  able := ⟨.start, ⟨"", none⟩, trivial⟩
  not_yielding x := by cases x <;> simp [yielding]

end Activity

namespace Schedule

/-- Some wait among these has found the end in its callback. -/
def Found (run : Run) (t : Trace) (y : Except String (Exit × Run)) : Prop :=
  ∃ o ∈ t, ∃ l r, o.op = .await l ∧ (o.world.latches[l]?).bind Latch.item? = some r ∧
    y = r.map fun reply => (reply.toExit, run)

theorem Found.cons {y : Except String (Exit × Run)} (h : Found run t y) (o : Operation) :
    Found run (o :: t) y := by
  obtain ⟨o', ho, h⟩ := h
  exact ⟨o', List.mem_cons_of_mem _ ho, h⟩

inductive Paused (run : Run) : Trace → Except String (Exit × Run) → Prop
  | canceled {w here} (h : w.isCanceled run.connection = true) :
      Paused run [⟨w, here, .connection run.connection .isCanceled⟩] (.ok (.canceled, run))
  | found {w here t y} (h : w.isCanceled run.connection = false) (hy : Found run t y) :
      Paused run (⟨w, here, .connection run.connection .isCanceled⟩ :: t) y

theorem comes_give (exit : Exit) (run : Run) :
    Comes W (fun t y => t = [] ∧ y = .ok (exit, run))
      ⟨.code (.give (.outcome exit)), [.node [] run]⟩ :=
  .silent (silent_outcome exit run) (.inl (List.cons_ne_nil _ _)) (.ended ⟨rfl, rfl⟩)

theorem comes_leaving (exit : Exit) (run : Run) : Comes W (fun _ y => y = .ok (exit, run))
    ⟨.code (Suspension.leaving c exit), [.node [] run]⟩ :=
  .perform fun _ _ _ _ => (comes_give exit run).mono fun _ _ h => h.2

theorem comes_wait {k : Exit → Code}
    (hk : ∀ exit, Comes W (fun _ y => y = .ok (exit, run)) ⟨.code (k exit), [.node [] run]⟩) :
    Comes W (Found run) ⟨.code (l.wait k), [.node [] run]⟩ := by
  refine .perform fun w here _ hready => ?_
  obtain ⟨r, hr⟩ : ∃ r, (w.latches[l]?).bind Latch.item? = some r := by
    cases hl : w.latches[l]? with
    | none => simp [World.ready, hl] at hready
    | some latch => simpa [World.ready, hl, Latch.isFull, Option.isSome_iff_exists] using hready
  have hfound : ∀ {t y}, y = r.map (fun reply => (reply.toExit, run)) →
      Found run (⟨w, here, .await l⟩ :: t) y := fun hy =>
    ⟨_, List.mem_cons_self .., l, r, rfl, hr, hy⟩
  simp only [World.perform, hr]
  cases r with
  | error message =>
    exact .silent (silent_panic message _) (.inr rfl)
      (.silent (silent_unwinding message run) (.inl (List.cons_ne_nil _ _)) (.ended (hfound rfl)))
  | ok reply => exact (hk reply.toExit).mono fun t y hy => hfound hy

/-- A token that takes its timer out and wakes the callback. -/
def rousing (seq : Nat) (l : LatchId) : Code :=
  Routine.interrupting (Routine.task (Routine.unschedule seq)) l

/-- Also if it has to run in place, the token comes to its end. -/
theorem comes_roused {seq : Nat} {next : Reply → Code} {fs : List Frame}
    (h : Comes W Q ⟨.code (next .unit), fs⟩) (hQ : ∀ o t y, Q t y → Q (o :: t) y) :
    Comes W Q ⟨.code (rousing seq l), .call next :: fs⟩ := by
  refine .perform fun _ _ _ _ => .perform fun _ _ _ _ => ?_
  refine .silent (silent_returned _ _) (.inl (List.cons_ne_nil _ _)) (.perform fun _ _ _ _ => ?_)
  refine .silent (silent_returned next fs) (.inl (List.cons_ne_nil _ _)) (h.mono fun t y hy => ?_)
  exact hQ _ _ _ (hQ _ _ _ (hQ _ _ _ hy))

theorem comes_pushing (seq : Nat) (run : Run) : Comes W (Found run)
    ⟨.code (Suspension.pushing c l (rousing seq l)), [.node [] run]⟩ := by
  have hwait : Comes W (Found run) ⟨.code (Suspension.waiting c l), [.node [] run]⟩ :=
    comes_wait fun exit => comes_leaving exit run
  refine .perform fun w here _ _ => ?_
  have hQ : ∀ o t y, Found run t y → Found run (o :: t) y := fun o _ _ h => h.cons o
  obtain hkept | hlate : (w.perform here (.connection c (.push (rousing seq l)))).2 = .reply .unit ∨
      (w.perform here (.connection c (.push (rousing seq l)))).2 =
        .inPlace (rousing seq l) .unit := by
    simp only [World.perform, World.onConnection]
    cases w.connections[c]?.getD .uncancelable with
    | uncancelable => exact .inl rfl
    | active => exact .inl rfl
    | canceled => exact .inr rfl
  · rw [hkept]
    exact hwait.mono fun t y hy => hQ _ _ _ hy
  · rw [hlate]
    exact (comes_roused hwait hQ).mono fun t y hy => hQ _ _ _ hy

omit [Datum ε] in
theorem comes_boundary (run : Run) {register : LatchId → Code}
    (h : (Effect.boundary : Effect ε Unit).node = .async register) :
    Comes W (Found run) ⟨.code (Suspension.opening register run.connection), [.node [] run]⟩ := by
  obtain rfl := Node.async.inj h
  refine .perform fun w _ _ _ => .perform fun _ _ _ _ => ?_
  have hwait : Comes W (Found run)
      ⟨.code (LatchId.wait w.latches.size fun exit => .give (.outcome exit)), [.node [] run]⟩ :=
    comes_wait fun exit => (comes_give exit run).mono fun _ _ h => h.2
  exact hwait.mono fun _ _ hy => (hy.cons _).cons _

omit [Datum ε] in
theorem comes_sleep (run : Run) {register : LatchId → Code}
    (h : (Effect.sleep delay : Effect ε Unit).node = .async register) :
    Comes W (Found run) ⟨.code (Suspension.opening register run.connection), [.node [] run]⟩ := by
  obtain rfl := Node.async.inj h
  refine .perform fun w _ _ _ => .perform fun w' here _ _ => ?_
  obtain ⟨seq, hseq⟩ : ∃ seq, (w'.perform here (.schedule delay
      (Routine.task (LatchId.succeed w.latches.size .null)))).2 = .reply (.id seq) := ⟨_, rfl⟩
  have hpush : Comes W (Found run) ⟨.code (Suspension.pushing run.connection w.latches.size
      (rousing seq w.latches.size)), [.node [] run]⟩ := comes_pushing seq run
  exact hseq ▸ hpush.mono fun _ _ hy => (hy.cons _).cons _

theorem perform_isCanceled (w : World) (here : Place) (c : ConnectionId) :
    (w.perform here (.connection c .isCanceled)).2 = .reply (.flag (w.isCanceled c)) := by
  simp only [World.perform, World.onConnection, World.replying, World.isCanceled]
  cases w.connections[c]? <;> rfl

omit [Datum ε] in
/-- Whatever the worlds, a pause comes to its end. -/
theorem comes_pause (delay : Duration) (run : Run) : Comes W (Paused run)
    ⟨.drive (.focus (pause delay : Effect ε Unit).node []) run, []⟩ := by
  obtain ⟨register, hnode, hopened⟩ : ∃ register,
      (pause delay : Effect ε Unit).node = .async register ∧ Comes W (Found run)
        ⟨.code (Suspension.opening register run.connection), [.node [] run]⟩ := by
    rw [pause]
    split
    · exact ⟨_, rfl, comes_boundary (ε := ε) run rfl⟩
    · exact ⟨_, rfl, comes_sleep (ε := ε) run rfl⟩
  rw [hnode]
  have hasked : Silent ⟨.drive (.focus (.async register) []) run, []⟩
      ⟨.code (Suspension.asking register run.connection), [.node [] run]⟩ :=
    silent_call fun _ => rfl
  refine .silent hasked (.inr rfl) ?_
  rw [Suspension.asking_eq]
  refine .perform fun w here _ _ => ?_
  rw [perform_isCanceled, respond]
  cases hc : w.isCanceled run.connection with
  | true =>
    refine (comes_give .canceled run).mono fun t y hy => ?_
    obtain ⟨rfl, rfl⟩ := hy
    exact .canceled hc
  | false => exact hopened.mono fun _ _ hy => .found hc hy

omit [Datum ε] in
theorem paused_of_yields {y : Except String (Exit × Run)}
    (h : (pause delay : Effect ε Unit).node.Yields run t y) : Paused run t y := by
  obtain ⟨n, hn⟩ := h
  exact (comes_pause delay run).reached hn

theorem Paused.of_canceled {y : Except String (Exit × Run)} (h : Paused run t y)
    (ht : ∀ o ∈ t, o.world.isCanceled run.connection = true) : y = .ok (.canceled, run) := by
  cases h with
  | canceled => rfl
  | found hlooked => cases hlooked.symm.trans (ht _ (List.mem_cons_self ..))

/-- Where the connection is canceled all the time, nothing comes after a pause. -/
theorem not_completed_of_canceled {run' : Run}
    (h : (pause delay : Effect ε Unit).Yields run t (.ok (.completed (), run'))) :
    ¬ ∀ o ∈ t, o.world.isCanceled run.connection = true := by
  intro ht
  obtain ⟨y, hy, hread⟩ := h
  rw [(paused_of_yields hy).of_canceled ht] at hread
  cases hread

omit [Datum ε] in
theorem pause_settles (delay : Duration) : (pause delay : Effect ε Unit).Settles W c :=
  fun run _ => (comes_pause delay run).settles

/-- A pause that begins under a canceled connection leads to nothing more. -/
theorem pause_ends (delay : Duration) : (pause delay : Effect ε Unit).Ends
    (fun w => w.isCanceled c = true) c fun x => ∀ u run, x ≠ .ok (.completed u, run) := by
  intro run hc
  have hall : Comes (fun _ => True) (Paused run)
      ⟨.drive (.focus (pause delay : Effect ε Unit).node []) run, []⟩ := comes_pause delay run
  refine (hall.restrict fun _ _ => trivial).mono fun t y hy u run' hx => ?_
  rw [hy.1.of_canceled fun o ho => hc ▸ hy.2 o ho] at hx
  cases hx

/-- Somebody else has put an error or a panic into the callback of a pause. -/
def Disturbed (t : Trace) : Prop :=
  ∃ o ∈ t, ∃ l r, o.op = .await l ∧ (o.world.latches[l]?).bind Latch.item? = some r ∧
    ∀ reply, r = .ok reply → ∃ e, reply.toExit = .errored e

/-- A pause that nothing comes after has been canceled. -/
theorem canceled_of_passes {β : Type} {y : Upshot ε Unit} {x : Upshot ε β}
    (h : (pause delay : Effect ε Unit).Yields run t y) (hpasses : y.Passes x) :
    (∃ run', x = .ok (.canceled, run')) ∨ Disturbed t := by
  obtain ⟨z, hz, rfl⟩ := h
  cases paused_of_yields hz with
  | canceled hlooked =>
    cases hpasses
    exact .inl ⟨run, rfl⟩
  | found hlooked hfound =>
    obtain ⟨o, ho, l, r, hop, hr, rfl⟩ := hfound
    obtain message | reply := r
    · exact .inr ⟨o, List.mem_cons_of_mem _ ho, l, _, hop, hr, nofun⟩
    · cases hexit : reply.toExit with
      | completed v =>
        rw [Except.map, hexit] at hpasses
        cases hpasses
      | errored e =>
        refine .inr ⟨o, List.mem_cons_of_mem _ ho, l, _, hop, hr, fun reply' hreply => ⟨e, ?_⟩⟩
        obtain rfl := Except.ok.inj hreply
        exact hexit
      | canceled =>
        rw [Except.map, hexit] at hpasses
        cases hpasses
        exact .inl ⟨run, rfl⟩


end Schedule

section Woken

open Suspension

variable {register : LatchId → Code} {w : World} {s₀ : Connection Code} {place : Place}
  {below : List Frame} {seen more : List Sign} {t u : Scene}
  {latch : Latch (Except String Reply)} {a : Activity}

namespace Latch

/-- Something has been or can be put in, and nothing has been taken out. -/
def Untaken (latch : Latch (Except String Reply)) : Prop := latch = .empty ∨ latch.isFull = true

theorem isFull_set (h : latch.Untaken) (r : Except String Reply) :
    (latch.set r).1.isFull = true := by
  obtain rfl | h := h
  · rfl
  · rwa [set_fst_of_isFull h]

end Latch

namespace Suspension

/-- The callback is called before the wait. -/
def prompt (l : LatchId) : Code := l.succeed .null fun _ => .guard none

def lingering (l : LatchId) : Code := l.wait fun exit => .give (.outcome exit)

def calling (l : LatchId) : Code := l.succeed .null fun _ => lingering l

/-- The callback is there, and nothing has been taken out of it. -/
def Holds (l : LatchId) (P : Latch (Except String Reply) → Prop) (w : World) : Prop :=
  ∃ latch, w.latches[l]? = some latch ∧ P latch

/-- Where a thread is that calls itself back. -/
inductive Prompt (c : ConnectionId) (l : LatchId) (w : World) : Activity → Prop
  | asking : Prompt c l w ⟨.code (asking prompt c), []⟩
  | opening : Prompt c l w ⟨.code (opening prompt c), []⟩
  | calling (h : Holds l Latch.Untaken w) : Prompt c l w ⟨.code (calling l), []⟩
  | lingering (h : Holds l (fun latch => latch.isFull = true) w) :
      Prompt c l w ⟨.code (lingering l), []⟩
  | gone (exit : Exit) : Prompt c l w ⟨.code (.give (.outcome exit)), []⟩

/-- What others do leaves the callback as it is, or puts something in. -/
theorem Prompt.others {w' : World} (h : Prompt c l w a)
    (hw : ∀ P : Latch (Except String Reply) → Prop, (∀ latch r, P latch → P (latch.set r).1) →
      Holds l P w → Holds l P w') : Prompt c l w' a := by
  cases h with
  | asking => exact .asking
  | opening => exact .opening
  | calling h => exact .calling (hw _ (fun _ r h => .inr (Latch.isFull_set h r)) h)
  | lingering h => exact .lingering (hw _ (fun _ r h => Latch.isFull_set (.inr h) r) h)
  | gone exit => exact .gone exit

theorem Holds.perform {P : Latch (Except String Reply) → Prop}
    (hset : ∀ latch r, P latch → P (latch.set r).1) (h : Holds l P w) (here : Place) {op : Op}
    (hop : op ≠ .await l) : Holds l P (w.perform here op).1 := by
  obtain ⟨latch, hl, hP⟩ := h
  refine ⟨_, World.perform_latch hl hop, ?_⟩
  cases w.delivered? l op with
  | none => exact hP
  | some r => exact hset latch r hP

theorem Prompt.act (h : Prompt c l w a) (hs : a.stack ≠ [] ∨ a.control.settles = false)
    (hown : ∀ op, a.op? = some op → Spares c l op ∨ Own c l a)
    (hfresh : a = ⟨.code (Suspension.opening prompt c), []⟩ → w.latches.size = l) :
    Prompt c l (w.act place a).1 (w.act place a).2 := by
  cases h with
  | asking =>
    have hnext : (w.act place ⟨.code (Suspension.asking prompt c), []⟩).2 =
        Activity.respond (fun r => if r.toFlag then .give (.outcome .canceled)
          else Suspension.opening prompt c) [] (w.perform place (.connection c .isCanceled)).2 := by
      rw [asking_eq]
      rfl
    rw [hnext, Schedule.perform_isCanceled]
    cases hc : w.isCanceled c with
    | true => exact .gone .canceled
    | false => exact .opening
  | opening =>
    obtain rfl := hfresh rfl
    exact .calling ⟨.empty, Array.getElem?_push_size .., .inl rfl⟩
  | calling h =>
    obtain ⟨latch, hl, hP⟩ := h
    exact .lingering ⟨_, (World.settle_latch hl l _).trans (by rw [if_pos rfl]),
      Latch.isFull_set hP _⟩
  | lingering h =>
    obtain hspares | ⟨token, h⟩ | h | ⟨exit, h⟩ := hown (.await l) rfl
    · exact absurd rfl hspares
    · cases h
    · have hleaves := congrFun (Code.perform.inj (Control.code.inj (Activity.mk.inj h).1)).2
        (.caught (.ok .unit))
      cases hleaves
    · cases h
  | gone exit => simp [Control.settles] at hs

theorem Prompt.move (h : Prompt c l t.world t.waiter) (hm : Moves prompt c l t more u) :
    Prompt c l u.world u.waiter := by
  cases hm with
  | waiter hs hact hown hfresh _ =>
    rw [World.act_atop _ _ _ _ hs] at hact
    obtain ⟨rfl, ha⟩ := Prod.mk.inj hact
    obtain rfl := Activity.atop_inj.1 ha
    exact h.act hs hown hfresh
  | @canceler _ _ place a _ hspares _ =>
    refine h.others fun P hset hP => ?_
    rw [World.act_world]
    cases ho : a.op? with
    | none => exact hP
    | some op =>
      refine hP.perform hset place fun hawait => ?_
      subst hawait
      exact hspares _ ho rfl
  | joins => exact h
  | others w _ hl => exact h.others fun _ _ ⟨latch, hlatch, hP⟩ => ⟨latch, hl latch hlatch, hP⟩
  | delivers w _ r hl hw =>
    refine h.others fun _ hset ⟨latch, hlatch, hP⟩ => ⟨_, hw, ?_⟩
    obtain rfl := Option.some.inj (hl.symm.trans hlatch)
    exact hset _ r hP

theorem prompt_of_runs (h : Runs prompt c l (asked prompt c w place below) seen t) :
    Prompt c l t.world t.waiter := by
  induction h with
  | start => exact .asking
  | move _ hm ih => exact ih.move hm

theorem Prompt.ready (h : Prompt c l w ⟨.code (Suspension.lingering l), []⟩) :
    w.ready (.await l) = true := by
  generalize ha : (⟨.code (Suspension.lingering l), []⟩ : Activity) = a at h
  cases h with
  | lingering h =>
    obtain ⟨latch, hl, hfull⟩ := h
    simp [World.ready, hl, hfull]
  | asking =>
    rw [asking_eq] at ha
    cases ha
  | _ => cases ha

end Suspension

namespace Schedule

omit [Datum ε] in
/-- A pause with a delay is woken by the cancellation. -/
theorem sleep_wakes (hd : delay ≠ .zero)
    (h : (pause delay : Effect ε Unit).node = .async register) (hc : w.connections[c]? = some s₀)
    (hruns : Suspension.Runs register c l (Suspension.asked register c w place below) seen t)
    (hcanceled : (t.world.connection c).isCanceled = true)
    (hended : ∀ p ∈ t.cancelers, ∃ r, p.2.control = .ended r)
    (hwaits : t.waiter = ⟨.code (waiting c l), []⟩) : t.world.ready (.await l) = true := by
  have hguards : ∀ l, (register l).Guards l := by
    have hsleep := Effect.sleep_cancelable (ε := ε) delay
    have hpause : (pause delay : Effect ε Unit) = .sleep delay := if_neg hd
    rwa [← hpause, h] at hsleep
  obtain ⟨s, hstands⟩ := hruns.stands hguards hc
  obtain ⟨r, -, hl⟩ := hstands.delivered.awake hcanceled hended hwaits
  simp [World.ready, hl, Latch.isFull, Latch.item?]

omit [Datum ε] in
/-- A pause without one has not to be woken at all. -/
theorem boundary_ready (h : (pause .zero : Effect ε Unit).node = .async register)
    (hruns : Suspension.Runs register c l (Suspension.asked register c w place below) seen t)
    (hwaits : t.waiter = ⟨.code (lingering l), []⟩) : t.world.ready (.await l) = true := by
  have hpause : (pause .zero : Effect ε Unit).node = .async prompt := rfl
  obtain rfl := Node.async.inj (hpause.symm.trans h)
  have hprompt := prompt_of_runs hruns
  rw [hwaits] at hprompt
  exact hprompt.ready

end Schedule

end Woken
end Effects
