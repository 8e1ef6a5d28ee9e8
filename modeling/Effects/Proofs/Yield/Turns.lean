import Effects.Proofs.Shield.Turns
import Effects.Proofs.Yield.Parts

/-!
A run among the threads of a world performs the operations that its computation yields, and ends as
this does.
-/

namespace Effects

/-- What a machine that has ended is answered for. -/
def resultOf : Except String (Exit × Run) → Except String Reply
  | .ok (exit, run) => .ok (.ended exit run)
  | .error message => .error message

namespace Frame

/-- At the bottom of these frames, if there are any, a machine waits. -/
def Based (fs : List Frame) : Prop := fs = [] ∨ ∃ above f, fs = above ++ [f] ∧ f.isCode = false

end Frame

open Activity

/-- At the bottom is a machine, or there was one. -/
inductive Activity.Based : Activity → Prop
  | machine (m : Machine) (run : Run) : Based ⟨.drive m run, []⟩
  | frame (control : Control) (above : List Frame) (f : Frame) (h : f.isCode = false) :
      Based ⟨control, above ++ [f]⟩
  | yielding (x : Except String (Exit × Run)) : Based (.yielding x)

variable {a b : Activity} {w : World} {here : Place} {x : Except String (Exit × Run)}

theorem Onto.based {next : List Cont} {below : List Frame} (h : Onto next below a b) : a.Based := by
  cases h with
  | machine m run => exact .machine m run
  | frame control above f hf => exact .frame control above f hf
  | ended env exit run => exact .yielding (.ok (exit, run))
  | panicked message => exact .yielding (.error message)

namespace Activity.Based

theorem onto (h : a.Based) : ∃ b, Onto [] [] a b := by
  cases h with
  | machine m run => exact ⟨_, .machine m run⟩
  | frame control above f hf => exact ⟨_, .frame control above f hf⟩
  | yielding x =>
    obtain message | ⟨exit, run⟩ := x
    · exact ⟨_, .panicked message⟩
    · exact ⟨_, .ended ⟨fun _ => true, fun _ => false⟩ exit run⟩

theorem act (h : a.Based) (ha : Onto.Open a) (hable : a.Able w here) :
    (w.act here a).2.Based := by
  obtain ⟨b, hb⟩ := h.onto
  exact ((hb.act ha w here).2.2 hable).based

theorem open_or (h : a.Based) : Onto.Open a ∨ ∃ x, a = .yielding x := by
  obtain ⟨b, hb⟩ := h.onto
  exact hb.open_or

theorem frames (h : a.Based) : Frame.Based a.stack := by
  cases h with
  | machine => exact .inl rfl
  | frame control above f hf => exact .inr ⟨above, f, rfl, hf⟩
  | yielding x => cases x <;> exact .inl rfl

theorem of_frames {fs : List Frame} (h : Frame.Based fs) :
    Based ⟨.returning (resultOf x), fs⟩ := by
  obtain rfl | ⟨above, f, rfl, hf⟩ := h
  · have hx : (⟨.returning (resultOf x), []⟩ : Activity) = .yielding x := by
      obtain message | ⟨exit, run⟩ := x <;> rfl
    rw [hx]
    exact .yielding x
  · exact .frame _ above f hf

end Activity.Based

theorem Activity.performs_eq (a : Activity) (w : World) (here : Place) :
    a.performs w here = a.op?.toList.map fun op => ⟨w, here, op⟩ := by
  obtain ⟨_ | c | _ | _, stack⟩ := a
  case code => cases c <;> rfl
  all_goals rfl

/-- Still has to be handed to the one who waits. -/
def Control.handed : Control → Control
  | .ended r => .returning r
  | other => other

namespace Relay

/-- As one thread that does it all. -/
def whole (s : Relay) : Activity := ⟨s.activity.control.handed, s.frames⟩

structure Based (s : Relay) : Prop where
  proper : s.activity.Proper
  activity : s.activity.Based ∨ ∃ x, s.activity = ⟨.ended (resultOf x), []⟩
  left : ∀ p ∈ s.left, Frame.Based p.2

def performed (s : Relay) : Turn → Trace
  | .own => if s.ready then s.activity.performs s.world s.place else []
  | _ => []

variable {hosts : Hosts} {s : Relay}

theorem whole_of_ne {left : List (Place × List Frame)} (ha : ∀ r, a.control ≠ .ended r) :
    (Relay.mk w here a left).whole = a.atop (left.flatMap Prod.snd) := by
  obtain ⟨control, stack⟩ := a
  cases control with
  | ended r => exact absurd rfl (ha r)
  | _ => rfl

/-- The next step leaves the whole as it is, until the run is over. -/
structure Kept (hosts : Hosts) (s : Relay) : Prop where
  based : (s.step hosts).Based
  world : (s.step hosts).world = s.world
  whole : (s.step hosts).whole = s.whole
  silent : s.activity.op? = none
  nears : s.Over ∨ (s.step hosts).pace < s.pace

/-- The next step is the step of the whole. -/
structure Moved (hosts : Hosts) (s : Relay) : Prop where
  based : (s.step hosts).Based
  act : ((s.step hosts).world, (s.step hosts).whole) = s.world.act s.place s.whole
  control : s.whole.control = s.activity.control
  able : s.whole.Able s.world s.place
  unended : Onto.Open s.whole

theorem kept_of (hbased : (s.step hosts).Based) (h : s.Handed hosts)
    (hwhole : (s.step hosts).whole = s.whole) (hop : s.activity.op? = none) : s.Kept hosts :=
  ⟨hbased, h.world, hwhole, hop, h.pace⟩

/-- A step of the machine that the run is at, or of what this machine has called. -/
theorem moved_of_open (h : s.Based) (ha : Onto.Open s.activity) (hb : s.activity.Based)
    (hable : s.activity.Able s.world s.place) : s.Moved hosts := by
  obtain ⟨w, here, a, left⟩ := s
  have hacts : a.Acts w here := by
    obtain ⟨_ | c | _ | _, stack⟩ := a <;> first | exact hable | trivial
  have hne : ∀ r, a.control ≠ .ended r := by
    intro r hr
    simp [Able, hr] at hable
  have hgone : ∀ r, (w.act here a).2.control ≠ .ended r := fun r =>
    World.act_ne_ended w here ha r (hne r)
  have hwhole : (Relay.mk w here a left).whole = a.atop (left.flatMap Prod.snd) := whole_of_ne hne
  have hatop : w.act here (a.atop (left.flatMap Prod.snd)) = _ := World.act_atop w here a _ ha
  refine ⟨?_, ?_, by rw [hwhole]; rfl, by rw [hwhole]; exact hable, ?_⟩
  · rw [step_of_acts hacts]
    exact ⟨World.proper_act w here h.proper, .inl (hb.act ha hable), h.left⟩
  · rw [step_of_acts hacts, whole_of_ne hgone, hwhole, hatop]
  · rw [hwhole]
    exact ha.imp_left fun hs => by simp [Activity.atop, hs]

/-- The control goes to another thread, or back, or the step is one of the whole. -/
theorem Based.step_cases (h : s.Based) (hready : s.ready = true) : s.Kept hosts ∨ s.Moved hosts := by
  obtain ⟨w, here, a, left⟩ := s
  obtain ha | ⟨x, rfl⟩ := h.activity
  · obtain hopen | ⟨x, rfl⟩ := ha.open_or
    · by_cases hable : a.Able w here
      · exact .inr (moved_of_open h hopen ha hable)
      · obtain ⟨control, stack⟩ := a
        cases control with
        | drive m run =>
          have hc : w.isCurrent here.home run.context = false := by simpa [Able] using hable
          refine .inl (kept_of ?_ (handed_of_hop hc) ?_ rfl) <;> rw [step_hop hc]
          · exact ⟨proper_of_ne (by simp), .inl (.machine m run),
              List.forall_mem_cons.2 ⟨ha.frames, h.left⟩⟩
          · simp [whole, Relay.frames]
        | code c =>
          cases c with
          | perform op next => exact absurd hready hable
          | _ => exact absurd trivial hable
        | unwinding message => exact absurd trivial hable
        | ended r =>
          obtain rfl : stack = [] := h.proper r rfl
          simp [Onto.Open, Control.settles] at hopen
    · have hstep : Relay.step hosts ⟨w, here, .yielding x, left⟩ =
          ⟨w, here, ⟨.ended (resultOf x), []⟩, left⟩ := by
        obtain message | ⟨exit, run⟩ := x <;> rfl
      have hbased : Relay.Based ⟨w, here, ⟨.ended (resultOf x), []⟩, left⟩ :=
        ⟨fun r _ => rfl, .inr ⟨x, rfl⟩, h.left⟩
      rw [← hstep] at hbased
      obtain message | ⟨exit, run⟩ := x
      · exact .inl (kept_of hbased (handed_of_answering (.error message)) rfl rfl)
      · exact .inl (kept_of hbased (handed_of_answering (.ok (.reply (.ended exit run)))) rfl rfl)
  · refine .inl (kept_of ?_ (handed_of_ended (resultOf x)) ?_ rfl)
    · cases left with
      | nil => exact h
      | cons p left =>
        obtain ⟨hp, hleft⟩ := List.forall_mem_cons.1 h.left
        exact ⟨proper_returning _ _, .inl (.of_frames hp), hleft⟩
    · cases left with
      | nil => rfl
      | cons p left => obtain message | ⟨exit, run⟩ := x <;> rfl

theorem Kept.performs (h : s.Kept hosts) : s.activity.performs s.world s.place = [] := by
  rw [performs_eq, h.silent]
  rfl

theorem Moved.performs (h : s.Moved hosts) :
    s.activity.performs s.world s.place = s.whole.performs s.world s.place := by
  unfold Activity.performs
  rw [h.control]

theorem step_whole (h : s.Based) (hready : s.ready = true) : (s.step hosts).Based ∧
    ∃ n, Reaches n s.whole (s.activity.performs s.world s.place) (s.step hosts).whole := by
  obtain hkept | hmoved : s.Kept hosts ∨ s.Moved hosts := h.step_cases hready
  · rw [hkept.performs, hkept.whole]
    exact ⟨hkept.based, 0, .stay _⟩
  · have hstep : Reaches 1 s.whole (s.whole.performs s.world s.place ++ []) _ :=
      .act hmoved.able (.stay _)
    rw [List.append_nil, ← hmoved.act] at hstep
    exact ⟨hmoved.based, 1, hmoved.performs ▸ hstep⟩

variable {c : ConnectionId} {node : Node} {run : Run}

theorem turn_whole (h : s.Based) (turn : Turn) : (s.turn c hosts turn).Based ∧
    ∃ n, Reaches n s.whole (s.performed turn) (s.turn c hosts turn).whole := by
  cases turn with
  | own =>
    simp only [Relay.turn, performed]
    split
    · rename_i hready
      exact step_whole h hready
    · exact ⟨h, 0, .stay _⟩
  | thread t =>
    simp only [Relay.turn, performed]
    split
    · exact ⟨⟨h.proper, h.activity, h.left⟩, 0, .stay _⟩
    · exact ⟨h, 0, .stay _⟩
  | passing | cancel => exact ⟨⟨h.proper, h.activity, h.left⟩, 0, .stay _⟩

/-- The operations that the run performs in these turns, and where it is then. -/
def turns (c : ConnectionId) (hosts : Hosts) : List Turn → Relay → Trace × Relay
  | [], s => ([], s)
  | turn :: rest, s =>
      (s.performed turn ++ (turns c hosts rest (s.turn c hosts turn)).1,
        (turns c hosts rest (s.turn c hosts turn)).2)

theorem turns_append {ts us : List Turn} {u u' : Relay} {t t' : Trace}
    (h : turns c hosts ts s = (t, u)) (h' : turns c hosts us u = (t', u')) :
    turns c hosts (ts ++ us) s = (t ++ t', u') := by
  induction ts generalizing s t with
  | nil =>
    obtain ⟨rfl, rfl⟩ := Prod.mk.inj h
    exact h'
  | cons turn ts ih =>
    obtain ⟨rfl, hu⟩ := Prod.mk.inj h
    rw [List.cons_append, turns, ih (Prod.ext rfl hu), List.append_assoc]

theorem turns_whole (h : s.Based) (ts : List Turn) :
    ∃ n, Reaches n s.whole (turns c hosts ts s).1 (turns c hosts ts s).2.whole := by
  induction ts generalizing s with
  | nil => exact ⟨0, .stay _⟩
  | cons turn ts ih =>
    obtain ⟨hbased, m, hm⟩ : (s.turn c hosts turn).Based ∧ _ := turn_whole h turn
    obtain ⟨n, hn⟩ := ih hbased
    exact ⟨m + n, hm.trans hn⟩

/-- Wherever its hops lead, and whatever the others do meanwhile. -/
theorem turns_yield {ts : List Turn} {t : Trace} {u : Relay}
    (h : turns c hosts ts ⟨w, here, ⟨.drive (.focus node []) run, []⟩, []⟩ = (t, u))
    (hover : u.activity = ⟨.ended (resultOf x), []⟩) (hleft : u.left = []) :
    node.Yields run t x := by
  have hstart : Relay.Based ⟨w, here, ⟨.drive (.focus node []) run, []⟩, []⟩ :=
    ⟨proper_of_ne (by simp), .inl (.machine _ run), by simp⟩
  obtain ⟨n, hn⟩ : ∃ n, Reaches n _ (turns c hosts ts _).1 (turns c hosts ts _).2.whole :=
    turns_whole hstart ts
  have hend : u.whole = .yielding x := by
    rw [whole, Relay.frames, hover, hleft]
    obtain message | ⟨exit, run⟩ := x <;> rfl
  rw [h, hend] at hn
  exact ⟨n, hn⟩

end Relay

namespace Effect

variable {ε α : Type} [Datum ε] [Datum α] {run : Run} {t : Trace} {x : Upshot ε α}

/-- There is a run of the effect, among the threads of a world, that performs these operations and
then ends like this. -/
def Happens (e : Effect ε α) (run : Run) (t : Trace) (x : Upshot ε α) : Prop :=
  ∃ c hosts ts w here u y,
    Relay.turns c hosts ts ⟨w, here, ⟨.drive (.focus e.node []) run, []⟩, []⟩ = (t, u) ∧
      u.activity = ⟨.ended (resultOf y), []⟩ ∧ u.left = [] ∧ .of y = x

theorem Happens.yields {e : Effect ε α} (h : e.Happens run t x) : e.Yields run t x := by
  obtain ⟨c, hosts, ts, w, here, u, y, hturns, hover, hleft, rfl⟩ := h
  exact ⟨y, Relay.turns_yield hturns hover hleft, rfl⟩

end Effect
end Effects
