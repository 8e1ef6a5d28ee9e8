import Effects.Proofs.Join.Standing

/-!
The order in which a fiber comes to its end: its gate is opened only when the exit has been recorded
and, if somebody waited for it, handed over.

What holds after every turn as long as one joins, and one completes. Whoever comes for one of these
does it once.
-/

namespace Effects.Joining

open Service

variable {f : FiberId} {fl fl' : FiberFloor} {seen more : List (Sign Note)} {exit : Delivery}
  {issued : List Visit} {agent : Agent Deed Phase Answer}

/-- The exit has been put into the slot, or has been handed to the joiner. -/
def Recorded (seen : List (Sign Note)) (exit : Delivery) : Prop :=
  ∃ joiner, .noted (.completed exit joiner) ∈ seen ∧
    ∀ l, joiner = some l → .told l (told exit) ∈ seen

theorem Recorded.mono (hr : Recorded seen exit) : Recorded (seen ++ more) exit := by
  obtain ⟨joiner, hn, hl⟩ := hr
  exact ⟨joiner, List.mem_append_left _ hn, fun l hj => List.mem_append_left _ (hl l hj)⟩

structure Ordered (fl : FiberFloor) : Prop where
  opening : ∀ {i : Nat} {exit : Delivery},
    fl.agents[i]? = some (.at (.complete exit) (.inl .opening)) → Recorded fl.seen exit
  gates : ∀ {before rest : List (Sign Note)}, fl.seen = before ++ .noted .opened :: rest →
    ∃ exit, Recorded before exit

/-- What comes in a place is there already, or is among what is added. -/
theorem append_eq_cases {β : Type} {a b before rest : List β} {x : β}
    (h : a ++ b = before ++ x :: rest) :
    (∃ rest', a = before ++ x :: rest') ∨ ∃ before', before = a ++ before' ∧ b = before' ++ x :: rest := by
  obtain ⟨mid, hb, hmid⟩ | ⟨mid, hb, hmid⟩ := List.append_eq_append_iff.1 h
  · exact .inr ⟨mid, hb, hmid⟩
  · cases mid with
    | nil => exact .inr ⟨[], by simpa using hb.symm, by simpa using hmid.symm⟩
    | cons y mid =>
      obtain ⟨rfl, -⟩ := List.cons.inj hmid
      exact .inl ⟨mid, hb⟩

theorem Ordered.acts (hf : (account f).Inv fl) (ho : Ordered fl) {i : Nat} {d : Deed} {phase : Phase}
    (h : fl.agents[i]? = some (.at d (.inl phase))) :
    Ordered { fl with
      state := ((procedure f).step d phase fl.state).1
      agents := fl.agents.set i (.at d ((procedure f).step d phase fl.state).2.1)
      seen := fl.seen ++ added ((procedure f).note d phase fl.state)
        ((procedure f).step d phase fl.state).2.2.toList } where
  opening := by
    intro j exit hj
    obtain ⟨rfl, heq⟩ | ⟨-, hj⟩ := getElem?_set_cases hj
    · obtain ⟨rfl, hnext⟩ := Agent.at.inj heq
      have hsound := (hf.agents h).2
      cases phase with
      | first =>
        have hfirst := first_cases f (.complete exit) fl.state
        rw [← hnext] at hfirst
        generalize hn : (procedure f).note (.complete exit) .first fl.state = more at hfirst
        cases hfirst with
        | kept =>
          refine ⟨none, List.mem_append_right _ ?_, fun l hl => by cases hl⟩
          simp [added]
      | telling l x =>
        have hsound : Note.completed exit (some l) ∈ notes fl.seen ∧ x = told exit := hsound
        obtain ⟨hn, rfl⟩ := hsound
        refine ⟨some l, List.mem_append_left _ ((mem_notes _).1 hn), ?_⟩
        rintro l' hl'
        obtain rfl := Option.some.inj hl'
        exact List.mem_append_right _ (by simp [added, procedure])
      | opening => cases hnext
    · exact (ho.opening hj).mono
  gates := by
    intro before rest heq
    obtain ⟨rest', hseen⟩ | ⟨before', rfl, hnew⟩ := append_eq_cases heq
    · exact ho.gates hseen
    · have hm : .noted .opened ∈ added ((procedure f).note d phase fl.state)
          ((procedure f).step d phase fl.state).2.2.toList := by
        rw [hnew]
        simp
      have hnote : Note.opened ∈ (procedure f).note d phase fl.state := by
        simpa [added] using hm
      obtain ⟨exit, hr⟩ : ∃ exit, Recorded fl.seen exit := by
        cases phase with
        | telling l x => cases hnote
        | first => exact absurd rfl (mem_notes_first hnote).1
        | opening =>
          cases d with
          | complete exit => exact ⟨exit, ho.opening h⟩
          | listen | detach | await => exact (hf.agents h).2.elim
      exact ⟨exit, hr.mono⟩

theorem Ordered.agents {agents : List (Agent Deed Phase Answer)} {given : List Deed}
    (ho : Ordered fl) (hmore : ∀ sign ∈ more, sign ≠ .noted .opened)
    (ha : ∀ {i : Nat} {exit : Delivery}, agents[i]? = some (.at (.complete exit) (.inl .opening)) →
      fl.agents[i]? = some (.at (.complete exit) (.inl .opening))) :
    Ordered ⟨fl.state, agents, given, fl.seen ++ more⟩ where
  opening hi := (ho.opening (ha hi)).mono
  gates := by
    intro before rest heq
    obtain ⟨rest', hseen⟩ | ⟨before', -, hnew⟩ := append_eq_cases heq
    · exact ho.gates hseen
    · refine absurd rfl (hmore (.noted .opened) ?_)
      rw [hnew]
      simp

theorem Ordered.turn (hf : (account f).Inv fl) (ho : Ordered fl) (h : Turn (procedure f) fl fl') :
    Ordered fl' := by
  have hstill : ∀ {agents given}, (∀ {i : Nat} {exit : Delivery},
      agents[i]? = some (.at (.complete exit) (.inl .opening)) →
        fl.agents[i]? = some (.at (.complete exit) (.inl .opening))) →
      Ordered ⟨fl.state, agents, given, fl.seen⟩ := by
    intro agents given ha
    have hnew : Ordered ⟨fl.state, agents, given, fl.seen ++ []⟩ := ho.agents (by simp) ha
    rwa [List.append_nil] at hnew
  have hset : ∀ {i : Nat} {d : Deed} {j : Nat} {exit : Delivery},
      (fl.agents.set i (.at d (.inl .first)))[j]? = some (.at (.complete exit) (.inl .opening)) →
        fl.agents[j]? = some (.at (.complete exit) (.inl .opening)) := by
    intro i d j exit hj
    obtain ⟨-, heq⟩ | ⟨-, hj⟩ := getElem?_set_cases hj
    · cases (Agent.at.inj heq).2
    · exact hj
  cases h with
  | acts h => exact ho.acts hf h
  | asks | comes | runs =>
    refine hstill fun hi => ?_
    exact (getElem?_concat_cases hi).resolve_right (by simp [procedure])
  | opens h hg hfresh => exact ho.agents (by simp) hset
  | pushes => exact ho.agents (by simp) id
  | returns => exact hstill hset


/-- What somebody has come for and not yet done. -/
def coming : Agent Deed Phase Answer → List Visit
  | .idle | .at (.listen _) (.inl .first) => [.join]
  | .at (.complete exit) (.inl .first) => [.complete exit]
  | _ => []

/-- What all have come for has been done, or is yet to be. -/
def Issued (issued : List Visit) (fl : FiberFloor) : Prop :=
  ((notes fl.seen).flatMap Note.visits ++ fl.agents.flatMap coming).Perm issued

/-- Whose callback it is has listened, or is about to. -/
def Listens (fl : FiberFloor) : Prop :=
  ∀ (i : Nat) (l : LatchId), .opened i l ∈ fl.seen →
    l ∈ (notes fl.seen).flatMap Note.callbacks ∨
      fl.agents[i]? = some (.at (.listen l) (.inl .first))

theorem coming_step (d : Deed) (phase : Phase) (s : Fiber.State) :
    ((procedure f).note d phase s).flatMap Note.visits ++
      coming (.at d ((procedure f).step d phase s).2.1) = coming (.at d (.inl phase)) := by
  cases phase with
  | telling | opening => cases d <;> rfl
  | first =>
    have hfirst := first_cases f d s
    generalize (procedure f).note d .first s = notes,
      ((procedure f).step d .first s).2.1 = next at hfirst ⊢
    cases hfirst <;> rfl

theorem Issued.same (hi : Issued issued fl) {i : Nat} {agent' : Agent Deed Phase Answer}
    {more : List (Sign Note)} {given : List Deed} (h : fl.agents[i]? = some agent)
    (hc : coming agent' = coming agent) (hn : notes more = []) :
    Issued issued ⟨fl.state, fl.agents.set i agent', given, fl.seen ++ more⟩ := by
  obtain ⟨rest, hold, hnew⟩ := flatMap_set h agent' coming
  have hagents := (hnew.trans (by rw [hc])).trans hold.symm
  rw [Issued, notes_append, hn, List.append_nil]
  exact (hagents.append_left _).trans hi

/-- A turn of those who are there already. -/
theorem Issued.turn (hf : (account f).Inv fl) (hi : Issued issued fl)
    (h : Turn (procedure f) fl fl') (hlength : fl'.agents.length = fl.agents.length) :
    Issued issued fl' := by
  cases h with
  | @acts i d phase h =>
    obtain ⟨rest, hold, hnew⟩ := flatMap_set h
      (.at d ((procedure f).step d phase fl.state).2.1) coming
    have hown : ((procedure f).note d phase fl.state).flatMap Note.visits ++
        coming (.at d ((procedure f).step d phase fl.state).2.1) =
          coming (.at d (.inl phase)) ++ [] := by
      rw [coming_step, List.append_nil]
    have hmoved := perm_moved hi hold hnew hown
    rw [List.append_nil] at hmoved
    rw [Issued, notes_append, notes_added, List.flatMap_append]
    exact hmoved
  | @opens i l g d h hg hfresh =>
    cases g <;> cases hg
    exact hi.same h rfl rfl
  | pushes =>
    rw [Issued, notes_append, show notes [Sign.pushed _] = ([] : History) from rfl, List.append_nil]
    exact hi
  | @returns i d d' a h hu hr =>
    obtain ⟨⟨l, rfl⟩, -⟩ := hf.given d' hr
    have hnew : Issued issued ⟨fl.state, fl.agents.set i (.at (.detach l) (.inl .first)), fl.given,
        fl.seen ++ []⟩ := hi.same h (by cases d <;> rfl) rfl
    rwa [List.append_nil] at hnew
  | asks | comes | runs => simp at hlength

/-- The others stay as they are. -/
theorem getElem?_set_of_ne {β : Type} {xs : List β} {i j : Nat} {x y : β} (hx : xs[i]? = some x)
    (hy : xs[j]? = some y) (hne : x ≠ y) (z : β) : (xs.set i z)[j]? = some y := by
  have hij : i ≠ j := by
    rintro rfl
    exact hne (Option.some.inj (hx.symm.trans hy))
  rw [List.getElem?_set_ne hij, hy]

theorem Listens.joins (hl : Listens fl) (agent : Agent Deed Phase Answer) :
    Listens { fl with agents := fl.agents ++ [agent] } := by
  intro i l ho
  refine (hl _ _ ho).imp_right fun hi => ?_
  have hlt := (List.getElem?_eq_some_iff.1 hi).1
  rw [List.getElem?_append_left hlt, hi]

theorem Listens.turn (hl : Listens fl) (h : Turn (procedure f) fl fl') : Listens fl' := by
  cases h with
  | @acts i d phase h =>
    intro j l ho
    have ho := (List.mem_append.1 ho).resolve_right (opened_added _ _ _ _)
    rw [notes_append, notes_added]
    obtain hc | hj := hl _ _ ho
    · exact .inl (mem_concat hc)
    · by_cases hd : (Agent.at d (.inl phase) : Agent Deed Phase Answer) = .at (.listen l) (.inl .first)
      · obtain ⟨rfl, hphase⟩ := Agent.at.inj hd
        obtain rfl := Sum.inl.inj hphase
        left
        rw [List.flatMap_append]
        exact List.mem_append_right _ (mem_callbacks_listen f l fl.state)
      · exact .inr (getElem?_set_of_ne h hj hd _)
  | @opens i l g d h hg hfresh =>
    intro j l' ho
    have hnotes : notes (fl.seen ++ [.opened i l]) = notes fl.seen := by simp [notes]
    rw [hnotes]
    obtain ho | ho := List.mem_append.1 ho
    · refine (hl _ _ ho).imp_right fun hj => getElem?_set_of_ne h hj (fun heq => by cases heq) _
    · obtain ⟨rfl, rfl⟩ := Sign.opened.inj (List.mem_singleton.1 ho)
      cases g <;> cases hg
      exact .inr (List.getElem?_set_self (List.getElem?_eq_some_iff.1 h).1)
  | pushes =>
    intro j l ho
    rw [show notes (fl.seen ++ [Sign.pushed _]) = notes fl.seen by simp [notes]]
    exact hl _ _ (by simpa using ho)
  | returns h =>
    intro j l ho
    exact (hl _ _ ho).imp_right fun hj =>
      getElem?_set_of_ne h hj (fun heq => by cases (Agent.at.inj heq).2) _
  | asks | comes | runs => exact hl.joins _

theorem Issued.only (hi : Issued issued fl) (ho : (issued.map Visit.joins).Nodup) :
    Only (notes fl.seen) := by
  have hall := (hi.map Visit.joins).nodup_iff.2 ho
  rw [List.map_append] at hall
  exact (List.nodup_append.1 hall).1

/-- Who is taken out of the slot is so by a token. -/
def Takes (n : Note) (d : Deed) : Prop := (∃ l, n = .left l) ∧ ∃ l, d = .detach l

theorem takes_token {d : Deed} {phase : Phase} {s : Fiber.State} {n : Note}
    (hn : n ∈ (procedure f).note d phase s) (hex : ∃ d', Takes n d') :
    (account f).Token d ∧ Takes n d := by
  obtain ⟨-, ⟨l, rfl⟩, -⟩ := hex
  suffices hd : ∃ l', d = .detach l' from ⟨hd, ⟨l, rfl⟩, hd⟩
  cases phase with
  | telling => cases hn
  | opening => simp [procedure] at hn
  | first =>
    have hfirst := first_cases f d s
    generalize (procedure f).note d .first s = notes,
      ((procedure f).step d .first s).2.1 = next at hfirst hn
    cases hfirst with
    | left | late => exact ⟨_, rfl⟩
    | _ => simp at hn

structure Holds (f : FiberId) (issued : List Visit) (fl : FiberFloor) : Prop where
  inv : (account f).Inv fl
  ordered : Ordered fl
  issued : Issued issued fl
  listens : Listens fl
  taken : ∀ n ∈ notes fl.seen, (∃ d, Takes n d) → ∃ d ∈ fl.given, Takes n d

/-- A turn after which one has joined at most, and one completed. -/
theorem Holds.goes {issued' : List Visit} (hh : Holds f issued fl)
    (ho : (issued'.map Visit.joins).Nodup) (h : Turn (procedure f) fl fl')
    (hi : Issued issued' fl') : Holds f issued' fl' where
  inv := hh.inv.turn (keeps f) h (hi.only ho)
  ordered := hh.ordered.turn hh.inv h
  issued := hi
  listens := hh.listens.turn h
  taken := hh.inv.by_token (fun _ => takes_token) hh.taken h

theorem Holds.turn (hh : Holds f issued fl) (ho : (issued.map Visit.joins).Nodup)
    (h : Turn (procedure f) fl fl') (hlength : fl'.agents.length = fl.agents.length) :
    Holds f issued fl' :=
  hh.goes ho h (hh.issued.turn hh.inv h hlength)

theorem length_le_of_turn (h : Turn (procedure f) fl fl') :
    fl.agents.length ≤ fl'.agents.length := by
  cases h <;> simp

theorem length_le_of_turns (h : Turns (procedure f) fl fl') :
    fl.agents.length ≤ fl'.agents.length := by
  induction h with
  | refl => exact Nat.le_refl _
  | tail _ hturn ih => exact Nat.le_trans ih (length_le_of_turn hturn)

theorem Holds.turns (hh : Holds f issued fl) (ho : (issued.map Visit.joins).Nodup)
    (h : Turns (procedure f) fl fl') (hlength : fl'.agents.length = fl.agents.length) :
    Holds f issued fl' := by
  induction h with
  | refl => exact hh
  | tail hturns hturn ih =>
    have hle := length_le_of_turns hturns
    have hle' := length_le_of_turn hturn
    exact (ih (by omega)).turn ho hturn (by omega)

/-- One more has come. -/
theorem Holds.joins (hh : Holds f issued fl)
    (ho : ((issued ++ coming agent).map Visit.joins).Nodup)
    (h : Turn (procedure f) fl { fl with agents := fl.agents ++ [agent] }) :
    Holds f (issued ++ coming agent) { fl with agents := fl.agents ++ [agent] } := by
  refine hh.goes ho h ?_
  rw [Issued, List.flatMap_append, List.flatMap_singleton, ← List.append_assoc]
  exact hh.issued.append_right _

end Effects.Joining
