import Effects.Proofs.Join.Asks

/-!
What becomes of a fiber that is joined once and completes once.
-/

namespace Effects.Joining

open Service

/-- How far it has come. -/
inductive Stage where
  | running
  | joined (l : LatchId)
  | left (l : LatchId)
  /-- The exit is in the slot, and nobody is there or that one has left. -/
  | kept (gone : Option LatchId) (exit : Delivery)
  | handed (l : LatchId) (exit : Delivery)
  | heard (l : LatchId) (exit : Delivery)

inductive Follows : Stage → Note → Stage → Prop
  | joined (l : LatchId) : Follows .running (.joined l) (.joined l)
  | left (l : LatchId) : Follows (.joined l) (.left l) (.left l)
  | kept (exit : Delivery) : Follows .running (.completed exit none) (.kept none exit)
  | handed (l : LatchId) (exit : Delivery) :
      Follows (.joined l) (.completed exit (some l)) (.handed l exit)
  | unheard (l : LatchId) (exit : Delivery) :
      Follows (.left l) (.completed exit none) (.kept (some l) exit)
  | heard (l : LatchId) (exit : Delivery) :
      Follows (.kept none exit) (.heard l exit) (.heard l exit)
  | opened (st : Stage) : Follows st .opened st
  | passed (st : Stage) (gate : Gate) : Follows st (.passed gate) st

abbrev History := List Note

inductive Course : History → Stage → Prop
  | new : Course [] .running
  | then {h : History} {st st' : Stage} {n : Note} (before : Course h st) (hn : Follows st n st') :
      Course (h ++ [n]) st'

namespace Note

def callbacks : Note → List LatchId
  | .joined l | .heard l _ | .missed l => [l]
  | _ => []

/-- Whom the exit goes to. -/
def hands : Note → List (LatchId × Delivery)
  | .heard l exit | .completed exit (some l) => [(l, exit)]
  | _ => []

def leaves : Note → List LatchId
  | .left l => [l]
  | _ => []

def exits : Note → List Delivery
  | .completed exit _ => [exit]
  | _ => []

/-- The calls that have to be made for it. -/
def dues : Note → List Telling
  | .heard l exit | .completed exit (some l) => [(l, told exit)]
  | .missed l | .left l => [(l, interrupted)]
  | _ => []

/-- What has been done with that, if somebody came for it. -/
def visits : Note → List Visit
  | .joined _ | .heard _ _ | .missed _ => [.join]
  | .completed exit _ => [.complete exit]
  | _ => []

end Note

namespace Stage

def slot : Stage → FiberSlot Delivery LatchId
  | .running | .left _ => .running none
  | .joined l => .running (some l)
  | .kept _ exit => .finished (some exit)
  | .handed _ _ | .heard _ _ => .finished none

def callbacks : Stage → List LatchId
  | .running => []
  | .joined l | .left l | .handed l _ | .heard l _ => [l]
  | .kept gone _ => gone.toList

def hands : Stage → List (LatchId × Delivery)
  | .handed l exit | .heard l exit => [(l, exit)]
  | _ => []

def leaves : Stage → List LatchId
  | .left l => [l]
  | .kept gone _ => gone.toList
  | _ => []

def exits : Stage → List Delivery
  | .running | .joined _ | .left _ => []
  | .kept _ exit | .handed _ exit | .heard _ exit => [exit]

/-- Who leaves is told so, and who gets the exit is told that. -/
def dues (st : Stage) : List Telling :=
  (st.leaves.map fun l => (l, interrupted)) ++ st.hands.map fun x => (x.1, told x.2)

def visits : Stage → List Visit
  | .running => []
  | .joined _ | .left _ => [.join]
  | .kept gone exit => (gone.toList.map fun _ => .join) ++ [.complete exit]
  | .handed _ exit => [.join, .complete exit]
  | .heard _ exit => [.complete exit, .join]

end Stage

def Visit.joins : Visit → Bool
  | .join => true
  | _ => false

/-- There is one joiner at most, and one end. -/
def Only (h : History) : Prop := ((h.flatMap Note.visits).map Visit.joins).Nodup

variable {h more : History} {st st' : Stage} {s : Fiber.State} {d : Deed}

theorem Only.of_append (ho : Only (h ++ more)) : Only h := by
  rw [Only, List.flatMap_append, List.map_append] at ho
  exact (List.nodup_append.1 ho).1

namespace Course

/-- What is added up along the way. -/
theorem flatMap_eq {β : Type} {φ : Note → List β} {ψ : Stage → List β} (hnew : ψ .running = [])
    (hstep : ∀ {st n st'}, Follows st n st' → ψ st' = ψ st ++ φ n) (hc : Course h st) :
    h.flatMap φ = ψ st := by
  induction hc with
  | new => exact hnew.symm
  | «then» _ hn ih => rw [List.flatMap_append, ih, List.flatMap_singleton, hstep hn]

theorem callbacks_eq (hc : Course h st) : h.flatMap Note.callbacks = st.callbacks :=
  flatMap_eq rfl (fun hn => by cases hn <;> simp [Stage.callbacks, Note.callbacks]) hc

theorem hands_eq (hc : Course h st) : h.flatMap Note.hands = st.hands :=
  flatMap_eq rfl (fun hn => by cases hn <;> simp [Stage.hands, Note.hands]) hc

theorem leaves_eq (hc : Course h st) : h.flatMap Note.leaves = st.leaves :=
  flatMap_eq rfl (fun hn => by cases hn <;> simp [Stage.leaves, Note.leaves]) hc

theorem exits_eq (hc : Course h st) : h.flatMap Note.exits = st.exits :=
  flatMap_eq rfl (fun hn => by cases hn <;> simp [Stage.exits, Note.exits]) hc

theorem dues_eq (hc : Course h st) : h.flatMap Note.dues = st.dues :=
  flatMap_eq rfl (fun hn => by
    cases hn <;> simp [Stage.dues, Stage.leaves, Stage.hands, Note.dues]) hc

theorem visits_eq (hc : Course h st) : h.flatMap Note.visits = st.visits :=
  flatMap_eq rfl (fun hn => by cases hn <;> simp [Stage.visits, Note.visits]) hc

/-- Nobody has joined before. -/
theorem of_joins {n : Note} (hc : Course h st) (ho : Only (h ++ [n])) (hn : n.visits = [.join]) :
    st = .running ∨ ∃ exit, st = .kept none exit := by
  rw [Only, List.flatMap_append, hc.visits_eq, List.flatMap_singleton, hn] at ho
  cases st with
  | running => exact .inl rfl
  | kept gone exit =>
    cases gone with
    | none => exact .inr ⟨exit, rfl⟩
    | some l => simp [Stage.visits, Visit.joins] at ho
  | joined | left | handed | heard => simp [Stage.visits, Visit.joins] at ho

/-- It has not completed before. -/
theorem of_completes {n : Note} {exit : Delivery} (hc : Course h st) (ho : Only (h ++ [n]))
    (hn : n.visits = [.complete exit]) :
    st = .running ∨ (∃ l, st = .joined l) ∨ ∃ l, st = .left l := by
  rw [Only, List.flatMap_append, hc.visits_eq, List.flatMap_singleton, hn] at ho
  cases st with
  | running => exact .inl rfl
  | joined l => exact .inr (.inl ⟨l, rfl⟩)
  | left l => exact .inr (.inr ⟨l, rfl⟩)
  | kept gone exit => cases gone <;> simp [Stage.visits, Visit.joins] at ho
  | handed | heard => simp [Stage.visits, Visit.joins] at ho

theorem listens (hc : Course h st) (hs : s.slot = st.slot) {l : LatchId}
    (ho : Only (h ++ (FiberOp.listen l).notes s)) : ∃ st',
      Course (h ++ (FiberOp.listen l).notes s) st' ∧ (s.slot.listen l).1 = st'.slot := by
  obtain ⟨n, hn, hv⟩ : ∃ n, (FiberOp.listen l).notes s = [n] ∧ n.visits = [.join] := by
    simp only [FiberOp.notes]
    split <;> exact ⟨_, rfl, rfl⟩
  obtain rfl | ⟨exit, rfl⟩ := hc.of_joins (hn ▸ ho) hv
  · simp only [FiberOp.notes, hs]
    exact ⟨_, hc.then (.joined l), rfl⟩
  · simp only [FiberOp.notes, hs]
    exact ⟨_, hc.then (.heard l exit), rfl⟩

theorem detaches (hc : Course h st) (hs : s.slot = st.slot) :
    ∃ st', Course (h ++ FiberOp.detach.notes s) st' ∧ s.slot.detach.1 = st'.slot := by
  simp only [FiberOp.notes, hs]
  cases st with
  | joined l => exact ⟨_, hc.then (.left l), rfl⟩
  | running | left | kept | handed | heard =>
    simp only [Stage.slot, List.append_nil]
    exact ⟨_, hc, rfl⟩

theorem completes (hc : Course h st) (hs : s.slot = st.slot) {exit : Delivery}
    (ho : Only (h ++ (FiberOp.complete exit).notes s)) : ∃ st',
      Course (h ++ (FiberOp.complete exit).notes s) st' ∧ (s.slot.complete exit).1 = st'.slot := by
  obtain rfl | ⟨l, rfl⟩ | ⟨l, rfl⟩ := hc.of_completes ho rfl
  · simp only [FiberOp.notes, hs]
    exact ⟨_, hc.then (.kept exit), rfl⟩
  · simp only [FiberOp.notes, hs]
    exact ⟨_, hc.then (.handed l exit), rfl⟩
  · simp only [FiberOp.notes, hs]
    exact ⟨_, hc.then (.unheard l exit), rfl⟩

/-- Whoever is there is the one who joined. -/
theorem joiner_eq (hc : Course h st) {l l' : LatchId} (hl : st.slot = .running (some l))
    (hl' : l' ∈ h.flatMap Note.callbacks) : l' = l := by
  rw [hc.callbacks_eq] at hl'
  cases st with
  | joined l'' =>
    obtain rfl : l'' = l := Option.some.inj (FiberSlot.running.inj hl)
    exact List.mem_singleton.1 hl'
  | running => cases hl'
  | left | kept | handed | heard => cases hl

theorem dues_callbacks (hc : Course h st) {call : Telling} (hd : call ∈ h.flatMap Note.dues) :
    call.1 ∈ h.flatMap Note.callbacks := by
  rw [hc.callbacks_eq]
  rw [hc.dues_eq, Stage.dues, List.mem_append, List.mem_map, List.mem_map] at hd
  obtain ⟨l, hl, rfl⟩ | ⟨x, hx, rfl⟩ := hd
  · cases st with
    | left | kept => exact hl
    | _ => cases hl
  · cases st with
    | handed | heard =>
      obtain rfl := List.mem_singleton.1 hx
      exact List.mem_singleton_self _
    | _ => cases hx

theorem dues_nodup (hc : Course h st) : ((h.flatMap Note.dues).map (·.1)).Nodup := by
  rw [hc.dues_eq]
  cases st with
  | kept gone exit => cases gone <;> simp [Stage.dues, Stage.leaves, Stage.hands]
  | _ => simp [Stage.dues, Stage.leaves, Stage.hands]

end Course
end Effects.Joining
