import Effects.Proofs.Race.Stage

/-!
What those leave to a racer who only listen to its fiber.
-/

namespace Effects.Racing

variable {x : Lane} {w w' : World} {seen more : List Sign} {a : Activity} {phase : Phase}
  {l : LatchId} {f : FiberId} {gone : List Delivery} {s s' : Fiber.State} {cell? : Option CellId}
  {fibers : List FiberId} {op : Op}

/-- What one who listens takes out. -/
def found : FiberSlot Delivery LatchId → List Delivery
  | .finished (some exit) => [exit]
  | _ => []

/-- What is done to a fiber by those who do not end it, where `more` is seen of it. -/
inductive Visit (l : LatchId) (f : FiberId) (more : List Sign) (s : Fiber.State) :
    Fiber.State → Prop
  | passed (h : taken f more = []) : Visit l f more s s
  | listened (callback : LatchId) (hl : callback ≠ l) (h : taken f more = found s.slot) :
      Visit l f more s { s with slot := (s.slot.listen callback).1 }
  | detached (h : taken f more = []) : Visit l f more s { s with slot := s.slot.detach.1 }

theorem Visit.connection (h : Visit l f more s s') : s'.connection = s.connection := by
  cases h <;> rfl

theorem Visit.gate (h : Visit l f more s s') : s'.gate = s.gate := by
  cases h <;> rfl

theorem Vacant.visit (hv : Vacant l gone s) (h : Visit l f more s s') :
    Vacant l (gone ++ taken f more) s' := by
  obtain ⟨hgate, rfl, joiner, hslot, hjoiner⟩ := hv
  cases h with
  | passed h => exact ⟨hgate, h, joiner, hslot, hjoiner⟩
  | listened callback hl h =>
    refine ⟨hgate, ?_, some callback, ?_, fun hc => hl (Option.some.inj hc)⟩
    · rw [h, hslot]
      rfl
    · simp [hslot, FiberSlot.listen]
  | detached h =>
    refine ⟨hgate, h, none, ?_, nofun⟩
    simp [hslot, FiberSlot.detach]

theorem Holding.visit {exit : Delivery} {joiner : Option LatchId}
    (hh : Holding exit gone s.slot joiner) (h : Visit l f more s s') :
    Holding exit (gone ++ taken f more) s'.slot joiner := by
  have hempty : s.slot = .finished none →
      s'.slot = .finished none ∧ taken f more = [] := by
    intro hslot
    cases h with
    | passed h => exact ⟨hslot, h⟩
    | listened callback hl h => simp [hslot, FiberSlot.listen, h, found]
    | detached h => simp [hslot, FiberSlot.detach, h]
  cases joiner with
  | some joiner =>
    obtain ⟨hslot, rfl⟩ := hh
    exact hempty hslot
  | none =>
    obtain ⟨hslot, rfl⟩ | ⟨hslot, rfl⟩ := hh
    · cases h with
      | passed h => exact .inl ⟨hslot, h⟩
      | listened callback hl h =>
        refine .inr ⟨?_, ?_⟩
        · simp [hslot, FiberSlot.listen]
        · rw [h, hslot]
          rfl
      | detached h =>
        refine .inl ⟨?_, h⟩
        simp [hslot, FiberSlot.detach]
    · obtain ⟨hslot', htaken⟩ := hempty hslot
      exact .inr ⟨hslot', by rw [htaken, List.append_nil]⟩

theorem Phase.Fiber.visit (hf : phase.Fiber l gone s) (h : Visit l f more s s') :
    phase.Fiber l (gone ++ taken f more) s' := by
  cases phase with
  | handing exit joiner => exact ⟨h.gate.trans hf.1, hf.2.1, hf.2.2.visit h⟩
  | opening exit joiner => exact ⟨h.gate.trans hf.1, hf.2.1, hf.2.2.visit h⟩
  | lost exit joiner => exact ⟨h.gate.trans hf.1, hf.2.1, hf.2.2.visit h⟩
  | _ => exact Vacant.visit hf h

/-- A racer stays where it is. -/
theorem Stage.visited (h : Stage x w seen a phase)
    (hw : ∀ s, w.fibers[x.fiber]? = some s →
      ∃ s', w'.fibers[x.fiber]? = some s' ∧ Visit x.callback x.fiber more s s')
    (hmore : course x.index more = []) : Stage x w' (seen ++ more) a phase where
  at_ := h.at_
  trace := by rw [course_append, hmore, List.append_nil, h.trace]
  fiber := by
    obtain ⟨s, hs, hconn, hf⟩ := h.fiber
    obtain ⟨s', hs', hv⟩ := hw s hs
    refine ⟨s', hs', hv.connection.trans hconn, ?_⟩
    rw [taken_append]
    exact hf.visit hv
  beaten hb hc := h.beaten hb (List.append_eq_nil_iff.1 (claims_append seen more ▸ hc)).1

theorem heard_of_ne (h : ∀ g callback, op ≠ .fiber g (.listen callback)) :
    heard w fibers op = [] := by
  cases op with
  | fiber g op =>
    cases op with
    | listen callback => exact absurd rfl (h g callback)
    | _ => rfl
  | _ => rfl

theorem heard_listen (w : World) (fibers : List FiberId) (g : FiberId) (callback : LatchId) :
    heard w fibers (.fiber g (.listen callback)) = [] ∨
      ∃ exit, g ∈ fibers ∧ heard w fibers (.fiber g (.listen callback)) = [.heard g exit] := by
  simp only [heard]
  split
  · split
    · exact .inr ⟨_, ‹_›, rfl⟩
    · exact .inl rfl
  · exact .inl rfl

/-- Nothing but exits that are taken out, of the race's own fibers. -/
def Overheard (fibers : List FiberId) (more : List Sign) : Prop :=
  ∀ sign ∈ more, ∃ g ∈ fibers, ∃ exit, sign = .heard g exit

theorem overheard_nil : Overheard fibers [] := nofun

theorem overheard (w : World) (fibers : List FiberId) (op : Op) :
    Overheard fibers (heard w fibers op) := by
  by_cases hop : ∃ g callback, op = .fiber g (.listen callback)
  · obtain ⟨g, callback, rfl⟩ := hop
    obtain h | ⟨exit, hg, h⟩ := heard_listen w fibers g callback
    · rw [h]
      exact overheard_nil
    · rw [h]
      rintro sign hs
      obtain rfl := List.mem_singleton.1 hs
      exact ⟨g, hg, exit, rfl⟩
  · rw [heard_of_ne fun g callback h => hop ⟨g, callback, h⟩]
    exact overheard_nil

theorem Overheard.course (h : Overheard fibers more) (i : Nat) : course i more = [] := by
  refine List.filter_eq_nil_iff.2 fun sign hs => ?_
  obtain ⟨g, -, exit, rfl⟩ := h sign hs
  simp [Sign.racer?]

theorem Overheard.claims (h : Overheard fibers more) : claims more = [] := by
  refine List.filterMap_eq_nil_iff.2 fun sign hs => ?_
  obtain ⟨g, -, exit, rfl⟩ := h sign hs
  rfl

theorem taken_heard_of_ne {g : FiberId} (hg : g ≠ f) (callback : LatchId) :
    taken f (heard w fibers (.fiber g (.listen callback))) = [] := by
  obtain h | ⟨exit, -, h⟩ := heard_listen w fibers g callback
  · rw [h]
    rfl
  · rw [h]
    simp [taken, hg]

theorem taken_heard (hf : f ∈ fibers) (hs : w.fibers[f]? = some s) (callback : LatchId) :
    taken f (heard w fibers (.fiber f (.listen callback))) = found s.slot := by
  obtain ⟨connection, slot, gate⟩ := s
  simp only [heard, hs]
  rcases slot with joiner | (_ | exit)
  · rfl
  · rfl
  · simp [hf, taken, found]

/-- An operation that leaves the fibers to the racers. -/
theorem Spares.visits (h : Spares cell? fibers l op) (here : Place) (hf : f ∈ fibers)
    (hs : w.fibers[f]? = some s) :
    ∃ s', (w.perform here op).1.fibers[f]? = some s' ∧ Visit l f (heard w fibers op) s s' := by
  by_cases hop : ∃ op', op = .fiber f op'
  · obtain ⟨op', rfl⟩ := hop
    have hspares := h hf
    refine ⟨op'.after s, World.onFiber_self hs op', ?_⟩
    cases op' with
    | complete exit => exact hspares.elim
    | openGate => exact hspares.elim
    | listen callback => exact .listened callback hspares (taken_heard hf hs callback)
    | detach => exact .detached rfl
    | connection | isFinished | awaitFinished => exact .passed rfl
  · refine ⟨s, World.perform_fiber hs fun op' h' => hop ⟨op', h'⟩, .passed ?_⟩
    by_cases hlisten : ∃ g callback, op = .fiber g (.listen callback)
    · obtain ⟨g, callback, rfl⟩ := hlisten
      have hg : g ≠ f := fun hg => hop ⟨.listen callback, by rw [hg]⟩
      exact taken_heard_of_ne hg callback
    · rw [heard_of_ne fun g callback h' => hlisten ⟨g, callback, h'⟩]
      rfl

theorem Spares.cell {k : CellId} {value : Cell (Option Nat)} (h : Spares cell? fibers l op)
    (here : Place) (hcell : cell? = some k) (hk : w.cells[k]? = some value) :
    (w.perform here op).1.cells[k]? = some value := by
  refine World.perform_cell hk fun snapshot n => ?_
  rintro rfl
  exact h hcell

end Effects.Racing
