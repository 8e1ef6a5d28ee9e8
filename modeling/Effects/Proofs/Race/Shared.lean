import Effects.Proofs.Suspend.Shared

/-!
What one operation does to a cell and to a fiber that are there already.
-/

namespace Effects

/-- What an operation makes of the state of the fiber it is about. -/
def FiberOp.after (s : Fiber.State) : FiberOp → Fiber.State
  | .complete exit => { s with slot := (s.slot.complete exit).1 }
  | .listen callback => { s with slot := (s.slot.listen callback).1 }
  | .detach => { s with slot := s.slot.detach.1 }
  | .openGate => { s with gate := .opened }
  | .connection | .isFinished | .awaitFinished => s

namespace World

variable {w : World} {here : Place} {k : CellId} {cell : Cell (Option Nat)} {f : FiberId}
  {s : Fiber.State}

/-- The same cells and fibers. -/
def Keeps (w w' : World) : Prop := w'.cells = w.cells ∧ w'.fibers = w.fibers

theorem Keeps.refl (w : World) : w.Keeps w := ⟨rfl, rfl⟩

theorem onConnection_keeps (d : ConnectionId) (op : ConnectionOp Code) :
    w.Keeps (w.onConnection d op).1 := by
  obtain ⟨connections, hw⟩ := onConnection_shape w d op
  rw [hw]
  exact ⟨rfl, rfl⟩

theorem onContext_keeps (home : Option ContextId) (d : ContextId) (op : ContextOp Code) :
    w.Keeps (w.onContext home d op).1 := by
  obtain ⟨threads, contexts, hw⟩ := onContext_shape w home d op
  rw [hw]
  exact ⟨rfl, rfl⟩

/-- Neither opens nor changes a cell or a fiber. -/
def Plain : Op → Prop
  | .openCell | .writeCell _ _ _ | .openFiber | .fiber _ _ => False
  | _ => True

theorem perform_keeps {op : Op} (h : Plain op) : w.Keeps (w.perform here op).1 := by
  cases op with
  | openCell | writeCell | openFiber | fiber => exact h.elim
  | connection d op => exact onConnection_keeps d op
  | await callback =>
    simp only [perform]
    split <;> exact ⟨rfl, rfl⟩
  | openContext name serial stackSize =>
    simp only [perform]
    split
    · exact .refl w
    · obtain ⟨threads, contexts, hw⟩ := openContext_shape w name serial stackSize
      rw [replying, hw]
      exact ⟨rfl, rfl⟩
  | context d op => exact onContext_keeps here.home d op
  | slot i request phase =>
    obtain ⟨slots, latches, hw⟩ := onSlot_shape w i request phase
    rw [perform, hw]
    exact ⟨rfl, rfl⟩
  | promise p request phase =>
    obtain ⟨promises, latches, hw⟩ := onPromise_shape w p request phase
    rw [perform, hw]
    exact ⟨rfl, rfl⟩
  | factorBetween low high =>
    rw [perform_factorBetween]
    exact ⟨rfl, rfl⟩
  | _ => exact ⟨rfl, rfl⟩

theorem onFiber_cells (d : FiberId) (op : FiberOp) : (w.onFiber d op).1.cells = w.cells := by
  cases op <;> rfl

theorem onFiber_self (hf : w.fibers[f]? = some s) (op : FiberOp) :
    (w.onFiber f op).1.fibers[f]? = some (op.after s) := by
  obtain ⟨hi, -⟩ := Array.getElem?_eq_some_iff.1 hf
  cases op with
  | connection | isFinished | awaitFinished => exact hf
  | _ =>
    simp only [onFiber, hf, Option.getD_some]
    simp [setFiber, replying, hi, FiberOp.after]

theorem onFiber_other {d : FiberId} (hd : d ≠ f) (op : FiberOp) :
    (w.onFiber d op).1.fibers[f]? = w.fibers[f]? := by
  cases op with
  | connection | isFinished | awaitFinished => rfl
  | _ => simp [onFiber, setFiber, replying, hd]

theorem perform_cell (hk : w.cells[k]? = some cell) {op : Op}
    (h : ∀ seen n, op ≠ .writeCell k seen n) : (w.perform here op).1.cells[k]? = some cell := by
  by_cases hop : Plain op
  · rw [(perform_keeps hop).1]
    exact hk
  · cases op with
    | openCell => exact push_getElem? hk
    | writeCell d seen n =>
      have hd : d ≠ k := fun hd => h seen n (hd ▸ rfl)
      simpa [perform, replying, Array.getElem?_setIfInBounds, hd] using hk
    | openFiber => exact hk
    | fiber d op =>
      rw [perform, onFiber_cells]
      exact hk
    | _ => exact absurd trivial hop

theorem perform_fiber (hf : w.fibers[f]? = some s) {op : Op} (h : ∀ op', op ≠ .fiber f op') :
    (w.perform here op).1.fibers[f]? = some s := by
  by_cases hop : Plain op
  · rw [(perform_keeps hop).2]
    exact hf
  · cases op with
    | openCell | writeCell => exact hf
    | openFiber => exact push_getElem? hf
    | fiber d op =>
      have hd : d ≠ f := fun hd => h op (hd ▸ rfl)
      rw [perform, onFiber_other hd]
      exact hf
    | _ => exact absurd trivial hop

end World
end Effects
