import Effects.Cell
import Effects.Expr.Reading

/-!
Working on a cell under contention: while a transformation computes, another writer may set the
cell, and the transformation then starts over.
-/

namespace Effects.Session

inductive CellStep where
  | get (snapshot : String)
  | set (v : Value)
  | getAndSet (v : Value) (snapshot : String)
  | compareAndSet (snapshot : String) (v : Value)
  | update (f : Expr) (others : List Value)
  | updateAndGet (f : Expr) (others : List Value) (snapshot : String)
  | getAndUpdate (f : Expr) (others : List Value) (snapshot : String)
  | modify (f : Expr) (others : List Value) (g : Expr)
  | increments (writers times : Nat)
  | describe

/-- The cell, and the snapshots taken of it by their names. -/
structure CellTable where
  cell : Cell Value
  snapshots : List (String × Cell Value)

/-- The end of a transforming operation: how often it computed, and its result. -/
structure Contended (α ρ : Type) where
  cell : Cell α
  calls : Nat
  result : Option ρ

/-- Runs a transforming operation to its end. While it computes for the first time, the first of the
others sets the cell, and so on. -/
def contend {α ρ : Type} (f : Cell α → α × ρ) (others : List α) (cell : Cell α) : Contended α ρ :=
  let (cell, attempt) := Cell.Attempt.reading.step f cell
  match others with
  | [] =>
      let (cell, attempt) := attempt.step f cell
      ⟨cell, 1, attempt.result?⟩
  | other :: rest =>
      let (cell, attempt) := attempt.step f (cell.set other)
      match attempt.result? with
      | some r => ⟨cell, 1, some r⟩
      | none =>
          let later := contend f rest cell
          { later with calls := later.calls + 1 }

namespace CellTable

def apply (f : Expr) (v : Value) : Value := f.eval [("x", v)]

def snapshot (t : CellTable) (name : String) : Cell Value := (t.snapshots.lookup name).getD t.cell

def keep (t : CellTable) (name : String) (snapshot : Cell Value) : CellTable :=
  { t with snapshots := (name, snapshot) :: t.snapshots }

/-- The table after a transformation that took a snapshot, the calls and the snapshot's value. -/
def taken (t : CellTable) (c : Contended Value (Cell Value)) (name : String) :
    CellTable × Value × Nat :=
  let snapshot := c.result.getD c.cell
  ({ t with cell := c.cell }.keep name snapshot, snapshot.value, c.calls)

def increment (v : Value) : Value := .wrapped (v.word + 1)

def step (t : CellTable) : CellStep → CellTable × Value × Nat
  | .get name => (t.keep name t.cell, t.cell.value, 0)
  | .set v => ({ t with cell := t.cell.set v }, .null, 0)
  | .getAndSet v name => ({ t with cell := t.cell.set v }.keep name t.cell, t.cell.value, 0)
  | .compareAndSet name v =>
      let (cell, done) := t.cell.compareAndSet (t.snapshot name) v
      ({ t with cell }, .bool done, 0)
  | .update f others =>
      let c := contend (Cell.update (apply f)) others t.cell
      ({ t with cell := c.cell }, .null, c.calls)
  | .updateAndGet f others name =>
      t.taken (contend (Cell.updateAndGet (apply f)) others t.cell) name
  | .getAndUpdate f others name =>
      t.taken (contend (Cell.getAndUpdate (apply f)) others t.cell) name
  | .modify f others g =>
      let c := contend (Cell.modify fun v => (apply f v, apply g v)) others t.cell
      ({ t with cell := c.cell }, c.result.getD .null, c.calls)
  | .increments writers times =>
      let cell := (List.range (writers * times)).foldl
        (fun c _ => (contend (Cell.update increment) [] c).cell) t.cell
      ({ t with cell }, .null, 0)
  | .describe => (t, .str ("AtomicCell \x7b value: " ++ t.cell.value.compact ++ " \x7d"), 0)

def steps : List CellStep → CellTable → List Value
  | [], _ => []
  | s :: rest, t =>
      let (t, r, calls) := t.step s
      .record [("r", r), ("calls", .nat calls), ("value", t.cell.value)] :: steps rest t

end CellTable

def CellStep.ofValue : Value → Except String CellStep
  | .arr [.str "get", .str name] => .ok (.get name)
  | .arr [.str "set", v] => .ok (.set v)
  | .arr [.str "get_and_set", v, .str name] => .ok (.getAndSet v name)
  | .arr [.str "cas", .str name, v] => .ok (.compareAndSet name v)
  | .arr [.str "update", f, others] => return .update (← Expr.ofValue f) others.items
  | .arr [.str "update_and_get", f, others, .str name] =>
      return .updateAndGet (← Expr.ofValue f) others.items name
  | .arr [.str "get_and_update", f, others, .str name] =>
      return .getAndUpdate (← Expr.ofValue f) others.items name
  | .arr [.str "modify", f, others, g] =>
      return .modify (← Expr.ofValue f) others.items (← Expr.ofValue g)
  | .arr [.str "hammer", writers, times] => .ok (.increments writers.toNat times.toNat)
  | .arr [.str "debug"] => .ok .describe
  | v => .error ("no such step on a cell: " ++ v.compact)

def cellAnswer (v : Value) : Except String Value := do
  let steps ← (v.field "steps").items.mapM CellStep.ofValue
  return .arr (CellTable.steps steps ⟨.new (v.field "value"), []⟩)

end Effects.Session
