import Effects.Duration
import Effects.Outcome
import Effects.Value

/-!
The written forms of data. Whatever passes from one part of a computation to the next does so as a
value; a type takes part by saying how its members are written, and reading gives back what was
written.
-/

namespace Effects

class Datum (α : Type) where
  write : α → Value
  read : Value → α
  read_write (a : α) : read (write a) = a

export Datum (write read read_write)

attribute [simp] Datum.read_write

instance : Datum Value where
  write v := v
  read v := v
  read_write _ := rfl

instance : Datum Unit where
  write _ := .null
  read _ := ()
  read_write _ := rfl

instance : Datum Bool where
  write b := .bool b
  read v := v.truth
  read_write b := by cases b <;> rfl

instance : Datum Nat where
  write n := .nat n
  read v := v.toNat
  read_write n := by simp [Value.nat, Value.toNat]

instance : Datum String where
  write s := .str s
  read
    | .str s => s
    | _ => ""
  read_write _ := rfl

section Pair

variable {α β : Type}

/-- The two parts of a pair; what is missing reads as `null`. -/
def Value.parts : Value → Value × Value
  | .arr [a, b] => (a, b)
  | _ => (.null, .null)

instance [Datum α] [Datum β] : Datum (α × β) where
  write p := .arr [write p.1, write p.2]
  read v := (read v.parts.1, read v.parts.2)
  read_write p := by simp [Value.parts]

instance [Datum α] : Datum (List α) where
  write as := .arr (as.map write)
  read
    | .arr vs => vs.map read
    | _ => []
  read_write as := by
    show (as.map write).map read = as
    rw [List.map_map]
    conv => rhs; rw [← List.map_id as]
    exact List.map_congr_left fun a _ => read_write a

end Pair

/-- The field of an object, `null` where there is none. -/
def Value.field (v : Value) (key : String) : Value := (v.field? key).getD .null

def Value.tagged (key : String) (v : Value) : Value := .obj [(key, v)]

section Choice

variable {α β ε : Type}

instance [Datum α] [Datum β] : Datum (α ⊕ β) where
  write
    | .inl a => .tagged "left" (write a)
    | .inr b => .tagged "right" (write b)
  read v :=
    match v.field? "left" with
    | some a => .inl (read a)
    | none => .inr (read (v.field "right"))
  read_write s := by cases s <;> simp [Value.tagged, Value.field, Value.field?]

instance [Datum ε] [Datum α] : Datum (Except ε α) where
  write
    | .ok a => .tagged "ok" (write a)
    | .error e => .tagged "err" (write e)
  read v :=
    match v.field? "ok" with
    | some a => .ok (read a)
    | none => .error (read (v.field "err"))
  read_write r := by cases r <;> simp [Value.tagged, Value.field, Value.field?]

instance [Datum α] : Datum (Option α) where
  write
    | some a => .tagged "some" (write a)
    | none => .str "none"
  read v := (v.field? "some").map read
  read_write o := by cases o <;> simp [Value.tagged, Value.field?]

instance [Datum ε] [Datum α] : Datum (Outcome ε α) where
  write
    | .completed a => .tagged "completed" (write a)
    | .errored e => .tagged "errored" (write e)
    | .canceled => .str "canceled"
  read v :=
    match v.field? "completed", v.field? "errored" with
    | some a, _ => .completed (read a)
    | none, some e => .errored (read e)
    | none, none => .canceled
  read_write o := by cases o <;> simp [Value.tagged, Value.field?]

instance [Datum ε] : Datum (ExitCase ε) where
  write
    | .completed => .str "completed"
    | .errored e => .tagged "error" (write e)
    | .canceled => .str "canceled"
  read v :=
    match v.field? "error" with
    | some e => .errored (read e)
    | none => if v = .str "completed" then .completed else .canceled
  read_write c := by cases c <;> simp [Value.tagged, Value.field?]

end Choice

namespace Duration

def write (d : Duration) : Value := .tagged "dur" (.arr [.nat d.secs, .nat d.subsec])

/-- Missing parts count as zero. -/
def read (v : Value) : Duration :=
  match v.field? "dur" with
  | some (.arr (s :: n :: _)) => ofNanos (s.toNat * second + n.toNat)
  | some (.arr [s]) => ofNanos (s.toNat * second)
  | _ => zero

theorem read_write (d : Duration) : read (write d) = d := by
  simp [read, write, Value.tagged, Value.field?, Value.nat, Value.toNat, secs_subsec,
    ofNanos_nanos]

end Duration

instance : Datum Duration where
  write := Duration.write
  read := Duration.read
  read_write := Duration.read_write

end Effects
