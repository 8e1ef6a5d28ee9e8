/-!
Durations in whole nanoseconds. The longest one has one nanosecond less than `2 ^ 64` seconds;
arithmetic stops there instead of going over.
-/

namespace Effects

def Duration.second : Nat := 1000000000

/-- The first count of nanoseconds that is too long. -/
def Duration.limit : Nat := 18446744073709551616000000000

structure Duration where
  nanos : Nat
  nanos_lt : nanos < Duration.limit
  deriving DecidableEq

namespace Duration

def longest : Duration := ⟨limit - 1, by decide⟩

theorem nanos_longest : longest.nanos = 18446744073709551615999999999 := rfl

def zero : Duration := ⟨0, by decide⟩

instance : Inhabited Duration := ⟨zero⟩

def ofNanos (n : Nat) : Duration :=
  if h : n < limit then ⟨n, h⟩ else longest

def ofMillis (n : Nat) : Duration := ofNanos (n * 1000000)

theorem nanos_ofNanos (n : Nat) : (ofNanos n).nanos = min n longest.nanos := by
  by_cases h : n < limit
  · rw [show ofNanos n = ⟨n, h⟩ from dif_pos h, nanos_longest]
    simp only [limit] at h
    show n = _
    omega
  · rw [show ofNanos n = longest from dif_neg h, nanos_longest]
    simp only [limit] at h
    omega

theorem nanos_le_longest (d : Duration) : d.nanos ≤ longest.nanos := by
  have h := d.nanos_lt
  simp only [limit] at h
  rw [nanos_longest]
  omega

theorem ext {a b : Duration} (h : a.nanos = b.nanos) : a = b := by
  cases a; cases b; simp_all

theorem ofNanos_nanos (d : Duration) : ofNanos d.nanos = d := dif_pos d.nanos_lt

instance : LE Duration := ⟨fun a b => a.nanos ≤ b.nanos⟩
instance : LT Duration := ⟨fun a b => a.nanos < b.nanos⟩
instance (a b : Duration) : Decidable (a ≤ b) := inferInstanceAs (Decidable (a.nanos ≤ b.nanos))
instance (a b : Duration) : Decidable (a < b) := inferInstanceAs (Decidable (a.nanos < b.nanos))
instance : Min Duration := ⟨fun a b => if a ≤ b then a else b⟩
instance : Max Duration := ⟨fun a b => if a ≤ b then b else a⟩

instance : Add Duration := ⟨fun a b => ofNanos (a.nanos + b.nanos)⟩
instance : Sub Duration := ⟨fun a b => ofNanos (a.nanos - b.nanos)⟩

def times (n : Nat) (d : Duration) : Duration := ofNanos (n * d.nanos)

theorem nanos_add (a b : Duration) : (a + b).nanos = min (a.nanos + b.nanos) longest.nanos :=
  nanos_ofNanos _

theorem nanos_sub (a b : Duration) : (a - b).nanos = a.nanos - b.nanos := by
  have h := nanos_ofNanos (a.nanos - b.nanos)
  have := nanos_le_longest a
  change (ofNanos (a.nanos - b.nanos)).nanos = _
  omega

theorem nanos_times (n : Nat) (d : Duration) :
    (d.times n).nanos = min (n * d.nanos) longest.nanos :=
  nanos_ofNanos _

def secs (d : Duration) : Nat := d.nanos / second

def subsec (d : Duration) : Nat := d.nanos % second

theorem secs_lt (d : Duration) : d.secs < 18446744073709551616 := by
  have h := d.nanos_lt
  simp only [limit] at h
  simp only [secs, second]
  omega

theorem secs_subsec (d : Duration) : d.secs * second + d.subsec = d.nanos := by
  simp only [secs, subsec, second]
  omega

private def digits (width n : Nat) : List Char :=
  let ds := (toString n).toList
  List.replicate (width - ds.length) '0' ++ ds

/-- `whole`, a point and the `width` digits of `part` without the zeros at their end. -/
def pointed (whole part width : Nat) : String :=
  let kept := ((digits width part).reverse.dropWhile (· == '0')).reverse
  toString whole ++ (if kept.isEmpty then "" else "." ++ String.ofList kept)

/-- In the largest unit of `s`, `ms`, `µs` and `ns` that has a whole part. -/
def text (d : Duration) : String :=
  let n := d.nanos
  if n ≥ second then pointed d.secs d.subsec 9 ++ "s"
  else if n ≥ 1000000 then pointed (n / 1000000) (n % 1000000) 6 ++ "ms"
  else if n ≥ 1000 then pointed (n / 1000) (n % 1000) 3 ++ "µs"
  else pointed n 0 0 ++ "ns"

end Duration
end Effects
