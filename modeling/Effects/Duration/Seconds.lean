import Effects.Duration

/-!
Durations and floating-point seconds. Reading a duration rounds the seconds and the fraction one
after the other; writing one back takes the exact value of the number and rounds it once, to the
nearest nanosecond, a tie going to the even one.
-/

namespace Effects

/-- The quotient rounded to the nearest whole number, a tie going to the even one. -/
def roundHalfEven (num den : Nat) : Nat :=
  let q := num / den
  let r := num % den
  if 2 * r < den then q
  else if den < 2 * r then q + 1
  else q + q % 2

/-- The power by repeated squaring, each product rounded. -/
def powerBySquaring (base : Float) (exponent : Nat) : Float :=
  go 1 base exponent
where
  go (result base : Float) (exponent : Nat) : Float :=
    let result := if exponent % 2 = 1 then result * base else result
    if h : exponent / 2 = 0 then result else go result (base * base) (exponent / 2)
  termination_by exponent
  decreasing_by omega

namespace Duration

def seconds (d : Duration) : Float :=
  (UInt64.ofNat d.secs).toFloat + (UInt64.ofNat d.subsec).toFloat / 1000000000.0

/-- The duration nearest to `significand * 2 ^ (exponent - 1075)` seconds, if there is one. -/
def ofBinary? (significand exponent : Nat) : Option Duration :=
  let nanos :=
    if exponent ≥ 1075 then significand * Nat.pow 2 (exponent - 1075) * second
    else roundHalfEven (significand * second) (Nat.pow 2 (1075 - exponent))
  if h : nanos < limit then some ⟨nanos, h⟩ else none

/-- None for a number that is negative, not a number, infinite or too large. -/
def ofSeconds? (x : Float) : Option Duration :=
  let bits := x.toBits.toNat
  let sign := bits / Nat.pow 2 63
  let exponent := bits / Nat.pow 2 52 % 2048
  let fraction := bits % Nat.pow 2 52
  if exponent = 2047 then none
  else if sign = 1 ∧ (exponent ≠ 0 ∨ fraction ≠ 0) then none
  else if exponent = 0 then ofBinary? fraction 1
  else ofBinary? (Nat.pow 2 52 + fraction) exponent

/-- `d * factor ^ exponent`, or the longest duration where that is none. -/
def growth (d : Duration) (factor : Float) (exponent : Nat) : Duration :=
  (ofSeconds? (d.seconds * powerBySquaring factor (min exponent 2147483647))).getD longest

/-- `d * factor`, or `d` itself where that is no duration. -/
def stretch (d : Duration) (factor : Float) : Duration :=
  (ofSeconds? (d.seconds * factor)).getD d

end Duration
end Effects
