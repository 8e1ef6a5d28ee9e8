import Effects.Value

/-!
The compact text of a value: no blanks, keys in their order, and of all characters only the quote,
the backslash and the control characters are escaped.
-/

namespace Effects.Value

private def hexDigit (n : Nat) : Char :=
  if n < 10 then Char.ofNat (48 + n) else Char.ofNat (87 + n)

def escape (c : Char) : List Char :=
  match c with
  | '"' => ['\\', '"']
  | '\\' => ['\\', '\\']
  | '\x08' => ['\\', 'b']
  | '\t' => ['\\', 't']
  | '\n' => ['\\', 'n']
  | '\x0c' => ['\\', 'f']
  | '\r' => ['\\', 'r']
  | c =>
      if c.toNat < 32 then ['\\', 'u', '0', '0', hexDigit (c.toNat / 16), hexDigit (c.toNat % 16)]
      else [c]

def quote (s : String) : String :=
  String.ofList ('"' :: s.toList.flatMap escape ++ ['"'])

/-- A decimal number with exactly that many digits after the point. -/
def fixed (mantissa : Int) (places : Nat) : String :=
  let digits := toString mantissa.natAbs
  let digits := String.ofList (List.replicate (places + 1 - digits.length) '0') ++ digits
  let whole := digits.toList.take (digits.length - places)
  let part := digits.toList.drop (digits.length - places)
  String.ofList ((if mantissa < 0 then ['-'] else []) ++ whole ++
    (if part.isEmpty then [] else '.' :: part))

mutual

def compact : Value → String
  | .null => "null"
  | .bool true => "true"
  | .bool false => "false"
  | .int n => toString n
  | .decimal m p => fixed m p
  | .str s => quote s
  | .arr items => "[" ++ ",".intercalate (compactItems items) ++ "]"
  | .obj fields => "\x7b" ++ ",".intercalate (compactFields fields) ++ "\x7d"

def compactItems : List Value → List String
  | [] => []
  | v :: rest => v.compact :: compactItems rest

def compactFields : List (String × Value) → List String
  | [] => []
  | (key, v) :: rest => (quote key ++ ":" ++ v.compact) :: compactFields rest

end

/-- The characters of a string, or the compact text of any other value. -/
def text : Value → String
  | .str s => s
  | v => v.compact

end Effects.Value
