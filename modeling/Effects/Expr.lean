import Effects.Datum
import Effects.Value.Compact

/-!
Expressions over values: total and without effects. Arithmetic is that of signed 64-bit words; what
is no such word counts as zero.
-/

namespace Effects

/-- Variables and what they stand for, the innermost binding first. -/
abbrev Bindings := List (String × Value)

def Bindings.find (env : Bindings) (x : String) : Value := (env.lookup x).getD .null

inductive Expr where
  | literal (v : Value)
  | var (x : String)
  | list (items : List Expr)
  | add (a b : Expr)
  | sub (a b : Expr)
  | mul (a b : Expr)
  | mod (a b : Expr)
  | eq (a b : Expr)
  | lt (a b : Expr)
  | not (a : Expr)
  | cat (items : List Expr)
  | cond (c a b : Expr)
  | len (a : Expr)
  | get (a k : Expr)
  | obj (k v : Expr)
  | append (l v : Expr)
  | millis (n : Expr)

namespace Value

/-- The signed 64-bit word that a value is, zero for any other value. -/
def word : Value → Int
  | .int n => if -9223372036854775808 ≤ n ∧ n ≤ 9223372036854775807 then n else 0
  | _ => 0

def wrapped (n : Int) : Value := .int (n.bmod 18446744073709551616)

def modulo (a b : Int) : Value := .int (if b ≤ 0 then 0 else a % b)

def length : Value → Nat
  | .str s => s.length
  | .arr items => items.length
  | _ => 0

def at? : Value → Value → Option Value
  | .obj fields, .str key => Value.field? key (.obj fields)
  | .arr items, .int n => if n < 0 then none else items[n.toNat]?
  | _, _ => none

def snoc : Value → Value → Value
  | .arr items, v => .arr (items ++ [v])
  | _, _ => .null

end Value

namespace Expr

mutual

def eval (env : Bindings) : Expr → Value
  | .literal v => v
  | .var x => env.find x
  | .list items => .arr (evalAll env items)
  | .add a b => .wrapped ((a.eval env).word + (b.eval env).word)
  | .sub a b => .wrapped ((a.eval env).word - (b.eval env).word)
  | .mul a b => .wrapped ((a.eval env).word * (b.eval env).word)
  | .mod a b => .modulo (a.eval env).word (b.eval env).word
  | .eq a b => .bool (a.eval env == b.eval env)
  | .lt a b => .bool ((a.eval env).word < (b.eval env).word)
  | .not a => .bool !(a.eval env).truth
  | .cat items => .str (String.join ((evalAll env items).map Value.text))
  | .cond c a b => if (c.eval env).truth then a.eval env else b.eval env
  | .len a => .nat (a.eval env).length
  | .get a k => ((a.eval env).at? (k.eval env)).getD .null
  | .obj k v => .tagged (k.eval env).text (v.eval env)
  | .append l v => (l.eval env).snoc (v.eval env)
  | .millis n => write (Duration.ofMillis (n.eval env).word.toNat)

def evalAll (env : Bindings) : List Expr → List Value
  | [] => []
  | e :: rest => e.eval env :: evalAll env rest

end

end Expr
end Effects
