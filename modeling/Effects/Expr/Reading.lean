import Effects.Expr

/-!
The written form of expressions: an array is a call, its first item the name, and any other value
stands for itself.
-/

namespace Effects.Expr

def call (name : String) (args : List Expr) : Except String Expr :=
  match name, args with
  | "$", [.literal (.str x)] => .ok (.var x)
  | "list", items => .ok (.list items)
  | "add", [a, b] => .ok (.add a b)
  | "sub", [a, b] => .ok (.sub a b)
  | "mul", [a, b] => .ok (.mul a b)
  | "mod", [a, b] => .ok (.mod a b)
  | "eq", [a, b] => .ok (.eq a b)
  | "lt", [a, b] => .ok (.lt a b)
  | "not", [a] => .ok (.not a)
  | "cat", items => .ok (.cat items)
  | "if", [c, a, b] => .ok (.cond c a b)
  | "len", [a] => .ok (.len a)
  | "get", [a, k] => .ok (.get a k)
  | "obj", [k, v] => .ok (.obj k v)
  | "append", [l, v] => .ok (.append l v)
  | "ms", [n] => .ok (.millis n)
  | name, _ => .error ("no such expression: " ++ name)

mutual

def ofValue : Value → Except String Expr
  | .arr [.str "lit", v] => .ok (.literal v)
  | .arr (.str name :: args) => do call name (← ofValues args)
  | .arr _ => .error "an expression starts with a name"
  | v => .ok (.literal v)

def ofValues : List Value → Except String (List Expr)
  | [] => .ok []
  | v :: rest => do return (← ofValue v) :: (← ofValues rest)

end

end Effects.Expr
