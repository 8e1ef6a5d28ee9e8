/-!
Values: what programs compute with, raise and log. An object keeps its fields in ascending order of
the keys, so two objects with the same fields are the same value.
-/

namespace Effects

inductive Value where
  | null
  | bool (b : Bool)
  | int (n : Int)
  | decimal (mantissa : Int) (places : Nat)
  | str (s : String)
  | arr (items : List Value)
  | obj (fields : List (String × Value))
  deriving Inhabited

namespace Value

mutual

def same : Value → Value → Bool
  | .null, .null => true
  | .bool a, .bool b => a == b
  | .int a, .int b => a == b
  | .decimal m p, .decimal n q => m == n && p == q
  | .str a, .str b => a == b
  | .arr as, .arr bs => sameItems as bs
  | .obj as, .obj bs => sameFields as bs
  | _, _ => false

def sameItems : List Value → List Value → Bool
  | [], [] => true
  | a :: as, b :: bs => same a b && sameItems as bs
  | _, _ => false

def sameFields : List (String × Value) → List (String × Value) → Bool
  | [], [] => true
  | (k, a) :: as, (l, b) :: bs => k == l && same a b && sameFields as bs
  | _, _ => false

end

mutual

theorem eq_of_same : ∀ {a b : Value}, same a b = true → a = b
  | .null, b, h => by cases b <;> simp_all [same]
  | .bool _, b, h => by cases b <;> simp_all [same]
  | .int _, b, h => by cases b <;> simp_all [same]
  | .decimal _ _, b, h => by cases b <;> simp_all [same]
  | .str _, b, h => by cases b <;> simp_all [same]
  | .arr as, b, h => by
      cases b <;> simp only [same, Bool.false_eq_true] at h
      rw [eq_of_sameItems h]
  | .obj as, b, h => by
      cases b <;> simp only [same, Bool.false_eq_true] at h
      rw [eq_of_sameFields h]

theorem eq_of_sameItems : ∀ {as bs : List Value}, sameItems as bs = true → as = bs
  | [], bs, h => by cases bs <;> simp_all [sameItems]
  | a :: as, bs, h => by
      cases bs with
      | nil => simp [sameItems] at h
      | cons b bs =>
          simp only [sameItems, Bool.and_eq_true] at h
          rw [eq_of_same h.1, eq_of_sameItems h.2]

theorem eq_of_sameFields :
    ∀ {as bs : List (String × Value)}, sameFields as bs = true → as = bs
  | [], bs, h => by cases bs <;> simp_all [sameFields]
  | (k, a) :: as, bs, h => by
      cases bs with
      | nil => simp [sameFields] at h
      | cons b bs =>
          obtain ⟨l, b⟩ := b
          simp only [sameFields, Bool.and_eq_true, beq_iff_eq] at h
          rw [h.1.1, eq_of_same h.1.2, eq_of_sameFields h.2]

end

mutual

theorem same_self : ∀ a : Value, same a a = true
  | .null => rfl
  | .bool _ => by simp [same]
  | .int _ => by simp [same]
  | .decimal _ _ => by simp [same]
  | .str _ => by simp [same]
  | .arr as => by simpa [same] using sameItems_self as
  | .obj as => by simpa [same] using sameFields_self as

theorem sameItems_self : ∀ as : List Value, sameItems as as = true
  | [] => rfl
  | a :: as => by simp [sameItems, same_self a, sameItems_self as]

theorem sameFields_self : ∀ as : List (String × Value), sameFields as as = true
  | [] => rfl
  | (_, a) :: as => by simp [sameFields, same_self a, sameFields_self as]

end

instance : BEq Value := ⟨same⟩

instance : LawfulBEq Value where
  eq_of_beq := eq_of_same
  rfl := same_self _

instance : DecidableEq Value := fun a b =>
  if h : same a b = true then isTrue (eq_of_same h)
  else isFalse fun e => h (e ▸ same_self a)

/-- Inserts or replaces a field, keeping the keys in order. -/
def insertField (key : String) (v : Value) : List (String × Value) → List (String × Value)
  | [] => [(key, v)]
  | (k, w) :: rest =>
      if key < k then (key, v) :: (k, w) :: rest
      else if key = k then (key, v) :: rest
      else (k, w) :: insertField key v rest

/-- The object with these fields; of two with one key the later counts. -/
def record (fields : List (String × Value)) : Value :=
  .obj (fields.foldl (fun acc f => insertField f.1 f.2 acc) [])

def field? (key : String) : Value → Option Value
  | .obj fields => (fields.find? (·.1 == key)).map (·.2)
  | _ => none

def fields : Value → List (String × Value)
  | .obj fields => fields
  | _ => []

def items : Value → List Value
  | .arr items => items
  | _ => []

def truth : Value → Bool
  | .bool true => true
  | _ => false

def int? : Value → Option Int
  | .int n => some n
  | _ => none

def nat (n : Nat) : Value := .int n

def toNat : Value → Nat
  | .int n => n.toNat
  | _ => 0

end Value
end Effects
