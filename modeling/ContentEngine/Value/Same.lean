import ContentEngine.Value.Basic

/-!
# Equality of values

Values are the same when they have the same structure and their doubles compare as equal. So a NaN
makes a value differ from itself, and the two zeros do not tell values apart.
-/

namespace ContentEngine

def Double.same (x y : Double) : Bool := x.compare? y = some .eq

namespace Json

mutual
def same : Json → Json → Bool
  | .null, .null => true
  | .bool a, .bool b => a = b
  | .int a, .int b => a = b
  | .double a, .double b => a.same b
  | .str a, .str b => a = b
  | .arr a, .arr b => sameItems a b
  | .obj a, .obj b => sameMembers a b
  | _, _ => false

def sameItems : List Json → List Json → Bool
  | [], [] => true
  | a :: as, b :: bs => same a b && sameItems as bs
  | _, _ => false

def sameMembers : List (String × Json) → List (String × Json) → Bool
  | [], [] => true
  | (k, a) :: as, (l, b) :: bs => k = l && same a b && sameMembers as bs
  | _, _ => false
end

end Json

namespace Value

mutual
def same : Value → Value → Bool
  | .null, .null => true
  | .bool a, .bool b => a = b
  | .int a, .int b => a = b
  | .float a, .float b => a.same b
  | .text a, .text b => a = b
  | .json a, .json b => a.same b
  | .list a, .list b => sameItems a b
  | .ref a, .ref b => a = b
  | .doc ⟨t, i, s, f⟩, .doc ⟨t', i', s', f'⟩ =>
    t = t' && i = i' && s = s' && sameFields f f'
  | .variant t a, .variant u b => t = u && same a b
  | _, _ => false

def sameItems : List Value → List Value → Bool
  | [], [] => true
  | a :: as, b :: bs => same a b && sameItems as bs
  | _, _ => false

def sameFields : List (String × Value) → List (String × Value) → Bool
  | [], [] => true
  | (k, a) :: as, (l, b) :: bs => k = l && same a b && sameFields as bs
  | _, _ => false
end

end Value
end ContentEngine
