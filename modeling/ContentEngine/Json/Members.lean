import ContentEngine.Json.Basic

/-!
# Members with defaults

Readers of the members of an object that give a default for what is absent or of another kind.
-/

namespace ContentEngine.Json

def textAt (j : Json) (key : String) : String := ((j.get? key).bind asStr?).getD ""

def intAt? (j : Json) (key : String) : Option Int := (j.get? key).bind asInt?

def natAt (j : Json) (key : String) (default : Nat) : Nat :=
  ((j.intAt? key).map Int.toNat).getD default

def flagAt (j : Json) (key : String) : Bool := ((j.get? key).bind asBool?).getD false

def listAt (j : Json) (key : String) : List Json := ((j.get? key).bind asArr?).getD []

def membersAt (j : Json) (key : String) : Entries Json := ((j.get? key).bind asObj?).getD []

/-- The texts among the items of a list. -/
def texts (j : Json) : List String := (j.asArr?.getD []).filterMap asStr?

def textsAt (j : Json) (key : String) : List String := (j.listAt key).filterMap asStr?

/-- A member, unless it is absent or null. -/
def given? (j : Json) (key : String) : Option Json :=
  match j.get? key with
  | some .null => none
  | other => other

end ContentEngine.Json
