import UiScript.Binary64.Written

/-!
# JSON values

The values of JSON documents. Integers that fit a 64-bit word are kept exactly, every other number is a binary
floating-point value, and the members of an object that was read are sorted by name.
-/

namespace UiScript

mutual

/-- A JSON value. -/
inductive Json where
  | null
  | bool (value : Bool)
  | integer (value : Int)
  | float (value : Binary64)
  | string (value : String)
  | array (items : List Json)
  | object (members : List Member)

/-- A member of an object. -/
inductive Member where
  | mk (name : String) (value : Json)

end

instance : Inhabited Json := ⟨.null⟩

namespace Member

/-- The name of a member. -/
def name : Member → String
  | mk n _ => n

/-- The value of a member. -/
def value : Member → Json
  | mk _ v => v

end Member

namespace Json

/-- Puts a member at its place in a sorted list; a member of the same name is replaced. -/
def insertMember (name : String) (value : Json) : List Member → List Member
  | [] => [.mk name value]
  | .mk n v :: ms =>
    if name < n then .mk name value :: .mk n v :: ms
    else if name = n then .mk name value :: ms
    else .mk n v :: insertMember name value ms

/-- The object with the given members, of which the last of a name counts. -/
def ofMembers (members : List (String × Json)) : Json :=
  .object (members.foldl (fun ms m => insertMember m.1 m.2 ms) [])

/-- The value of a member of an object. -/
def get? (name : String) : Json → Option Json
  | .object members => (members.find? (·.name == name)).map Member.value
  | _ => none

end Json

end UiScript
