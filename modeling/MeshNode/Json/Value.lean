import MeshNode.Binary64

/-!
# JSON values

A number is an integer as long as it is one of at most 64 bits, and a floating-point number
otherwise. The members of an object are kept in the order of their names, each name once.
-/

namespace MeshNode

/-- A number of a JSON text. -/
inductive JsonNumber
  | int (value : Int)
  | float (value : Binary64)
deriving DecidableEq

/-- A JSON value. -/
inductive Json
  | null
  | bool (value : Bool)
  | num (value : JsonNumber)
  | str (value : String)
  | arr (items : List Json)
  | obj (members : List (String × Json))

namespace Json

instance : Inhabited Json := ⟨null⟩

/-- The members of an object with one set; a member of that name is replaced. -/
def insertMember (name : String) (value : Json) :
    List (String × Json) → List (String × Json)
  | [] => [(name, value)]
  | (n, v) :: rest =>
    if name < n then (name, value) :: (n, v) :: rest
    else if name = n then (name, value) :: rest
    else (n, v) :: insertMember name value rest

/-- The object of some members, the last of one name winning. -/
def ofMembers (members : List (String × Json)) : Json :=
  obj (members.foldl (fun acc (n, v) => insertMember n v acc) [])

/-- The member of a name, if the value is an object that has it. -/
def member? (name : String) : Json → Option Json
  | obj members => members.lookup name
  | _ => none

theorem lookup_cons_eq_ite (n k : String) (v : Json) (members : List (String × Json)) :
    ((k, v) :: members).lookup n = if n = k then some v else members.lookup n := by
  by_cases h : n = k
  · rw [h, if_pos rfl, List.lookup_cons_self]
  · show (match n == k with | true => some v | false => members.lookup n) = _
    rw [if_neg h, beq_false_of_ne h]

theorem lookup_insertMember (name n : String) (value : Json) (members : List (String × Json)) :
    (insertMember name value members).lookup n =
      if n = name then some value else members.lookup n := by
  induction members with
  | nil => exact lookup_cons_eq_ite n name value []
  | cons first rest ih =>
    obtain ⟨k, v⟩ := first
    unfold insertMember
    split
    · exact lookup_cons_eq_ite n name value ((k, v) :: rest)
    · split
      · next heq =>
        rw [lookup_cons_eq_ite, lookup_cons_eq_ite, heq]
        by_cases h : n = k <;> simp only [h, if_true, if_false]
      · next hne =>
        rw [lookup_cons_eq_ite, lookup_cons_eq_ite, ih]
        by_cases h : n = name
        · rw [if_pos h, if_pos h, h, if_neg hne]
        · rw [if_neg h, if_neg h]

/-- The number of a natural. -/
def ofNat (n : Nat) : Json := num (.int n)

end Json

end MeshNode
