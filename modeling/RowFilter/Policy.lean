/-
Who may filter by which field. Fields are public or open to certain roles; a
policy that names no field at all is switched off and allows everything.
-/
import RowFilter.TypedExpr

set_option autoImplicit false

namespace RowFilter

structure Policy where
  publicFields : List String
  /-- Fields with the roles that may use them; a later entry replaces an earlier
  one for the same field. -/
  fieldRoles : List (String × List String)
  deriving DecidableEq, Repr

namespace Policy

def isEnabled (p : Policy) : Bool := !p.publicFields.isEmpty || !p.fieldRoles.isEmpty

/-- The roles a field is open to. -/
def rolesFor? (p : Policy) (field : String) : Option (List String) :=
  p.fieldRoles.reverse.lookup field

/-- A field may be used if it is public or open to one of the roles. -/
def isAuthorized (p : Policy) (field : String) (roles : List String) : Bool :=
  p.publicFields.contains field ||
    match p.rolesFor? field with
    | some allowed => roles.any fun role => allowed.contains role
    | none => false

/-- The first field of a tree that the roles may not use. -/
def firstUnauthorized? (p : Policy) (e : TypedExpr) (roles : List String) : Option String :=
  e.referencedFields.find? fun field => !p.isAuthorized field roles

end Policy

end RowFilter
