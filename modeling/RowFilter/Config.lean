/-
Settings of a converter: the fields, the limits and who may use what. Settings are
as they were given; what they amount to, with defaults filled in, is a schema,
limits and a policy.
-/
import RowFilter.Limits
import RowFilter.Policy
import RowFilter.Schema

set_option autoImplicit false

namespace RowFilter

/-- One field that can be filtered by. -/
structure FieldSetting where
  name : String
  type : ValueType
  column : Option String
  deriving DecidableEq, Repr, Inhabited

/-- Fields with roles, one entry a field, in ascending order of the names. -/
abbrev AccessList := List (String × List String)

namespace AccessList

/-- The entry of a field changed by `change`, which is given no roles where there
is no entry yet. -/
def alter (field : String) (change : List String → List String) : AccessList → AccessList
  | [] => [(field, change [])]
  | (other, roles) :: rest =>
    -- the entries are kept in order, so equal settings are written alike
    if field < other then (field, change []) :: (other, roles) :: rest
    else if field = other then (other, change roles) :: rest
    else (other, roles) :: alter field change rest

/-- The roles of a field, in place of those it had. -/
def set (field : String) (roles : List String) (acl : AccessList) : AccessList :=
  alter field (fun _ => roles) acl

/-- More roles for a field. -/
def extend (field : String) (roles : List String) (acl : AccessList) : AccessList :=
  alter field (· ++ roles) acl

end AccessList

/-- Settings; limits left at zero mean the defaults. -/
structure Config where
  fields : List FieldSetting
  maxExpressionLength : Nat
  maxExpressionDepth : Nat
  maxInClauseSize : Nat
  publicFields : List String
  fieldAcl : AccessList
  deriving DecidableEq, Repr, Inhabited

namespace Config

/-- Nothing set. -/
def empty : Config := ⟨[], 0, 0, 0, [], []⟩

/-! ## Setting things up -/

/-- One more field, in a column of its own name. -/
def field (c : Config) (name : String) (type : ValueType) : Config :=
  { c with fields := c.fields ++ [⟨name, type, none⟩] }

/-- One more field, in a given column. -/
def mappedField (c : Config) (name : String) (type : ValueType) (column : String) : Config :=
  { c with fields := c.fields ++ [⟨name, type, some column⟩] }

/-- One more field that everybody may use. -/
def publicField (c : Config) (name : String) : Config :=
  { c with publicFields := c.publicFields ++ [name] }

/-- More roles that may use a field. -/
def acl (c : Config) (field : String) (roles : List String) : Config :=
  { c with fieldAcl := c.fieldAcl.extend field roles }

/-! ## What the settings amount to -/

def schema (c : Config) : Schema :=
  ⟨c.fields.map fun f => Field.declare f.name f.type f.column⟩

def limits (c : Config) : Limits :=
  .ofSettings c.maxExpressionLength c.maxExpressionDepth c.maxInClauseSize

def policy (c : Config) : Policy := ⟨c.publicFields, c.fieldAcl⟩

/-- The declarations that expressions may use. -/
def declarations (c : Config) : List (String × ValueType) :=
  c.fields.map fun f => (f.name, f.type)

end Config

end RowFilter
