/-
Typed trees as conditions on columns.

The language of conditions is smaller than that of expressions: comparisons have a
field on the left and a literal on the right, lists are written out, and the tests
on strings are those that a pattern can express. Whatever is outside of it is
refused, also where a tree claims types that would make it harmless: literals are
held against the declared types of fields once more.
-/
import RowFilter.Conversion.Event
import RowFilter.Limits
import RowFilter.Schema
import RowFilter.Sql.LikePattern
import RowFilter.Sql.Predicate

set_option autoImplicit false

namespace RowFilter.Condition

open Sql (CompareOp Predicate StringTest)

/-! ## The functions of conditions -/

/-- The forms that an application may have as a condition. -/
inductive Form where
  | both
  | either
  | negation
  | comparison (op : CompareOp)
  | membership
  | test (which : StringTest)
  deriving DecidableEq, Repr

/-- The form of the applications of a function. -/
def Form.ofFunction? (function : String) : Option Form :=
  match function with
  | "_&&_" => some .both
  | "_||_" => some .either
  | "!_" => some .negation
  | "_==_" => some (.comparison .eq)
  | "_!=_" => some (.comparison .notEq)
  | "_<_" => some (.comparison .lt)
  | "_<=_" => some (.comparison .ltEq)
  | "_>_" => some (.comparison .gt)
  | "_>=_" => some (.comparison .gtEq)
  | "@in" => some .membership
  -- the names of the tests are ordinary ones, without the marks of an operator
  | _ => (StringTest.ofFunction? function).map .test

/-! ## Operands -/

/-- The field an operand names; of a selection that is the selected name. -/
def fieldName : TypedExpr → Except Rejection String
  | .ident _ name => .ok name
  | .select _ _ field => .ok field
  | _ => .error .notAField

/-- The value of a literal operand. Bytes cannot be bound. -/
def constant : TypedExpr → Except Rejection Value
  | .literal _ (.bytes _) => .error .bytesConstant
  | .literal _ value => .ok value
  | _ => .error .notAConstant

/-- A literal held against the declared type of its field. Fields that are not
declared or whose type is not scalar take literals of every kind. -/
def checkLiteral (schema : Schema) (field : String) (value : Value) : Except Rejection Unit :=
  match schema.typeOf? field with
  | none => .ok ()
  | some declared =>
    -- the kind of a literal says nothing about a field that is not scalar
    if declared.isScalar ∧ value.kind ≠ declared then
      .error (.wrongLiteral field declared value.kind)
    else .ok ()

/-! ## Leaves -/

/-- A field compared with a literal. Equality with `null` is a check for it, since
comparing with it never holds; no order is defined on it. -/
def comparison (schema : Schema) (op : CompareOp) (left right : TypedExpr) :
    Except Rejection Predicate :=
  match fieldName left with
  | .error why => .error why
  | .ok field =>
    match constant right with
    | .error why => .error why
    | .ok value =>
      let column := schema.resolveColumn field
      -- before the kinds are compared: `null` fits a field of any type
      if value.isNull then
        match op with
        | .eq => .ok (.nullCheck column true)
        | .notEq => .ok (.nullCheck column false)
        | _ => .error (.nullOrdering field)
      else
        match checkLiteral schema field value with
        | .error why => .error why
        | .ok () => .ok (.compare column op value)

/-- The values of a list, from the element at `index` on; none may be `null`. -/
def elements (schema : Schema) (field : String) (index : Nat) :
    List TypedExpr → Except Rejection (List Value)
  | [] => .ok []
  | e :: rest =>
    match constant e with
    | .error why => .error why
    | .ok value =>
      if value.isNull then .error (.nullElement index field)
      else
        match checkLiteral schema field value with
        | .error why => .error why
        | .ok () => (elements schema field (index + 1) rest).map (value :: ·)

/-- A field sought in a list of literals. The size of the list is checked before
its elements; an empty list never matches. -/
def membership (schema : Schema) (limits : Limits) (left right : TypedExpr) :
    Except Rejection Predicate :=
  match fieldName left with
  | .error why => .error why
  | .ok field =>
    match right with
    | .list _ es =>
      match limits.checkInSize es.length with
      | .error why => .error why
      | .ok () =>
        -- an empty list in parentheses would be no valid condition
        if es.isEmpty then .ok .never
        else (elements schema field 0 es).map (.isIn (schema.resolveColumn field))
    | _ => .error .notAList

/-- A test on a string field with a literal, as a pattern. -/
def stringTest (schema : Schema) (which : StringTest) (function : String)
    (receiver argument : TypedExpr) : Except Rejection Predicate :=
  match fieldName receiver with
  | .error why => .error why
  | .ok field =>
    match schema.typeOf? field with
    | some type =>
      if type = .string then pattern field else .error (.testOnType function field type)
    -- the type of a field that is not declared is left to the compiler
    | none => pattern field
where
  /-- The pattern on the column of a field that may be tested. -/
  pattern (field : String) : Except Rejection Predicate :=
    match constant argument with
    | .error why => .error why
    | .ok (.string text) => .ok (.like (schema.resolveColumn field) (which.pattern text))
    | .ok _ => .error (.testArgument function)

/-! ## Applications -/

/-- A rejection as a failure of the conversion. -/
def rejecting {α : Type} : Except Rejection α → Except ConvertError α
  | .ok a => .ok a
  | .error why => .error (.rejected why)

/-- A pair of conditions joined to one. The left one is built first, and if it fails the right one
is not built at all. -/
def joined (combine : Predicate → Predicate → Predicate) (left right : Told Predicate) :
    Told Predicate :=
  left.andThen fun l => right.map (combine l)

/-- An application to a wrong number of arguments. -/
def wrongArity (function : String) (expected : Nat) (arguments : List TypedExpr) : Told Predicate :=
  .quiet (.error (.contract (.arity function expected arguments.length)))

mutual

/-- A typed tree as a condition, with what is told while it is built. A field by itself is tested
for being true. -/
def build (schema : Schema) (limits : Limits) : TypedExpr → Told Predicate
  | .literal _ (.boolean value) => .quiet (.ok (.constant value))
  | .literal _ value => .quiet (.error (.contract (.nonBooleanLiteral value.kind)))
  -- the declared type is not asked for, unlike where the field is compared with `true`
  | .ident _ name => .quiet (.ok (.compare (schema.resolveColumn name) .eq (.boolean true)))
  | .select _ _ _ => .quiet (.error (.rejected .notACondition))
  | .list _ _ => .quiet (.error (.rejected .notACondition))
  | .call _ function arguments => application schema limits function none arguments
  | .method _ receiver function arguments =>
    application schema limits function (some receiver) arguments

/-- An application as a condition. A receiver matters to the tests on strings only. A function of no
form is told of before it is refused. -/
def application (schema : Schema) (limits : Limits) (function : String)
    (receiver : Option TypedExpr) (arguments : List TypedExpr) : Told Predicate :=
  match Form.ofFunction? function with
  | some .both =>
    match arguments with
    | [left, right] => joined .and (build schema limits left) (build schema limits right)
    | _ => wrongArity function 2 arguments
  | some .either =>
    match arguments with
    | [left, right] => joined .or (build schema limits left) (build schema limits right)
    | _ => wrongArity function 2 arguments
  | some .negation =>
    match arguments with
    | [inner] => (build schema limits inner).map .not
    | _ => wrongArity function 1 arguments
  | some (.comparison op) =>
    match arguments with
    | [left, right] => .quiet (rejecting (comparison schema op left right))
    | _ => wrongArity function 2 arguments
  | some .membership =>
    match arguments with
    | [left, right] => .quiet (rejecting (membership schema limits left right))
    | _ => wrongArity function 2 arguments
  -- the only form whose operand stands in front of the dot
  | some (.test which) =>
    match receiver with
    | none => .quiet (.error (.contract (.missingReceiver function)))
    | some r =>
      match arguments with
      | [argument] => .quiet (rejecting (stringTest schema which function r argument))
      | _ => wrongArity function 1 arguments
  | none =>
    (Told.tell [.unsupported function]).andThen fun _ =>
      .quiet (.error (.rejected (.unsupportedFunction function)))

end

/-- What a typed tree comes to as a condition. -/
def compile (schema : Schema) (limits : Limits) (e : TypedExpr) : Except ConvertError Predicate :=
  (build schema limits e).result

end RowFilter.Condition
