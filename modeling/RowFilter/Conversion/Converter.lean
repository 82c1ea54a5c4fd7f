/-
Converters: from source text to a condition, under a fixed schema, policy and
limits.

A conversion passes its checks in a fixed order, and the first that fails decides:
length, compilation, type, depth, then the roles if any are given, then what
conditions can express. What an observer is told comes out beside the result, in
the order in which it is told.
-/
import RowFilter.Config
import RowFilter.Conversion.Condition
import RowFilter.Sql.Renderer
import RowFilter.Typing.Checker

set_option autoImplicit false

namespace RowFilter

/-- What turns source text into a typed tree. Nothing is assumed of a compiler that
is brought along. -/
inductive ExpressionCompiler where
  | environment (env : Environment)
  | custom (compile : String → Except (List Diagnostic) TypedExpr)

def ExpressionCompiler.compile : ExpressionCompiler → String →
    Except (List Diagnostic) TypedExpr
  | .environment env, source => env.compile source
  | .custom f, source => f source

/-- A converted expression: its condition, and the depth of its typed tree. -/
structure Conversion where
  predicate : Sql.Predicate
  depth : Nat
  deriving DecidableEq, Repr

structure Converter where
  compiler : ExpressionCompiler
  schema : Schema
  policy : Policy
  limits : Limits

namespace Converter

/-! ## Making converters -/

/-- A converter with a compiler of one's own; field names are not looked at. -/
def withCompiler (config : Config) (compiler : ExpressionCompiler) : Converter :=
  ⟨compiler, config.schema, config.policy, config.limits⟩

/-- A converter whose expressions may use exactly the configured fields. -/
def ofConfig (config : Config) : Except DeclarationError Converter :=
  match Environment.ofDeclarations config.declarations with
  | .error e => .error e
  | .ok env => .ok (withCompiler config (.environment env))

/-! ## Converting -/

/-- A typed tree that has passed the checks that do not depend on roles. -/
structure Checked where
  tree : TypedExpr
  length : Nat
  depth : Nat

/-- The checks of length, compilation, type and depth. -/
def check (c : Converter) (source : String) : Except Rejection Checked :=
  match c.limits.checkLength source with
  | .error why => .error why
  | .ok length =>
    match c.compiler.compile source with
    | .error diagnostics => .error (.notCompiled diagnostics)
    | .ok tree =>
      -- the type that the tree claims, which a compiler of one's own may get wrong
      if tree.type ≠ .bool then .error (.notBoolean tree.type)
      else
        match c.limits.checkDepth tree.depth with
        | .error why => .error why
        | .ok () => .ok ⟨tree, length, tree.depth⟩

/-- The report on an expression that is large for its limits. -/
def complexity (c : Converter) (checked : Checked) : List Event :=
  if c.limits.isComplex checked.depth checked.length then
    [.complex checked.depth checked.length]
  else []

/-- The first field that the roles may not use. Without roles, or with a policy that
is switched off, there is none. -/
def restricted? (c : Converter) (tree : TypedExpr) (roles : Option (List String)) :
    Option (List String × String) :=
  match roles with
  | none => none
  | some rs =>
    if c.policy.isEnabled then (c.policy.firstUnauthorized? tree rs).map fun f => (rs, f)
    else none

/-- The look at the roles. The field that they may not use is told before the conversion fails for
it. -/
def authorize (c : Converter) (tree : TypedExpr) (roles : Option (List String)) : Told Unit :=
  match c.restricted? tree roles with
  | some (rs, field) =>
    (Told.tell [.unauthorized field rs]).andThen fun _ =>
      .quiet (.error (.rejected (.restrictedField rs field)))
  | none => .quiet (.ok ())

/-- The result of a conversion, and what is told on the way to it. -/
def attempt (c : Converter) (source : String) (roles : Option (List String)) : Told Conversion :=
  match c.check source with
  | .error why => .quiet (.error (.rejected why))
  | .ok checked =>
    -- told even if the conversion fails later on
    (Told.tell (c.complexity checked)).andThen fun _ =>
      (c.authorize checked.tree roles).andThen fun _ =>
        (Condition.build c.schema c.limits checked.tree).map fun predicate =>
          ⟨predicate, checked.depth⟩

/-- The failure of a result. -/
def failure? {α : Type} : Except ConvertError α → Option ConvertError
  | .ok _ => none
  | .error e => some e

/-- One conversion; the attempt itself is told last. -/
def run (c : Converter) (source : String) (roles : Option (List String)) : Told Conversion :=
  -- whatever has come of it
  let r := c.attempt source roles
  ⟨r.result, r.events ++ [.attempt (failure? r.result)]⟩

/-- Converting without looking at roles. -/
def convert (c : Converter) (source : String) : Except ConvertError Conversion :=
  (c.run source none).result

/-- Converting for a caller with roles. -/
def convertWithRoles (c : Converter) (source : String) (roles : List String) :
    Except ConvertError Conversion :=
  (c.run source (some roles)).result

end Converter

end RowFilter
