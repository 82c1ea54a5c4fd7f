/-
Log records of conversions. Every record has a level, a target, which names the
part that writes it, and named texts.
-/
import RowFilter.Conversion.Converter

set_option autoImplicit false

namespace RowFilter

inductive LogLevel where
  | debug
  | info
  | warn
  | error
  deriving DecidableEq, Repr

def LogLevel.name : LogLevel → String
  | .debug => "DEBUG"
  | .info => "INFO"
  | .warn => "WARN"
  | .error => "ERROR"

structure LogRecord where
  level : LogLevel
  target : String
  fields : List (String × String)
  deriving DecidableEq, Repr

namespace LogRecord

/-! ## Targets -/

def converterTarget : String := "filter_compiler::converter"

def environmentTarget : String := "filter_syntax::semantic::environment"

/-- The target of everything that concerns security. -/
def securityTarget : String := "celsql::security"

/-! ## Records -/

/-- The record of a new converter with so many fields. -/
def initialised (fields : Nat) : LogRecord :=
  ⟨.debug, converterTarget,
   [("message", "filter converter initialised"), ("fields", Nat.repr fields)]⟩

/-- The record of an expression that an environment has compiled. -/
def compiled (type : ValueType) : LogRecord :=
  ⟨.debug, environmentTarget, [("message", "expression compiled"), ("ty", type.toText)]⟩

/-- The record of an event during the conversion of `source`. -/
def ofEvent (source : String) : Event → LogRecord
  | .attempt none =>
    ⟨.info, securityTarget,
     [("message", "filter conversion succeeded"), ("expression", source)]⟩
  | .attempt (some e) =>
    ⟨.warn, securityTarget,
     [("message", "filter conversion failed"), ("expression", source), ("code", e.codeName)]⟩
  | .complex depth length =>
    ⟨.warn, securityTarget,
     [("message", "complex filter expression"), ("expression", source),
      ("depth", Nat.repr depth), ("length", Nat.repr length)]⟩
  | .unauthorized field roles =>
    ⟨.warn, securityTarget,
     [("message", "unauthorized filter field"), ("expression", source), ("field", field),
      ("roles", Text.quotedList roles)]⟩
  | .unsupported function =>
    ⟨.warn, securityTarget,
     [("message", "unsupported filter operation"), ("expression", source),
      ("function", function)]⟩

/-- The record of the outcome. -/
def ofResult (source : String) : Except ConvertError Conversion → LogRecord
  | .ok conversion =>
    ⟨.debug, converterTarget,
     [("message", "filter expression converted"), ("depth", Nat.repr conversion.depth)]⟩
  | .error (.rejected why) =>
    ⟨.warn, converterTarget,
     [("message", "filter expression rejected"), ("code", why.code.name),
      ("detail", why.internal)]⟩
  | .error (.contract breach) =>
    ⟨.error, converterTarget,
     [("message", "expression compiler contract violated"), ("violation", breach.message),
      ("expression", source)]⟩

end LogRecord

namespace Converter

/-- The record that compiling writes. Only an environment writes one, and only for
an expression that it compiles; a text that is too long is not compiled at all. -/
def compilationLog (c : Converter) (source : String) : List LogRecord :=
  match c.compiler, c.limits.checkLength source with
  | .environment env, .ok _ =>
    match env.compile source with
    | .ok tree => [.compiled tree.type]
    | .error _ => []
  -- compilers that are brought along write records of their own, or none
  | _, _ => []

/-- The records of one conversion, oldest first. -/
def log (c : Converter) (source : String) (roles : Option (List String)) : List LogRecord :=
  let r := c.run source roles
  c.compilationLog source ++ r.events.map (LogRecord.ofEvent source)
    ++ [LogRecord.ofResult source r.result]

end Converter

end RowFilter
