/-
Limits on the size of expressions.
-/
import RowFilter.Conversion.Error

set_option autoImplicit false

namespace RowFilter

structure Limits where
  /-- In characters. -/
  maxLength : Nat
  maxDepth : Nat
  /-- The longest list on the right of `in`. -/
  maxInSize : Nat
  deriving DecidableEq, Repr

namespace Limits

/-- What holds where nothing else is set. -/
def default : Limits := ⟨10000, 50, 1000⟩

/-- Zero stands for the default. -/
def orDefault (value fallback : Nat) : Nat := if value = 0 then fallback else value

/-- Limits as they are set, zeros replaced. -/
def ofSettings (length depth inSize : Nat) : Limits :=
  ⟨orDefault length default.maxLength, orDefault depth default.maxDepth,
   orDefault inSize default.maxInSize⟩

/-- The length of a source text, if it is within the limit. -/
def checkLength (l : Limits) (source : String) : Except Rejection Nat :=
  if l.maxLength < source.length then .error (.tooLong l.maxLength source.length)
  else .ok source.length

def checkDepth (l : Limits) (depth : Nat) : Except Rejection Unit :=
  if l.maxDepth < depth then .error (.tooDeep l.maxDepth depth) else .ok ()

def checkInSize (l : Limits) (size : Nat) : Except Rejection Unit :=
  if l.maxInSize < size then .error (.listTooLarge l.maxInSize size) else .ok ()

/-- Beyond half of a limit, an expression is worth a report. -/
def isComplex (l : Limits) (depth length : Nat) : Bool :=
  l.maxDepth / 2 < depth || l.maxLength / 2 < length

end Limits

end RowFilter
