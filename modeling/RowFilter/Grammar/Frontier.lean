/-
How far a parse got, and which rules failed there.

A syntax error is reported at the furthest place where a rule failed, with the
rules that failed at it. A rule that fails there in place of the rules inside it
takes their place in the report, since it says more; only a single failure inside
is kept as it is, being the more exact one.
-/
import RowFilter.Grammar.Rule
import RowFilter.Source.Span

set_option autoImplicit false

namespace RowFilter.Grammar

/-- The furthest place of failure so far and what failed there, oldest first. -/
structure Frontier where
  position : Position
  attempts : List Rule

namespace Frontier

/-- Nothing has failed yet. -/
def start : Frontier := ⟨.start, []⟩

/-- How many failures are on record at a place. -/
def countAt (f : Frontier) (p : Position) : Nat :=
  if p.offset = f.position.offset then f.attempts.length else 0

/-- Recording that `rule`, tried at `p` when the frontier was `before`, has failed
and left the frontier `after` behind. -/
def failed (before after : Frontier) (rule : Rule) (p : Position) : Frontier :=
  let known := before.countAt p
  -- a single failure inside says more than the rule around it
  if after.countAt p = known + 1 then after
  else if p.offset = after.position.offset then
    ⟨after.position, after.attempts.take known ++ [rule]⟩
  else if after.position.offset < p.offset then ⟨p, [rule]⟩
  else after

end Frontier

end RowFilter.Grammar
