/-
How many parts an operator takes, and what becomes of one too many.

Every form of application is made for a number of parts. A test on a string takes a receiver and
an argument; all other operators take their operands as arguments and have no use for a
receiver. What is counted before a condition is built are the arguments alone. For a test, which
asks for its receiver besides, this settles the number of parts. For the other operators it
leaves a gap: a receiver is a part of the tree like any other, it is looked at where depths are
measured and where fields are authorized, but it is not counted, and the condition is the one
that comes of the call without it. So in a tree that compiles an operator has the parts that it
takes exactly if it is a test or carries no receiver, `compile_counts_arguments`.
-/
import RowFilter.Proofs.Condition.Contract

set_option autoImplicit false

namespace RowFilter

/-! ## Applications without their receivers -/

namespace TypedExpr

/-- An application with its receiver left away; any other tree as it is. -/
def withoutReceiver : TypedExpr → TypedExpr
  | .method type _ function arguments => .call type function arguments
  | e => e

/-- Function and arguments stay when the receiver is left away. -/
theorem Applies.withoutReceiver {e : TypedExpr} {function : String} {arguments : List TypedExpr}
    (h : e.Applies function arguments) : e.withoutReceiver.Applies function arguments := by
  cases h with
  | call type => exact .call type function arguments
  | method type => exact .call type function arguments

/-- The parts of an application are its receiver, if there is one, and its arguments. -/
theorem Applies.length_children {e : TypedExpr} {function : String} {arguments : List TypedExpr}
    (h : e.Applies function arguments) :
    e.children.length = e.receiver?.toList.length + arguments.length := by
  cases h with
  | call => exact (Nat.zero_add _).symm
  | method => exact Nat.add_comm _ _

end TypedExpr

namespace Condition

open Sql (CompareOp Predicate StringTest)

/-! ## What forms take -/

/-- The number of parts that the operator of a form takes, the receiver of a test among
them. -/
def Form.partCount (form : Form) : Nat := form.arity + if form.isTest then 1 else 0

variable {schema : Schema} {limits : Limits} {e : TypedExpr} {p : Predicate} {form : Form}
  {arguments : List TypedExpr}

/-- To an operator that is no test a receiver makes no difference, whether the tree compiles or
is refused. -/
theorem compile_withoutReceiver (htest : form.isTest = false)
    (happ : e.Applies form.function arguments) :
    compile schema limits e.withoutReceiver = compile schema limits e := by
  rw [compile_of_applies happ.withoutReceiver, compile_of_applies happ, application_receiver htest]
  exact congrArg Told.result (application_receiver htest).symm

/-! ## What is counted -/

/-- **Only arguments are counted.** In a tree that compiles, every application that is compiled
has as many arguments as its form asks for. It has as many parts as its operator takes exactly
if it is a test or has no receiver. An operator that is no test and carries a receiver has one
part too many; it compiles all the same, to what it is without this part. -/
theorem compile_counts_arguments (hcompile : compile schema limits e = .ok p) :
    ∀ n form arguments, Within n e → n.Applies (Form.function form) arguments →
      arguments.length = form.arity
        ∧ (n.children.length = form.partCount ↔ form.isTest = true ∨ n.receiver? = none)
        ∧ (form.isTest = false → ∀ receiver, n.receiver? = some receiver →
            receiver ∈ n.children ∧ n.children.length = form.partCount + 1
              ∧ ∃ q, Predicate.Part q p ∧ compile schema limits n = .ok q
                ∧ compile schema limits n.withoutReceiver = .ok q) := by
  intro n form arguments hin happ
  -- a node that is compiled has become a part of the condition, so it has compiled by itself
  obtain ⟨q, hpart, hderives⟩ := (derives_of_compile hcompile).of_within hin
  have hq := hderives.compile_eq
  have htakes := takes_of_compile happ hq
  have hcount := htakes.length_eq
  have hchildren := happ.length_children
  rw [hcount] at hchildren
  refine ⟨hcount, ?_, ?_⟩
  · rcases htest : form.isTest with _ | _
    · -- nothing but the receiver can be one too many
      rw [hchildren, Form.partCount, htest]
      cases n.receiver? <;> simp
    · obtain ⟨receiver, hsome⟩ := Option.isSome_iff_exists.mp (htakes.receiver htest)
      rw [hchildren, Form.partCount, htest]
      simp [hsome, Nat.add_comm]
  · intro htest receiver hreceiver
    refine ⟨?_, ?_, q, hpart, hq, ?_⟩
    · -- the application carries a receiver, so it is no plain call
      cases happ with
      | call => cases hreceiver
      | method =>
          obtain rfl := Option.some.inj hreceiver
          exact List.mem_cons_self
    · rw [hchildren, Form.partCount, htest, hreceiver]
      simp [Nat.add_comm]
    · rw [compile_withoutReceiver htest happ, hq]

/-! ### A conjunction with a receiver -/

/-- Two flags joined, on a third one as the receiver. -/
def flagsOnFlag : TypedExpr :=
  .method .bool (.ident .bool "hidden") "_&&_" [.ident .bool "active", .ident .bool "vip"]

/-- The negation of a text that contains another, written with the receiver that a test has. -/
def missingPart : TypedExpr :=
  .call .bool "!_" [.method .bool (.ident .string "name") "contains" [.ofValue (.string "x")]]

/-- In the negated test every operator has the parts it takes. In the conjunction there is a
part too many, and no trace of it in the condition. -/
theorem compile_counts_arguments_flags :
    compile ⟨[]⟩ Limits.default missingPart = .ok (.not (.like "name" "%x%"))
      ∧ missingPart.children.length = Form.negation.partCount
      ∧ compile ⟨[]⟩ Limits.default flagsOnFlag
          = .ok (.and (.compare "active" .eq (.boolean true)) (.compare "vip" .eq (.boolean true)))
      ∧ flagsOnFlag.children.length = Form.both.partCount + 1
      ∧ ∃ q, compile ⟨[]⟩ Limits.default flagsOnFlag = .ok q
          ∧ compile ⟨[]⟩ Limits.default flagsOnFlag.withoutReceiver = .ok q := by
  have hmissing : compile ⟨[]⟩ Limits.default missingPart = .ok (.not (.like "name" "%x%")) := rfl
  have hflags : compile ⟨[]⟩ Limits.default flagsOnFlag
      = .ok (.and (.compare "active" .eq (.boolean true))
          (.compare "vip" .eq (.boolean true))) := rfl
  obtain ⟨-, hcounts, -⟩ := compile_counts_arguments hmissing missingPart .negation _
    (Within.root _) (.call _ _ _)
  obtain ⟨-, -, hdropped⟩ := compile_counts_arguments hflags flagsOnFlag .both _
    (Within.root _) (.method _ _ _ _)
  obtain ⟨-, hlength, q, -, hq, hwithout⟩ := hdropped rfl (.ident .bool "hidden") rfl
  exact ⟨hmissing, hcounts.mpr (Or.inr rfl), hflags, hlength, q, hq, hwithout⟩

/-- A conjunction takes two parts. With a receiver and two arguments it has three and compiles;
with three arguments it is refused as a breach of contract. -/
theorem conjunction_with_receiver_compiles :
    Form.both.partCount = 2 ∧ flagsOnFlag.Applies Form.both.function flagsOnFlag.children.tail
      ∧ flagsOnFlag.children.length = 3
      ∧ compile ⟨[]⟩ Limits.default flagsOnFlag
          = .ok (.and (.compare "active" .eq (.boolean true)) (.compare "vip" .eq (.boolean true)))
      ∧ compile ⟨[]⟩ Limits.default (.call .bool "_&&_" flagsOnFlag.children)
          = .error (.contract (.arity "_&&_" 2 3)) :=
  ⟨rfl, .method _ _ _ _, rfl, rfl, rfl⟩

end Condition

end RowFilter
