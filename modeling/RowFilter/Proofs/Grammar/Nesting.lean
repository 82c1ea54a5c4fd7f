/-
The scan in front of the parser, and the brackets that the parser reads.

`Tree.brackets` lists the brackets that a parse tree stands for. Brackets have no nodes: a call has
round ones, a list has square ones, and an expression right below a member stands in round
ones. The grammar is gone through from the bottom to the top: every phrase leads the scan
along, shows it just the brackets of its trees, and asks for expressions one bracket further
inside (`keeps_expressionBody`). So over a whole program the scan sees the brackets of its
tree (`seen_eq_brackets`).
-/
import RowFilter.Proofs.Grammar.Steps

set_option autoImplicit false

namespace RowFilter.Grammar

open Brackets (Context)
open Brackets.Context (Code Ready)

/-! ## The brackets of a tree -/

/-- The brackets that belong to a rule itself, around those inside. -/
def Rule.around : Rule → List Char → List Char
  | .globalCall, inside | .memberCall, inside => '(' :: inside ++ [')']
  | .listLiteral, inside => '[' :: inside ++ [']']
  | _, inside => inside

/-- The brackets of one node below another: an expression that is an operand is one in brackets. -/
def Rule.below (parent child : Rule) (brackets : List Char) : List Char :=
  if parent = .member ∧ child = .expression then '(' :: brackets ++ [')'] else brackets

namespace Tree

mutual

/-- The round and square brackets of a derivation, in the order in which they stand in its text;
what literals and comments hold is not part of it. -/
def brackets : Tree → List Char
  | .token _ _ _ => []
  | .node rule _ children => rule.around (bracketsBelow rule children)

def bracketsBelow (parent : Rule) : List Tree → List Char
  | [] => []
  | t :: more => parent.below t.rule t.brackets ++ bracketsBelow parent more

end

theorem bracketsBelow_append (parent : Rule) (left right : List Tree) :
    bracketsBelow parent (left ++ right)
      = bracketsBelow parent left ++ bracketsBelow parent right := by
  induction left with
  | nil => rfl
  | cons t more ih =>
      rw [List.cons_append, bracketsBelow, bracketsBelow, ih, List.append_assoc]

theorem bracketsBelow_singleton (parent : Rule) (t : Tree) :
    bracketsBelow parent [t] = parent.below t.rule t.brackets := by
  rw [bracketsBelow, bracketsBelow, List.append_nil]

end Tree

/-! ## What trees spell -/

/-- Brackets as the trees below a node have them. -/
def Below (parent : Rule) (trees : List Tree) (brackets : List Char) : Prop :=
  brackets = Tree.bracketsBelow parent trees

/-- Brackets as a node has them. -/
def Around (name : Rule) (trees : List Tree) (brackets : List Char) : Prop :=
  brackets = name.around (Tree.bracketsBelow name trees)

/-- No brackets at all. -/
def Silent (trees : List Tree) (brackets : List Char) : Prop :=
  brackets = [] ∧ ∀ parent, Tree.bracketsBelow parent trees = []

/-- The brackets inside one expression. -/
def Single (trees : List Tree) (brackets : List Char) : Prop :=
  ∃ t : Tree, trees = [t] ∧ t.rule = .expression ∧ brackets = t.brackets

/-- Trees without brackets have none below any node. -/
theorem Silent.below {trees : List Tree} {brackets : List Char} (h : Silent trees brackets)
    (parent : Rule) : Below parent trees brackets := by
  rw [Below, h.1, h.2]

theorem silent_append {left right : List Tree} {v w : List Char} (h : Silent left v)
    (h' : Silent right w) : Silent (left ++ right) (v ++ w) := by
  refine ⟨by rw [h.1, h'.1]; rfl, fun parent => ?_⟩
  rw [Tree.bracketsBelow_append, h.2, h'.2]
  rfl

theorem below_append {parent : Rule} {left right : List Tree} {v w : List Char}
    (h : Below parent left v) (h' : Below parent right w) :
    Below parent (left ++ right) (v ++ w) := by
  rw [Below, Tree.bracketsBelow_append, h, h']

/-- An expression adds no brackets of its own, except in a member. -/
theorem Single.below {trees : List Tree} {brackets : List Char} (h : Single trees brackets)
    {parent : Rule} (hparent : parent ≠ .member) : Below parent trees brackets := by
  obtain ⟨t, rfl, -, rfl⟩ := h
  rw [Below, Tree.bracketsBelow_singleton, Rule.below, if_neg fun h => hparent h.1]

/-! ## The phrases of the grammar -/

namespace Phrase

section
variable {nested : Matcher} {n : Nat} {before after : Bool} {parent : Rule}
  {p q item operand operators body : Phrase}

/-- What keeps silent may stand below any node. -/
theorem Keeps.silent_below (h : Keeps nested n before after Silent p) :
    Keeps nested n before after (Below parent) p :=
  h.mono fun _ _ hsilent => hsilent.below parent

/-- A token keeps silent if its pattern leads the scan past it. -/
theorem keeps_silent {name : Rule} {pattern : Pattern} (hname : name ≠ .expression)
    (hleads : pattern.Leads (Code before) (Code after)) (htakes : pattern.takes = true) :
    Keeps nested n before after Silent (.token name pattern) := by
  refine keeps_token hleads htakes fun span text => ⟨rfl, fun parent => ?_⟩
  rw [Tree.bracketsBelow_singleton, Rule.below, if_neg fun h => hname h.2]
  rfl

/-- A rule adds its brackets around those of its body. -/
theorem Keeps.node {name : Rule} (h : Keeps nested n before after (Around name) body)
    (hname : name ≠ .expression) :
    Keeps nested n before after (Below parent) (.rule name body) := by
  refine h.rule fun span ts w hw => ?_
  rw [Below, Tree.bracketsBelow_singleton, Rule.below, if_neg fun h => hname h.2, hw,
    Tree.brackets]

/-! ### Tokens -/

/-- A mark that is no bracket. -/
theorem keeps_separator {x : Char}
    (hx : (Pattern.exactly [x]).avoids ('r' :: 'R' :: Context.special) = true) :
    Keeps nested n false true Silent (mark x) :=
  keeps_mark hx ⟨rfl, fun _ => rfl⟩

/-- An operator without a slash. -/
theorem keeps_operator {name : Rule} {spelling : String} (hname : name ≠ .expression)
    (havoids : (Pattern.exactly spelling.toList).avoids ('r' :: 'R' :: Context.special) = true)
    (htakes : (Pattern.exactly spelling.toList).takes = true) :
    Keeps nested n false true Silent (operator name spelling) :=
  keeps_silent hname (Pattern.leads_clean havoids htakes) htakes

/-- A slash that divides. No second one follows it, since layout has been skipped in front. -/
theorem keeps_division : Keeps nested n false true Silent (operator .opDiv "/") where
  matched k c trees next hmeets hmatch := by
    obtain ⟨taken, rest, hsplit, rfl, rfl⟩ := matched?_token_eq_some_iff.mp hmatch
    obtain ⟨rfl, hrest⟩ := Pattern.split?_exactly_eq_some_iff.mp hsplit
    have hready : k.Ready ('/' :: rest) := by
      have hready := hmeets.ready
      rwa [hrest] at hready
    obtain ⟨hnext, hcounts⟩ := hready.next_eq
    have hnone : k.seen ['/'] = [] := Context.seen_cons_of_not_counts hcounts []
    refine ⟨[], ⟨.slash, false⟩, ⟨['/'], Cursor.moves_past hrest, hnext, hnone⟩,
      ⟨fun hslash => ?_, fun _ => rfl⟩, ⟨rfl, fun parent => ?_⟩, rises_nil⟩
    · -- two slashes would be a comment
      obtain ⟨more, rfl⟩ : ∃ more, rest = '/' :: more := by
        cases rest with
        | nil => cases hslash
        | cons x more =>
            obtain rfl : x = '/' := Option.some.inj hslash
            exact ⟨more, rfl⟩
      have hsettled := hmeets.settled
      rw [hrest] at hsettled
      cases hsettled
    · rw [Tree.bracketsBelow_singleton, Rule.below, if_neg fun h => by cases h.2]
      rfl
  asked k c d _ hd := by cases hd

theorem keeps_orOperator : Keeps nested n false true Silent orOperator :=
  keeps_operator (by decide) rfl rfl

theorem keeps_andOperator : Keeps nested n false true Silent andOperator :=
  keeps_operator (by decide) rfl rfl

theorem keeps_relationOperator : Keeps nested n false true Silent relationOperator := by
  have hin : (word "in").Leads (Code false) (Code true) :=
    (Pattern.leads_clean (p := .exactly "in".toList) rfl rfl).seq Pattern.leads_unless
  exact (keeps_operator (by decide) rfl rfl).alt <| (keeps_operator (by decide) rfl rfl).alt <|
    (keeps_operator (by decide) rfl rfl).alt <| (keeps_operator (by decide) rfl rfl).alt <|
    (keeps_operator (by decide) rfl rfl).alt <| (keeps_operator (by decide) rfl rfl).alt <|
    keeps_silent (by decide) hin rfl

theorem keeps_sumOperator : Keeps nested n false true Silent sumOperator :=
  (keeps_operator (by decide) rfl rfl).alt (keeps_operator (by decide) rfl rfl)

theorem keeps_productOperator : Keeps nested n false true Silent productOperator :=
  (keeps_operator (by decide) rfl rfl).alt
    (keeps_division.alt (keeps_operator (by decide) rfl rfl))

theorem keeps_frontOperator : Keeps nested n false true Silent frontOperator :=
  (keeps_operator (by decide) rfl rfl).alt (keeps_operator (by decide) rfl rfl)

/-- A name is silent. It may end with the letter of a raw string, so nothing is said of what is
behind it. -/
theorem keeps_ident : Keeps nested n false false Silent ident :=
  keeps_silent (by decide) (Pattern.leads_plain rfl) rfl

/-- A literal is silent, whatever characters it has between its quotes. -/
theorem keeps_literal : Keeps nested n true false Silent literal := by
  have hplain : ∀ {name : Rule} {pattern : Pattern}, name ≠ .expression →
      pattern.avoids Context.special = true → pattern.takes = true →
      Keeps nested n true false Silent (.token name pattern) :=
    fun hname havoids htakes =>
      (keeps_silent hname (Pattern.leads_plain havoids) htakes).tighten
  refine (hplain (by decide) rfl rfl).alt <| (hplain (by decide) rfl rfl).alt <|
    Keeps.alt ?_ <| Keeps.alt ?_ <| (hplain (by decide) rfl rfl).alt <|
    (hplain (by decide) rfl rfl).alt (hplain (by decide) rfl rfl)
  · exact (keeps_silent (by decide) Pattern.leads_bytesLiteral rfl).tighten
  · exact keeps_silent (by decide) Pattern.leads_stringLiteral rfl

/-! ### From operands to expressions -/

section
variable (hnested : Led true false Single nested)
include hnested

/-- Arguments have the brackets of their expressions. -/
theorem keeps_arguments {name : Rule} (hname : name ≠ .member) :
    Keeps nested 0 true false (Below name) arguments := by
  have hargument : Keeps nested 0 true false (Below name) .expression :=
    (keeps_expression hnested).mono fun _ _ hsingle => hsingle.below hname
  refine hargument.seq (Keeps.many ?_ rfl fun _ _ _ _ => below_append)
    fun _ _ _ _ => below_append
  exact (keeps_separator rfl).silent_below.seq hargument fun _ _ _ _ => below_append

/-- A name with arguments, of a call with the given rule. -/
theorem keeps_application {name : Rule} (hname : name ≠ .member)
    (haround : ∀ inside, name.around inside = '(' :: inside ++ [')']) :
    Keeps nested 1 false false (Around name)
      (parts ident [mark '(', .optional arguments, mark ')']) := by
  have henclosed : Keeps nested 1 false true (Around name)
      (parts (mark '(') [.optional arguments, mark ')']) :=
    Keeps.enclosed rfl rfl ((keeps_arguments hnested hname).optional rfl)
      fun ts w hw => by rw [Around, haround, hw]
  refine keeps_ident.seq henclosed.loosen fun left right v w hv hw => ?_
  rw [Around, Tree.bracketsBelow_append, hv.2, hv.1, hw]
  rfl

/-- A call has brackets around those of its arguments. -/
theorem keeps_globalCall : Keeps nested 1 false false (Below parent) globalCall :=
  (keeps_application hnested (by decide) fun _ => rfl).node (by decide)

/-- So has a call on a receiver. -/
theorem keeps_memberCall : Keeps nested 1 false false (Below parent) memberCall := by
  have happlication : Keeps nested 1 false false (Around .memberCall)
      (parts ident [mark '(', .optional arguments, mark ')']) :=
    keeps_application hnested (by decide) fun _ => rfl
  refine ((keeps_separator rfl).seq happlication.tighten fun left right v w hv hw => ?_).node
    (by decide)
  rw [Around, Tree.bracketsBelow_append, hv.2, hv.1, hw]
  rfl

omit hnested in
/-- A selection has none. -/
theorem keeps_fieldSelect : Keeps nested 1 false false (Below parent) fieldSelect := by
  have hselect : Keeps nested 1 false false Silent (.seq (mark '.') ident) :=
    (keeps_separator rfl).seq keeps_ident.tighten fun _ _ _ _ => silent_append
  exact (hselect.mono fun _ _ hsilent => hsilent.below .fieldSelect).node (by decide)

/-- **Lists.** A list has brackets around those of its elements. -/
theorem keeps_listLiteral : Keeps nested 1 false false (Below parent) listLiteral := by
  have helement : Keeps nested 0 true false (Below .listLiteral) .expression :=
    (keeps_expression hnested).mono fun _ _ hsingle => hsingle.below (by decide)
  have hcomma : ∀ {n}, Keeps nested n false true (Below .listLiteral) (mark ',') :=
    (keeps_separator rfl).silent_below
  have hmore : Keeps nested 0 false false (Below .listLiteral)
      (.many (.seq (mark ',') .expression)) :=
    (hcomma.seq helement fun _ _ _ _ => below_append).many rfl fun _ _ _ _ => below_append
  -- a comma may stand behind the last element
  have helements : Keeps nested 0 true false (Below .listLiteral)
      (parts .expression [.many (.seq (mark ',') .expression), .optional (mark ',')]) :=
    helement.seq (hmore.seq (hcomma.loosen.optional rfl) fun _ _ _ _ => below_append)
      fun _ _ _ _ => below_append
  refine Keeps.node (Keeps.enclosed rfl rfl (helements.optional rfl) ?_).loosen (by decide)
  intro ts w hw
  rw [hw]
  rfl

/-- An operand, and an expression in brackets as one. -/
theorem keeps_primary : Keeps nested 1 true false (Below .member) primary := by
  have hbracketed : Keeps nested 1 false true (Below .member)
      (parts (mark '(') [.expression, mark ')']) := by
    refine Keeps.enclosed rfl rfl (keeps_expression hnested) ?_
    rintro ts w ⟨t, rfl, ht, rfl⟩
    rw [Below, Tree.bracketsBelow_singleton, Rule.below, if_pos ⟨rfl, ht⟩]
  exact (keeps_globalCall hnested).tighten.alt <| (keeps_listLiteral hnested).tighten.alt <|
    hbracketed.loosen.tighten.alt <| keeps_literal.silent_below.alt
    keeps_ident.tighten.silent_below

/-- **Members.** An expression in a member is one in brackets. -/
theorem keeps_member : Keeps nested 1 true false (Below parent) member := by
  refine Keeps.node ((keeps_primary hnested).seq (Keeps.many ?_ rfl fun _ _ _ _ => below_append)
    fun _ _ _ _ => below_append) (by decide)
  exact (keeps_memberCall hnested).alt keeps_fieldSelect

theorem keeps_unary : Keeps nested 1 true false (Below parent) unary := by
  have hfront : Keeps nested 1 true true Silent (.many frontOperator) :=
    keeps_frontOperator.tighten.many ⟨rfl, fun _ => rfl⟩ fun _ _ _ _ => silent_append
  exact (hfront.silent_below.seq (keeps_member hnested) fun _ _ _ _ => below_append).node
    (by decide)

omit hnested in
/-- A level of operators adds no brackets to those of its operands. -/
theorem keeps_chain {name : Rule} (hname : name ≠ .expression)
    (haround : ∀ inside, name.around inside = inside)
    (hoperand : Keeps nested 1 true false (Below name) operand)
    (hoperators : Keeps nested 1 false true Silent operators) :
    Keeps nested 1 true false (Below parent) (chain name operand operators) := by
  have hmore : Keeps nested 1 false false (Below name) (.many (.seq operators operand)) :=
    (hoperators.silent_below.seq hoperand fun _ _ _ _ => below_append).many rfl
      fun _ _ _ _ => below_append
  have hall : Keeps nested 1 true false (Below name)
      (.seq operand (.many (.seq operators operand))) :=
    hoperand.seq hmore fun _ _ _ _ => below_append
  refine Keeps.node (hall.mono fun _ _ hw => ?_) hname
  rw [Around, haround, hw]

/-- **The levels together.** -/
theorem keeps_logicalOr : Keeps nested 1 true false (Below parent) logicalOr :=
  keeps_chain (by decide) (fun _ => rfl)
    (keeps_chain (by decide) (fun _ => rfl)
      (keeps_chain (by decide) (fun _ => rfl)
        (keeps_chain (by decide) (fun _ => rfl)
          (keeps_chain (by decide) (fun _ => rfl) (keeps_unary hnested) keeps_productOperator)
          keeps_sumOperator)
        keeps_relationOperator)
      keeps_andOperator)
    keeps_orOperator

/-- An expression has the brackets of what is in it. -/
theorem keeps_expressionBody : Keeps nested 1 true false Single expressionBody :=
  (keeps_logicalOr hnested).rule fun span ts _ hw => ⟨.node .expression span ts, rfl, rfl, hw⟩

end

end

end Phrase

/-! ## Expressions and programs -/

/-- So have nested ones, however deep, by induction on the depth. -/
theorem led_expressionsTo (depth : Nat) : Led true false Single (expressionsTo depth) := by
  induction depth with
  | zero =>
      intro k c trees next _ hmatch
      cases hmatch
  | succ depth ih => exact (Phrase.keeps_expressionBody ih).matched

/-- The scan is led over an expression as its tree has brackets. -/
theorem led_expression : Led true false Single expression? :=
  fun k c trees next hmeets hmatch => led_expressionsTo _ k c trees next hmeets hmatch

/-- The scan at the first expression of a program. -/
theorem exists_meets_start (text : List Char) :
    ∃ k, Covers .start (.ofText text) [] k (skipLayout (.ofText text))
      ∧ Meets true k (skipLayout (.ofText text)) :=
  Stands.skipLayout ⟨trivial, fun _ => rfl⟩

/-- **The scan sees the brackets of the derivation.** If a text is derived by the grammar, the
brackets that count for the scan are those of its parse tree, one by one. -/
theorem seen_eq_brackets {text : List Char} {tree : Tree} (h : readProgram text = .ok tree) :
    Context.start.seen text = tree.brackets := by
  obtain ⟨last, hmatch⟩ := readProgram_eq_ok_iff.mp h
  obtain ⟨inner, hbody, htree⟩ := Phrase.matched?_rule_eq_some_iff.mp hmatch
  obtain ⟨start, first, trees, hstart, htrees, rfl⟩ := Phrase.matched?_seq_eq_some_iff.mp hbody
  obtain ⟨rfl, rest, hrest, rfl⟩ := Phrase.matched?_symbol_eq_some_iff.mp hstart
  obtain ⟨left, between, right, hleft, hright, rfl⟩ := Phrase.matched?_seq_eq_some_iff.mp htrees
  -- nothing has been taken in front of the expression
  obtain rfl : text = rest := hrest
  obtain ⟨k, hfirst, hmeets⟩ := exists_meets_start text
  obtain ⟨w, k', hcovers, hstands, ⟨t, rfl, -, rfl⟩, -⟩ :=
    led_expression k _ left between hmeets hleft
  obtain ⟨k'', hskip, -⟩ := hstands.skipLayout
  obtain ⟨taken, hmoves, -, hseen⟩ := (hfirst.trans hcovers).trans hskip
  -- and nothing is left behind the layout at the end
  obtain ⟨hempty, rfl, rfl⟩ := Phrase.matched?_endOfText_eq_some_iff.mp hright
  have htext : text = taken := by
    have hall := hmoves.rest_eq
    rwa [hempty, List.append_nil] at hall
  rw [htext, hseen, List.singleton_inj.mp htree]
  simp [Tree.brackets, Tree.bracketsBelow, Rule.around, Rule.below]

end RowFilter.Grammar
