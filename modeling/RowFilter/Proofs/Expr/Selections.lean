/-
Paths, however they are bracketed and laid out.

A path is a name with selections behind it. In a source its parts may stand in brackets, as in
`(user . name).team`, with any layout between the tokens; brackets leave no node, so the tree of such
a source is a member of members, each of which has one more field than the one inside it. The path is
the same (`derives_path`), or it has more segments than a tree may have levels.
-/
import RowFilter.Proofs.Expr.Layout
import RowFilter.Proofs.Expr.Paths

set_option autoImplicit false

namespace RowFilter.Expr

open Grammar
open Grammar.Phrase (Derives)

variable {place : Span} {name field : String} {fields : List String} {e e' : Expr}
  {tokens : List (List Char)} {trees : List Tree} {p : Phrase}

/-! ## Paths -/

/-- A chain of selections on a name that stands at a place. -/
inductive IsPath (place : Span) (name : String) : List String → Expr → Prop
  | name {info : NodeInfo} (h : info.span = place) : IsPath place name [] (.ident info name)
  | field {fields : List String} {operand : Expr} (h : IsPath place name fields operand)
      (info : NodeInfo) (field : String) :
      IsPath place name (fields ++ [field]) (.select info operand field)

theorem dotted_concat (name : String) (fields : List String) (field : String) :
    dotted name (fields ++ [field]) = dotted name fields ++ "." ++ field := by
  rw [dotted, List.foldl_append, ← dotted]
  rfl

/-- A path spells its name and its fields. -/
theorem IsPath.qualifiedName?_eq (h : IsPath place name fields e) :
    e.qualifiedName? = some (dotted name fields) := by
  induction h with
  | name h => rfl
  | field h info field ih => rw [qualifiedName?, ih, Option.map_some, dotted_concat]

/-- What is the same as a path up to places is the path, at a place of its own. -/
theorem IsPath.of_alike (h : IsPath place name fields e) (halike : Alike e' e) :
    ∃ place', IsPath place' name fields e' := by
  -- places differ from node to node, but the shape is the same
  induction h generalizing e' with
  | name h =>
      cases e' with
      | ident info' name' =>
          obtain ⟨-, rfl⟩ := Expr.ident.inj halike
          exact ⟨info'.span, .name rfl⟩
      | _ => cases halike
  | field h info field ih =>
      cases e' with
      | select info' operand' field' =>
          obtain ⟨-, hoperand, rfl⟩ := Expr.select.inj halike
          obtain ⟨place', hpath⟩ := ih hoperand
          exact ⟨place', hpath.field info' field'⟩
      | _ => cases halike

/-- What reading a path gives: the path, with a level for each segment, or an error if these are too
many. -/
inductive ReadsPath (name : String) (fields : List String) : Except ParseError Expr → Prop
  | path {place : Span} {e : Expr} (h : IsPath place name fields e)
      (hdepth : e.depth = 1 + fields.length) (hfew : 1 + fields.length ≤ maxTreeDepth) :
      ReadsPath name fields (.ok e)
  | tooDeep (err : ParseError) (hmany : maxTreeDepth < 1 + fields.length) :
      ReadsPath name fields (.error err)

/-- What is read as a path is not too deep. -/
theorem bounded_readsPath (name : String) (fields : List String) :
    Bounded (ReadsPath name fields) := by
  rintro e ⟨-, hdepth, hfew⟩
  rw [hdepth]
  exact hfew

/-- Of two results that agree both are paths, or both are errors. -/
theorem ReadsPath.of_agree {result result' : Except ParseError Expr}
    (h : ReadsPath name fields result) (hagree : Agree Alike result' result) :
    ReadsPath name fields result' := by
  cases hagree with
  | error err err' =>
      cases h with
      | tooDeep _ hmany => exact .tooDeep err hmany
  | ok halike =>
      cases h with
      | path hpath hdepth hfew =>
          obtain ⟨place', hpath'⟩ := hpath.of_alike halike
          exact .path hpath' (by rw [halike.depth_eq, hdepth]) hfew

/-! ## One more field -/

/-- The last suffix is applied to what the others have made. -/
theorem suffixes_concat (e : Expr) (ps : List Part) (p : Part) :
    suffixes e (ps ++ [p]) = match suffixes e ps with
      | .error err => .error err
      | .ok e => suffixed e p := by
  induction ps generalizing e with
  | nil =>
      show suffixes e [p] = suffixed e p
      rw [suffixes]
      rcases suffixed e p with err | e' <;> rfl
  | cons q ps ih =>
      rw [List.cons_append, suffixes, suffixes]
      rcases suffixed e q with err | e'
      · rfl
      · -- the first suffix has been applied, and the last one comes after the rest
        exact ih e'

/-- The same behind a first operand. -/
theorem memberOf_concat (span : Span) (first : Part) (rest : List Part) (p : Part) :
    memberOf span (first :: (rest ++ [p])) = match memberOf span (first :: rest) with
      | .error err => .error err
      | .ok e => suffixed e p := by
  rw [memberOf, memberOf]
  rcases first.expr with err | e
  · rfl
  · exact suffixes_concat e rest p

/-- A selection on what reads as a path reads as the path with one more field. -/
theorem ReadsPath.concat {first : Part} {rest : List Part} {t : Tree}
    (h : ReadsPath name fields (memberOf place (first :: rest)))
    (ht : meaning t = .ok (.selection field)) :
    ReadsPath name (fields ++ [field])
      (memberOf place (first :: (rest ++ [⟨t, meaning t⟩]))) := by
  have hlength : (fields ++ [field]).length = fields.length + 1 := List.length_append
  rw [memberOf_concat]
  generalize memberOf place (first :: rest) = result at h ⊢
  cases h with
  | tooDeep err hmany => exact .tooDeep err (by omega)
  | @path place e hpath hdepth hfew =>
      -- one more level for one more segment, until there are too many
      have hselected : (selectAt (e.span.merge t.span) e field).depth = 1 + (fields ++ [field]).length
          := by
        show 1 + max e.depth 0 = _
        omega
      dsimp only
      rw [suffixed_field ht, bounded, hselected]
      by_cases hmany : maxTreeDepth < 1 + (fields ++ [field]).length
      · rw [if_pos hmany]
        exact .tooDeep _ hmany
      · rw [if_neg hmany]
        exact .path (hpath.field _ field) hselected (Nat.le_of_not_lt hmany)

/-! ## Brackets -/

/-- An operand by itself makes a chain of several levels, which gives what it gives. -/
theorem derives_chains {P : Except ParseError Expr → Prop} {ls : List (Rule × Phrase)}
    (hls : ∀ l ∈ ls, l.1 ∈ levels.map Prod.fst) (hP : Bounded P) (h : Derives p tokens trees)
    (hgives : Gives P trees) : ∃ trees', Derives (chains p ls) tokens trees' ∧ Gives P trees' := by
  induction ls generalizing p trees with
  | nil => exact ⟨trees, h, hgives⟩
  | cons l ls ih =>
      have hname := hls l List.mem_cons_self
      exact ih (fun l hl => hls l (List.mem_cons_of_mem _ hl)) (.rule (derives_alone h))
        (hgives.chain hP hname default)

/-- A member by itself makes an expression, which gives what it gives. -/
theorem derives_inside {P : Except ParseError Expr → Prop} (hP : Bounded P)
    (h : Derives (.seq Phrase.primary (.many suffix)) tokens trees)
    (hgives : P (memberOf default (meanings trees))) :
    ∃ trees', Derives .expression tokens trees' ∧ GivesInside P trees' := by
  have hmember : Gives P [.node .member default trees] := by
    refine ⟨_, _, rfl, (by decide : Rule.member ∉ operatorRules), ?_, hgives⟩
    rw [meaning, ofNode]
  have hunary : Derives Phrase.unary tokens [.node .unary default [.node .member default trees]] :=
    .rule (Derives.seq .manyNone (.rule h))
  obtain ⟨chain, hchain, hgives⟩ : ∃ chain, Derives (chains Phrase.unary levels) tokens chain
      ∧ Gives P chain := derives_chains (fun _ => levels_name) hP hunary (hmember.unary default)
  exact ⟨_, .expression (.rule hchain), hgives.inside default⟩

/-! ## The tokens of a path -/

/-- The tokens of a name with fields behind it, where brackets may stand around the name with any
number of the fields. -/
inductive PathTokens : List (List Char) → String → List String → Prop
  | name {w : List Char} (h : IsName w) : PathTokens [w] (String.ofList w) []
  | field {tokens : List (List Char)} {name : String} {fields : List String} {w : List Char}
      (h : PathTokens tokens name fields) (hw : IsName w) :
      PathTokens (tokens ++ [['.'], w]) name (fields ++ [String.ofList w])
  | round {tokens : List (List Char)} {name : String} {fields : List String}
      (h : PathTokens tokens name fields) : PathTokens ([['(']] ++ (tokens ++ [[')']])) name fields

/-- One more item at the end of a repetition. -/
theorem derives_many_concat {more : List (List Char)} {behind : List Tree}
    (hmany : Derives (.many p) tokens trees) (h : Derives p more behind) :
    Derives (.many p) (tokens ++ more) (trees ++ behind) := by
  -- the induction is on the repetition, which is kept apart from its phrase
  generalize hq : Phrase.many p = q at hmany
  induction hmany with
  | manyNone =>
      obtain rfl := Phrase.many.inj hq
      have hone := Derives.manyMore h .manyNone
      rwa [List.append_nil, List.append_nil] at hone
  | manyMore hitem _ _ ih =>
      obtain rfl := Phrase.many.inj hq
      rw [List.append_assoc, List.append_assoc]
      exact .manyMore hitem (ih rfl)
  | _ => cases hq

theorem derives_chain_concat {q : Phrase} {more : List (List Char)} {behind : List Tree}
    (hchain : Derives (.seq q (.many p)) tokens trees) (h : Derives p more behind) :
    Derives (.seq q (.many p)) (tokens ++ more) (trees ++ behind) := by
  cases hchain with
  | seq hfirst hmany =>
      rw [List.append_assoc, List.append_assoc]
      exact hfirst.seq (derives_many_concat hmany h)

/-- **A path derives a member that reads as the path**, whatever brackets stand in it. -/
theorem derives_path (h : PathTokens tokens name fields) : ∃ first rest,
    Derives (.seq Phrase.primary (.many suffix)) tokens (first :: rest)
      ∧ ReadsPath name fields (memberOf default (meanings (first :: rest))) := by
  -- a name, a field behind a dot, or brackets around a path
  induction h with
  | @name w hw =>
      have hident : Derives Phrase.primary [w] [.token .ident default w] :=
        .altSecond (.altSecond (.altSecond (.altSecond (.token hw))))
      exact ⟨_, _, derives_alone hident, .path (.name rfl) rfl (by decide)⟩
  | @field tokens name fields w _ hw ih =>
      obtain ⟨first, rest, hderives, hreads⟩ := ih
      have hfield : Derives suffix [['.'], w]
          [.node .fieldSelect default [.token .ident default w]] :=
        .altSecond (.rule (.seq (.symbol (by decide)) (.token hw)))
      have hmeaning : meaning (.node .fieldSelect default [.token .ident default w])
          = .ok (.selection (String.ofList w)) := rfl
      refine ⟨first, rest ++ [.node .fieldSelect default [.token .ident default w]], ?_, ?_⟩
      · exact derives_chain_concat hderives hfield
      · rw [meanings_eq_map, List.map_cons] at hreads ⊢
        rw [List.map_append, List.map_singleton]
        exact hreads.concat hmeaning
  | @round tokens name fields _ ih =>
      obtain ⟨first, rest, hderives, hreads⟩ := ih
      -- the path in brackets is an expression of its own, and again a first operand
      obtain ⟨_, hinside, t, result, rfl, -, hmeaning, hresult⟩ :=
        derives_inside (bounded_readsPath name fields) hderives hreads
      have hround : Derives Phrase.primary ([['(']] ++ (tokens ++ [[')']])) [t] :=
        .altSecond (.altSecond (.altFirst
          (.seq (.symbol (by decide)) (.seq hinside (.symbol (by decide))))))
      refine ⟨t, [], derives_alone hround, ?_⟩
      rw [meanings, meanings, memberOf, expr_of_meaning hmeaning]
      rcases result with err | e <;> exact hresult

/-! ## Sources -/

/-- The tokens of the source are those of a path, with layout between them and around them. -/
structure SpellsPath (source : String) (name : String) (fields : List String) : Prop where
  path : ∃ first lexemes, layout.split? source.toList = some (first, spelled lexemes)
    ∧ Fits lexemes ∧ PathTokens (lexemes.map Lexeme.text) name fields

/-- **A source that spells a path is parsed as the path**, if its brackets and the segments of the
path are not too many. -/
theorem SpellsPath.parse {source : String} (h : SpellsPath source name fields)
    (hscan : Brackets.scan source.toList = .ok ()) :
    ReadsPath name fields (Expr.parse source) := by
  obtain ⟨first, lexemes, hfirst, hfits, htokens⟩ := h.path
  obtain ⟨member, more, hmember, hreads⟩ := derives_path htokens
  obtain ⟨trees, hderives, hgives⟩ :=
    derives_inside (bounded_readsPath name fields) hmember hreads
  obtain ⟨tree, htree, hunplaced⟩ := readProgram_of_laidOut ⟨hfirst, hfits, hderives⟩
  -- the tree that is read is the derived one up to places, on which nothing depends but spans
  have hagree : Agree Alike (ofTree tree) (ofTree (programOf trees)) := by
    refine agree_ofTree ?_
    rw [← hunplaced, Tree.unplaced_unplaced]
  rw [Expr.parse, hscan]
  dsimp only
  rw [htree]
  exact (hgives.ofTree default default).of_agree hagree

end RowFilter.Expr
