/-
Declared names in expressions.

What may be declared and what the grammar takes for a name are defined apart from each other: the
one goes character by character, the other is a token, with reserved words left out, and fields
behind dots. They agree on every dotted name in which no segment is a reserved word
(`IsSegment.isName`), so such a name is parsed as itself, and the checker finds the chain of
selections under the whole name before it looks at the parts. What is left is the bound on the depth
of a tree, which a declaration does not know of.
-/
import RowFilter.Proofs.Conversion.Settings
import RowFilter.Proofs.Expr.Paths
import RowFilter.Proofs.Expr.Spelling

set_option autoImplicit false

namespace RowFilter

/-! ## Segments -/

/-- What stands between the dots of a name. -/
def segments (name : String) : List (List Char) := name.toList.splitOn '.'

/-- The words of the language that cannot be names. -/
def reservedWords : List String := ["true", "false", "null", "in"]

/-- A segment of a name that can be declared. -/
def IsSegment (segment : List Char) : Prop :=
  ∃ c rest, segment = c :: rest ∧ isNameStart c = true ∧ ∀ d ∈ rest, isNameChar d = true

/-- A name does not start with a dot. -/
theorem ne_dot_of_isNameStart {c : Char} (h : isNameStart c = true) : c ≠ '.' := by
  rintro rfl
  exact absurd h (by decide)

/-- A declarable name is segments between dots. The two halves are for texts that begin a segment
and for texts inside one. -/
theorem segments_of_isNameFrom (text : List Char) :
    (isNameFrom true text = true → ∀ segment ∈ text.splitOn '.', IsSegment segment)
      ∧ (isNameFrom false text = true → ∃ first more, text.splitOn '.' = first :: more
          ∧ (∀ c ∈ first, isNameChar c = true) ∧ ∀ segment ∈ more, IsSegment segment) := by
  induction text with
  | nil =>
      refine ⟨fun h => ?_, fun _ => ⟨[], [], List.splitOn_nil _, by simp, by simp⟩⟩
      rw [isNameFrom] at h
      cases h
  | cons c rest ih =>
      obtain ⟨ihstart, ihinside⟩ := ih
      rw [List.splitOn_cons_eq_if_modifyHead]
      refine ⟨fun h => ?_, fun h => ?_⟩
      · -- a segment starts here, and what follows goes on with it
        rw [isNameFrom, Bool.and_eq_true] at h
        obtain ⟨first, more, hsplit, hfirst, hmore⟩ := ihinside h.2
        rw [if_neg (by simpa using ne_dot_of_isNameStart h.1), hsplit, List.modifyHead_cons]
        intro segment hsegment
        rcases List.mem_cons.mp hsegment with rfl | hsegment
        · exact ⟨c, first, rfl, h.1, hfirst⟩
        · exact hmore segment hsegment
      · rw [isNameFrom] at h
        -- a dot ends the segment, and a new one has to start behind it
        by_cases hdot : c = '.'
        · rw [if_pos hdot] at h
          rw [if_pos (by simpa using hdot)]
          exact ⟨[], _, rfl, by simp, ihstart h⟩
        · rw [if_neg hdot, Bool.and_eq_true] at h
          obtain ⟨first, more, hsplit, hfirst, hmore⟩ := ihinside h.2
          rw [if_neg (by simpa using hdot), hsplit, List.modifyHead_cons]
          refine ⟨c :: first, more, rfl, fun d hd => ?_, hmore⟩
          rcases List.mem_cons.mp hd with rfl | hd
          · exact h.1
          · exact hfirst d hd

/-! ### Segments are names of the grammar -/

section Grammar

open Grammar Grammar.Pattern

/-- The reserved words of the grammar are the ones listed. -/
theorem mem_reservedWords_of_split? {text taken rest : List Char}
    (h : reserved.split? text = some (taken, rest)) :
    text = taken ++ rest ∧ String.ofList taken ∈ reservedWords := by
  -- the same for each of the four words
  have hword : ∀ {w : String}, w ∈ reservedWords →
      (exactly w.toList).split? text = some (taken, rest) →
        text = taken ++ rest ∧ String.ofList taken ∈ reservedWords := by
    intro w hw hsplit
    obtain ⟨rfl, htext⟩ := split?_exactly_eq_some_iff.mp hsplit
    exact ⟨htext, by rwa [String.ofList_toList]⟩
  rcases split?_alt_eq_some_iff.mp h with h | ⟨-, h⟩
  · exact hword (by decide) h
  · rcases split?_alt_eq_some_iff.mp h with h | ⟨-, h⟩
    · exact hword (by decide) h
    · rcases split?_alt_eq_some_iff.mp h with h | ⟨-, h⟩
      · exact hword (by decide) h
      · exact hword (by decide) h

/-- **A segment is a name of the grammar**, unless it is a reserved word. -/
theorem IsSegment.isName {segment : List Char} (h : IsSegment segment)
    (hword : String.ofList segment ∉ reservedWords) : IsName segment := by
  obtain ⟨c, rest, rfl, hc, hrest⟩ := h
  have hall : ∀ d ∈ c :: rest, isNameChar d = true := by
    intro d hd
    rcases List.mem_cons.mp hd with rfl | hd
    · simp only [isNameStart, isNameChar, Char.isAlphanum, Bool.or_eq_true] at hc ⊢
      rcases hc with hc | hc
      · exact .inl (.inl hc)
      · exact .inr hc
    · exact hrest d hd
  have hnot : (seq reserved («unless» identChar)).split? (c :: rest) = none := by
    rcases hsplit : (seq reserved («unless» identChar)).split? (c :: rest) with _ | ⟨taken, behind⟩
    · rfl
    · obtain ⟨left, middle, right, hleft, htest, -⟩ := split?_seq_eq_some_iff.mp hsplit
      obtain ⟨htext, hmem⟩ := mem_reservedWords_of_split? hleft
      obtain ⟨hstop, -⟩ := split?_unless_eq_some_iff.mp htest
      -- nothing of the segment is left behind the word, for it would go on as a name
      cases middle with
      | nil =>
          rw [List.append_nil] at htext
          exact absurd (htext ▸ hmem) hword
      | cons d more =>
          have hd : isNameChar d = true := hall d (by rw [htext]; simp)
          have hsome : identChar.split? (d :: more) = some ([d], more) :=
            split?_one_eq_some_iff.mpr ⟨d, hd, rfl, rfl⟩
          rw [hsome] at hstop
          cases hstop
  have hmany : (many identChar).split? rest = some (rest, []) := by
    have hrun : (many identChar).split? (rest ++ []) = some (rest, []) :=
      split?_many_run hrest (by rintro d ⟨⟩)
    rwa [List.append_nil] at hrun
  refine split?_seq_eq_some_iff.mpr ⟨[], c :: rest, c :: rest,
    split?_unless_eq_some_iff.mpr ⟨hnot, rfl⟩, ?_, rfl⟩
  exact split?_seq_eq_some_iff.mpr ⟨[c], rest, rest, split?_one_eq_some_iff.mpr ⟨c, hc, rfl, rfl⟩,
    hmany, rfl⟩

end Grammar

/-! ## Declared names -/

open RowFilter.Expr (dotted selections ReadsName)

/-- Segments with dots between them, as a name with fields behind it. -/
theorem intercalate_dots (first : List Char) (more : List (List Char)) :
    ['.'].intercalate (first :: more) = first ++ selections (more.map String.ofList) := by
  induction more generalizing first with
  | nil => simp [selections]
  | cons second more ih =>
      rw [List.intercalate_cons_cons, ih, selections, selections, List.map_cons, List.flatMap_cons,
        String.toList_ofList, List.append_assoc]
      rfl

/-- **A declarable name is parsed as itself**, or it has too many segments. -/
theorem readsName_of_isDeclarable {name : String} (h : isDeclarable name = true)
    (hwords : ∀ segment ∈ segments name, String.ofList segment ∉ reservedWords) :
    ReadsName name (segments name).length (Expr.parse name) := by
  have hname : ∀ segment ∈ segments name, Grammar.IsName segment := fun segment hsegment =>
    ((segments_of_isNameFrom name.toList).1 h segment hsegment).isName (hwords segment hsegment)
  rcases hsplit : segments name with _ | ⟨first, more⟩
  · exact absurd hsplit (List.splitOn_ne_nil '.' name.toList)
  · -- the segments with dots between them are the name again
    have hspelled : name = dotted (String.ofList first) (more.map String.ofList) := by
      rw [← String.toList_inj, Expr.toList_dotted, String.toList_ofList, ← intercalate_dots,
        ← hsplit]
      exact (List.intercalate_splitOn '.').symm
    rw [hsplit] at hname
    have hfirst : Grammar.IsName (String.ofList first).toList := by
      rw [String.toList_ofList]
      exact hname first List.mem_cons_self
    have hmore : ∀ field ∈ more.map String.ofList, Grammar.IsName field.toList := by
      intro field hfield
      obtain ⟨segment, hsegment, rfl⟩ := List.mem_map.mp hfield
      rw [String.toList_ofList]
      exact hname segment (List.mem_cons_of_mem _ hsegment)
    have hread := Expr.parse_dotted hfirst hmore
    rwa [← hspelled, List.length_map, Nat.add_comm] at hread

namespace Environment

/-- Declared names are declarable. -/
theorem isDeclarable_of_declareAll {env env' : Environment}
    {declarations : List (String × ValueType)} (h : env.declareAll declarations = .ok env')
    {name : String} {type : ValueType} (hmem : (name, type) ∈ declarations) :
    isDeclarable name = true := by
  induction declarations generalizing env with
  | nil => cases hmem
  | cons declaration rest ih =>
      obtain ⟨n, t⟩ := declaration
      rw [declareAll] at h
      -- a declaration that fails ends the list, so all of them have been accepted
      rcases hdeclare : env.declare n t with ⟨e | ⟨⟩, next⟩
      · simp [hdeclare] at h
      · simp only [hdeclare] at h
        rcases List.mem_cons.mp hmem with heq | hmem
        · obtain ⟨rfl, rfl⟩ := Prod.mk.inj heq
          exact (declare_eq_ok_iff.mp hdeclare).1
        · exact ih h hmem

/-- A declaration is found by its name, if no other has the name. -/
theorem lookup?_of_mem {env : Environment} (hnodup : env.names.Nodup) {name : String}
    {type : ValueType} (hmem : (name, type) ∈ env.declarations) : env.lookup? name = some type := by
  rcases hlookup : env.lookup? name with _ | t
  · exact absurd (List.mem_map_of_mem hmem) (not_mem_names hlookup)
  · have hfirst := mem_of_lookup? hlookup
    have hsame := List.inj_on_of_nodup_map hnodup hfirst hmem rfl
    exact congrArg some (Prod.mk.inj hsame).2

/-- What compiling a declared name by itself gives: the name with its type, or the error that it
has more segments than a tree may have levels. -/
def CompilesName (compile : String → Except (List Diagnostic) TypedExpr) (name : String)
    (type : ValueType) : Prop :=
  ((segments name).length ≤ Expr.maxTreeDepth → compile name = .ok (.ident type name))
    ∧ (Expr.maxTreeDepth < (segments name).length →
        ∃ err, compile name = .error [.ofParseError err] ∧ err.cause = .tooDeep Expr.maxTreeDepth)

/-- The checker finds a name that is parsed as itself. -/
theorem compilesName_of_readsName {env : Environment} {name : String} {type : ValueType}
    (hdeclared : env.lookup? name = some type)
    (h : ReadsName name (segments name).length (Expr.parse name)) :
    CompilesName env.compile name type := by
  unfold CompilesName compile
  -- too many segments make the path too deep, which is the only refusal
  rcases hparse : Expr.parse name with err | e
  · rw [hparse] at h
    cases h with
    | tooDeep hcause hmany => exact ⟨fun hfew => by omega, fun _ => ⟨err, rfl, hcause⟩⟩
  · rw [hparse] at h
    cases h with
    | spelled hname _ hfew =>
      refine ⟨fun _ => ?_, fun hmany => by omega⟩
      have hcheck : Typing.check env e = .ok (.ident type name) := by
        rw [Typing.check_eq_ok_iff_result, Typing.visit_of_declared hname hdeclared]
        rfl
      dsimp only
      rw [hcheck]

/-- **Declared names can be used.** -/
theorem compilesName_of_declared {declarations : List (String × ValueType)} {env : Environment}
    (h : ofDeclarations declarations = .ok env) {name : String} {type : ValueType}
    (hmem : (name, type) ∈ declarations)
    (hwords : ∀ segment ∈ segments name, String.ofList segment ∉ reservedWords) :
    CompilesName env.compile name type := by
  obtain ⟨hall, hnodup⟩ := ofDeclarations_spec h
  have hnames : env.names.Nodup := by
    rw [names, hall]
    exact hnodup
  have hdeclarable := isDeclarable_of_declareAll h hmem
  exact compilesName_of_readsName (lookup?_of_mem hnames (hall ▸ hmem))
    (readsName_of_isDeclarable hdeclarable hwords)

/-- **Declared names stand for themselves.** In the environment of some declarations, and for a
converter of some fields, compiling a declared name by itself gives that name with its declared
type, if none of its segments is a reserved word and there are not more of them than levels. -/
theorem compile_declared {name : String} {type : ValueType}
    (hwords : ∀ segment ∈ segments name, String.ofList segment ∉ reservedWords) :
    (∀ {declarations : List (String × ValueType)} {env : Environment},
        ofDeclarations declarations = .ok env → (name, type) ∈ declarations →
          CompilesName env.compile name type)
      ∧ ∀ {config : Config} {c : Converter}, Converter.ofConfig config = .ok c →
          (name, type) ∈ config.declarations → CompilesName c.compiler.compile name type := by
  refine ⟨fun h hmem => compilesName_of_declared h hmem hwords, fun {config c} h hmem => ?_⟩
  obtain ⟨env, henv, rfl⟩ := Converter.exists_environment h
  exact compilesName_of_declared henv hmem hwords

/-- A dotted name is declared and stands for itself. -/
theorem compile_declared_owner :
    (∀ segment ∈ segments "user.name", String.ofList segment ∉ reservedWords)
      ∧ ∃ env, ofDeclarations [("user", .int), ("user.name", .string)] = .ok env
        ∧ env.compile "user.name" = .ok (.ident .string "user.name") := by
  have hwords : ∀ segment ∈ segments "user.name", String.ofList segment ∉ reservedWords := by
    decide
  have henv : ofDeclarations [("user", .int), ("user.name", .string)]
      = .ok ⟨[("user", .int), ("user.name", .string)]⟩ := by rfl
  exact ⟨hwords, _, henv, ((compile_declared hwords).1 henv (by simp)).1 (by decide)⟩

/-! ### Names that cannot be used -/

/-- A name of one letter, with so many fields of the same name behind it. -/
def repeatedName (fields : Nat) : String :=
  String.ofList ('a' :: (List.replicate fields ['.', 'a']).flatten)

/-- The name is declarable, and has one segment more than fields. -/
theorem repeatedName_spec (fields : Nat) : isDeclarable (repeatedName fields) = true
    ∧ segments (repeatedName fields) = List.replicate (fields + 1) ['a'] := by
  rw [isDeclarable, segments, repeatedName, String.toList_ofList]
  induction fields with
  | zero => exact ⟨rfl, rfl⟩
  | succ fields ih =>
      have hdot : '.' ∉ ['a'] := by decide
      rw [List.replicate_succ, List.flatten_cons, List.replicate_succ, ← ih.2]
      exact ⟨ih.1, List.splitOn_append_cons_self_of_not_mem hdot _⟩

/-- A reserved word can be declared and still means what it means; a name of too many
segments can be declared and is refused. -/
theorem declared_names_without_use :
    (∃ env, ofDeclarations [("true", .string)] = .ok env
      ∧ env.compile "true" = .ok (.ofValue (.boolean true)))
    ∧ ∃ env err, ofDeclarations [(repeatedName 128, .string)] = .ok env
      ∧ env.compile (repeatedName 128) = .error [.ofParseError err]
      ∧ err.cause = .tooDeep Expr.maxTreeDepth := by
  refine ⟨⟨⟨[("true", .string)]⟩, by rfl, ?_⟩, ?_⟩
  · obtain ⟨span, hparse⟩ : Expr.IsLiteral (.boolean true) (Expr.parse "true") :=
      Expr.parse_toText_of_kind (by decide)
    rw [compile, hparse]
    rfl
  · -- the number is only needed to be above the limit, so the name is not computed
    obtain ⟨hdeclarable, hsegments⟩ := repeatedName_spec 128
    generalize repeatedName 128 = name at hdeclarable hsegments ⊢
    have henv : ofDeclarations [(name, .string)] = .ok ⟨[(name, .string)]⟩ := by
      rw [ofDeclarations, declareAll, declare_eq_ok_iff.mpr ⟨hdeclarable, rfl, rfl⟩]
      rfl
    have hwords : ∀ segment ∈ segments name, String.ofList segment ∉ reservedWords := by
      intro segment hsegment
      rw [hsegments] at hsegment
      obtain rfl := List.eq_of_mem_replicate hsegment
      decide
    have hmany : Expr.maxTreeDepth < (segments name).length := by
      rw [hsegments, List.length_replicate]
      decide
    obtain ⟨err, hcompile, hcause⟩ :=
      (compilesName_of_declared henv List.mem_cons_self hwords).2 hmany
    exact ⟨_, err, henv, hcompile, hcause⟩

end Environment

end RowFilter
