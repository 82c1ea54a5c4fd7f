/-
How types are spelled.

A type is spelled by its name or by a constructor with what stands in its brackets, as lexemes. The
reader accepts exactly the texts whose lexemes spell a type (`ofText_reads_exactly`): what it reads
it has found lexeme by lexeme (`spells_of_readFrom`, by the levels of the reader), and what is
spelled is read whatever stands behind it (`readFrom_of_spells`, by the spelling). Types are written
in one of the ways in which they can be spelled.
-/
import RowFilter.Proofs.ValueType.Lexemes

set_option autoImplicit false

namespace RowFilter.ValueType

variable {text rest w : List Char} {pieces more : List Lexeme} {t : ValueType} {depth : Nat}

/-! ## Spellings -/

/-- The names of the types that are one word. -/
def names : ValueType → List String
  | .string => ["string"]
  | .int => ["int"]
  | .uint => ["uint"]
  | .double => ["double"]
  | .bool => ["bool"]
  | .timestamp => ["timestamp", "google.protobuf.Timestamp"]
  | .duration => ["duration", "google.protobuf.Duration"]
  | .bytes => ["bytes"]
  | .null => ["null_type"]
  | .list _ | .map _ _ => []

/-- `Spells t pieces`: the lexemes are those of the type, its constructors applied in brackets. -/
inductive Spells : ValueType → List Lexeme → Prop
  | name {t : ValueType} {name : String} (h : name ∈ t.names) : Spells t [.word name.toList]
  | list {elem : ValueType} {pieces : List Lexeme} (h : Spells elem pieces) :
      Spells (.list elem) (.word "list".toList :: .mark '(' :: (pieces ++ [.mark ')']))
  | map {key value : ValueType} {pieces more : List Lexeme} (hkey : Spells key pieces)
      (hvalue : Spells value more) :
      Spells (.map key value)
        (.word "map".toList :: .mark '(' :: (pieces ++ .mark ',' :: (more ++ [.mark ')'])))

/-- The reader knows the names. -/
theorem ofWord?_eq_some_iff {name : String} : ofWord? name = some t ↔ name ∈ t.names := by
  constructor
  · intro h
    unfold ofWord? at h
    split at h <;> cases h <;> simp [names]
  · intro h
    cases t with
    | timestamp | duration =>
        rcases List.mem_cons.mp h with rfl | h
        · rfl
        · obtain rfl := List.mem_singleton.mp h
          rfl
    -- these two have no word of their own, but take arguments
    | list | map => cases h
    | _ =>
        obtain rfl := List.mem_singleton.mp h
        rfl

/-- A name is a word. -/
theorem lexemes_name {name : String} (h : name ∈ t.names) (hrest : startsWord rest = false) :
    lexemes (name.toList ++ rest) = .word name.toList :: lexemes rest := by
  have hall : t.names.all (fun n => !n.toList.isEmpty && n.toList.all isWordChar) = true := by
    cases t <;> rfl
  have hname := List.all_eq_true.mp hall name h
  rw [Bool.and_eq_true, Bool.not_eq_true', List.isEmpty_eq_false_iff, List.all_eq_true] at hname
  exact lexemes_word hname.1 hname.2 hrest

/-! ## Reading -/

/-- One level of reading: a name, or a constructor with what stands in its brackets. -/
inductive Level (depth : Nat) (text : List Char) : ValueType → List Char → Prop
  | name {name : String} {t : ValueType} {rest : List Char} (hword : splitWord text = (name, rest))
      (h : ofWord? name = some t) : Level depth text t rest
  | list {elem : ValueType} {behind inner after rest : List Char}
      (hword : splitWord text = ("list", behind)) (hopen : expectMark '(' behind = some inner)
      (helem : readFrom depth inner = some (elem, after))
      (hclose : expectMark ')' after = some rest) : Level depth text (.list elem) rest
  | map {key value : ValueType} {behind inner after second last rest : List Char}
      (hword : splitWord text = ("map", behind)) (hopen : expectMark '(' behind = some inner)
      (hkey : readFrom depth inner = some (key, after))
      (hcomma : expectMark ',' after = some second)
      (hvalue : readFrom depth second = some (value, last))
      (hclose : expectMark ')' last = some rest) : Level depth text (.map key value) rest

/-- One level of the reader is one of the rules. -/
theorem readFrom_succ_iff :
    readFrom (depth + 1) text = some (t, rest) ↔ Level depth text t rest := by
  constructor
  · intro h
    rw [readFrom] at h
    rcases hword : splitWord text with ⟨name, behind⟩
    simp only [hword] at h
    -- a word that names a type is that type, all others have to open a list or a map
    rcases hname : ofWord? name with _ | t'
    · simp only [hname] at h
      rcases hopen : expectMark '(' behind with _ | inner
      · simp [hopen] at h
      · simp only [hopen] at h
        rcases hfirst : readFrom depth inner with _ | ⟨first, after⟩
        · simp [hfirst] at h
        · simp only [hfirst] at h
          split at h
          · next hlist =>
            subst hlist
            obtain ⟨_, hclose, heq⟩ := Option.map_eq_some_iff.mp h
            obtain ⟨rfl, rfl⟩ := Prod.mk.inj heq
            exact .list hword hopen hfirst hclose
          · split at h
            · next hmap =>
              subst hmap
              rcases hcomma : expectMark ',' after with _ | second
              · simp [hcomma] at h
              · simp only [hcomma] at h
                rcases hvalue : readFrom depth second with _ | ⟨value, last⟩
                · simp [hvalue] at h
                · simp only [hvalue] at h
                  obtain ⟨_, hclose, heq⟩ := Option.map_eq_some_iff.mp h
                  obtain ⟨rfl, rfl⟩ := Prod.mk.inj heq
                  exact .map hword hopen hfirst hcomma hvalue hclose
            · cases h
    · simp only [hname, Option.some.injEq, Prod.mk.injEq] at h
      obtain ⟨rfl, rfl⟩ := h
      exact .name hword hname
  · intro h
    rw [readFrom]
    cases h with
    | name hword h => simp only [hword, h]
    | list hword hopen helem hclose =>
        simp [hword, ofWord?, hopen, helem, hclose]
    | map hword hopen hkey hcomma hvalue hclose =>
        simp [hword, ofWord?, hopen, hkey, hcomma, hvalue, hclose]

/-- **What is read is spelled.** -/
theorem spells_of_readFrom (h : readFrom depth text = some (t, rest)) :
    ∃ pieces, Spells t pieces ∧ lexemes text = pieces ++ lexemes rest := by
  induction depth generalizing text t rest with
  | zero => cases h
  | succ depth ih =>
      cases readFrom_succ_iff.mp h with
      -- a text without a word in front has the empty name, which no type has
      | @name name _ _ hword hname =>
          have hne : name ≠ "" := by
            rintro rfl
            cases hname
          exact ⟨_, .name (ofWord?_eq_some_iff.mp hname), lexemes_of_splitWord hword hne⟩
      | list hword hopen helem hclose =>
          obtain ⟨pieces, hspells, hpieces⟩ := ih helem
          refine ⟨_, .list hspells, ?_⟩
          rw [lexemes_of_splitWord hword (by decide), lexemes_of_expectMark rfl hopen, hpieces,
            lexemes_of_expectMark rfl hclose]
          simp
      | map hword hopen hkey hcomma hvalue hclose =>
          obtain ⟨pieces, hspells, hpieces⟩ := ih hkey
          obtain ⟨more, hspells', hmore⟩ := ih hvalue
          refine ⟨_, .map hspells hspells', ?_⟩
          rw [lexemes_of_splitWord hword (by decide), lexemes_of_expectMark rfl hopen, hpieces,
            lexemes_of_expectMark rfl hcomma, hmore, lexemes_of_expectMark rfl hclose]
          simp

/-- Reading a type leaves less of the text, or as much. -/
theorem length_readFrom_le (h : readFrom depth text = some (t, rest)) :
    rest.length ≤ text.length := by
  induction depth generalizing text t rest with
  | zero => cases h
  | succ depth ih =>
      -- each step of a rule moves on, and the types within do by induction
      cases readFrom_succ_iff.mp h with
      | name hword => exact length_splitWord_le hword
      | list hword hopen helem hclose =>
          have hbehind := length_splitWord_le hword
          have hinner := length_expectMark_lt hopen
          have hafter := ih helem
          have hrest := length_expectMark_lt hclose
          omega
      | map hword hopen hkey hcomma hvalue hclose =>
          have hbehind := length_splitWord_le hword
          have hinner := length_expectMark_lt hopen
          have hafter := ih hkey
          have hsecond := length_expectMark_lt hcomma
          have hlast := ih hvalue
          have hrest := length_expectMark_lt hclose
          omega

/-- A text that begins with a lexeme has a character, so there is a level left to read it. -/
theorem exists_level {piece : Lexeme} (htext : lexemes text = piece :: more)
    (hdepth : text.length ≤ depth) : ∃ levels, depth = levels + 1 := by
  refine Nat.exists_eq_succ_of_ne_zero ?_
  rintro rfl
  rw [List.length_eq_zero_iff.mp (Nat.le_zero.mp hdepth)] at htext
  cases htext

/-- **What is spelled is read**, whatever stands behind it. -/
theorem readFrom_of_spells (h : Spells t pieces) (htext : lexemes text = pieces ++ more)
    (hdepth : text.length ≤ depth) :
    ∃ rest, readFrom depth text = some (t, rest) ∧ lexemes rest = more := by
  induction h generalizing text more depth with
  | @name t name hname =>
      obtain ⟨levels, rfl⟩ := exists_level htext hdepth
      obtain ⟨rest, hword, hrest⟩ := splitWord_of_lexemes htext
      rw [String.ofList_toList] at hword
      exact ⟨rest, readFrom_succ_iff.mpr (.name hword (ofWord?_eq_some_iff.mpr hname)), hrest⟩
  | list h ih =>
      obtain ⟨levels, rfl⟩ := exists_level htext hdepth
      obtain ⟨behind, hword, hbehind⟩ := splitWord_of_lexemes htext
      obtain ⟨inner, hopen, hinner⟩ := expectMark_of_lexemes hbehind
      have hlength := length_splitWord_le hword
      have hshorter := length_expectMark_lt hopen
      -- the bracket takes up a level and at least one character
      have hlevels : inner.length ≤ levels := by omega
      rw [List.append_eq, List.append_assoc] at hinner
      obtain ⟨after, helem, hafter⟩ := ih hinner hlevels
      obtain ⟨rest, hclose, hrest⟩ := expectMark_of_lexemes hafter
      exact ⟨rest, readFrom_succ_iff.mpr (.list hword hopen helem hclose), hrest⟩
  | map hkey hvalue ihkey ihvalue =>
      obtain ⟨levels, rfl⟩ := exists_level htext hdepth
      obtain ⟨behind, hword, hbehind⟩ := splitWord_of_lexemes htext
      obtain ⟨inner, hopen, hinner⟩ := expectMark_of_lexemes hbehind
      have hlength := length_splitWord_le hword
      have hshorter := length_expectMark_lt hopen
      have hlevels : inner.length ≤ levels := by omega
      rw [List.append_eq, List.append_assoc, List.cons_append] at hinner
      obtain ⟨after, hfirst, hafter⟩ := ihkey hinner hlevels
      obtain ⟨second, hcomma, hsecond⟩ := expectMark_of_lexemes hafter
      have hread := length_readFrom_le hfirst
      have hshort := length_expectMark_lt hcomma
      have hbelow : second.length ≤ levels := by omega
      rw [List.append_assoc] at hsecond
      obtain ⟨last, hlast, hlexemes⟩ := ihvalue hsecond hbelow
      obtain ⟨rest, hclose, hrest⟩ := expectMark_of_lexemes hlexemes
      exact ⟨rest, readFrom_succ_iff.mpr (.map hword hopen hfirst hcomma hlast hclose), hrest⟩

/-- A text is read as a type exactly if its lexemes are those of the type. -/
theorem ofText?_eq_some_iff {s : String} :
    ofText? s = some t ↔ Spells t (lexemes s.toList) := by
  unfold ofText?
  constructor
  · intro h
    split at h
    · next type rest hread =>
      split at h
      · -- nothing but blanks may follow, which have no lexemes
        next hblank =>
        obtain rfl := Option.some.inj h
        obtain ⟨pieces, hspells, hpieces⟩ := spells_of_readFrom hread
        rw [lexemes_eq_nil_iff.mpr hblank, List.append_nil] at hpieces
        rwa [hpieces]
      · cases h
    · cases h
  · intro h
    obtain ⟨rest, hread, hrest⟩ :=
      readFrom_of_spells h (List.append_nil _).symm (Nat.le_of_eq String.length_toList)
    rw [hread]
    exact if_pos (lexemes_eq_nil_iff.mp hrest)

/-! ## Written types -/

/-- A type that is written by one of its names is spelled by it. -/
theorem spells_name (h : t.toText ∈ t.names) (hrest : startsWord rest = false) :
    ∃ pieces, Spells t pieces ∧ lexemes (t.toText.toList ++ rest) = pieces ++ lexemes rest :=
  ⟨_, .name h, lexemes_name h hrest⟩

/-- A constructor and the bracket behind it. -/
theorem lexemes_applied (hne : w ≠ []) (hw : w.all isWordChar = true) :
    lexemes (w ++ '(' :: rest) = .word w :: .mark '(' :: lexemes rest := by
  rw [lexemes_word hne (List.all_eq_true.mp hw) rfl, lexemes_mark rfl rfl]

/-- The written form of a type spells it, in front of any text that does not go on with a word. -/
theorem spells_toText (t : ValueType) (hrest : startsWord rest = false) :
    ∃ pieces, Spells t pieces ∧ lexemes (t.toText.toList ++ rest) = pieces ++ lexemes rest := by
  induction t generalizing rest with
  | list elem ih =>
      have hclose : startsWord (')' :: rest) = false := rfl
      obtain ⟨pieces, hspells, hpieces⟩ := ih hclose
      have htext : (ValueType.list elem).toText.toList ++ rest
          = "list".toList ++ '(' :: (elem.toText.toList ++ ')' :: rest) := by
        simp [toText]
      refine ⟨_, .list hspells, ?_⟩
      rw [htext, lexemes_applied (by decide) rfl, hpieces, lexemes_mark rfl rfl]
      simp
  | map key value ihkey ihvalue =>
      -- what stands behind a part is a mark, so the last word of the part ends there
      have hclose : startsWord (')' :: rest) = false := rfl
      have hcomma : startsWord (',' :: ' ' :: (value.toText.toList ++ ')' :: rest)) = false := rfl
      obtain ⟨more, hvalue, hmore⟩ := ihvalue hclose
      obtain ⟨pieces, hkey, hpieces⟩ := ihkey hcomma
      have htext : (ValueType.map key value).toText.toList ++ rest
          = "map".toList ++ '(' :: (key.toText.toList
              ++ ',' :: ' ' :: (value.toText.toList ++ ')' :: rest)) := by
        simp [toText]
      refine ⟨_, .map hkey hvalue, ?_⟩
      rw [htext, lexemes_applied (by decide) rfl, hpieces, lexemes_mark rfl rfl,
        lexemes_of_isBlank rfl, hmore, lexemes_mark rfl rfl]
      simp
  | _ => exact spells_name (by simp [names, toText]) hrest

/-- **Type texts are read exactly.** A text is read as a type exactly if its lexemes spell the type;
so every type is read back from its written form, and every other text is refused as it stands. -/
theorem ofText_reads_exactly :
    (∀ s t, ofText s = .ok t ↔ Spells t (lexemes s.toList))
      ∧ (∀ t, ofText t.toText = .ok t)
      ∧ ∀ s e, ofText s = .error e ↔ e = ⟨s⟩ ∧ ∀ t, ¬ Spells t (lexemes s.toList) := by
  have hexactly : ∀ s t, ofText s = .ok t ↔ Spells t (lexemes s.toList) := by
    intro s t
    rw [← ofText?_eq_some_iff, ofText]
    rcases ofText? s with _ | t' <;> simp
  refine ⟨hexactly, fun t => ?_, fun s e => ?_⟩
  · -- the round trip is a spelling like any other
    have hend : startsWord [] = false := rfl
    obtain ⟨pieces, hspells, hpieces⟩ := spells_toText t hend
    rw [List.append_nil, lexemes, List.append_nil] at hpieces
    rw [hexactly, hpieces]
    exact hspells
  · simp only [← hexactly]
    rw [ofText]
    rcases ofText? s with _ | t
    · simp [eq_comm]
    · simp

/-- Any blank may stand between the lexemes. -/
example : ofText "map( string,\u2003list(google.protobuf.Timestamp))"
    = .ok (.map .string (.list .timestamp)) := by decide

end RowFilter.ValueType
