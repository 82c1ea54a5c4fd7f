/-
The scan taken apart: which brackets it sees, and how it counts them.

What a character means to the scan depends on the characters in front of it, but neither on the
depth nor on the place. So the scan is a reader of brackets with a counter behind it: `seen`
lists the brackets that count, `peak` is the deepest level that a list of brackets reaches,
and a text is accepted if the peak of what is seen stays within the bound (`scan_eq_ok_iff`).
Both parts go over texts that are put together, the first with a context for what has
been read before (`seen_append`), the second with a level (`peak_append`).
-/
import RowFilter.Source.Brackets

set_option autoImplicit false

namespace RowFilter.Brackets

/-! ## What a character means -/

/-- What the meaning of a character depends on. -/
structure Context where
  mode : Mode
  rawMark : Bool
  deriving DecidableEq, Repr

def State.context (s : State) : Context := ⟨s.mode, s.rawMark⟩

def isOpening (c : Char) : Bool := c == '(' || c == '['

def isClosing (c : Char) : Bool := c == ')' || c == ']'

def isBracket (c : Char) : Bool := isOpening c || isClosing c

/-- An opening bracket is a bracket. -/
theorem isBracket_of_isOpening {c : Char} (h : isOpening c = true) : isBracket c = true := by
  rw [isBracket, h, Bool.true_or]

theorem isBracket_of_isClosing {c : Char} (h : isClosing c = true) : isBracket c = true := by
  rw [isBracket, h, Bool.or_true]

theorem isOpening_of_isClosing {c : Char} (h : isClosing c = true) : isOpening c = false := by
  have hcases : c = ')' ∨ c = ']' := by simpa [isClosing] using h
  rcases hcases with rfl | rfl <;> rfl

namespace Context

/-- The beginning of a text. -/
def start : Context := State.start.context

/-- Behind a character outside of literals and comments. -/
def code (k : Context) (c : Char) : Context :=
  if c = '\x22' ∨ c = '\x27' then ⟨.quoted c k.rawMark, false⟩
  else if c = '/' then ⟨.slash, false⟩
  else ⟨.code, c == 'r' || c == 'R'⟩

/-- Behind a character. -/
def next (k : Context) (c : Char) : Context :=
  match k.mode with
  | .code => k.code c
  | .slash => if c = '/' then ⟨.comment, k.rawMark⟩ else k.code c
  | .comment => if c = '\n' then k.code c else k
  | .quoted delimiter raw =>
    if c = '\\' ∧ raw = false then ⟨.escaped delimiter, false⟩
    else if c = delimiter ∨ c = '\n' then ⟨.code, c == 'r' || c == 'R'⟩
    else ⟨.quoted delimiter raw, c == 'r' || c == 'R'⟩
  | .escaped delimiter => ⟨.quoted delimiter false, k.rawMark⟩

/-- Whether a character is a bracket that counts. -/
def counts (k : Context) (c : Char) : Bool :=
  match k.mode with
  | .code | .slash => isBracket c
  | .comment | .quoted _ _ | .escaped _ => false

/-- Behind a text. -/
def after (k : Context) (text : List Char) : Context := text.foldl next k

@[simp] theorem after_cons (k : Context) (c : Char) (text : List Char) :
    k.after (c :: text) = (k.next c).after text := rfl

/-- Reading two texts is reading the second after the first. -/
theorem after_append (k : Context) (first second : List Char) :
    k.after (first ++ second) = (k.after first).after second := List.foldl_append

/-- The brackets of a text that count, read in a context. -/
def seen : Context → List Char → List Char
  | _, [] => []
  | k, c :: rest => if k.counts c then c :: (k.next c).seen rest else (k.next c).seen rest

/-- A character that counts is seen. -/
theorem seen_cons_of_counts {k : Context} {c : Char} (h : k.counts c = true) (rest : List Char) :
    k.seen (c :: rest) = c :: (k.next c).seen rest := by
  rw [seen, if_pos h]

theorem seen_cons_of_not_counts {k : Context} {c : Char} (h : k.counts c = false)
    (rest : List Char) : k.seen (c :: rest) = (k.next c).seen rest := by
  rw [seen, if_neg (by rw [h]; decide)]

/-- What is seen in two texts is what is seen in the second after the first. -/
theorem seen_append (k : Context) (first second : List Char) :
    k.seen (first ++ second) = k.seen first ++ (k.after first).seen second := by
  induction first generalizing k with
  | nil => rfl
  | cons c rest ih =>
      rw [List.cons_append, after_cons]
      rcases h : k.counts c with _ | _
      · rw [seen_cons_of_not_counts h, seen_cons_of_not_counts h, ih]
      · rw [seen_cons_of_counts h, seen_cons_of_counts h, ih, List.cons_append]

end Context

/-! ## Levels -/

/-- The level behind a bracket. A closing one without an opening one stays on the ground. -/
def rise (depth : Nat) (c : Char) : Nat := if isOpening c then depth + 1 else depth - 1

/-- An opening bracket raises the level. -/
theorem rise_of_isOpening {c : Char} (h : isOpening c = true) (depth : Nat) :
    rise depth c = depth + 1 := if_pos h

/-- A closing one lowers it, but not below nothing. -/
theorem rise_of_isClosing {c : Char} (h : isClosing c = true) (depth : Nat) :
    rise depth c = depth - 1 := if_neg (by rw [isOpening_of_isClosing h]; decide)

/-- The level behind several brackets. -/
def level (depth : Nat) (brackets : List Char) : Nat := brackets.foldl rise depth

/-- The deepest level that is reached over several brackets. -/
def peak : Nat → List Char → Nat
  | depth, [] => depth
  | depth, c :: rest => max depth (peak (rise depth c) rest)

/-- How deep brackets nest. -/
def deepest (brackets : List Char) : Nat := peak 0 brackets

theorem level_append (depth : Nat) (first second : List Char) :
    level depth (first ++ second) = level (level depth first) second := List.foldl_append

/-- The peak is not below where one starts. -/
theorem le_peak (depth : Nat) (brackets : List Char) : depth ≤ peak depth brackets := by
  cases brackets with
  | nil => exact Nat.le_refl depth
  | cons c rest => exact Nat.le_max_left _ _

theorem peak_append (depth : Nat) (first second : List Char) :
    peak depth (first ++ second) = max (peak depth first) (peak (level depth first) second) := by
  induction first generalizing depth with
  | nil => exact (Nat.max_eq_right (le_peak depth second)).symm
  | cons c rest ih =>
      rw [List.cons_append, peak, peak, ih, Nat.max_assoc]
      rfl

theorem level_le_peak (depth : Nat) (brackets : List Char) :
    level depth brackets ≤ peak depth brackets := by
  have hpeak := peak_append depth brackets []
  rw [List.append_nil, peak] at hpeak
  omega

/-! ## The scan -/

/-- The level behind a character, which rises or falls if it is a bracket that counts. -/
def State.levelAfter (s : State) (c : Char) : Nat :=
  if s.context.counts c then rise s.depth c else s.depth

/-- A character is read as its context says, if the level behind it is not too deep. -/
structure State.Steps (s : State) (c : Char) (t : State) : Prop where
  step_eq : s.step c = .ok t
  context_eq : t.context = s.context.next c
  depth_eq : t.depth = s.levelAfter c
  depth_le : t.depth ≤ maxNesting

/-- A character outside of literals and comments: the place that it is counted into makes no
difference. -/
theorem State.code_cases (s : State) (c : Char) (h : s.depth ≤ maxNesting) :
    (∃ t, s.code c = .ok t ∧ t.context = s.context.code c
        ∧ t.depth = (if isBracket c then rise s.depth c else s.depth) ∧ t.depth ≤ maxNesting)
      ∨ isBracket c = true ∧ maxNesting < rise s.depth c ∧ ∃ e, s.code c = .error e := by
  unfold State.code
  dsimp only
  -- quotes and slashes change the mode, brackets the depth, and all else neither
  by_cases hquote : c = '\x22' ∨ c = '\x27'
  · have hplain : isBracket c = false := by rcases hquote with rfl | rfl <;> decide
    refine .inl ⟨_, if_pos hquote, ?_, by simp [hplain], h⟩
    rcases hquote with rfl | rfl <;> rfl
  · rw [if_neg hquote]
    by_cases hslash : c = '/'
    · subst hslash
      exact .inl ⟨_, if_pos rfl, rfl, rfl, h⟩
    · rw [if_neg hslash]
      have hcode : s.context.code c = ⟨.code, c == 'r' || c == 'R'⟩ := by
        rw [Context.code, if_neg hquote, if_neg hslash]
      rw [hcode]
      by_cases hopen : c = '(' ∨ c = '['
      · have hopening : isOpening c = true := by simpa [isOpening] using hopen
        have hbracket := isBracket_of_isOpening hopening
        have hrise := rise_of_isOpening hopening s.depth
        rw [if_pos hopen]
        -- the only refusal
        by_cases hdeep : maxNesting ≤ s.depth
        · exact .inr ⟨hbracket, by omega, _, if_pos hdeep⟩
        · refine .inl ⟨_, if_neg hdeep, rfl, ?_, ?_⟩
          · rw [if_pos hbracket, hrise]
          · show s.depth + 1 ≤ maxNesting
            omega
      · have hopening : isOpening c = false := by
          simpa [isOpening] using not_or.mp hopen
        rw [if_neg hopen]
        by_cases hclose : c = ')' ∨ c = ']'
        · have hclosing : isClosing c = true := by simpa [isClosing] using hclose
          have hbracket := isBracket_of_isClosing hclosing
          have hrise := rise_of_isClosing hclosing s.depth
          refine .inl ⟨_, if_pos hclose, rfl, ?_, ?_⟩
          · rw [if_pos hbracket, hrise]
          · show s.depth - 1 ≤ maxNesting
            omega
        · have hbracket : isBracket c = false := by
            rw [isBracket, hopening, Bool.false_or]
            simpa [isClosing] using not_or.mp hclose
          refine .inl ⟨_, if_neg hclose, rfl, ?_, h⟩
          rw [hbracket]
          rfl

/-- The count of lines leaves the context as it is. -/
theorem State.count_context (s : State) (c : Char) : (s.count c).context = s.context := by
  unfold State.count
  split <;> rfl

theorem State.count_depth (s : State) (c : Char) : (s.count c).depth = s.depth := by
  unfold State.count
  split <;> rfl

/-- One character is accepted if it does not lead beyond the deepest level. -/
theorem State.step_cases (s : State) (c : Char) (h : s.depth ≤ maxNesting) :
    (∃ t, s.Steps c t) ∨ maxNesting < s.levelAfter c ∧ ∃ e, s.step c = .error e := by
  have hcode : ∀ (hcounts : s.context.counts c = isBracket c)
      (hnext : s.context.next c = s.context.code c) (hstep : s.step c = (s.count c).code c),
      (∃ t, s.Steps c t) ∨ maxNesting < s.levelAfter c ∧ ∃ e, s.step c = .error e := by
    intro hcounts hnext hstep
    have hlevel : s.levelAfter c = if isBracket c then rise s.depth c else s.depth := by
      rw [State.levelAfter, hcounts]
    have hcases := State.code_cases (s.count c) c (by rwa [State.count_depth])
    rw [State.count_depth, State.count_context, ← hstep, ← hnext] at hcases
    rcases hcases with ⟨t, ht, hcontext, hdepth, hle⟩ | ⟨hbracket, hdeep, e, he⟩
    · exact .inl ⟨t, ht, hcontext, hdepth.trans hlevel.symm, hle⟩
    · refine .inr ⟨?_, e, he⟩
      rwa [hlevel, if_pos hbracket]
  -- wherever the character is not code, the level stays what it is
  have hother : ∀ t : State, s.context.counts c = false → s.step c = .ok t →
      t.context = s.context.next c → t.depth = s.depth →
      (∃ t, s.Steps c t) ∨ maxNesting < s.levelAfter c ∧ ∃ e, s.step c = .error e := by
    intro t hcounts hstep hcontext hdepth
    refine .inl ⟨t, hstep, hcontext, ?_, by omega⟩
    rw [State.levelAfter, hcounts]
    exact hdepth
  rcases s with ⟨mode, depth, line, column, rawMark⟩
  cases mode with
  | code => exact hcode rfl rfl rfl
  | slash =>
      by_cases hslash : c = '/'
      · subst hslash
        exact hother _ rfl rfl rfl rfl
      · exact hcode rfl (if_neg hslash) (if_neg hslash)
  | comment =>
      by_cases hline : c = '\n'
      · subst hline
        exact hcode rfl rfl rfl
      · exact hother _ rfl (if_neg hline) (if_neg hline).symm rfl
  | quoted delimiter raw =>
      have hdepth := State.count_depth ⟨.quoted delimiter raw, depth, line, column, rawMark⟩ c
      by_cases hescape : c = '\\' ∧ raw = false
      · refine hother _ rfl (if_pos hescape) ?_ hdepth
        rw [hescape.1]
        exact (if_pos ⟨rfl, hescape.2⟩).symm
      · by_cases hend : c = delimiter ∨ c = '\n'
        · refine hother _ rfl ((if_neg hescape).trans (if_pos hend)) ?_ hdepth
          exact ((if_neg hescape).trans (if_pos hend)).symm
        · refine hother _ rfl ((if_neg hescape).trans (if_neg hend)) ?_ hdepth
          rw [State.context, State.context, Context.next]
          dsimp only
          rw [if_neg hescape, if_neg hend]
          congr 1
          unfold State.count
          split <;> rfl
  | escaped delimiter => exact hother _ rfl rfl rfl rfl

/-- The scan goes on as long as no level is too deep. -/
theorem scanFrom_eq_ok_iff (s : State) (text : List Char) (h : s.depth ≤ maxNesting) :
    scanFrom s text = .ok () ↔ peak s.depth (s.context.seen text) ≤ maxNesting := by
  induction text generalizing s with
  | nil => exact iff_of_true rfl h
  | cons c rest ih =>
      rw [scanFrom]
      -- the bracket at the front takes part in the peak, if it counts
      have hpeak : peak s.depth (s.context.seen (c :: rest)) ≤ maxNesting ↔
          peak (s.levelAfter c) ((s.context.next c).seen rest) ≤ maxNesting := by
        rcases hcounts : s.context.counts c with _ | _
        · rw [Context.seen_cons_of_not_counts hcounts, State.levelAfter, hcounts]
          rfl
        · rw [Context.seen_cons_of_counts hcounts, State.levelAfter, if_pos hcounts, peak]
          omega
      -- a step is as the context and the levels say, or it is one too deep
      rcases s.step_cases c h with ⟨t, hsteps⟩ | ⟨hdeep, e, he⟩
      · rw [hsteps.step_eq]
        dsimp only
        rw [ih t hsteps.depth_le, hsteps.context_eq, hsteps.depth_eq, hpeak]
      · rw [he, hpeak]
        have hle := le_peak (s.levelAfter c) ((s.context.next c).seen rest)
        exact iff_of_false (by rintro ⟨⟩) (by omega)

/-- **Seeing and counting.** A text is accepted if the brackets that the scan sees in it nest
no deeper than allowed. -/
theorem scan_eq_ok_iff (text : List Char) :
    scan text = .ok () ↔ deepest (Context.start.seen text) ≤ maxNesting :=
  scanFrom_eq_ok_iff .start text (Nat.zero_le _)

end RowFilter.Brackets
