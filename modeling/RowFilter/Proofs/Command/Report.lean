/-
What a report tells of a conversion.

A report has the text of a condition and, for each value that it binds, the JSON value closest to
it. The text determines the condition but for the values (`Sql.Predicate.shape_eq_of_sql_eq`), and
of values of one kind the JSON value determines all that are no doubles and all doubles that are
finite. Doubles that are no numbers are not bound, since no literal denotes one. What is left are
the two infinities, which literals that are too large denote: they are reported as `null`, both of
them. So a report tells everything but the signs of these.
-/
import RowFilter.Command.Report
import RowFilter.Proofs.Condition.Kinds
import RowFilter.Proofs.Conversion.Pipeline
import RowFilter.Proofs.Conversion.Settings
import RowFilter.Proofs.Expr.Numbers
import RowFilter.Proofs.Sql.Readability
import RowFilter.Proofs.Typing.Checker

set_option autoImplicit false

namespace RowFilter

/-! ## Values and their JSON -/

namespace Value

variable {v w : Value}

/-- A double beyond all finite ones. -/
def IsInfinite (v : Value) : Prop := ∃ d, v = .float d ∧ d.magnitude = .infinite

/-- The two values are one, or doubles that are told apart by their sign only. -/
def SameButSign (v w : Value) : Prop := v = w ∨ v.IsInfinite ∧ w.IsInfinite

/-- A double that is a number is reported as itself, or as `null` if it is infinite. -/
theorem plainJson_float {d : Double} (hnumber : d.isNaN = false) :
    (d.magnitude = .infinite ∧ plainJson (.float d) = .null) ∨ plainJson (.float d) = .float d := by
  rw [plainJson]
  cases hmagnitude : d.magnitude with
  | finite significand exponent => exact .inr rfl
  | infinite => exact .inl ⟨rfl, rfl⟩
  | notANumber =>
      rw [Double.isNaN, hmagnitude] at hnumber
      cases hnumber

/-- Apart from `null` itself, infinite doubles are the only values that are reported as `null`. -/
theorem plainJson_eq_null_iff (hnull : v ≠ .null) (hv : v.Denotable) :
    v.plainJson = .null ↔ v.IsInfinite := by
  constructor
  · intro h
    cases v with
    | float d =>
        rcases plainJson_float (hv d rfl) with ⟨hinfinite, -⟩ | hsame
        · exact ⟨d, rfl, hinfinite⟩
        · rw [hsame] at h
          cases h
    | null => exact absurd rfl hnull
    | _ => cases h
  · rintro ⟨d, rfl, hinfinite⟩
    rw [plainJson, hinfinite]

/-- Of one kind, values that are reported alike are the same but for the sign of an infinite
double. -/
theorem sameButSign_of_plainJson_eq (hkind : v.kind = w.kind) (hv : v.Denotable) (hw : w.Denotable)
    (h : v.plainJson = w.plainJson) : v.SameButSign w := by
  -- values of one kind are of one constructor
  cases v <;> cases w <;> cases hkind
  -- integers are reported in decimal digits, which no two of them share
  case int a b => exact .inl (congrArg Value.int (Int64.toInt_inj.mp (Json.int.inj h)))
  case uint a b =>
      have hnat : a.toNat = b.toNat := by exact_mod_cast Json.int.inj h
      exact .inl (congrArg Value.uint (UInt64.toNat_inj.mp hnat))
  -- a finite double is reported as itself, an infinite one as `null` whatever its sign is
  case float a b =>
      rcases plainJson_float (hv a rfl) with ⟨ha, hanull⟩ | ha
      · rcases plainJson_float (hw b rfl) with ⟨hb, -⟩ | hb
        · exact .inr ⟨⟨a, rfl, ha⟩, ⟨b, rfl, hb⟩⟩
        · rw [hanull, hb] at h
          cases h
      · rcases plainJson_float (hw b rfl) with ⟨-, hbnull⟩ | hb
        · rw [ha, hbnull] at h
          cases h
        · rw [ha, hb] at h
          exact .inl (congrArg Value.float (Json.float.inj h))
  case string a b => exact .inl (congrArg Value.string (Json.string.inj h))
  case boolean a b => exact .inl (congrArg Value.boolean (Json.bool.inj h))
  -- bytes are reported one by one
  case bytes a b =>
      have hbytes : a = b := by
        refine (List.map_inj_right fun x y hxy => ?_).mp (Json.array.inj h)
        have hnat : x.toNat = y.toNat := by exact_mod_cast Json.int.inj hxy
        exact UInt8.toNat_inj.mp hnat
      exact .inl (congrArg Value.bytes hbytes)
  case null => exact .inl rfl

/-- The same for lists of values of the same kinds, place by place. -/
theorem sameButSign_of_map_eq {vs ws : List Value} (hkinds : vs.map kind = ws.map kind)
    (hvs : ∀ v ∈ vs, v.Denotable) (hws : ∀ w ∈ ws, w.Denotable)
    (h : vs.map plainJson = ws.map plainJson) : List.Forall₂ SameButSign vs ws := by
  induction vs generalizing ws with
  | nil =>
      obtain rfl := List.map_eq_nil_iff.mp h.symm
      exact .nil
  | cons v vs ih =>
      cases ws with
      | nil => cases h
      | cons w ws =>
          obtain ⟨hkind, hkinds⟩ := List.cons.inj hkinds
          obtain ⟨hjson, hjsons⟩ := List.cons.inj h
          obtain ⟨hv, hvs⟩ := List.forall_mem_cons.mp hvs
          obtain ⟨hw, hws⟩ := List.forall_mem_cons.mp hws
          exact .cons (sameButSign_of_plainJson_eq hkind hv hw hjson) (ih hkinds hvs hws hjsons)

/-- Without infinite doubles there are no signs to confuse. -/
theorem eq_of_sameButSign {vs ws : List Value} (h : List.Forall₂ SameButSign vs ws)
    (hfinite : ∀ v ∈ vs, ¬ v.IsInfinite) : vs = ws := by
  induction h with
  | nil => rfl
  | @cons v w vs ws hsame _ ih =>
      obtain ⟨hv, hvs⟩ := List.forall_mem_cons.mp hfinite
      -- by assumption the values are finite, so only the first case is left
      rcases hsame with rfl | ⟨hinfinite, -⟩
      · rw [ih hvs]
      · exact absurd hinfinite hv

end Value

/-! ## Bound values -/

/-- The literals of a compiled tree hold values that literals can denote. -/
theorem Environment.denotable_of_compile {env : Environment} {source : String} {tree : TypedExpr}
    (h : env.compile source = .ok tree) {type : ValueType} {value : Value}
    (hpart : TypedExpr.Part (.literal type value) tree) : value.Denotable := by
  obtain ⟨e, hparse, hcheck⟩ := compile_eq_ok_iff.mp h
  -- a literal of the typed tree comes from a literal of the expression
  obtain ⟨n, hsub, helaborates⟩ := (Typing.elaborates_of_check hcheck).of_part hpart
  cases helaborates with
  | literal info _ => exact Expr.allDenotable_of_parse hparse info value hsub

/-- What a converter of settings binds is a value that a literal can denote, other than `null`. -/
theorem Converter.bound_of_run {config : Config} {c : Converter}
    (hconfig : ofConfig config = .ok c) {source : String} {roles : Option (List String)}
    {conversion : Conversion} (h : (c.run source roles).result = .ok conversion) :
    ∀ v ∈ conversion.predicate.boundValues, v ≠ .null ∧ v.Denotable := by
  intro v hv
  obtain ⟨env, -, rfl⟩ := exists_environment hconfig
  obtain ⟨tree, hadmits, -, hcompile, -⟩ := run_eq_ok_iff.mp h
  obtain ⟨hnull, hsource⟩ := (Condition.derives_of_compile hcompile).source_of_mem hv
  refine ⟨hnull, ?_⟩
  -- a value is a truth value, or it stands in a literal of the tree
  rcases hsource with hkind | ⟨type, hpart⟩
  · rintro d rfl
    exact absurd hkind (by simp [Value.kind])
  · exact Environment.denotable_of_compile hadmits.compiles hpart

/-! ## Reports -/

namespace Command.Report

open Converter (bound_of_run)
open Value (SameButSign)

/-- Reports on conversions are the same if what is written and what is bound is reported alike. -/
theorem ofConversion_eq {v w : Conversion} {d : Sql.Dialect}
    (h : ofConversion v d = ofConversion w d) :
    v.predicate.shape = w.predicate.shape
      ∧ v.predicate.boundValues.map Value.plainJson
        = w.predicate.boundValues.map Value.plainJson := by
  have hsql := congrArg Report.sql h
  have hparams := congrArg Report.params h
  dsimp only [ofConversion] at hsql hparams
  -- the text gives the shape, the parameters give the values
  refine ⟨Sql.Predicate.shape_eq_of_sql_eq hsql, ?_⟩
  rwa [Sql.Predicate.toSql_eq, Sql.Predicate.toSql_eq] at hparams

/-- **What a report tells.** A value that is bound is reported as `null` exactly if it is an
infinite double. Two conversions under the same settings whose values are of the same kinds and
that are reported alike have the same condition but for the signs of infinite doubles; so they have
the same condition, if they bind none. -/
theorem ofConversion_tells {config : Config} {c : Converter}
    (hconfig : Converter.ofConfig config = .ok c) {source source' : String}
    {roles roles' : Option (List String)} {v w : Conversion}
    (hv : (c.run source roles).result = .ok v) (hw : (c.run source' roles').result = .ok w) :
    (∀ value ∈ v.predicate.boundValues, value.plainJson = .null ↔ value.IsInfinite)
      ∧ ∀ d : Sql.Dialect,
          v.predicate.boundValues.map Value.kind = w.predicate.boundValues.map Value.kind →
          ofConversion v d = ofConversion w d →
            v.predicate.shape = w.predicate.shape
              ∧ List.Forall₂ SameButSign v.predicate.boundValues w.predicate.boundValues
              ∧ ((∀ value ∈ v.predicate.boundValues, ¬ value.IsInfinite) →
                  v.predicate = w.predicate) := by
  have hboundv := bound_of_run hconfig hv
  have hboundw := bound_of_run hconfig hw
  refine ⟨fun value hvalue => ?_, fun d hkinds hreport => ?_⟩
  · obtain ⟨hnull, hdenotable⟩ := hboundv value hvalue
    exact Value.plainJson_eq_null_iff hnull hdenotable
  · obtain ⟨hshape, hparams⟩ := ofConversion_eq hreport
    have hsame := Value.sameButSign_of_map_eq hkinds (fun value h => (hboundv value h).2)
      (fun value h => (hboundw value h).2) hparams
    refine ⟨hshape, hsame, fun hfinite => ?_⟩
    exact Sql.Predicate.eq_of_shape_eq hshape (Value.eq_of_sameButSign hsame hfinite)

/-! ### Weights, finite and infinite -/

/-- A weight to filter by. -/
def weightConfig : Config := Config.empty.field "weight" .double

def weightConverter : Converter :=
  .withCompiler weightConfig (.environment ⟨[("weight", .double)]⟩)

/-- The settings of the weight are accepted. -/
theorem ofConfig_weight : Converter.ofConfig weightConfig = .ok weightConverter := by rfl

/-- The condition that the weight is a number. -/
def weighs (d : Double) : Conversion := ⟨.compare "weight" .eq (.float d), 2⟩

/-- One half, in two spellings. -/
theorem ofConversion_tells_half :
    ∃ v w, (weightConverter.run "weight == 0.5" none).result = .ok v
      ∧ (weightConverter.run "weight == 5e-1" none).result = .ok w
      ∧ v.predicate.boundValues.map Value.kind = w.predicate.boundValues.map Value.kind
      ∧ ofConversion v .postgres = ofConversion w .postgres
      ∧ (∀ value ∈ v.predicate.boundValues, value.plainJson ≠ .null)
      ∧ v.predicate = w.predicate := by
  -- both spellings are read as one decimal with one digit behind the point
  have hpoint : (weightConverter.run "weight == 0.5" none).result
      = .ok (weighs (.ofDecimal false 5 (-1))) :=
    Converter.eq_ok_of_toOption (by decide +kernel)
  have hexponent : (weightConverter.run "weight == 5e-1" none).result
      = .ok (weighs (.ofDecimal false 5 (-1))) :=
    Converter.eq_ok_of_toOption (by decide +kernel)
  obtain ⟨hnull, htells⟩ := ofConversion_tells ofConfig_weight hpoint hexponent
  have hfinite : ∀ value ∈ (weighs (.ofDecimal false 5 (-1))).predicate.boundValues,
      ¬ value.IsInfinite := by
    rintro _ hvalue ⟨d, rfl, hinfinite⟩
    obtain rfl := Value.float.inj (List.mem_singleton.mp hvalue)
    exact absurd hinfinite (by decide +kernel)
  refine ⟨_, _, hpoint, hexponent, rfl, rfl, fun value hvalue hjson => ?_,
    (htells .postgres rfl rfl).2.2 hfinite⟩
  exact hfinite value hvalue ((hnull value hvalue).mp hjson)

/-- Two literals that are too large for a double, one of them negative, are bound as different
values and reported as one, `null`. -/
theorem infinite_weights_reported_alike :
    Converter.ofConfig weightConfig = .ok weightConverter
      ∧ (weightConverter.run "weight == 1e999" none).result = .ok (weighs .infinity)
      ∧ (weightConverter.run "weight == -1e999" none).result = .ok (weighs Double.infinity.negate)
      ∧ (weighs .infinity).predicate.boundValues.map Value.kind
          = (weighs Double.infinity.negate).predicate.boundValues.map Value.kind
      ∧ ofConversion (weighs .infinity) .postgres
          = ofConversion (weighs Double.infinity.negate) .postgres
      ∧ (ofConversion (weighs .infinity) .postgres).params = [.null]
      ∧ (weighs .infinity).predicate ≠ (weighs Double.infinity.negate).predicate :=
  ⟨ofConfig_weight, Converter.eq_ok_of_toOption (by decide +kernel),
    Converter.eq_ok_of_toOption (by decide +kernel), rfl, rfl, rfl, by decide +kernel⟩

end Command.Report

end RowFilter
