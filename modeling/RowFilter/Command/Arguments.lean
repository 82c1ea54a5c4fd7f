/-
The arguments of the command line.

Arguments are read from left to right and the first that decides something decides:
an argument that cannot be there refuses the whole line, and a request for help
answers it, whatever stands behind. An option takes its value from the next
argument or from behind an equals sign; an argument that looks like an option is
never taken for a value.
-/
import RowFilter.Sql.Dialect

set_option autoImplicit false

namespace RowFilter.Command

open Sql (Dialect)

/-- The options of a conversion. -/
structure ConvertOptions where
  config : String
  expr : String
  roles : List String
  dialect : Dialect
  json : Bool
  output : Option String
  deriving DecidableEq, Repr

/-- The pages of help. -/
inductive Topic where
  | overview
  | convert
  | fields
  | help
  deriving DecidableEq, Repr

/-- What a command line asks for. -/
inductive Request where
  | convert (options : ConvertOptions)
  | fields (config : String)
  | help (topic : Topic)
  | version
  deriving DecidableEq, Repr

/-! ## Single arguments -/

/-- The name of a long option, and the value behind an equals sign if there is one. -/
def longOption? (arg : String) : Option (String × Option String) :=
  match arg.toList with
  | '-' :: '-' :: rest =>
    let name := String.ofList (rest.takeWhile (· ≠ '='))
    match rest.dropWhile (· ≠ '=') with
    | [] => some (name, none)
    | _ :: value => some (name, some (String.ofList value))
  | _ => none

/-- Whether an argument asks for something by a single letter. -/
def asksFor (letter : Char) (arg : String) : Bool :=
  match arg.toList with
  | '-' :: c :: _ => c == letter
  | _ => false

/-- Whether an argument can be the value of the option before it: it does not start
with a dash, or it is nothing but a dash. -/
def canBeValue (arg : String) : Bool :=
  match arg.toList with
  | '-' :: _ :: _ => false
  | _ => true

/-! ## Options -/

/-- Whether an option takes a value. -/
inductive Arity where
  | flag
  | valued
  deriving DecidableEq, Repr

/-- How reading options ends. -/
inductive Reading (σ : Type) where
  | done (state : σ)
  | help
  | refused

/-- The options of a line, one after the other into a state. A bare double dash ends
them, and nothing may follow it. -/
def readOptions {σ : Type} (arity? : String → Option Arity)
    (put : σ → String → String → Option σ) : (fuel : Nat) → σ → List String → Reading σ
  | _, state, [] => .done state
  -- every option takes an argument off the line, so this is not reached from its length
  | 0, _, _ => .refused
  | fuel + 1, state, arg :: rest =>
    if arg = "--" then (if rest.isEmpty then .done state else .refused)
    else
      let continued (name value : String) (rest : List String) : Reading σ :=
        match put state name value with
        | some state => readOptions arity? put fuel state rest
        | none => .refused
      match longOption? arg with
      | none => if asksFor 'h' arg then .help else .refused
      | some ("help", none) => .help
      | some (name, attached) =>
        match arity? name, attached, rest with
        | some .flag, none, rest => continued name "" rest
        | some .valued, some value, rest => continued name value rest
        | some .valued, none, value :: rest =>
          if canBeValue value then continued name value rest else .refused
        | _, _, _ => .refused

/-! ## Conversions -/

/-- The options of a conversion as far as they have been read. -/
structure Draft where
  config : Option String
  expr : Option String
  roles : List String
  dialect : Option Dialect
  json : Bool
  output : Option String

def Draft.empty : Draft := ⟨none, none, [], none, false, none⟩

def dialectNamed? : String → Option Dialect
  | "postgres" => some .postgres
  | "mysql" => some .mysql
  | _ => none

/-- A value for an option that may be given once. -/
def once (old : Option String) (value : String) : Option (Option String) :=
  match old with
  | none => some (some value)
  | some _ => none

def Draft.arity? : String → Option Arity
  | "config" | "expr" | "role" | "dialect" | "output" => some .valued
  | "json" => some .flag
  | _ => none

/-- One more option. Only roles may be repeated, and a dialect has to be known. -/
def Draft.put (d : Draft) (name value : String) : Option Draft :=
  match name with
  | "config" => (once d.config value).map fun v => { d with config := v }
  | "expr" => (once d.expr value).map fun v => { d with expr := v }
  | "output" => (once d.output value).map fun v => { d with output := v }
  | "role" => some { d with roles := d.roles ++ [value] }
  | "dialect" =>
    match d.dialect, dialectNamed? value with
    | none, some dialect => some { d with dialect := some dialect }
    | _, _ => none
  | "json" => if d.json then none else some { d with json := true }
  | _ => none

/-- A conversion needs settings and an expression. -/
def Draft.finish (d : Draft) : Option ConvertOptions :=
  match d.config, d.expr with
  | some config, some expr =>
    some ⟨config, expr, d.roles, d.dialect.getD .postgres, d.json, d.output⟩
  | _, _ => none

/-- What the arguments behind `convert` ask for. -/
def convertRequest? (args : List String) : Option Request :=
  match readOptions Draft.arity? Draft.put args.length .empty args with
  | .done draft => draft.finish.map .convert
  | .help => some (.help .convert)
  | .refused => none

/-! ## Listings -/

def fieldsArity? : String → Option Arity
  | "config" => some .valued
  | _ => none

/-- What the arguments behind `fields` ask for. -/
def fieldsRequest? (args : List String) : Option Request :=
  match readOptions fieldsArity? (fun old _ value => once old value) args.length none args with
  | .done (some config) => some (.fields config)
  | .done none => none
  | .help => some (.help .fields)
  | .refused => none

/-! ## Whole lines -/

/-- What the arguments behind `help` ask for. -/
def helpRequest? : List String → Option Request
  | [] => some (.help .overview)
  | ["convert"] => some (.help .convert)
  | ["fields"] => some (.help .fields)
  | ["help"] => some (.help .help)
  | _ => none

/-- What a command line asks for; nothing if its arguments are wrong. -/
def request? : List String → Option Request
  | [] => none
  | "convert" :: rest => convertRequest? rest
  | "fields" :: rest => fieldsRequest? rest
  | "help" :: rest => helpRequest? rest
  | arg :: _ =>
    if arg = "--help" || asksFor 'h' arg then some (.help .overview)
    else if arg = "--version" || asksFor 'V' arg then some .version
    else none

end RowFilter.Command
