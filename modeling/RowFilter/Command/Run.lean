/-
Carrying out a command line.

What a command does to the world is one of three things: it prints, it writes one
file, or it fails. It is computed from the arguments and the contents of the file
with the settings, so all of it but reading and writing is decided here.
-/
import RowFilter.Command.Failure
import RowFilter.Command.Help
import RowFilter.Command.Report
import RowFilter.Config.Json

set_option autoImplicit false

namespace RowFilter.Command

/-- What is to be done. -/
inductive Effect where
  | print (text : String)
  | write (path text : String)
  | fail (why : Failure)
  deriving DecidableEq, Repr

/-- The settings in the text of a file, if the file can be read. -/
def loadConfig (contents : Option String) : Except Failure Config :=
  match contents with
  | none => .error .unreadable
  | some text =>
    match Config.ofJson text with
    | .ok config => .ok config
    | .error _ => .error .badConfig

/-- A conversion for a caller; without roles there is no question of access. -/
def convertFor (c : Converter) (expr : String) (roles : List String) :
    Except ConvertError Conversion :=
  if roles.isEmpty then c.convert expr else c.convertWithRoles expr roles

/-- The report that a conversion comes to. -/
def report (options : ConvertOptions) (contents : Option String) : Except Failure Report :=
  match loadConfig contents with
  | .error why => .error why
  | .ok config =>
    match Converter.ofConfig config with
    | .error why => .error (.setup why)
    | .ok converter =>
      match convertFor converter options.expr options.roles with
      | .error why => .error (.convert why)
      | .ok conversion => .ok (.ofConversion conversion options.dialect)

/-- What a conversion does. A report that goes to a file is JSON and prints
nothing. -/
def convert (options : ConvertOptions) (contents : Option String) : Effect :=
  match report options contents with
  | .error why => .fail why
  | .ok r =>
    match options.output with
    | some path => .write path r.jsonText
    | none => .print (if options.json then r.jsonText ++ "\n" else r.plainText)

/-- What a listing does. -/
def fields (contents : Option String) : Effect :=
  match loadConfig contents with
  | .error why => .fail why
  | .ok config => .print (listing config)

/-- The file that a request reads. -/
def Request.configPath? : Request → Option String
  | .convert options => some options.config
  | .fields config => some config
  | .help _ => none
  | .version => none

/-- What a request does, given the contents of the file that it reads. -/
def Request.effect (contents : Option String) : Request → Effect
  | .convert options => Command.convert options contents
  | .fields _ => Command.fields contents
  | .help topic => .print topic.text
  | .version => .print versionText

end RowFilter.Command
