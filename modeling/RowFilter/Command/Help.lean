/-
The pages of help and the line that tells the version.
-/
import RowFilter.Command.Arguments

set_option autoImplicit false

namespace RowFilter.Command

def versionText : String := "celsql 0.1.0\n"

def overviewText : String :=
"Convert filter expressions into parameterized SQL predicates

Usage: celsql <COMMAND>

Commands:
  convert  Convert one filter expression into a SQL predicate
  fields   List the fields declared by a config file
  help     Print this message or the help of the given subcommand(s)

Options:
  -h, --help     Print help
  -V, --version  Print version
"

def convertText : String :=
"Convert one filter expression into a SQL predicate

Usage: celsql convert [OPTIONS] --config <CONFIG> --expr <EXPR>

Options:
      --config <CONFIG>    JSON config file declaring fields, limits and access rules
      --expr <EXPR>        Filter expression to convert
      --role <ROLES>       Caller role; repeat for several. Enables field authorization
      --dialect <DIALECT>  [default: postgres] [possible values: postgres, mysql]
      --json               Print the result as JSON instead of plain text
      --output <OUTPUT>    If specified, writes the JSON result to this file instead of stdout
  -h, --help               Print help
"

def fieldsText : String :=
"List the fields declared by a config file

Usage: celsql fields --config <CONFIG>

Options:
      --config <CONFIG>  JSON config file
  -h, --help             Print help
"

def helpText : String :=
"Print this message or the help of the given subcommand(s)

Usage: celsql help [COMMAND]...

Arguments:
  [COMMAND]...  Print help for the subcommand(s)
"

/-- A page of help. -/
def Topic.text : Topic → String
  | .overview => overviewText
  | .convert => convertText
  | .fields => fieldsText
  | .help => helpText

end RowFilter.Command
