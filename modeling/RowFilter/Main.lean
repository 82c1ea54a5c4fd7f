/-
The program. It reads the file with the settings, does what the request comes to,
and ends with 0, with 1 for a failure or with 2 for arguments that make no sense.
-/
import RowFilter.Command.Run

set_option autoImplicit false

namespace RowFilter.Command

/-- The contents of a file, if it can be read. -/
def readContents (path : String) : IO (Option String) := do
  try
    return some (← IO.FS.readFile path)
  catch _ =>
    return none

/-- Showing a failure. -/
def Failure.show (why : Failure) : IO UInt32 := do
  IO.eprintln ("Error: " ++ why.text)
  return 1

/-- Doing what is to be done. -/
def Effect.perform : Effect → IO UInt32
  | .print text => do
    IO.print text
    return 0
  | .write path text => do
    try
      IO.FS.writeFile path text
      return 0
    catch _ =>
      Failure.unwritable.show
  | .fail why => why.show

end RowFilter.Command

open RowFilter.Command in
/-- The program. -/
def main (args : List String) : IO UInt32 := do
  match request? args with
  | none =>
    IO.eprintln "error: invalid arguments"
    return 2
  | some request =>
    let contents ← match request.configPath? with
      | some path => readContents path
      | none => pure none
    (request.effect contents).perform
