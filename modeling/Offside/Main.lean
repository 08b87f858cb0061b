import Offside.Command.Perform
import Offside.Settings.Document

namespace Offside

/-!
# The command line

Reads the files that an invocation can ask for, performs it, and writes its report.  Only
one user has a home here, and documents are read by the reader for the part of their
language that settings need.
-/

namespace Main

/-- The entry at a path of the file system. -/
def readEntry (path : Path) : IO (Option FileEntry) := do
  try
    let bytes ← IO.FS.readBinFile path.text.toString
    return some (.file bytes.toList)
  catch
    | .noFileOrDirectory _ _ _ => return none
    | _ => return some .directory

/-- The paths that an invocation can ask for. -/
def paths (invocation : Invocation) (settingsFile : Option Text) (home : Path) : List Path :=
  let subject := if invocation.job = .eval then none else some invocation.subject
  let named := [subject, invocation.config, settingsFile].filterMap id
  Settings.userPath home ::
    named.flatMap fun text =>
      let path := Path.ofText text
      path :: (path.expanded fun _ => some home).toList

/-- The surroundings of an invocation. -/
def surroundings (invocation : Invocation) : IO Surroundings := do
  let settingsFile := (← IO.getEnv "EUCALYPTUS_CONFIG").map Text.ofString
  let home := Path.ofText (Text.ofString ((← IO.getEnv "HOME").getD "/"))
  let entries ← (paths invocation settingsFile home).mapM fun path => do
    return (path, ← readEntry path)
  return {
    find? := fun path => (entries.lookup path).join
    settingsFile
    homeOf := fun user => if user.isEmpty then some home else none
    readDocument := fun text => .ok (Document.parse text)
  }

/-- Performs the invocation of a command line and gives its exit status. -/
def perform (arguments : List String) : IO UInt32 := do
  match Invocation.ofArguments (arguments.map Text.ofString) with
  | .error refusal =>
      IO.eprintln refusal.message.toString
      return refusal.status.toUInt32
  | .ok invocation =>
      match invocation.perform (← surroundings invocation) with
      | .ok report =>
          IO.print report.output.toString
          IO.eprint report.errors.toString
          return report.status.toUInt32
      | .error crash =>
          IO.eprintln crash.message.toString
          return 1

end Main

end Offside

/-- The command line. -/
def main (arguments : List String) : IO UInt32 :=
  Offside.Main.perform arguments
