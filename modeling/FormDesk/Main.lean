/-
The program `xmlform`: the command line on real files.
-/
import FormDesk.CommandLine

namespace FormDesk

/-- Reads a file; one that cannot be opened counts as absent. -/
def readText (path : String) : IO FileText := do
  try
    return FileText.ofBytes (← IO.FS.readBinFile path)
  catch
    | .inappropriateType .. => return .error .isDirectory
    | _ => return .error .notFound

end FormDesk

/-- Runs the program on its arguments. -/
def main (args : List String) : IO UInt32 := do
  let reply ← FormDesk.commandLine FormDesk.readText args
  IO.print reply.output
  return reply.code.toUInt32
