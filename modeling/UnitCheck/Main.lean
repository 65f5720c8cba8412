import UnitCheck.Command.Run

/-!
# The program

Runs the commands on the files of the machine.
-/

namespace UnitCheck

/-- What the machine has under a path. -/
def lookOnMachine (path : String) : IO (Option Entry) := do
  try
    let place ← IO.FS.realPath path
    if ← place.isDir then
      let entries ← place.readDir
      let names ← entries.toList.mapM fun e => do return (e.fileName, ← e.path.isDir)
      return some (.directory names)
    else
      let bytes ← IO.FS.readBinFile path
      return some (.file ((String.fromUTF8? bytes).getD "\x00"))
  catch _ => return none

end UnitCheck

def main (args : List String) : IO UInt32 := do
  let outcome ← UnitCheck.Command.run ⟨UnitCheck.lookOnMachine⟩ args
  IO.print outcome.stdout
  IO.eprint outcome.stderr
  return outcome.code.toUInt32
