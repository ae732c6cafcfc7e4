import StakePool.Program

/-!
# Command line entry

`main` looks up the arguments, the environment and the directory, and prints what `Program.run` says.
-/

namespace StakePool.Program

def survey (name : String) : IO Place := do
  let path ← IO.FS.realPath name
  if ← path.isDir then
    let mut contents : Directory := .empty
    for entry in ← path.readDir do
      if ← entry.path.isDir then
        contents := contents.insert entry.fileName .directory
      else
        let bytes ← IO.FS.readBinFile entry.path
        contents := contents.insert entry.fileName (.file bytes.toList)
    return .directory contents
  else if ← path.pathExists then
    return .file
  else
    return .missing

end StakePool.Program

open StakePool in
def main (arguments : List String) : IO UInt32 := do
  let environment ← IO.getEnv Program.directoryVariable
  let outcome ← match Invocation.parse environment arguments with
    | none => pure Program.misuse
    | some invocation => do
      let place ← Program.survey invocation.directory
      if let .missing := place then
        if Program.makesDirectory invocation.command then
          IO.FS.createDirAll invocation.directory
      pure (Program.run invocation place)
  IO.print outcome.stdout
  IO.eprint outcome.stderr
  return outcome.exitCode
