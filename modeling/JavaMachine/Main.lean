import JavaMachine.Launcher.Run

/-!
The command. It copies what the launcher may read from the system's disk, runs it, writes back the files
that have changed, and prints what the launcher has printed.
-/

namespace JavaMachine.Command

open Text

/-- How deep directories are copied. -/
def maxDepth : Nat := 64

/-- Copies a file or a directory; what cannot be read is left out. -/
def copy : (depth : Nat) → (path : String) → Disk → IO Disk
  | 0, _, d => return d
  | depth + 1, path, d => do
    try
      let place := (← IO.currentDir) / path
      if ← place.isDir then
        let d := (d.makeDirectories path).toOption.getD d
        (← place.readDir).foldlM (fun d e => copy depth (Path.join [path, e.fileName]) d) d
      else if ← place.pathExists then
        let data ← IO.FS.readBinFile place
        let time := (← place.metadata).modified
        let d := (d.write path data.data).toOption.getD d
        return d.touch path (time.sec * 1000000000 + time.nsec.toNat)
      else return d
    catch _ => return d

/-- Writes the files of a disk that are new or have changed since an earlier state. -/
def writeBack (before after : Disk) : IO Unit := do
  let known := before.files
  for (path, data) in after.files do
    if known.lookup path != some data then
      IO.FS.createDirAll (Path.parent path)
      IO.FS.writeBinFile path ⟨data⟩

/-- The disk as the launcher finds it: the files of settings first, and then the places that they and the
command line name. -/
def snapshot (args : List String) (home : String) : IO Disk := do
  let cwd := (← IO.currentDir).toString
  let d : Disk := { ((({} : Disk).makeDirectories cwd).toOption.getD {}) with cwd }
  let d ← (Settings.upward cwd).foldlM (fun d dir => copy 1 (Path.join [dir, Settings.fileName]) d) d
  let settings := ((Settings.find d ".").toOption.join).getD Settings.default
  let c := (CommandLine.parse args).toOption.getD {}
  (cwd :: Launcher.places c settings home).foldlM (fun d p => copy maxDepth p d) d

/-- Runs the launcher and gives its status. -/
def run (args : List String) : IO UInt32 := do
  let home := (← IO.getEnv "JAVA_HOME").getD ""
  let disk ← snapshot args home
  let stdin ← (← IO.getStdin).readBinToEnd
  let (result, storage) :=
    Launcher.run Natives.standard args stdin.toList { disk, libraryHome := home }
  writeBack disk storage.disk
  match result with
  | .ok o =>
    (← IO.getStdout).write ⟨o.stdout⟩
    (← IO.getStderr).write ⟨o.stderr⟩
    return UInt32.ofInt o.status
  | .error h =>
    IO.eprintln h.text
    return 2

end JavaMachine.Command

def main (args : List String) : IO UInt32 := JavaMachine.Command.run args
