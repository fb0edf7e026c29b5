import JavaMachine.ClassPath.Locate
import JavaMachine.Machine.Native.Basic

/-!
Native methods of files. A descriptor object keeps the open file with its position; the descriptors 0, 1
and 2 without one are the standard streams.
-/

namespace JavaMachine

/-- Data with bytes written from a position on; a gap is filled with zeros. -/
def writeAt (data : Array UInt8) (position : Nat) (bytes : List UInt8) : Array UInt8 :=
  let padded := data ++ Array.replicate (position - data.size) 0
  padded.extract 0 position ++ bytes.toArray ++ padded.extract (position + bytes.length) padded.size

namespace Native

open M Throwing

/-- Throws an input or output error. -/
def throwIO (s : Services) (text : String) : M Unit := throwNew s Throwables.io text

/-- The descriptor object of the receiver. -/
def descriptorOf : M (Option Ref) := do getRefField (← receiver) "fd" "Ljava/io/FileDescriptor;"

/-- The open file of a descriptor object. -/
def fileOf (descriptor : Ref) : M (Option FileHandle) := do
  match (← objectAt descriptor).attached with
  | some (.file h) => return some h
  | _ => return none

/-- Keeps an open file with a descriptor object. -/
def setFile (descriptor : Ref) (h : Option FileHandle) : M Unit :=
  updateObject descriptor fun o => { o with attached := h.map Attachment.file }

/-- How a file is opened. -/
inductive OpenMode where
  | read | truncate | append
deriving DecidableEq, Repr

/-- Opens a file, which writing makes if there is none. -/
def openFile (d : Disk) (path : String) : OpenMode → Except Errno (FileHandle × Disk)
  | .read => do
    let node ← d.resolve path
    return ({ node, path, readable := true, writable := false }, d)
  | .truncate => do
    let (node, d) ← d.openForWriting path true
    return ({ node, path, readable := false, writable := true }, d)
  | .append => do
    let (node, d) ← d.openForWriting path false
    return ({ node, path, readable := false, writable := true, appending := true }, d)

/-- The number that a descriptor has while its file is open. -/
def openNumber : Int32 := 3

/-- Opens the file named by the first argument for the receiver. -/
def openStream (mode : OpenMode) : Native := fun s => do
  notNull s (← localRef 1) fun name => do
    let path ← textOf (some name)
    match openFile (← get).storage.disk path mode with
    | .error e => throwNew s Throwables.fileNotFound s!"{path} ({e.message})"
    | .ok (h, disk) =>
      modify fun m => { m with storage := { m.storage with disk } }
      match ← descriptorOf with
      | none => throwIO s "stream has no file descriptor"
      | some d =>
        setFile d (some h)
        setIntField d "fd" openNumber

/-- Closes the file of the receiver. -/
def closeStream : Native := fun _ => do
  match ← descriptorOf with
  | none => return ()
  | some d =>
    if (← fileOf d).isSome then setFile d none
    setIntField d "fd" (-1)

/-- Where a stream leads. -/
inductive Stream where
  | file (descriptor : Ref) (handle : FileHandle)
  | standard (number : Int32)
  | closed

/-- Where the receiver leads. -/
def streamOf : M Stream := do
  match ← descriptorOf with
  | none => return .closed
  | some d =>
    match ← fileOf d with
    | some h => return .file d h
    | none => return .standard (← getIntField d "fd")

/-- Throws for a stream that leads nowhere. -/
def throwClosed (s : Services) : M Unit := throwIO s "Stream Closed"

/-- Writes bytes to the receiver. -/
def writeStream (s : Services) (stream : Stream) (bytes : List UInt8) : M Unit := do
  match stream with
  | .file d h =>
    if !h.writable then
      throwIO s (DiskFault.message ⟨"write", h.path, .badDescriptor⟩)
    else
      let disk := (← get).storage.disk
      let data := disk.data h.node
      let position := if h.appending then data.size else h.position
      let disk := disk.update h.node (.file (writeAt data position bytes))
      modify fun m => { m with storage := { m.storage with disk } }
      setFile d (some { h with position := position + bytes.length })
  | .standard 1 => writeOut bytes
  | .standard 2 => writeErr bytes
  | _ => throwClosed s

/-- Whether bytes can be written to a stream at all. -/
def Stream.isOutput : Stream → Bool
  | .file .. => true
  | .standard n => n == 1 || n == 2
  | .closed => false

/-- Writes a range of an array. -/
def writeBytes : Native := fun s => do
  let start ← localInt 2
  let count ← localInt 3
  notNull s (← localRef 1) fun buffer => do
    if !(← inRange buffer start count) then throwNew s Throwables.indexOutOfBounds ""
    else
      let stream ← streamOf
      if stream.isOutput then writeStream s stream (← bytesIn buffer start count) else throwClosed s

/-- Reads at most `count` bytes; there are none at the end. A failure is thrown, and then there is no
result. -/
def readStream (s : Services) (count : Nat) : M (Option (List UInt8)) := do
  match ← streamOf with
  | .file d h =>
    let disk := (← get).storage.disk
    let refuse (e : Errno) : M (Option (List UInt8)) := do
      throwIO s (DiskFault.message ⟨"read", h.path, e⟩)
      return none
    if !h.readable then refuse .badDescriptor
    else if disk.isDirectory h.node then refuse .isDirectory
    else
      let bytes := ((disk.data h.node).extract h.position (h.position + count)).toList
      setFile d (some { h with position := h.position + bytes.length })
      return some bytes
  | .standard 0 =>
    let bytes := (← get).stdin.take count
    modify fun m => { m with stdin := m.stdin.drop count }
    return some bytes
  | _ =>
    throwClosed s
    return none

/-- Reads one byte. -/
def readByte : Native := fun s => do
  match ← readStream s 1 with
  | none => return ()
  | some [] => pushInt (-1)
  | some (b :: _) => pushInt (Int32.ofNat b.toNat)

/-- Reads bytes into a range of an array. -/
def readBytes : Native := fun s => do
  let start ← localInt 2
  let count ← localInt 3
  notNull s (← localRef 1) fun buffer => do
    if !(← inRange buffer start count) then throwNew s Throwables.indexOutOfBounds ""
    else if count = 0 then pushInt 0
    else
      match ← readStream s count.toInt.toNat with
      | none => return ()
      | some [] => pushInt (-1)
      | some bytes =>
        let old ← bytesOf buffer
        let signed := bytes.toArray.map UInt8.toInt8
        let first := start.toInt.toNat
        let changed := old.extract 0 first ++ signed ++ old.extract (first + signed.size) old.size
        setElements buffer (.bytes changed)
        pushInt (Int32.ofNat bytes.length)

/-- How many bytes are left in the file of the receiver. -/
def available : Native := fun _ => do
  let d ← some! (← descriptorOf)
  match ← fileOf d with
  | some h =>
    let disk := (← get).storage.disk
    if disk.isDirectory h.node then pushInt 0
    else pushInt (Int32.ofNat ((disk.data h.node).size - h.position))
  | none => pushInt 0

/-- The methods of output streams. -/
def fileOutput : List (String × String × Native) := [
  ("open0", "(Ljava/lang/String;Z)V", fun s => do
    openStream (if (← localInt 2) != 0 then .append else .truncate) s),
  ("write", "(IZ)V", fun s => do
    let stream ← streamOf
    writeStream s stream [(← localInt 1).toInt8.toUInt8]),
  ("writeBytes", "([BIIZ)V", writeBytes),
  ("close0", "()V", closeStream)]

/-- The methods of input streams. -/
def fileInput : List (String × String × Native) := [
  ("open0", "(Ljava/lang/String;)V", openStream .read),
  ("read0", "()I", readByte),
  ("readBytes", "([BII)I", readBytes),
  ("available0", "()I", available),
  ("close0", "()V", closeStream)]

/-! ## The file system -/

/-- Goes on with the path of a file object. -/
def withPath (s : Services) (file : Option Ref) (next : String → M Unit) : M Unit :=
  notNull s file fun r => do next (← textOf (← getRefField r "path" Machine.stringDesc))

/-- The attributes of a path: exists 1, file 2, directory 4, hidden 8. -/
def attributes (d : Disk) (path : String) : Int32 :=
  match d.resolve path with
  | .error _ => 0
  | .ok n =>
    1 + (if d.isDirectory n then 4 else 2) + if (Path.base path).startsWith "." then 8 else 0

/-- The methods of the file system. -/
def fileSystem : List (String × String × Native) := [
  ("canonicalize0", "(Ljava/lang/String;)Ljava/lang/String;", fun s => do
    notNull s (← localRef 1) fun name => do
      let path ← textOf (some name)
      pushRef (some (← newString (Path.absolute (← get).storage.disk.cwd path)))),
  ("getBooleanAttributes0", "(Ljava/io/File;)I", fun s => do
    withPath s (← localRef 1) fun path => do
      pushInt (attributes (← get).storage.disk path)),
  ("getLength", "(Ljava/io/File;)J", fun s => do
    withPath s (← localRef 1) fun path => do
      let d := (← get).storage.disk
      match d.resolve path with
      | .error _ => pushLong 0
      | .ok n => pushLong (Int64.ofNat (d.sizeOf n)))]

/-- The names of the members of an archive that are in the directory of its manifest. -/
def metaNames (names : List String) : List String :=
  names.filter fun n => (n.map Path.upperChar).startsWith "META-INF/"

/-- The members beside the manifest of the archive that the receiver was opened on, or null. -/
def metaMembers : Native := fun s => do
  let r ← receiver
  if !(← hasField r "name" Machine.stringDesc) then pushRef none
  else
    let path ← textOf (← getRefField r "name" Machine.stringDesc)
    match ← onStorage (Entry.ofArchive path none) with
    | .error f => throwIO s f.message
    | .ok (.archive id _) =>
      match metaNames ((← get).storage.archive id).names with
      | [] => pushRef none
      | names => orThrow s (Linking.newStringArray s names) fun array => pushRef (some array)
    | .ok _ => pushRef none

/-- The methods of archive files. -/
def archiveFile : List (String × String × Native) := [
  ("getMetaInfEntryNames", "()[Ljava/lang/String;", metaMembers)]

end Native

end JavaMachine
