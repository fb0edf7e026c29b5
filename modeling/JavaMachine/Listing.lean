import JavaMachine.ClassFile.Basic
import JavaMachine.Code.Disassembly
import JavaMachine.Text.Quoted

/-!
Listings of classes: header, fields, and methods with their instructions and exception tables. Code that
cannot be read ends a listing; what was listed before it remains.
-/

namespace JavaMachine.Listing

open Text

/-- The modifiers of a class or a member, each followed by a blank. -/
def modifiers (f : Flags) (ofClass : Bool) : String :=
  let word (on : Bool) (w : String) : String := if on then w ++ " " else ""
  word f.isPublic "public" ++ word f.isPrivate "private" ++ word f.isProtected "protected" ++
    word f.isStatic "static" ++ word f.isFinal "final" ++
    (if ofClass then "" else word f.isSynchronized "synchronized" ++ word f.isNative "native") ++
    word f.isAbstract "abstract"

/-- Clears the bits of a mask. -/
def without (f : Flags) (mask : UInt16) : Flags := ⟨f.bits &&& ~~~mask⟩

/-- The first line of a class. -/
def header (cf : ClassFile) : String :=
  let plain := without cf.flags Flags.superMask
  let (kind, flags) :=
    if plain.isInterface then
      ("interface", without plain (Flags.interfaceMask ||| Flags.abstractMask))
    else ("class", plain)
  let super := cf.superName
  let interfaces := cf.interfaceNames.map Descriptor.dotted
  modifiers flags true ++ kind ++ " " ++ Descriptor.dotted cf.className ++
    (if super ≠ "" ∧ super ≠ "java/lang/Object" then " extends " ++ Descriptor.dotted super else "") ++
    (if interfaces.isEmpty then "" else " implements " ++ ", ".intercalate interfaces)

/-- A row of an exception table. -/
def handlerLine (pool : ConstantPool) (r : HandlerRow) : String :=
  let catches :=
    if r.catchType = 0 then "any"
    else
      match pool.className r.catchType with
      | .ok n => "Class " ++ n
      | .error _ => "any"
  let column (v : UInt16) : String := Hex.padLeft ' ' 5 (toString v.toNat)
  s!"      {column r.start} {column r.stop} {column r.handler}   {catches}\n"

/-- A text, or the text before code that cannot be read. -/
abbrev Written := String × Option CodeFault

/-- The instructions and handlers of a body. -/
def bodyText (pool : ConstantPool) (body : CodeBody) : Written :=
  let head := s!"    Code:\n      stack={body.maxStack.toNat}, locals={body.maxLocals.toNat}\n"
  match Disassembly.listing body.code.toArray (some pool) with
  | .error f => (head, some f)
  | .ok text =>
    let lines := (text.splitOn "\n").map fun l => s!"      {l}\n"
    let handlers :=
      if body.handlers.isEmpty then ""
      else "    Exception table:\n       from    to  target type\n" ++
        String.join (body.handlers.map (handlerLine pool))
    (head ++ String.join lines ++ handlers, none)

/-- A method, with an empty line before it unless it is the first. -/
def methodText (pool : ConstantPool) (first : Bool) (m : MemberInfo) : Written :=
  let head := (if first then "" else "\n") ++ s!"  {modifiers m.flags false}{m.name}{m.descriptor};\n"
  match m.code? with
  | none => (head, none)
  | some body =>
    let (text, fault) := bodyText pool body
    (head ++ text, fault)

/-- The methods in order. -/
def methodTexts (pool : ConstantPool) (first : Bool) : List MemberInfo → Written
  | [] => ("", none)
  | m :: rest =>
    match methodText pool first m with
    | (text, some f) => (text, some f)
    | (text, none) =>
      let (texts, fault) := methodTexts pool false rest
      (text ++ texts, fault)

/-- The listing of a class. -/
def ofClass (cf : ClassFile) : Written :=
  let source := cf.sourceFile
  let fields := cf.fields.map fun f => s!"  {modifiers f.flags false}{f.descriptor} {f.name};\n"
  let head :=
    (if source = "" then "" else s!"Compiled from {Quoted.encode source}\n") ++
    s!"{header cf}\n  minor version: {cf.minor.toNat}\n  major version: {cf.major.toNat}\n" ++ "\x7b\n" ++
    String.join fields ++ (if cf.fields.isEmpty ∨ cf.methods.isEmpty then "" else "\n")
  match methodTexts cf.pool true cf.methods with
  | (text, some f) => (head ++ text, some f)
  | (text, none) => (head ++ text ++ "\x7d\n", none)

end JavaMachine.Listing
