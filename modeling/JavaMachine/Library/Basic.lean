import JavaMachine.Assembler.Source
import JavaMachine.ClassFile.Writer

/-!
Shorthands for writing the classes of the small class library.
-/

namespace JavaMachine.Library

/-- A field without a constant. -/
def field (flags : UInt16) (name desc : String) : FieldSource := ⟨flags, name, desc, none⟩

/-- A method without a body, which is abstract or native. -/
def declared (flags : UInt16) (name desc : String) : MethodSource := ⟨flags, name, desc, none, none, none⟩

/-- A method with a body. -/
def method (flags : UInt16) (name desc : String) (body : List Statement) : MethodSource :=
  ⟨flags, name, desc, some body, none, none⟩

/-- A method with room for local variables beyond its arguments. -/
def withLocals (n : Int) (m : MethodSource) : MethodSource := { m with maxLocals := some n }

/-- Reads a field of the object on top. -/
def load (owner name desc : String) : Statement := .field .getfield owner name desc

/-- Writes a field of the object below the top. -/
def store (owner name desc : String) : Statement := .field .putfield owner name desc

/-- Calls a method of the receiver's class. -/
def callVirtual (owner name desc : String) : Statement := .invoke .invokevirtual owner name desc

/-- Calls a constructor or a method of the class itself. -/
def callSpecial (owner name desc : String) : Statement := .invoke .invokespecial owner name desc

/-- Calls a static method. -/
def callStatic (owner name desc : String) : Statement := .invoke .invokestatic owner name desc

/-- Calls a method of an interface. -/
def callInterface (owner name desc : String) : Statement := .invoke .invokeinterface owner name desc

/-- A class under its name, as bytes; one that cannot be assembled has none. -/
def served (c : ClassSource) : String × List UInt8 :=
  match c.assemble with
  | .ok file => (c.name, file.encode)
  | .error _ => (c.name, [])

end JavaMachine.Library
