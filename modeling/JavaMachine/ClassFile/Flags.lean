/-!
Access flags of classes, fields and methods. Some bits mean different things in different places.
-/

namespace JavaMachine

/-- A set of access flags. -/
structure Flags where
  bits : UInt16
deriving DecidableEq, Repr, Inhabited

namespace Flags

/-- Whether any bit of a mask is set. -/
def has (f : Flags) (mask : UInt16) : Bool := f.bits &&& mask != 0

/-- Sets the bits of a mask. -/
def add (f : Flags) (mask : UInt16) : Flags := ⟨f.bits ||| mask⟩

def publicMask : UInt16 := 0x0001
def privateMask : UInt16 := 0x0002
def protectedMask : UInt16 := 0x0004
def staticMask : UInt16 := 0x0008
def finalMask : UInt16 := 0x0010
def superMask : UInt16 := 0x0020
def synchronizedMask : UInt16 := 0x0020
def volatileMask : UInt16 := 0x0040
def bridgeMask : UInt16 := 0x0040
def transientMask : UInt16 := 0x0080
def varargsMask : UInt16 := 0x0080
def nativeMask : UInt16 := 0x0100
def interfaceMask : UInt16 := 0x0200
def abstractMask : UInt16 := 0x0400
def strictMask : UInt16 := 0x0800
def syntheticMask : UInt16 := 0x1000
def annotationMask : UInt16 := 0x2000
def enumMask : UInt16 := 0x4000

def isPublic (f : Flags) : Bool := f.has publicMask
def isPrivate (f : Flags) : Bool := f.has privateMask
def isProtected (f : Flags) : Bool := f.has protectedMask
def isStatic (f : Flags) : Bool := f.has staticMask
def isFinal (f : Flags) : Bool := f.has finalMask
def isSuper (f : Flags) : Bool := f.has superMask
def isSynchronized (f : Flags) : Bool := f.has synchronizedMask
def isNative (f : Flags) : Bool := f.has nativeMask
def isInterface (f : Flags) : Bool := f.has interfaceMask
def isAbstract (f : Flags) : Bool := f.has abstractMask
def isAnnotation (f : Flags) : Bool := f.has annotationMask
def isEnum (f : Flags) : Bool := f.has enumMask

/-- All meanings with their bits; bits with two meanings stand twice. -/
def meanings : List (String × UInt16) :=
  [("public", publicMask), ("private", privateMask), ("protected", protectedMask),
   ("static", staticMask), ("final", finalMask), ("super", superMask),
   ("synchronized", synchronizedMask), ("volatile", volatileMask), ("bridge", bridgeMask),
   ("transient", transientMask), ("varargs", varargsMask), ("native", nativeMask),
   ("interface", interfaceMask), ("abstract", abstractMask), ("strict", strictMask),
   ("synthetic", syntheticMask), ("annotation", annotationMask), ("enum", enumMask)]

/-- The meanings that hold, in order. -/
def names (f : Flags) : List String :=
  (meanings.filter fun m => f.has m.2).map (·.1)

end Flags

end JavaMachine
