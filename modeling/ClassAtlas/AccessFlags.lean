/-!
# Access flags

The modifiers of a class, field or method, as the bits that a class file stores.
-/

namespace ClassAtlas

/-- A modifier that has a bit of its own. -/
inductive Modifier where
  | publicAccess
  | privateAccess
  | protectedAccess
  | static
  | final
  | interfaceType
  | abstract
  | synthetic
  | annotationType
  | enumType
  | moduleType
  deriving Repr, DecidableEq

namespace Modifier

/-- All modifiers, lowest bit first. -/
def all : List Modifier :=
  [publicAccess, privateAccess, protectedAccess, static, final, interfaceType, abstract, synthetic,
    annotationType, enumType, moduleType]

def mask : Modifier → UInt16
  | publicAccess => 0x0001
  | privateAccess => 0x0002
  | protectedAccess => 0x0004
  | static => 0x0008
  | final => 0x0010
  | interfaceType => 0x0200
  | abstract => 0x0400
  | synthetic => 0x1000
  | annotationType => 0x2000
  | enumType => 0x4000
  | moduleType => 0x8000

def word : Modifier → String
  | publicAccess => "public"
  | privateAccess => "private"
  | protectedAccess => "protected"
  | static => "static"
  | final => "final"
  | interfaceType => "interface"
  | abstract => "abstract"
  | synthetic => "synthetic"
  | annotationType => "annotation"
  | enumType => "enum"
  | moduleType => "module"

end Modifier

/-- The flags of a class, field or method. Bits without a modifier are kept. -/
structure AccessFlags where
  bits : UInt16
  deriving Repr, DecidableEq, Inhabited

namespace AccessFlags

def has (flags : AccessFlags) (modifier : Modifier) : Bool :=
  flags.bits &&& modifier.mask == modifier.mask

def modifiers (flags : AccessFlags) : List Modifier := Modifier.all.filter flags.has

end AccessFlags

end ClassAtlas
