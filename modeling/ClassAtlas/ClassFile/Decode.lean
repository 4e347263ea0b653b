import ClassAtlas.ClassFile.Attributes

/-!
# Decoding class files

`ClassDecl.decode` reads one class file. Bytes after its end are not looked at.
-/

namespace ClassAtlas

namespace ClassFile

def magic : UInt32 := 0xCAFEBABE

/-- Class files of JDK 1.1 to Java 25 are supported. -/
def supports (major : UInt16) : Bool := 45 ≤ major && major ≤ 69

def readField (pool : ConstantPool) : Reader FieldDecl := do
  let bits ← Reader.u2
  let name ← operand pool.text
  let descriptor ← operand pool.text
  let type ← Reader.lift (JavaType.parse descriptor)
  readAttributes pool (reviseField pool)
    { name, access := ⟨bits⟩, type, signature := none, constant := none, annotations := [] }

def readMethod (pool : ConstantPool) : Reader MethodDecl := do
  let bits ← Reader.u2
  let name ← operand pool.text
  let descriptor ← operand pool.text
  let type ← Reader.lift (MethodType.parse descriptor)
  readAttributes pool (reviseMethod pool)
    { name, access := ⟨bits⟩, parameters := type.parameters, returnType := type.returnType,
      exceptions := [], signature := none, annotations := [], parameterAnnotations := [] }

/-- The version of the class file, once its magic number is checked. -/
def readVersion : Reader (UInt16 × UInt16) := do
  if (← Reader.u4) ≠ magic then Reader.fail .badMagic
  let minor ← Reader.u2
  let major ← Reader.u2
  if supports major then
    return (major, minor)
  else
    Reader.fail (.unsupportedVersion major)

/-- A class file in front of the bytes. -/
def readClass : Reader ClassDecl := do
  let (majorVersion, minorVersion) ← readVersion
  let pool ← ConstantPool.read
  let bits ← Reader.u2
  let thisIndex ← Reader.u2
  let name ← Reader.lift (pool.className thisIndex)
  let superclass ← operand (optionalClassName pool)
  let interfaceCount ← Reader.u2
  let interfaces ← Reader.times interfaceCount.toNat (operand pool.className)
  let fieldCount ← Reader.u2
  let fields ← Reader.times fieldCount.toNat (readField pool)
  let methodCount ← Reader.u2
  let methods ← Reader.times methodCount.toNat (readMethod pool)
  readAttributes pool (reviseClass pool thisIndex)
    { name, superclass, interfaces, access := ⟨bits⟩, majorVersion, minorVersion, fields, methods,
      annotations := [], signature := none, sourceFile := none, enclosingClass := none }

end ClassFile

/-- The class that the bytes declare. -/
def ClassDecl.decode (bytes : Bytes) : Except ClassFileError ClassDecl :=
  (ClassFile.readClass.run bytes).map Prod.fst

end ClassAtlas
