/-!
# Why a class file is refused

Every cause has its own constructor; `ClassFileError.message` gives the wording.
-/

namespace ClassAtlas

/-- Why bytes are no class file that can be decoded. -/
inductive ClassFileError where
  /-- The bytes end inside an item, or an attribute ends inside its content. -/
  | unexpectedEnd
  | badMagic
  | unsupportedVersion (major : UInt16)
  | unsupportedConstant (tag : UInt8)
  /-- No constant of the kind in demand stands at this index. -/
  | badConstantIndex (index : UInt16)
  | badDescriptor (text : String)
  | badSignature (text : String)
  | badElementTag (tag : Char)
  /-- The bytes of a text constant are no modified UTF-8. -/
  | badText
  deriving Repr, DecidableEq, Inhabited

def ClassFileError.message : ClassFileError → String
  | unexpectedEnd => "unexpected end of class file"
  | badMagic => "invalid class file magic header"
  | unsupportedVersion major => "unsupported class file major version " ++ major.toNat.repr
  | unsupportedConstant tag => "unsupported constant pool tag " ++ tag.toNat.repr
  | badConstantIndex index => "invalid constant pool index " ++ index.toNat.repr
  | badDescriptor text => "malformed descriptor: " ++ text
  | badSignature text => "malformed generic signature: " ++ text
  | badElementTag tag => "invalid annotation element tag '" ++ tag.toString ++ "'"
  | badText => "invalid modified UTF-8 string in constant pool"

end ClassAtlas
