import ContentEngine.Filter.Basic
import ContentEngine.Json.Printer
import ContentEngine.Sha256

/-!
# Fingerprints of filters

`Filter.encode` writes a filter as bytes: every node starts with a byte for its kind, texts and
lists follow their length, numbers have eight bytes. A document counts only by its type and
identifier. The fingerprint is the digest of these bytes.
-/

namespace ContentEngine

def encodeNat64 (n : Nat) : List UInt8 := Sha256.bytesOfNat 8 n

def encodeText (s : String) : List UInt8 :=
  encodeNat64 s.utf8ByteSize ++ s.toByteArray.data.toList

namespace Value

mutual
def encode : Value → List UInt8
  | .null => [0x40]
  | .bool b => [0x41, if b then 1 else 0]
  | .int i => 0x42 :: encodeNat64 i.toUInt64.toNat
  | .float x => 0x43 :: encodeNat64 x.bits.toNat
  | .text s => 0x44 :: encodeText s
  | .json j => 0x45 :: encodeText j.render
  | .list items => 0x46 :: encodeNat64 items.length ++ encodeItems items
  | .ref id => 0x47 :: encodeText id
  | .doc ⟨docType, id, _, _⟩ => 0x48 :: encodeText docType ++ encodeText id
  | .variant tag value => 0x49 :: encodeText tag ++ encode value

def encodeItems : List Value → List UInt8
  | [] => []
  | v :: vs => encode v ++ encodeItems vs
end

end Value

namespace Filter

mutual
def encode : Filter → List UInt8
  | .and children => 0x23 :: encodeNat64 children.length ++ encodeChildren children
  | .or children => 0x24 :: encodeNat64 children.length ++ encodeChildren children
  | .not child => 0x25 :: encode child
  | .leaf path op operand => 0x26 :: encodeText path ++ op.byte :: operand.encode

def encodeChildren : List Filter → List UInt8
  | [] => []
  | f :: fs => encode f ++ encodeChildren fs
end

def fingerprint (f : Filter) : List UInt8 := Sha256.digest f.encode

end Filter
end ContentEngine
