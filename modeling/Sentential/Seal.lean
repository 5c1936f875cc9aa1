import Sentential.Seal.Keccak

/-!
# Seals

A seal is the SHA3-256 digest of a text behind a fixed notice, in upper-case hexadecimal. A seal
that is handed back may have its letters in either case.
-/

namespace Sentential.Seal

def hexDigit (n : UInt8) : Char :=
  if n < 10 then Char.ofNat ('0'.toNat + n.toNat) else Char.ofNat ('A'.toNat + n.toNat - 10)

def hex (bytes : List UInt8) : List Char :=
  bytes.flatMap fun (b : UInt8) => [hexDigit (b >>> 4), hexDigit (b &&& 15)]

def notice : String := "proplab equivalence proof, do not edit|"

def ofText (text : String) : String :=
  String.ofList (hex (Keccak.digest (notice ++ text).toUTF8.data))

def verify (text given : String) : Bool :=
  (ofText text).toList == given.toList.map Char.toUpper

end Sentential.Seal
