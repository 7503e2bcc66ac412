/-!
# Base64

Three bytes are written as four letters of six bits each.  At the end of the text one or two bytes
are left; they are written as two or three letters and filled up to four with `=`.
-/

namespace Questionnaire

namespace Base64

/-- The letter of a number below 64. -/
def letter (n : Nat) : Char :=
  if n < 26 then Char.ofNat ('A'.toNat + n)
  else if n < 52 then Char.ofNat ('a'.toNat + (n - 26))
  else if n < 62 then Char.ofNat ('0'.toNat + (n - 52))
  else if n = 62 then '+'
  else '/'

/-- The letter of six bits of `n`, those above the lowest `shift` ones. -/
def letterAt (n shift : Nat) : Char := letter ((n >>> shift) % 64)

/-- The letters of some bytes. -/
def encodeBytes : List UInt8 → List Char
  | a :: b :: c :: rest =>
    let n := (a.toNat <<< 16) + (b.toNat <<< 8) + c.toNat
    letterAt n 18 :: letterAt n 12 :: letterAt n 6 :: letterAt n 0 :: encodeBytes rest
  | [a, b] =>
    let n := (a.toNat <<< 16) + (b.toNat <<< 8)
    [letterAt n 18, letterAt n 12, letterAt n 6, '=']
  | [a] =>
    let n := a.toNat <<< 16
    [letterAt n 18, letterAt n 12, '=', '=']
  | [] => []

/-- The Base64 form of a text, of its UTF-8 bytes. -/
def encode (s : String) : String := String.ofList (encodeBytes s.toUTF8.toList)

end Base64

end Questionnaire
