import Questionnaire.Json.Outline
import Questionnaire.Number.Decimal

/-!
# The outline of a text

`Outline.ofText` finds the outline of a JSON text.  Each of the functions here takes one thing off
the front of a list of characters, and gives the characters behind it unless the text breaks off
in it.
-/

namespace Questionnaire

namespace Outline

/-- The characters that may stand between the parts of a JSON text. -/
def isBlank (c : Char) : Bool :=
  c == ' ' || c == '\n' || c == '\t' || c == '\r'

/-- The characters behind the blanks at the front. -/
def skipBlanks (cs : List Char) : List Char :=
  cs.dropWhile isBlank

/-- The characters behind a word at the front, or the fault in it. -/
def takeWord : List Char → List Char → Except Fault (List Char)
  | [], cs => .ok cs
  | _ :: _, [] => .error .ended
  | w :: word, c :: cs => if w = c then takeWord word cs else .error .misplaced

/-! ## Strings -/

/-- A part of a string: a character, or a UTF-16 unit given by its code. -/
inductive Piece where
  | char (c : Char)
  | unit (code : Nat)
  deriving DecidableEq, Repr

/-- The value of a hexadecimal digit. -/
def hexValue? (c : Char) : Option Nat :=
  if '0' ≤ c ∧ c ≤ '9' then some (c.toNat - 48)
  else if 'a' ≤ c ∧ c ≤ 'f' then some (c.toNat - 87)
  else if 'A' ≤ c ∧ c ≤ 'F' then some (c.toNat - 55)
  else none

/-- The code that four hexadecimal digits stand for. -/
def unitCode? (a b c d : Char) : Option Nat :=
  match hexValue? a, hexValue? b, hexValue? c, hexValue? d with
  | some a, some b, some c, some d => some (((a * 16 + b) * 16 + c) * 16 + d)
  | _, _, _, _ => none

/-- The character that a letter after a backslash stands for. -/
def escaped? (c : Char) : Option Char :=
  if c = '"' then some '"'
  else if c = '\\' then some '\\'
  else if c = '/' then some '/'
  else if c = 'b' then some '\x08'
  else if c = 'f' then some '\x0c'
  else if c = 'n' then some '\n'
  else if c = 'r' then some '\r'
  else if c = 't' then some '\t'
  else none

/-- The length of some characters in UTF-8. -/
def utf8Length (cs : List Char) : Nat :=
  (String.ofList cs).utf8ByteSize

/-- The pieces of a string up to its closing quote, and the characters behind that. -/
def takePieces : List Char → List Piece × Except Fault (List Char)
  | [] => ([], .error .ended)
  | '"' :: rest => ([], .ok rest)
  | ['\\'] => ([], .error .ended)
  | '\\' :: 'u' :: a :: b :: c :: d :: rest =>
    match unitCode? a b c d with
    | some code =>
      let (pieces, behind) := takePieces rest
      (.unit code :: pieces, behind)
    | none => ([], .error .misplaced)
  | '\\' :: 'u' :: rest =>
    -- A code needs four more bytes of text.
    ([], .error (if utf8Length rest < 4 then .ended else .misplaced))
  | '\\' :: c :: rest =>
    match escaped? c with
    | some c =>
      let (pieces, behind) := takePieces rest
      (.char c :: pieces, behind)
    | none => ([], .error .misplaced)
  | c :: rest =>
    if c.toNat < 32 then ([], .error .misplaced)
    else
      let (pieces, behind) := takePieces rest
      (.char c :: pieces, behind)

/-- Whether a unit is the first half of a surrogate pair. -/
def isLeading (code : Nat) : Bool := 0xD800 ≤ code && code ≤ 0xDBFF

/-- Whether a unit is the second half of a surrogate pair. -/
def isTrailing (code : Nat) : Bool := 0xDC00 ≤ code && code ≤ 0xDFFF

/-- The character of a surrogate pair. -/
def pairChar (leading trailing : Nat) : Char :=
  Char.ofNat ((leading - 0xD800) * 0x400 + (trailing - 0xDC00) + 0x10000)

/-- The characters of some pieces; every half of a surrogate pair needs the other half.  `stop` is
the fault behind the last piece. -/
def join (stop : Option Fault) : List Piece → Except Fault (List Char)
  | [] =>
    match stop with
    | none => .ok []
    | some fault => .error fault
  | .char c :: pieces => (join stop pieces).map (c :: ·)
  | [.unit code] =>
    if isTrailing code then .error .misplaced
    else if isLeading code then .error (stop.getD .misplaced)
    else (join stop []).map (Char.ofNat code :: ·)
  | .unit code :: .char c :: pieces =>
    if isTrailing code || isLeading code then .error .misplaced
    else (join stop (.char c :: pieces)).map (Char.ofNat code :: ·)
  | .unit code :: .unit next :: pieces =>
    if isTrailing code then .error .misplaced
    else if isLeading code then
      if isTrailing next then (join stop pieces).map (pairChar code next :: ·)
      else .error .misplaced
    else (join stop (.unit next :: pieces)).map (Char.ofNat code :: ·)

/-- The fault of a result, if it has one. -/
def faultOf {α : Type} : Except Fault α → Option Fault
  | .ok _ => none
  | .error fault => some fault

/-- The value of a result, if it has one. -/
def valueOf {α : Type} : Except Fault α → Option α
  | .ok a => some a
  | .error _ => none

/-- A string whose opening quote has been taken. -/
def takeString (cs : List Char) : Token String × Option (List Char) :=
  let (pieces, behind) := takePieces cs
  let stop := faultOf behind
  ({ value := (join stop pieces).map String.ofList, stop }, valueOf behind)

/-! ## Numbers -/

/-- The values of some digits. -/
def digitValues (cs : List Char) : List Nat :=
  cs.map fun c => c.toNat - 48

/-- A number that breaks off.  A reader who needs the value tells the end of the text from other
faults, one who skips it does not. -/
def brokenNumber (rest : List Char) : Token Numeral × Option (List Char) :=
  ({ value := .error (if rest.isEmpty then .ended else .misplaced), stop := some .misplaced }, none)

/-- The numeral of a decimal: an integer if it is written as one and fits in 64 bits, with a sign
if it is negative, and otherwise a double. -/
def numeral? (text : DecimalText) : Option Numeral :=
  let n : Nat := Double.digitsValue text.whole
  if text.fraction.isNone ∧ text.exponent.isNone ∧ !text.negative ∧ n < Nat.pow 2 64 then
    some (.int n)
  else if text.fraction.isNone ∧ text.exponent.isNone ∧ text.negative ∧ 0 < n ∧ n ≤ Nat.pow 2 63 then
    some (.int (-n))
  else (Double.ofDecimal? text).map .double

/-- The token of a decimal; a number that is too large has no value. -/
def decimalToken (text : DecimalText) : Token Numeral :=
  match numeral? text with
  | some n => { value := .ok n, stop := none }
  | none => { value := .error .misplaced, stop := none }

/-- The digits of the exponent of a number; the exponent is negative if `down`. -/
def takeExponentDigits (text : DecimalText) (down : Bool) (cs : List Char) :
    Token Numeral × Option (List Char) :=
  match cs.span Char.isDigit with
  | ([], rest) => brokenNumber rest
  | (ds, rest) => (decimalToken { text with exponent := some (down, digitValues ds) }, some rest)

/-- The exponent of a number whose other digits have been taken. -/
def takeExponent (text : DecimalText) (cs : List Char) : Token Numeral × Option (List Char) :=
  match cs with
  | [] => (decimalToken text, some [])
  | c :: rest =>
    if c = 'e' ∨ c = 'E' then
      match rest with
      | '+' :: rest => takeExponentDigits text false rest
      | '-' :: rest => takeExponentDigits text true rest
      | rest => takeExponentDigits text false rest
    else (decimalToken text, some (c :: rest))

/-- The fraction and the exponent of a number whose digits before the point have been taken. -/
def takeFraction (negative : Bool) (whole : List Nat) (cs : List Char) :
    Token Numeral × Option (List Char) :=
  match cs with
  | '.' :: rest =>
    match rest.span Char.isDigit with
    | ([], rest) => brokenNumber rest
    | (ds, rest) => takeExponent ⟨negative, whole, some (digitValues ds), none⟩ rest
  | rest => takeExponent ⟨negative, whole, none, none⟩ rest

/-- A number whose sign has been taken. -/
def takeMagnitude (negative : Bool) (cs : List Char) : Token Numeral × Option (List Char) :=
  match cs.span Char.isDigit with
  | ([], rest) => brokenNumber rest
  | ('0' :: _ :: _, _) => ({ value := .error .misplaced, stop := some .misplaced }, none)
  | (whole, rest) => takeFraction negative (digitValues whole) rest

/-- A number. -/
def takeNumber : List Char → Token Numeral × Option (List Char)
  | '-' :: rest => takeMagnitude true rest
  | cs => takeMagnitude false cs

/-! ## Values -/

/-- The members of an object, the fault after them and what stands in place of a member, and the
characters behind the object. -/
structure TakenMembers where
  members : List (Token String × Outline) := []
  fault : Option (Bool × Fault) := none
  stray : Option Outline := none
  rest : Option (List Char) := none

/-- The elements of an array, the fault after them, and the characters behind the array. -/
structure TakenElements where
  elements : List Outline := []
  fault : Option (Bool × Fault) := none
  rest : Option (List Char) := none

/-- A value whose word `null`, `true` or `false` starts the text. -/
def takeLiteral (outline : Option Fault → Outline) (word cs : List Char) :
    Outline × Option (List Char) :=
  let behind := takeWord word cs
  (outline (faultOf behind), valueOf behind)

mutual

/-- A value; `fuel` bounds the steps. -/
def takeValue : Nat → List Char → Outline × Option (List Char)
  | 0, _ => (.unreadable, none)
  | fuel + 1, cs =>
    match skipBlanks cs with
    | [] => (.missing, none)
    | c :: rest =>
      if c = 'n' then takeLiteral .null ['u', 'l', 'l'] rest
      else if c = 't' then takeLiteral (.bool true) ['r', 'u', 'e'] rest
      else if c = 'f' then takeLiteral (.bool false) ['a', 'l', 's', 'e'] rest
      else if c = '"' then
        let (token, behind) := takeString rest
        (.string token, behind)
      else if c = '[' then
        match skipBlanks rest with
        | [] => (.array [] (some (false, .ended)), none)
        | ']' :: rest => (.array [] none, some rest)
        | rest =>
          let taken := takeElements fuel rest
          (.array taken.elements taken.fault, taken.rest)
      else if c = '\x7b' then
        match skipBlanks rest with
        | [] => (.object [] (some (false, .ended)) none, none)
        | '\x7d' :: rest => (.object [] none none, some rest)
        | rest =>
          let taken := takeMembers fuel false rest
          (.object taken.members taken.fault taken.stray, taken.rest)
      else if c = '-' ∨ c.isDigit then
        let (token, behind) := takeNumber (c :: rest)
        (.number token, behind)
      else (.unreadable, none)

/-- The elements of an array, from the place of an element to the closing bracket. -/
def takeElements : Nat → List Char → TakenElements
  | 0, _ => {}
  | fuel + 1, cs =>
    match takeValue fuel cs with
    | (value, none) => { elements := [value] }
    | (value, some rest) =>
      match skipBlanks rest with
      | [] => { elements := [value], fault := some (false, .ended) }
      | ']' :: rest => { elements := [value], rest := some rest }
      | ',' :: rest =>
        match skipBlanks rest with
        | [] => { elements := [value], fault := some (true, .ended) }
        | ']' :: _ => { elements := [value], fault := some (true, .misplaced) }
        | rest =>
          let taken := takeElements fuel rest
          { taken with elements := value :: taken.elements }
      | _ => { elements := [value], fault := some (false, .misplaced) }

/-- The members of an object, from the place of a member to the closing brace. -/
def takeMembers : Nat → Bool → List Char → TakenMembers
  | 0, _, _ => {}
  | fuel + 1, afterComma, cs =>
    match cs with
    | '"' :: rest =>
      match takeString rest with
      | (name, none) => { members := [(name, ofFault (name.stop.getD .misplaced))] }
      | (name, some rest) =>
        match skipBlanks rest with
        | ':' :: rest =>
          match takeValue fuel rest with
          | (value, none) => { members := [(name, value)] }
          | (value, some rest) =>
            match skipBlanks rest with
            | [] => { members := [(name, value)], fault := some (false, .ended) }
            | '\x7d' :: rest => { members := [(name, value)], rest := some rest }
            | ',' :: rest =>
              match skipBlanks rest with
              | [] => { members := [(name, value)], fault := some (true, .ended) }
              | '\x7d' :: _ => { members := [(name, value)], fault := some (true, .misplaced) }
              | rest =>
                let taken := takeMembers fuel true rest
                { taken with members := (name, value) :: taken.members }
            | _ => { members := [(name, value)], fault := some (false, .misplaced) }
        | [] => { members := [(name, .missing)] }
        | _ => { members := [(name, .unreadable)] }
    | cs =>
      { fault := some (afterComma, .misplaced), stray := some (takeValue fuel cs).1 }

end

/-- The outline of a text, and the fault after it if anything but blanks follows. -/
def ofText (text : String) : Outline × Option Fault :=
  let cs := text.toList
  match takeValue (2 * cs.length + 2) cs with
  | (outline, none) => (outline, none)
  | (outline, some rest) =>
    (outline, if (skipBlanks rest).isEmpty then none else some .misplaced)

end Outline

end Questionnaire
