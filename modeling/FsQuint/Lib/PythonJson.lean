/-
  JSON documents as the `json` module of Python reads them (`loads`).

  1. **Values** (`Json`): what a document is read as.  A number with a fraction or an exponent keeps the
     quotient that it was written as, and is rounded only where it is asked for something.
  2. **Tokens** (`tokens`): the text is cut up from the left.  What is no token is a `bad` one, and blanks
     between tokens are passed over.  Half a surrogate pair, which Python keeps as it is, is read as the
     character U+FFFD, for a text here has none.
  3. **Documents** (`loads`): a machine with a stack of the containers that are open goes over the tokens
     (`step`).  A text that is no document is one failure; a number that has too many digits to be
     converted, or a container in too many others, is another, and each counts where the reader gets to it
     first.
-/
import FsQuint.Lib.Binary64
import FsQuint.Lib.Scan
import FsQuint.Lib.Table

namespace PythonJson

/-! ## Values -/

/-- A floating point number: the one that is nearest to what was written. -/
inductive Floating where
  | nan
  | infinity (negative : Bool)
  | quotient (negative : Bool) (num den : Nat)

/-- `bool(x)`. -/
def Floating.truth : Floating → Bool
  | .quotient _ num den => Binary64.mantissa num den ≠ 0
  | _ => true

/-- `int(x)`, which is none of what has no whole part. -/
def Floating.toInt : Floating → Option Int
  | .quotient negative num den =>
    if Binary64.overflows num den then none
    else some (if negative then -(Binary64.whole num den : Int) else Binary64.whole num den)
  | _ => none

/-- `x == 1`. -/
def Floating.isOne : Floating → Bool
  | .quotient false num den => Binary64.isOne num den
  | _ => false

/-- What a document is read as. -/
inductive Json where
  | null
  | bool (b : Bool)
  | number (n : Int)
  | float (x : Floating)
  | str (s : List Char)
  | list (items : List Json)
  | dict (entries : List (List Char × Json))

/-- `json.get(key)`, of an object. -/
def Json.get (json : Json) (key : String) : Option Json :=
  match json with
  | .dict entries => (Table.lookup Prod.fst key.toList entries).map Prod.snd
  | _ => none

/-- A string with the given text. -/
def Json.isStr (text : String) : Json → Bool
  | .str s => s = text.toList
  | _ => false

/-- An object. -/
def Json.isDict : Json → Bool
  | .dict _ => true
  | _ => false

/-- What can be an element of a set. -/
def Json.hashable : Json → Bool
  | .list _ | .dict _ => false
  | _ => true

/-- `bool(json)`: what is zero or empty is false. -/
def Json.truth : Json → Bool
  | .null => false
  | .bool b => b
  | .number n => n ≠ 0
  | .float x => x.truth
  | .str s => s ≠ []
  | .list items => !items.isEmpty
  | .dict entries => !entries.isEmpty

/-- `json == True`: a number that is one is as true as the truth. -/
def Json.isTrue : Json → Bool
  | .bool b => b
  | .number n => n = 1
  | .float x => x.isOne
  | _ => false

/-! ## Tokens -/

/-- The tokens of a JSON text. -/
inductive Token where
  | brace
  | endBrace
  | bracket
  | endBracket
  | comma
  | colon
  | text (s : List Char)
  | integer (negative : Bool) (digits : List Char)
  | scalar (json : Json)
  | bad

/-- The characters between tokens. -/
def isBlank (c : Char) : Bool := c = ' ' || c = '\t' || c = '\n' || c = '\r'

/-- An ASCII digit. -/
def isDigit (c : Char) : Bool := '0' ≤ c && c ≤ '9'

/-- The value of a hexadecimal digit of either case. -/
def hexDigit (c : Char) : Option Nat :=
  if isDigit c then some (c.toNat - '0'.toNat)
  else if 'a' ≤ c && c ≤ 'f' then some (c.toNat - 'a'.toNat + 10)
  else if 'A' ≤ c && c ≤ 'F' then some (c.toNat - 'A'.toNat + 10)
  else none

/-- The unit of a `\u` escape. -/
def hexUnit (a b c d : Char) : Option Nat := do
  let a ← hexDigit a
  let b ← hexDigit b
  let c ← hexDigit c
  let d ← hexDigit d
  some (((a * 16 + b) * 16 + c) * 16 + d)

/-- The unit of an escape of two characters. -/
def shortEscape (c : Char) : Option Nat :=
  match c with
  | '"' | '\\' | '/' => some c.toNat
  | 'b' => some 8
  | 'f' => some 12
  | 'n' => some 10
  | 'r' => some 13
  | 't' => some 9
  | _ => none

/-- The units of a string behind its opening quote, and what follows the closing one. -/
def readUnits : List Char → Option (List Nat × List Char)
  | [] => none
  | '"' :: rest => some ([], rest)
  | '\\' :: 'u' :: a :: b :: c :: d :: rest => do
    let unit ← hexUnit a b c d
    let (units, rest) ← readUnits rest
    some (unit :: units, rest)
  | '\\' :: c :: rest => do
    let unit ← shortEscape c
    let (units, rest) ← readUnits rest
    some (unit :: units, rest)
  | c :: rest =>
    -- a control character has to be escaped
    if c.toNat < 32 then none
    else do
      let (units, rest) ← readUnits rest
      some (c.toNat :: units, rest)

/-- The first half of a surrogate pair. -/
def isHigh (unit : Nat) : Bool := 0xD800 ≤ unit && unit < 0xDC00

/-- The second half of one. -/
def isLow (unit : Nat) : Bool := 0xDC00 ≤ unit && unit < 0xE000

/-- The character of a code unit; a lone surrogate is represented by the replacement character. -/
def character (unit : Nat) : Char := if isHigh unit || isLow unit then '\uFFFD' else Char.ofNat unit

/-- The characters of a string: two halves of a surrogate pair are one. -/
def joined : List Nat → List Char
  | [] => []
  | [unit] => [character unit]
  | high :: low :: rest =>
    if isHigh high && isLow low then Char.ofNat (0x10000 + (high - 0xD800) * 0x400 + (low - 0xDC00)) :: joined rest
    else character high :: joined (low :: rest)

/-- The number that some digits denote. -/
def valueOf (digits : List Char) : Nat := digits.foldl (fun n c => 10 * n + (c.toNat - '0'.toNat)) 0

/-- An exponent where a text starts, if there is one. -/
def exponentOf : List Char → Option (Int × List Char)
  | [] => none
  | e :: rest =>
    let signed := rest.head? = some '-' || rest.head? = some '+'
    let unsigned := if signed then rest.tail else rest
    let digits := unsigned.takeWhile isDigit
    if (e = 'e' || e = 'E') && digits ≠ [] then
      some (if rest.head? = some '-' then -(valueOf digits : Int) else valueOf digits, unsigned.drop digits.length)
    else none

/-- The number of the digits, with the point before the last of them that are its fraction. -/
def written (negative : Bool) (digits fraction : List Char) (exponent : Int) : Floating :=
  let shift := exponent - fraction.length
  .quotient negative (valueOf (digits ++ fraction) * 10 ^ shift.toNat) (10 ^ (-shift).toNat)

/-- A number where a text starts: a point or an exponent without digits is none of it. -/
def readNumber (text : List Char) : Option (Token × List Char) :=
  let negative := text.head? = some '-'
  let unsigned := if negative then text.tail else text
  -- nothing follows a leading zero
  let digits := if unsigned.head? = some '0' then ['0'] else unsigned.takeWhile isDigit
  let rest := unsigned.drop digits.length
  let fraction := if rest.head? = some '.' then rest.tail.takeWhile isDigit else []
  let behind := if fraction = [] then rest else rest.drop (fraction.length + 1)
  if digits = [] then none
  else
    match exponentOf behind with
    | some (exponent, behind) => some (.scalar (.float (written negative digits fraction exponent)), behind)
    | none =>
      if fraction = [] then some (.integer negative digits, rest)
      else some (.scalar (.float (written negative digits fraction 0)), behind)

/-- The words that Python reads as values, beyond those of JSON. -/
def words : List (String × Json) :=
  [("null", .null), ("true", .bool true), ("false", .bool false), ("NaN", .float .nan),
   ("Infinity", .float (.infinity false)), ("-Infinity", .float (.infinity true))]

/-- One of these words at the start of a text. -/
def readWord (text : List Char) : Option (Token × List Char) :=
  words.findSome? fun word => (text.dropPrefix? word.1.toList).map fun rest => (.scalar word.2, rest)

/-- The token where a text starts; a blank is none. -/
def token : List Char → Option (Token × List Char)
  | [] => none
  | c :: rest =>
    if isBlank c then none
    else
      match c with
      | '{' => some (.brace, rest)
      | '}' => some (.endBrace, rest)
      | '[' => some (.bracket, rest)
      | ']' => some (.endBracket, rest)
      | ',' => some (.comma, rest)
      | ':' => some (.colon, rest)
      | '"' => (readUnits rest).elim (some (.bad, rest)) fun found => some (.text (joined found.1), found.2)
      | _ => (readWord (c :: rest) <|> readNumber (c :: rest)).elim (some (.bad, rest)) some

/-- The tokens of a text, the characters that belong to none left out. -/
def tokens (text : List Char) : List Token := Scan.finditer token text

/-! ## Documents -/

/-- Why nothing is read: the text is no document, or something in it cannot be taken. -/
inductive Failure where
  | decodeError
  | otherError

/-- A container that is open: what it has so far, and in an object the key of what is read next. -/
inductive Frame where
  | list (items : List Json)
  | dict (entries : List (List Char × Json)) (key : List Char)

/-- What comes next. -/
inductive Awaits where
  /-- a value, or at once the end of a list that was opened -/
  | value (opened : Bool)
  /-- a key, or at once the end of an object that was opened -/
  | key (entries : List (List Char × Json)) (opened : Bool)
  | colon (entries : List (List Char × Json)) (key : List Char)
  /-- what follows a value -/
  | next (json : Json)

/-- The most digits that the interpreter converts. -/
def maxStrDigits : Nat := 4300

/-- Of two entries with one key the later counts. -/
def enter (entries : List (List Char × Json)) (key : List Char) (json : Json) : List (List Char × Json) :=
  Table.store Prod.fst (key, json) entries

/-- One token: what is open then, and what comes next. -/
def step (maxDepth : Nat) : List Frame × Awaits → Token → Except Failure (List Frame × Awaits)
  | (stack, .value opened), token =>
    match token with
    | .text s => .ok (stack, .next (.str s))
    | .scalar json => .ok (stack, .next json)
    | .integer negative digits =>
      if maxStrDigits < digits.length then .error .otherError
      else .ok (stack, .next (.number (if negative then -(valueOf digits : Int) else valueOf digits)))
    | .bracket => if stack.length < maxDepth then .ok (.list [] :: stack, .value true) else .error .otherError
    | .brace => if stack.length < maxDepth then .ok (stack, .key [] true) else .error .otherError
    | .endBracket =>
      match opened, stack with
      | true, .list items :: stack => .ok (stack, .next (.list items))
      | _, _ => .error .decodeError
    | _ => .error .decodeError
  | (stack, .key entries opened), token =>
    match token with
    | .text s => .ok (stack, .colon entries s)
    | .endBrace => if opened then .ok (stack, .next (.dict entries)) else .error .decodeError
    | _ => .error .decodeError
  | (stack, .colon entries key), token =>
    match token with
    | .colon => .ok (.dict entries key :: stack, .value false)
    | _ => .error .decodeError
  | (stack, .next json), token =>
    match stack, token with
    | .list items :: stack, .comma => .ok (.list (items ++ [json]) :: stack, .value false)
    | .list items :: stack, .endBracket => .ok (stack, .next (.list (items ++ [json])))
    | .dict entries key :: stack, .comma => .ok (stack, .key (enter entries key json) false)
    | .dict entries key :: stack, .endBrace => .ok (stack, .next (.dict (enter entries key json)))
    | _, _ => .error .decodeError

/-- `json.loads(text)`. -/
def loads (maxDepth : Nat) (text : List Char) : Except Failure Json :=
  match (tokens text).foldlM (step maxDepth) ([], .value false) with
  | .ok ([], .next json) => .ok json
  | .ok _ => .error .decodeError
  | .error failure => .error failure

end PythonJson
