/-
  Raw ITF documents: their canonical text and their decoder.

  `canonical` writes a value as ITF JSON with set members and map entries in the order of their
  texts and record fields in the order of their names.  `read` decodes a document from its bytes:

  1. `check` walks the whole tree once: no object may repeat a key, and no object or array may
     have more than `maxCollection` entries;
  2. `value` decodes what is bound to a variable;
  3. `readDocument` checks the root, the metadata, the variables and the states.

  All three stop at the first thing that is wrong, by raising an exception (`fail`); `read` turns
  the exceptions of the types it knows into diagnostics.
-/
import FsQuint.Lib.JsonWriter
import FsQuint.JsonElement

namespace FsQuint

open Utf16 Collections Decimal Json

/-- Exact raw ITF values.  The strings of a document are never null. -/
inductive ItfValue where
  | null
  | boolean (b : Bool)
  | integer (n : Int)
  | text (s : UString)
  | sequence (values : List ItfValue)
  | tuple (values : List ItfValue)
  | set (values : List ItfValue)
  | map (entries : List (ItfValue × ItfValue))
  | record (fields : List (UString × ItfValue))

/-- The limits that a document is read under. -/
structure ItfLimits where
  maxBytes : Int
  maxDepth : Int
  maxStates : Int
  maxCollection : Int

/-- A document: its variables, and for each state what is bound to them. -/
structure ItfDocument where
  variableNames : List UString
  states : List (List (UString × ItfValue))

namespace Itf

/-- Sixteen mebibytes, a depth of 64, ten thousand states, and collections of a hundred thousand. -/
def defaultLimits : ItfLimits where
  maxBytes := 16 * 1024 * 1024
  maxDepth := 64
  maxStates := 10000
  maxCollection := 100000

/-! ## Canonical text -/

/-- The upper-case hexadecimal digit of a number below sixteen. -/
def hexDigitUpper (n : Nat) : UInt16 := if n < 10 then UInt16.ofNat (0x30 + n) else UInt16.ofNat (0x37 + n)

/-- The escape `\uXXXX` of a code unit. -/
def hexEscape (c : UInt16) : UString :=
  [0x5C, 0x75, hexDigitUpper (c.toNat / 4096), hexDigitUpper (c.toNat / 256 % 16),
    hexDigitUpper (c.toNat / 16 % 16), hexDigitUpper (c.toNat % 16)]

/-- The characters that the default encoder of `JsonSerializer` copies: printable ASCII, except
    those that mean something in JSON or in HTML. -/
def isCopied (c : UInt16) : Bool :=
  decide (0x20 ≤ c ∧ c < 0x7F) && c ≠ 0x22 && c ≠ 0x26 && c ≠ 0x27 && c ≠ 0x2B && c ≠ 0x3C &&
    c ≠ 0x3E && c ≠ 0x5C && c ≠ 0x60

/-- What the default encoder writes for one code unit. -/
def encodeUnit (c : UInt16) : UString :=
  if isCopied c then [c]
  else if c = 0x5C then [0x5C, 0x5C]
  else if c = 0x08 then [0x5C, 0x62]
  else if c = 0x0C then [0x5C, 0x66]
  else if c = 0x0A then [0x5C, 0x6E]
  else if c = 0x0D then [0x5C, 0x72]
  else if c = 0x09 then [0x5C, 0x74]
  else hexEscape c

/-- `JsonSerializer.Serialize` of a string: an unpaired surrogate is written as U+FFFD. -/
def quote (s : UString) : UString :=
  0x22 :: (((scalars s).flatMap fun c => (utf16 (c.getD (Char.ofNat 0xFFFD))).flatMap encodeUnit) ++ [0x22])

/-- The text of an array with the given items. -/
def array (values : List UString) : UString := 0x5B :: (concat [0x2C] values ++ [0x5D])

/-- The text of a tagged array. -/
def tagged (tag : UString) (values : List UString) : UString :=
  0x7B :: (quote tag ++ 0x3A :: (array values ++ [0x7D]))

/-- Texts in ordinal order. -/
def ordered (values : List UString) : List UString := sortOn ordinal id values

mutual

/-- Canonical raw ITF JSON, distinct from the legacy replay canonicalization. -/
def canonical : ItfValue → UString
  | .null => lit "null"
  | .boolean b => if b then lit "true" else lit "false"
  | .integer n => lit "\x7b\"#bigint\":" ++ quote (decimal n) ++ lit "\x7d"
  | .text s => quote s
  | .sequence xs => array (canonicalItems xs)
  | .tuple xs => tagged "#tup" (canonicalItems xs)
  | .set xs => tagged "#set" (ordered (canonicalItems xs))
  | .map xs => tagged "#map" (ordered (canonicalEntries xs))
  | .record xs =>
    -- the source sorts the fields first; the sort is stable and looks at the names only
    0x7B :: (concat [0x2C] ((sortOn ordinal Prod.fst (canonicalFields xs)).map fun (name, text) =>
      quote name ++ 0x3A :: text) ++ [0x7D])

/-- The canonical texts of some values. -/
def canonicalItems : List ItfValue → List UString
  | [] => []
  | x :: xs => canonical x :: canonicalItems xs

/-- The canonical texts of some map entries, each the array of its key and its value. -/
def canonicalEntries : List (ItfValue × ItfValue) → List UString
  | [] => []
  | (k, v) :: xs => array [canonical k, canonical v] :: canonicalEntries xs

/-- The fields of a record, each name with the canonical text of its value. -/
def canonicalFields : List (UString × ItfValue) → List (UString × UString)
  | [] => []
  | (name, v) :: xs => (name, canonical v) :: canonicalFields xs

end

/-! ## Decoding -/

/-- The exception that carries a code, a path and a message to the handler, as three lines. -/
def fail (code path message : UString) : Exn :=
  ⟨.argument, code ++ 0x0A :: (path ++ 0x0A :: message)⟩

/-- The path of a member or of an item. -/
def below (path name : UString) : UString := path ++ 0x2F :: name

mutual

/-- The limits on collections and the distinctness of keys, at every depth. -/
def check (limits : ItfLimits) (path : UString) : JsonElement → Outcome Unit
  | .object fields => do
    if (fields.length : Int) > limits.maxCollection then
      throw (fail "ITF-COLLECTION" path "Object exceeds collection limit.")
    checkFields limits path [] fields
  | .array items => do
    if (items.length : Int) > limits.maxCollection then
      throw (fail "ITF-COLLECTION" path "Array exceeds collection limit.")
    checkItems limits path 0 items
  | _ => return ()

/-- The members of an object, those before them having the names `names`. -/
def checkFields (limits : ItfLimits) (path : UString) (names : List UString) :
    List (UString × JsonElement) → Outcome Unit
  | [] => return ()
  | (name, field) :: fields => do
    let name ← propertyName name
    if name ∈ names then
      throw (fail "ITF-DUPLICATE" (below path name) "Duplicate object key.")
    check limits (below path name) field
    checkFields limits path (name :: names) fields

/-- `check` for the items of an array, the first of them at position `index`. -/
def checkItems (limits : ItfLimits) (path : UString) (index : Nat) : List JsonElement → Outcome Unit
  | [] => return ()
  | item :: items => do
    check limits (below path (natText index)) item
    checkItems limits path (index + 1) items

end

/-- A collection whose members have distinct canonical texts. -/
def unique (path : UString) (xs : List ItfValue) : Outcome (List ItfValue) :=
  if (distinct (xs.map canonical)).length ≠ xs.length then
    throw (fail "ITF-DUPLICATE" path "Duplicate canonical collection member.")
  else return xs

/-- The integer that a literal denotes. -/
def integer (path : UString) (s : UString) : Outcome ItfValue :=
  match parseInteger s with
  | some n => return .integer n
  | none => throw (fail "ITF-INTEGER" path "Expected an exact decimal integer.")

/-- The string of a member `#bigint`. -/
def bigint (name : UString) : JsonElement → Option UString
  | .string s => if name = lit "#bigint" then some s else none
  | _ => none

/-- A map entry is a sequence of a key and a value. -/
def entry (path : UString) : ItfValue → Outcome (ItfValue × ItfValue)
  | .sequence [k, v] => return (k, v)
  | _ => throw (fail "ITF-MAP" path "Map entries must contain exactly a key and a value.")

/-- The entries of a map, whose keys must be unique. -/
def entries (path : UString) (xs : List ItfValue) : Outcome ItfValue := do
  let pairs ← xs.mapM (entry path)
  let _ ← unique path (pairs.map Prod.fst)
  return .map pairs

mutual

/-- The value that a tree denotes, tagged forms included. -/
def value (path : UString) : JsonElement → Outcome ItfValue
  | .null => return .null
  | .boolean b => return .boolean b
  | .string s => do return .text (← stringText s)
  | .number raw => integer path raw
  | .array items => do return .sequence (← valuesFrom path 0 items)
  | .object fields => do
    match fields with
    | [(name, field)] =>
      let name ← propertyName name
      match bigint name field with
      | some s => integer path (← stringText s)
      | none =>
        if name = lit "#set" then return .set (← unique path (← values path field))
        else if name = lit "#tup" then return .tuple (← values path field)
        else if name = lit "#map" then entries path (← values path field)
        else if startsWithHash name then
          throw (fail "ITF-UNSUPPORTED" path "Unsupported or malformed tagged value.")
        else return .record [(name, ← value (below path name) field)]
    | fields =>
      if ← existsHashName fields then
        throw (fail "ITF-UNSUPPORTED" path "Unsupported or malformed tagged value.")
      return .record (← valueFields path fields)

/-- The members of a tagged collection. -/
def values (path : UString) : JsonElement → Outcome (List ItfValue)
  | .array items => valuesFrom path 0 items
  | _ => throw (fail "ITF-TAG" path "Tagged collection must be an array.")

/-- The values of the items of an array, the first of them at position `index`. -/
def valuesFrom (path : UString) (index : Nat) : List JsonElement → Outcome (List ItfValue)
  | [] => return []
  | item :: items => do
    let x ← value (below path (natText index)) item
    return x :: (← valuesFrom path (index + 1) items)

/-- The values of the fields of an object, under their names. -/
def valueFields (path : UString) : List (UString × JsonElement) → Outcome (List (UString × ItfValue))
  | [] => return []
  | (name, field) :: fields => do
    let name ← propertyName name
    let x ← value (below path name) field
    return (name, x) :: (← valueFields path fields)

end

/-- A member that has to be there. -/
def property (name : UString) (el : JsonElement) : Outcome JsonElement := do
  match ← tryGetProperty name el with
  | some result => return result
  | none => throw (fail "ITF-FIELD" (below "$" name) "Missing field.")

/-- The root members other than metadata, variables and states. -/
def checkRootFields : List (UString × JsonElement) → Outcome Unit
  | [] => return ()
  | (name, _) :: fields => do
    let name ← propertyName name
    if name ∉ [lit "#meta", lit "vars", lit "states"] then
      throw (fail "ITF-FIELD" (below "$" name) "Unsupported root field.")
    checkRootFields fields

/-- The metadata of the document, where it has any, say that it is in the ITF format. -/
def checkMetadata (root : JsonElement) : Outcome Unit := do
  match ← tryGetProperty "#meta" root with
  | none => return ()
  | some (.object fields) =>
    match ← property "format" (.object fields) with
    | .string s =>
      if (← stringText s) ≠ lit "ITF" then
        throw (fail "ITF-META" "$/#meta/format" "Expected ITF format.")
    | _ => throw (fail "ITF-META" "$/#meta/format" "Expected ITF format.")
  | some _ => throw (fail "ITF-META" "$/#meta" "Metadata must be an object.")

/-- The name of a variable: a string that is not blank. -/
def variableName : JsonElement → Outcome UString
  | .string s => do
    let name ← stringText s
    if isNullOrWhiteSpace (some name) then
      throw (fail "ITF-VARS" "$/vars" "Invalid variable name.")
    return name
  | _ => throw (fail "ITF-VARS" "$/vars" "Invalid variable name.")

/-- The variables: at least one, without repetition, and none that starts with `#`. -/
def readVariables (vars : JsonElement) : Outcome (List UString) := do
  match vars with
  | .array items =>
    let names ← items.mapM variableName
    if names = [] ∨ names.any startsWithHash ∨ names.length ≠ (distinct names).length then
      throw (fail "ITF-VARS" "$/vars" "Empty or duplicate variables.")
    return names
  | _ => throw (fail "ITF-VARS" "$/vars" "Expected variable names.")

/-- The index of a state, where it has one, is its position. -/
def checkIndex (path : UString) (i : Nat) (s : JsonElement) : Outcome Unit := do
  match ← tryGetProperty "#meta" s with
  | none => return ()
  | some metadata =>
    let idx ← property "index" metadata
    if (← tryGetInt32 idx) ≠ some (i : Int) then
      throw (fail "ITF-INDEX" path "State index differs from ordinal.")

/-- The state at position `i`: exactly the variables are bound, next to the metadata. -/
def readState (names : List UString) (i : Nat) (s : JsonElement) : Outcome (List (UString × ItfValue)) := do
  let path := below (below "$" "states") (natText i)
  match s with
  | .object members =>
    let fields := (← propertyNames members).filter fun name => name ≠ lit "#meta"
    if setOf fields ≠ setOf names then
      throw (fail "ITF-BINDINGS" path "State bindings differ from declared variables.")
    checkIndex path i s
    names.mapM fun name => do return (name, ← value (below path name) (← property name s))
  | _ => throw (fail "ITF-STATE" path "Expected state object.")

/-- The states from position `i` on. -/
def readStatesFrom (names : List UString) (i : Nat) :
    List JsonElement → Outcome (List (List (UString × ItfValue)))
  | [] => return []
  | s :: states => do
    let bindings ← readState names i s
    return bindings :: (← readStatesFrom names (i + 1) states)

/-- The states: at least one, and no more than the limit. -/
def readStates (limits : ItfLimits) (names : List UString) (states : JsonElement) :
    Outcome (List (List (UString × ItfValue))) :=
  match states with
  | .array items =>
    if items.length = 0 ∨ (items.length : Int) > limits.maxStates then
      throw (fail "ITF-STATES" "$/states" "Expected a nonempty bounded state array.")
    else readStatesFrom names 0 items
  | _ => throw (fail "ITF-STATES" "$/states" "Expected a nonempty bounded state array.")

/-- What is read from the root of a document. -/
def readDocument (limits : ItfLimits) (root : JsonElement) : Outcome ItfDocument := do
  check limits "$" root
  match root with
  | .object fields =>
    checkRootFields fields
    checkMetadata root
    let names ← readVariables (← property "vars" root)
    let states ← readStates limits names (← property "states" root)
    return { variableNames := names, states := states }
  | _ => throw (fail "ITF-ROOT" "$" "Expected an object.")

/-- `read` before its exceptions are caught; the bytes may be null. -/
def readUnguarded (limits : ItfLimits) (bytes : Option ByteArray) : Outcome ItfDocument := do
  if limits.maxBytes ≤ 0 ∨ limits.maxDepth ≤ 0 ∨ limits.maxStates ≤ 0 ∨ limits.maxCollection ≤ 0 then
    throw (fail "ITF-LIMITS" "$" "All limits must be positive.")
  match bytes with
  | none => throw (fail "ITF-BYTES" "$" "Input exceeds byte limit or is null.")
  | some bytes =>
    if (bytes.size : Int) > limits.maxBytes then
      throw (fail "ITF-BYTES" "$" "Input exceeds byte limit or is null.")
    match Utf16.getString bytes with
    | none => throw ⟨.decoderFallback, "Unable to translate bytes to Unicode."⟩
    | some json =>
      match parse limits.maxDepth.toNat json with
      | none => throw ⟨.json, "Invalid JSON or nesting limit exceeded."⟩
      | some root => readDocument limits root

/-- The text before the first line feed, and the text after it. -/
def splitLine : UString → Option (UString × UString)
  | [] => none
  | c :: rest => if c = 0x0A then some ([], rest) else (splitLine rest).map fun p => (c :: p.1, p.2)

/-- The diagnostic that an exception is reported as; `none` when it is not caught. -/
def caught (e : Exn) : Option QuintReplayDiagnostic :=
  if e.type.isArgument then
    -- `e.Message.Split('\n', 3)` has three parts
    match (splitLine e.message).bind fun (code, rest) => (splitLine rest).map fun p => (code, p) with
    | some (code, path, message) => some ⟨code, path, message⟩
    | none => some ⟨lit "ITF-INPUT", lit "$", lit "Invalid input or UTF-8."⟩
  else if e.type = .json then
    some ⟨lit "ITF-JSON", lit "$", lit "Invalid JSON or nesting limit exceeded."⟩
  else if e.type = .invalidOperation then
    some ⟨lit "ITF-SHAPE", lit "$", lit "Invalid field shape."⟩
  else none

/-- Parse raw bytes without opening files, fetching resources, or inferring actions. -/
def read (limits : ItfLimits) (bytes : Option ByteArray) : Outcome (Result ItfDocument) :=
  match readUnguarded limits bytes with
  | .ok document => .ok (.ok document)
  | .error e =>
    match caught e with
    | some finding => .ok (.error [finding])
    | none => .error e

end Itf

end FsQuint
