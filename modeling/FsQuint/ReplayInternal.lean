/-
  The encoders, the fingerprints and the decoder of the replay format.

  1. **Diagnostics**: what is reported, without repetition and in a fixed order.
  2. **Encoders** (`encodeAt`, `encodeStateUnchecked`, `encodeTraceUnchecked`): JSON texts built by
     concatenation, with Set members, Record fields, bindings and bounds sorted.  A name or a text
     that is null stops `escapeJson` with an exception; a state whose values do not encode stops
     `encodeStateUnchecked` with one.  These two ways to fail are parameters (`Primitives`), which
     stand for those of the source unless others are given.
  3. **Fingerprints**: the SHA-256 digest of the UTF-8 bytes of an encoding, in lower case.
  4. **Decoder** (`decodeItfValue`): one value of an ITF document.
-/
import FsQuint.JsonElement

namespace FsQuint.ReplayInternal

open Utf16 Collections Decimal Json

/-! ## Diagnostics -/

/-- A finding from its three parts. -/
def diagnostic (code path message : UString) : QuintReplayDiagnostic := ⟨code, path, message⟩

/-- The finding about a string with a lone surrogate; a null string is none of its business. -/
def unicodeDiagnostics (path : UString) : NString → List QuintReplayDiagnostic
  | none => []
  | some value =>
    if validUnicode value then []
    else [diagnostic "QRP-STRING-UNICODE" path "Strings must contain valid Unicode scalar values."]

/-- The order of diagnostics: by path, then by code, then by message. -/
def diagnosticOrder : KeyOrder (UString × UString × UString) := ordinal.lex (ordinal.lex ordinal)

/-- Findings without repetition, in their order. -/
def sortDiagnostics (diagnostics : List QuintReplayDiagnostic) : List QuintReplayDiagnostic :=
  sortOn diagnosticOrder (fun item => (item.path, item.code, item.message)) (distinct diagnostics)

/-- A digit, or a letter from `a` to `f`. -/
def isLowerHexDigit (c : UInt16) : Bool :=
  decide (0x30 ≤ c ∧ c ≤ 0x39) || decide (0x61 ≤ c ∧ c ≤ 0x66)

/-- Sixty-four lower-case hexadecimal digits: the form of a SHA-256 digest, and of a fingerprint. -/
def isLowerSha256 : NString → Bool
  | none => false
  | some value => !isNullOrWhiteSpace (some value) && value.length = 64 && value.all isLowerHexDigit

/-- The position of an item behind a path: `path[index]`. -/
def indexed (path : UString) (index : Nat) : UString := path ++ (0x5B :: (natText index ++ [0x5D]))

/-- A null string prints as nothing. -/
def printed (value : NString) : UString := value.getD []

/-! ## Encoding values -/

/-- The lower-case hexadecimal digit of a number below sixteen. -/
def hexDigitLower (n : Nat) : UInt16 := if n < 10 then UInt16.ofNat (0x30 + n) else UInt16.ofNat (0x57 + n)

/-- What `escapeJson` writes for one character. -/
def escapeChar (c : UInt16) : UString :=
  if c = 0x22 then [0x5C, 0x22]
  else if c = 0x5C then [0x5C, 0x5C]
  else if c = 0x08 then [0x5C, 0x62]
  else if c = 0x0C then [0x5C, 0x66]
  else if c = 0x0A then [0x5C, 0x6E]
  else if c = 0x0D then [0x5C, 0x72]
  else if c = 0x09 then [0x5C, 0x74]
  else if c.toNat < 0x20 then
    [0x5C, 0x75, 0x30, 0x30, hexDigitLower (c.toNat / 16), hexDigitLower (c.toNat % 16)]
  else [c]

/-- The JSON literal of a string that is not null. -/
def literal (value : UString) : UString := 0x22 :: (value.flatMap escapeChar ++ [0x22])

/-- The JSON literal of a string; a null string is a null reference, which raises. -/
def escapeJson : NString → Outcome UString
  | none => .error nullReference
  | some value => .ok (literal value)

/-- The two primitives of the encoders that may fail: `escapeJson`, and the failing branch of
    `encodeStateUnchecked`.  The encoders, the fingerprints and the validation are written over any such
    primitives, so that it can be said of them that they use neither where it fails; only what the first
    writes for a well-formed string is fixed. -/
class Primitives where
  escapeJson : NString → Outcome UString
  invalidOp : Outcome UString
  wellFormed : ∀ {s}, validUnicode s = true → escapeJson (some s) = ReplayInternal.escapeJson (some s)

/-- The primitives of the source, which are meant wherever no others are named. -/
instance Primitives.source : Primitives where
  escapeJson := ReplayInternal.escapeJson
  invalidOp := throw ⟨.invalidOperation, "State was encoded before validation completed."⟩
  wellFormed _ := rfl

/-- The decimal spelling of the integer that a literal denotes, without leading zeros or a plus sign. -/
def canonicalInteger (value : NString) : Option UString :=
  if isNullOrWhiteSpace value then none else (parseInteger (printed value)).map decimal

/-- The value of a result, if it has one. -/
def value? {α : Type} : Result α → Option α
  | .ok value => some value
  | .error _ => none

/-- The findings of a result: none when it has a value. -/
def findings {α : Type} : Result α → List QuintReplayDiagnostic
  | .ok _ => []
  | .error findings => findings

/-- The values of the results when all are `ok`, and the findings of all of them otherwise. -/
def collectDecoded {α : Type} (results : List (Result α)) : Result (List α) :=
  let diagnostics := results.flatMap findings
  if diagnostics = [] then .ok (results.filterMap value?) else .error (sortDiagnostics diagnostics)

/-- `collectDecoded` at encodings; the path is not used. -/
def collect (_path : UString) (results : List (Result UString)) : Result (List UString) :=
  collectDecoded results

/-- The names that occur more than once. -/
def duplicates (names : List NString) : List NString :=
  (countBy names).filterMap fun (name, count) => if 1 < count then some name else none

/-- The findings about the keys of a Record, each at its position: one per key, the blank before the
    ill-formed. -/
def keyDiagnostics (path : UString) (names : List NString) : List QuintReplayDiagnostic :=
  (names.mapIdx fun index name =>
    if isNullOrWhiteSpace name then
      [diagnostic "QRP-VALUE-RECORD-KEY" (indexed path index) "Record keys cannot be blank."]
    else unicodeDiagnostics (indexed path index) name).flatten

/-- What is wrong with the keys of a Record: the repeated ones, then the findings about each. -/
def recordDiagnostics (path : UString) (names : List NString) : List QuintReplayDiagnostic :=
  (sortOn ordinal.nullFirst id (duplicates names)).map (fun name =>
    diagnostic "QRP-VALUE-RECORD-DUPLICATE" path
      ((lit "Record key '" ++ printed name) ++ lit "' is duplicated.")) ++ keyDiagnostics path names

mutual

/-- The encoding of a value, or the findings about it under a path.  Set members are sorted by their
    encodings and Record fields by their names, so that the text does not depend on the order in which
    they were given. -/
def encodeAt [Primitives] (path : UString) : QuintReplayValue → Outcome (Result UString)
  | .null => return .ok "null"
  | .boolean true => return .ok "true"
  | .boolean false => return .ok "false"
  | .integer value =>
    match canonicalInteger value with
    | some canonical => return .ok canonical
    | none =>
      return .error [diagnostic "QRP-VALUE-INTEGER" path "Integer values must use base-10 integer syntax."]
  | .text none => return .error [diagnostic "QRP-VALUE-TEXT" path "Text values cannot be null."]
  | .text (some value) => do
    if !validUnicode value then return .error (unicodeDiagnostics path (some value))
    return .ok (← Primitives.escapeJson (some value))
  | .sequence values => do
    let results ← encodeItems path 0 values
    return (collect path results).map fun encoded => 0x5B :: (concat [0x2C] encoded ++ [0x5D])
  | .set values => do
    let results ← encodeItems path 0 values
    return (collect path results).bind fun encoded =>
      let canonical := sortOn ordinal id encoded
      if (distinct canonical).length ≠ canonical.length then
        .error [diagnostic "QRP-VALUE-SET-DUPLICATE" path
          "Set values must be unique after canonical encoding."]
      else .ok (lit "\x7b\"#set\":[" ++ concat [0x2C] canonical ++ lit "]\x7d")
  | .record fields => do
    let names := fields.map Prod.fst
    if duplicates names ≠ [] ∨ keyDiagnostics path names ≠ [] then
      return .error (sortDiagnostics (recordDiagnostics path names))
    -- the source sorts the fields first; the sort is stable and looks at the names only
    let results ← encodeFields path fields
    return (collect path ((sortOn ordinal.nullFirst Prod.fst results).map Prod.snd)).map fun encoded =>
      0x7B :: (concat [0x2C] encoded ++ [0x7D])

/-- The items of a Sequence or Set, the first of them at position `index`. -/
def encodeItems [Primitives] (path : UString) (index : Nat) : List QuintReplayValue → Outcome (List (Result UString))
  | [] => return []
  | item :: items => do
    let encoded ← encodeAt (indexed path index) item
    return encoded :: (← encodeItems path (index + 1) items)

/-- The fields of a Record, each with its name. -/
def encodeFields [Primitives] (path : UString) :
    List (NString × QuintReplayValue) → Outcome (List (NString × Result UString))
  | [] => return []
  | (name, item) :: fields => do
    let field ← match ← encodeAt (path ++ lit "." ++ printed name) item with
      | .ok encoded => do pure (.ok ((← Primitives.escapeJson name) ++ 0x3A :: encoded))
      | .error findings => pure (.error findings)
    return (name, field) :: (← encodeFields path fields)

end

/-! ## States and traces -/

/-- The findings about a source binding. -/
def validateSource (path : UString) (source : QuintReplaySourceBinding) : List QuintReplayDiagnostic :=
  (if isNullOrWhiteSpace source.path then
    [diagnostic "QRP-SOURCE-PATH" (path ++ lit ".path") "Source path is required."] else []) ++
  unicodeDiagnostics (path ++ lit ".path") source.path ++
  (if source.line < 1 then
    [diagnostic "QRP-SOURCE-LINE" (path ++ lit ".line") "Source line must be positive."] else []) ++
  (if source.column < 1 then
    [diagnostic "QRP-SOURCE-COLUMN" (path ++ lit ".column") "Source column must be positive."] else [])

/-- The findings about a list of names: the blank and the ill-formed ones in order, each at its
    position, then the repeated ones. -/
def nameDiagnostics (blankCode duplicateCode path blank noun : UString) (names : List NString) :
    List QuintReplayDiagnostic :=
  (names.mapIdx fun index name =>
    (if isNullOrWhiteSpace name then [diagnostic blankCode (indexed path index) blank] else []) ++
      unicodeDiagnostics (indexed path index) name).flatten ++
  (sortOn ordinal.nullFirst id (duplicates names)).map fun name =>
    diagnostic duplicateCode path (noun ++ lit " '" ++ printed name ++ lit "' is duplicated.")

/-- The findings about the values of a state, the first of them at position `index`: what their
    encodings report. -/
def bindingDiagnostics [Primitives] (path : UString) (index : Nat) :
    List QuintReplayValue → Outcome (List QuintReplayDiagnostic)
  | [] => return []
  | value :: values => do
    let result ← encodeAt (indexed path index) value
    return findings result ++ (← bindingDiagnostics path (index + 1) values)

/-- The findings about the bindings of a state, apart from its fingerprint. -/
def validateStateContent [Primitives] (path : UString) (state : QuintReplayState) :
    Outcome (List QuintReplayDiagnostic) := do
  let structural := nameDiagnostics "QRP-STATE-BINDING" "QRP-STATE-BINDING-DUPLICATE"
    (path ++ lit ".bindings") "State binding names cannot be blank." "State binding"
    (state.bindings.map Prod.fst)
  let valueDiagnostics ← bindingDiagnostics (path ++ lit ".bindings") 0 (state.bindings.map Prod.snd)
  return sortDiagnostics (structural ++ valueDiagnostics)

/-- The encoding of a binding that has been validated; an exception where it has not. -/
def encodeBindingUnchecked [Primitives] (binding : NString × QuintReplayValue) : Outcome UString := do
  match ← encodeAt "$.bindings" binding.2 with
  | .ok encoded => return (← Primitives.escapeJson binding.1) ++ 0x3A :: encoded
  | .error _ => Primitives.invalidOp

/-- The encoding of a state that has been validated, its bindings sorted by name. -/
def encodeStateUnchecked [Primitives] (state : QuintReplayState) : Outcome UString := do
  let bindings ← (sortOn ordinal.nullFirst Prod.fst state.bindings).mapM encodeBindingUnchecked
  return 0x7B :: (concat [0x2C] bindings ++ [0x7D])

/-- `Convert.ToHexString` in lower case. -/
def lowerHex (digest : Vector UInt8 32) : UString :=
  digest.toList.flatMap fun b => [hexDigitLower (b.toNat / 16), hexDigitLower (b.toNat % 16)]

/-- The digits of different numbers differ. -/
theorem hexDigitLower_inj :
    ∀ m < 16, ∀ n < 16, hexDigitLower m = hexDigitLower n → m = n := by decide

/-- Two digits determine a byte. -/
theorem hexPair_inj {b c : UInt8} (hh : hexDigitLower (b.toNat / 16) = hexDigitLower (c.toNat / 16))
    (hl : hexDigitLower (b.toNat % 16) = hexDigitLower (c.toNat % 16)) : b = c := by
  have hb : b.toNat < 256 := b.toNat_lt
  have hc : c.toNat < 256 := c.toNat_lt
  have h1 := hexDigitLower_inj _ (by omega) _ (by omega) hh
  have h2 := hexDigitLower_inj _ (by omega) _ (by omega) hl
  exact UInt8.toNat_inj.mp (by omega)

/-- And a string of pairs determines the bytes. -/
theorem hexPairs_inj : ∀ {bs cs : List UInt8},
    bs.flatMap (fun b => [hexDigitLower (b.toNat / 16), hexDigitLower (b.toNat % 16)]) =
      cs.flatMap (fun b => [hexDigitLower (b.toNat / 16), hexDigitLower (b.toNat % 16)]) → bs = cs
  | [], [], _ => rfl
  | [], _ :: _, h => by simp at h
  | _ :: _, [], h => by simp at h
  | b :: bs, c :: cs, h => by
    simp only [List.flatMap_cons, List.cons_append, List.nil_append, List.cons.injEq] at h
    obtain ⟨hh, hl, hrest⟩ := h
    rw [hexPair_inj hh hl, hexPairs_inj hrest]

/-- The digits determine the digest. -/
theorem lowerHex_inj {d e : Vector UInt8 32} (h : lowerHex d = lowerHex e) : d = e :=
  Vector.toList_inj.mp (hexPairs_inj h)

/-- The fingerprint of a text: the digest of its UTF-8 bytes. -/
def fingerprint (platform : Platform) (text : UString) : UString :=
  lowerHex (platform.hashData (getBytesLossy text))

/-- The fingerprint of a state, without asking whether it is valid. -/
def stateFingerprint [Primitives] (platform : Platform) (state : QuintReplayState) : Outcome UString := do
  return fingerprint platform (← encodeStateUnchecked state)

/-- The encoding of a source binding. -/
def encodeSource [Primitives] (source : QuintReplaySourceBinding) : Outcome UString := do
  return lit "\x7b\"path\":" ++ (← Primitives.escapeJson source.path) ++ lit ",\"line\":" ++ decimal source.line ++
    lit ",\"column\":" ++ decimal source.column ++ lit "\x7d"

/-- The encoding of an environment, its bounds sorted by name. -/
def encodeEnvironment [Primitives] (environment : QuintReplayEnvironment) : Outcome UString := do
  let bounds ← (sortOn ordinal.nullFirst Prod.fst environment.bounds).mapM fun (name, value) =>
    return (← Primitives.escapeJson name) ++ 0x3A :: decimal value
  return lit "\x7b\"seed\":" ++ (← Primitives.escapeJson environment.seed) ++
    lit ",\"bounds\":\x7b" ++ concat [0x2C] bounds ++
    lit "\x7d,\"toolFingerprint\":" ++ (← Primitives.escapeJson environment.toolFingerprint) ++
    lit ",\"profileFingerprint\":" ++ (← Primitives.escapeJson environment.profileFingerprint) ++
    lit ",\"contractFingerprint\":" ++ (← Primitives.escapeJson environment.contractFingerprint) ++
    lit ",\"adapterFingerprint\":" ++ (← Primitives.escapeJson environment.adapterFingerprint) ++
    lit ",\"implementationFingerprint\":" ++ (← Primitives.escapeJson environment.implementationFingerprint) ++
    lit "\x7d"

/-- The encoding of a step. -/
def encodeStep [Primitives] (step : QuintReplayStep) : Outcome UString := do
  return lit "\x7b\"index\":" ++ decimal step.index ++ lit ",\"action\":" ++ (← Primitives.escapeJson step.action) ++
    lit ",\"source\":" ++ (← encodeSource step.source) ++
    lit ",\"expected\":" ++ (← encodeStateUnchecked step.expected) ++ lit "\x7d"

/-- The encoding of a trace that has been validated.  The claimed identity is no part of it. -/
def encodeTraceUnchecked [Primitives] (trace : QuintReplayTrace) : Outcome UString := do
  let steps ← trace.steps.mapM encodeStep
  return lit "\x7b\"schemaVersion\":" ++ decimal trace.schemaVersion ++
    lit ",\"environment\":" ++ (← encodeEnvironment trace.environment) ++
    lit ",\"initial\":" ++ (← encodeStateUnchecked trace.initial) ++
    lit ",\"steps\":[" ++ concat [0x2C] steps ++ lit "]\x7d"

/-- The fingerprint of a trace, without asking whether it is valid. -/
def traceFingerprint [Primitives] (platform : Platform) (trace : QuintReplayTrace) : Outcome UString := do
  return fingerprint platform (← encodeTraceUnchecked trace)

/-- The findings about a state: those about its bindings and, when there are none, whether it has the
    fingerprint that it claims. -/
def validateState [Primitives] (platform : Platform) (path : UString) (state : QuintReplayState) :
    Outcome (List QuintReplayDiagnostic) := do
  let contentDiagnostics ← validateStateContent path state
  let identityDiagnostics ←
    if !isLowerSha256 state.identity then
      pure [diagnostic "QRP-STATE-IDENTITY" (path ++ lit ".identity")
        "State identity must be a lowercase SHA-256 digest."]
    else if contentDiagnostics = [] then do
      let expected ← stateFingerprint platform state
      if state.identity ≠ some expected then
        pure [diagnostic "QRP-STATE-FINGERPRINT" (path ++ lit ".identity")
          (lit "State identity does not match canonical state fingerprint '" ++ expected ++ lit "'.")]
      else pure []
    else pure []
  return sortDiagnostics (contentDiagnostics ++ identityDiagnostics)

/-- The finding about a fingerprint of the environment that does not have the form of one. -/
def validateFingerprint (path : UString) (value : NString) : List QuintReplayDiagnostic :=
  if isLowerSha256 value then []
  else [diagnostic "QRP-ENV-FINGERPRINT" path "Environment fingerprints must be lowercase SHA-256 digests."]

/-! ## Decoding ITF values -/

/-- The findings about the keys of an object: the repeated, those that are not allowed, and the required
    ones that are absent. -/
def checkFields (path : UString) (required allowed : List UString) (element : JsonElement) :
    Outcome (List QuintReplayDiagnostic) :=
  match element with
  | .object members => do
    let names ← propertyNames members
    return ((countBy names).flatMap fun (name, count) =>
        if 1 < count then
          [diagnostic "QRP-ITF-DUPLICATE-FIELD" (path ++ lit "/" ++ name) "Duplicate ITF field."] else []) ++
      ((distinct names).flatMap fun name =>
        if name ∉ allowed then
          [diagnostic "QRP-ITF-UNSUPPORTED-FIELD" (path ++ lit "/" ++ name) "Unknown ITF field."] else []) ++
      (required.flatMap fun name =>
        if name ∉ names then
          [diagnostic "QRP-ITF-REQUIRED" (path ++ lit "/" ++ name) "Required ITF field is absent."] else [])
  | _ => return [diagnostic "QRP-ITF-TYPE" path "Expected an object."]

/-- `TryGetProperty`, the last member of the name. -/
def property (name : UString) (element : JsonElement) : Outcome (Option JsonElement) :=
  tryGetProperty name element

mutual

/-- The value that an ITF tree stands for, or the findings about it under a path.  Of the tagged forms
    only `#bigint` and `#set` are in the replay subset. -/
def decodeItfValue (path : UString) : JsonElement → Outcome (Result QuintReplayValue)
  | .null => return .ok .null
  | .boolean b => return .ok (.boolean b)
  | .string s => do
    match ← getString (.string s) with
    | none => return .error [diagnostic "QRP-ITF-TYPE" path "ITF strings cannot be null."]
    | some value => return .ok (.text (some value))
  | .number raw => do
    match ← tryGetInt64 (.number raw) with
    | some value => return .ok (.integer (some (decimal value)))
    | none => return .error [diagnostic "QRP-ITF-INTEGER" path "ITF numbers must be integers."]
  | .array items => do
    return (collectDecoded (← decodeItems path 0 items)).map .sequence
  | .object members => do
    match lastMember "#bigint" members, lastMember "#set" members, members with
    | some (.string s), none, [_] =>
      match (← getString (.string s)).bind fun value => canonicalInteger (some value) with
      | some value => return .ok (.integer (some value))
      | none => return .error [diagnostic "QRP-ITF-INTEGER" (path ++ lit "/#bigint") "Invalid ITF bigint."]
    -- the only member is the one found, so its items are those of the set
    | none, some (.array _), [(_, .array items)] =>
      return (collectDecoded (← decodeItems (path ++ lit "/#set") 0 items)).map .set
    | none, none, members =>
      if ← existsHashName members then
        return .error [diagnostic "QRP-ITF-UNSUPPORTED" path
          "Tagged value is outside the schema-v1 replay subset; use Itf.read and an explicit projection."]
      return (collectDecoded (← decodeMembers path members)).map .record
    | _, _, _ =>
      return .error [diagnostic "QRP-ITF-SHAPE" path "Unsupported or ambiguous ITF tagged value."]

/-- The items of an array, the first of them at position `index`. -/
def decodeItems (path : UString) (index : Nat) : List JsonElement → Outcome (List (Result QuintReplayValue))
  | [] => return []
  | item :: items => do
    let decoded ← decodeItfValue (path ++ lit "/" ++ natText index) item
    return decoded :: (← decodeItems path (index + 1) items)

/-- The members of an object, each with its name. -/
def decodeMembers (path : UString) :
    List (UString × JsonElement) → Outcome (List (Result (NString × QuintReplayValue)))
  | [] => return []
  | (name, item) :: members => do
    let name ← propertyName name
    let decoded ← decodeItfValue (path ++ lit "/" ++ name) item
    return (decoded.map fun value => (some name, value)) :: (← decodeMembers path members)

end

end FsQuint.ReplayInternal
