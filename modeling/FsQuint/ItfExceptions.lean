/-
  What the raw decoder raises.

  Its functions raise argument exceptions of their own, and the exceptions of the libraries below them:
  bytes that are not UTF-8, text that is not JSON, an element of another kind.

  1. **Checks and paths** (`Check`, `pathOf`): what the decoder raises by itself has the code and the
     message of one of its checks, and a path whose segments are keys of the document, or texts in
     which there is no line feed.
  2. **Faults** (`Fails`): every function of the decoder raises nothing else.
  3. **Answers** (`read_answers`): `read` catches all of these, so it answers on every input.
-/
import FsQuint.Itf

set_option linter.unusedVariables false

namespace FsQuint.Itf

open Utf16 Collections Decimal Json

/-! ## Checks and paths -/

/-- The checks, each with its code and its message. -/
inductive Check : UString → UString → Prop
  | limits : Check "ITF-LIMITS" "All limits must be positive."
  | bytes : Check "ITF-BYTES" "Input exceeds byte limit or is null."
  | objectSize : Check "ITF-COLLECTION" "Object exceeds collection limit."
  | arraySize : Check "ITF-COLLECTION" "Array exceeds collection limit."
  | key : Check "ITF-DUPLICATE" "Duplicate object key."
  | tag : Check "ITF-TAG" "Tagged collection must be an array."
  | member : Check "ITF-DUPLICATE" "Duplicate canonical collection member."
  | integer : Check "ITF-INTEGER" "Expected an exact decimal integer."
  | entry : Check "ITF-MAP" "Map entries must contain exactly a key and a value."
  | unsupported : Check "ITF-UNSUPPORTED" "Unsupported or malformed tagged value."
  | root : Check "ITF-ROOT" "Expected an object."
  | missing : Check "ITF-FIELD" "Missing field."
  | rootField : Check "ITF-FIELD" "Unsupported root field."
  | metadata : Check "ITF-META" "Metadata must be an object."
  | format : Check "ITF-META" "Expected ITF format."
  | vars : Check "ITF-VARS" "Expected variable names."
  | variableName : Check "ITF-VARS" "Invalid variable name."
  | variables : Check "ITF-VARS" "Empty or duplicate variables."
  | states : Check "ITF-STATES" "Expected a nonempty bounded state array."
  | state : Check "ITF-STATE" "Expected state object."
  | bindings : Check "ITF-BINDINGS" "State bindings differ from declared variables."
  | index : Check "ITF-INDEX" "State index differs from ordinal."

/-- The path from the root of a document along some segments. -/
def pathOf (segments : List UString) : UString := lit "$" ++ segments.flatMap fun segment => 0x2F :: segment

/-- A path is extended by a segment at its end. -/
theorem pathOf_append (segments : List UString) (segment : UString) :
    pathOf (segments ++ [segment]) = below (pathOf segments) segment := by
  rw [pathOf, List.flatMap_append, List.flatMap_singleton, ← List.append_assoc]
  rfl

mutual

/-- The keys of the objects in a document, at any depth. -/
def keys : JsonElement → List UString
  | .object fields => keysOfFields fields
  | .array items => keysOfItems items
  | _ => []

/-- The keys at any depth of some trees. -/
def keysOfItems : List JsonElement → List UString
  | [] => []
  | item :: items => keys item ++ keysOfItems items

/-- The names of some fields, and the keys at any depth of their trees. -/
def keysOfFields : List (UString × JsonElement) → List UString
  | [] => []
  | (name, field) :: fields => name :: (keys field ++ keysOfFields fields)

end

/-- The name of a field, and the keys of its tree, are among them. -/
theorem mem_keysOfFields :
    ∀ {fields : List (UString × JsonElement)} {m : UString × JsonElement}, m ∈ fields →
    m.1 ∈ keysOfFields fields ∧ ∀ key ∈ keys m.2, key ∈ keysOfFields fields
  | (name, field) :: fields, m, h => by
    rw [keysOfFields]
    rcases List.mem_cons.mp h with rfl | h
    · exact ⟨List.mem_cons_self, fun key hk => List.mem_cons_of_mem _ (List.mem_append_left _ hk)⟩
    · obtain ⟨hname, hkeys⟩ := mem_keysOfFields h
      exact ⟨List.mem_cons_of_mem _ (List.mem_append_right _ hname), fun key hk =>
        List.mem_cons_of_mem _ (List.mem_append_right _ (hkeys key hk))⟩

section Faults

-- the segments that may hold a line feed
variable (K : UString → Prop)

/-- A path whose segments are such names, or have no line feed. -/
def Located (path : UString) : Prop :=
  ∃ segments, path = pathOf segments ∧ ∀ segment ∈ segments, K segment ∨ 0x0A ∉ segment

/-- What the decoder raises: exceptions of the libraries, and those of its checks. -/
def Fault (e : Exn) : Prop :=
  e.type = .decoderFallback ∨ e.type = .json ∨ e.type = .invalidOperation ∨
    ∃ code path message, Check code message ∧ Located K path ∧ e = fail code path message

/-- Every exception that escapes from `x` is such a fault. -/
def Fails {α : Type} (x : Outcome α) : Prop := ∀ e, x = .error e → Fault K e

variable {K}

/-- The root path is located. -/
theorem located_root : Located K "$" := ⟨[], rfl, fun _ h => nomatch h⟩

/-- A path is extended by a key of the document, or by a segment without a line feed. -/
theorem Located.below {path segment : UString} (h : Located K path)
    (hs : K segment ∨ 0x0A ∉ segment) :
    Located K (below path segment) := by
  obtain ⟨segments, rfl, hsegments⟩ := h
  refine ⟨segments ++ [segment], (pathOf_append segments segment).symm, fun s hmem => ?_⟩
  rcases List.mem_append.mp hmem with hmem | hmem
  · exact hsegments s hmem
  · rw [List.mem_singleton.mp hmem]
    exact hs

/-- Digits are no line feeds. -/
theorem lineFeed_not_mem_natText (n : Nat) : (0x0A : UInt16) ∉ natText n := fun h =>
  absurd (isDigit_of_mem_natText n _ h) (by decide)

/-- And so a path is extended by a position. -/
theorem Located.item {path : UString} (h : Located K path) (index : Nat) :
    Located K (Itf.below path (natText index)) :=
  h.below (.inr (lineFeed_not_mem_natText index))

variable {α β : Type} {x : Outcome α} {f : α → Outcome β}

/-- What succeeds does not fail. -/
theorem fails_ok (a : α) : Fails K (.ok a) := fun e h => nomatch h

/-- **A failing check is located**: its path consists of keys of the document and of fixed segments. -/
theorem fails_fail {code path message : UString} (hp : Located K path) (hc : Check code message) :
    Fails K (throw (fail code path message) : Outcome α) := by
  intro e he
  rw [← Except.error.inj he]
  exact .inr (.inr (.inr ⟨code, path, message, hc, hp, rfl⟩))

/-- An access to an element of the wrong kind. -/
theorem fails_invalidOperation {e : Exn} (h : e.type = .invalidOperation) :
    Fails K (.error e : Outcome α) := by
  intro e' he
  rw [← Except.error.inj he]
  exact .inr (.inr (.inl h))

/-- A computation after another. -/
theorem Fails.bind (hx : Fails K x) (hf : ∀ a, x = .ok a → Fails K (f a)) : Fails K (x >>= f) := by
  cases x with
  | error e =>
    intro e' he
    exact hx e' (congrArg Except.error (Except.error.inj he))
  | ok a => exact hf a rfl

/-- A choice, with what is known on either side. -/
theorem fails_ite {p : Prop} [Decidable p] {y : Outcome α} (hx : p → Fails K x)
    (hy : ¬ p → Fails K y) :
    Fails K (if p then x else y) := by
  by_cases h : p
  · rw [if_pos h]
    exact hx h
  · rw [if_neg h]
    exact hy h

/-- A traversal. -/
theorem fails_mapM : ∀ {xs : List α}, (∀ a ∈ xs, Fails K (f a)) → Fails K (xs.mapM f)
  | [], _ => fails_ok []
  | a :: as, hf => by
    rw [List.mapM_cons]
    exact (hf a List.mem_cons_self).bind fun b _ =>
      (fails_mapM fun a ha => hf a (List.mem_cons_of_mem _ ha)).bind fun bs _ => fails_ok (b :: bs)

/-! ## The document object model -/

/-- The text of a string that is ill-formed cannot be read. -/
theorem fails_stringText (s : UString) : Fails K (stringText s) :=
  fails_ite (fun _ => fails_ok s) fun _ => fails_invalidOperation rfl

/-- Nor can a name. -/
theorem fails_propertyName (name : UString) : Fails K (propertyName name) := fails_stringText name

/-- A name that can be read is read as it is. -/
theorem eq_of_propertyName {name read : UString} (h : propertyName name = .ok read) :
    read = name := by
  unfold propertyName at h
  split at h
  · exact (Except.ok.inj h).symm
  · exact nomatch h

/-- The names of the members are read one by one. -/
theorem fails_propertyNames (members : List (UString × JsonElement)) :
    Fails K (propertyNames members) :=
  fails_mapM fun m _ => fails_propertyName m.1

/-- And so is the search for a tag. -/
theorem fails_existsHashName :
    ∀ members : List (UString × JsonElement), Fails K (existsHashName members)
  | [] => fails_ok false
  | m :: members => by
    rw [existsHashName_cons]
    exact (fails_propertyName m.1).bind fun name _ =>
      fails_ite (fun _ => fails_ok true) fun _ => fails_existsHashName members

/-- A member is looked for in an object. -/
theorem fails_tryGetProperty (name : UString) (el : JsonElement) :
    Fails K (tryGetProperty name el) := by
  cases el with
  | object members => exact fails_ok _
  | _ => exact fails_invalidOperation rfl

/-- An integer is read from a number. -/
theorem fails_tryGetInt32 (el : JsonElement) : Fails K (tryGetInt32 el) := by
  cases el with
  | number raw => exact fails_ok _
  | _ => exact fails_invalidOperation rfl

/-! ## The walk over the tree -/

section Check

variable {limits : ItfLimits}

mutual

/-- **The limits on collections**: the path of a finding leads through the keys of the tree. -/
theorem fails_check :
    ∀ (path : UString) (j : JsonElement), Located K path → (∀ key ∈ keys j, K key) →
    Fails K (check limits path j)
  | _, .null, _, _ => fails_ok ()
  | _, .boolean _, _, _ => fails_ok ()
  | _, .string _, _, _ => fails_ok ()
  | _, .number _, _, _ => fails_ok ()
  | path, .array items, hp, hk => by
    rw [check]
    exact fails_ite (fun _ => fails_fail hp .arraySize) fun _ => fails_checkItems path 0 items hp hk
  | path, .object fields, hp, hk => by
    rw [check]
    exact fails_ite (fun _ => fails_fail hp .objectSize) fun _ =>
      fails_checkFields path [] fields hp hk

/-- Field by field, each under its key. -/
theorem fails_checkFields :
    ∀ (path : UString) (names : List UString) (fields : List (UString × JsonElement)),
    Located K path → (∀ key ∈ keysOfFields fields, K key) →
      Fails K (checkFields limits path names fields)
  | _, _, [], _, _ => fails_ok ()
  | path, names, (name, field) :: fields, hp, hk => by
    rw [keysOfFields, List.forall_mem_cons, List.forall_mem_append] at hk
    rw [checkFields]
    refine (fails_propertyName name).bind fun read hread => ?_
    obtain rfl := eq_of_propertyName hread
    have hbelow := hp.below (.inl hk.1)
    exact fails_ite (fun _ => fails_fail hbelow .key) fun _ =>
      (fails_check (below path read) field hbelow hk.2.1).bind fun _ _ =>
        fails_checkFields path (read :: names) fields hp hk.2.2

/-- Item by item, each under its position. -/
theorem fails_checkItems : ∀ (path : UString) (index : Nat) (items : List JsonElement),
    Located K path → (∀ key ∈ keysOfItems items, K key) →
      Fails K (checkItems limits path index items)
  | _, _, [], _, _ => fails_ok ()
  | path, index, item :: items, hp, hk => by
    rw [keysOfItems, List.forall_mem_append] at hk
    rw [checkItems]
    exact (fails_check (below path (natText index)) item (hp.item index) hk.1).bind fun _ _ =>
      fails_checkItems path (index + 1) items hp hk.2

end

end Check

/-! ## Values -/

/-- A repeated member of a collection. -/
theorem fails_unique {path : UString} (hp : Located K path) (xs : List ItfValue) :
    Fails K (unique path xs) :=
  fails_ite (fun _ => fails_fail hp .member) fun _ => fails_ok xs

/-- A literal that denotes no integer. -/
theorem fails_integer {path : UString} (hp : Located K path) (s : UString) :
    Fails K (integer path s) := by
  rw [integer]
  cases parseInteger s with
  | some n => exact fails_ok _
  | none => exact fails_fail hp .integer

/-- A map entry that is no pair. -/
theorem fails_entry {path : UString} (hp : Located K path) (x : ItfValue) :
    Fails K (entry path x) := by
  unfold entry
  split
  · exact fails_ok _
  · exact fails_fail hp .entry

/-- A map with such an entry, or with a repeated key. -/
theorem fails_entries {path : UString} (hp : Located K path) (xs : List ItfValue) :
    Fails K (entries path xs) :=
  (fails_mapM fun x _ => fails_entry hp x).bind fun pairs _ =>
    (fails_unique hp (pairs.map Prod.fst)).bind fun _ _ => fails_ok _

mutual

/-- **The reading of a value**: the path of a finding leads through the keys of the tree. -/
theorem fails_value :
    ∀ (path : UString) (j : JsonElement), Located K path → (∀ key ∈ keys j, K key) →
    Fails K (value path j)
  | _, .null, _, _ => fails_ok _
  | _, .boolean _, _, _ => fails_ok _
  | _, .string s, _, _ => (fails_stringText s).bind fun text _ => fails_ok _
  | path, .number raw, hp, _ => fails_integer hp raw
  | path, .array items, hp, hk => (fails_valuesFrom path 0 items hp hk).bind fun xs _ => fails_ok _
  | path, .object [], hp, hk => (fails_existsHashName []).bind fun found _ =>
      fails_ite (fun _ => fails_fail hp .unsupported) fun _ =>
        (fails_valueFields path [] hp hk).bind fun fs _ => fails_ok _
  | path, .object [(name, field)], hp, hk => by
    rw [keys, keysOfFields, keysOfFields, List.append_nil, List.forall_mem_cons] at hk
    rw [value]
    refine (fails_propertyName name).bind fun read hread => ?_
    obtain rfl := eq_of_propertyName hread
    cases bigint read field with
    | some s => exact (fails_stringText s).bind fun text _ => fails_integer hp text
    | none =>
      refine fails_ite (fun _ => ?_) fun _ => fails_ite (fun _ => ?_) fun _ =>
        fails_ite (fun _ => ?_) fun _ =>
        fails_ite (fun _ => fails_fail hp .unsupported) fun _ => ?_
      · exact (fails_values path field hp hk.2).bind fun xs _ =>
          (fails_unique hp xs).bind fun xs _ => fails_ok _
      · exact (fails_values path field hp hk.2).bind fun xs _ => fails_ok _
      · exact (fails_values path field hp hk.2).bind fun xs _ => fails_entries hp xs
      · have hread : Located K (below path read) := hp.below (.inl hk.1)
        exact (fails_value (below path read) field hread hk.2).bind fun x _ => fails_ok _
  | path, .object (f :: g :: fields), hp, hk => by
    rw [value]
    · exact (fails_existsHashName (f :: g :: fields)).bind fun found _ =>
        fails_ite (fun _ => fails_fail hp .unsupported) fun _ =>
          (fails_valueFields path (f :: g :: fields) hp hk).bind fun fs _ => fails_ok _
    · intro name field h
      cases h

/-- The items of a tagged form. -/
theorem fails_values :
    ∀ (path : UString) (j : JsonElement), Located K path → (∀ key ∈ keys j, K key) →
    Fails K (values path j)
  | path, .array items, hp, hk => fails_valuesFrom path 0 items hp hk
  | _, .null, hp, _ => fails_fail hp .tag
  | _, .boolean _, hp, _ => fails_fail hp .tag
  | _, .string _, hp, _ => fails_fail hp .tag
  | _, .number _, hp, _ => fails_fail hp .tag
  | _, .object _, hp, _ => fails_fail hp .tag

/-- Item by item, each under its position. -/
theorem fails_valuesFrom :
    ∀ (path : UString) (index : Nat) (items : List JsonElement), Located K path →
    (∀ key ∈ keysOfItems items, K key) → Fails K (valuesFrom path index items)
  | _, _, [], _, _ => fails_ok []
  | path, index, item :: items, hp, hk => by
    rw [keysOfItems, List.forall_mem_append] at hk
    rw [valuesFrom]
    exact (fails_value (below path (natText index)) item (hp.item index) hk.1).bind fun x _ =>
      (fails_valuesFrom path (index + 1) items hp hk.2).bind fun xs _ => fails_ok _

/-- Field by field, each under its key. -/
theorem fails_valueFields :
    ∀ (path : UString) (fields : List (UString × JsonElement)), Located K path →
    (∀ key ∈ keysOfFields fields, K key) → Fails K (valueFields path fields)
  | _, [], _, _ => fails_ok []
  | path, (name, field) :: fields, hp, hk => by
    rw [keysOfFields, List.forall_mem_cons, List.forall_mem_append] at hk
    rw [valueFields]
    refine (fails_propertyName name).bind fun read hread => ?_
    obtain rfl := eq_of_propertyName hread
    exact (fails_value (below path read) field (hp.below (.inl hk.1)) hk.2.1).bind fun x _ =>
      (fails_valueFields path fields hp hk.2.2).bind fun fs _ => fails_ok _

end

/-! ## Documents -/

/-- A member that is missing. -/
theorem fails_property {name : UString} (hn : K name ∨ 0x0A ∉ name) (el : JsonElement) :
    Fails K (property name el) := by
  refine (fails_tryGetProperty name el).bind fun found _ => ?_
  cases found with
  | some result => exact fails_ok result
  | none => exact fails_fail (located_root.below hn) .missing

/-- The member that is found has no keys but those of the object. -/
theorem keys_of_property {name : UString} {el result : JsonElement}
    (h : property name el = .ok result) :
    ∀ key ∈ keys result, key ∈ keys el := by
  obtain ⟨found, hfound, h⟩ := bind_eq_ok.mp h
  cases el with
  | object members =>
    cases found with
    | some member =>
      obtain rfl := Except.ok.inj h
      exact (mem_keysOfFields (lastMember_eq_some (Except.ok.inj hfound))).2
    | none => exact nomatch h
  | _ => exact nomatch hfound

/-- A key of the root that is not allowed is named in the path. -/
theorem fails_checkRootFields :
    ∀ fields : List (UString × JsonElement), (∀ key ∈ keysOfFields fields, K key) →
    Fails K (checkRootFields fields)
  | [], _ => fails_ok ()
  | (name, field) :: fields, hk => by
    rw [keysOfFields, List.forall_mem_cons, List.forall_mem_append] at hk
    rw [checkRootFields]
    refine (fails_propertyName name).bind fun read hread => ?_
    obtain rfl := eq_of_propertyName hread
    exact fails_ite (fun _ => fails_fail (located_root.below (.inl hk.1)) .rootField) fun _ =>
      fails_checkRootFields fields hk.2.2

/-- The metadata of the root. -/
theorem located_meta :
    Located K "$/#meta" := located_root.below (.inr (by decide : 0x0A ∉ lit "#meta"))

/-- The format that they name. -/
theorem located_format :
    Located K "$/#meta/format" := located_meta.below (.inr (by decide : 0x0A ∉ lit "format"))

/-- The variables. -/
theorem located_vars :
    Located K "$/vars" := located_root.below (.inr (by decide : 0x0A ∉ lit "vars"))

/-- The states. -/
theorem located_states :
    Located K "$/states" := located_root.below (.inr (by decide : 0x0A ∉ lit "states"))

/-- The metadata, whose format is not the one expected. -/
theorem fails_checkMetadata (root : JsonElement) : Fails K (checkMetadata root) := by
  refine (fails_tryGetProperty _ root).bind fun found _ => ?_
  cases found with
  | none => exact fails_ok ()
  | some metadata =>
    cases metadata with
    | object fields =>
      refine (fails_property (.inr (by decide)) (.object fields)).bind fun format _ => ?_
      cases format with
      | string s =>
        exact (fails_stringText s).bind fun text _ =>
          fails_ite (fun _ => fails_fail located_format .format) fun _ => fails_ok ()
      | _ => exact fails_fail located_format .format
    | _ => exact fails_fail located_meta .metadata

/-- A variable without a proper name. -/
theorem fails_variableName (el : JsonElement) : Fails K (variableName el) := by
  cases el with
  | string s =>
    exact (fails_stringText s).bind fun name _ =>
      fails_ite (fun _ => fails_fail located_vars .variableName) fun _ => fails_ok name
  | _ => exact fails_fail located_vars .variableName

/-- The list of the variables. -/
theorem fails_readVariables (vars : JsonElement) : Fails K (readVariables vars) := by
  cases vars with
  | array items =>
    exact (fails_mapM fun item _ => fails_variableName item).bind fun names _ =>
      fails_ite (fun _ => fails_fail located_vars .variables) fun _ => fails_ok names
  | _ => exact fails_fail located_vars .vars

/-- A state whose index is not its position. -/
theorem fails_checkIndex {path : UString} (hp : Located K path) (i : Nat) (s : JsonElement) :
    Fails K (checkIndex path i s) := by
  refine (fails_tryGetProperty _ s).bind fun found _ => ?_
  cases found with
  | none => exact fails_ok ()
  | some metadata =>
    exact (fails_property (.inr (by decide)) metadata).bind fun idx _ =>
      (fails_tryGetInt32 idx).bind fun found _ =>
      fails_ite (fun _ => fails_fail hp .index) fun _ => fails_ok ()

/-- **The reading of a state.** -/
theorem fails_readState (names : List UString) (i : Nat) (s : JsonElement)
    (hk : ∀ key ∈ keys s, K key) :
    Fails K (readState names i s) := by
  have hp : Located K (below (below "$" "states") (natText i)) :=
    Located.item (located_states (K := K)) i
  cases s with
  | object members =>
    refine (fails_propertyNames members).bind fun read hread =>
      fails_ite (fun _ => fails_fail hp .bindings) fun hsame => ?_
    refine (fails_checkIndex hp i (.object members)).bind fun _ _ => fails_mapM fun name hname => ?_
    -- every variable is a key of the state
    have hkey : K name := by
      rw [not_not, setOf_eq_iff] at hsame
      have hfield := (List.mem_filter.mp ((hsame name).mpr hname)).1
      rw [(propertyNames_eq_ok_iff.mp hread).2] at hfield
      obtain ⟨m, hm, rfl⟩ := List.mem_map.mp hfield
      exact hk m.1 (mem_keysOfFields hm).1
    exact (fails_property (.inl hkey) (.object members)).bind fun el hel =>
      (fails_value _ el (hp.below (.inl hkey)) fun key h =>
      hk key (keys_of_property hel key h)).bind
        fun x _ => fails_ok _
  | _ => exact fails_fail hp .state

/-- And of one state after another. -/
theorem fails_readStatesFrom (names : List UString) : ∀ (i : Nat) (items : List JsonElement),
    (∀ key ∈ keysOfItems items, K key) → Fails K (readStatesFrom names i items)
  | _, [], _ => fails_ok []
  | i, s :: states, hk => by
    rw [keysOfItems, List.forall_mem_append] at hk
    rw [readStatesFrom]
    exact (fails_readState names i s hk.1).bind fun bindings _ =>
      (fails_readStatesFrom names (i + 1) states hk.2).bind fun rest _ => fails_ok _

/-- The list of the states. -/
theorem fails_readStates (limits : ItfLimits) (names : List UString) (states : JsonElement)
    (hk : ∀ key ∈ keys states, K key) : Fails K (readStates limits names states) := by
  cases states with
  | array items =>
    exact fails_ite (fun _ => fails_fail located_states .states) fun _ =>
      fails_readStatesFrom names 0 items hk
  | _ => exact fails_fail located_states .states

/-- **The reading of a document.** -/
theorem fails_readDocument (limits : ItfLimits) (root : JsonElement)
    (hk : ∀ key ∈ keys root, K key) :
    Fails K (readDocument limits root) := by
  refine (fails_check _ root located_root hk).bind fun _ _ => ?_
  cases root with
  | object fields =>
    refine (fails_checkRootFields fields hk).bind fun _ _ =>
      (fails_checkMetadata (.object fields)).bind fun _ _ =>
      (fails_property (.inr (by decide)) (.object fields)).bind fun vars _ =>
      (fails_readVariables vars).bind fun names _ =>
      (fails_property (.inr (by decide)) (.object fields)).bind fun el hel => ?_
    exact (fails_readStates limits names el fun key h => hk key (keys_of_property hel key h)).bind
      fun states _ => fails_ok _
  | _ => exact fails_fail located_root .root

end Faults

/-! ## Reading -/

/-- A name occurs as a key in the document that the bytes hold. -/
def HasKey (limits : ItfLimits) (bytes : Option ByteArray) (key : UString) : Prop :=
  ∃ text root, bytes.bind Utf16.getString = some text ∧ parse limits.maxDepth.toNat text = some root ∧ key ∈ keys root

/-- **What `readUnguarded` raises**: an exception of a library, or that of a check at a place in the
    document. -/
theorem fails_readUnguarded (limits : ItfLimits) (bytes : Option ByteArray) :
    Fails (HasKey limits bytes) (readUnguarded limits bytes) := by
  refine fails_ite (fun _ => fails_fail located_root .limits) fun _ => ?_
  cases bytes with
  | none => exact fails_fail located_root .bytes
  | some bytes =>
    refine fails_ite (fun _ => fails_fail located_root .bytes) fun _ => ?_
    split
    · exact fun e he => .inl (by rw [← Except.error.inj he])
    · next json hjson =>
      split
      · exact fun e he => .inr (.inl (by rw [← Except.error.inj he]))
      · next root hroot => exact fails_readDocument limits root fun key hk =>
          ⟨json, root, hjson, hroot, hk⟩

/-- Every exception that escapes from `x` is of a kind that `read` catches. -/
def Caught {α : Type} (x : Outcome α) : Prop :=
  ∀ e, x = .error e → e.type.isArgument = true ∨ e.type = .json ∨ e.type = .invalidOperation

/-- **Whatever `read` raises is of a type that its handlers catch.** -/
theorem caught_readUnguarded (limits : ItfLimits) (bytes : Option ByteArray) :
    Caught (readUnguarded limits bytes) := by
  intro e he
  rcases fails_readUnguarded limits bytes e he with h | h | h | ⟨code, path, message, -, -, rfl⟩
  · exact .inl (by rw [h]; rfl)
  · exact .inr (.inl h)
  · exact .inr (.inr h)
  · exact .inl rfl

/-- And is answered with a finding. -/
theorem caught_isSome {e : Exn}
    (h : e.type.isArgument = true ∨ e.type = .json ∨ e.type = .invalidOperation) :
    ∃ finding, caught e = some finding := by
  unfold caught
  by_cases ha : e.type.isArgument = true
  · rw [if_pos ha]
    split
    · exact ⟨_, rfl⟩
    · exact ⟨_, rfl⟩
  · rw [if_neg ha]
    rcases h.resolve_left ha with hj | ho
    · rw [if_pos hj]
      exact ⟨_, rfl⟩
    · rw [if_neg (by rw [ho]; decide), if_pos ho]
      exact ⟨_, rfl⟩

/-- **`read` answers on every input**, whatever the limits. -/
theorem read_answers (limits : ItfLimits) (bytes : Option ByteArray) :
    Outcome.Answers (read limits bytes) := by
  have hcaught := caught_readUnguarded limits bytes
  rw [read]
  cases hread : readUnguarded limits bytes with
  | ok document => exact ⟨_, rfl⟩
  | error e =>
    obtain ⟨finding, hfinding⟩ := caught_isSome (hcaught e hread)
    simp only [hfinding]
    exact ⟨_, rfl⟩

end FsQuint.Itf
