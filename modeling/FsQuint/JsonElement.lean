/-
  The document object model of `System.Text.Json`, as far as the code uses it.

  A member that does not apply to the kind of an element raises an `InvalidOperationException`;
  so does the text of a string, or of a property name, whose escapes form an unpaired surrogate.
  Where an object repeats a name, `tryGetProperty` finds the last of its members.
-/
import FsQuint.Lib.Json
import FsQuint.ReplayTypes

namespace FsQuint

open Utf16 Collections Decimal Json

/-- An element was asked for something its kind does not have. -/
def wrongKind : Exn :=
  ⟨.invalidOperation, "The requested operation requires an element of a different type."⟩

/-- An escaped string is not valid UTF-16. -/
def invalidUtf16 : Exn :=
  ⟨.invalidOperation, "Cannot read incomplete UTF-16 JSON text as string with missing low surrogate."⟩

/-- The text of a string element, which is never null. -/
def stringText (s : UString) : Outcome UString :=
  if validUnicode s then .ok s else .error invalidUtf16

/-- `JsonElement.GetString`; the text of the null element is null. -/
def getString : JsonElement → Outcome NString
  | .string s => do return some (← stringText s)
  | .null => .ok none
  | _ => .error wrongKind

/-- `JsonProperty.Name`. -/
def propertyName (name : UString) : Outcome UString :=
  if validUnicode name then .ok name else .error invalidUtf16

/-- The names of some members, in order. -/
def propertyNames (members : List (UString × JsonElement)) : Outcome (List UString) :=
  members.mapM fun member => propertyName member.1

/-- Whether a member has a name that starts with `#`; names after the first such are not read. -/
def existsHashName (members : List (UString × JsonElement)) : Outcome Bool :=
  members.anyM fun member => do return startsWithHash (← propertyName member.1)

/-- The last member of a given name. -/
def lastMember (name : UString) (members : List (UString × JsonElement)) : Option JsonElement :=
  (members.reverse.find? fun member => member.1 = name).map Prod.snd

/-- `JsonElement.TryGetProperty`. -/
def tryGetProperty (name : UString) : JsonElement → Outcome (Option JsonElement)
  | .object members => .ok (lastMember name members)
  | _ => .error wrongKind

/-- The value of a number token that is a plain integer between two bounds. -/
def integerWithin (low high : Int) : JsonElement → Outcome (Option Int)
  | .number raw => .ok ((parseInteger raw).filter fun n => decide (low ≤ n) && decide (n ≤ high))
  | _ => .error wrongKind

/-- `JsonElement.TryGetInt32`. -/
def tryGetInt32 : JsonElement → Outcome (Option Int) := integerWithin (-2 ^ 31) (2 ^ 31 - 1)

/-- `JsonElement.TryGetInt64`. -/
def tryGetInt64 : JsonElement → Outcome (Option Int) := integerWithin (-2 ^ 63) (2 ^ 63 - 1)

/-! ## Strings that can be read -/

/-- The text of a well-formed string is the string. -/
theorem stringText_eq {s : UString} (h : validUnicode s = true) : stringText s = .ok s := if_pos h

/-- And so is a well-formed name. -/
theorem propertyName_eq {name : UString} (h : validUnicode name = true) :
    propertyName name = .ok name := if_pos h

/-- Reading a string, followed by something else. -/
theorem stringText_bind_eq_ok {α : Type} {s : UString} {f : UString → Outcome α} {a : α} :
    (stringText s >>= f) = .ok a ↔ validUnicode s = true ∧ f s = .ok a := by
  by_cases h : validUnicode s = true
  · rw [stringText_eq h, ok_bind]
    exact ⟨fun hf => ⟨h, hf⟩, fun hf => hf.2⟩
  · rw [stringText, if_neg h, error_bind]
    exact ⟨(nomatch ·), fun hf => absurd hf.1 h⟩

/-- Reading a name, followed by something else. -/
theorem propertyName_bind_eq_ok {α : Type} {name : UString} {f : UString → Outcome α} {a : α} :
    (propertyName name >>= f) = .ok a ↔ validUnicode name = true ∧ f name = .ok a :=
      stringText_bind_eq_ok

/-! ## What the members of an object are -/

/-- What is found under a name is a member of that name. -/
theorem lastMember_eq_some {name : UString} {members : List (UString × JsonElement)}
    {v : JsonElement} (h : lastMember name members = some v) : (name, v) ∈ members := by
  obtain ⟨m, hm, rfl⟩ := Option.map_eq_some_iff.mp h
  have hname := List.find?_some hm
  rw [decide_eq_true_eq] at hname
  rw [← hname]
  exact List.mem_reverse.mp (List.mem_of_find?_eq_some hm)

/-- Nothing is found exactly when no member has the name. -/
theorem lastMember_eq_none {name : UString} {members : List (UString × JsonElement)} :
    lastMember name members = none ↔ name ∉ members.map Prod.fst := by
  simp only [lastMember, Option.map_eq_none_iff, List.find?_eq_none, List.mem_reverse,
    decide_eq_true_eq, List.mem_map, not_exists, not_and]

/-- Where no name is repeated, the member found is the only one of its name. -/
theorem lastMember_of_mem {name : UString} {members : List (UString × JsonElement)}
    {v : JsonElement} (hn : (members.map Prod.fst).Nodup) (h : (name, v) ∈ members) :
    lastMember name members = some v := by
  cases hl : lastMember name members with
  | none => exact absurd (List.mem_map_of_mem h) (lastMember_eq_none.mp hl)
  | some w =>
    have := List.inj_on_of_nodup_map hn (lastMember_eq_some hl) h rfl
    rw [(Prod.mk.inj this).2]

/-- Where no name is repeated, what holds of the member found holds of every member of its name. -/
theorem forall_member_iff {name : UString} {members : List (UString × JsonElement)}
    {el : JsonElement} {P : JsonElement → Prop} (hn : (members.map Prod.fst).Nodup)
    (h : lastMember name members = some el) :
    (∀ m, (name, m) ∈ members → P m) ↔ P el := by
  constructor
  · intro hall
    exact hall el (lastMember_eq_some h)
  · intro hel m hm
    rw [lastMember_of_mem hn hm] at h
    rwa [Option.some.inj h]

/-- A check of the member of a name, where there may be none. -/
theorem check_member_iff {name : UString} {members : List (UString × JsonElement)} {Q : Prop}
    {P : JsonElement → Prop} (hn : (members.map Prod.fst).Nodup)
    (hnone : lastMember name members = none → Q)
    (hsome : ∀ el, lastMember name members = some el → (Q ↔ P el)) :
    Q ↔ ∀ el, (name, el) ∈ members → P el := by
  cases hl : lastMember name members with
  | none =>
    have habsent := lastMember_eq_none.mp hl
    exact ⟨fun _ el h => absurd (List.mem_map_of_mem h) habsent, fun _ => hnone hl⟩
  | some el => rw [forall_member_iff hn hl, hsome el hl]

/-- Names that are all well formed are read without an exception. -/
theorem propertyNames_eq {members : List (UString × JsonElement)}
    (h : ∀ m ∈ members, validUnicode m.1 = true) :
    propertyNames members = .ok (members.map Prod.fst) := by
  induction members with
  | nil => rfl
  | cons m members ih =>
    have hm : propertyName m.1 = .ok m.1 := if_pos (h m List.mem_cons_self)
    rw [propertyNames, List.mapM_cons, hm]
    show (propertyNames members >>= _) = _
    rw [ih fun m hm => h m (List.mem_cons_of_mem _ hm)]
    rfl

/-- The names of the members are listed when all of them are well-formed. -/
theorem propertyNames_eq_ok_iff {members : List (UString × JsonElement)} {names : List UString} :
    propertyNames members = .ok names ↔ (∀ m ∈ members, validUnicode m.1 = true) ∧
      names = members.map Prod.fst := by
  constructor
  · intro h
    have hvalid : ∀ m ∈ members, validUnicode m.1 = true := by
      intro m hm
      obtain ⟨n, _, hn⟩ := forall₂_mem_left (mapM_eq_ok_iff.mp h) m hm
      exact (propertyName_bind_eq_ok.mp (bind_eq_ok.mpr ⟨n, hn, rfl⟩)).1
    rw [propertyNames_eq hvalid] at h
    exact ⟨hvalid, (Except.ok.inj h).symm⟩
  · rintro ⟨hvalid, rfl⟩
    exact propertyNames_eq hvalid

/-- The search for a name that starts with `#` stops at the first that does. -/
theorem existsHashName_cons (m : UString × JsonElement) (members : List (UString × JsonElement)) :
    existsHashName (m :: members) =
      (propertyName m.1 >>= fun name => if startsWithHash name then pure true else existsHashName
        members) := by
  rw [existsHashName, List.anyM]
  by_cases hm : validUnicode m.1 = true
  · rw [propertyName_eq hm]
    simp only [ok_bind]
    show (match startsWithHash m.1 with | true => _ | false => _) = _
    cases startsWithHash m.1 with
    | true => rfl
    | false => rfl
  · rw [propertyName, if_neg hm]
    rfl

/-- No name starts with `#`, once all names have been read. -/
theorem existsHashName_eq_false_iff : ∀ {members : List (UString × JsonElement)},
    existsHashName members = .ok false ↔ ∀ m ∈ members, validUnicode m.1 = true ∧
      startsWithHash m.1 = false
  | [] => by
    simp only [List.not_mem_nil, false_implies, implies_true, iff_true]
    rfl
  | m :: members => by
    rw [existsHashName_cons, propertyName_bind_eq_ok, List.forall_mem_cons, and_assoc]
    refine and_congr_right fun hm => ?_
    cases hh : startsWithHash m.1 with
    | true => exact ⟨(nomatch ·), (nomatch ·.1)⟩
    | false =>
      rw [if_neg (by decide), existsHashName_eq_false_iff]
      exact ⟨fun h => ⟨rfl, h⟩, fun h => h.2⟩

end FsQuint
