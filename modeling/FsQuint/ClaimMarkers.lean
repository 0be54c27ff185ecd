/-
  The markers in a body: what is read from them, and what is not.

  1. **Fields** (`field_stopsAt`): they are read between blanks, one by one; a key is letters up to an equals
     sign, and a value goes on to the next blank.
  2. **Markers** (`findAuthorizations_written`): a marker is found wherever it is written, with whatever blanks
     around its name, and read up to its end, if no other comment opens around it.
  3. **What counts** (`unread_field`): only the required fields do.  Others may stand anywhere among them, so
     that a marker can be extended without changing any verdict.
-/
import FsQuint.GateVerdicts

namespace FsQuint

open Scan

namespace ClaimGeneration

variable {c : Char} {s t rest : Text} {p : Char → Bool}

/-! ## Fields -/

/-- What is taken up to a character that stops it. -/
theorem takeWhile_stop (h : p c = false) : (s ++ c :: t).takeWhile p = s.takeWhile p := by
  induction s with
  | nil => simp [h]
  | cons d s ih =>
    rw [List.cons_append, List.takeWhile_cons, List.takeWhile_cons, ih]

/-- And what is left then. -/
theorem dropWhile_stop (h : p c = false) : (s ++ c :: t).dropWhile p = s.dropWhile p ++ c :: t := by
  induction s with
  | nil => simp [h]
  | cons d s ih =>
    rw [List.cons_append, List.dropWhile_cons, List.dropWhile_cons, ih]
    split <;> rfl

/-- Blanks are no letters. -/
theorem isLetter_of_isSpace (h : isSpace c = true) : isLetter c = false := by
  rw [Bool.eq_false_iff]
  intro hletter
  simp only [isLetter, Bool.or_eq_true, Bool.and_eq_true, decide_eq_true_eq, Char.le_def,
    UInt32.le_iff_toNat_le] at hletter
  have ha : ('a' : Char).val.toNat = 97 := rfl
  have hz : ('z' : Char).val.toNat = 122 := rfl
  have hA : ('A' : Char).val.toNat = 65 := rfl
  have hZ : ('Z' : Char).val.toNat = 90 := rfl
  have hc : c.toNat = c.val.toNat := rfl
  simp only [isSpace, Bool.or_eq_true, Bool.and_eq_true, decide_eq_true_eq] at h
  omega

/-- A field has a key, an equals sign and a value. -/
theorem field_equals {text : Text} (h : text.dropWhile isLetter = '=' :: rest) : field text =
    if key text ≠ [] ∧ value rest ≠ [] then some ((key text, value rest), rest.dropWhile fun c => !isSpace c)
    else none := by
  rw [field, h]
  rfl

/-- Without the sign there is none. -/
theorem field_other {text : Text} (h : ∀ rest, text.dropWhile isLetter ≠ '=' :: rest) : field text = none := by
  rw [field]
  split
  · next rest heq => exact absurd heq (h rest)
  · rfl

/-- What stands behind a blank makes no difference to a field before it. -/
theorem field_append (hc : isSpace c = true) :
    field (s ++ c :: t) = (field s).map fun found => (found.1, found.2 ++ c :: t) := by
  have hdrop : (s ++ c :: t).dropWhile isLetter = s.dropWhile isLetter ++ c :: t :=
    dropWhile_stop (isLetter_of_isSpace hc)
  by_cases hequals : ∃ rest, s.dropWhile isLetter = '=' :: rest
  · obtain ⟨rest, hequals⟩ := hequals
    have hnot : (!isSpace c) = false := by rw [hc]; rfl
    have hkey : key (s ++ c :: t) = key s := takeWhile_stop (isLetter_of_isSpace hc)
    have hvalue : value (rest ++ c :: t) = value rest := takeWhile_stop hnot
    have hlonger : (s ++ c :: t).dropWhile isLetter = '=' :: (rest ++ c :: t) := by rw [hdrop, hequals]; rfl
    rw [field_equals hequals, field_equals hlonger, hkey, hvalue, dropWhile_stop hnot]
    split
    · rfl
    · rfl
  · -- the sign is not behind the blank either
    have hlonger : ∀ rest, (s ++ c :: t).dropWhile isLetter ≠ '=' :: rest := by
      intro rest heq
      rw [hdrop] at heq
      cases hs : s.dropWhile isLetter with
      | nil =>
        rw [hs] at heq
        rw [(List.cons.inj heq).1] at hc
        exact absurd hc (by decide)
      | cons d rest' =>
        rw [hs] at heq
        exact hequals ⟨rest', by rw [hs, (List.cons.inj heq).1]⟩
    rw [field_other fun rest h => hequals ⟨rest, h⟩, field_other hlonger]
    rfl

/-- A field has at least one letter, and the sign comes after it. -/
theorem field_shrinks {d : Char} {found : Text × Text} (h : field (d :: s) = some (found, rest)) : rest <:+ s := by
  by_cases hequals : ∃ rest', (d :: s).dropWhile isLetter = '=' :: rest'
  · obtain ⟨rest', hequals⟩ := hequals
    rw [field_equals hequals] at h
    split at h
    · next hboth =>
      have hrest : rest = rest'.dropWhile fun c => !isSpace c := (Prod.mk.inj (Option.some.inj h)).2.symm
      rw [hrest]
      refine (List.dropWhile_suffix _).trans ?_
      have hsuffix : '=' :: rest' <:+ d :: s := hequals ▸ List.dropWhile_suffix isLetter
      rcases List.suffix_cons_iff.mp hsuffix with hsame | hsuffix
      · rw [key, ← hsame] at hboth
        exact absurd rfl hboth.1
      · exact (List.suffix_cons '=' rest').trans hsuffix
    · exact absurd h (by simp)
  · rw [field_other fun rest' h' => hequals ⟨rest', h'⟩] at h
    exact absurd h (by simp)

/-- No field reaches over a blank. -/
theorem field_stopsAt (hc : isSpace c = true) : StopsAt field c where
  empty := rfl
  shrinks := field_shrinks
  miss := by
    intro s t h
    rw [field_append hc, h]
    rfl
  hit := by
    intro s t b rest h
    rw [field_append hc, h]
    rfl

/-- A field that is written is read. -/
theorem field_written {k v : Text} (hk : k ≠ []) (hkey : ∀ c ∈ k, isLetter c = true) (hv : v ≠ [])
    (hvalue : ∀ c ∈ v, isSpace c = false) : finditer field (k ++ '=' :: v) = [(k, v)] := by
  have hequals : isLetter '=' = false := by decide
  have hdrop : (k ++ '=' :: v).dropWhile isLetter = '=' :: v := by
    rw [dropWhile_stop hequals, List.dropWhile_eq_nil_iff.mpr hkey, List.nil_append]
  have hkeyRead : key (k ++ '=' :: v) = k := (takeWhile_stop hequals).trans (List.takeWhile_eq_self_iff.mpr hkey)
  have hnot : ∀ c ∈ v, (!isSpace c) = true := fun c hc => by rw [hvalue c hc]; rfl
  have hvalueRead : value v = v := List.takeWhile_eq_self_iff.mpr hnot
  have hread : field (k ++ '=' :: v) = some ((k, v), []) := by
    rw [field_equals hdrop, hkeyRead, hvalueRead, if_pos ⟨hk, hv⟩, List.dropWhile_eq_nil_iff.mpr hnot]
  obtain ⟨d, s, rfl⟩ := List.exists_cons_of_ne_nil hk
  rw [List.cons_append] at hread ⊢
  rw [finditer_cons_some hread (List.nil_suffix), finditer_nil]

/-- Blanks in front change nothing. -/
theorem fieldsOf_dropWhile {text : Text} : fieldsOf (text.dropWhile isSpace) = fieldsOf text := by
  induction text with
  | nil => rfl
  | cons c text ih =>
    by_cases hc : isSpace c = true
    · have hskip : finditer field (c :: text) = finditer field text := finditer_append (s := []) (field_stopsAt hc)
      rw [List.dropWhile_cons_of_pos hc, ih, fieldsOf, fieldsOf, hskip]
    · rw [List.dropWhile_cons_of_neg hc]

/-! ## Markers -/

/-- A marker as it is written, around its fields: with blanks before its name, and others behind it. -/
def written (lead gap inner : Text) : Text := "<!--" ++ lead ++ authorizationName ++ gap ++ inner ++ "-->"

/-- Only blanks. -/
def Blank (text : Text) : Prop := ∀ c ∈ text, isSpace c = true

/-- A comment opens in a text. -/
def Opens (text : Text) : Prop := "<!--".toList <:+: text

/-- A comment ends in a text. -/
def Closes (text : Text) : Prop := "-->".toList <:+: text

/-- The first end of a comment is the end of the marker. -/
theorem dropInfix_closing {text behind : Text} (h : ¬ Closes text) :
    (text ++ "-->".toList ++ behind).dropInfix? "-->".toList = some (text, behind) := by
  refine List.dropInfix?_eq_some_iff.mpr ⟨⟨"-->".toList, rfl, beq_self_eq_true _⟩, fun p i s hsame hi => ?_⟩
  rw [eq_of_beq hi, List.append_assoc, List.append_assoc] at hsame
  -- an end before that one would be in the text, for the two do not overlap
  rcases List.append_eq_append_iff.mp hsame with ⟨w, hp, -⟩ | ⟨w, htext, hrest⟩
  · rw [hp, List.length_append]
    omega
  · rcases w with _ | ⟨a, _ | ⟨b, _ | ⟨c, w⟩⟩⟩
    · rw [htext, List.append_nil]
    · exact absurd (List.cons.inj (List.cons.inj (List.cons.inj hrest).2).2).1 (by decide)
    · exact absurd (List.cons.inj (List.cons.inj (List.cons.inj hrest).2).2).1 (by decide)
    · obtain ⟨ha, hrest⟩ := List.cons.inj hrest
      obtain ⟨hb, hrest⟩ := List.cons.inj hrest
      obtain ⟨hc, -⟩ := List.cons.inj hrest
      rw [← ha, ← hb, ← hc] at htext
      exact absurd ⟨p, w, by rw [htext, List.append_assoc]; rfl⟩ h

/-- No end of a comment reaches over a blank. -/
theorem not_closes (hc : isSpace c = true) (hs : ¬ Closes s) (ht : ¬ Closes t) : ¬ Closes (s ++ c :: t) := by
  intro h
  have hmem : c ∉ "-->".toList := by
    intro hmem
    rcases List.mem_cons.mp hmem with rfl | hmem
    · exact absurd hc (by decide)
    · rcases List.mem_cons.mp hmem with rfl | hmem
      · exact absurd hc (by decide)
      · rw [List.mem_singleton.mp hmem] at hc
        exact absurd hc (by decide)
  rcases infix_append_cons (by decide) hmem h with h | h
  · exact hs h
  · exact ht h

/-- A marker begins a comment. -/
theorem marker_none {name : String} {text : Text} (h : ¬ "<!--".toList <+: text) : marker name text = none := by
  cases hafter : after "<!--" text with
  | none => rw [marker, hafter]; rfl
  | some rest => exact absurd ⟨rest, (after_eq_some hafter).symm⟩ h

/-- No comment that opens where none does goes on in one that follows. -/
theorem not_opening {text : Text} (h : ¬ Opens s) (hs : s ≠ []) : ¬ "<!--".toList <+: s ++ '<' :: text := by
  rintro ⟨rest, hsame⟩
  rcases s with _ | ⟨a, _ | ⟨b, _ | ⟨c, _ | ⟨d, s⟩⟩⟩⟩
  · exact hs rfl
  · exact absurd (List.cons.inj (List.cons.inj hsame).2).1 (by decide)
  · exact absurd (List.cons.inj (List.cons.inj (List.cons.inj hsame).2).2).1 (by decide)
  · exact absurd (List.cons.inj (List.cons.inj (List.cons.inj (List.cons.inj hsame).2).2).2).1 (by decide)
  · obtain ⟨ha, hsame⟩ := List.cons.inj hsame
    obtain ⟨hb, hsame⟩ := List.cons.inj hsame
    obtain ⟨hc, hsame⟩ := List.cons.inj hsame
    obtain ⟨hd, -⟩ := List.cons.inj hsame
    refine h ⟨[], s, ?_⟩
    rw [← ha, ← hb, ← hc, ← hd]
    rfl

/-- What is written, with what comes behind it. -/
theorem written_append {lead gap inner behind : Text} : written lead gap inner ++ behind =
    "<!--".toList ++ (lead ++ (authorizationName.toList ++ (gap ++ (inner ++ "-->".toList ++ behind)))) := by
  have hwritten : written lead gap inner =
      "<!--".toList ++ lead ++ authorizationName.toList ++ gap ++ inner ++ "-->".toList := rfl
  rw [hwritten]
  simp only [List.append_assoc]

/-- Blanks are passed over. -/
theorem Blank.dropWhile {blanks text : Text} (h : Blank blanks) :
    (blanks ++ text).dropWhile isSpace = text.dropWhile isSpace := by
  rw [List.dropWhile_append_of_pos h]

/-- The name is no blank. -/
theorem dropWhile_authorizationName {text : Text} :
    (authorizationName.toList ++ text).dropWhile isSpace = authorizationName.toList ++ text := by
  have hname : authorizationName.toList = 'f' :: "sgg:pr-authorization".toList := by decide
  rw [hname, List.cons_append, List.dropWhile_cons_of_neg (by decide)]

/-- A marker is read as it was written, whatever its blanks are. -/
theorem marker_written {lead gap inner behind : Text} (hlead : Blank lead) (hgap : Blank gap) (hne : gap ≠ [])
    (h : ¬ Closes inner) :
    marker authorizationName (written lead gap inner ++ behind) = some (inner.dropWhile isSpace, behind) := by
  have hopened : after "<!--" (written lead gap inner ++ behind) =
      some (lead ++ (authorizationName.toList ++ (gap ++ (inner ++ "-->".toList ++ behind)))) := by
    rw [written_append]
    exact List.dropPrefix?_append_of_beq _ (beq_self_eq_true _)
  have hnamed : after authorizationName (authorizationName.toList ++ (gap ++ (inner ++ "-->".toList ++ behind))) =
      some (gap ++ (inner ++ "-->".toList ++ behind)) :=
    List.dropPrefix?_append_of_beq _ (beq_self_eq_true _)
  have hinner : (gap ++ (inner ++ "-->".toList ++ behind)).dropWhile isSpace =
      inner.dropWhile isSpace ++ "-->".toList ++ behind := by
    rw [hgap.dropWhile, List.append_assoc, List.append_assoc]
    exact dropWhile_stop (by decide)
  have hcloses : ¬ Closes (inner.dropWhile isSpace) := fun hin => h (hin.trans (List.dropWhile_suffix isSpace).isInfix)
  have hblank : (gap ++ (inner ++ "-->".toList ++ behind)).head?.any isSpace = true := by
    obtain ⟨c, rest, rfl⟩ := List.exists_cons_of_ne_nil hne
    exact hgap c List.mem_cons_self
  rw [marker, hopened]
  simp only [Option.bind_eq_bind, Option.bind_some, hlead.dropWhile, dropWhile_authorizationName, hnamed, hblank,
    if_true, hinner]
  exact dropInfix_closing hcloses

/-- **A marker that is written is read**, wherever it stands in a body in which no other comment opens. -/
theorem findAuthorizations_written {before behind lead gap inner : Text} (hlead : Blank lead) (hgap : Blank gap)
    (hne : gap ≠ []) (hbefore : ¬ Opens before) (hinner : ¬ Closes inner) (hbehind : ¬ Opens behind) :
    findAuthorizations (before ++ (written lead gap inner ++ behind)) = [fieldsOf inner] := by
  have hshape : ∃ tail, written lead gap inner ++ behind = '<' :: (tail ++ behind) :=
    ⟨(written lead gap inner).tail, rfl⟩
  obtain ⟨tail, hshape⟩ := hshape
  have hread : marker authorizationName (written lead gap inner ++ behind) = some (inner.dropWhile isSpace, behind) :=
    marker_written hlead hgap hne hinner
  rw [hshape] at hread
  have hnothing : finditer (marker authorizationName) behind = [] := by
    rw [← List.append_nil behind, finditer_skip, finditer_nil]
    intro x hx _
    rw [List.append_nil]
    exact marker_none fun hopens => hbehind (hopens.isInfix.trans hx.isInfix)
  rw [findAuthorizations, hshape, finditer_skip, finditer_cons_some hread (List.suffix_append tail behind), hnothing,
    List.map_singleton, fieldsOf_dropWhile]
  intro x hx hne
  exact marker_none (not_opening (fun hopens => hbefore (hopens.trans hx.isInfix)) hne)

/-! ## Fields that do not count -/

/-- A field that is read again is replaced. -/
theorem get_store {fields : Fields} {f : Text × Text} {name : String} :
    Fields.get (Table.store Prod.fst f fields) name = if name.toList = f.1 then some f.2 else fields.get name := by
  rw [Fields.get, Table.lookup_store]
  split
  · rfl
  · rfl

/-- What is looked up in the fields depends on what was there under its name. -/
theorem get_foldl_congr {found : List (Text × Text)} {fields fields' : Fields} {name : String}
    (h : fields.get name = fields'.get name) :
    Fields.get (found.foldl (fun fields f => Table.store Prod.fst f fields) fields) name =
      Fields.get (found.foldl (fun fields f => Table.store Prod.fst f fields) fields') name := by
  induction found generalizing fields fields' with
  | nil => exact h
  | cons f found ih =>
    refine ih ?_
    rw [get_store, get_store, h]

/-- A field makes no difference to those with another key. -/
theorem get_insert {k v front rest : Text} {c d : Char} {name : String} (hk : k ≠ [])
    (hkey : ∀ c ∈ k, isLetter c = true) (hv : v ≠ []) (hvalue : ∀ c ∈ v, isSpace c = false) (hc : isSpace c = true)
    (hd : isSpace d = true) (hname : name.toList ≠ k) :
    (fieldsOf (front ++ c :: (k ++ '=' :: v ++ d :: rest))).get name = (fieldsOf (front ++ c :: rest)).get name := by
  rw [fieldsOf, fieldsOf, finditer_append (field_stopsAt hc), finditer_append (field_stopsAt hc),
    finditer_append (field_stopsAt hd), field_written hk hkey hv hvalue, List.singleton_append, List.foldl_append,
    List.foldl_append, List.foldl_cons]
  refine get_foldl_congr ?_
  rw [get_store, if_neg hname]

/-- **The verdict looks at the required fields.** -/
theorem classifyFields_congr {args : ItemArgs} {fields fields' : Fields}
    (h : ∀ name ∈ requiredFields, fields.get name = fields'.get name) :
    classifyFields args fields = classifyFields args fields' := by
  have hmissing : (requiredFields.filter fun name => (fields.get name).isNone) =
      requiredFields.filter fun name => (fields'.get name).isNone :=
    List.filter_congr fun name hname => by rw [h name hname]
  unfold classifyFields
  rw [h "v" (by decide), h "item" (by decide), h "gen" (by decide), h "head" (by decide), hmissing]

/-- **Only the required fields count**: any other field, anywhere in the marker of a body, changes no verdict. -/
theorem unread_field {args : ItemArgs} {runtime : Runtime} {github : GitHub}
    {before behind lead gap front rest k v : Text} {c d : Char} (hlead : Blank lead) (hgap : Blank gap) (hne : gap ≠ [])
    (hbefore : ¬ Opens before) (hbehind : ¬ Opens behind) (hfront : ¬ Closes front) (hrest : ¬ Closes rest)
    (hc : isSpace c = true) (hd : isSpace d = true) (hk : k ≠ []) (hkey : ∀ c ∈ k, isLetter c = true) (hv : v ≠ [])
    (hvalue : ∀ c ∈ v, isSpace c = false) (hclosed : ¬ Closes (k ++ '=' :: v))
    (hother : ∀ name ∈ requiredFields, name.toList ≠ k) :
    classify args runtime (before ++ (written lead gap (front ++ c :: (k ++ '=' :: v ++ d :: rest)) ++ behind)) github =
      classify args runtime (before ++ (written lead gap (front ++ c :: rest) ++ behind)) github := by
  have hshort : ¬ Closes (front ++ c :: rest) := not_closes hc hfront hrest
  have hlong : ¬ Closes (front ++ c :: (k ++ '=' :: v ++ d :: rest)) :=
    not_closes hc hfront (not_closes hd hclosed hrest)
  have hsame :
      classifyBody args (before ++ (written lead gap (front ++ c :: (k ++ '=' :: v ++ d :: rest)) ++ behind)) =
        classifyBody args (before ++ (written lead gap (front ++ c :: rest) ++ behind)) := by
    rw [classifyBody, classifyBody, findAuthorizations_written hlead hgap hne hbefore hlong hbehind,
      findAuthorizations_written hlead hgap hne hbefore hshort hbehind]
    exact classifyFields_congr fun name hname => get_insert hk hkey hv hvalue hc hd (hother name hname)
  rw [classify, classify, hsame]

/-- The required fields of the sample. -/
def sampleRest : Text := "gen=12 item=o/r#7 head=" ++ sampleHead

/-- A note among them changes nothing. -/
theorem unread_field_sample :
    classify sampleArgs sampleRuntime
      ("Part of #7. ".toList ++
        (written "\n".toList "\t ".toList
          ("v=1".toList ++ ' ' :: ("note".toList ++ '=' :: "x".toList ++ ' ' :: sampleRest)) ++ []))
      (sampleGitHub sampleOut 1010) = .ok (none, some (.held sampleWinner)) := by
  have hshort : classify sampleArgs sampleRuntime
      ("Part of #7. ".toList ++ (written "\n".toList "\t ".toList ("v=1".toList ++ ' ' :: sampleRest) ++ []))
      (sampleGitHub sampleOut 1010) = .ok (none, some (.held sampleWinner)) := by
    have hgen : classifyBody sampleArgs
        ("Part of #7. ".toList ++ (written "\n".toList "\t ".toList ("v=1".toList ++ ' ' :: sampleRest) ++ [])) =
        .ok (decimalInt 12) := by decide +kernel
    exact (sample_shows rfl).classify hgen sample_state.1
  have hkey : "note".toList.all isLetter = true := by decide
  have hvalue : "x".toList.all (fun c => !isSpace c) = true := by decide
  have hletters := List.all_eq_true.mp hkey
  have hblanks : ∀ c ∈ "x".toList, isSpace c = false := fun c hc => by simpa using List.all_eq_true.mp hvalue c hc
  have hlead : Blank "\n".toList := List.all_eq_true.mp (by decide)
  have hgap : Blank "\t ".toList := List.all_eq_true.mp (by decide)
  refine (unread_field hlead hgap (by decide) ?_ ?_ ?_ ?_ (by decide) (by decide) (by decide) hletters (by decide)
    hblanks ?_ (by decide)).trans hshort
  · unfold Opens
    decide +kernel
  · unfold Opens
    decide +kernel
  · unfold Closes
    decide +kernel
  · unfold Closes
    decide +kernel
  · unfold Closes
    decide +kernel

end ClaimGeneration

end FsQuint
