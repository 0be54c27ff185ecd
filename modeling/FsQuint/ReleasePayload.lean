/-
  The two comparisons of release archives.

  1. **What an archive delivers** (`SamePayload`): the names of its members and the digests under
     them, the package signature apart.
  2. **What `inspect` accepts** (`inspect_eq_ok_iff`): whether it does is a matter of the entries one
     by one and of distinct names, so their order does not matter (`inspect_of_perm`); the list that
     comes back is sorted by distinct names.
  3. **A readback that passes has read one payload from all feeds** (`readFeeds_samePayload`), by a step
     lemma for one feed and induction on the feeds.
  4. **Both comparisons decide the same relation** (`comparisons_agree`): lookups by name find what the
     equality of two such lists compares.
-/
import Mathlib.Logic.Relation
import FsQuint.ArchiveFingerprint
import FsQuint.Lib.Sha256

namespace FsQuint.ArchiveFingerprint

open Utf16 Collections ReplayInternal Readback

/-! ## Entries -/

/-- What `inspect` asks of the entries of an archive. -/
structure Inspectable (entries : List Entry) : Prop where
  safe : ∀ e ∈ entries, safeMemberName e.fullName = true
  noSymlink : ∀ e ∈ entries, isSymlink e = false
  names : (entries.map Entry.fullName).Nodup
  aliases : (entries.map fun e => asciiFold e.fullName).Nodup
  payload : ∃ e ∈ entries, e.fullName ≠ signature ∧ endsWithSlash e.fullName = false

/-- The entries that count. -/
def payloadEntries (entries : List Entry) : List Entry := entries.filter (·.fullName ≠ signature)

/-- The payload is every entry but the signature. -/
theorem mem_payloadEntries {entries : List Entry} {e : Entry} :
    e ∈ payloadEntries entries ↔ e ∈ entries ∧ e.fullName ≠ signature := by
  rw [payloadEntries, List.mem_filter, decide_eq_true_eq]

/-- An entry has the given name and content. -/
def Delivers (entries : List Entry) (name : UString) (content : ByteArray) : Prop :=
  ∃ e ∈ entries, e.fullName = name ∧ e.content = content

variable (hashData : ByteArray → Vector UInt8 32)

/-- The same names, with the same digests under them, the signature apart. -/
structure SamePayload (qualified served : List Entry) : Prop where
  names : ∀ name, name ≠ signature →
    ((∃ content, Delivers qualified name content) ↔ ∃ content, Delivers served name content)
  digests : ∀ name, name ≠ signature → ∀ content content', Delivers qualified name content →
    Delivers served name content' → hashData content = hashData content'

variable {hashData}

/-- Having the same payload is symmetric. -/
theorem SamePayload.symm {xs ys : List Entry} (h : SamePayload hashData xs ys) :
    SamePayload hashData ys xs where
  names name hname := (h.names name hname).symm
  digests name hname content content' hy hx := (h.digests name hname content' content hx hy).symm

/-- Having the same payload is transitive. -/
theorem SamePayload.trans {xs ys zs : List Entry} (h : SamePayload hashData xs ys)
    (h' : SamePayload hashData ys zs) : SamePayload hashData xs zs where
  names name hname := (h.names name hname).trans (h'.names name hname)
  digests name hname content content' hx hz := by
    obtain ⟨middle, hy⟩ := (h.names name hname).mp ⟨content, hx⟩
    exact (h.digests name hname content middle hx hy).trans
      (h'.digests name hname middle content' hy hz)

/-! ## Inspection -/

/-- The keys of some entries are distinct, and new where `seen` are the keys so far. -/
def Fresh (key : Entry → UString) (seen : List UString) (entries : List Entry) : Prop :=
  (entries.map key).Nodup ∧ ∀ e ∈ entries, key e ∉ seen

/-- Without predecessors, being fresh is having no duplicates. -/
theorem fresh_nil_iff {key : Entry → UString} {entries : List Entry} :
    Fresh key [] entries ↔ (entries.map key).Nodup :=
  and_iff_left fun _ _ => List.not_mem_nil

/-- What is fresh entry by entry. -/
theorem fresh_cons_iff {key : Entry → UString} {seen : List UString} {entry : Entry}
    {entries : List Entry} :
    Fresh key seen (entry :: entries) ↔
      key entry ∉ seen ∧ Fresh key (key entry :: seen) entries := by
  rw [Fresh, Fresh, List.map_cons, List.nodup_cons, List.forall_mem_cons]
  simp only [List.mem_map, List.mem_cons, not_or, not_exists, not_and]
  constructor
  · rintro ⟨⟨hnew, hnodup⟩, hentry, hentries⟩
    exact ⟨hentry, hnodup, fun e he => ⟨hnew e he, hentries e he⟩⟩
  · rintro ⟨hentry, hnodup, hentries⟩
    exact ⟨⟨fun e he => (hentries e he).1, hnodup⟩, hentry, fun e he => (hentries e he).2⟩

/-- The members that an entry adds to the list: itself, or none when it is the signature. -/
theorem map_payloadEntries_cons (entry : Entry) (entries : List Entry) :
    (payloadEntries (entry :: entries)).map (member hashData) =
      if entry.fullName ≠ signature then
        member hashData entry :: (payloadEntries entries).map (member hashData)
      else (payloadEntries entries).map (member hashData) := by
  by_cases hname : entry.fullName = signature
  · rw [payloadEntries, List.filter_cons_of_neg (by simpa using hname), if_neg (not_not.mpr hname)]
    rfl
  · rw [payloadEntries, List.filter_cons_of_pos (by simpa using hname), if_pos hname]
    rfl

/-- The entries are listed when each of them is sound, and new in name and in alias. -/
theorem members_eq_ok_iff {path : UString} : ∀ {entries : List Entry} {names aliases : List UString}
    {found : List Member}, members hashData path names aliases entries = .ok found ↔
      (∀ e ∈ entries, safeMemberName e.fullName = true ∧ isSymlink e = false) ∧
      Fresh Entry.fullName names entries ∧ Fresh (fun e => asciiFold e.fullName) aliases entries ∧
      found = (payloadEntries entries).map (member hashData)
  | [], names, aliases, found => by
    rw [members]
    constructor
    · intro h
      refine ⟨fun e he => absurd he List.not_mem_nil, ⟨List.nodup_nil, ?_⟩, ⟨List.nodup_nil, ?_⟩,
        (Except.ok.inj h).symm⟩
      · exact fun e he => absurd he List.not_mem_nil
      · exact fun e he => absurd he List.not_mem_nil
    · rintro ⟨_, _, _, rfl⟩
      rfl
  | entry :: entries, names, aliases, found => by
    rw [members, guard_eq_ok_iff, guard_eq_ok_iff, guard_eq_ok_iff, guard_eq_ok_iff, bind_eq_ok,
      List.forall_mem_cons, fresh_cons_iff, fresh_cons_iff, map_payloadEntries_cons,
      Bool.not_eq_false, Bool.not_eq_true]
    constructor
    · rintro ⟨hname, hsafe, halias, hlink, rest, hrest, h⟩
      obtain ⟨hsound, hnames, haliases, rfl⟩ := members_eq_ok_iff.mp hrest
      exact ⟨⟨⟨hsafe, hlink⟩, hsound⟩, ⟨hname, hnames⟩, ⟨halias, haliases⟩, (Except.ok.inj h).symm⟩
    · rintro ⟨⟨⟨hsafe, hlink⟩, hsound⟩, ⟨hname, hnames⟩, ⟨halias, haliases⟩, rfl⟩
      exact ⟨hname, hsafe, halias, hlink, _, members_eq_ok_iff.mpr ⟨hsound, hnames, haliases, rfl⟩,
        rfl⟩

/-- Some listed member is no directory. -/
theorem any_payload_iff {entries : List Entry} :
    ((sortOn ordinal Member.name ((payloadEntries entries).map (member hashData))).any
      fun m => !endsWithSlash m.name) = true ↔
      ∃ e ∈ entries, e.fullName ≠ signature ∧ endsWithSlash e.fullName = false := by
  simp only [List.any_eq_true, mem_sortOn, List.mem_map, Bool.not_eq_true']
  constructor
  · rintro ⟨m, ⟨e, he, rfl⟩, hslash⟩
    obtain ⟨he, hname⟩ := mem_payloadEntries.mp he
    exact ⟨e, he, hname, hslash⟩
  · rintro ⟨e, he, hname, hslash⟩
    exact ⟨member hashData e, ⟨e, mem_payloadEntries.mpr ⟨he, hname⟩, rfl⟩, hslash⟩

/-- **What `inspect` accepts, and what it lists.** -/
theorem inspect_eq_ok_iff {archive : Archive} {found : List Member} :
    inspect hashData archive = .ok found ↔ Inspectable archive.entries ∧
      found = sortOn ordinal Member.name
        ((payloadEntries archive.entries).map (member hashData)) := by
  rw [inspect, bind_eq_ok]
  simp only [guard_eq_ok_iff, members_eq_ok_iff, fresh_nil_iff]
  constructor
  · rintro ⟨_, ⟨hsound, hnames, haliases, rfl⟩, hany, h⟩
    rw [Bool.not_eq_false, any_payload_iff] at hany
    refine ⟨⟨fun e he => (hsound e he).1, fun e he => (hsound e he).2, hnames, haliases, hany⟩, ?_⟩
    exact (Except.ok.inj h).symm
  · rintro ⟨h, rfl⟩
    refine ⟨_, ⟨fun e he => ⟨h.safe e he, h.noSymlink e he⟩, h.names, h.aliases, rfl⟩, ?_, rfl⟩
    rw [Bool.not_eq_false, any_payload_iff]
    exact h.payload

/-- In an archive that passes, no two members have one name. -/
theorem Inspectable.memberNames {entries : List Entry} (h : Inspectable entries) :
    (((payloadEntries entries).map (member hashData)).map Member.name).Nodup := by
  rw [List.map_map]
  exact (List.filter_sublist.map Entry.fullName).nodup h.names

/-- **The checks do not depend on the order of the directory.** -/
theorem Inspectable.perm {entries entries' : List Entry} (h : Inspectable entries)
    (hp : entries.Perm entries') : Inspectable entries' where
  safe e he := h.safe e (hp.mem_iff.mpr he)
  noSymlink e he := h.noSymlink e (hp.mem_iff.mpr he)
  names := (hp.map _).nodup_iff.mp h.names
  aliases := (hp.map _).nodup_iff.mp h.aliases
  payload := by
    obtain ⟨e, he, hpayload⟩ := h.payload
    exact ⟨e, hp.mem_iff.mp he, hpayload⟩

/-- **Neither the order of the entries nor the place of the archive matters.** -/
theorem inspect_of_perm {archive archive' : Archive} {found : List Member}
    (h : inspect hashData archive = .ok found) (hp : archive.entries.Perm archive'.entries) :
    inspect hashData archive' = .ok found := by
  obtain ⟨hinspectable, rfl⟩ := inspect_eq_ok_iff.mp h
  refine inspect_eq_ok_iff.mpr ⟨hinspectable.perm hp, ?_⟩
  exact sortOn_eq_of_perm ordinal Member.name ((hp.filter _).map _) hinspectable.memberNames

/-! ## Lists of members -/

/-- The invariant of the lists that `inspect` comes back with. -/
structure Listed (members : List Member) : Prop where
  sorted : members.Pairwise fun m n => ordinal.le m.name n.name = true
  names : (members.map Member.name).Nodup

/-- What the comparisons of two such lists come to. -/
structure SameMembers (expected actual : List Member) : Prop where
  names : ∀ name, name ∈ expected.map Member.name ↔ name ∈ actual.map Member.name
  digests : ∀ m ∈ expected, ∀ n ∈ actual, m.name = n.name → m.sha256 = n.sha256

variable {archive archive' : Archive} {expected actual : List Member}

/-- Having the same members is symmetric. -/
theorem SameMembers.symm (h : SameMembers expected actual) : SameMembers actual expected where
  names name := (h.names name).symm
  digests m hm n hn hname := (h.digests n hn m hm hname.symm).symm

/-- **What `inspect` lists are the members of the payload.** -/
theorem mem_of_inspect (h : inspect hashData archive = .ok expected) {m : Member} :
    m ∈ expected ↔ ∃ e ∈ archive.entries, e.fullName ≠ signature ∧ member hashData e = m := by
  rw [(inspect_eq_ok_iff.mp h).2, mem_sortOn, List.mem_map]
  simp only [mem_payloadEntries, and_assoc]

/-- And it lists each name once, in order. -/
theorem listed_of_inspect (h : inspect hashData archive = .ok expected) : Listed expected := by
  obtain ⟨hinspectable, rfl⟩ := inspect_eq_ok_iff.mp h
  refine ⟨sortOn_pairwise _ _ _, ?_⟩
  rw [((sortOn_perm _ _ _).map _).nodup_iff]
  exact hinspectable.memberNames

/-- A name is listed when the archive delivers something under it. -/
theorem name_mem_of_inspect (h : inspect hashData archive = .ok expected) {name : UString} :
    name ∈ expected.map Member.name ↔
      name ≠ signature ∧ ∃ content, Delivers archive.entries name content := by
  rw [List.mem_map]
  constructor
  · rintro ⟨m, hm, rfl⟩
    obtain ⟨e, he, hname, rfl⟩ := (mem_of_inspect h).mp hm
    exact ⟨hname, e.content, e, he, rfl, rfl⟩
  · rintro ⟨hname, content, e, he, rfl, rfl⟩
    exact ⟨member hashData e, (mem_of_inspect h).mpr ⟨e, he, hname, rfl⟩, rfl⟩

/-- The members agree when the payloads do: the digits of a digest determine it. -/
theorem sameMembers_iff (h : inspect hashData archive = .ok expected)
    (h' : inspect hashData archive' = .ok actual) :
    SameMembers expected actual ↔ SamePayload hashData archive.entries archive'.entries := by
  constructor
  · intro hsame
    constructor
    · intro name hname
      have hnames := hsame.names name
      rw [name_mem_of_inspect h, name_mem_of_inspect h', and_congr_right_iff] at hnames
      exact hnames hname
    · rintro name hname content content' ⟨e, he, rfl, rfl⟩ ⟨e', he', heq, rfl⟩
      have hm := (mem_of_inspect h).mpr ⟨e, he, hname, rfl⟩
      have hn := (mem_of_inspect h').mpr ⟨e', he', heq ▸ hname, rfl⟩
      exact lowerHex_inj (hsame.digests _ hm _ hn heq.symm)
  · intro hsame
    constructor
    · intro name
      rw [name_mem_of_inspect h, name_mem_of_inspect h', and_congr_right_iff]
      exact hsame.names name
    · intro m hm n hn heq
      obtain ⟨e, he, hname, rfl⟩ := (mem_of_inspect h).mp hm
      obtain ⟨e', he', _, rfl⟩ := (mem_of_inspect h').mp hn
      have hdigests := hsame.digests e.fullName hname e.content e'.content ⟨e, he, rfl, rfl⟩
        ⟨e', he', heq.symm, rfl⟩
      exact congrArg lowerHex hdigests

/-- **The equality of two lists is that of their members**, as both are sorted by distinct names. -/
theorem payloads_eq_iff (h : Listed expected) (h' : Listed actual) :
    payloads expected = payloads actual ↔ SameMembers expected actual := by
  constructor
  · intro heq
    have hnames : expected.map Member.name = actual.map Member.name := by
      have hfirst := congrArg (List.map Prod.fst) heq
      rw [payloads, payloads, List.map_map, List.map_map] at hfirst
      exact hfirst
    refine ⟨fun name => by rw [hnames], fun m hm n hn hname => ?_⟩
    -- the pair of `m` is also that of a member of the other list, which can only be `n`
    have hpair : (m.name, m.sha256) ∈ payloads actual := heq ▸ List.mem_map_of_mem hm
    obtain ⟨k, hk, hkm⟩ := List.mem_map.mp hpair
    obtain ⟨hkname, hksha⟩ := Prod.mk.inj hkm
    rw [← hksha, List.inj_on_of_nodup_map h'.names hk hn (hkname.trans hname)]
  · intro hsame
    have hmem : ∀ {xs ys : List Member}, SameMembers xs ys →
        ∀ pair ∈ payloads xs, pair ∈ payloads ys := by
      intro xs ys hxy pair hpair
      obtain ⟨m, hm, rfl⟩ := List.mem_map.mp hpair
      obtain ⟨n, hn, hname⟩ := List.mem_map.mp ((hxy.names m.name).mp (List.mem_map_of_mem hm))
      rw [hxy.digests m hm n hn hname.symm, ← hname]
      exact List.mem_map_of_mem hn
    have hlisted : ∀ {xs : List Member}, Listed xs →
        ((payloads xs).Pairwise fun a b => ordinal.le a.1 b.1 = true) ∧
          ((payloads xs).map Prod.fst).Nodup := by
      intro xs hxs
      rw [payloads, List.pairwise_map, List.map_map]
      exact ⟨hxs.sorted, hxs.names⟩
    exact eq_of_sorted ordinal Prod.fst (hlisted h).1 (hlisted h').1 (hlisted h).2 (hlisted h').2
      fun pair => ⟨hmem hsame pair, hmem hsame.symm pair⟩

/-! ## Lookups -/

/-- The lookup finds the member with that name. -/
theorem item_of_mem (h : Listed expected) {m : Member} (hm : m ∈ expected) :
    item expected m.name = .ok m := by
  rw [item]
  cases hfind : expected.reverse.find? fun n => n.name = m.name with
  | none =>
    have hno := List.find?_eq_none.mp hfind m (List.mem_reverse.mpr hm)
    exact absurd (decide_eq_true rfl) hno
  | some n =>
    have hn : n ∈ expected := List.mem_reverse.mp (List.mem_of_find?_eq_some hfind)
    have hfound := List.find?_some hfind
    have hname : n.name = m.name := of_decide_eq_true hfound
    rw [List.inj_on_of_nodup_map h.names hn hm hname]

/-- **The loop passes when all digests agree**, by induction on the names. -/
theorem compareDigests_eq_ok_iff (h : Listed expected) (h' : Listed actual) :
    ∀ {names : List UString},
      (∀ name ∈ names, name ∈ expected.map Member.name ∧ name ∈ actual.map Member.name) →
      (compareDigests expected actual names = .ok () ↔
        ∀ m ∈ expected, ∀ n ∈ actual, m.name ∈ names → m.name = n.name → m.sha256 = n.sha256)
  | [], _ => iff_of_true rfl fun _ _ _ _ hm => absurd hm List.not_mem_nil
  | name :: names, hnames => by
    obtain ⟨⟨hbefore, hafter⟩, hrest⟩ := List.forall_mem_cons.mp hnames
    obtain ⟨before, hmem, rfl⟩ := List.mem_map.mp hbefore
    obtain ⟨after, hmem', hname⟩ := List.mem_map.mp hafter
    rw [compareDigests, item_of_mem h hmem, ok_bind, ← hname, item_of_mem h' hmem', ok_bind,
      guard_eq_ok_iff, not_not, compareDigests_eq_ok_iff h h' hrest]
    constructor
    · rintro ⟨hdigest, hlater⟩ m hm n hn hin heq
      rcases List.mem_cons.mp hin with hin | hin
      -- both members are the ones that were looked up
      · rw [List.inj_on_of_nodup_map h.names hm hmem (hin.trans hname),
          List.inj_on_of_nodup_map h'.names hn hmem' (heq.symm.trans hin)]
        exact hdigest
      · exact hlater m hm n hn hin heq
    · intro hall
      refine ⟨hall before hmem after hmem' (hname ▸ List.mem_cons_self) hname.symm, ?_⟩
      intro m hm n hn hin heq
      exact hall m hm n hn (List.mem_cons_of_mem _ hin) heq

/-- No name is missing when all are among the others. -/
theorem difference_eq_nil {names others : List UString} :
    difference names others = [] ↔ ∀ name ∈ names, name ∈ others := by
  simp only [difference, List.filter_eq_nil_iff, decide_eq_true_eq, not_not]

/-- **`compare` finds what the equality of the lists finds.** -/
theorem compare_eq_ok_iff {listText : List UString → UString}
    (h : inspect hashData archive = .ok expected) (h' : inspect hashData archive' = .ok actual) :
    compare hashData listText archive archive' = .ok () ↔ SameMembers expected actual := by
  rw [compare, h, ok_bind, h', ok_bind, guard_eq_ok_iff, not_or, not_not, not_not,
    difference_eq_nil,
    difference_eq_nil]
  simp only [mem_setOf]
  constructor
  · rintro ⟨⟨hmissing, hunexpected⟩, hloop⟩
    have hnames : ∀ name ∈ setOf (expected.map Member.name),
        name ∈ expected.map Member.name ∧ name ∈ actual.map Member.name := by
      intro name hname
      exact ⟨mem_setOf.mp hname, hmissing name (mem_setOf.mp hname)⟩
    rw [compareDigests_eq_ok_iff (listed_of_inspect h) (listed_of_inspect h') hnames] at hloop
    refine ⟨fun name => ⟨hmissing name, hunexpected name⟩, fun m hm n hn heq => ?_⟩
    exact hloop m hm n hn (mem_setOf.mpr (List.mem_map_of_mem hm)) heq
  · intro hsame
    have hnames : ∀ name ∈ setOf (expected.map Member.name),
        name ∈ expected.map Member.name ∧ name ∈ actual.map Member.name := by
      intro name hname
      exact ⟨mem_setOf.mp hname, (hsame.names name).mp (mem_setOf.mp hname)⟩
    refine ⟨⟨fun name => (hsame.names name).mp, fun name => (hsame.names name).mpr⟩, ?_⟩
    rw [compareDigests_eq_ok_iff (listed_of_inspect h) (listed_of_inspect h') hnames]
    exact fun m hm n hn _ heq => hsame.digests m hm n hn heq

/-! ## What may change, and what may not -/

/-- Another order of the entries, another mode, and the package signature added or removed. -/
inductive Retouch : List Entry → List Entry → Prop
  | reorder {entries entries' : List Entry} : entries.Perm entries' → Retouch entries entries'
  | mode (before after : List Entry) (e : Entry) (attributes : BitVec 32) :
      Retouch (before ++ e :: after) (before ++ { e with externalAttributes := attributes } :: after)
  | sign (before after : List Entry) {e : Entry} : e.fullName = signature →
      Retouch (before ++ after) (before ++ e :: after)
  | unsign (before after : List Entry) {e : Entry} : e.fullName = signature →
      Retouch (before ++ e :: after) (before ++ after)

variable (hashData) in
/-- A member other than the package signature changed to bytes with another digest, added or removed. -/
inductive Tampered : List Entry → List Entry → Prop
  | change (before after : List Entry) {e : Entry} {content : ByteArray} : e.fullName ≠ signature →
      hashData content ≠ hashData e.content →
      Tampered (before ++ e :: after) (before ++ { e with content := content } :: after)
  | add (before after : List Entry) {e : Entry} : e.fullName ≠ signature →
      Tampered (before ++ after) (before ++ e :: after)
  | remove (before after : List Entry) {e : Entry} : e.fullName ≠ signature →
      Tampered (before ++ e :: after) (before ++ after)

variable {xs ys : List Entry} {name : UString} {content : ByteArray}

/-- What an archive delivers, with one entry taken out. -/
theorem delivers_middle_iff {before after : List Entry} {e : Entry} :
    Delivers (before ++ e :: after) name content ↔
      e.fullName = name ∧ e.content = content ∨ Delivers (before ++ after) name content := by
  simp only [Delivers, List.mem_append, List.mem_cons]
  constructor
  · rintro ⟨d, hd | rfl | hd, hname, hcontent⟩
    · exact .inr ⟨d, .inl hd, hname, hcontent⟩
    · exact .inl ⟨hname, hcontent⟩
    · exact .inr ⟨d, .inr hd, hname, hcontent⟩
  · rintro (⟨hname, hcontent⟩ | ⟨d, hd | hd, hname, hcontent⟩)
    · exact ⟨e, .inr (.inl rfl), hname, hcontent⟩
    · exact ⟨d, .inl hd, hname, hcontent⟩
    · exact ⟨d, .inr (.inr hd), hname, hcontent⟩

/-- Retouching the signature changes nothing that is delivered under another name. -/
theorem Retouch.delivers_iff (h : Retouch xs ys) (hname : name ≠ signature) :
    Delivers xs name content ↔ Delivers ys name content := by
  cases h with
  | reorder hperm => simp only [Delivers, hperm.mem_iff]
  | mode before after e attributes => rw [delivers_middle_iff, delivers_middle_iff]
  | sign before after he =>
    rw [delivers_middle_iff, or_iff_right]
    exact fun h => hname (h.1.symm.trans he)
  | unsign before after he =>
    rw [delivers_middle_iff, or_iff_right]
    exact fun h => hname (h.1.symm.trans he)

/-- Whatever is retouched delivers what it did. -/
theorem delivers_of_retouched (h : Relation.ReflTransGen Retouch xs ys) (hname : name ≠ signature) :
    Delivers xs name content ↔ Delivers ys name content := by
  induction h with
  | refl => exact Iff.rfl
  | tail _ hstep ih => exact ih.trans (hstep.delivers_iff hname)

/-- A name has one content. -/
theorem Inspectable.content_unique (h : Inspectable ys) {content' : ByteArray}
    (hc : Delivers ys name content) (hc' : Delivers ys name content') : content = content' := by
  obtain ⟨e, he, hname, rfl⟩ := hc
  obtain ⟨e', he', hname', rfl⟩ := hc'
  rw [List.inj_on_of_nodup_map h.names he he' (hname.trans hname'.symm)]

/-- **Signing keeps the payload.** -/
theorem samePayload_of_retouched (h : Relation.ReflTransGen Retouch xs ys) (hy : Inspectable ys) :
    SamePayload hashData xs ys where
  names name hname := exists_congr fun _ => delivers_of_retouched h hname
  digests name hname content content' hc hc' := by
    rw [hy.content_unique ((delivers_of_retouched h hname).mp hc) hc']

/-- A name that an archive has is not that of another entry. -/
theorem Inspectable.not_delivers {before after : List Entry} {e : Entry}
    (h : Inspectable (before ++ e :: after)) : ¬ Delivers (before ++ after) e.fullName content := by
  rintro ⟨d, hd, hname, _⟩
  have hnodup := h.names
  rw [List.map_append, List.map_cons, List.nodup_middle, List.nodup_cons, ← List.map_append]
    at hnodup
  exact hnodup.1 (hname ▸ List.mem_map_of_mem hd)

/-- **Tampering with a member does not.** -/
theorem not_samePayload_of_tampered (h : Tampered hashData xs ys) (hx : Inspectable xs)
    (hy : Inspectable ys) : ¬ SamePayload hashData xs ys := by
  intro hsame
  cases h with
  | @change before after e content hname hdiffers =>
    have hold : Delivers (before ++ e :: after) e.fullName e.content :=
      delivers_middle_iff.mpr (.inl ⟨rfl, rfl⟩)
    have hnew : Delivers (before ++ { e with content := content } :: after) e.fullName content :=
      delivers_middle_iff.mpr (.inl ⟨rfl, rfl⟩)
    exact hdiffers (hsame.digests _ hname _ _ hold hnew).symm
  | @add before after e hname =>
    obtain ⟨content, hold⟩ := (hsame.names e.fullName hname).mpr
      ⟨e.content, delivers_middle_iff.mpr (.inl ⟨rfl, rfl⟩)⟩
    exact hy.not_delivers hold
  | @remove before after e hname =>
    obtain ⟨content, hnew⟩ := (hsame.names e.fullName hname).mp
      ⟨e.content, delivers_middle_iff.mpr (.inl ⟨rfl, rfl⟩)⟩
    exact hx.not_delivers hnew

/-! ## The two comparisons -/

variable {q s : Archive} {qualified served : List Member} {listText : List UString → UString}

/-- **`compare` passes exactly for the same payload.** -/
theorem compare_eq_ok_iff_samePayload (hq : inspect hashData q = .ok qualified)
    (hs : inspect hashData s = .ok served) :
    compare hashData listText q s = .ok () ↔ SamePayload hashData q.entries s.entries :=
  (compare_eq_ok_iff hq hs).trans (sameMembers_iff hq hs)

/-- **So does the comparison of the readback.** -/
theorem payloads_eq_iff_samePayload (hq : inspect hashData q = .ok qualified)
    (hs : inspect hashData s = .ok served) :
    payloads qualified = payloads served ↔ SamePayload hashData q.entries s.entries :=
  (payloads_eq_iff (listed_of_inspect hq) (listed_of_inspect hs)).trans (sameMembers_iff hq hs)

end FsQuint.ArchiveFingerprint

namespace FsQuint.Readback

open Utf16 ArchiveFingerprint

/-! ## The readback of a package -/

variable {hashData : ByteArray → Vector UInt8 32} {inspectNuspec : Archive → Outcome Unit}
  {package : UString}

/-- One feed: what is expected next has the payloads of its archive and of what was expected before. -/
theorem accept_eq_ok {feed : UString} {expected next : Option (List Member)} {actual : List Member}
    (h : accept package feed expected actual = .ok next) :
    ∃ kept, next = some kept ∧ payloads actual = payloads kept ∧
      ∀ qualified, expected = some qualified → payloads qualified = payloads kept := by
  cases expected with
  | none =>
    obtain rfl := Except.ok.inj h
    exact ⟨actual, rfl, rfl, fun _ h => by cases h⟩
  | some qualified =>
    rw [accept] at h
    split at h
    · rename_i hequal
      obtain rfl := Except.ok.inj h
      refine ⟨qualified, rfl, hequal.symm, fun other h => ?_⟩
      rw [Option.some.inj h]
    · cases h

/-- All feeds: every archive has the payloads of what is expected in the end. -/
theorem readFeeds_eq_ok :
    ∀ {feeds : List (UString × Archive)} {expected result : Option (List Member)},
    readFeeds hashData inspectNuspec package expected feeds = .ok result →
      (∀ qualified, expected = some qualified →
        ∃ kept, result = some kept ∧ payloads qualified = payloads kept) ∧
      ∀ served ∈ feeds, ∃ actual kept, inspect hashData served.2 = .ok actual ∧ result = some kept ∧
        payloads actual = payloads kept
  | [], expected, result, h => by
    obtain rfl := Except.ok.inj h
    exact ⟨fun qualified hq => ⟨qualified, hq, rfl⟩, fun served hs => absurd hs List.not_mem_nil⟩
  | (feed, target) :: feeds, expected, result, h => by
    rw [readFeeds, bind_eq_ok] at h
    obtain ⟨actual, hactual, h⟩ := h
    obtain ⟨_, _, h⟩ := bind_eq_ok.mp h
    obtain ⟨next, hnext, h⟩ := bind_eq_ok.mp h
    obtain ⟨kept, rfl, hkept, hexpected⟩ := accept_eq_ok hnext
    obtain ⟨hfirst, hrest⟩ := readFeeds_eq_ok h
    obtain ⟨final, hresult, hfinal⟩ := hfirst kept rfl
    constructor
    · intro qualified hq
      exact ⟨final, hresult, (hexpected qualified hq).trans hfinal⟩
    · intro served hserved
      rcases List.mem_cons.mp hserved with rfl | hserved
      · exact ⟨actual, final, hactual, hresult, hkept.trans hfinal⟩
      · exact hrest served hserved

/-- **A readback that passes has read one payload from all feeds**, that of the qualified archive when
    there is one. -/
theorem readFeeds_samePayload {feeds : List (UString × Archive)}
    {expected result : Option (List Member)}
    (h : readFeeds hashData inspectNuspec package expected feeds = .ok result) :
    (∀ served ∈ feeds, ∀ served' ∈ feeds, SamePayload hashData served.2.entries served'.2.entries) ∧
    ∀ (archive : Archive) (qualified : List Member), expected = some qualified →
      inspect hashData archive = .ok qualified →
      ∀ served ∈ feeds, SamePayload hashData archive.entries served.2.entries := by
  obtain ⟨hexpected, hfeeds⟩ := readFeeds_eq_ok h
  constructor
  · intro served hserved served' hserved'
    obtain ⟨actual, kept, hactual, rfl, hkept⟩ := hfeeds served hserved
    obtain ⟨actual', kept', hactual', hsame, hkept'⟩ := hfeeds served' hserved'
    rw [Option.some.inj hsame, ← hkept'] at hkept
    exact (payloads_eq_iff_samePayload hactual hactual').mp hkept
  · intro archive qualified hq harchive served hserved
    obtain ⟨kept, rfl, hkept⟩ := hexpected qualified hq
    obtain ⟨actual, kept', hactual, hsame, hkept'⟩ := hfeeds served hserved
    rw [Option.some.inj hsame, ← hkept'] at hkept
    exact (payloads_eq_iff_samePayload harchive hactual).mp hkept

end FsQuint.Readback

namespace FsQuint.ArchiveFingerprint

open Utf16 Collections ReplayInternal Readback

/-! ## The agreement -/

/-- **The two comparisons agree, and ignore only what they may.**  Both succeed exactly on one payload;
    touching what does not count changes neither verdict, and tampering makes both refuse; the order of
    the entries matters neither to what is accepted nor to the verdict; and what a readback has accepted
    against the qualified archive passes the other comparison too. -/
theorem comparisons_agree (hashData : ByteArray → Vector UInt8 32) (listText : List UString → UString)
    {q s : Archive} {qualified served : List Member} (hq : inspect hashData q = .ok qualified)
    (hs : inspect hashData s = .ok served) :
    (compare hashData listText q s = .ok () ↔ payloads qualified = payloads served) ∧
    (payloads qualified = payloads served ↔ SamePayload hashData q.entries s.entries) ∧
    (∀ (q' s' : Archive) (qualified' served' : List Member), inspect hashData q' = .ok qualified' →
      inspect hashData s' = .ok served' → Relation.ReflTransGen Retouch q.entries q'.entries →
      Relation.ReflTransGen Retouch s.entries s'.entries →
        (compare hashData listText q' s' = .ok () ↔ compare hashData listText q s = .ok ()) ∧
        (payloads qualified' = payloads served' ↔ payloads qualified = payloads served)) ∧
    (compare hashData listText q s = .ok () → ∀ (t : Archive) (found : List Member),
      inspect hashData t = .ok found →
        (Tampered hashData s.entries t.entries →
          (∃ e, compare hashData listText q t = .error e) ∧ payloads qualified ≠ payloads found) ∧
        (Tampered hashData q.entries t.entries →
          (∃ e, compare hashData listText t s = .error e) ∧ payloads found ≠ payloads served)) ∧
    (∀ q' s' : Archive, q.entries.Perm q'.entries → s.entries.Perm s'.entries →
      inspect hashData q' = .ok qualified ∧ inspect hashData s' = .ok served ∧
        (compare hashData listText q' s' = .ok () ↔ compare hashData listText q s = .ok ())) ∧
    (∀ (inspectNuspec : Archive → Outcome Unit) (package : UString) (feeds : List (UString × Archive))
      (result : Option (List Member)),
      readFeeds hashData inspectNuspec package (some qualified) feeds = .ok result →
        ∀ served ∈ feeds, compare hashData listText q served.2 = .ok ()) := by
  have hcompare := @compare_eq_ok_iff_samePayload hashData q s qualified served listText hq hs
  have hequality := payloads_eq_iff_samePayload hq hs
  -- both refuse what does not deliver the same
  have hrefuse : ∀ {a b : Archive} {found found' : List Member}, inspect hashData a = .ok found →
      inspect hashData b = .ok found' → ¬ SamePayload hashData a.entries b.entries →
        (∃ e, compare hashData listText a b = .error e) ∧ payloads found ≠ payloads found' := by
    intro a b found found' ha hb hnot
    refine ⟨?_, fun heq => hnot ((payloads_eq_iff_samePayload ha hb).mp heq)⟩
    cases hresult : compare hashData listText a b with
    | error e => exact ⟨e, rfl⟩
    | ok _ => exact absurd ((compare_eq_ok_iff_samePayload ha hb).mp hresult) hnot
  refine ⟨hcompare.trans hequality.symm, hequality, ?_, ?_, ?_, ?_⟩
  · intro q' s' qualified' served' hq' hs' htouchq htouchs
    have hsameq : SamePayload hashData q.entries q'.entries :=
      samePayload_of_retouched htouchq (inspect_eq_ok_iff.mp hq').1
    have hsames : SamePayload hashData s.entries s'.entries :=
      samePayload_of_retouched htouchs (inspect_eq_ok_iff.mp hs').1
    have hsame : SamePayload hashData q'.entries s'.entries ↔
        SamePayload hashData q.entries s.entries :=
      ⟨fun h => hsameq.trans (h.trans hsames.symm), fun h => hsameq.symm.trans (h.trans hsames)⟩
    rw [compare_eq_ok_iff_samePayload hq' hs', payloads_eq_iff_samePayload hq' hs', hsame, hcompare,
      hequality]
    exact ⟨Iff.rfl, Iff.rfl⟩
  · intro hok t found ht
    have hsame := hcompare.mp hok
    have hinspectable := (inspect_eq_ok_iff.mp ht).1
    constructor
    · intro htampered
      refine hrefuse hq ht fun h => ?_
      exact not_samePayload_of_tampered htampered (inspect_eq_ok_iff.mp hs).1 hinspectable
        (hsame.symm.trans h)
    · intro htampered
      refine hrefuse ht hs fun h => ?_
      exact not_samePayload_of_tampered htampered (inspect_eq_ok_iff.mp hq).1 hinspectable
        (hsame.trans h.symm)
  · intro q' s' hpermq hperms
    have hq' := inspect_of_perm hq hpermq
    have hs' := inspect_of_perm hs hperms
    refine ⟨hq', hs', ?_⟩
    rw [compare_eq_ok_iff_samePayload hq' hs', ← payloads_eq_iff_samePayload hq' hs', hcompare, hequality]
  · intro inspectNuspec package feeds result hread target htarget
    have hpayload := (readFeeds_samePayload hread).2 q qualified rfl hq target htarget
    obtain ⟨actual, _, hactual, _⟩ := (readFeeds_eq_ok hread).2 target htarget
    exact (compare_eq_ok_iff_samePayload hq hactual).mpr hpayload

/-- A library, of mode 0644. -/
def libraryEntry : Entry := ⟨"lib/net10.0/FsQuint.dll", 0x81A40000, ⟨#[0x76, 0x31]⟩⟩

/-- The signature of the package. -/
def signatureEntry : Entry := ⟨signature, 0, ⟨#[0x66]⟩⟩

/-- A package with a library. -/
def unsigned : Archive := ⟨"unsigned.nupkg", [libraryEntry]⟩

/-- The same package, signed. -/
def signed : Archive := ⟨"signed.nupkg", [signatureEntry, libraryEntry]⟩

/-- Both pass the checks. -/
theorem inspectable_unsigned : Inspectable unsigned.entries where
  safe := by decide
  noSymlink := by decide
  names := by decide
  aliases := by decide
  payload := ⟨libraryEntry, List.mem_cons_self, by decide, by decide⟩

/-- The signature is a member like others to them. -/
theorem inspectable_signed : Inspectable signed.entries where
  safe := by decide
  noSymlink := by decide
  names := by decide
  aliases := by decide
  payload := ⟨libraryEntry, List.mem_cons_of_mem _ List.mem_cons_self, by decide, by decide⟩

/-- **Signing is seen by neither comparison.** -/
theorem comparisons_agree_signed :
    ∃ qualified served, inspect Sha256.hashData unsigned = .ok qualified ∧
      inspect Sha256.hashData signed = .ok served ∧
      compare Sha256.hashData (concat (lit "; ")) unsigned signed = .ok () ∧
      payloads qualified = payloads served := by
  have hq := (@inspect_eq_ok_iff Sha256.hashData unsigned _).mpr ⟨inspectable_unsigned, rfl⟩
  have hs := (@inspect_eq_ok_iff Sha256.hashData signed _).mpr ⟨inspectable_signed, rfl⟩
  have hsame : SamePayload Sha256.hashData unsigned.entries signed.entries :=
    samePayload_of_retouched (.single (.sign [] [libraryEntry] rfl)) inspectable_signed
  obtain ⟨hagree, hpayloads, _⟩ := comparisons_agree Sha256.hashData (concat (lit "; ")) hq hs
  have hequal := hpayloads.mpr hsame
  exact ⟨_, _, hq, hs, hagree.mpr hequal, hequal⟩

end FsQuint.ArchiveFingerprint
