/-
  ArchiveFingerprint: what a release archive consists of, and the two comparisons of it.

  1. `inspect` refuses archives that are not safe to unpack, and lists the others: each member but the
     package signature with the digest of its bytes, in the order of the names.
  2. `compare` looks the members of one archive up in the other; the readback of a release compares
     the two lists.  Both are kept as the source has them.
  3. An archive is its entries, in the order of its directory, with their bytes read.
-/
import FsQuint.ReplayInternal

namespace FsQuint.ArchiveFingerprint

open Utf16 Collections ReplayInternal

/-- A member of an archive as it is listed: the digest stands for its bytes. -/
structure Member where
  name : UString
  sha256 : UString
  unixMode : BitVec 32
  deriving DecidableEq

/-- An entry of the directory of an archive, with its bytes. -/
structure Entry where
  fullName : UString
  externalAttributes : BitVec 32
  content : ByteArray

/-- An archive, with the path that its error messages name. -/
structure Archive where
  path : UString
  entries : List Entry

/-- The member that signing adds to a package. -/
def signature : UString := ".signature.p7s"

/-- `InvalidDataException`. -/
def invalidData (message : UString) : Exn := ⟨.other, message⟩

/-- A directory entry. -/
def endsWithSlash (name : UString) : Bool := name.getLast? = some 0x2F

/-- A relative path without backslash, colon or null, and without empty, `.` or `..` segments. -/
def safeMemberName (name : UString) : Bool :=
  let path := if endsWithSlash name then name.dropLast else name
  !isNullOrWhiteSpace (some path) && name.head? ≠ some 0x2F &&
    !(name.contains 0x5C || name.contains 0x3A || name.contains 0x00) &&
    (path.splitOn 0x2F).all fun segment => segment ≠ [] && segment ≠ lit "." && segment ≠ lit ".."

/-- The name with its ASCII letters in lower case. -/
def asciiFold (name : UString) : UString :=
  name.map fun c => if 0x41 ≤ c ∧ c ≤ 0x5A then c + 32 else c

/-- The upper half of the external attributes. -/
def mode (entry : Entry) : BitVec 32 := entry.externalAttributes.sshiftRight 16 &&& 0xFFFF

/-- The file type bits of a mode say symbolic link. -/
def isSymlink (entry : Entry) : Bool := mode entry &&& 0o170000 = 0o120000

/-- The message that refuses a member. -/
def refusal (path problem name : UString) : UString :=
  path ++ lit ": " ++ problem ++ lit " archive member '" ++ name ++ lit "'"

section

variable (hashData : ByteArray → Vector UInt8 32)

/-- An entry as it is listed. -/
def member (entry : Entry) : Member := ⟨entry.fullName, lowerHex (hashData entry.content), mode entry⟩

/-- The members of the entries that follow others with the given names and aliases. -/
def members (path : UString) (names aliases : List UString) : List Entry → Outcome (List Member)
  | [] => return []
  | entry :: entries => do
    if entry.fullName ∈ names then
      throw (invalidData (refusal path "duplicate" entry.fullName))
    if safeMemberName entry.fullName = false then
      throw (invalidData (refusal path "unsafe" entry.fullName))
    if asciiFold entry.fullName ∈ aliases then
      throw (invalidData (refusal path "case-alias" entry.fullName))
    if isSymlink entry = true then
      throw (invalidData (refusal path "symlink" entry.fullName))
    let rest ← members path (entry.fullName :: names) (asciiFold entry.fullName :: aliases) entries
    return if entry.fullName ≠ signature then member hashData entry :: rest else rest

/-- **`inspect`**: the members in the order of their names, of which one at least is no directory. -/
def inspect (archive : Archive) : Outcome (List Member) := do
  let members := sortOn ordinal Member.name (← members hashData archive.path [] [] archive.entries)
  if members.any (fun m => !endsWithSlash m.name) = false then
    throw (invalidData (archive.path ++ lit ": archive has no payload members"))
  return members

/-- `Map.ofList` of the members by name, and the indexer: the last member of a name is kept. -/
def item (members : List Member) (name : UString) : Outcome Member :=
  match members.reverse.find? fun m => m.name = name with
  | some m => .ok m
  | none => .error ⟨.other, "An index satisfying the predicate was not found in the collection."⟩

/-- `Set.difference`, on sets as sorted lists. -/
def difference (names others : List UString) : List UString := names.filter (· ∉ others)

/-- The loop over the names. -/
def compareDigests (expected actual : List Member) : List UString → Outcome Unit
  | [] => return ()
  | name :: names => do
    let before ← item expected name
    let after ← item actual name
    if before.sha256 ≠ after.sha256 then
      throw (invalidData (lit "archive member '" ++ name ++ lit "' digest differs"))
    compareDigests expected actual names

/-- `listText` is how a list of names is printed. -/
def compare (listText : List UString → UString) (qualified served : Archive) : Outcome Unit := do
  let expected ← inspect hashData qualified
  let actual ← inspect hashData served
  let expectedNames := setOf (expected.map Member.name)
  let actualNames := setOf (actual.map Member.name)
  let missing := difference expectedNames actualNames
  let unexpected := difference actualNames expectedNames
  if missing ≠ [] ∨ unexpected ≠ [] then
    throw (invalidData (lit "archive members differ: missing=" ++ listText missing ++
      lit "; unexpected=" ++ listText unexpected))
  compareDigests expected actual expectedNames

end

end FsQuint.ArchiveFingerprint

namespace FsQuint.Readback

open Utf16 ArchiveFingerprint

/-- What the readback compares: names and digests, but no modes. -/
def payloads (members : List Member) : List (UString × UString) := members.map fun m => (m.name, m.sha256)

/-- What the readback does with the archive of one feed; the first one is what later ones are compared
    with when there is no qualified archive. -/
def accept (package feed : UString) (expected : Option (List Member)) (actual : List Member) :
    Outcome (Option (List Member)) :=
  match expected with
  | some qualified =>
    if payloads qualified = payloads actual then .ok expected
    else .error ⟨.other, package ++ lit ": " ++ feed ++ lit " differs from qualified payload"⟩
  | none => .ok (some actual)

/-- The loop over the feeds of a package, each with the archive that it serves. -/
def readFeeds (hashData : ByteArray → Vector UInt8 32) (inspectNuspec : Archive → Outcome Unit)
    (package : UString) (expected : Option (List Member)) :
    List (UString × Archive) → Outcome (Option (List Member))
  | [] => return expected
  | (feed, target) :: feeds => do
    let actual ← inspect hashData target
    inspectNuspec target
    let expected ← accept package feed expected actual
    readFeeds hashData inspectNuspec package expected feeds

end FsQuint.Readback
