/-
  The data of a replay, and the conventions under which its code is embedded.

  1. A managed string can be null: `NString` is an optional string, `none` being null.  Where a
     string comes out of a JSON document or out of a string operation it is never null, and is a
     `UString`.
  2. A `Result` is what the code returns, with diagnostics on failure.  An `Outcome` is what a call
     does: it comes back with something, or an exception escapes from it.  A function that
     answers with a `Result` and can throw has type `Outcome (Result α)`.
  3. Code outside the repository that has no meaning of its own here is collected in `Platform`.
-/
import FsQuint.Lib.Utf16

namespace FsQuint

open Utf16 Collections

/-- A string that may be null. -/
abbrev NString := Option UString

/-- An ASCII literal stands for its code units. -/
instance : Coe String UString := ⟨lit⟩

instance : Coe String NString := ⟨fun s => some (lit s)⟩

/-- The characters of category white space. -/
def isWhiteSpace (c : UInt16) : Bool :=
  decide (0x09 ≤ c ∧ c ≤ 0x0D) || c = 0x20 || c = 0x85 || c = 0xA0 || c = 0x1680 ||
    decide (0x2000 ≤ c ∧ c ≤ 0x200A) || c = 0x2028 || c = 0x2029 || c = 0x202F || c = 0x205F || c = 0x3000

/-- `String.IsNullOrWhiteSpace`: no character of the string is other than white space. -/
def isNullOrWhiteSpace : NString → Bool
  | none => true
  | some value => value.all isWhiteSpace

/-- `value.StartsWith("#", StringComparison.Ordinal)`. -/
def startsWithHash : UString → Bool
  | [] => false
  | c :: _ => c = 0x23

/-- A set of strings, as the list of its members in ordinal order. -/
def setOf (names : List UString) : List UString := sortOn ordinal id (distinct names)

/-- The members of `setOf` are those of the list. -/
theorem mem_setOf {names : List UString} {name : UString} : name ∈ setOf names ↔ name ∈ names := by
  rw [setOf, mem_sortOn, mem_distinct]

/-- Two sets are equal when they have the same members. -/
theorem setOf_eq_iff {names names' : List UString} :
    setOf names = setOf names' ↔ ∀ name, name ∈ names ↔ name ∈ names' := by
  constructor
  · intro h name
    rw [← mem_setOf, h, mem_setOf]
  · intro h
    refine sortOn_id_eq_of_perm ordinal ?_
    rw [List.perm_ext_iff_of_nodup (nodup_distinct _) (nodup_distinct _)]
    simpa only [mem_distinct] using h

/-! ## Replay values and traces -/

/-- Where a step comes from in the specification. -/
structure QuintReplaySourceBinding where
  path : NString
  line : Int
  column : Int
  deriving DecidableEq

/-- A value of the replay format.  Integers are kept as the literals that were given; a string, and so a
    name or a literal, may be null. -/
inductive QuintReplayValue where
  | null
  | boolean (b : Bool)
  | integer (literal : NString)
  | text (value : NString)
  | sequence (values : List QuintReplayValue)
  | set (values : List QuintReplayValue)
  | record (fields : List (NString × QuintReplayValue))

/-- A state: what is bound to its variables, in the order given, and the fingerprint that it claims. -/
structure QuintReplayState where
  identity : NString
  bindings : List (NString × QuintReplayValue)

/-- A step of a trace: an action, where it comes from, and the state that it should lead to. -/
structure QuintReplayStep where
  index : Int
  action : NString
  source : QuintReplaySourceBinding
  expected : QuintReplayState

/-- What a trace was produced with: the seed, the bounds, and the fingerprints of tool, profile,
    contract, adapter and implementation. -/
structure QuintReplayEnvironment where
  seed : NString
  bounds : List (NString × Int)
  toolFingerprint : NString
  profileFingerprint : NString
  contractFingerprint : NString
  adapterFingerprint : NString
  implementationFingerprint : NString

/-- A trace: an initial state and the steps from it, with the environment and the fingerprint that it
    claims. -/
structure QuintReplayTrace where
  schemaVersion : Int
  traceIdentity : NString
  environment : QuintReplayEnvironment
  initial : QuintReplayState
  steps : List QuintReplayStep

/-- What the consumer of an ITF document says about one transition of it. -/
structure QuintItfStepBinding where
  index : Int
  action : NString
  source : QuintReplaySourceBinding

/-- What an ITF document lacks and a trace needs: an environment, and a binding for each transition. -/
structure QuintItfDecodeContext where
  environment : QuintReplayEnvironment
  steps : List QuintItfStepBinding

/-- What an implementation was seen to do at one step. -/
structure QuintReplayObservation where
  index : Int
  action : NString
  source : QuintReplaySourceBinding
  actual : QuintReplayState

/-- A finding: its code, the path of what it is about, and a text. -/
structure QuintReplayDiagnostic where
  code : UString
  path : UString
  message : UString
  deriving DecidableEq

/-- Where observations first differ from a trace, and why. -/
structure QuintReplayDivergence where
  step : Int
  action : NString
  source : QuintReplaySourceBinding
  expected : Option QuintReplayState
  actual : Option QuintReplayState
  reason : UString

/-- The verdict of the offline comparison. -/
inductive QuintReplayResult where
  | equivalent
  | diverged (difference : QuintReplayDivergence)

/-! ## Results and exceptions -/

/-- The types of exception the code raises, catches or lets through. -/
inductive ExceptionType where
  | operationCanceled
  | argument
  | encoderFallback
  | decoderFallback
  | invalidOperation
  | nullReference
  | json
  | other
  deriving DecidableEq

/-- The fallback exceptions of the text encodings are argument exceptions. -/
def ExceptionType.isArgument : ExceptionType → Bool
  | .argument | .encoderFallback | .decoderFallback => true
  | _ => false

/-- A .NET exception, as far as a handler can tell it from another. -/
structure Exn where
  type : ExceptionType
  message : UString
  deriving DecidableEq

/-- What a call does: it comes back, or an exception escapes. -/
abbrev Outcome (α : Type) := Except Exn α

/-- What a call that does not throw answers. -/
abbrev Result (α : Type) := Except (List QuintReplayDiagnostic) α

/-- The outcome `x` is that the call comes back with some answer. -/
def Outcome.Answers {α : Type} (x : Outcome α) : Prop := ∃ a, x = .ok a

/-- A computation that succeeds passes its value on. -/
theorem ok_bind {α β : Type} (a : α) (f : α → Outcome β) : (Except.ok a >>= f) = f a := rfl

/-- An exception ends the computation. -/
theorem error_bind {α β : Type} (e : Exn) (f : α → Outcome β) :
    (Except.error e >>= f) = .error e := rfl

/-- `pure` is `ok`, the spelling in which results are stated. -/
theorem pure_eq_ok {α : Type} (a : α) : (pure a : Outcome α) = .ok a := rfl

/-- A sequence comes back when both its parts do. -/
theorem bind_eq_ok {α β : Type} {x : Outcome α} {f : α → Outcome β} {b : β} :
    (x >>= f) = .ok b ↔ ∃ a, x = .ok a ∧ f a = .ok b := by
  cases x with
  | error e => simp [error_bind]
  | ok a => simp [ok_bind]

/-- A check that raises an exception when `p` holds, followed by something else. -/
theorem guard_eq_ok_iff {α : Type} {p : Prop} [Decidable p] {e : Exn} {x : Outcome α} {a : α} :
    (if p then throw e >>= fun _ : PUnit => x else x) = .ok a ↔ ¬ p ∧ x = .ok a := by
  by_cases h : p
  · rw [if_pos h]
    exact ⟨(nomatch ·), fun hx => absurd h hx.1⟩
  · rw [if_neg h]
    exact ⟨fun hx => ⟨h, hx⟩, fun hx => hx.2⟩

/-- A traversal comes back when every call of it does. -/
theorem mapM_ok {α β : Type} {f : α → Outcome β} {g : α → β} :
    ∀ {xs : List α}, (∀ x ∈ xs, f x = .ok (g x)) → xs.mapM f = .ok (xs.map g)
  | [], _ => rfl
  | x :: xs, h => by
    rw [List.mapM_cons, h x List.mem_cons_self, ok_bind,
      mapM_ok fun y hy => h y (List.mem_cons_of_mem x hy), ok_bind]
    rfl

/-- What a traversal comes back with, item by item. -/
theorem mapM_eq_ok_iff {α β : Type} {f : α → Outcome β} :
    ∀ {xs : List α} {ys : List β}, xs.mapM f = .ok ys ↔ List.Forall₂ (fun x y => f x = .ok y) xs ys
  | [], ys => by
    rw [List.forall₂_nil_left_iff]
    exact ⟨fun h => (Except.ok.inj h).symm, fun h => congrArg Except.ok h.symm⟩
  | x :: xs, ys => by
    rw [List.mapM_cons, bind_eq_ok]
    constructor
    · rintro ⟨y, hy, h⟩
      obtain ⟨rest, hrest, h⟩ := bind_eq_ok.mp h
      rw [← Except.ok.inj h]
      exact .cons hy (mapM_eq_ok_iff.mp hrest)
    · intro h
      cases h with
      | cons hy hrest => exact ⟨_, hy, bind_eq_ok.mpr ⟨_, mapM_eq_ok_iff.mpr hrest, rfl⟩⟩

/-- The exception of a member access on `null`. -/
def nullReference : Exn :=
  ⟨.nullReference, "Object reference not set to an instance of an object."⟩

/-- The platform: the hash function, the printed form of a list of diagnostics (`%A`), and the
    message with which a text that is not JSON is refused. -/
structure Platform where
  hashData : ByteArray → Vector UInt8 32
  formatDiagnostics : List QuintReplayDiagnostic → UString
  jsonMessage : UString → UString

end FsQuint
