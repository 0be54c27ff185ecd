/-
  Programs that keep their state on disk, and can die at any moment.

  1. **Programs** (`Prog`): they load the disk, save to it atomically, and ask an outside.
  2. **Runs** (`exec`): the outside answers as it likes, depending on all that it was asked before, and
     the process lives for a number of effects.  A question after which the process died has no answer
     in the record, but was asked.
  3. **The crash rule** (`Holds`, `exec_holds`): what holds before every effect of a program holds of
     what its process leaves behind, whenever it dies.  A process that starts where another died sees the
     disk and nothing else, so that the rule carries over to runs of many (`runAll_keeps`).
-/
import Mathlib.Data.List.Basic

namespace Durable

/-- A question, with its answer if the process lived to see it. -/
structure Entry {Q : Type} (A : Q → Type) where
  question : Q
  answer : Option (A question)

/-- A disk, and the record of the questions that were asked and of their answers. -/
structure World (D : Type) {Q : Type} (A : Q → Type) where
  disk : D
  log : List (Entry A)

/-- A program: it may look at the disk, change it, and ask the outside. -/
inductive Prog (D : Type) {Q : Type} (A : Q → Type) (α : Type) where
  | done (result : α)
  | load (next : D → Prog D A α)
  | save (change : D → D) (next : Prog D A α)
  | ask (question : Q) (next : A question → Prog D A α)

variable {D Q α β : Type} {A : Q → Type}

/-- One program after another. -/
def Prog.bind : Prog D A α → (α → Prog D A β) → Prog D A β
  | .done result, f => f result
  | .load next, f => .load fun disk => (next disk).bind f
  | .save change next, f => .save change (next.bind f)
  | .ask question next, f => .ask question fun answer => (next answer).bind f

instance : Monad (Prog D A) where
  pure := Prog.done
  bind := Prog.bind

/-- Sequencing is associative. -/
theorem bind_assoc {γ : Type} {p : Prog D A α} {f : α → Prog D A β} {g : β → Prog D A γ} :
    (p.bind f).bind g = p.bind fun a => (f a).bind g := by
  induction p with
  | done result => rfl
  | load next ih => exact congrArg Prog.load (funext fun disk => ih disk)
  | save change next ih => exact congrArg (Prog.save change) ih
  | ask question next ih => exact congrArg (Prog.ask question) (funext fun answer => ih answer)

/-! ## Runs -/

variable (outside : List (Entry A) → (question : Q) → A question)

/-- What a process leaves behind that lives for a number of effects, and what it comes to if it lives
    long enough. -/
def exec : Prog D A α → Nat → World D A → World D A × Option α
  | .done result, _, w => (w, some result)
  | _, 0, w => (w, none)
  | .load next, n + 1, w => exec (next w.disk) n w
  | .save change next, n + 1, w => exec next n { w with disk := change w.disk }
  | .ask question _, 1, w => ({ w with log := w.log ++ [⟨question, none⟩] }, none)
  | .ask question next, n + 2, w =>
    let answer := outside w.log question
    exec (next answer) n { w with log := w.log ++ [⟨question, some answer⟩] }

/-- Processes one after the other, each with its lifetime. -/
def runAll (w : World D A) (processes : List (Prog D A α × Nat)) : World D A :=
  processes.foldl (fun w process => (exec outside process.1 process.2 w).1) w

/-! ## The crash rule -/

section Crash

variable (Allowed : List (Entry A) → (question : Q) → A question → Prop) (I : World D A → Prop)

/-- `I` holds before every effect of a program, whatever is answered that is allowed, and when the program
    is done then also `post` does. -/
def Holds (post : α → World D A → Prop) : Prog D A α → World D A → Prop
  | .done result, w => I w ∧ post result w
  | .load next, w => I w ∧ Holds post (next w.disk) w
  | .save change next, w => I w ∧ Holds post next { w with disk := change w.disk }
  | .ask question next, w =>
    I w ∧ I { w with log := w.log ++ [⟨question, none⟩] } ∧ ∀ answer, Allowed w.log question answer →
      Holds post (next answer) { w with log := w.log ++ [⟨question, some answer⟩] }

variable {Allowed I} {post post' : α → World D A → Prop} {w : World D A}

/-- What is said of the end may be weakened. -/
theorem Holds.mono {p : Prog D A α} (hpost : ∀ a w, I w → post a w → post' a w) (h : Holds Allowed I post p w) :
    Holds Allowed I post' p w := by
  induction p generalizing w with
  | done result => exact ⟨h.1, hpost _ _ h.1 h.2⟩
  | load next ih => exact ⟨h.1, ih _ h.2⟩
  | save change next ih => exact ⟨h.1, ih h.2⟩
  | ask question next ih => exact ⟨h.1, h.2.1, fun answer hanswer => ih _ (h.2.2 answer hanswer)⟩

/-- A program after another. -/
theorem Holds.bind {p : Prog D A β} {f : β → Prog D A α}
    (h : Holds Allowed I (fun b w => Holds Allowed I post (f b) w) p w) : Holds Allowed I post (p.bind f) w := by
  induction p generalizing w with
  | done result => exact h.2
  | load next ih => exact ⟨h.1, ih _ h.2⟩
  | save change next ih => exact ⟨h.1, ih h.2⟩
  | ask question next ih => exact ⟨h.1, h.2.1, fun answer hanswer => ih _ (h.2.2 answer hanswer)⟩

/-- **Whenever the process dies**, it leaves `I` behind; and if it lived to the end, then also `post`. -/
theorem exec_holds {outside : List (Entry A) → (question : Q) → A question}
    (houtside : ∀ log question, Allowed log question (outside log question)) (p : Prog D A α) (n : Nat)
    {w : World D A} (h : Holds Allowed I post p w) :
    I (exec outside p n w).1 ∧ ∀ a, (exec outside p n w).2 = some a → post a (exec outside p n w).1 := by
  induction p generalizing n w with
  | done result =>
    refine ⟨by rw [exec]; exact h.1, ?_⟩
    intro a ha
    rw [exec] at ha ⊢
    rw [← Option.some_inj.mp ha]
    exact h.2
  | load next ih =>
    cases n with
    | zero => exact ⟨h.1, fun a ha => absurd ha (by simp [exec])⟩
    | succ n => exact ih _ n h.2
  | save change next ih =>
    cases n with
    | zero => exact ⟨h.1, fun a ha => absurd ha (by simp [exec])⟩
    | succ n => exact ih n h.2
  | ask question next ih =>
    rcases n with - | - | n
    · exact ⟨h.1, fun a ha => absurd ha (by simp [exec])⟩
    · exact ⟨h.2.1, fun a ha => absurd ha (by simp [exec])⟩
    · exact ih _ n (h.2.2 _ (houtside _ _))

/-- What every process keeps, wherever it starts and dies, a run of processes keeps. -/
theorem runAll_keeps {outside : List (Entry A) → (question : Q) → A question}
    (houtside : ∀ log question, Allowed log question (outside log question))
    {processes : List (Prog D A α × Nat)}
    (h : ∀ process ∈ processes, ∀ w, I w → Holds Allowed I (fun _ _ => True) process.1 w) {w : World D A}
    (hw : I w) : I (runAll outside w processes) := by
  induction processes generalizing w with
  | nil => exact hw
  | cons process processes ih =>
    rw [List.forall_mem_cons] at h
    rw [runAll, List.foldl_cons]
    exact ih h.2 (exec_holds houtside process.1 process.2 (h.1 w hw)).1

end Crash

end Durable
