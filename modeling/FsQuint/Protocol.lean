/-
  The model that the protocol example checks its store against: a bounded shared-store protocol with
  two entities, in which claims and commits are separate operations.

  1. **The model** (`World`, `applyOp`): as the specification has it; an operation on a command that is
     not there is undefined.
  2. **Enabled operations** (`Enabled`): what a worker can do.  The model itself would let a finished
     command expire, or an action be acknowledged that is not queued.
  3. **Safety** (`enabled_safe`): every run of enabled operations is defined and stays safe, of any
     length, not only the schedules that the specification lists.

  The invariant (`Sound`) ties the history to the commands and the outbox to the history; every
  operation that is enabled keeps it, by cases on the kind of the operation and the status of its
  command.
-/
import Mathlib.Data.List.Nodup
import FsQuint.Lib.QuintList

namespace FsQuint

namespace Protocol

open QuintList

/-- Where a command is. -/
inductive Status where
  | ready
  | leased
  | done
  | dead
  | rejected
  deriving DecidableEq

/-- A command of the specification. -/
structure Cmd where
  entity : Int
  payload : Int
  status : Status
  token : Int
  failures : Int
  deriving DecidableEq

/-- The variables of the specification. -/
structure World where
  commands : List Cmd
  epochs : List Int
  amounts : List Int
  history : List Int
  outbox : List Int
  effects : List Int
  acked : Int
  attempts : Int
  fenced : Int
  dead : Int
  rejected : Int
  serial : Int
  deriving DecidableEq

/-- The operations, by name. -/
inductive Kind where
  | submit
  | claim
  | expire
  | commit
  | fail
  | reject
  | deliver
  | ack
  deriving DecidableEq

/-- An operation with its arguments; which of them count depends on the kind. -/
structure Op where
  kind : Kind
  id : Int
  entity : Int
  value : Int
  deriving DecidableEq

/-- What is compared with the metrics of the store. -/
structure Observation where
  submitted : Int
  epochs : List Int
  amounts : List Int
  commits : Int
  queued : Int
  acknowledged : Int
  fenced : Int
  dead : Int
  rejected : Int
  winners : List Int
  deliveryAttempts : Int
  effects : Int
  deriving DecidableEq

/-- The initial state. -/
def initial : World where
  commands := []
  epochs := [0, 0]
  amounts := [0, 0]
  history := []
  outbox := []
  effects := []
  acked := 0
  attempts := 0
  fenced := 0
  dead := 0
  rejected := 0
  serial := 0

/-- A command that blocks no other. -/
def finalized (c : Cmd) : Bool := c.status = .done || c.status = .dead || c.status = .rejected

/-- No earlier command of the entity is unfinished, and the command is ready. -/
def eligible (w : World) (id : Int) (c : Cmd) : Bool :=
  c.status = .ready && w.commands.zipIdx.all fun (earlier, i) =>
    decide ((i : Int) ≥ id) || earlier.entity ≠ c.entity || finalized earlier

/-- An operation on a command that is there. -/
def applyTo (w : World) (o : Op) (c : Cmd) : Option World :=
  match o.kind with
  | .claim =>
    if eligible w o.id c then do
      let commands ← replaceAt w.commands o.id { c with status := .leased, token := w.serial + 1 }
      return { w with serial := w.serial + 1, commands := commands }
    else some w
  | .expire => do
    let commands ← replaceAt w.commands o.id { c with status := .ready }
    return { w with commands := commands }
  | .commit =>
    if c.status = .done ∧ c.token = o.value then some w
    else if c.status ≠ .leased ∨ c.token ≠ o.value then some { w with fenced := w.fenced + 1 }
    else do
      let commands ← replaceAt w.commands o.id { c with status := .done }
      let epochs ← replaceAt w.epochs c.entity ((← nth w.epochs c.entity) + 1)
      let amounts ← replaceAt w.amounts c.entity ((← nth w.amounts c.entity) + c.payload)
      return { w with commands := commands, history := w.history ++ [o.id], outbox := w.outbox ++ [o.id]
                      epochs := epochs, amounts := amounts }
  | .fail => do
    let dead := decide (c.failures + 1 ≥ 3)
    let commands ← replaceAt w.commands o.id
      { c with status := if dead then .dead else .ready, failures := c.failures + 1 }
    return { w with commands := commands, dead := w.dead + if dead then 1 else 0 }
  | _ => do
    let commands ← replaceAt w.commands o.id { c with status := .rejected }
    return { w with rejected := w.rejected + 1, commands := commands }

/-- **`applyOp`**: the effect of one operation; `none` where it looks a command up that there is not. -/
def applyOp (w : World) (o : Op) : Option World :=
  if o.kind = .submit then
    some (if o.id < w.commands.length then w
      else { w with commands := w.commands ++ [⟨o.entity, o.value, .ready, 0, 0⟩] })
  else if o.kind = .deliver then
    let seen := decide ((w.effects.filter fun id => id = o.id).length > 0)
    some { w with attempts := w.attempts + 1, effects := if seen then w.effects else w.effects ++ [o.id] }
  else if o.kind = .ack then
    some { w with acked := w.acked + 1, outbox := w.outbox.filter fun id => id ≠ o.id }
  else do
    applyTo w o (← nth w.commands o.id)

/-- The observation of a state. -/
def observe (w : World) : Observation where
  submitted := w.commands.length
  epochs := w.epochs
  amounts := w.amounts
  commits := w.history.length
  queued := w.outbox.length
  acknowledged := w.acked
  fenced := w.fenced
  dead := w.dead
  rejected := w.rejected
  winners := (w.commands.filter fun c => c.status = .done).map Cmd.token
  deliveryAttempts := w.attempts
  effects := w.effects.length

/-- The safety of a world; a history without repetitions is one whose entries at different indices
    differ. -/
def safe (w : World) : Bool :=
  decide ((w.history.length : Int) = w.epochs.foldl (fun sum e => sum + e) 0) &&
    decide ((w.history.length : Int) = w.outbox.length + w.acked) &&
    decide w.history.Nodup && decide ((w.effects.length : Int) ≤ w.attempts)

/-- The operations are applied in turn. -/
def applyAll (w : World) (ops : List Op) : Option World := ops.foldlM applyOp w

/-- A command that was submitted before changes nothing. -/
theorem applyOp_submitted {w : World} {id entity value : Int} (h : id < w.commands.length) :
    applyOp w ⟨.submit, id, entity, value⟩ = some w :=
  (if_pos rfl).trans (congrArg some (if_pos h))

/-- A new one is ready. -/
theorem applyOp_submit {w : World} {id entity value : Int} (h : ¬ id < w.commands.length) :
    applyOp w ⟨.submit, id, entity, value⟩ =
      some { w with commands := w.commands ++ [⟨entity, value, .ready, 0, 0⟩] } :=
  (if_pos rfl).trans (congrArg some (if_neg h))

/-- The operations that look at a command. -/
def Kind.onCommand : Kind → Bool
  | .submit | .deliver | .ack => false
  | _ => true

/-- The other operations look their command up. -/
theorem applyOp_eq {w : World} {o : Op} {i : Nat} {c : Cmd} (hid : o.id = i) (hc : w.commands[i]? = some c)
    (h : o.kind.onCommand = true) : applyOp w o = applyTo w o c := by
  have hne : ∀ kind : Kind, kind.onCommand = false → o.kind ≠ kind := by
    rintro kind hkind rfl
    rw [h] at hkind
    exact absurd hkind (by decide)
  rw [applyOp, if_neg (hne _ rfl), if_neg (hne _ rfl), if_neg (hne _ rfl), hid, nth_natCast, hc]
  rfl

/-! ## Enabled operations -/

/-- What a worker can do: it works on commands that are there, leaves the finished ones as they are, and
    acknowledges what is queued. -/
def enabled (w : World) (o : Op) : Bool :=
  match o.kind with
  | .submit => decide (0 ≤ o.entity ∧ o.entity < 2)
  | .claim | .commit => (nth w.commands o.id).isSome
  | .expire | .fail | .reject => (nth w.commands o.id).any fun c => c.status ≠ .done
  | .deliver => true
  | .ack => w.outbox.contains o.id

/-- Each operation is enabled when it is applied. -/
def enabledAll : World → List Op → Bool
  | _, [] => true
  | w, o :: ops => enabled w o && (applyOp w o).all fun w' => enabledAll w' ops

/-- Enabled operations lead from one world to another. -/
def Leads (w : World) (ops : List Op) (w' : World) : Prop := enabledAll w ops = true ∧ applyAll w ops = some w'

/-- No operation leads nowhere. -/
theorem Leads.refl (w : World) : Leads w [] w := ⟨rfl, rfl⟩

/-- One more operation in front, if it is enabled. -/
theorem Leads.cons {w w₁ w₂ : World} {o : Op} {ops : List Op} (h : Leads w₁ ops w₂)
    (henabled : enabled w o = true) (happly : applyOp w o = some w₁) : Leads w (o :: ops) w₂ := by
  refine ⟨?_, ?_⟩
  · rw [enabledAll, happly, Option.all_some, henabled, h.1]
    rfl
  · rw [applyAll, List.foldlM_cons, happly]
    exact h.2

/-- A single one. -/
theorem Leads.single {w w' : World} {o : Op} (henabled : enabled w o = true) (happly : applyOp w o = some w') :
    Leads w [o] w' := (Leads.refl w').cons henabled happly

/-- And runs one after the other. -/
theorem Leads.trans {w₁ w₂ w₃ : World} {ops ops' : List Op} (h : Leads w₁ ops w₂) (h' : Leads w₂ ops' w₃) :
    Leads w₁ (ops ++ ops') w₃ := by
  induction ops generalizing w₁ with
  | nil =>
    rw [← Option.some_inj.mp h.2] at h'
    exact h'
  | cons o ops ih =>
    obtain ⟨henabled, happly⟩ := h
    rw [applyAll, List.foldlM_cons] at happly
    obtain ⟨w, hstep, hrest⟩ := Option.bind_eq_some_iff.mp happly
    rw [enabledAll, Bool.and_eq_true, hstep, Option.all_some] at henabled
    exact (ih ⟨henabled.2, hrest⟩).cons henabled.1 hstep

/-- An operation on a command that is there. -/
theorem leads_command {w w' : World} {o : Op} {i : Nat} {c : Cmd} (hid : o.id = i) (hc : w.commands[i]? = some c)
    (h : o.kind.onCommand = true) (hfinished : o.kind = .claim ∨ o.kind = .commit ∨ c.status ≠ .done)
    (happly : applyTo w o c = some w') :
    Leads w [o] w' := by
  refine Leads.single ?_ ((applyOp_eq hid hc h).trans happly)
  have hnth : nth w.commands o.id = some c := by rw [hid, nth_natCast, hc]
  rw [enabled]
  cases hkind : o.kind with
  | submit | deliver | ack => simp [hkind, Kind.onCommand] at h
  | claim | commit =>
    simp only
    rw [hnth]
    rfl
  | expire | fail | reject =>
    simp only
    rw [hnth, Option.any_some, decide_eq_true_eq]
    simpa [hkind] using hfinished

/-! ## Safety -/

/-- The command at an index is finished by a commit. -/
def Done (w : World) (id : Int) : Prop := ∃ c, nth w.commands id = some c ∧ c.status = .done

/-- What enabled operations keep. -/
structure Sound (w : World) : Prop where
  entities : ∀ c ∈ w.commands, 0 ≤ c.entity ∧ c.entity < 2
  epochs : w.epochs.length = 2
  amounts : w.amounts.length = 2
  committed : ∀ id, id ∈ w.history ↔ Done w id
  once : w.history.Nodup
  count : (w.history.length : Int) = w.epochs.sum
  queued : w.outbox.Sublist w.history
  conserved : (w.history.length : Int) = w.outbox.length + w.acked
  delivered : (w.effects.length : Int) ≤ w.attempts

/-- The invariant holds in the initial state. -/
theorem sound_initial : Sound initial where
  entities _ h := absurd h List.not_mem_nil
  epochs := rfl
  amounts := rfl
  committed id := by
    refine ⟨fun h => absurd h List.not_mem_nil, fun ⟨c, hc, _⟩ => ?_⟩
    obtain ⟨n, -, hn⟩ := nth_eq_some hc
    exact absurd hn (by simp [initial])
  once := List.nodup_nil
  count := rfl
  queued := List.Sublist.refl _
  conserved := rfl
  delivered := Int.le_refl _

/-- **The invariant implies the property that the specification checks.** -/
theorem Sound.safe {w : World} (h : Sound w) : safe w = true := by
  have hsum : w.epochs.foldl (fun sum e => sum + e) 0 = w.epochs.sum := by
    rw [← List.sum_eq_foldl]
  simp only [Protocol.safe, Bool.and_eq_true, decide_eq_true_eq, hsum]
  exact ⟨⟨⟨h.count, h.conserved⟩, h.once⟩, h.delivered⟩

/-- What a replacement of the command at an index does to what is done. -/
theorem done_set {w w' : World} {i : Nat} {c c' : Cmd} (hc : w.commands[i]? = some c)
    (hcommands : w'.commands = w.commands.set i c') (id : Int) :
    Done w' id ↔ if id = i then c'.status = .done else Done w id := by
  have hlt : i < w.commands.length := (List.getElem?_eq_some_iff.mp hc).1
  split
  · next hid =>
    rw [Done, hid, hcommands, nth_natCast, List.getElem?_set_self hlt]
    simp
  · next hid =>
    have hne : ∀ n : Nat, id = n → i ≠ n := fun n hn h => hid (h ▸ hn)
    constructor
    · rintro ⟨x, hx, hdone⟩
      obtain ⟨n, hn, hx⟩ := nth_eq_some hx
      rw [hcommands, List.getElem?_set_ne (hne n hn)] at hx
      exact ⟨x, by rw [hn, nth_natCast, hx], hdone⟩
    · rintro ⟨x, hx, hdone⟩
      obtain ⟨n, hn, hx⟩ := nth_eq_some hx
      refine ⟨x, ?_, hdone⟩
      rw [hn, nth_natCast, hcommands, List.getElem?_set_ne (hne n hn), hx]

/-- A replacement of a command that commits nothing keeps the soundness. -/
theorem Sound.replace {w w' : World} (h : Sound w) {i : Nat} {c c' : Cmd} (hc : w.commands[i]? = some c)
    (hcommands : w'.commands = w.commands.set i c') (hentity : c'.entity = c.entity)
    (hdone : c'.status = .done ↔ c.status = .done)
    (hrest : w'.epochs = w.epochs ∧ w'.amounts = w.amounts ∧ w'.history = w.history ∧ w'.outbox = w.outbox ∧
      w'.effects = w.effects ∧ w'.acked = w.acked ∧ w'.attempts = w.attempts) : Sound w' := by
  obtain ⟨hepochs, hamounts, hhistory, houtbox, heffects, hacked, hattempts⟩ := hrest
  refine ⟨fun x hx => ?_, hepochs ▸ h.epochs, hamounts ▸ h.amounts, fun id => ?_, hhistory ▸ h.once,
    by rw [hhistory, hepochs]; exact h.count, by rw [hhistory, houtbox]; exact h.queued,
    by rw [hhistory, houtbox, hacked]; exact h.conserved, by rw [heffects, hattempts]; exact h.delivered⟩
  · rw [hcommands] at hx
    rcases List.mem_or_eq_of_mem_set hx with hx | rfl
    · exact h.entities x hx
    · rw [hentity]
      exact h.entities c (List.mem_of_getElem? hc)
  · rw [hhistory, h.committed, done_set hc hcommands]
    split
    · next hid =>
      rw [hid, Done, nth_natCast, hc]
      simp [hdone]
    · exact Iff.rfl

/-- A commit of a leased command. -/
theorem Sound.commit {w : World} (h : Sound w) {i : Nat} {c : Cmd} (hc : w.commands[i]? = some c)
    (hleased : c.status = .leased) {o : Op} (hid : o.id = i) (hkind : o.kind = .commit) (htoken : c.token = o.value) :
    ∃ w', applyTo w o c = some w' ∧ Sound w' := by
  have hlt : i < w.commands.length := (List.getElem?_eq_some_iff.mp hc).1
  obtain ⟨he₀, he₂⟩ := h.entities c (List.mem_of_getElem? hc)
  obtain ⟨e, he⟩ : ∃ e : Nat, c.entity = e := ⟨c.entity.toNat, (Int.toNat_of_nonneg he₀).symm⟩
  have hepoch : e < w.epochs.length := by rw [h.epochs]; omega
  have hamount : e < w.amounts.length := by rw [h.amounts]; omega
  have hnew : o.id ∉ w.history := by
    rw [h.committed, hid]
    rintro ⟨x, hx, hdone⟩
    rw [nth_natCast, hc, Option.some_inj] at hx
    rw [← hx, hleased] at hdone
    exact absurd hdone (by decide)
  refine ⟨{ w with
    commands := w.commands.set i { c with status := .done }, history := w.history ++ [o.id]
    outbox := w.outbox ++ [o.id], epochs := w.epochs.set e (w.epochs.get ⟨e, hepoch⟩ + 1)
    amounts := w.amounts.set e (w.amounts.get ⟨e, hamount⟩ + c.payload) }, ?_, ?_⟩
  · have hnotDone : ¬ (c.status = .done ∧ c.token = o.value) := by
      rw [hleased]
      exact fun h => absurd h.1 (by decide)
    have hmine : ¬ (c.status ≠ .leased ∨ c.token ≠ o.value) := fun h => h.elim (· hleased) (· htoken)
    simp only [applyTo, hkind]
    rw [if_neg hnotDone, if_neg hmine, hid, he, replaceAt_natCast hlt, nth_natCast, nth_natCast,
      List.getElem?_eq_getElem hepoch, List.getElem?_eq_getElem hamount]
    simp only [Option.bind_eq_bind, Option.bind_some, replaceAt_natCast hepoch, replaceAt_natCast hamount,
      Option.pure_def, List.get_eq_getElem]
  · refine ⟨fun x hx => ?_, by rw [List.length_set, h.epochs], by rw [List.length_set, h.amounts],
      fun id => ?_, ?_, ?_, h.queued.append (List.Sublist.refl _), ?_, h.delivered⟩
    · rcases List.mem_or_eq_of_mem_set hx with hx | rfl
      · exact h.entities x hx
      · exact h.entities c (List.mem_of_getElem? hc)
    · rw [done_set (w := w) hc rfl, List.mem_append, List.mem_singleton, h.committed, hid]
      split
      · next hi => exact ⟨fun _ => rfl, fun _ => .inr hi⟩
      · next hi => exact ⟨fun hor => hor.resolve_right hi, .inl⟩
    · rw [List.nodup_append]
      refine ⟨h.once, List.nodup_singleton _, fun a ha b hb hab => hnew ?_⟩
      rw [List.mem_singleton] at hb
      rw [← hb, ← hab]
      exact ha
    · rw [sum_set (List.getElem?_eq_getElem hepoch), List.length_append, List.length_singleton,
        List.get_eq_getElem]
      have := h.count
      push_cast
      omega
    · rw [List.length_append, List.length_append, List.length_singleton]
      have := h.conserved
      push_cast
      omega

/-- An operation on a command that is there. -/
theorem Sound.applyTo {w : World} (h : Sound w) {o : Op} {i : Nat} {c : Cmd} (hid : o.id = i)
    (hc : w.commands[i]? = some c) (hfinished : o.kind ≠ .claim → o.kind ≠ .commit → c.status ≠ .done) :
    ∃ w', applyTo w o c = some w' ∧ Sound w' := by
  have hset : ∀ c' : Cmd, replaceAt w.commands o.id c' = some (w.commands.set i c') := by
    intro c'
    rw [hid, replaceAt_natCast (List.getElem?_eq_some_iff.mp hc).1]
  -- a replacement that leaves the command unfinished
  have hkeep : ∀ (c' : Cmd) (dead rejected serial : Int), c'.entity = c.entity → c'.status ≠ .done →
      c.status ≠ .done →
      Sound { w with commands := w.commands.set i c', dead := dead, rejected := rejected, serial := serial } := by
    intro c' dead rejected serial hentity h' hnot
    exact h.replace hc rfl hentity ⟨fun hd => absurd hd h', fun hd => absurd hd hnot⟩
      ⟨rfl, rfl, rfl, rfl, rfl, rfl, rfl⟩
  have hready : Status.ready ≠ .done := by decide
  have hleased : Status.leased ≠ .done := by decide
  have hdead : Status.dead ≠ .done := by decide
  have hrejected : Status.rejected ≠ .done := by decide
  have hother : ∀ kind : Kind, o.kind = kind → kind ≠ .claim → kind ≠ .commit → c.status ≠ .done := by
    intro kind hkind h₁ h₂
    exact hfinished (hkind ▸ h₁) (hkind ▸ h₂)
  have hreject : ∃ w', (do
      let commands ← replaceAt w.commands o.id { c with status := .rejected }
      return { w with rejected := w.rejected + 1, commands := commands }) = some w' ∧ (o.kind ≠ .claim →
        o.kind ≠ .commit → Sound w') := by
    rw [hset]
    exact ⟨_, rfl, fun h₁ h₂ => hkeep _ w.dead _ w.serial rfl hrejected (hfinished h₁ h₂)⟩
  cases hkind : o.kind with
  | claim =>
    simp only [Protocol.applyTo, hkind, hset]
    split
    · next hel =>
      rw [eligible, Bool.and_eq_true, decide_eq_true_eq] at hel
      exact ⟨_, rfl, hkeep _ w.dead w.rejected _ rfl hleased (hel.1 ▸ hready)⟩
    · exact ⟨w, rfl, h⟩
  | expire =>
    simp only [Protocol.applyTo, hkind, hset]
    exact ⟨_, rfl, hkeep _ w.dead w.rejected w.serial rfl hready (hother _ hkind (by decide) (by decide))⟩
  | commit =>
    by_cases hdone : c.status = .done ∧ c.token = o.value
    · exact ⟨w, by simp only [Protocol.applyTo, hkind]; rw [if_pos hdone], h⟩
    · by_cases hmine : c.status = .leased ∧ c.token = o.value
      · exact h.commit hc hmine.1 hid hkind hmine.2
      · refine ⟨{ w with fenced := w.fenced + 1 }, ?_, ⟨h.entities, h.epochs, h.amounts, h.committed, h.once,
          h.count, h.queued, h.conserved, h.delivered⟩⟩
        simp only [Protocol.applyTo, hkind]
        rw [if_neg hdone, if_pos (not_and_or.mp hmine)]
  | fail =>
    simp only [Protocol.applyTo, hkind, hset]
    refine ⟨_, rfl, hkeep _ _ w.rejected w.serial rfl ?_ (hother _ hkind (by decide) (by decide))⟩
    split
    · exact hdead
    · exact hready
  | reject | submit | deliver | ack =>
    obtain ⟨w', happly, hsound⟩ := hreject
    simp only [Protocol.applyTo, hkind]
    exact ⟨w', happly, hsound (by rw [hkind]; decide) (by rw [hkind]; decide)⟩

/-- A new command. -/
theorem Sound.submit {w : World} (h : Sound w) {c : Cmd} (hentity : 0 ≤ c.entity ∧ c.entity < 2)
    (hready : c.status = .ready) : Sound { w with commands := w.commands ++ [c] } := by
  refine ⟨fun x hx => ?_, h.epochs, h.amounts, fun id => ?_, h.once, h.count, h.queued, h.conserved, h.delivered⟩
  · rcases List.mem_append.mp hx with hx | hx
    · exact h.entities x hx
    · rw [List.mem_singleton.mp hx]
      exact hentity
  · rw [h.committed]
    constructor
    · rintro ⟨x, hx, hdone⟩
      obtain ⟨n, hn, hx⟩ := nth_eq_some hx
      refine ⟨x, ?_, hdone⟩
      rw [hn, nth_natCast, List.getElem?_append_left (List.getElem?_eq_some_iff.mp hx).1, hx]
    · rintro ⟨x, hx, hdone⟩
      obtain ⟨n, hn, hx⟩ := nth_eq_some hx
      rw [List.getElem?_append] at hx
      split at hx
      · exact ⟨x, by rw [hn, nth_natCast, hx], hdone⟩
      · rw [List.getElem?_singleton] at hx
        split at hx
        · rw [← Option.some_inj.mp hx, hready] at hdone
          exact absurd hdone (by decide)
        · exact absurd hx (by simp)

/-- An acknowledgement of what is queued: the action is queued once, since its command is committed
    once. -/
theorem Sound.ack {w : World} (h : Sound w) {id : Int} (hqueued : id ∈ w.outbox) :
    Sound { w with acked := w.acked + 1, outbox := w.outbox.filter fun a => a ≠ id } := by
  refine ⟨h.entities, h.epochs, h.amounts, h.committed, h.once, h.count, List.filter_sublist.trans h.queued, ?_,
    h.delivered⟩
  have hnodup : w.outbox.Nodup := h.once.sublist h.queued
  have hfilter : (w.outbox.filter fun a => a ≠ id) = w.outbox.erase id := by
    rw [List.Nodup.erase_eq_filter hnodup]
    exact List.filter_congr fun a _ => by rw [bne, decide_not, beq_eq_decide]
  have hlength : (w.outbox.erase id).length + 1 = w.outbox.length := List.length_erase_add_one hqueued
  have hconserved := h.conserved
  rw [hfilter]
  simp only
  omega

/-- **An enabled operation is defined, and keeps the soundness.** -/
theorem Sound.step {w : World} (h : Sound w) {o : Op} (henabled : enabled w o = true) :
    ∃ w', applyOp w o = some w' ∧ Sound w' := by
  have hcommand : (nth w.commands o.id).isSome → (∀ c, nth w.commands o.id = some c → o.kind ≠ .claim →
      o.kind ≠ .commit → c.status ≠ .done) → o.kind.onCommand = true → ∃ w', applyOp w o = some w' ∧ Sound w' := by
    intro hsome hfinished hkind
    obtain ⟨c, hc⟩ := Option.isSome_iff_exists.mp hsome
    obtain ⟨i, hi, hci⟩ := nth_eq_some hc
    obtain ⟨w', happly, hsound⟩ := h.applyTo hi hci (hfinished c hc)
    exact ⟨w', (applyOp_eq hi hci hkind).trans happly, hsound⟩
  cases hkind : o.kind with
  | submit =>
    rw [enabled, hkind, decide_eq_true_eq] at henabled
    rw [applyOp, if_pos hkind]
    refine ⟨_, rfl, ?_⟩
    split
    · exact h
    · exact h.submit henabled rfl
  | deliver =>
    rw [applyOp, if_neg (by rw [hkind]; decide), if_pos hkind]
    refine ⟨_, rfl, ⟨h.entities, h.epochs, h.amounts, h.committed, h.once, h.count, h.queued, h.conserved, ?_⟩⟩
    have hdelivered := h.delivered
    simp only
    split
    · omega
    · rw [List.length_append, List.length_singleton]
      push_cast
      omega
  | ack =>
    rw [enabled, hkind, List.contains_iff_mem] at henabled
    rw [applyOp, if_neg (by rw [hkind]; decide), if_neg (by rw [hkind]; decide), if_pos hkind]
    exact ⟨_, rfl, h.ack henabled⟩
  | claim | commit =>
    rw [enabled, hkind] at henabled
    refine hcommand henabled (fun c _ h₁ h₂ => ?_) (by rw [hkind]; rfl)
    exact absurd hkind (by first | exact h₁ | exact h₂)
  | expire | fail | reject =>
    rw [enabled, hkind, Option.any_eq_true] at henabled
    obtain ⟨c, hc, hnot⟩ := henabled
    refine hcommand (Option.isSome_iff_exists.mpr ⟨c, hc⟩) (fun x hx _ _ => ?_) (by rw [hkind]; rfl)
    rw [hc, Option.some_inj] at hx
    exact hx ▸ of_decide_eq_true hnot

/-- Every run of enabled operations is defined, and keeps the soundness. -/
theorem Sound.run {w : World} (h : Sound w) {ops : List Op} (henabled : enabledAll w ops = true) :
    ∃ w', Leads w ops w' ∧ Sound w' := by
  induction ops generalizing w with
  | nil => exact ⟨w, Leads.refl w, h⟩
  | cons o ops ih =>
    rw [enabledAll, Bool.and_eq_true] at henabled
    obtain ⟨w₁, hstep, h₁⟩ := h.step henabled.1
    rw [hstep, Option.all_some] at henabled
    obtain ⟨w₂, hrest, h₂⟩ := ih h₁ henabled.2
    exact ⟨w₂, hrest.cons henabled.1 hstep, h₂⟩

/-- **Every run of enabled operations is defined and safe**, of any length and in any order. -/
theorem enabled_safe (ops : List Op) (henabled : enabledAll initial ops = true) :
    ∃ w, applyAll initial ops = some w ∧ safe w = true := by
  obtain ⟨w, hleads, h⟩ := sound_initial.run henabled
  exact ⟨w, hleads.2, h.safe⟩

/-- The schedule in which a lease expires and the worker that lost it commits last. -/
theorem enabled_safe_expired :
    ∃ w, applyAll initial [⟨.submit, 0, 0, 1⟩, ⟨.claim, 0, 0, 0⟩, ⟨.expire, 0, 0, 0⟩, ⟨.claim, 0, 0, 0⟩,
      ⟨.commit, 0, 0, 1⟩, ⟨.commit, 0, 0, 2⟩] = some w ∧ safe w = true :=
  enabled_safe _ (by decide)

end Protocol

end FsQuint
