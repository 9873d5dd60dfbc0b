import Converger.Archive
import Converger.GuardedRuns
import Converger.KeyedLists
import Mathlib.Data.List.Dedup
import Mathlib.Algebra.GroupWithZero.Nat

/-!
# Retention

`Retention.run`: a month all of whose tenants are past their retention is detached, exported, verified
and dropped; otherwise the rows of the expired tenants are archived and deleted in batches. A run is
a machine that takes one storage or database operation at a time, so it can crash between any two
of them and rows can be inserted and edited in between.
-/
namespace Converger.Retention
open Archive KeyedLists

variable {α δ : Type}

/-! ### Dates -/

def yearStart (year : ℕ) : ℕ := 365 * year + (year + 3) / 4 + (year + 399) / 400 - (year + 99) / 100

def isLeap (year : ℕ) : Bool := year % 4 = 0 && (year % 100 ≠ 0 || year % 400 = 0)

def monthLengths (year : ℕ) : List ℕ :=
  [31, if isLeap year then 29 else 28, 31, 30, 31, 30, 31, 31, 30, 31, 30, 31]

def monthStart (month : ℕ) : ℤ :=
  yearStart (month / 12) + ((monthLengths (month / 12)).take (month % 12)).sum

structure Config (α δ : Type) where
  partRows : ℕ := 50000
  minRetentionDays : ℕ := 30
  digest : List (Row α) → δ

/-- All of the month is older than the retention of the tenant; the platform minimum always
applies. -/
def Config.expired (cfg : Config α δ) (month : ℕ) (retentionDays : Option ℕ) (today : ℤ) : Prop :=
  monthStart (month + 1) ≤ today - max (retentionDays.getD 0) cfg.minRetentionDays

instance (cfg : Config α δ) (month : ℕ) (retentionDays : Option ℕ) (today : ℤ) :
    Decidable (cfg.expired month retentionDays today) := inferInstanceAs (Decidable (_ ≤ _))

/-! ### Partitions -/

inductive Status where
  | attached | pending | detached
  deriving DecidableEq, Repr

structure LeafName where
  table : Table
  month : ℕ
  deriving DecidableEq, Repr

structure Leaf (α : Type) where
  status : Status
  rows : List (Row α)
  deriving DecidableEq, Repr

def Leaf.setStatus (leaf : Leaf α) (status : Status) : Leaf α := {leaf with status}

def Leaf.insert (leaf : Leaf α) (row : Row α) : Leaf α := {leaf with rows := leaf.rows ++ [row]}

def Leaf.edit [DecidableEq α] (leaf : Leaf α) (row : Row α) (value : α) : Leaf α :=
  {leaf with rows := leaf.rows.map fun other => if other = row then {row with value} else other}

def Leaf.deleteIds (leaf : Leaf α) (batch : List (Row α)) : Leaf α :=
  {leaf with rows := leaf.rows.filter (·.id ∉ batch.map Row.id)}

inductive Error where
  | archiveIncomplete (table : Table) (month actual archived : ℕ)
  | notVerified
  | attached
  | missing
  deriving DecidableEq, Repr

inductive Task where
  | detach (table : Table) (month : ℕ)
  | archiveDetachedTables (month : ℕ)
  | exportDetached (table : Table) (month : ℕ)
  | exportTenant (table : Table) (month tenant : ℕ)
  | verifyDetached (table : Table) (month : ℕ)
  | archiveAndDelete (month tenant : ℕ)
  | archiveAndDeleteTable (table : Table) (month tenant : ℕ)
  deriving DecidableEq, Repr

/-- The second half of a task: an uploaded part is recorded, a verified partition is dropped, a
locked batch is verified, recorded and deleted. -/
inductive Next (α δ : Type) where
  | record (part : Archive.Part δ)
  | drop (table : Table) (month : ℕ)
  | commit (part : Archive.Part δ) (rows : List (Row α))

inductive Control (α δ : Type) where
  | idle
  | running (today : ℤ) (next : Option (Next α δ)) (tasks : List Task) (months : List ℕ)
  | returned (error : Option Error)

def Control.result : Control α δ → Option (Option Error)
  | .returned error => some error
  | .idle | .running _ _ _ _ => none

def Control.isRunning : Control α δ → Bool
  | .running _ _ _ _ => true
  | .idle | .returned _ => false

structure State (α δ : Type) where
  leaves : List (LeafName × Leaf α) := []
  retentionDays : ℕ → Option ℕ := fun _ => none
  parts : List (Archive.Part δ) := []
  objects : Key → Option (List (Row α)) := fun _ => none
  control : Control α δ := .idle

namespace State

def leaf (s : State α δ) (table : Table) (month : ℕ) : Option (Leaf α) :=
  s.leaves.lookup ⟨table, month⟩

def rows (s : State α δ) (table : Table) (month : ℕ) : List (Row α) :=
  ((s.leaf table month).map Leaf.rows).getD []

def isDetached (s : State α δ) (month : ℕ) (table : Table) : Bool :=
  (s.leaf table month).any (·.status = .detached)

def isAttached (s : State α δ) (month : ℕ) (table : Table) : Bool :=
  (s.leaf table month).any (·.status ≠ .detached)

def locked (s : State α δ) : List (Row α) :=
  match s.control with
  | .running _ (some (.commit _ rows)) _ _ => rows
  | _ => []

end State

def tenantsIn (rows : List (Row α)) : List ℕ := (rows.map Row.tenant).dedup.insertionSort (· ≤ ·)

def State.tenantsInMonth (s : State α δ) (month : ℕ) : List ℕ :=
  ((tables.filter (s.isAttached month)).flatMap fun table =>
    tenantsIn (s.rows table month)).dedup.insertionSort (· ≤ ·)

/-- The months with a partition that ended at least the minimum before, oldest first. -/
def State.candidateMonths (cfg : Config α δ) (s : State α δ) (today : ℤ) : List ℕ :=
  (((s.leaves.map (·.1.month)).dedup.filter fun month =>
    monthStart (month + 1) ≤ today - cfg.minRetentionDays).insertionSort (· ≤ ·))

def archiveDetachedMonth (month : ℕ) : List Task :=
  tables.map (.detach · month) ++ [.archiveDetachedTables month]

/-- `process_month/2`: a month that a run has begun to drop is dropped. -/
def processMonth (cfg : Config α δ) (s : State α δ) (today : ℤ) (month : ℕ) : List Task :=
  if tables.any (s.isDetached month) then archiveDetachedMonth month
  else
    let tenants := s.tenantsInMonth month
    let expired := fun tenant => decide (cfg.expired month (s.retentionDays tenant) today)
    if tenants.all expired then archiveDetachedMonth month
    else (tenants.filter expired).map (.archiveAndDelete month)

section
variable [DecidableEq α] [DecidableEq δ]

def State.upload (cfg : Config α δ) (s : State α δ) (table : Table) (month tenant : ℕ) (mode : Mode)
    (rows : List (Row α)) : Archive.Part δ × State α δ :=
  let part := uploadPart cfg.digest ⟨tenant, month, table, nextPart table tenant month s.parts⟩ mode
    rows
  (part, {s with objects := Function.update s.objects part.key (some rows)})

/-- The first half of a task, with what it does next and the tasks that follow. -/
def perform (cfg : Config α δ) (s : State α δ) :
    Task → Except Error (State α δ × Option (Next α δ) × List Task)
  | .detach table month =>
    .ok ({s with leaves := modify ⟨table, month⟩ (·.setStatus .detached) s.leaves}, none, [])
  | .archiveDetachedTables month =>
    .ok (s, none, (tables.filter (s.isDetached month)).flatMap fun table =>
      [.exportDetached table month, .verifyDetached table month])
  | .exportDetached table month =>
    match s.leaf table month with
    | none => .error .missing
    | some leaf => .ok (s, none, (tenantsIn leaf.rows).map (.exportTenant table month))
  | .exportTenant table month tenant =>
    match s.leaf table month with
    | none => .error .missing
    | some leaf =>
      let rows := fetchRows leaf.rows tenant (cursor table tenant month s.parts) cfg.partRows
      if rows.isEmpty then .ok (s, none, [])
      else
        let (part, t) := s.upload cfg table month tenant .detached rows
        .ok (t, some (.record part), [.exportTenant table month tenant])
  | .verifyDetached table month =>
    match s.leaf table month with
    | none => .error .missing
    | some leaf =>
      let parts := detachedParts table month s.parts
      let archived := (parts.map Archive.Part.rowCount).sum
      if leaf.rows.length ≠ archived then
        .error (.archiveIncomplete table month leaf.rows.length archived)
      else if parts.all (verify cfg.digest s.objects) then
        .ok ({s with parts := s.parts.map (markDetached table month)}, some (.drop table month), [])
      else .error .notVerified
  | .archiveAndDelete month tenant =>
    .ok (s, none, (tables.filter (s.isAttached month)).map (.archiveAndDeleteTable · month tenant))
  | .archiveAndDeleteTable table month tenant =>
    match s.leaf table month with
    | none => .error .missing
    | some leaf =>
      let rows := fetchRows leaf.rows tenant none cfg.partRows
      if rows.isEmpty then .ok (s, none, [])
      else
        let (part, t) := s.upload cfg table month tenant .deleted rows
        .ok (t, some (.commit part rows), [.archiveAndDeleteTable table month tenant])

def finish (cfg : Config α δ) (s : State α δ) : Next α δ → Except Error (State α δ)
  | .record part => .ok {s with parts := recordPart part s.parts}
  | .drop table month =>
    match s.leaf table month with
    | none => .ok s
    | some leaf =>
      if leaf.status = .detached then .ok {s with leaves := delete ⟨table, month⟩ s.leaves}
      else .error .attached
  | .commit part rows =>
    if verify cfg.digest s.objects part then
      .ok {s with
        parts := recordPart (markVerified part) s.parts
        leaves := modify ⟨part.key.table, part.key.month⟩ (·.deleteIds rows) s.leaves}
    else .error .notVerified

def advance (cfg : Config α δ) (s : State α δ) : Option (State α δ) :=
  match s.control with
  | .running today (some next) tasks months =>
    match finish cfg s next with
    | .ok t => some {t with control := .running today none tasks months}
    | .error e => some {s with control := .returned (some e)}
  | .running today none (task :: tasks) months =>
    match perform cfg s task with
    | .ok (t, next, new) => some {t with control := .running today next (new ++ tasks) months}
    | .error e => some {s with control := .returned (some e)}
  | .running today none [] (month :: months) =>
    some {s with control := .running today none (processMonth cfg s today month) months}
  | .running _ none [] [] => some {s with control := .returned none}
  | .idle | .returned _ => none

inductive Event (α : Type) where
  | start (today : ℤ)
  | advance
  | crash
  /-- A crash within `DETACH PARTITION ... CONCURRENTLY`. -/
  | interrupt
  /-- `create_partition/3`, by the maintenance or an import. -/
  | create (table : Table) (month : ℕ)
  | insert (table : Table) (month : ℕ) (row : Row α)
  | edit (table : Table) (month : ℕ) (row : Row α) (value : α)
  | setRetentionDays (tenant : ℕ) (days : Option ℕ)

def step (cfg : Config α δ) (s : State α δ) : Event α → Option (State α δ)
  | .start today =>
    match s.control with
    | .running _ _ _ _ => none
    | .idle | .returned _ =>
      some {s with control := .running today none [] (s.candidateMonths cfg today)}
  | .advance => advance cfg s
  | .crash =>
    match s.control with
    | .running _ _ _ _ => some {s with control := .idle}
    | .idle | .returned _ => none
  | .interrupt =>
    match s.control with
    | .running _ none (.detach table month :: _) _ =>
      if (s.leaf table month).any (·.status = .attached) then
        some {s with
          control := .idle
          leaves := modify ⟨table, month⟩ (·.setStatus .pending) s.leaves}
      else none
    | _ => none
  | .create table month =>
    match s.leaf table month with
    | none => some {s with leaves := s.leaves ++ [(⟨table, month⟩, ⟨.attached, []⟩)]}
    | some _ => some s
  | .insert table month row =>
    if (s.leaf table month).any (fun leaf => leaf.status = .attached ∧
        ∀ other ∈ leaf.rows, other.id = row.id → other.insertedAt ≠ row.insertedAt) then
      some {s with leaves := modify ⟨table, month⟩ (·.insert row) s.leaves}
    else none
  | .edit table month row value =>
    if (s.leaf table month).any (fun leaf => leaf.status = .attached ∧ row ∈ leaf.rows) ∧
        row ∉ s.locked then
      some {s with leaves := modify ⟨table, month⟩ (·.edit row value) s.leaves}
    else none
  | .setRetentionDays tenant days =>
    some {s with retentionDays := Function.update s.retentionDays tenant days}

end

end Converger.Retention
