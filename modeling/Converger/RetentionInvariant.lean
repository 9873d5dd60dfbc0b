import Converger.RetentionLedger

/-!
# The invariant of retention

A partition that is not detached has no detached parts in the manifest, one that is detached has only
those exported from it. Rows are inserted and edited in partitions that are attached, so what a run
has seen of a detached partition, or locked of another one, stays.
-/
namespace Converger.Retention
open Archive KeyedLists List Option

variable {α δ : Type} {row : Row α} {part : Archive.Part δ}

/-- The row is in the object of a verified part, which has the recorded digest. -/
def Archived (cfg : Config α δ) (s : State α δ) (table : Table) (month : ℕ) (row : Row α) : Prop :=
  ∃ part ∈ s.parts, part.key.table = table ∧ part.key.month = month ∧
    part.key.tenant = row.tenant ∧ part.verified = true ∧
    ∃ body, s.objects part.key = some body ∧ part.digest = cfg.digest body ∧ row ∈ body

inductive NextOk (cfg : Config α δ) (s : State α δ) : Next α δ → Prop where
  | record {part : Archive.Part δ} (table : Table) (month tenant : ℕ) (leaf : Leaf α)
      (batch : List (Row α)) (hleaf : s.leaf table month = some leaf)
      (hdetached : leaf.status = .detached)
      (hbatch : batch = fetchRows leaf.rows tenant (cursor table tenant month s.parts) cfg.partRows)
      (hne : batch ≠ [])
      (hpart : part = uploadPart cfg.digest ⟨tenant, month, table,
        nextPart table tenant month s.parts⟩ .detached batch)
      (hobject : s.objects part.key = some batch) : NextOk cfg s (.record part)
  | drop {table : Table} {month : ℕ} (harchived : ∀ leaf, s.leaf table month = some leaf →
      leaf.status = .detached → ∀ row ∈ leaf.rows, Archived cfg s table month row) :
      NextOk cfg s (.drop table month)
  | commit {part : Archive.Part δ} {batch : List (Row α)} (table : Table) (month tenant : ℕ) (leaf : Leaf α)
      (hleaf : s.leaf table month = some leaf) (hstatus : leaf.status ≠ .detached)
      (hrows : ∀ row ∈ batch, row ∈ leaf.rows ∧ row.tenant = tenant)
      (hpart : part = uploadPart cfg.digest ⟨tenant, month, table,
        nextPart table tenant month s.parts⟩ .deleted batch)
      (hobject : s.objects part.key = some batch) : NextOk cfg s (.commit part batch)

def Task.leafName : Task → Option LeafName
  | .exportDetached table month | .exportTenant table month _ | .verifyDetached table month =>
    some ⟨table, month⟩
  | .detach _ _ | .archiveDetachedTables _ | .archiveAndDelete _ _ | .archiveAndDeleteTable _ _ _ =>
    none

def Task.drops : Task → Bool
  | .detach _ _ | .archiveDetachedTables _ | .exportDetached _ _ | .exportTenant _ _ _
  | .verifyDetached _ _ => true
  | .archiveAndDelete _ _ | .archiveAndDeleteTable _ _ _ => false

def Task.Deletes (s : State α δ) : Task → Prop
  | .archiveAndDelete _ _ => True
  | .archiveAndDeleteTable table month _ =>
    ∀ leaf, s.leaf table month = some leaf → leaf.status ≠ .detached
  | .detach _ _ | .archiveDetachedTables _ | .exportDetached _ _ | .exportTenant _ _ _
  | .verifyDetached _ _ => False

/-- After the verification of a partition there are no tasks about it, and before its month is gone
through none either. -/
def Task.Before : Task → Task → Prop
  | .verifyDetached table month, other => other.leafName ≠ some ⟨table, month⟩
  | .archiveDetachedTables month, other => ∀ table, other.leafName ≠ some ⟨table, month⟩
  | .detach _ _, _ | .exportDetached _ _, _ | .exportTenant _ _ _, _ | .archiveAndDelete _ _, _
  | .archiveAndDeleteTable _ _ _, _ => True

structure Dropping (s : State α δ) (tasks : List Task) : Prop where
  drops : ∀ task ∈ tasks, task.drops = true
  order : tasks.Pairwise Task.Before
  detached : ∀ task ∈ tasks, ∀ name ∈ task.leafName,
    ∃ leaf, s.leaf name.table name.month = some leaf ∧ leaf.status = .detached

def TasksOk (s : State α δ) (tasks : List Task) : Prop :=
  Dropping s tasks ∨ ∀ task ∈ tasks, task.Deletes s

def Next.Spares (tasks : List Task) : Next α δ → Prop
  | .drop table month => ∀ task ∈ tasks, task.leafName ≠ some ⟨table, month⟩
  | .record _ | .commit _ _ => True

structure Inv (cfg : Config α δ) (s : State α δ) : Prop where
  ids : ∀ table month leaf, s.leaf table month = some leaf →
    (leaf.rows.map Row.id).Nodup ∧ ∀ row ∈ leaf.rows, 0 < row.id
  stored : ∀ part ∈ s.parts, Stored cfg s.objects part
  fresh : ∀ table month leaf, s.leaf table month = some leaf → leaf.status ≠ .detached →
    detachedParts table month s.parts = []
  ledger : ∀ table month leaf, s.leaf table month = some leaf → leaf.status = .detached →
    Ledger s.objects s.parts table month leaf.rows
  control : ∀ today next tasks months, s.control = .running today next tasks months →
    (∀ n ∈ next, NextOk cfg s n ∧ n.Spares tasks) ∧ TasksOk s tasks

/-- A partition is not created for a month that was archived before, and the id of an inserted row is
new in the partition and not the zero id. -/
def Orderly (s : State α δ) : Event α → Prop
  | .create table month => s.leaf table month = none → detachedParts table month s.parts = []
  | .insert table month row => 0 < row.id ∧ ∀ other ∈ s.rows table month, other.id ≠ row.id
  | .start _ | .advance | .crash | .interrupt | .edit _ _ _ _ | .setRetentionDays _ _ => True

theorem inv_init (cfg : Config α δ) : Inv cfg {} where
  ids := nofun
  stored := nofun
  fresh := nofun
  ledger := nofun
  control := nofun

section
variable {cfg : Config α δ} {s t : State α δ} {table : Table} {month : ℕ} {leaf : Leaf α}
  {task : Task} {tasks : List Task} {today : ℤ} {months : List ℕ}

theorem rows_of_leaf (h : s.leaf table month = some leaf) : s.rows table month = leaf.rows := by
  rw [State.rows, h]
  rfl

/-- The detached partitions that tasks are about stay, and no other one is detached. -/
theorem TasksOk.mono (h : TasksOk s tasks)
    (hkept : ∀ task ∈ tasks, ∀ name ∈ task.leafName, ∀ leaf,
      s.leaf name.table name.month = some leaf → leaf.status = .detached →
      t.leaf name.table name.month = some leaf)
    (hnew : ∀ table month leaf, t.leaf table month = some leaf → leaf.status = .detached →
      s.leaf table month = some leaf) : TasksOk t tasks := by
  rcases h with ⟨hdrops, horder, hall⟩ | hdeletes
  · refine .inl ⟨hdrops, horder, fun task htask name hname => ?_⟩
    obtain ⟨leaf, hleaf, hdet⟩ := hall task htask name hname
    exact ⟨leaf, hkept task htask name hname leaf hleaf hdet, hdet⟩
  · refine .inr fun task htask => ?_
    have hold := hdeletes task htask
    cases task with
    | archiveAndDeleteTable table month tenant =>
      exact fun leaf hleaf hdet => hold leaf (hnew table month leaf hleaf hdet) hdet
    | archiveAndDelete => trivial
    | detach | archiveDetachedTables | exportDetached | exportTenant | verifyDetached => exact hold

theorem TasksOk.of_leaf_eq (h : TasksOk s tasks)
    (heq : ∀ table month, t.leaf table month = s.leaf table month) : TasksOk t tasks :=
  h.mono (fun _ _ name _ _ hleaf _ => (heq name.table name.month).trans hleaf)
    fun table month _ hleaf _ => (heq table month).symm.trans hleaf

theorem NextOk.of_control {n : Next α δ} (h : NextOk cfg s n) {retentionDays : ℕ → Option ℕ}
    {control : Control α δ} : NextOk cfg {s with retentionDays, control} n := by
  cases h with
  | record table month tenant leaf batch hleaf hdetached hbatch hne hpart hobject =>
    exact .record table month tenant leaf batch hleaf hdetached hbatch hne hpart hobject
  | drop harchived => exact .drop harchived
  | commit table month tenant leaf hleaf hstatus hrows hpart hobject =>
    exact .commit table month tenant leaf hleaf hstatus hrows hpart hobject

theorem Inv.of_control (h : Inv cfg s) {retentionDays : ℕ → Option ℕ} {control : Control α δ}
    (hcontrol : ∀ today next tasks months, control = .running today next tasks months →
      (∀ n ∈ next, NextOk cfg s n ∧ n.Spares tasks) ∧ TasksOk s tasks) :
    Inv cfg {s with retentionDays, control} :=
  {h with
    control := by
      intro today next tasks months heq
      obtain ⟨hnext, htasks⟩ := hcontrol today next tasks months heq
      exact ⟨fun n hn => ⟨(hnext n hn).1.of_control, (hnext n hn).2⟩, htasks.of_leaf_eq fun _ _ => rfl⟩}

/-! ### Rows that are inserted and edited -/

theorem leaf_modify (s : State α δ) (name : LeafName) (f : Leaf α → Leaf α) (table : Table)
    (month : ℕ) : {s with leaves := modify name f s.leaves}.leaf table month =
      if ⟨table, month⟩ = name then (s.leaf table month).map f else s.leaf table month :=
  lookup_modify name f s.leaves ⟨table, month⟩

theorem leaf_append (s : State α δ) (name : LeafName) (leaf : Leaf α) (table : Table) (month : ℕ) :
    {s with leaves := s.leaves ++ [(name, leaf)]}.leaf table month =
      (s.leaf table month).or ([(name, leaf)].lookup ⟨table, month⟩) :=
  lookup_append

section
variable (h : Inv cfg s)
include h

/-- Detached partitions stay as they are; another one may be new or change, and keeps the rows a
batch has locked. -/
theorem Inv.of_leaves {leaves : List (LeafName × Leaf α)} (ht : t = {s with leaves})
    (hnew : ∀ table month leaf, t.leaf table month = some leaf → s.leaf table month = some leaf ∨
      leaf.status ≠ .detached ∧ detachedParts table month s.parts = [] ∧
        (leaf.rows.map Row.id).Nodup ∧ ∀ row ∈ leaf.rows, 0 < row.id)
    (hkept : ∀ table month leaf, s.leaf table month = some leaf → t.leaf table month = some leaf ∨
      leaf.status ≠ .detached ∧ ∃ leaf', t.leaf table month = some leaf' ∧
        leaf'.status ≠ .detached ∧ ∀ row ∈ leaf.rows, row ∈ s.locked → row ∈ leaf'.rows) :
    Inv cfg t := by
  have hparts : t.parts = s.parts := by rw [ht]
  have hobjects : t.objects = s.objects := by rw [ht]
  have hdetached : ∀ table month leaf, t.leaf table month = some leaf → leaf.status = .detached →
      s.leaf table month = some leaf := by
    intro table month leaf hleaf hdet
    rcases hnew table month leaf hleaf with hold | ⟨hnot, -⟩
    · exact hold
    · exact absurd hdet hnot
  constructor
  case ids =>
    intro table month leaf hleaf
    rcases hnew table month leaf hleaf with hold | ⟨-, -, hids⟩
    · exact h.ids table month leaf hold
    · exact hids
  case stored =>
    rw [hparts, hobjects]
    exact h.stored
  case fresh =>
    intro table month leaf hleaf hnot
    rw [hparts]
    rcases hnew table month leaf hleaf with hold | ⟨-, hnone, -⟩
    · exact h.fresh table month leaf hold hnot
    · exact hnone
  case ledger =>
    intro table month leaf hleaf hdet
    rw [hparts, hobjects]
    exact h.ledger table month leaf (hdetached table month leaf hleaf hdet) hdet
  case control =>
    intro today next tasks months hcontrol
    have hcontrol : s.control = .running today next tasks months := by rw [← hcontrol, ht]
    obtain ⟨hnext, htasks⟩ := h.control today next tasks months hcontrol
    refine ⟨fun n hn => ⟨?_, (hnext n hn).2⟩, ?_⟩
    · cases (hnext n hn).1 with
      | record table month tenant leaf batch hleaf hdet hbatch hne hpart hobject =>
        rcases hkept table month leaf hleaf with hleaf | ⟨hnot, -⟩
        · rw [← hparts] at hbatch hpart
          rw [← hobjects] at hobject
          exact .record table month tenant leaf batch hleaf hdet hbatch hne hpart hobject
        · exact absurd hdet hnot
      | drop harchived =>
        refine .drop fun leaf hleaf hdet row hrow => ?_
        have hold := harchived leaf (hdetached _ _ leaf hleaf hdet) hdet row hrow
        rw [Archived, hparts, hobjects]
        exact hold
      | @commit part batch table month tenant leaf hleaf hnot hrows hpart hobject =>
        rw [← hparts] at hpart
        rw [← hobjects] at hobject
        rcases hkept table month leaf hleaf with hleaf | ⟨-, leaf', hleaf', hnot', hlocked⟩
        · exact .commit table month tenant leaf hleaf hnot hrows hpart hobject
        · refine .commit table month tenant leaf' hleaf' hnot' (fun row hrow => ?_) hpart hobject
          obtain ⟨hmem, htenant⟩ := hrows row hrow
          refine ⟨hlocked row hmem ?_, htenant⟩
          rw [State.locked, hcontrol, mem_def.mp hn]
          exact hrow
    · refine htasks.mono (fun task _ name _ leaf hleaf hdet => ?_) hdetached
      rcases hkept _ _ leaf hleaf with hleaf | ⟨hnot, -⟩
      · exact hleaf
      · exact absurd hdet hnot

theorem Inv.of_live {f : Leaf α → Leaf α} (hleaf : s.leaf table month = some leaf)
    (hlive : leaf.status ≠ .detached) (hstatus : (f leaf).status ≠ .detached)
    (hids : ((f leaf).rows.map Row.id).Nodup ∧ ∀ row ∈ (f leaf).rows, 0 < row.id)
    (hlocked : ∀ row ∈ leaf.rows, row ∈ s.locked → row ∈ (f leaf).rows) :
    Inv cfg {s with leaves := modify ⟨table, month⟩ f s.leaves} := by
  refine h.of_leaves rfl (fun table' month' leaf' hleaf' => ?_) fun table' month' leaf' hleaf' => ?_
  · rw [leaf_modify] at hleaf'
    by_cases hname : (⟨table', month'⟩ : LeafName) = ⟨table, month⟩
    · cases hname
      rw [if_pos rfl, hleaf] at hleaf'
      cases hleaf'
      exact .inr ⟨hstatus, h.fresh _ _ leaf hleaf hlive, hids⟩
    · rw [if_neg hname] at hleaf'
      exact .inl hleaf'
  · rw [leaf_modify]
    by_cases hname : (⟨table', month'⟩ : LeafName) = ⟨table, month⟩
    · cases hname
      cases hleaf.symm.trans hleaf'
      rw [if_pos rfl, hleaf]
      exact .inr ⟨hlive, f leaf, rfl, hstatus, hlocked⟩
    · rw [if_neg hname]
      exact .inl hleaf'

theorem Inv.insert [DecidableEq α] [DecidableEq δ] (horderly : Orderly s (.insert table month row))
    (ht : step cfg s (.insert table month row) = some t) : Inv cfg t := by
  obtain ⟨hany, rfl⟩ := ite_some_none_eq_some.mp ht
  obtain ⟨leaf, hleaf, hattached⟩ := (Option.any_eq_true _ _).mp hany
  obtain ⟨hattached, -⟩ := of_decide_eq_true hattached
  obtain ⟨hpos, hfresh⟩ := horderly
  rw [rows_of_leaf hleaf] at hfresh
  obtain ⟨hnodup, hall⟩ := h.ids table month leaf hleaf
  have hlive : leaf.status ≠ .detached := by rw [hattached]; decide
  refine h.of_live hleaf hlive hlive ⟨?_, ?_⟩ fun other hother _ => mem_append_left _ hother
  · rw [Leaf.insert, map_append]
    refine hnodup.snoc fun hid => ?_
    obtain ⟨other, hother, heq⟩ := List.mem_map.mp hid
    exact hfresh other hother heq
  · exact forall_mem_snoc hall hpos

theorem Inv.edit [DecidableEq α] [DecidableEq δ] {value : α}
    (ht : step cfg s (.edit table month row value) = some t) : Inv cfg t := by
  obtain ⟨⟨hany, hunlocked⟩, rfl⟩ := ite_some_none_eq_some.mp ht
  obtain ⟨leaf, hleaf, hattached⟩ := (Option.any_eq_true _ _).mp hany
  obtain ⟨hattached, -⟩ := of_decide_eq_true hattached
  have hlive : leaf.status ≠ .detached := by rw [hattached]; decide
  have hids : (leaf.edit row value).rows.map Row.id = leaf.rows.map Row.id := by
    rw [Leaf.edit, List.map_map]
    apply map_congr_left
    intro other _
    by_cases hother : other = row <;> simp [hother]
  obtain ⟨hnodup, hall⟩ := h.ids table month leaf hleaf
  refine h.of_live hleaf hlive hlive ⟨hids ▸ hnodup, fun other hother => ?_⟩ fun other hother hin => ?_
  · have hid : other.id ∈ leaf.rows.map Row.id := hids ▸ List.mem_map_of_mem hother
    obtain ⟨old, hold, heq⟩ := List.mem_map.mp hid
    exact heq ▸ hall old hold
  · have hne : other ≠ row := fun heq => hunlocked (heq ▸ hin)
    exact List.mem_map.mpr ⟨other, hother, if_neg hne⟩

theorem Inv.create [DecidableEq α] [DecidableEq δ] (horderly : Orderly s (.create table month))
    (ht : step cfg s (.create table month) = some t) : Inv cfg t := by
  cases hleaf : s.leaf table month with
  | some leaf =>
    simp only [step, hleaf] at ht
    cases ht
    exact h
  | none =>
    simp only [step, hleaf] at ht
    cases ht
    refine h.of_leaves rfl (fun table' month' leaf' hleaf' => ?_)
      fun table' month' leaf' hleaf' => .inl ?_
    · rw [leaf_append] at hleaf'
      rcases or_eq_some_iff.mp hleaf' with hold | ⟨-, hnew⟩
      · exact .inl hold
      · have hin := mem_of_lookup hnew
        cases mem_singleton.mp hin
        exact .inr ⟨nofun, horderly hleaf, nodup_nil, nofun⟩
    · rw [leaf_append, hleaf']
      rfl

theorem Inv.interrupt [DecidableEq α] [DecidableEq δ]
    (ht : step cfg s .interrupt = some t) : Inv cfg t := by
  simp only [step] at ht
  split at ht
  · obtain ⟨hany, rfl⟩ := ite_some_none_eq_some.mp ht
    obtain ⟨leaf, hleaf, hattached⟩ := (Option.any_eq_true _ _).mp hany
    have hlive : leaf.status ≠ .detached := by rw [of_decide_eq_true hattached]; decide
    have hidle : Inv cfg {s with control := .idle} := h.of_control nofun
    exact hidle.of_live (f := (·.setStatus .pending)) hleaf hlive nofun (h.ids _ _ leaf hleaf)
      fun _ hrow _ => hrow
  · cases ht

end

/-! ### The second half of a task -/

def Between (s : State α δ) (today : ℤ) (tasks : List Task) (months : List ℕ) : State α δ :=
  {s with control := .running today none tasks months}

theorem control_between
    (h : TasksOk (Between s today tasks months) tasks) : ∀ today' next tasks' months',
    (Between s today tasks months).control = .running today' next tasks' months' →
    (∀ n ∈ next, NextOk cfg (Between s today tasks months) n ∧ n.Spares tasks') ∧
      TasksOk (Between s today tasks months) tasks' := by
  rintro _ _ _ _ ⟨⟩
  exact ⟨nofun, h⟩

theorem Inv.record (h : Inv cfg s) (hok : NextOk cfg s (.record part)) (htasks : TasksOk s tasks) :
    Inv cfg (Between {s with parts := recordPart part s.parts} today tasks months) := by
  cases hok with
  | record table month tenant leaf batch hleaf hdet hbatch hne hpart hobject =>
    have hkey : part.key = ⟨tenant, month, table, nextPart table tenant month s.parts⟩ := by
      rw [hpart]
      rfl
    have hrecorded : recordPart part s.parts = s.parts ++ [part] :=
      recordPart_of_forall_ne fun other hother => hkey ▸ key_ne_nextPart hother
    have hother : ∀ table' month', (⟨table', month'⟩ : LeafName) ≠ ⟨table, month⟩ →
        detachedParts table' month' (s.parts ++ [part]) = detachedParts table' month' s.parts := by
      intro table' month' hname
      apply detachedParts_append_of_not
      rintro ⟨htable, hmonth, -⟩
      rw [hkey] at htable hmonth
      exact hname (by rw [← htable, ← hmonth])
    rw [hrecorded]
    constructor
    case ids => exact h.ids
    case stored =>
      refine forall_mem_snoc h.stored ?_
      exact ⟨batch, hobject, by rw [hpart]; rfl, by rw [hpart]; rfl⟩
    case fresh =>
      intro table' month' leaf' hleaf' hnot
      have hname : (⟨table', month'⟩ : LeafName) ≠ ⟨table, month⟩ := by
        intro heq
        cases heq
        cases hleaf.symm.trans hleaf'
        exact hnot hdet
      exact (hother table' month' hname).trans (h.fresh table' month' leaf' hleaf' hnot)
    case ledger =>
      intro table' month' leaf' hleaf' hdet'
      by_cases hname : (⟨table', month'⟩ : LeafName) = ⟨table, month⟩
      · cases hname
        cases hleaf.symm.trans hleaf'
        obtain ⟨hids, hpos⟩ := h.ids table month leaf hleaf
        exact (h.ledger table month leaf hleaf hdet).record hids hpos hbatch hne hpart hobject
      · exact (h.ledger table' month' leaf' hleaf' hdet').of_eq (hother table' month' hname)
          fun _ _ => rfl
    case control => exact control_between (htasks.of_leaf_eq fun _ _ => rfl)

theorem leaf_delete (s : State α δ) (name : LeafName) (table : Table) (month : ℕ) :
    {s with leaves := delete name s.leaves}.leaf table month =
      if ⟨table, month⟩ = name then none else s.leaf table month :=
  lookup_delete name s.leaves ⟨table, month⟩

theorem Inv.drop (h : Inv cfg s) (htasks : TasksOk s tasks)
    (hspared : ∀ task ∈ tasks, task.leafName ≠ some ⟨table, month⟩) :
    Inv cfg (Between {s with leaves := delete ⟨table, month⟩ s.leaves} today tasks months) := by
  have hold : ∀ table' month' leaf',
      {s with leaves := delete ⟨table, month⟩ s.leaves}.leaf table' month' = some leaf' →
      s.leaf table' month' = some leaf' := by
    intro table' month' leaf' hleaf'
    rw [leaf_delete] at hleaf'
    by_cases hname : (⟨table', month'⟩ : LeafName) = ⟨table, month⟩
    · rw [if_pos hname] at hleaf'
      cases hleaf'
    · rw [if_neg hname] at hleaf'
      exact hleaf'
  constructor
  case ids => exact fun table' month' leaf' hleaf' => h.ids table' month' leaf' (hold _ _ _ hleaf')
  case stored => exact h.stored
  case fresh => exact fun table' month' leaf' hleaf' => h.fresh table' month' leaf' (hold _ _ _ hleaf')
  case ledger =>
    exact fun table' month' leaf' hleaf' => h.ledger table' month' leaf' (hold _ _ _ hleaf')
  case control =>
    refine control_between (htasks.mono (fun task htask name hname leaf hleaf hdet => ?_)
      fun table' month' leaf' hleaf' _ => hold table' month' leaf' hleaf')
    have hne : (⟨name.table, name.month⟩ : LeafName) ≠ ⟨table, month⟩ := by
      intro heq
      exact hspared task htask (heq ▸ hname)
    exact (leaf_delete s _ _ _).trans ((if_neg hne).trans hleaf)

theorem Inv.commit (h : Inv cfg s) {batch : List (Row α)} (hok : NextOk cfg s (.commit part batch))
    (htasks : TasksOk s tasks) :
    Inv cfg (Between {s with
      parts := recordPart (markVerified part) s.parts
      leaves := modify ⟨part.key.table, part.key.month⟩ (·.deleteIds batch) s.leaves}
      today tasks months) := by
  cases hok with
  | commit table month tenant leaf hleaf hlive hrows hpart hobject =>
    have hkey : part.key = ⟨tenant, month, table, nextPart table tenant month s.parts⟩ := by
      rw [hpart]
      rfl
    have hrecorded : recordPart (markVerified part) s.parts = s.parts ++ [markVerified part] := by
      apply recordPart_of_forall_ne
      intro other hother
      exact hkey ▸ key_ne_nextPart hother
    have hname : (⟨part.key.table, part.key.month⟩ : LeafName) = ⟨table, month⟩ := by rw [hkey]
    have hsame : ∀ table' month', detachedParts table' month' (s.parts ++ [markVerified part]) =
        detachedParts table' month' s.parts := by
      intro table' month'
      apply detachedParts_append_of_not
      rintro ⟨-, -, hmode⟩
      rw [hpart] at hmode
      cases hmode
    rw [hrecorded, hname]
    -- first the manifest, then the partition
    have hparts : Inv cfg (Between {s with parts := s.parts ++ [markVerified part]} today tasks
        months) := by
      constructor
      case ids => exact h.ids
      case stored =>
        refine forall_mem_snoc h.stored ?_
        exact ⟨batch, hobject, by rw [hpart]; rfl, by rw [hpart]; rfl⟩
      case fresh =>
        intro table' month' leaf' hleaf' hnot
        exact (hsame table' month').trans (h.fresh table' month' leaf' hleaf' hnot)
      case ledger =>
        intro table' month' leaf' hleaf' hdet'
        exact (h.ledger table' month' leaf' hleaf' hdet').of_eq (hsame table' month') fun _ _ => rfl
      case control => exact control_between (htasks.of_leaf_eq fun _ _ => rfl)
    obtain ⟨hids, hpos⟩ := h.ids table month leaf hleaf
    have hkeeps : (leaf.deleteIds batch).rows.Sublist leaf.rows := filter_sublist
    exact hparts.of_live (f := (·.deleteIds batch)) hleaf hlive hlive
      ⟨hids.sublist (hkeeps.map _), fun row hrow => hpos row (hkeeps.subset hrow)⟩ nofun

/-! ### The first half of a task -/

theorem TasksOk.tail (h : TasksOk s (task :: tasks)) : TasksOk s tasks := by
  rcases h with ⟨hdrops, horder, hall⟩ | hdeletes
  · exact .inl ⟨fun t ht => hdrops t (mem_cons_of_mem _ ht), horder.tail,
      fun t ht => hall t (mem_cons_of_mem _ ht)⟩
  · exact .inr fun t ht => hdeletes t (mem_cons_of_mem _ ht)

theorem TasksOk.dropping (h : TasksOk s (task :: tasks)) (hdrops : task.drops = true) :
    Dropping s (task :: tasks) := by
  rcases h with h | h
  · exact h
  · have hdeletes := h task mem_cons_self
    cases task with
    | archiveAndDelete | archiveAndDeleteTable => cases hdrops
    | detach | archiveDetachedTables | exportDetached | exportTenant | verifyDetached =>
      exact hdeletes.elim

theorem TasksOk.deleting (h : TasksOk s (task :: tasks)) (hdrops : task.drops = false) :
    ∀ t ∈ task :: tasks, t.Deletes s := by
  rcases h with h | h
  · have hdrops' := h.drops task mem_cons_self
    rw [hdrops] at hdrops'
    cases hdrops'
  · exact h

theorem Dropping.replace (h : Dropping s (task :: tasks)) {new : List Task}
    (hdrops : ∀ t ∈ new, t.drops = true) (horder : new.Pairwise Task.Before)
    (hbefore : ∀ a ∈ new, ∀ b ∈ tasks, task.Before b → a.Before b)
    (hdetached : ∀ t ∈ new, ∀ name ∈ t.leafName,
      ∃ leaf, s.leaf name.table name.month = some leaf ∧ leaf.status = .detached) :
    Dropping s (new ++ tasks) := by
  obtain ⟨hfirst, hrest⟩ := pairwise_cons.mp h.order
  constructor
  · exact forall_mem_append.mpr ⟨hdrops, fun t ht => h.drops t (mem_cons_of_mem _ ht)⟩
  · exact pairwise_append.mpr ⟨horder, hrest, fun a ha b hb => hbefore a ha b hb (hfirst b hb)⟩
  · exact forall_mem_append.mpr ⟨hdetached, fun t ht => h.detached t (mem_cons_of_mem _ ht)⟩

theorem Inv.detach (h : Inv cfg s) (htasks : TasksOk s (.detach table month :: tasks)) :
    Inv cfg (Between {s with leaves := modify ⟨table, month⟩ (·.setStatus .detached) s.leaves}
      today tasks months) := by
  set after : State α δ := {s with leaves := modify ⟨table, month⟩ (·.setStatus .detached) s.leaves}
  have hcases : ∀ table' month' leaf', after.leaf table' month' = some leaf' →
      s.leaf table' month' = some leaf' ∨
      ∃ leaf, s.leaf table' month' = some leaf ∧ leaf' = leaf.setStatus .detached := by
    intro table' month' leaf' hleaf'
    rw [leaf_modify] at hleaf'
    by_cases hname : (⟨table', month'⟩ : LeafName) = ⟨table, month⟩
    · rw [if_pos hname] at hleaf'
      obtain ⟨leaf, hleaf, rfl⟩ := map_eq_some_iff.mp hleaf'
      exact .inr ⟨leaf, hleaf, rfl⟩
    · rw [if_neg hname] at hleaf'
      exact .inl hleaf'
  constructor
  case ids =>
    intro table' month' leaf' hleaf'
    rcases hcases table' month' leaf' hleaf' with hold | ⟨leaf, hleaf, rfl⟩
    · exact h.ids table' month' leaf' hold
    · exact h.ids table' month' leaf hleaf
  case stored => exact h.stored
  case fresh =>
    intro table' month' leaf' hleaf' hnot
    rcases hcases table' month' leaf' hleaf' with hold | ⟨leaf, -, rfl⟩
    · exact h.fresh table' month' leaf' hold hnot
    · exact absurd rfl hnot
  case ledger =>
    intro table' month' leaf' hleaf' hdet
    rcases hcases table' month' leaf' hleaf' with hold | ⟨leaf, hleaf, rfl⟩
    · exact h.ledger table' month' leaf' hold hdet
    · by_cases hstatus : leaf.status = .detached
      · exact h.ledger table' month' leaf hleaf hstatus
      · exact ledger_of_eq_nil (h.fresh table' month' leaf hleaf hstatus)
  case control =>
    have hdropping := htasks.dropping rfl
    refine control_between (.inl ⟨fun t ht => hdropping.drops t (mem_cons_of_mem _ ht),
      hdropping.order.tail, fun t ht name hname => ?_⟩)
    obtain ⟨leaf, hleaf, hdet⟩ := hdropping.detached t (mem_cons_of_mem _ ht) name hname
    refine ⟨leaf, ?_, hdet⟩
    change after.leaf name.table name.month = some leaf
    rw [leaf_modify]
    have hsame : leaf.setStatus .detached = leaf := by rw [← hdet]; rfl
    split
    · rw [hleaf, map_some, hsame]
    · exact hleaf

theorem Inv.of_tasks (h : Inv cfg s) (htasks : TasksOk s tasks) :
    Inv cfg (Between s today tasks months) := by
  apply h.of_control
  rintro _ _ _ _ ⟨⟩
  exact ⟨nofun, htasks⟩

theorem isDetached_iff : s.isDetached month table = true ↔
    ∃ leaf, s.leaf table month = some leaf ∧ leaf.status = .detached := by
  rw [State.isDetached, Option.any_eq_true]
  simp only [decide_eq_true_iff]

theorem tasksOk_archiveDetachedTables (h : TasksOk s (.archiveDetachedTables month :: tasks)) :
    TasksOk s ((tables.filter (s.isDetached month)).flatMap (fun table =>
      [.exportDetached table month, .verifyDetached table month]) ++ tasks) := by
  have hnew : ∀ t ∈ (tables.filter (s.isDetached month)).flatMap (fun table =>
      [Task.exportDetached table month, .verifyDetached table month]),
      ∃ table, s.isDetached month table = true ∧
        (t = .exportDetached table month ∨ t = .verifyDetached table month) := by
    intro t ht
    obtain ⟨table, htable, ht⟩ := mem_flatMap.mp ht
    refine ⟨table, (mem_filter.mp htable).2, ?_⟩
    simpa using ht
  refine .inl ((h.dropping rfl).replace ?_ ?_ ?_ ?_)
  · intro t ht
    obtain ⟨table, -, rfl | rfl⟩ := hnew t ht <;> rfl
  · cases hfirst : s.isDetached month .activities <;>
      cases hsecond : s.isDetached month .deliveries <;>
      simp [tables, hfirst, hsecond, Task.Before, Task.leafName]
  · intro a ha b _ hb
    obtain ⟨table, -, rfl | rfl⟩ := hnew a ha
    · trivial
    · exact hb table
  · intro t ht name hname
    obtain ⟨table, hdetached, rfl | rfl⟩ := hnew t ht
    all_goals
      cases hname
      exact isDetached_iff.mp hdetached

theorem tasksOk_exportDetached (h : TasksOk s (.exportDetached table month :: tasks))
    (tenants : List ℕ) : TasksOk s (tenants.map (.exportTenant table month) ++ tasks) := by
  have hdropping := h.dropping rfl
  refine .inl (hdropping.replace ?_ ?_ ?_ ?_)
  · intro t ht
    obtain ⟨tenant, -, rfl⟩ := List.mem_map.mp ht
    rfl
  · apply pairwise_map.mpr
    exact pairwise_of_forall fun _ _ => trivial
  · intro a ha b _ _
    obtain ⟨tenant, -, rfl⟩ := List.mem_map.mp ha
    trivial
  · intro t ht name hname
    obtain ⟨tenant, -, rfl⟩ := List.mem_map.mp ht
    exact hdropping.detached _ mem_cons_self name hname

theorem isAttached_iff : s.isAttached month table = true ↔
    ∃ leaf, s.leaf table month = some leaf ∧ leaf.status ≠ .detached := by
  rw [State.isAttached, Option.any_eq_true]
  simp only [decide_eq_true_iff]

theorem tasksOk_archiveAndDelete {tenant : ℕ}
    (h : TasksOk s (.archiveAndDelete month tenant :: tasks)) :
    TasksOk s ((tables.filter (s.isAttached month)).map (.archiveAndDeleteTable · month tenant) ++
      tasks) := by
  have hdeletes := h.deleting rfl
  refine .inr fun t ht => ?_
  rcases mem_append.mp ht with ht | ht
  · obtain ⟨table, htable, rfl⟩ := List.mem_map.mp ht
    obtain ⟨leaf, hleaf, hlive⟩ := isAttached_iff.mp (mem_filter.mp htable).2
    intro leaf' hleaf'
    cases hleaf.symm.trans hleaf'
    exact hlive
  · exact hdeletes t (mem_cons_of_mem _ ht)

theorem tasksOk_processMonth (cfg : Config α δ) (s : State α δ) (today : ℤ) (month : ℕ) :
    TasksOk s (processMonth cfg s today month) := by
  have hdrop : TasksOk s (archiveDetachedMonth month) := by
    refine .inl ⟨?_, ?_, ?_⟩
    · simp [archiveDetachedMonth, tables, Task.drops]
    · simp [archiveDetachedMonth, tables, Task.Before]
    · simp [archiveDetachedMonth, tables, Task.leafName]
  unfold processMonth
  split
  · exact hdrop
  · dsimp only
    split
    · exact hdrop
    · refine .inr fun t ht => ?_
      obtain ⟨tenant, -, rfl⟩ := List.mem_map.mp ht
      trivial

end

end Converger.Retention
