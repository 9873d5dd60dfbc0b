import Converger.GrowingLists
import Mathlib.Data.List.MinMax
import Mathlib.Data.List.Sort

/-!
# Archive parts

`Archive`: the rows of a tenant in a monthly partition are exported in parts, in the order of their
ids, and each part is recorded in the manifest `archive_parts`. An object holds the rows of its part;
its recorded size and SHA-256 are the digest of these rows.
-/
namespace Converger.Archive
open List

inductive Table where
  | activities | deliveries
  deriving DecidableEq, Repr

def tables : List Table := [.activities, .deliveries]

/-- A row of a partition. Its id and time are the primary key; `value` stands for the other columns. -/
structure Row (α : Type) where
  id : ℕ
  insertedAt : ℕ
  tenant : ℕ
  value : α
  deriving DecidableEq, Repr

/-- An object key, `<prefix>/<tenant_id>/<YYYY-MM>/<table>-<part>.jsonl.gz`. -/
structure Key where
  tenant : ℕ
  month : ℕ
  table : Table
  part : ℕ
  deriving DecidableEq, Repr

inductive Mode where
  | detached | deleted
  deriving DecidableEq, Repr

structure Part (δ : Type) where
  key : Key
  mode : Mode
  rowCount : ℕ
  digest : δ
  lastId : ℕ
  verified : Bool
  deriving DecidableEq, Repr

variable {α δ : Type}

/-- The rows of the tenant with an id greater than the cursor, at most `limit`, in the order of their
ids; without a cursor those above the zero id. -/
def fetchRows (rows : List (Row α)) (tenant : ℕ) (cursor : Option ℕ) (limit : ℕ) : List (Row α) :=
  ((rows.filter fun row => row.tenant = tenant ∧ cursor.getD 0 < row.id).insertionSort
    fun a b => a.id ≤ b.id).take limit

def lastId (rows : List (Row α)) : ℕ := (rows.getLast?.map Row.id).getD 0

def uploadPart (digest : List (Row α) → δ) (key : Key) (mode : Mode) (rows : List (Row α)) :
    Part δ where
  key := key
  mode := mode
  rowCount := rows.length
  digest := digest rows
  lastId := lastId rows
  verified := false

def verify [DecidableEq δ] (digest : List (Row α) → δ) (objects : Key → Option (List (Row α)))
    (part : Part δ) : Bool :=
  (objects part.key).any (digest · = part.digest)

def recordPart (part : Part δ) (parts : List (Part δ)) : List (Part δ) :=
  parts.filter (·.key ≠ part.key) ++ [part]

def nextPart (table : Table) (tenant month : ℕ) (parts : List (Part δ)) : ℕ :=
  ((parts.filter fun part => part.key.table = table ∧ part.key.tenant = tenant ∧
    part.key.month = month).map (·.key.part)).foldr max 0 + 1

/-- The parts of the month that were exported from its detached partition. -/
def detachedParts (table : Table) (month : ℕ) (parts : List (Part δ)) : List (Part δ) :=
  parts.filter fun part => part.key.table = table ∧ part.key.month = month ∧ part.mode = .detached

def cursor (table : Table) (tenant month : ℕ) (parts : List (Part δ)) : Option ℕ :=
  (((detachedParts table month parts).filter (·.key.tenant = tenant)).insertionSort
    fun a b => a.key.part ≤ b.key.part).getLast?.map Part.lastId

def markVerified (part : Part δ) : Part δ := {part with verified := true}

def markDetached (table : Table) (month : ℕ) (part : Part δ) : Part δ :=
  if part.key.table = table ∧ part.key.month = month ∧ part.mode = .detached
  then markVerified part else part

/-! ### Rows that are fetched -/

section
variable {rows : List (Row α)} {tenant limit : ℕ} {after : Option ℕ} {row : Row α}

theorem mem_sorted {P : Row α → Prop} [DecidablePred P] :
    row ∈ (rows.filter P).insertionSort (fun a b => a.id ≤ b.id) ↔ row ∈ rows ∧ P row := by
  rw [mem_insertionSort, mem_filter, decide_eq_true_iff]

theorem of_mem_fetchRows (h : row ∈ fetchRows rows tenant after limit) :
    row ∈ rows ∧ row.tenant = tenant ∧ after.getD 0 < row.id :=
  mem_sorted.mp (mem_of_mem_take h)

theorem nodup_fetchRows (h : rows.Nodup) : (fetchRows rows tenant after limit).Nodup := by
  have hsorted := (perm_insertionSort (fun a b : Row α => a.id ≤ b.id)
    (rows.filter fun row => row.tenant = tenant ∧ after.getD 0 < row.id)).nodup_iff.mpr
    (h.filter _)
  exact hsorted.sublist (take_sublist _ _)

theorem fetchRows_eq_nil (hlimit : 0 < limit) (h : fetchRows rows tenant after limit = [])
    (hmem : row ∈ rows) (htenant : row.tenant = tenant) : row.id ≤ after.getD 0 := by
  apply Nat.le_of_not_lt
  intro hlt
  rcases take_eq_nil_iff.mp h with hzero | hnil
  · exact Nat.ne_of_gt hlimit hzero
  · have hin : row ∈ (rows.filter fun row => row.tenant = tenant ∧ after.getD 0 < row.id).insertionSort
        (fun a b => a.id ≤ b.id) := mem_sorted.mpr ⟨hmem, htenant, hlt⟩
    rw [hnil] at hin
    cases hin

theorem lastId_eq {init : List (Row α)} : lastId (init ++ [row]) = row.id := by
  rw [lastId, getLast?_concat]
  rfl

/-- The batch is a start of the sorted rows, so what is not above its last id is in it. -/
theorem mem_fetchRows_iff (hids : (rows.map Row.id).Nodup)
    (hne : fetchRows rows tenant after limit ≠ []) (hmem : row ∈ rows)
    (htenant : row.tenant = tenant) (hcursor : after.getD 0 < row.id) :
    row ∈ fetchRows rows tenant after limit ↔
      row.id ≤ lastId (fetchRows rows tenant after limit) := by
  set sorted := (rows.filter fun row => row.tenant = tenant ∧ after.getD 0 < row.id).insertionSort
    (fun a b => a.id ≤ b.id) with hdef
  have hpairs : sorted.Pairwise (fun a b => a.id ≤ b.id) := by
    have : Std.Total (fun a b : Row α => a.id ≤ b.id) := ⟨fun a b => Nat.le_total a.id b.id⟩
    have : IsTrans (Row α) (fun a b => a.id ≤ b.id) := ⟨fun _ _ _ => Nat.le_trans⟩
    exact pairwise_insertionSort _ _
  obtain ⟨init, last, hbatch⟩ := eq_nil_or_concat'
    (fetchRows rows tenant after limit) |>.resolve_left hne
  have hsplit : sorted = init ++ [last] ++ sorted.drop limit := by
    rw [← hbatch]
    exact (take_append_drop limit sorted).symm
  rw [hbatch, lastId_eq]
  rw [hsplit] at hpairs
  obtain ⟨hinit, -, hcross⟩ := pairwise_append.mp hpairs
  constructor
  · intro hin
    rcases mem_snoc.mp hin with hin | rfl
    · exact (pairwise_append.mp hinit).2.2 row hin last mem_cons_self
    · rfl
  · intro hle
    have hsorted : row ∈ sorted := mem_sorted.mpr ⟨hmem, htenant, hcursor⟩
    rw [hsplit] at hsorted
    rcases mem_append.mp hsorted with hin | hrest
    · exact hin
    · have hge := hcross last (mem_append_right _ mem_cons_self) row hrest
      have hlast : last ∈ rows := by
        have hin : last ∈ fetchRows rows tenant after limit := hbatch ▸ mem_append_right _ mem_cons_self
        exact (of_mem_fetchRows hin).1
      have hsame : row = last := inj_on_of_nodup_map hids hmem hlast (Nat.le_antisymm hle hge)
      rw [hsame]
      exact mem_append_right _ mem_cons_self

end

/-! ### The manifest -/

section
variable {parts : List (Part δ)} {part : Part δ} {table : Table} {tenant month : ℕ}

theorem mem_detachedParts : part ∈ detachedParts table month parts ↔
    part ∈ parts ∧ part.key.table = table ∧ part.key.month = month ∧ part.mode = .detached := by
  rw [detachedParts, mem_filter, decide_eq_true_iff]

theorem lt_nextPart (h : part ∈ parts) :
    part.key.part < nextPart part.key.table part.key.tenant part.key.month parts := by
  apply Nat.lt_succ_of_le
  apply le_max_of_le' 0 (mem_map_of_mem (mem_filter.mpr ⟨h, by simp⟩))
  exact Nat.le_refl _

theorem key_ne_nextPart (h : part ∈ parts) :
    part.key ≠ ⟨tenant, month, table, nextPart table tenant month parts⟩ := by
  intro heq
  have hlt := lt_nextPart h
  rw [heq] at hlt
  exact Nat.lt_irrefl _ hlt

theorem recordPart_of_forall_ne (h : ∀ other ∈ parts, other.key ≠ part.key) :
    recordPart part parts = parts ++ [part] := by
  rw [recordPart, filter_eq_self.mpr]
  intro other hother
  exact decide_eq_true (h other hother)

theorem cursor_eq_some {c : ℕ} (h : cursor table tenant month parts = some c) :
    ∃ part ∈ detachedParts table month parts, part.key.tenant = tenant ∧ part.lastId = c ∧
      ∀ other ∈ detachedParts table month parts, other.key.tenant = tenant →
        other.key.part ≤ part.key.part := by
  obtain ⟨part, hlast, hid⟩ := Option.map_eq_some_iff.mp h
  obtain ⟨init, hsplit⟩ := getLast?_eq_some_iff.mp hlast
  have hpairs : (init ++ [part]).Pairwise (fun a b : Part δ => a.key.part ≤ b.key.part) := by
    have : Std.Total (fun a b : Part δ => a.key.part ≤ b.key.part) :=
      ⟨fun a b => Nat.le_total a.key.part b.key.part⟩
    have : IsTrans (Part δ) (fun a b => a.key.part ≤ b.key.part) := ⟨fun _ _ _ => Nat.le_trans⟩
    rw [← hsplit]
    exact pairwise_insertionSort _ _
  have hmem : ∀ other, other ∈ init ++ [part] ↔
      other ∈ detachedParts table month parts ∧ other.key.tenant = tenant := by
    intro other
    rw [← hsplit, mem_insertionSort, mem_filter, decide_eq_true_iff]
  obtain ⟨hpart, htenant⟩ := (hmem part).mp (mem_append_right _ mem_cons_self)
  refine ⟨part, hpart, htenant, hid, fun other hother hsame => ?_⟩
  rcases mem_snoc.mp ((hmem other).mpr ⟨hother, hsame⟩) with hinit | rfl
  · exact (pairwise_append.mp hpairs).2.2 other hinit part mem_cons_self
  · rfl

theorem cursor_eq_none (h : cursor table tenant month parts = none) :
    ∀ other ∈ detachedParts table month parts, other.key.tenant ≠ tenant := by
  intro other hother hsame
  have hnil := getLast?_eq_none_iff.mp (Option.map_eq_none_iff.mp h)
  have hin : other ∈ ((detachedParts table month parts).filter (·.key.tenant = tenant)).insertionSort
      (fun a b => a.key.part ≤ b.key.part) := by
    rw [mem_insertionSort, mem_filter, decide_eq_true_iff]
    exact ⟨hother, hsame⟩
  rw [hnil] at hin
  cases hin

end

end Converger.Archive
