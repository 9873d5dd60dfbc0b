import Converger.GuardedRuns
import Converger.KeyedLists
import Mathlib.Algebra.BigOperators.Group.List.Basic
import Mathlib.Algebra.GroupWithZero.Nat

/-!
# Replicated rate limit counters

`RateLimit.ClusterSync`: processes record their increments in an ETS table, and one process flushes
it. An access to one object of the table is a step; the scan of the table reads its objects one after
the other. A counter is kept with the increments it stands for, and the rows read, broadcast and
dropped by a flush likewise.
-/
namespace Converger.ClusterSync
open KeyedLists List

variable {κ : Type}

structure Counter (κ : Type) where
  key : κ
  scale : ℕ
  window : ℕ
  deriving DecidableEq, Repr

structure Hit (κ : Type) where
  id : ℕ
  counter : Counter κ
  amount : ℕ
  deriving DecidableEq, Repr

structure Cell (κ : Type) where
  count : ℤ
  hits : List (Hit κ)

structure Row (κ : Type) where
  counter : Counter κ
  count : ℤ
  hits : List (Hit κ)

inductive Stage where
  | idle | started | scan | drain | sweep
  deriving DecidableEq, Repr

/-- `do_flush/1`: its clock, the objects the scan has still to read, the rows still to be subtracted,
the entries to broadcast, and the increments that were recorded before the scan. -/
structure Flush (κ : Type) where
  stage : Stage := .idle
  now : ℕ := 0
  unread : List (Counter κ) := []
  rows : List (Row κ) := []
  entries : List (Row κ) := []
  due : List (Hit κ) := []

/-- `calls` are the calls of `record/4` that have read the clock; `settled` are the increments that
were recorded before the last flush that has ended. -/
structure State (κ : Type) where
  clock : ℕ := 0
  calls : ℕ → Option (Counter κ × ℕ) := fun _ => none
  table : List (Counter κ × Cell κ) := []
  flush : Flush κ := {}
  raised : Bool := false
  recorded : List (Hit κ) := []
  broadcasts : List (List (Row κ)) := []
  dropped : List (ℕ × Row κ) := []
  settled : List (Hit κ) := []

section
variable [DecidableEq κ]

/-- `:ets.update_counter/4` with the default. -/
def increment (hit : Hit κ) (table : List (Counter κ × Cell κ)) : List (Counter κ × Cell κ) :=
  match table.lookup hit.counter with
  | none => table ++ [(hit.counter, ⟨hit.amount, [hit]⟩)]
  | some _ => modify hit.counter (fun cell => ⟨cell.count + hit.amount, cell.hits ++ [hit]⟩) table

/-- `:ets.update_counter/3` with what was read. -/
def subtract (row : Row κ) (table : List (Counter κ × Cell κ)) : List (Counter κ × Cell κ) :=
  modify row.counter (fun cell => ⟨cell.count - row.count, cell.hits.drop row.hits.length⟩) table

def Row.current (row : Row κ) (now : ℕ) : Prop :=
  0 < row.count ∧ now / row.counter.scale = row.counter.window

instance (row : Row κ) (now : ℕ) : Decidable (row.current now) := inferInstanceAs (Decidable (_ ∧ _))

inductive Event (κ : Type) where
  | tick (ms : ℕ)
  /-- A call of `record/4` reads the clock. -/
  | look (pid : ℕ) (key : κ) (scale amount : ℕ)
  | update (pid : ℕ)
  /-- A flush reads the clock. -/
  | flush
  | tab2list
  | read (counter : Counter κ)
  | scanned
  | subtract
  | drained
  /-- `:ets.select_delete/2` deletes an object. -/
  | delete (counter : Counter κ)
  | broadcast
  deriving DecidableEq, Repr

def step (s : State κ) : Event κ → Option (State κ)
  | .tick ms => some {s with clock := s.clock + ms}
  | .look pid key scale amount =>
    if s.calls pid = none ∧ 0 < scale then
      some {s with
        calls := Function.update s.calls pid (some (⟨key, scale, s.clock / scale⟩, amount))}
    else none
  | .update pid => (s.calls pid).map fun (counter, amount) =>
    let hit := ⟨s.recorded.length, counter, amount⟩
    {s with
      calls := Function.update s.calls pid none
      table := increment hit s.table
      recorded := s.recorded ++ [hit]}
  | .flush =>
    if s.flush.stage = .idle then some {s with flush := {stage := .started, now := s.clock}}
    else none
  | .tab2list =>
    if s.flush.stage = .started then
      some {s with flush := {s.flush with
        stage := .scan, unread := s.table.map Prod.fst, due := s.recorded}}
    else none
  | .read counter =>
    if s.flush.stage = .scan ∧ counter ∉ s.flush.rows.map Row.counter then
      (s.table.lookup counter).map fun cell => {s with flush := {s.flush with
        unread := s.flush.unread.filter (· ≠ counter)
        rows := s.flush.rows ++ [⟨counter, cell.count, cell.hits⟩]}}
    else none
  | .scanned =>
    if s.flush.stage = .scan ∧ s.flush.unread = [] then
      some {s with flush := {s.flush with stage := .drain}}
    else none
  | .subtract =>
    match s.flush.stage, s.flush.rows with
    | .drain, row :: rows =>
      match s.table.lookup row.counter with
      | none => some {s with raised := true, flush := {}}
      | some _ =>
        if row.current s.flush.now then
          some {s with
            table := subtract row s.table
            flush := {s.flush with rows, entries := s.flush.entries ++ [row]}}
        else
          some {s with
            table := subtract row s.table
            flush := {s.flush with rows}
            dropped := s.dropped ++ [(s.flush.now, row)]}
    | _, _ => none
  | .drained =>
    if s.flush.stage = .drain ∧ s.flush.rows = [] then
      some {s with flush := {s.flush with stage := .sweep}}
    else none
  | .delete counter =>
    if s.flush.stage = .sweep ∧ (s.table.lookup counter).any (·.count = 0) then
      some {s with table := delete counter s.table}
    else none
  | .broadcast =>
    if s.flush.stage = .sweep then
      some {s with
        flush := {}
        broadcasts := if s.flush.entries.isEmpty then s.broadcasts
          else s.broadcasts ++ [s.flush.entries]
        settled := s.flush.due}
    else none

end

/-! ### What a count stands for -/

def total (hits : List (Hit κ)) : ℕ := (hits.map Hit.amount).sum

def Sums (counter : Counter κ) (count : ℤ) (hits : List (Hit κ)) : Prop :=
  count = total hits ∧ ∀ hit ∈ hits, hit.counter = counter

def pending (table : List (Counter κ × Cell κ)) : List (Hit κ) := table.flatMap (·.2.hits)

def contained (rows : List (Row κ)) : List (Hit κ) := rows.flatMap Row.hits

@[simp] theorem total_cons (hit : Hit κ) (hits : List (Hit κ)) :
    total (hit :: hits) = hit.amount + total hits := by
  rw [total, map_cons, sum_cons]
  rfl

@[simp] theorem total_append (hits more : List (Hit κ)) :
    total (hits ++ more) = total hits + total more := by
  rw [total, map_append, sum_append]
  rfl

theorem amount_le_total {hits : List (Hit κ)} {hit : Hit κ} (h : hit ∈ hits) :
    hit.amount ≤ total hits := by
  obtain ⟨before, after, rfl⟩ := append_of_mem h
  rw [total_append, total_cons]
  omega

theorem exists_pos_of_total_pos {hits : List (Hit κ)} (h : 0 < total hits) :
    ∃ hit ∈ hits, 0 < hit.amount := by
  induction hits with
  | nil => cases h
  | cons hit hits ih =>
    by_cases hpos : 0 < hit.amount
    · exact ⟨hit, mem_cons_self, hpos⟩
    · rw [total_cons] at h
      obtain ⟨other, hmem, hother⟩ := ih (by omega)
      exact ⟨other, mem_cons_of_mem _ hmem, hother⟩

namespace Sums

variable {counter : Counter κ} {count read : ℤ} {hits readHits : List (Hit κ)}

theorem nonneg (h : Sums counter count hits) : 0 ≤ count := h.1 ▸ Int.natCast_nonneg _

theorem amount_eq_zero (h : Sums counter 0 hits) {hit : Hit κ} (hmem : hit ∈ hits) : hit.amount = 0 := by
  have hle := amount_le_total hmem
  have hzero := h.1
  omega

theorem snoc {hit : Hit κ} (h : Sums hit.counter count hits) :
    Sums hit.counter (count + hit.amount) (hits ++ [hit]) := by
  constructor
  · have hone : total [hit] = hit.amount := rfl
    rw [total_append, hone, h.1, Int.natCast_add]
  · refine forall_mem_snoc h.2 ?_
    rfl

theorem drop (h : Sums counter count hits) (hread : Sums counter read readHits)
    (hpre : readHits <+: hits) : Sums counter (count - read) (hits.drop readHits.length) := by
  obtain ⟨later, rfl⟩ := hpre
  rw [drop_left]
  constructor
  · have hsum := h.1
    have hreadSum := hread.1
    rw [total_append] at hsum
    omega
  · intro hit hhit
    exact h.2 hit (mem_append_right _ hhit)

theorem late_iff {row : Row κ} {now : ℕ} (h : Sums row.counter row.count row.hits)
    (hnot : ¬row.current now) :
    (∀ hit ∈ row.hits, 0 < hit.amount → hit.counter.window < now / hit.counter.scale) ↔
      (0 < row.count → row.counter.window ≤ now / row.counter.scale) := by
  constructor
  · intro hlate hpos
    have htotal : 0 < total row.hits := by
      have hsum := h.1
      omega
    obtain ⟨hit, hhit, hamount⟩ := exists_pos_of_total_pos htotal
    have hlt := hlate hit hhit hamount
    rw [h.2 hit hhit] at hlt
    exact Nat.le_of_lt hlt
  · intro hle hit hhit hamount
    have hpos : 0 < row.count := by
      have hsum := h.1
      have hone := amount_le_total hhit
      omega
    rw [h.2 hit hhit]
    exact Nat.lt_of_le_of_ne (hle hpos) fun heq => hnot ⟨hpos, heq.symm⟩

end Sums

theorem flatten_broadcasts (batches : List (List (Row κ))) (entries : List (Row κ)) :
    (if entries.isEmpty then batches else batches ++ [entries]).flatten =
      batches.flatten ++ entries := by
  cases entries with
  | nil => rw [isEmpty_nil, if_pos rfl, append_nil]
  | cons row entries => simp

/-! ### The table -/

variable [DecidableEq κ]

structure WellFormed (table : List (Counter κ × Cell κ)) : Prop where
  keys : (table.map Prod.fst).Nodup
  sums : ∀ p ∈ table, Sums p.1 p.2.count p.2.hits

def Held (rows : List (Row κ)) (table : List (Counter κ × Cell κ)) : Prop :=
  ∀ row ∈ rows, ∃ cell, table.lookup row.counter = some cell ∧ row.hits <+: cell.hits

section
variable {table : List (Counter κ × Cell κ)} {hit : Hit κ} {row : Row κ} {rows : List (Row κ)}
  {cell : Cell κ}

theorem WellFormed.modify (h : WellFormed table) {counter : Counter κ} {f : Cell κ → Cell κ}
    (hlookup : table.lookup counter = some cell) (hsums : Sums counter (f cell).count (f cell).hits) :
    WellFormed (KeyedLists.modify counter f table) := by
  refine ⟨(keys_modify counter f table).symm ▸ h.keys, fun p hp => ?_⟩
  rcases mem_modify hp with ⟨hold, -⟩ | ⟨a, ha, rfl⟩
  · exact h.sums p hold
  · have hcell := hlookup.symm.trans (lookup_of_mem h.keys ha)
    cases hcell
    exact hsums

theorem increment_of_none (h : table.lookup hit.counter = none) :
    increment hit table = table ++ [(hit.counter, ⟨hit.amount, [hit]⟩)] := by
  rw [increment, h]

theorem increment_of_some (h : table.lookup hit.counter = some cell) :
    increment hit table =
      modify hit.counter (fun cell => ⟨cell.count + hit.amount, cell.hits ++ [hit]⟩) table := by
  rw [increment, h]

section
variable (h : WellFormed table)
include h

theorem WellFormed.increment (hit : Hit κ) : WellFormed (increment hit table) := by
  cases hlookup : table.lookup hit.counter with
  | none =>
    rw [increment_of_none hlookup]
    constructor
    · rw [map_append]
      refine h.keys.snoc fun hmem => ?_
      obtain ⟨p, hp, heq⟩ := mem_map.mp hmem
      exact key_ne_of_lookup hlookup hp heq
    · refine forall_mem_snoc h.sums ?_
      exact ⟨rfl, fun other hother => by rw [mem_singleton.mp hother]⟩
  | some cell =>
    rw [increment_of_some hlookup]
    exact h.modify hlookup (h.sums _ (mem_of_lookup hlookup)).snoc

theorem WellFormed.subtract (hlookup : table.lookup row.counter = some cell)
    (hrow : Sums row.counter row.count row.hits) (hpre : row.hits <+: cell.hits) :
    WellFormed (subtract row table) :=
  h.modify hlookup ((h.sums _ (mem_of_lookup hlookup)).drop hrow hpre)

theorem WellFormed.delete (counter : Counter κ) : WellFormed (delete counter table) :=
  ⟨nodup_keys_delete h.keys counter, fun p hp => h.sums p (delete_subset counter table hp)⟩

theorem WellFormed.mem_hits (hmem : hit ∈ pending table)
    (hlookup : table.lookup hit.counter = some cell) : hit ∈ cell.hits := by
  obtain ⟨p, hp, hhit⟩ := mem_flatMap.mp hmem
  have hkey : hit.counter = p.1 := (h.sums p hp).2 hit hhit
  have hcell := lookup_of_mem h.keys hp
  rw [← hkey, hlookup] at hcell
  cases hcell
  exact hhit

theorem count_pending_increment (hit x : Hit κ) :
    (pending (increment hit table)).count x = (pending table).count x + [hit].count x := by
  cases hlookup : table.lookup hit.counter with
  | none =>
    rw [increment_of_none hlookup, pending, flatMap_append, count_append]
    rfl
  | some cell =>
    have hcount := count_flatMap_modify (fun p : Counter κ × Cell κ => p.2.hits) x
      (f := fun cell => ⟨cell.count + hit.amount, cell.hits ++ [hit]⟩) h.keys hlookup
    rw [increment_of_some hlookup]
    simp only [count_append] at hcount
    unfold pending
    omega

theorem count_pending_subtract
    (hlookup : table.lookup row.counter = some cell) (hpre : row.hits <+: cell.hits) (x : Hit κ) :
    (pending (subtract row table)).count x + row.hits.count x = (pending table).count x := by
  have hcount := count_flatMap_modify (fun p : Counter κ × Cell κ => p.2.hits) x
    (f := fun cell => ⟨cell.count - row.count, cell.hits.drop row.hits.length⟩) h.keys hlookup
  obtain ⟨later, hlater⟩ := hpre
  simp only [← hlater, drop_left, count_append] at hcount
  unfold pending subtract
  omega

theorem count_pending_delete {counter : Counter κ}
    (hlookup : table.lookup counter = some cell) (hzero : cell.count = 0) {x : Hit κ}
    (hx : 0 < x.amount) : (pending (delete counter table)).count x = (pending table).count x := by
  have hcount := count_flatMap_delete_add_taken (fun p : Counter κ × Cell κ => p.2.hits) x counter table
  have hsums := h.sums _ (mem_of_lookup hlookup)
  have hnot : x ∉ cell.hits := by
    intro hmem
    rw [hzero] at hsums
    exact Nat.ne_of_gt hx (hsums.amount_eq_zero hmem)
  rw [taken_of_lookup h.keys hlookup, flatMap_singleton, count_eq_zero_of_not_mem hnot] at hcount
  exact hcount

end

theorem Held.increment (h : Held rows table) (hit : Hit κ) : Held rows (increment hit table) := by
  intro row hrow
  obtain ⟨cell, hcell, hpre⟩ := h row hrow
  cases hlookup : table.lookup hit.counter with
  | none =>
    refine ⟨cell, ?_, hpre⟩
    rw [increment_of_none hlookup, lookup_append, hcell]
    rfl
  | some old =>
    rw [increment_of_some hlookup]
    by_cases hkey : row.counter = hit.counter
    · rw [hkey] at hcell ⊢
      exact ⟨_, lookup_modify_self hcell, hpre.trans (prefix_append _ _)⟩
    · exact ⟨cell, (lookup_modify_ne hkey).trans hcell, hpre⟩

theorem Held.subtract (h : Held (row :: rows) table)
    (hkeys : ((row :: rows).map Row.counter).Nodup) : Held rows (subtract row table) := by
  intro other hother
  obtain ⟨cell, hcell, hpre⟩ := h other (mem_cons_of_mem _ hother)
  have hne : other.counter ≠ row.counter := fun heq =>
    (nodup_cons.mp hkeys).1 (heq ▸ mem_map_of_mem hother)
  exact ⟨cell, (lookup_modify_ne hne).trans hcell, hpre⟩

end

end Converger.ClusterSync
