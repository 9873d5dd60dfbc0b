import Converger.Retention

/-!
# What the manifest says of a detached partition

The parts exported from a partition since it was detached hold distinct rows of it, for each tenant
all rows up to the last exported id. This is what makes the comparison of the row counts sound: it
needs that no older part of the month is in the manifest.
-/
namespace Converger.Retention
open Archive List

variable {α δ : Type} {objects' : Key → Option (List (Row α))} {parts' : List (Archive.Part δ)}

def bodyOf (objects : Key → Option (List (Row α))) (part : Archive.Part δ) : List (Row α) :=
  (objects part.key).getD []

def exported (objects : Key → Option (List (Row α))) (parts : List (Archive.Part δ)) (table : Table)
    (month : ℕ) : List (Row α) :=
  (detachedParts table month parts).flatMap (bodyOf objects)

def Stored (cfg : Config α δ) (objects : Key → Option (List (Row α))) (part : Archive.Part δ) : Prop :=
  ∃ body, objects part.key = some body ∧ part.digest = cfg.digest body ∧ part.rowCount = body.length

structure Ledger (objects : Key → Option (List (Row α))) (parts : List (Archive.Part δ)) (table : Table)
    (month : ℕ) (rows : List (Row α)) : Prop where
  nodup : (exported objects parts table month).Nodup
  subset : ∀ row ∈ exported objects parts table month, row ∈ rows
  bounded : ∀ part ∈ detachedParts table month parts, ∀ row ∈ bodyOf objects part,
    row.tenant = part.key.tenant ∧ row.id ≤ part.lastId
  complete : ∀ part ∈ detachedParts table month parts, ∀ row ∈ rows,
    row.tenant = part.key.tenant → row.id ≤ part.lastId → row ∈ exported objects parts table month
  increasing : ∀ part ∈ detachedParts table month parts,
    ∀ other ∈ detachedParts table month parts, part.key.tenant = other.key.tenant →
      part.key.part ≤ other.key.part → part.lastId ≤ other.lastId

section
variable {objects : Key → Option (List (Row α))} {parts : List (Archive.Part δ)}
  {part : Archive.Part δ} {table : Table} {month tenant limit : ℕ} {rows : List (Row α)}
  {row : Row α} {cfg : Config α δ}

theorem ledger_of_eq_nil (h : detachedParts table month parts = []) :
    Ledger objects parts table month rows := by
  have hexported : exported objects parts table month = [] := by rw [exported, h]; rfl
  constructor
  · rw [hexported]
    exact nodup_nil
  · rw [hexported]
    exact nofun
  all_goals
    rw [h]
    exact nofun

theorem detachedParts_append_of (parts : List (Archive.Part δ))
    (h : part.key.table = table ∧ part.key.month = month ∧ part.mode = .detached) :
    detachedParts table month (parts ++ [part]) = detachedParts table month parts ++ [part] := by
  rw [detachedParts, filter_append, filter_singleton, decide_eq_true h]
  rfl

theorem exported_append_of (parts : List (Archive.Part δ)) (h : part.key.table = table ∧
      part.key.month = month ∧ part.mode = .detached) (hobject : objects part.key = some rows) :
    exported objects (parts ++ [part]) table month = exported objects parts table month ++ rows := by
  rw [exported, detachedParts_append_of parts h, flatMap_append, flatMap_singleton, bodyOf, hobject]
  rfl

namespace Ledger

section
variable (h : Ledger objects parts table month rows)
include h

theorem lastId_le_cursor (hpart : part ∈ detachedParts table month parts)
    (htenant : part.key.tenant = tenant) : part.lastId ≤ (cursor table tenant month parts).getD 0 := by
  cases hcursor : cursor table tenant month parts with
  | none => exact absurd htenant (cursor_eq_none hcursor part hpart)
  | some c =>
    obtain ⟨last, hlast, hlastTenant, rfl, hmax⟩ := cursor_eq_some hcursor
    exact h.increasing part hpart last hlast (htenant.trans hlastTenant.symm)
      (hmax part hpart htenant)

theorem id_le_cursor (hrow : row ∈ exported objects parts table month) (htenant : row.tenant = tenant) :
    row.id ≤ (cursor table tenant month parts).getD 0 := by
  obtain ⟨part, hpart, hbody⟩ := mem_flatMap.mp hrow
  obtain ⟨hsame, hle⟩ := h.bounded part hpart row hbody
  exact Nat.le_trans hle (h.lastId_le_cursor hpart (hsame.symm.trans htenant))

theorem mem_exported (hmem : row ∈ rows)
    (hpos : 0 < row.id) (hle : row.id ≤ (cursor table row.tenant month parts).getD 0) :
    row ∈ exported objects parts table month := by
  cases hcursor : cursor table row.tenant month parts with
  | none =>
    rw [hcursor] at hle
    exact absurd hpos (Nat.not_lt_of_le hle)
  | some c =>
    rw [hcursor] at hle
    obtain ⟨last, hlast, htenant, rfl, -⟩ := cursor_eq_some hcursor
    exact h.complete last hlast row hmem htenant.symm hle

theorem record (hids : (rows.map Row.id).Nodup)
    (hpos : ∀ row ∈ rows, 0 < row.id) {digest : List (Row α) → δ} {batch : List (Row α)}
    (hbatch : batch = fetchRows rows tenant (cursor table tenant month parts) limit)
    (hne : batch ≠ [])
    (hpart : part = uploadPart digest ⟨tenant, month, table, nextPart table tenant month parts⟩
      .detached batch)
    (hobject : objects part.key = some batch) :
    Ledger objects (parts ++ [part]) table month rows := by
  have hof : part.key.table = table ∧ part.key.month = month ∧ part.mode = .detached := by
    rw [hpart]
    exact ⟨rfl, rfl, rfl⟩
  have hparts := detachedParts_append_of parts hof
  have hexported := exported_append_of parts hof hobject
  have hnew : ∀ row ∈ batch, row ∈ rows ∧ row.tenant = tenant ∧
      (cursor table tenant month parts).getD 0 < row.id := by
    intro row hrow
    rw [hbatch] at hrow
    exact of_mem_fetchRows hrow
  have htop : ∀ row ∈ rows, row.tenant = tenant →
      (cursor table tenant month parts).getD 0 < row.id →
      (row ∈ batch ↔ row.id ≤ part.lastId) := by
    intro row hrow htenant hlt
    have hlast : part.lastId = lastId batch := by rw [hpart]; rfl
    rw [hlast]
    subst hbatch
    exact mem_fetchRows_iff hids hne hrow htenant hlt
  have hkey : part.key.tenant = tenant := by rw [hpart]; rfl
  constructor
  case nodup =>
    rw [hexported]
    refine h.nodup.append (hbatch ▸ nodup_fetchRows hids.of_map) fun row hold hin => ?_
    obtain ⟨-, htenant, hlt⟩ := hnew row hin
    exact Nat.not_lt_of_le (h.id_le_cursor hold htenant) hlt
  case subset =>
    rw [hexported]
    exact forall_mem_append.mpr ⟨h.subset, fun row hin => (hnew row hin).1⟩
  case bounded =>
    rw [hparts]
    refine forall_mem_snoc h.bounded fun row hrow => ?_
    rw [bodyOf, hobject] at hrow
    obtain ⟨hmem, htenant, hlt⟩ := hnew row hrow
    exact ⟨htenant.trans hkey.symm, (htop row hmem htenant hlt).mp hrow⟩
  case complete =>
    rw [hparts, hexported]
    intro other hother row hrow htenant hle
    rcases mem_snoc.mp hother with hold | rfl
    · exact mem_append_left _ (h.complete other hold row hrow htenant hle)
    · have htenant := htenant.trans hkey
      by_cases hlt : (cursor table tenant month parts).getD 0 < row.id
      · exact mem_append_right _ ((htop row hrow htenant hlt).mpr hle)
      · refine mem_append_left _ (h.mem_exported hrow (hpos row hrow) ?_)
        rw [htenant]
        exact Nat.le_of_not_lt hlt
  case increasing =>
    -- the ids of the new batch are above the cursor, so its last id is too
    have habove : (cursor table tenant month parts).getD 0 ≤ part.lastId := by
      obtain ⟨row, hrow⟩ := exists_mem_of_ne_nil batch hne
      obtain ⟨hmem, htenant, hlt⟩ := hnew row hrow
      exact Nat.le_trans (Nat.le_of_lt hlt) ((htop row hmem htenant hlt).mp hrow)
    have hlast : ∀ other ∈ detachedParts table month parts, other.key.tenant = tenant →
        other.key.part < part.key.part := by
      intro other hother htenant
      obtain ⟨hmem, htable, hmonth, -⟩ := mem_detachedParts.mp hother
      have hlt := lt_nextPart hmem
      rw [htable, hmonth, htenant] at hlt
      rw [hpart]
      exact hlt
    rw [hparts]
    intro a ha b hb htenant hle
    rcases mem_snoc.mp ha with hold | rfl
    · rcases mem_snoc.mp hb with hb | rfl
      · exact h.increasing a hold b hb htenant hle
      · exact Nat.le_trans (h.lastId_le_cursor hold (htenant.trans hkey)) habove
    · rcases mem_snoc.mp hb with hold | rfl
      · exact absurd hle (Nat.not_le_of_lt (hlast b hold (htenant.symm.trans hkey)))
      · exact Nat.le_refl _

/-- Only the keys and last ids of the detached parts, and their objects, matter. -/
theorem of_map {f : Archive.Part δ → Archive.Part δ}
    (hparts : detachedParts table month parts' = (detachedParts table month parts).map f)
    (hkey : ∀ part, (f part).key = part.key) (hlast : ∀ part, (f part).lastId = part.lastId)
    (hobjects : ∀ part ∈ detachedParts table month parts, objects' part.key = objects part.key) :
    Ledger objects' parts' table month rows := by
  have hbody : ∀ part ∈ detachedParts table month parts,
      bodyOf objects' (f part) = bodyOf objects part := by
    intro part hpart
    rw [bodyOf, hkey, hobjects part hpart]
    rfl
  have hexported : exported objects' parts' table month = exported objects parts table month := by
    rw [exported, hparts, flatMap_map]
    exact flatMap_congr hbody
  constructor
  case nodup => exact hexported ▸ h.nodup
  case subset => exact hexported ▸ h.subset
  case bounded =>
    rw [hparts]
    intro other hother row hrow
    obtain ⟨part, hpart, rfl⟩ := mem_map.mp hother
    rw [hbody part hpart] at hrow
    rw [hkey, hlast]
    exact h.bounded part hpart row hrow
  case complete =>
    rw [hparts, hexported]
    intro other hother row hrow
    obtain ⟨part, hpart, rfl⟩ := mem_map.mp hother
    rw [hkey, hlast]
    exact h.complete part hpart row hrow
  case increasing =>
    rw [hparts]
    intro a ha b hb
    obtain ⟨part, hpart, rfl⟩ := mem_map.mp ha
    obtain ⟨other, hother, rfl⟩ := mem_map.mp hb
    rw [hkey, hkey, hlast, hlast]
    exact h.increasing part hpart other hother

theorem of_eq (hparts : detachedParts table month parts' = detachedParts table month parts)
    (hobjects : ∀ part ∈ detachedParts table month parts, objects' part.key = objects part.key) :
    Ledger objects' parts' table month rows :=
  h.of_map (f := id) (hparts.trans (map_id _).symm) (fun _ => rfl) (fun _ => rfl) hobjects

end

end Ledger

theorem length_exported (h : ∀ part ∈ parts, Stored cfg objects part) :
    (exported objects parts table month).length =
      ((detachedParts table month parts).map Archive.Part.rowCount).sum := by
  rw [exported, length_flatMap]
  congr 1
  apply map_congr_left
  intro part hpart
  obtain ⟨body, hobject, -, hcount⟩ := h part (mem_detachedParts.mp hpart).1
  rw [bodyOf, hobject, hcount]
  rfl

theorem Ledger.mem_exported_of_length (h : Ledger objects parts table month rows)
    (hlength : rows.length = (exported objects parts table month).length) (hrow : row ∈ rows) :
    row ∈ exported objects parts table month := by
  have hsub := subperm_of_subset h.nodup h.subset
  exact (hsub.perm_of_length_le (Nat.le_of_eq hlength)).mem_iff.mpr hrow

theorem Ledger.length_eq (h : Ledger objects parts table month rows) (hnodup : rows.Nodup)
    (hall : ∀ row ∈ rows, row ∈ exported objects parts table month) :
    rows.length = (exported objects parts table month).length :=
  ((perm_ext_iff_of_nodup hnodup h.nodup).mpr fun row => ⟨hall row, h.subset row⟩).length_eq

end

/-! ### Manifest entries that change -/

section
variable {parts : List (Archive.Part δ)} {part : Archive.Part δ} {table : Table} {month : ℕ}

theorem detachedParts_append_of_not
    (h : ¬(part.key.table = table ∧ part.key.month = month ∧ part.mode = .detached)) :
    detachedParts table month (parts ++ [part]) = detachedParts table month parts := by
  rw [detachedParts, filter_append, filter_singleton, decide_eq_false h]
  exact append_nil _

theorem markDetached_eq (table : Table) (month : ℕ) (part : Archive.Part δ) :
    markDetached table month part = part ∨ markDetached table month part = markVerified part := by
  unfold markDetached
  split
  · exact .inr rfl
  · exact .inl rfl

@[simp] theorem markDetached_key (table : Table) (month : ℕ) (part : Archive.Part δ) :
    (markDetached table month part).key = part.key := by
  rcases markDetached_eq table month part with h | h <;> rw [h]
  rfl

@[simp] theorem markDetached_mode (table : Table) (month : ℕ) (part : Archive.Part δ) :
    (markDetached table month part).mode = part.mode := by
  rcases markDetached_eq table month part with h | h <;> rw [h]
  rfl

@[simp] theorem markDetached_lastId (table : Table) (month : ℕ) (part : Archive.Part δ) :
    (markDetached table month part).lastId = part.lastId := by
  rcases markDetached_eq table month part with h | h <;> rw [h]
  rfl

theorem Stored.markDetached {objects : Key → Option (List (Row α))} (h : Stored cfg objects part)
    (table : Table) (month : ℕ) : Stored cfg objects (markDetached table month part) := by
  rcases markDetached_eq table month part with heq | heq <;> rw [heq] <;> exact h

theorem detachedParts_map_markDetached (table' : Table) (month' : ℕ) :
    detachedParts table' month' (parts.map (markDetached table month)) =
      (detachedParts table' month' parts).map (markDetached table month) := by
  rw [detachedParts, filter_map, detachedParts]
  congr 1
  apply filter_congr
  intro part _
  simp

end

end Converger.Retention
