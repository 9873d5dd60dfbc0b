import Converger.RetentionRuns

/-!
# Retention runs that complete

From every state of an orderly history a run in which all operations succeed ends well, and leaves no
partition of a month that all its tenants are done with. An export ends because each part holds rows
that were not exported, a deletion because each batch removes rows.
-/
namespace Converger.Retention
open Archive GuardedRuns KeyedLists List Option

variable {α δ : Type} {cfg : Config α δ} {s t u : State α δ} {table : Table} {month tenant : ℕ}
  {leaf : Leaf α} {today : ℤ}

/-! ### What stays -/

/-- An operation of the export: the partitions stay, and nothing exported gets lost. -/
structure Exporting (table : Table) (month : ℕ) (s t : State α δ) : Prop where
  leaves : t.leaves = s.leaves
  retentionDays : t.retentionDays = s.retentionDays
  exported : ∀ row ∈ exported s.objects s.parts table month,
    row ∈ exported t.objects t.parts table month

theorem Exporting.refl (s : State α δ) : Exporting table month s s := ⟨rfl, rfl, fun _ h => h⟩

theorem Exporting.trans (h : Exporting table month s t) (h' : Exporting table month t u) :
    Exporting table month s u :=
  ⟨h'.leaves.trans h.leaves, h'.retentionDays.trans h.retentionDays,
    fun row hrow => h'.exported row (h.exported row hrow)⟩

theorem Exporting.leaf_eq (h : Exporting table month s t) (table' : Table) (month' : ℕ) :
    t.leaf table' month' = s.leaf table' month' := by
  rw [State.leaf, h.leaves]
  rfl

theorem mem_tenantsIn {rows : List (Row α)} {row : Row α} (h : row ∈ rows) :
    row.tenant ∈ tenantsIn rows := by
  rw [tenantsIn, mem_insertionSort, mem_dedup]
  exact List.mem_map_of_mem h

structure Spares (name : LeafName) (s t : State α δ) : Prop where
  leaf_eq : ∀ table month, ⟨table, month⟩ ≠ name → t.leaf table month = s.leaf table month
  retentionDays : t.retentionDays = s.retentionDays

theorem Spares.trans {name : LeafName} (h : Spares name s t) (h' : Spares name t u) :
    Spares name s u :=
  ⟨fun table month hne => (h'.leaf_eq table month hne).trans (h.leaf_eq table month hne),
    h'.retentionDays.trans h.retentionDays⟩

/-- The partitions of the other months, and the retention of the tenants, stay. -/
structure SparesMonths (month : ℕ) (s t : State α δ) : Prop where
  leaf_eq : ∀ table month', month' ≠ month → t.leaf table month' = s.leaf table month'
  retentionDays : t.retentionDays = s.retentionDays

theorem SparesMonths.refl (s : State α δ) : SparesMonths month s s := ⟨fun _ _ _ => rfl, rfl⟩

theorem SparesMonths.trans (h : SparesMonths month s t) (h' : SparesMonths month t u) :
    SparesMonths month s u :=
  ⟨fun table month' hne => (h'.leaf_eq table month' hne).trans (h.leaf_eq table month' hne),
    h'.retentionDays.trans h.retentionDays⟩

theorem Spares.sparesMonths (h : Spares ⟨table, month⟩ s t) : SparesMonths month s t :=
  ⟨fun table' month' hne => h.leaf_eq table' month' fun heq => hne (congrArg LeafName.month heq),
    h.retentionDays⟩

theorem mem_tables (table : Table) : table ∈ tables := by
  cases table <;> decide

theorem Control.result_eq_some {c : Control α δ} {error : Option Error} :
    c.result = some error ↔ c = .returned error := by
  cases c <;> simp [result]

/-- The month ended the minimum ago, and before the cut-offs of all its tenants. -/
def Ended (cfg : Config α δ) (s : State α δ) (today : ℤ) (month : ℕ) : Prop :=
  monthStart (month + 1) ≤ today - cfg.minRetentionDays ∧
    ∀ table, ∀ row ∈ s.rows table month, cfg.expired month (s.retentionDays row.tenant) today

theorem mem_tenantsInMonth (h : tenant ∈ s.tenantsInMonth month) :
    ∃ table, ∃ row ∈ s.rows table month, row.tenant = tenant := by
  rw [State.tenantsInMonth, mem_insertionSort, mem_dedup] at h
  obtain ⟨table, -, h⟩ := mem_flatMap.mp h
  rw [tenantsIn, mem_insertionSort, mem_dedup] at h
  obtain ⟨row, hrow, htenant⟩ := List.mem_map.mp h
  exact ⟨table, row, hrow, htenant⟩

theorem processMonth_of_ended (h : Ended cfg s today month) :
    processMonth cfg s today month = archiveDetachedMonth month := by
  unfold processMonth
  split
  · rfl
  · apply if_pos
    apply List.all_eq_true.mpr
    intro tenant htenant
    obtain ⟨table, row, hrow, rfl⟩ := mem_tenantsInMonth htenant
    exact decide_eq_true (h.2 table row hrow)

theorem processMonth_eq (cfg : Config α δ) (s : State α δ) (today : ℤ) (month : ℕ) :
    processMonth cfg s today month = archiveDetachedMonth month ∨
      ∃ tenants : List ℕ, processMonth cfg s today month = tenants.map (.archiveAndDelete month) := by
  unfold processMonth
  split
  · exact .inl rfl
  · dsimp only
    split
    · exact .inl rfl
    · exact .inr ⟨_, rfl⟩

theorem Ended.of_spares {other : ℕ} (h : Ended cfg s today other) (hspares : SparesMonths month s t)
    (hne : other ≠ month) : Ended cfg t today other := by
  refine ⟨h.1, fun table row hrow => ?_⟩
  rw [State.rows, hspares.leaf_eq table other hne] at hrow
  rw [hspares.retentionDays]
  exact h.2 table row hrow

theorem nodup_candidateMonths (cfg : Config α δ) (s : State α δ) (today : ℤ) :
    (s.candidateMonths cfg today).Nodup :=
  (perm_insertionSort _ _).nodup_iff.mpr ((nodup_dedup _).filter _)

theorem mem_candidateMonths (h : Ended cfg s today month) (hleaf : s.leaf table month = some leaf) :
    month ∈ s.candidateMonths cfg today := by
  rw [State.candidateMonths, mem_insertionSort, mem_filter, mem_dedup]
  exact ⟨List.mem_map.mpr ⟨_, mem_of_lookup hleaf, rfl⟩, decide_eq_true h.1⟩

variable [DecidableEq α] [DecidableEq δ] {tasks new : List Task} {months : List ℕ} {task : Task}
  {next : Option (Next α δ)} {n : Next α δ}

def Reaches (cfg : Config α δ) (s t : State α δ) : Prop :=
  ∃ n, run (step cfg) s (List.replicate n .advance) = some t

theorem Reaches.refl (s : State α δ) : Reaches cfg s s := ⟨0, rfl⟩

theorem Reaches.trans (h : Reaches cfg s t) (h' : Reaches cfg t u) : Reaches cfg s u := by
  obtain ⟨n, hn⟩ := h
  obtain ⟨m, hm⟩ := h'
  refine ⟨n + m, ?_⟩
  rw [replicate_add]
  exact run_append_eq_some.mpr ⟨t, hn, hm⟩

theorem Reaches.one (h : advance cfg s = some t) : Reaches cfg s t :=
  ⟨1, run_cons_eq_some.mpr ⟨t, h, rfl⟩⟩

theorem Reaches.inv (h : Reaches cfg s t) (hinv : Inv cfg s) : Inv cfg t := by
  obtain ⟨n, hn⟩ := h
  refine run_invariant_forall (Q := (· = .advance)) (fun hs he ht => ?_) hinv
    (fun e he => eq_of_mem_replicate he) hn
  subst he
  exact hs.advance ht

theorem reaches_perform (hcontrol : s.control = .running today none (task :: tasks) months)
    (h : perform cfg s task = .ok (t, next, new)) :
    Reaches cfg s {t with control := .running today next (new ++ tasks) months} := by
  apply Reaches.one
  rw [advance, hcontrol]
  simp only [h]

theorem reaches_finish (hcontrol : s.control = .running today (some n) tasks months)
    (h : finish cfg s n = .ok t) :
    Reaches cfg s {t with control := .running today none tasks months} := by
  apply Reaches.one
  rw [advance, hcontrol]
  simp only [h]

theorem reaches_finished {u : Control α δ → State α δ}
    (hcontrol : s.control = .running today none (task :: tasks) months)
    (hperform : perform cfg s task = .ok (t, some n, new))
    (hfinish : ∀ control, finish cfg {t with control} n = .ok (u control)) :
    Reaches cfg s {u (.running today (some n) (new ++ tasks) months) with
      control := .running today none (new ++ tasks) months} :=
  (reaches_perform hcontrol hperform).trans (reaches_finish rfl (hfinish _))

/-! ### Months of which some tenants are deleted -/

section
variable
  (hcontrol : s.control = .running today none (.archiveAndDeleteTable table month tenant :: tasks) months)
  (hleaf : s.leaf table month = some leaf)
include hcontrol hleaf

theorem reaches_batch (hne : fetchRows leaf.rows tenant none cfg.partRows ≠ []) :
    ∃ t, Reaches cfg s t ∧ t.control = s.control ∧ Spares ⟨table, month⟩ s t ∧
      ∃ leaf', t.leaf table month = some leaf' ∧ leaf'.rows.length < leaf.rows.length := by
  set batch := fetchRows leaf.rows tenant none cfg.partRows with hbatch
  set uploaded := s.upload cfg table month tenant .deleted batch with huploaded
  have hperform : perform cfg s (.archiveAndDeleteTable table month tenant) =
      .ok (uploaded.2, some (.commit uploaded.1 batch),
        [.archiveAndDeleteTable table month tenant]) := by
    have hempty : ¬batch.isEmpty = true := fun h => hne (List.isEmpty_iff.mp h)
    simp only [perform, hleaf]
    exact if_neg hempty
  have hverified : verify cfg.digest uploaded.2.objects uploaded.1 = true := by
    have hobject : uploaded.2.objects uploaded.1.key = some batch := upload_object
    rw [verify, hobject]
    exact decide_eq_true rfl
  have hfinish : ∀ control, finish cfg {uploaded.2 with control} (.commit uploaded.1 batch) =
      .ok {uploaded.2 with
        parts := recordPart (markVerified uploaded.1) s.parts
        leaves := modify ⟨table, month⟩ (·.deleteIds batch) s.leaves
        control} := by
    intro control
    simp only [finish]
    exact if_pos hverified
  have hafter : ∀ other month', List.lookup (⟨other, month'⟩ : LeafName)
      (modify ⟨table, month⟩ (·.deleteIds batch) s.leaves) = _ :=
    fun other month' => lookup_modify _ _ s.leaves ⟨other, month'⟩
  refine ⟨_, reaches_finished hcontrol hperform hfinish, hcontrol.symm,
    ⟨fun other month' hname => (hafter other month').trans (if_neg hname), rfl⟩,
    leaf.deleteIds batch, ?_, ?_⟩
  · refine (hafter table month).trans ((if_pos rfl).trans ?_)
    change (s.leaf table month).map _ = _
    rw [hleaf]
    rfl
  · obtain ⟨row, hrow⟩ := exists_mem_of_ne_nil batch hne
    apply length_filter_lt_length_iff_exists.mpr
    refine ⟨row, (of_mem_fetchRows (hbatch ▸ hrow)).1, ?_⟩
    simpa using List.mem_map_of_mem hrow

theorem reaches_archiveAndDeleteTable :
    ∃ t, Reaches cfg s t ∧ t.control = .running today none tasks months ∧
      Spares ⟨table, month⟩ s t ∧ ∃ leaf', t.leaf table month = some leaf' := by
  induction hrest : leaf.rows.length using Nat.strongRecOn generalizing s leaf with
  | _ k ih =>
    by_cases hempty : fetchRows leaf.rows tenant none cfg.partRows = []
    · have hperform : perform cfg s (.archiveAndDeleteTable table month tenant) =
          .ok (s, none, []) := by
        simp only [perform, hleaf]
        exact if_pos (List.isEmpty_iff.mpr hempty)
      exact ⟨_, reaches_perform hcontrol hperform, rfl, ⟨fun _ _ _ => rfl, rfl⟩, leaf, hleaf⟩
    · obtain ⟨m, hm, hcontrol', hspares, leaf', hleaf', hlt⟩ := reaches_batch hcontrol hleaf hempty
      obtain ⟨t, ht, hdone, hspares', hexists⟩ := ih leaf'.rows.length (hrest ▸ hlt)
        (hcontrol'.trans hcontrol) hleaf' rfl
      exact ⟨t, hm.trans ht, hdone, hspares.trans hspares', hexists⟩

end

theorem reaches_archiveAndDeleteTables (ts : List Table) (hcontrol : s.control = .running today none
      (ts.map (.archiveAndDeleteTable · month tenant) ++ tasks) months)
    (hleaves : ∀ table ∈ ts, ∃ leaf, s.leaf table month = some leaf) :
    ∃ t, Reaches cfg s t ∧ t.control = .running today none tasks months ∧
      SparesMonths month s t := by
  induction ts generalizing s with
  | nil => exact ⟨s, .refl s, hcontrol, .refl s⟩
  | cons table ts ih =>
    obtain ⟨leaf, hleaf⟩ := hleaves table mem_cons_self
    obtain ⟨m, hm, hcontrol', hspares, hexists⟩ := reaches_archiveAndDeleteTable hcontrol hleaf
    obtain ⟨t, ht, hdone, hspares'⟩ := ih hcontrol' (by
      intro other hother
      by_cases heq : other = table
      · exact heq ▸ hexists
      · obtain ⟨leaf', hleaf'⟩ := hleaves other (mem_cons_of_mem _ hother)
        refine ⟨leaf', ?_⟩
        rw [hspares.leaf_eq other month fun h => heq (congrArg LeafName.table h)]
        exact hleaf')
    exact ⟨t, hm.trans ht, hdone, hspares.sparesMonths.trans hspares'⟩

theorem reaches_archiveAndDelete (tenants : List ℕ) (hcontrol : s.control =
      .running today none (tenants.map (.archiveAndDelete month) ++ tasks) months) :
    ∃ t, Reaches cfg s t ∧ t.control = .running today none tasks months ∧
      SparesMonths month s t := by
  induction tenants generalizing s with
  | nil => exact ⟨s, .refl s, hcontrol, .refl s⟩
  | cons tenant tenants ih =>
    have hfirst : Reaches cfg s {s with
        control := .running today none
          ((tables.filter (s.isAttached month)).map (.archiveAndDeleteTable · month tenant) ++
            (tenants.map (.archiveAndDelete month) ++ tasks)) months} :=
      reaches_perform hcontrol rfl
    have hleaves : ∀ table ∈ tables.filter (s.isAttached month),
        ∃ leaf, s.leaf table month = some leaf := by
      intro table htable
      obtain ⟨leaf, hleaf, -⟩ := isAttached_iff.mp (mem_filter.mp htable).2
      exact ⟨leaf, hleaf⟩
    obtain ⟨m, hm, hcontrol', hspares⟩ :=
      reaches_archiveAndDeleteTables (s := {s with control := _}) _ rfl hleaves
    obtain ⟨t, ht, hdone, hspares'⟩ := ih hcontrol'
    refine ⟨t, (hfirst.trans hm).trans ht, hdone, ?_⟩
    exact SparesMonths.trans ⟨hspares.leaf_eq, hspares.retentionDays⟩ hspares'

/-! ### The export -/

theorem reaches_detach (ts : List Table)
    (hcontrol : s.control = .running today none (ts.map (.detach · month) ++ tasks) months) :
    ∃ t, Reaches cfg s t ∧ t.control = .running today none tasks months ∧ SparesMonths month s t ∧
      (∀ table ∈ ts, t.leaf table month = (s.leaf table month).map (·.setStatus .detached)) ∧
      ∀ table ∉ ts, t.leaf table month = s.leaf table month := by
  induction ts generalizing s with
  | nil => exact ⟨s, .refl s, hcontrol, .refl s, nofun, fun _ _ => rfl⟩
  | cons table ts ih =>
    have hfirst : Reaches cfg s {s with
        leaves := modify ⟨table, month⟩ (·.setStatus .detached) s.leaves
        control := .running today none (ts.map (.detach · month) ++ tasks) months} :=
      reaches_perform hcontrol rfl
    set m : State α δ := {s with
      leaves := modify ⟨table, month⟩ (·.setStatus .detached) s.leaves
      control := .running today none (ts.map (.detach · month) ++ tasks) months}
    have hleaf : ∀ other month', m.leaf other month' =
        if (⟨other, month'⟩ : LeafName) = ⟨table, month⟩
        then (s.leaf other month').map (·.setStatus .detached) else s.leaf other month' :=
      fun other month' => leaf_modify {s with control := m.control} _ _ other month'
    have hother : ∀ other, other ≠ table → m.leaf other month = s.leaf other month :=
      fun other hne => (hleaf other month).trans (if_neg fun heq => hne (congrArg LeafName.table heq))
    obtain ⟨t, ht, hdone, hspares, hin, hout⟩ := ih (s := m) rfl
    have hmonths : SparesMonths month s m :=
      ⟨fun other month' hne => (hleaf other month').trans
        (if_neg fun heq => hne (congrArg LeafName.month heq)), rfl⟩
    refine ⟨t, hfirst.trans ht, hdone, hmonths.trans hspares, fun other hmem => ?_, fun other hnot => ?_⟩
    · by_cases hrest : other ∈ ts
      · rw [hin other hrest]
        by_cases heq : other = table
        · rw [heq, hleaf, if_pos rfl, Option.map_map]
          rfl
        · rw [hother other heq]
      · rcases mem_cons.mp hmem with rfl | hmem
        · rw [hout other hrest, hleaf, if_pos rfl]
        · exact absurd hmem hrest
    · obtain ⟨hne, hrest⟩ := not_or.mp (mt mem_cons.mpr hnot)
      rw [hout other hrest, hother other hne]

section
variable (hlimit : 0 < cfg.partRows) (hinv : Inv cfg s) (hleaf : s.leaf table month = some leaf)
  (hdet : leaf.status = .detached)
include hleaf

theorem reaches_part
    (hcontrol : s.control = .running today none (.exportTenant table month tenant :: tasks) months)
    (hne : fetchRows leaf.rows tenant (cursor table tenant month s.parts) cfg.partRows ≠ []) :
    ∃ t, Reaches cfg s t ∧ t.control = s.control ∧ Exporting table month s t ∧
      (exported s.objects s.parts table month).length <
        (exported t.objects t.parts table month).length := by
  set batch := fetchRows leaf.rows tenant (cursor table tenant month s.parts) cfg.partRows with hbatch
  set uploaded := s.upload cfg table month tenant .detached batch with huploaded
  have hperform : perform cfg s (.exportTenant table month tenant) =
      .ok (uploaded.2, some (.record uploaded.1), [.exportTenant table month tenant]) := by
    have hempty : ¬batch.isEmpty = true := fun h => hne (List.isEmpty_iff.mp h)
    simp only [perform, hleaf]
    exact if_neg hempty
  have hrecorded : recordPart uploaded.1 s.parts = s.parts ++ [uploaded.1] :=
    recordPart_of_forall_ne fun other hother => key_ne_nextPart hother
  have hobjects : exported uploaded.2.objects s.parts table month =
      exported s.objects s.parts table month := by
    apply flatMap_congr
    intro part hpart
    rw [bodyOf, huploaded, upload_objects_of_mem (mem_detachedParts.mp hpart).1]
    rfl
  have hexported : exported uploaded.2.objects (recordPart uploaded.1 s.parts) table month =
      exported s.objects s.parts table month ++ batch := by
    have hof : uploaded.1.key.table = table ∧ uploaded.1.key.month = month ∧
        uploaded.1.mode = .detached := ⟨rfl, rfl, rfl⟩
    rw [hrecorded, exported_append_of s.parts hof upload_object, hobjects]
  refine ⟨_, reaches_finished hcontrol hperform fun _ => rfl, hcontrol.symm,
    ⟨rfl, rfl, fun row hrow => ?_⟩, ?_⟩
  · exact hexported ▸ mem_append_left _ hrow
  · change _ < (exported uploaded.2.objects (recordPart uploaded.1 s.parts) table month).length
    rw [hexported, length_append]
    have hpos := length_pos_of_ne_nil hne
    omega

include hinv hdet

theorem reaches_verifyDetached
    (hcontrol : s.control = .running today none (.verifyDetached table month :: tasks) months)
    (hall : ∀ row ∈ leaf.rows, row ∈ exported s.objects s.parts table month) :
    ∃ t, Reaches cfg s t ∧ t.control = .running today none tasks months ∧
      Spares ⟨table, month⟩ s t ∧ t.leaf table month = none := by
  have hledger := hinv.ledger table month leaf hleaf hdet
  have hcount : leaf.rows.length = ((detachedParts table month s.parts).map Archive.Part.rowCount).sum := by
    rw [← length_exported hinv.stored]
    exact hledger.length_eq (hinv.ids table month leaf hleaf).1.of_map hall
  have hverified : (detachedParts table month s.parts).all (verify cfg.digest s.objects) = true := by
    apply List.all_eq_true.mpr
    intro part hpart
    obtain ⟨body, hobject, hdigest, -⟩ := hinv.stored part (mem_detachedParts.mp hpart).1
    rw [verify, hobject, hdigest]
    exact decide_eq_true rfl
  have hperform : perform cfg s (.verifyDetached table month) =
      .ok ({s with parts := s.parts.map (markDetached table month)}, some (.drop table month),
        []) := by
    simp only [perform, hleaf]
    rw [if_neg (not_not.mpr hcount), if_pos hverified]
  have hdrop : ∀ control, finish cfg {s with
      parts := s.parts.map (markDetached table month), control} (.drop table month) =
      .ok {s with
        parts := s.parts.map (markDetached table month)
        leaves := delete ⟨table, month⟩ s.leaves
        control} := by
    intro control
    have hleaf' : {s with parts := s.parts.map (markDetached table month), control}.leaf table
        month = some leaf := hleaf
    simp only [finish, hleaf']
    exact if_pos hdet
  refine ⟨_, reaches_finished hcontrol hperform hdrop, rfl, ⟨fun table' month' hne => ?_, rfl⟩, ?_⟩
  · exact (lookup_delete _ s.leaves _).trans (if_neg hne)
  · exact (lookup_delete _ s.leaves _).trans (if_pos rfl)

include hlimit

theorem reaches_exportTenant
    (hcontrol : s.control = .running today none (.exportTenant table month tenant :: tasks) months) :
    ∃ t, Reaches cfg s t ∧ t.control = .running today none tasks months ∧
      Exporting table month s t ∧ ∀ row ∈ leaf.rows, row.tenant = tenant →
        row ∈ exported t.objects t.parts table month := by
  -- on the rows that are not exported
  induction hrest : leaf.rows.length - (exported s.objects s.parts table month).length
    using Nat.strongRecOn generalizing s with
  | _ k ih =>
    have hledger := hinv.ledger table month leaf hleaf hdet
    by_cases hempty : fetchRows leaf.rows tenant (cursor table tenant month s.parts) cfg.partRows = []
    · have hperform : perform cfg s (.exportTenant table month tenant) = .ok (s, none, []) := by
        simp only [perform, hleaf]
        exact if_pos (List.isEmpty_iff.mpr hempty)
      refine ⟨_, reaches_perform hcontrol hperform, rfl, ⟨rfl, rfl, fun _ h => h⟩, ?_⟩
      intro row hrow htenant
      have hle := fetchRows_eq_nil hlimit hempty hrow htenant
      rw [← htenant] at hle
      exact hledger.mem_exported hrow ((hinv.ids table month leaf hleaf).2 row hrow) hle
    · obtain ⟨m, hm, hcontrol', hexporting, hlt⟩ := reaches_part hleaf hcontrol hempty
      have hinv' := hm.inv hinv
      have hleaf' := (hexporting.leaf_eq table month).trans hleaf
      have hbound : (exported m.objects m.parts table month).length ≤ leaf.rows.length :=
        (subperm_of_subset (hinv'.ledger table month leaf hleaf' hdet).nodup
          (hinv'.ledger table month leaf hleaf' hdet).subset).length_le
      obtain ⟨t, ht, hdone, hexporting', hall⟩ := ih _ (by omega) hinv' hleaf'
        (hcontrol'.trans hcontrol) rfl
      exact ⟨t, hm.trans ht, hdone, hexporting.trans hexporting', hall⟩

theorem reaches_exportTenants (tenants : List ℕ) (hcontrol : s.control =
      .running today none (tenants.map (.exportTenant table month) ++ tasks) months) :
    ∃ t, Reaches cfg s t ∧ t.control = .running today none tasks months ∧
      Exporting table month s t ∧ ∀ row ∈ leaf.rows, row.tenant ∈ tenants →
        row ∈ exported t.objects t.parts table month := by
  induction tenants generalizing s with
  | nil => exact ⟨s, .refl s, hcontrol, .refl s, nofun⟩
  | cons tenant tenants ih =>
    obtain ⟨m, hm, hcontrol', hexporting, hall⟩ := reaches_exportTenant hlimit hinv hleaf hdet hcontrol
    obtain ⟨t, ht, hdone, hexporting', hall'⟩ := ih (hm.inv hinv)
      ((hexporting.leaf_eq table month).trans hleaf) hcontrol'
    refine ⟨t, hm.trans ht, hdone, hexporting.trans hexporting', fun row hrow htenant => ?_⟩
    rcases mem_cons.mp htenant with hfirst | hrest
    · exact hexporting'.exported row (hall row hrow hfirst)
    · exact hall' row hrow hrest

theorem reaches_archiveDetachedTable (hcontrol : s.control = .running today none
      (.exportDetached table month :: .verifyDetached table month :: tasks) months) :
    ∃ t, Reaches cfg s t ∧ t.control = .running today none tasks months ∧
      Spares ⟨table, month⟩ s t ∧ t.leaf table month = none := by
  have hperform : perform cfg s (.exportDetached table month) =
      .ok (s, none, (tenantsIn leaf.rows).map (.exportTenant table month)) := by
    simp only [perform, hleaf]
  have hfirst := reaches_perform hcontrol hperform
  obtain ⟨m, hm, hcontrol', hexporting, hall⟩ := reaches_exportTenants hlimit (hfirst.inv hinv) hleaf
    hdet (tenantsIn leaf.rows) rfl
  have hinv' := (hfirst.trans hm).inv hinv
  obtain ⟨t, ht, hdone, hspares, hnone⟩ := reaches_verifyDetached hinv'
    ((hexporting.leaf_eq table month).trans hleaf) hdet hcontrol'
    fun row hrow => hall row hrow (mem_tenantsIn hrow)
  refine ⟨t, (hfirst.trans hm).trans ht, hdone, ?_, hnone⟩
  exact Spares.trans ⟨fun table' month' _ => hexporting.leaf_eq table' month',
    hexporting.retentionDays⟩ hspares

omit hleaf hdet

/-! ### Months that are dropped -/

theorem reaches_archiveDetachedTables {ts : List Table} (hnodup : ts.Nodup)
    (hcontrol : s.control = .running today none (ts.flatMap (fun table =>
      [.exportDetached table month, .verifyDetached table month]) ++ tasks) months)
    (hdetached : ∀ table ∈ ts, ∃ leaf, s.leaf table month = some leaf ∧ leaf.status = .detached) :
    ∃ t, Reaches cfg s t ∧ t.control = .running today none tasks months ∧ SparesMonths month s t ∧
      (∀ table ∈ ts, t.leaf table month = none) ∧
      ∀ table ∉ ts, t.leaf table month = s.leaf table month := by
  induction ts generalizing s with
  | nil => exact ⟨s, .refl s, hcontrol, .refl s, nofun, fun _ _ => rfl⟩
  | cons table ts ih =>
    obtain ⟨hnot, hnodup⟩ := nodup_cons.mp hnodup
    obtain ⟨leaf, hleaf, hdet⟩ := hdetached table mem_cons_self
    obtain ⟨m, hm, hcontrol', hspares, hnone⟩ :=
      reaches_archiveDetachedTable hlimit hinv hleaf hdet hcontrol
    have hkept : ∀ other, other ≠ table → m.leaf other month = s.leaf other month :=
      fun other hne => hspares.leaf_eq other month fun heq => hne (congrArg LeafName.table heq)
    obtain ⟨t, ht, hdone, hspares', hgone, hrest⟩ := ih (hm.inv hinv) hnodup hcontrol' (by
      intro other hother
      obtain ⟨leaf', hleaf', hdet'⟩ := hdetached other (mem_cons_of_mem _ hother)
      have hne : other ≠ table := fun heq => hnot (heq ▸ hother)
      exact ⟨leaf', (hkept other hne).trans hleaf', hdet'⟩)
    refine ⟨t, hm.trans ht, hdone, hspares.sparesMonths.trans hspares', fun other hother => ?_,
      fun other hother => ?_⟩
    · by_cases hin : other ∈ ts
      · exact hgone other hin
      · rcases mem_cons.mp hother with rfl | hin'
        · exact (hrest other hin).trans hnone
        · exact absurd hin' hin
    · obtain ⟨hne, hin⟩ := not_or.mp (mt mem_cons.mpr hother)
      exact (hrest other hin).trans (hkept other hne)

theorem reaches_archiveDetachedMonth
    (hcontrol : s.control = .running today none (archiveDetachedMonth month ++ tasks) months) :
    ∃ t, Reaches cfg s t ∧ t.control = .running today none tasks months ∧ SparesMonths month s t ∧
      ∀ table, t.leaf table month = none := by
  rw [archiveDetachedMonth, append_assoc] at hcontrol
  obtain ⟨m, hm, hcontrol', hspares, hdetached, -⟩ := reaches_detach tables hcontrol
  have hperform : Reaches cfg m _ := reaches_perform hcontrol' rfl
  obtain ⟨t, ht, hdone, hspares', hgone, hrest⟩ := reaches_archiveDetachedTables hlimit
    ((hm.trans hperform).inv hinv)
    (List.Nodup.filter (m.isDetached month) (by decide : tables.Nodup)) rfl
    fun table htable => isDetached_iff.mp (mem_filter.mp htable).2
  refine ⟨t, (hm.trans hperform).trans ht, hdone, ?_, fun table => ?_⟩
  · exact hspares.trans ⟨hspares'.leaf_eq, hspares'.retentionDays⟩
  · by_cases htable : table ∈ tables.filter (m.isDetached month)
    · exact hgone table htable
    · have hleaf : m.leaf table month = none := by
        cases hleaf : s.leaf table month with
        | none => rw [hdetached table (mem_tables table), hleaf, map_none]
        | some leaf =>
          refine absurd (mem_filter.mpr ⟨mem_tables table, isDetached_iff.mpr ?_⟩) htable
          exact ⟨leaf.setStatus .detached, by rw [hdetached table (mem_tables table), hleaf]; rfl, rfl⟩
      exact (hrest table htable).trans hleaf

/-! ### Whole runs -/

theorem reaches_processMonth
    (hcontrol : s.control = .running today none [] (month :: months)) :
    ∃ t, Reaches cfg s t ∧ t.control = .running today none [] months ∧ SparesMonths month s t ∧
      (Ended cfg s today month → ∀ table, t.leaf table month = none) := by
  have hfirst : Reaches cfg s {s with
      control := .running today none (processMonth cfg s today month ++ []) months} := by
    apply Reaches.one
    rw [advance, hcontrol, append_nil]
  have hinv' := hfirst.inv hinv
  by_cases hdrop : processMonth cfg s today month = archiveDetachedMonth month
  · obtain ⟨t, ht, hdone, hspares, hnone⟩ := reaches_archiveDetachedMonth hlimit hinv' (by rw [hdrop])
    exact ⟨t, hfirst.trans ht, hdone, ⟨hspares.leaf_eq, hspares.retentionDays⟩, fun _ => hnone⟩
  · obtain ⟨tenants, hdelete⟩ := (processMonth_eq cfg s today month).resolve_left hdrop
    obtain ⟨t, ht, hdone, hspares⟩ := reaches_archiveAndDelete tenants
      (s := {s with control := .running today none (processMonth cfg s today month ++ []) months})
      (by rw [hdelete])
    exact ⟨t, hfirst.trans ht, hdone, ⟨hspares.leaf_eq, hspares.retentionDays⟩,
      fun h => absurd (processMonth_of_ended h) hdrop⟩

theorem reaches_months (hnodup : months.Nodup)
    (hcontrol : s.control = .running today none [] months) :
    ∃ t, Reaches cfg s t ∧ t.control = .running today none [] [] ∧
      (∀ month ∈ months, Ended cfg s today month → ∀ table, t.leaf table month = none) ∧
      ∀ month ∉ months, ∀ table, t.leaf table month = s.leaf table month := by
  induction months generalizing s with
  | nil => exact ⟨s, .refl s, hcontrol, nofun, fun _ _ _ => rfl⟩
  | cons month months ih =>
    obtain ⟨hnot, hnodup⟩ := nodup_cons.mp hnodup
    obtain ⟨m, hm, hcontrol', hspares, hnone⟩ := reaches_processMonth hlimit hinv hcontrol
    obtain ⟨t, ht, hdone, hgone, hrest⟩ := ih (hm.inv hinv) hnodup hcontrol'
    refine ⟨t, hm.trans ht, hdone, fun other hother hended => ?_, fun other hother table => ?_⟩
    · rcases mem_cons.mp hother with rfl | hother
      · intro table
        exact (hrest other hnot table).trans (hnone hended table)
      · have hne : other ≠ month := fun heq => hnot (heq ▸ hother)
        exact hgone other hother (hended.of_spares hspares hne)
    · obtain ⟨hne, hother⟩ := not_or.mp (mt mem_cons.mpr hother)
      exact (hrest other hother table).trans (hspares.leaf_eq table other hne)

end

/-- After an orderly history, a run whose operations all succeed returns `{:ok, _}` and leaves no
partition of a month that has ended for all its tenants. -/
theorem retention_completes {cfg : Config α δ} {es : List (Event α)} {s : State α δ}
    (h : run (step cfg) {} es = some s) (horderly : Along (step cfg) Orderly {} es)
    (hlimit : 0 < cfg.partRows) (hidle : s.control.isRunning = false) (today : ℤ) :
    ∃ n t, run (step cfg) s (.start today :: List.replicate n .advance) = some t ∧
      t.control = .returned none ∧
      ∀ month, Ended cfg s today month → ∀ table, t.leaf table month = none := by
  have hinv : Inv cfg s := run_invariant_along Inv.step (inv_init cfg) horderly h
  set started : State α δ := {s with
    control := .running today none [] (s.candidateMonths cfg today)} with hstarted
  have hstart : step cfg s (.start today) = some started := by
    simp only [step]
    split
    · rename_i hcontrol
      rw [hcontrol] at hidle
      cases hidle
    · rfl
    · rfl
  have horderly' : Orderly s (.start today) := trivial
  obtain ⟨m, hm, hcontrol, hgone, hrest⟩ := reaches_months hlimit
    (hinv.step horderly' hstart) (nodup_candidateMonths cfg s today) rfl
  have hlast : Reaches cfg m {m with control := .returned none} := by
    apply Reaches.one
    rw [advance, hcontrol]
  obtain ⟨n, hn⟩ := hm.trans hlast
  refine ⟨n, _, run_cons_eq_some.mpr ⟨started, hstart, hn⟩, rfl, fun month hended table => ?_⟩
  change m.leaf table month = none
  by_cases hmonth : month ∈ s.candidateMonths cfg today
  · exact hgone month hmonth hended table
  · rw [hrest month hmonth table]
    cases hleaf : s.leaf table month with
    | none => exact hleaf
    | some leaf => exact absurd (mem_candidateMonths hended hleaf) hmonth

def interruptedExport : List (Event ℕ) :=
  [.create .activities january, .insert .activities january (message 5), .start 740000] ++
    List.replicate 6 .advance ++ [.crash]

theorem retention_completes_interrupted : ∃ s n t,
    run (step smallParts) {} interruptedExport = some s ∧
    run (step smallParts) s (.start 740000 :: List.replicate n .advance) = some t ∧
    t.control = .returned none ∧
    ∀ month, Ended smallParts s 740000 month → ∀ table, t.leaf table month = none := by
  obtain ⟨s, hs, hidle⟩ : ∃ s, run (step smallParts) {} interruptedExport = some s ∧
      s.control.isRunning = false := by decide +kernel
  have horderly : Along (step smallParts) Orderly {} interruptedExport := by decide +kernel
  obtain ⟨n, t, ht⟩ := retention_completes hs horderly (by decide) hidle 740000
  exact ⟨s, n, t, hs, ht⟩

/-- January, with messages of the tenants 1 and 2, is archived and dropped; then it is imported
again for tenant 1 alone, and there is a partition for February. -/
def oneTenantImported : List (Event ℕ) :=
  [.create .activities january, .insert .activities january (message 5),
    .insert .activities january ⟨8, 0, 2, 5⟩, .start 740000] ++ List.replicate 14 .advance ++
  [.create .activities january, .insert .activities january (message 5),
    .create .activities (january + 1)]

/-- The manifest has the part of tenant 2, so the counts never agree: each later run fails at
January and leaves February. -/
theorem reimported_month_blocks : ∃ s t u, run (step smallParts) {} oneTenantImported = some s ∧
    s.control = .returned none ∧ Ended smallParts s 740000 january ∧
    Ended smallParts s 740000 (january + 1) ∧
    run (step smallParts) s (.start 740000 :: List.replicate 7 .advance) = some t ∧
    t.control = .returned (some (.archiveIncomplete .activities january 1 2)) ∧
    run (step smallParts) t (.start 740031 :: List.replicate 7 .advance) = some u ∧
    u.control = .returned (some (.archiveIncomplete .activities january 1 2)) ∧
    u.leaf .activities january ≠ none ∧ u.leaf .activities (january + 1) ≠ none := by
  obtain ⟨s, hs, hreturned, hended, t, ht, hfirst, u, hu, hsecond, hleaves⟩ :
      ∃ s, run (step smallParts) {} oneTenantImported = some s ∧ s.control.result = some none ∧
      (∀ month ∈ [january, january + 1], monthStart (month + 1) ≤ 740000 - 30 ∧
        ∀ table ∈ tables, ∀ row ∈ s.rows table month,
          smallParts.expired month (s.retentionDays row.tenant) 740000) ∧
      ∃ t, run (step smallParts) s (.start 740000 :: List.replicate 7 .advance) = some t ∧
      t.control.result = some (some (.archiveIncomplete .activities january 1 2)) ∧
      ∃ u, run (step smallParts) t (.start 740031 :: List.replicate 7 .advance) = some u ∧
      u.control.result = some (some (.archiveIncomplete .activities january 1 2)) ∧
      u.leaf .activities january ≠ none ∧ u.leaf .activities (january + 1) ≠ none := by decide +kernel
  have hended : ∀ month ∈ [january, january + 1], Ended smallParts s 740000 month :=
    fun month hmonth => ⟨(hended month hmonth).1, fun table => (hended month hmonth).2 table
      (mem_tables table)⟩
  exact ⟨s, t, u, hs, Control.result_eq_some.mp hreturned, hended _ mem_cons_self,
    hended _ (mem_cons_of_mem _ mem_cons_self), ht, Control.result_eq_some.mp hfirst, hu,
    Control.result_eq_some.mp hsecond, hleaves⟩

end Converger.Retention
