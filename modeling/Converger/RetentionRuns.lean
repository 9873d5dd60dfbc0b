import Converger.RetentionInvariant

/-!
# Runs of retention

What retention removes is archived as it is at that moment, in every history in which no month gets
a new partition after it was archived and dropped.
-/
namespace Converger.Retention
open Archive GuardedRuns KeyedLists List

variable {α δ : Type}

section
variable {cfg : Config α δ} {s t : State α δ} {table : Table} {month tenant : ℕ} {leaf : Leaf α}
  {tasks : List Task} {today : ℤ} {months : List ℕ} {mode : Mode} {batch : List (Row α)}

/-! ### Uploads -/

theorem upload_part : (s.upload cfg table month tenant mode batch).1 = uploadPart cfg.digest
    ⟨tenant, month, table, nextPart table tenant month s.parts⟩ mode batch := rfl

theorem upload_object : (s.upload cfg table month tenant mode batch).2.objects
    (s.upload cfg table month tenant mode batch).1.key = some batch :=
  Function.update_self ..

theorem upload_objects_of_mem {part : Archive.Part δ} (h : part ∈ s.parts) :
    (s.upload cfg table month tenant mode batch).2.objects part.key = s.objects part.key :=
  Function.update_of_ne (key_ne_nextPart h) _ _

theorem rows_modify_of_eq {f : Leaf α → Leaf α} (hf : ∀ leaf, (f leaf).rows = leaf.rows)
    (name : LeafName) (table : Table) (month : ℕ) :
    {s with leaves := modify name f s.leaves}.rows table month = s.rows table month := by
  rw [State.rows, leaf_modify, State.rows]
  split
  · rw [Option.map_map]
    congr 2
    funext leaf
    exact hf leaf
  · rfl

theorem Dropping.status {task : Task} (h : Dropping s (task :: tasks))
    (hname : task.leafName = some ⟨table, month⟩) (hleaf : s.leaf table month = some leaf) :
    leaf.status = .detached := by
  obtain ⟨leaf', hleaf', hdet⟩ := h.detached _ mem_cons_self _ hname
  cases hleaf.symm.trans hleaf'
  exact hdet

variable (h : Inv cfg s)
include h

theorem Inv.upload {n : Next α δ} (hspares : n.Spares tasks)
    (htasks : TasksOk s tasks) (hn : NextOk cfg (s.upload cfg table month tenant mode batch).2 n) :
    Inv cfg {(s.upload cfg table month tenant mode batch).2 with
      control := .running today (some n) tasks months} := by
  have hidle : Inv cfg {(s.upload cfg table month tenant mode batch).2 with control := .idle} := by
    constructor
    case ids => exact h.ids
    case stored =>
      intro part hpart
      obtain ⟨body, hobject, hbody⟩ := h.stored part hpart
      refine ⟨body, ?_, hbody⟩
      rw [← hobject]
      exact upload_objects_of_mem hpart
    case fresh => exact h.fresh
    case ledger =>
      intro table' month' leaf' hleaf' hdet
      apply (h.ledger table' month' leaf' hleaf' hdet).of_eq rfl
      intro part hpart
      exact upload_objects_of_mem (mem_detachedParts.mp hpart).1
    case control => exact nofun
  apply hidle.of_control
  rintro _ _ _ _ ⟨⟩
  refine ⟨?_, htasks.of_leaf_eq fun _ _ => rfl⟩
  rintro _ ⟨⟩
  exact ⟨hn.of_control, hspares⟩

theorem archived_of_mem_exported (hleaf : s.leaf table month = some leaf)
    (hdet : leaf.status = .detached) {row : Row α}
    (hrow : row ∈ exported s.objects s.parts table month) :
    Archived cfg {s with parts := s.parts.map (markDetached table month)} table month row := by
  obtain ⟨part, hpart, hbody⟩ := mem_flatMap.mp hrow
  obtain ⟨hmem, htable, hmonth, hmode⟩ := mem_detachedParts.mp hpart
  obtain ⟨body, hobject, hdigest, -⟩ := h.stored part hmem
  obtain ⟨htenant, -⟩ := (h.ledger table month leaf hleaf hdet).bounded part hpart row hbody
  have hmarked : markDetached table month part = markVerified part := if_pos ⟨htable, hmonth, hmode⟩
  rw [bodyOf, hobject] at hbody
  refine ⟨markVerified part, ?_, htable, hmonth, htenant.symm, rfl, body, hobject, hdigest, hbody⟩
  exact hmarked ▸ List.mem_map_of_mem hmem

/-! ### The verification -/

theorem Inv.verifyDetached (htasks : TasksOk s (.verifyDetached table month :: tasks))
    (hleaf : s.leaf table month = some leaf)
    (hcount : leaf.rows.length = ((detachedParts table month s.parts).map Archive.Part.rowCount).sum) :
    Inv cfg {s with
      parts := s.parts.map (markDetached table month)
      control := .running today (some (.drop table month)) tasks months} := by
  have hdropping := htasks.dropping rfl
  have hdet := hdropping.status rfl hleaf
  have hledger := h.ledger table month leaf hleaf hdet
  have hlength : leaf.rows.length = (exported s.objects s.parts table month).length := by
    rw [length_exported h.stored, hcount]
  constructor
  case ids => exact h.ids
  case stored =>
    intro part hpart
    obtain ⟨old, hold, rfl⟩ := List.mem_map.mp hpart
    exact (h.stored old hold).markDetached table month
  case fresh =>
    intro table' month' leaf' hleaf' hnot
    change detachedParts table' month' (s.parts.map (markDetached table month)) = []
    rw [detachedParts_map_markDetached, h.fresh table' month' leaf' hleaf' hnot]
    rfl
  case ledger =>
    intro table' month' leaf' hleaf' hdet'
    exact (h.ledger table' month' leaf' hleaf' hdet').of_map
      (detachedParts_map_markDetached table' month') (markDetached_key table month)
      (markDetached_lastId table month) fun _ _ => rfl
  case control =>
    intro today' next' tasks' months' hcontrol
    cases hcontrol
    refine ⟨fun n hn => ?_, htasks.tail.of_leaf_eq fun _ _ => rfl⟩
    cases hn
    refine ⟨.drop fun leaf' hleaf' _ row hrow => ?_, (pairwise_cons.mp hdropping.order).1⟩
    cases hleaf.symm.trans hleaf'
    exact archived_of_mem_exported h hleaf hdet (hledger.mem_exported_of_length hlength hrow)

/-! ### Steps -/

variable [DecidableEq δ] {next : Option (Next α δ)} {new : List Task}

omit h in
theorem rows_perform {task : Task} (h : Retention.perform cfg s task = .ok (t, next, new))
    (table : Table) (month : ℕ) : t.rows table month = s.rows table month := by
  cases task with
  | detach =>
    cases h
    exact rows_modify_of_eq (f := (·.setStatus .detached)) (fun _ => rfl) _ table month
  | archiveDetachedTables | archiveAndDelete =>
    cases h
    rfl
  | exportDetached | exportTenant | verifyDetached | archiveAndDeleteTable =>
    simp only [Retention.perform] at h
    split at h
    · cases h
    · repeat' split at h
      all_goals cases h
      all_goals rfl

theorem Inv.perform {task : Task} (htasks : TasksOk s (task :: tasks))
    (hperform : Retention.perform cfg s task = .ok (t, next, new)) :
    Inv cfg {t with control := .running today next (new ++ tasks) months} := by
  revert hperform
  fun_cases Retention.perform cfg s task with
  | case1 =>
    rintro ⟨⟩
    exact h.detach htasks
  | case2 =>
    rintro ⟨⟩
    exact h.of_tasks (tasksOk_archiveDetachedTables htasks)
  | case4 =>
    rintro ⟨⟩
    exact h.of_tasks (tasksOk_exportDetached htasks _)
  | case6 | case14 =>
    rintro ⟨⟩
    exact h.of_tasks htasks.tail
  | case7 table month tenant leaf hleaf rows hempty part u hupload =>
    cases hupload
    rintro ⟨⟩
    apply h.upload (by trivial) htasks
    have hne : rows ≠ [] := fun hnil => hempty (List.isEmpty_iff.mpr hnil)
    exact .record table month tenant leaf _ hleaf ((htasks.dropping rfl).status rfl hleaf) rfl hne upload_part
      upload_object
  | case10 table month leaf hleaf parts archived hcount =>
    rintro ⟨⟩
    exact h.verifyDetached htasks hleaf (Decidable.not_not.mp hcount)
  | case12 =>
    rintro ⟨⟩
    exact h.of_tasks (tasksOk_archiveAndDelete htasks)
  | case15 table month tenant leaf hleaf rows hempty part u hupload =>
    cases hupload
    rintro ⟨⟩
    have hlive : leaf.status ≠ .detached := htasks.deleting rfl _ mem_cons_self leaf hleaf
    apply h.upload (by trivial) htasks
    refine .commit table month tenant leaf hleaf hlive (fun row hrow => ?_) upload_part upload_object
    obtain ⟨hmem, htenant, -⟩ := of_mem_fetchRows hrow
    exact ⟨hmem, htenant⟩
  | case3 | case5 | case8 | case9 | case11 | case13 => rintro ⟨⟩

theorem Inv.finish {next : Next α δ} (hok : NextOk cfg s next)
    (hspares : next.Spares tasks) (htasks : TasksOk s tasks)
    (hfinish : Retention.finish cfg s next = .ok t) : Inv cfg (Between t today tasks months) := by
  revert hfinish
  fun_cases Retention.finish cfg s next with
  | case1 =>
    rintro ⟨⟩
    exact h.record hok htasks
  | case2 =>
    rintro ⟨⟩
    exact h.of_tasks htasks
  | case3 =>
    rintro ⟨⟩
    exact h.drop htasks hspares
  | case5 =>
    rintro ⟨⟩
    exact h.commit hok htasks
  | case4 | case6 => nofun

theorem Inv.advance (ht : Retention.advance cfg s = some t) : Inv cfg t := by
  revert ht
  fun_cases Retention.advance cfg s with
  | case1 today next tasks months hcontrol u hfinish =>
    rintro ⟨⟩
    obtain ⟨hnext, htasks⟩ := h.control _ _ _ _ hcontrol
    obtain ⟨hok, hspares⟩ := hnext next rfl
    exact h.finish hok hspares htasks hfinish
  | case3 today task tasks months hcontrol u next new hperform =>
    rintro ⟨⟩
    exact h.perform (h.control _ _ _ _ hcontrol).2 hperform
  | case5 =>
    rintro ⟨⟩
    exact h.of_tasks (tasksOk_processMonth cfg s _ _)
  | case2 | case4 | case6 =>
    rintro ⟨⟩
    exact h.of_control nofun
  | case7 | case8 => nofun

omit h in
theorem Inv.step [DecidableEq α] {e : Event α} (h : Inv cfg s) (horderly : Orderly s e)
    (ht : Retention.step cfg s e = some t) : Inv cfg t := by
  cases e with
  | start today =>
    have hstarted : Inv cfg (Between s today [] (s.candidateMonths cfg today)) :=
      h.of_tasks (.inr fun _ ht => absurd ht not_mem_nil)
    simp only [Retention.step] at ht
    split at ht <;> cases ht
    · exact hstarted
    · exact hstarted
  | advance => exact h.advance ht
  | crash =>
    simp only [Retention.step] at ht
    split at ht <;> cases ht
    apply h.of_control
    intro _ _ _ _ hcontrol
    cases hcontrol
  | interrupt => exact h.interrupt ht
  | create => exact h.create horderly ht
  | insert => exact h.insert horderly ht
  | edit => exact h.edit ht
  | setRetentionDays =>
    cases ht
    exact h.of_control h.control

/-! ### What is removed -/

theorem archived_of_finish {next : Next α δ} (hok : NextOk cfg s next)
    (hfinish : Retention.finish cfg s next = .ok t) {row : Row α} (hrow : row ∈ s.rows table month)
    (hgone : row ∉ t.rows table month) : Archived cfg t table month row := by
  revert hfinish
  fun_cases Retention.finish cfg s next with
  | case1 | case2 =>
    rintro ⟨⟩
    exact absurd hrow hgone
  | case3 table' month' leaf hleaf hdet =>
    rintro ⟨⟩
    by_cases hname : (⟨table, month⟩ : LeafName) = ⟨table', month'⟩
    · cases hname
      rw [rows_of_leaf hleaf] at hrow
      obtain _ | harchived | _ := hok
      exact harchived leaf hleaf hdet row hrow
    · rw [State.rows, leaf_delete, if_neg hname] at hgone
      exact absurd hrow hgone
  | case5 part batch =>
    rintro ⟨⟩
    cases hok with
    | @commit _ _ table' month' tenant leaf hleaf hlive hrows hpart hobject =>
    have hkey : part.key = ⟨tenant, month', table', nextPart table' tenant month' s.parts⟩ := by
      rw [hpart]
      rfl
    have hafter := leaf_modify {s with parts := recordPart (markVerified part) s.parts}
      ⟨part.key.table, part.key.month⟩ (·.deleteIds batch) table month
    by_cases hname : (⟨table, month⟩ : LeafName) = ⟨table', month'⟩
    · cases hname
      rw [rows_of_leaf hleaf] at hrow
      -- the id of a removed row is one of the batch, and ids are unique
      have hid : row.id ∈ batch.map Row.id := by
        by_contra hnot
        apply hgone
        rw [hkey, if_pos rfl] at hafter
        rw [State.rows, hkey, hafter]
        change row ∈ ((Option.map _ (s.leaf table month)).map Leaf.rows).getD []
        rw [hleaf]
        exact mem_filter.mpr ⟨hrow, decide_eq_true hnot⟩
      obtain ⟨other, hother, heq⟩ := List.mem_map.mp hid
      have hsame : other = row := inj_on_of_nodup_map (h.ids table month leaf hleaf).1
        (hrows other hother).1 hrow heq
      rw [hsame] at hother
      refine ⟨markVerified part, mem_append_right _ mem_cons_self, ?_, ?_, ?_, rfl, batch,
        hobject, ?_, hother⟩
      · exact congrArg Key.table hkey
      · exact congrArg Key.month hkey
      · exact (congrArg Key.tenant hkey).trans (hrows row hother).2.symm
      · rw [hpart]
        rfl
    · rw [hkey, if_neg hname] at hafter
      rw [State.rows, hkey, hafter] at hgone
      exact absurd hrow hgone
  | case4 | case6 => rintro ⟨⟩

end

/-- Whatever a step of retention removes is in a verified object, with the values it has. -/
theorem removed_rows_archived [DecidableEq α] [DecidableEq δ] {cfg : Config α δ}
    {es : List (Event α)} {s t : State α δ} (h : run (step cfg) {} es = some s)
    (horderly : Along (step cfg) Orderly {} es) (ht : step cfg s .advance = some t) {table : Table}
    {month : ℕ} {row : Row α} (hrow : row ∈ s.rows table month) (hgone : row ∉ t.rows table month) :
    Archived cfg t table month row := by
  have hinv : Inv cfg s := run_invariant_along Inv.step (inv_init cfg) horderly h
  change advance cfg s = some t at ht
  revert ht
  fun_cases advance cfg s with
  | case1 today next tasks months hcontrol u hfinish =>
    rintro ⟨⟩
    obtain ⟨hnext, -⟩ := hinv.control _ _ _ _ hcontrol
    exact archived_of_finish hinv (hnext next rfl).1 hfinish hrow hgone
  | case3 today task tasks months hcontrol u next new hperform =>
    rintro ⟨⟩
    exact absurd (rows_perform hperform table month ▸ hrow) hgone
  | case2 | case4 | case5 | case6 =>
    rintro ⟨⟩
    exact absurd hrow hgone
  | case7 | case8 => nofun

instance (s : State α δ) (e : Event α) : Decidable (Orderly s e) :=
  match e with
  | .create table month => inferInstanceAs
      (Decidable (s.leaf table month = none → detachedParts table month s.parts = []))
  | .insert table month row => inferInstanceAs
      (Decidable (0 < row.id ∧ ∀ other ∈ s.rows table month, other.id ≠ row.id))
  | .start _ | .advance | .crash | .interrupt | .edit _ _ _ _ | .setRetentionDays _ _ =>
    .isTrue trivial

def smallParts : Config ℕ (List (Row ℕ)) where
  partRows := 2
  digest := id

def january : ℕ := 12 * 2024

def message (value : ℕ) : Row ℕ := ⟨7, 0, 1, value⟩

/-- The month gets the message, and retention runs until it drops the partition. -/
def untilDropped : List (Event ℕ) :=
  [.create .activities january, .insert .activities january (message 5), .start 740000] ++
    List.replicate 9 .advance

theorem removed_rows_archived_whole_month : ∃ s t, run (step smallParts) {} untilDropped = some s ∧
    step smallParts s .advance = some t ∧ message 5 ∈ s.rows .activities january ∧
    message 5 ∉ t.rows .activities january ∧ Archived smallParts t .activities january (message 5) := by
  obtain ⟨s, hs, t, ht, hrow, hgone⟩ : ∃ s, run (step smallParts) {} untilDropped = some s ∧
      ∃ t, step smallParts s .advance = some t ∧ message 5 ∈ s.rows .activities january ∧
        message 5 ∉ t.rows .activities january := by decide +kernel
  have horderly : Along (step smallParts) Orderly {} untilDropped := by decide +kernel
  exact ⟨s, t, hs, ht, hrow, hgone, removed_rows_archived hs horderly ht hrow hgone⟩

/-- The dropped month is imported again, the message is edited, and retention runs again. -/
def untilDroppedAgain : List (Event ℕ) :=
  untilDropped ++ [.advance, .advance, .create .activities january,
    .insert .activities january (message 5), .edit .activities january (message 5) 6,
    .start 740000] ++ List.replicate 7 .advance

/-- The edited message is dropped: the counts agree, and only the older value was archived. -/
theorem edited_row_lost : ∃ s t, run (step smallParts) {} untilDroppedAgain = some s ∧
    step smallParts s .advance = some t ∧ message 6 ∈ s.rows .activities january ∧
    message 6 ∉ t.rows .activities january ∧
    ¬Archived smallParts t .activities january (message 6) := by
  obtain ⟨s, hs, t, ht, hrow, hgone, hnot⟩ : ∃ s, run (step smallParts) {} untilDroppedAgain = some s ∧
      ∃ t, step smallParts s .advance = some t ∧ message 6 ∈ s.rows .activities january ∧
        message 6 ∉ t.rows .activities january ∧
        ∀ part ∈ t.parts, ∀ body ∈ t.objects part.key, message 6 ∉ body := by decide +kernel
  refine ⟨s, t, hs, ht, hrow, hgone, ?_⟩
  rintro ⟨part, hpart, -, -, -, -, body, hbody, -, hin⟩
  exact hnot part hpart body hbody hin

end Converger.Retention
