import Converger.ClusterSync

/-!
# Runs of the replicated counters

Every recorded increment is in the table or was handled by one flush. It is dropped within its window
where the window begins between the clock a flush reads and the scan.
-/
namespace Converger.ClusterSync
open GuardedRuns KeyedLists List Option

variable {κ : Type} [DecidableEq κ] {e : Event κ} {counter : Counter κ}

def State.handled (s : State κ) : List (Row κ) :=
  s.flush.entries ++ (s.broadcasts.flatten ++ s.dropped.map Prod.snd)

structure Inv (s : State κ) : Prop where
  table : WellFormed s.table
  nodup : s.recorded.Nodup
  ids : ∀ x ∈ s.recorded, x.id < s.recorded.length
  counters : (s.flush.rows.map Row.counter).Nodup
  held : Held s.flush.rows s.table
  rows_sums : ∀ row ∈ s.flush.rows, Sums row.counter row.count row.hits
  handled_sums : ∀ row ∈ s.handled, Sums row.counter row.count row.hits
  reading : s.flush.stage ≠ .scan → s.flush.stage ≠ .drain → s.flush.rows = []
  draining : s.flush.stage ≠ .drain → s.flush.stage ≠ .sweep → s.flush.entries = []
  conserved : ∀ x : Hit κ, 0 < x.amount →
    s.recorded.count x = (pending s.table).count x + (contained s.handled).count x
  due_recorded : s.flush.due ⊆ s.recorded
  due : ∀ x ∈ s.flush.due, 0 < x.amount → x ∈ contained s.handled ∨ x ∈ contained s.flush.rows ∨
    s.flush.stage = .scan ∧ x.counter ∈ s.flush.unread
  settled : ∀ x ∈ s.settled, 0 < x.amount →
    x ∈ contained (s.broadcasts.flatten ++ s.dropped.map Prod.snd)
  raised : s.raised = false

theorem inv_init : Inv ({} : State κ) where
  table := ⟨nodup_nil, nofun⟩
  nodup := nodup_nil
  ids := nofun
  counters := nodup_nil
  held := nofun
  rows_sums := nofun
  handled_sums := nofun
  reading _ _ := rfl
  draining _ _ := rfl
  conserved _ _ := rfl
  due_recorded := nil_subset _
  due := nofun
  settled := nofun
  raised := rfl

def State.subtracted (s : State κ) (row : Row κ) (rows : List (Row κ)) : State κ :=
  if row.current s.flush.now then
    {s with
      table := subtract row s.table
      flush := {s.flush with rows, entries := s.flush.entries ++ [row]}}
  else
    {s with
      table := subtract row s.table
      flush := {s.flush with rows}
      dropped := s.dropped ++ [(s.flush.now, row)]}

section
variable {s t : State κ} {row : Row κ} {rows : List (Row κ)}

theorem step_subtract {cell : Cell κ} (hstage : s.flush.stage = .drain)
    (hrows : s.flush.rows = row :: rows) (hlookup : s.table.lookup row.counter = some cell) :
    step s .subtract = some (s.subtracted row rows) := by
  simp only [step, hstage, hrows, hlookup, State.subtracted]
  split <;> rfl

theorem exists_of_step_subtract (h : step s .subtract = some t) :
    s.flush.stage = .drain ∧ ∃ row rows, s.flush.rows = row :: rows := by
  simp only [step] at h
  split at h
  · rename_i row rows hstage hrows
    exact ⟨hstage, row, rows, hrows⟩
  · cases h

theorem handled_subtracted (s : State κ) (row : Row κ) (rows : List (Row κ)) :
    (s.subtracted row rows).handled.Perm (row :: s.handled) := by
  unfold State.subtracted State.handled
  split
  · rw [append_assoc]
    exact perm_middle
  · rw [map_append, ← append_assoc, ← append_assoc]
    exact (perm_append_singleton _ _).trans (.cons _ (by rw [append_assoc]))

end

namespace Inv

variable {s t : State κ}

section
variable (h : Inv s)
include h

theorem update {pid : ℕ} (ht : step s (.update pid) = some t) : Inv t := by
  obtain ⟨⟨counter, amount⟩, -, rfl⟩ := map_eq_some_iff.mp ht
  set hit : Hit κ := ⟨s.recorded.length, counter, amount⟩ with hhit
  have hfresh : hit ∉ s.recorded := fun hmem => Nat.lt_irrefl _ (h.ids hit hmem)
  exact {h with
    table := h.table.increment hit
    nodup := h.nodup.snoc hfresh
    ids := by
      intro x hx
      rw [length_append, length_singleton]
      rcases mem_snoc.mp hx with hold | rfl
      · exact Nat.lt_succ_of_lt (h.ids x hold)
      · exact Nat.lt_succ_self _
    held := h.held.increment hit
    conserved := by
      intro x hx
      have hold := h.conserved x hx
      change (s.recorded ++ [hit]).count x =
        (pending (increment hit s.table)).count x + (contained s.handled).count x
      rw [count_append, count_pending_increment h.table]
      omega
    due_recorded := List.Subset.trans h.due_recorded (subset_append_left _ _)}

theorem flush (ht : step s .flush = some t) : Inv t := by
  obtain ⟨hidle, rfl⟩ := ite_some_none_eq_some.mp ht
  have hrows := h.reading (by rw [hidle]; decide) (by rw [hidle]; decide)
  have hentries := h.draining (by rw [hidle]; decide) (by rw [hidle]; decide)
  have hhandled : s.handled = s.broadcasts.flatten ++ s.dropped.map Prod.snd := by
    rw [State.handled, hentries, nil_append]
  exact {h with
    counters := nodup_nil
    held := nofun
    rows_sums := nofun
    handled_sums := fun row hrow => h.handled_sums row (hhandled ▸ hrow)
    reading := fun _ _ => rfl
    draining := fun _ _ => rfl
    conserved := by
      intro x hx
      have hold := h.conserved x hx
      rw [hhandled] at hold
      exact hold
    due_recorded := nil_subset _
    due := nofun}

theorem tab2list (ht : step s .tab2list = some t) : Inv t := by
  obtain ⟨hstarted, rfl⟩ := ite_some_none_eq_some.mp ht
  have hentries := h.draining (by rw [hstarted]; decide) (by rw [hstarted]; decide)
  exact {h with
    reading := fun hscan => absurd rfl hscan
    draining := fun _ _ => hentries
    due_recorded := List.Subset.refl _
    due := by
      intro x hx hpos
      have hcount := count_pos_iff.mpr hx
      rw [h.conserved x hpos] at hcount
      by_cases hhandled : x ∈ contained s.handled
      · exact .inl hhandled
      · rw [count_eq_zero_of_not_mem hhandled, Nat.add_zero] at hcount
        obtain ⟨p, hp, hmem⟩ := mem_flatMap.mp (count_pos_iff.mp hcount)
        refine .inr (.inr ⟨rfl, ?_⟩)
        rw [(h.table.sums p hp).2 x hmem]
        exact List.mem_map_of_mem hp}

theorem read (ht : step s (.read counter) = some t) : Inv t := by
  obtain ⟨⟨hscan, hnew⟩, ht⟩ := ite_none_right_eq_some.mp ht
  obtain ⟨cell, hcell, rfl⟩ := map_eq_some_iff.mp ht
  have hsums := h.table.sums _ (mem_of_lookup hcell)
  have hentries := h.draining (by rw [hscan]; decide) (by rw [hscan]; decide)
  exact {h with
    counters := by
      rw [map_append]
      exact h.counters.snoc hnew
    held := by
      exact forall_mem_snoc h.held ⟨cell, hcell, prefix_rfl⟩
    rows_sums := by
      exact forall_mem_snoc h.rows_sums hsums
    reading := fun hne => absurd hscan hne
    draining := fun _ _ => hentries
    due := by
      intro x hx hpos
      have hrows : contained (s.flush.rows ++ [⟨counter, cell.count, cell.hits⟩]) =
          contained s.flush.rows ++ cell.hits := by
        rw [contained, flatMap_append, flatMap_singleton]
        rfl
      change _ ∨ x ∈ contained (s.flush.rows ++ [_]) ∨ _
      rw [hrows, mem_append]
      rcases h.due x hx hpos with hhandled | hread | ⟨-, hunread⟩
      · exact .inl hhandled
      · exact .inr (.inl (.inl hread))
      · by_cases hkey : x.counter = counter
        · -- an increment that is due and not handled is still in the cell that is read
          by_cases hhandled : x ∈ contained s.handled
          · exact .inl hhandled
          · have hcount := count_pos_iff.mpr (h.due_recorded hx)
            rw [h.conserved x hpos, count_eq_zero_of_not_mem hhandled, Nat.add_zero] at hcount
            have hmem := h.table.mem_hits (count_pos_iff.mp hcount) (hkey ▸ hcell)
            exact .inr (.inl (.inr hmem))
        · refine .inr (.inr ⟨hscan, mem_filter.mpr ⟨hunread, ?_⟩⟩)
          exact decide_eq_true hkey}

theorem scanned (ht : step s .scanned = some t) : Inv t := by
  obtain ⟨⟨hscan, hunread⟩, rfl⟩ := ite_some_none_eq_some.mp ht
  exact {h with
    reading := fun _ hdrain => absurd rfl hdrain
    draining := fun hdrain => absurd rfl hdrain
    due := by
      intro x hx hpos
      rcases h.due x hx hpos with hhandled | hread | ⟨-, hmem⟩
      · exact .inl hhandled
      · exact .inr (.inl hread)
      · rw [hunread] at hmem
        cases hmem}

theorem drained (ht : step s .drained = some t) : Inv t := by
  obtain ⟨⟨hdrain, hrows⟩, rfl⟩ := ite_some_none_eq_some.mp ht
  exact {h with
    reading := fun _ _ => hrows
    draining := fun _ hsweep => absurd rfl hsweep
    due := by
      intro x hx hpos
      rcases h.due x hx hpos with hhandled | hread | ⟨hscan, -⟩
      · exact .inl hhandled
      · exact .inr (.inl hread)
      · rw [hdrain] at hscan
        cases hscan}

theorem delete (ht : step s (.delete counter) = some t) : Inv t := by
  obtain ⟨⟨hsweep, hzero⟩, rfl⟩ := ite_some_none_eq_some.mp ht
  obtain ⟨cell, hcell, hcount⟩ := (any_eq_true _ _).mp hzero
  have hrows := h.reading (by rw [hsweep]; decide) (by rw [hsweep]; decide)
  exact {h with
    table := h.table.delete counter
    held := by
      intro row hrow
      rw [hrows] at hrow
      cases hrow
    conserved := by
      intro x hx
      have hsame := count_pending_delete h.table hcell (of_decide_eq_true hcount) hx
      exact (h.conserved x hx).trans (congrArg (· + _) hsame.symm)}

theorem exists_cell {row : Row κ} {rows : List (Row κ)} (hrows : s.flush.rows = row :: rows) :
    ∃ cell, s.table.lookup row.counter = some cell ∧ row.hits <+: cell.hits :=
  h.held row (hrows ▸ mem_cons_self)

theorem subtracted {row : Row κ} {rows : List (Row κ)} (hstage : s.flush.stage = .drain)
    (hrows : s.flush.rows = row :: rows) : Inv (s.subtracted row rows) := by
  obtain ⟨cell, hcell, hpre⟩ := h.exists_cell hrows
  have hcounters := h.counters
  have hheld := h.held
  have hsums := h.rows_sums
  rw [hrows] at hcounters hheld hsums
  have hhandled := handled_subtracted s row rows
  have hcontained : (contained (s.subtracted row rows).handled).Perm
      (row.hits ++ contained s.handled) := hhandled.flatMap_right _
  have htable : (s.subtracted row rows).table = subtract row s.table := by
    unfold State.subtracted
    split <;> rfl
  have hflush : (s.subtracted row rows).flush.stage = .drain ∧
      (s.subtracted row rows).flush.rows = rows ∧
      (s.subtracted row rows).flush.due = s.flush.due := by
    unfold State.subtracted
    split <;> exact ⟨hstage, rfl, rfl⟩
  have hrecorded : (s.subtracted row rows).recorded = s.recorded ∧
      (s.subtracted row rows).settled = s.settled ∧
      (s.subtracted row rows).raised = s.raised := by
    unfold State.subtracted
    split <;> exact ⟨rfl, rfl, rfl⟩
  obtain ⟨hdrain, hrest, hdue⟩ := hflush
  obtain ⟨hrecorded, hsettled, hraised⟩ := hrecorded
  constructor
  case table =>
    rw [htable]
    exact h.table.subtract hcell (hsums row mem_cons_self) hpre
  case nodup => exact hrecorded ▸ h.nodup
  case ids => exact hrecorded ▸ h.ids
  case counters =>
    rw [hrest]
    exact (nodup_cons.mp hcounters).2
  case held =>
    rw [hrest, htable]
    exact hheld.subtract hcounters
  case rows_sums =>
    rw [hrest]
    exact fun other hother => hsums other (mem_cons_of_mem _ hother)
  case handled_sums =>
    intro other hother
    rcases mem_cons.mp (hhandled.mem_iff.mp hother) with rfl | hold
    · exact hsums other mem_cons_self
    · exact h.handled_sums other hold
  case reading => exact fun _ hne => absurd hdrain hne
  case draining => exact fun hne => absurd hdrain hne
  case conserved =>
    intro x hx
    have hold := h.conserved x hx
    have hpending := count_pending_subtract h.table hcell hpre x
    rw [hrecorded, htable, hcontained.count_eq, count_append]
    omega
  case due_recorded =>
    rw [hdue, hrecorded]
    exact h.due_recorded
  case due =>
    intro x hx hpos
    rw [hdue] at hx
    rw [hrest, hcontained.mem_iff, mem_append]
    rcases h.due x hx hpos with hhandled | hread | ⟨hscan, -⟩
    · exact .inl (.inr hhandled)
    · rw [hrows, contained, flatMap_cons, mem_append] at hread
      rcases hread with hread | hread
      · exact .inl (.inl hread)
      · exact .inr (.inl hread)
    · rw [hstage] at hscan
      cases hscan
  case settled =>
    intro x hx hpos
    have hold := h.settled x (hsettled ▸ hx) hpos
    unfold State.subtracted
    split
    · exact hold
    · simp only [contained, map_append, flatMap_append, mem_append] at hold ⊢
      rcases hold with hsent | hdropped
      · exact .inl hsent
      · exact .inr (.inl hdropped)
  case raised => exact hraised.trans h.raised

theorem broadcast (ht : step s .broadcast = some t) : Inv t := by
  obtain ⟨hsweep, rfl⟩ := ite_some_none_eq_some.mp ht
  have hrows := h.reading (by rw [hsweep]; decide) (by rw [hsweep]; decide)
  set batches := if s.flush.entries.isEmpty then s.broadcasts
    else s.broadcasts ++ [s.flush.entries] with hbatches
  have hhandled : (batches.flatten ++ s.dropped.map Prod.snd).Perm s.handled := by
    rw [hbatches, flatten_broadcasts, State.handled, ← append_assoc]
    exact perm_append_comm.append_right _
  have hcontained : (contained (batches.flatten ++ s.dropped.map Prod.snd)).Perm
      (contained s.handled) := hhandled.flatMap_right _
  exact {h with
    counters := nodup_nil
    held := nofun
    rows_sums := nofun
    handled_sums := fun row hrow => h.handled_sums row (hhandled.mem_iff.mp hrow)
    reading := fun _ _ => rfl
    draining := fun _ _ => rfl
    conserved := fun x hx =>
      (h.conserved x hx).trans (congrArg (_ + ·) (hcontained.count_eq x).symm)
    due_recorded := nil_subset _
    due := nofun
    settled := by
      intro x hx hpos
      apply hcontained.mem_iff.mpr
      rcases h.due x hx hpos with hdone | hread | ⟨hscan, -⟩
      · exact hdone
      · rw [hrows] at hread
        cases hread
      · rw [hsweep] at hscan
        cases hscan}

theorem step (ht : ClusterSync.step s e = some t) : Inv t := by
  cases e with
  | tick =>
    cases ht
    exact {h with}
  | look =>
    obtain ⟨-, rfl⟩ := ite_some_none_eq_some.mp ht
    exact {h with}
  | update => exact h.update ht
  | flush => exact h.flush ht
  | tab2list => exact h.tab2list ht
  | read => exact h.read ht
  | scanned => exact h.scanned ht
  | subtract =>
    obtain ⟨hstage, row, rows, hrows⟩ := exists_of_step_subtract ht
    obtain ⟨cell, hcell, -⟩ := h.exists_cell hrows
    cases (step_subtract hstage hrows hcell).symm.trans ht
    exact h.subtracted hstage hrows
  | drained => exact h.drained ht
  | delete => exact h.delete ht
  | broadcast => exact h.broadcast ht

end

end Inv

/-! ### What is dropped -/

def DroppedLate (s : State κ) : Prop :=
  ∀ drop ∈ s.dropped, ∀ hit ∈ drop.2.hits, 0 < hit.amount →
    hit.counter.window < drop.1 / hit.counter.scale

def Punctual (s : State κ) : Event κ → Prop
  | .subtract => ∀ row ∈ s.flush.rows.head?, 0 < row.count →
    row.counter.window ≤ s.flush.now / row.counter.scale
  | _ => True

instance (s : State κ) : Decidable (DroppedLate s) :=
  inferInstanceAs (Decidable (∀ drop ∈ s.dropped, ∀ hit ∈ drop.2.hits, _ → _))

section
variable {s t : State κ}

theorem droppedLate_subtracted {row : Row κ} {rows : List (Row κ)}
    (hsums : Sums row.counter row.count row.hits) :
    DroppedLate (s.subtracted row rows) ↔ DroppedLate s ∧
      (0 < row.count → row.counter.window ≤ s.flush.now / row.counter.scale) := by
  unfold State.subtracted
  split
  · rename_i hcurrent
    exact (and_iff_left fun _ => Nat.le_of_eq hcurrent.2.symm).symm
  · rename_i hnot
    rw [← hsums.late_iff hnot]
    simp only [DroppedLate, forall_mem_append, forall_mem_singleton]

theorem dropped_step (ht : step s e = some t) (hne : e ≠ .subtract) : t.dropped = s.dropped := by
  cases e with
  | subtract => exact absurd rfl hne
  | tick =>
    cases ht
    rfl
  | update =>
    obtain ⟨_, -, rfl⟩ := map_eq_some_iff.mp ht
    rfl
  | read =>
    obtain ⟨-, ht⟩ := ite_none_right_eq_some.mp ht
    obtain ⟨_, -, rfl⟩ := map_eq_some_iff.mp ht
    rfl
  | look | flush | tab2list | scanned | drained | delete | broadcast =>
    obtain ⟨-, rfl⟩ := ite_some_none_eq_some.mp ht
    rfl

theorem droppedLate_step (h : Inv s) (ht : step s e = some t) :
    DroppedLate t ↔ DroppedLate s ∧ Punctual s e := by
  cases e with
  | subtract =>
    obtain ⟨hstage, row, rows, hrows⟩ := exists_of_step_subtract ht
    obtain ⟨cell, hcell, -⟩ := h.exists_cell hrows
    cases (step_subtract hstage hrows hcell).symm.trans ht
    rw [droppedLate_subtracted (h.rows_sums row (hrows ▸ mem_cons_self)), Punctual, hrows, head?_cons]
    simp
  | tick | look | update | flush | tab2list | read | scanned | drained | delete | broadcast =>
    rw [DroppedLate, dropped_step ht nofun]
    exact (and_iff_left trivial).symm

end

/-- In every run each increment is in one place, and a flush that has ended has broadcast or dropped
all that was recorded before its scan. An increment of zero adds nothing to any entry. -/
theorem increments_accounted {es : List (Event κ)} {s : State κ} (h : run step {} es = some s) :
    (∀ x ∈ s.recorded, 0 < x.amount → (pending s.table).count x + (contained s.flush.entries).count x +
        (contained s.broadcasts.flatten).count x + (contained (s.dropped.map Prod.snd)).count x = 1) ∧
    (∀ x ∈ s.settled, 0 < x.amount →
      x ∈ contained s.broadcasts.flatten ∨ x ∈ contained (s.dropped.map Prod.snd)) ∧
    (∀ entry ∈ s.broadcasts.flatten, Sums entry.counter entry.count entry.hits) ∧
    (∀ p ∈ s.table, Sums p.1 p.2.count p.2.hits ∧ 0 ≤ p.2.count) ∧
    s.raised = false ∧
    (DroppedLate s ↔ Along step Punctual {} es) := by
  have hinv : Inv s := run_invariant Inv.step inv_init h
  refine ⟨fun x hx hpos => ?_, fun x hx hpos => ?_, fun entry hentry => ?_, fun p hp => ?_, hinv.raised, ?_⟩
  · have hone := count_eq_one_of_mem hinv.nodup hx
    have hconserved := hinv.conserved x hpos
    simp only [State.handled, contained, flatMap_append, count_append] at hconserved ⊢
    omega
  · have hmem := hinv.settled x hx hpos
    rw [contained, flatMap_append, mem_append] at hmem
    exact hmem
  · exact hinv.handled_sums entry (mem_append_right _ (mem_append_left _ hentry))
  · exact ⟨hinv.table.sums p hp, (hinv.table.sums p hp).nonneg⟩
  · exact run_iff_along (Q := fun _ => True)
      (fun _ _ _ hs _ ht => ⟨hs.step ht, droppedLate_step hs ht⟩) inv_init nofun
      (fun _ _ => trivial) h

/-- A flush that reads its clock at `now` and then takes what the call of process 0 records in the
window. -/
def flushing (now window : ℕ) : List (Event ℕ) :=
  [.tick now, .flush, .tick 1, .look 0 7 1000 3, .update 0, .tab2list, .read ⟨7, 1000, window⟩,
    .scanned, .subtract, .drained, .delete ⟨7, 1000, window⟩, .broadcast]

theorem increments_accounted_current : ∃ s, run step {} (flushing 5 0) = some s ∧
    s.recorded = [⟨0, ⟨7, 1000, 0⟩, 3⟩] ∧ s.broadcasts.map (·.map Row.count) = [[3]] ∧
    (contained s.broadcasts.flatten).count ⟨0, ⟨7, 1000, 0⟩, 3⟩ = 1 ∧ DroppedLate s ∧
    Along step Punctual {} (flushing 5 0) := by
  obtain ⟨s, hs, hrecorded, hsent, hpending, hentries, hdropped, hlate⟩ : ∃ s,
      run step {} (flushing 5 0) = some s ∧
      s.recorded = [⟨0, ⟨7, 1000, 0⟩, 3⟩] ∧ s.broadcasts.map (·.map Row.count) = [[3]] ∧
        pending s.table = [] ∧ contained s.flush.entries = [] ∧ s.dropped.map Prod.fst = [] ∧
        DroppedLate s := by decide +kernel
  obtain ⟨hone, -, -, -, -, hiff⟩ := increments_accounted hs
  refine ⟨s, hs, hrecorded, hsent, ?_, hlate, hiff.mp hlate⟩
  have hcount := hone ⟨0, ⟨7, 1000, 0⟩, 3⟩ (by rw [hrecorded]; decide) (by decide)
  rw [hpending, hentries, map_eq_nil_iff.mp hdropped] at hcount
  simpa [contained] using hcount

/-- The next window begins between the clock and the scan of a flush: what is recorded in it is
dropped while it lasts. -/
theorem next_window_dropped : ∃ s, run step {} (flushing 999 1) = some s ∧
    s.recorded = [⟨0, ⟨7, 1000, 1⟩, 3⟩] ∧ s.clock / 1000 = 1 ∧
    contained (s.dropped.map Prod.snd) = s.recorded ∧ s.broadcasts.flatten.map Row.count = [] ∧
    ¬DroppedLate s := by
  decide +kernel

end Converger.ClusterSync
