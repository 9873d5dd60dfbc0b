import Converger.RoutingCycles

/-!
# Concurrent calls on routing rules

A call loads its rule, validates its changeset and writes in separate statements, so that
the calls of several processes interleave and a write may start from a rule and from a cycle
check that are both out of date.
-/
namespace Converger.RoutingRaces
open GuardedRuns RoutingCycles RoutingRules UuidText

inductive Phase
  | idle
  | loaded (id : StoredUuid) (rule : Struct)
  | creating (verdict : Verdict)
  | changing (id : StoredUuid) (rule : Struct) (verdict : Verdict)

structure State where
  db : Db
  calls : ℕ → Phase

inductive Event
  | load (p : ℕ) (id : StoredUuid)
  | create (p : ℕ) (attrs : Attrs)
  | update (p : ℕ) (attrs : Attrs)
  | toggle (p : ℕ)
  | insert (p : ℕ) (id : StoredUuid)
  | write (p : ℕ)
  | delete (p : ℕ)

def State.setPhase (s : State) (p : ℕ) (phase : Phase) : State :=
  {s with calls := Function.update s.calls p phase}

/-- One statement of one process. The cycle check is part of the validation, which reads the
enabled rules once; `insert` and `write` come later. -/
def step (s : State) : Event → Option State
  | .load p id =>
    match s.calls p with
    | .idle => (s.db.get id).map fun row => s.setPhase p (.loaded id row.load)
    | _ => none
  | .create p attrs =>
    match s.calls p with
    | .idle => some (s.setPhase p (.creating (validate s.db.channels s.db.rules true {} attrs)))
    | _ => none
  | .update p attrs =>
    match s.calls p with
    | .loaded id rule =>
      some (s.setPhase p (.changing id rule (validate s.db.channels s.db.rules true rule attrs)))
    | _ => none
  | .toggle p =>
    match s.calls p with
    | .loaded id rule =>
      some (s.setPhase p (.changing id rule
        (validate s.db.channels s.db.rules false rule (toggleAttrs rule))))
    | _ => none
  | .insert p id =>
    match s.calls p with
    | .creating verdict =>
      if s.db.get id = none then
        some {s.setPhase p .idle with db := s.db.insert id verdict}
      else none
    | _ => none
  | .write p =>
    match s.calls p with
    | .changing id rule verdict =>
      some {s.setPhase p .idle with db := s.db.update rule id verdict}
    | _ => none
  | .delete p =>
    match s.calls p with
    | .loaded id _ => some {s.setPhase p .idle with db := s.db.remove id}
    | _ => none

/-- A call between its cycle check and its write. -/
def Phase.checked : Phase → Bool
  | .creating _ | .changing _ _ _ => true
  | .idle | .loaded _ _ => false

/-- The rule in memory is the stored one. -/
def Stored (db : Db) (id : StoredUuid) (rule : Struct) : Prop :=
  (db.get id).map Rule.load = some rule

/-- A changeset is checked on the rule as it is stored, with its ids in lower case, and no row is
written or deleted while another call stands between its check and its write. -/
def Undisturbed (s : State) : Event → Prop
  | .load _ _ => True
  | .create _ attrs => CanonicalIds (castFields {} attrs)
  | .update p attrs => ∀ id rule, s.calls p = .loaded id rule →
      Stored s.db id rule ∧ CanonicalIds (castFields rule attrs)
  | .toggle p => ∀ id rule, s.calls p = .loaded id rule → Stored s.db id rule
  | .insert p _ | .write p | .delete p => ∀ q, q ≠ p → (s.calls q).checked = false

/-- The verdict of a call under way is that of the rules as they are stored. -/
def Phase.Valid (db : Db) : Phase → Prop
  | .idle | .loaded _ _ => True
  | .creating verdict => ∃ attrs, CanonicalIds (castFields {} attrs) ∧
      verdict = validate db.channels db.rules true {} attrs
  | .changing id rule verdict => ∃ row modes attrs, db.get id = some row ∧ rule = row.load ∧
      CanonicalIds (castFields rule attrs) ∧
      verdict = validate db.channels db.rules modes rule attrs

structure Inv (s : State) : Prop where
  acyclic : s.db.Acyclic
  valid : ∀ p, (s.calls p).Valid s.db

theorem Phase.valid_of_not_checked {db : Db} {phase : Phase} (h : phase.checked = false) :
    phase.Valid db := by
  cases phase with
  | idle | loaded => trivial
  | creating | changing => cases h

theorem Inv.setPhase {s : State} (hs : Inv s) {p : ℕ} {phase : Phase} (h : phase.Valid s.db) :
    Inv (s.setPhase p phase) := by
  refine ⟨hs.acyclic, fun q => ?_⟩
  by_cases hq : q = p
  · subst q
    simpa [State.setPhase] using h
  · simpa [State.setPhase, hq] using hs.valid q

/-- A write that no other checked call is waiting for leaves no verdict out of date. -/
theorem Inv.written {s : State} {p : ℕ} {db : Db} (hacyclic : db.Acyclic)
    (hothers : ∀ q, q ≠ p → (s.calls q).checked = false) :
    Inv { s.setPhase p .idle with db } := by
  refine ⟨hacyclic, fun q => Phase.valid_of_not_checked ?_⟩
  by_cases hq : q = p
  · simp [State.setPhase, hq, Phase.checked]
  · simpa [State.setPhase, hq] using hothers q hq

theorem insert_acyclic {db : Db} {id : StoredUuid} {attrs : Attrs} (h : db.Acyclic)
    (hids : CanonicalIds (castFields {} attrs)) (hfresh : db.get id = none) :
    (db.insert id (validate db.channels db.rules true {} attrs)).Acyclic := by
  have hstep : RoutingCycles.step db (.create id attrs) =
      some (db.insert id (validate db.channels db.rules true {} attrs)) := by
    rw [RoutingCycles.step, if_pos hfresh]
  have hplain : PlainCall db (.create id attrs) := .inl hids
  exact step_acyclic h hplain hstep

theorem Inv.step {s t : State} {e : Event} (hs : Inv s) (he : Undisturbed s e)
    (h : step s e = some t) : Inv t := by
  revert h
  fun_cases RoutingRaces.step s e with
  | case1 p id =>
    intro h
    obtain ⟨row, -, rfl⟩ := Option.map_eq_some_iff.mp h
    exact hs.setPhase trivial
  | case3 p attrs =>
    rintro ⟨⟩
    exact hs.setPhase ⟨attrs, he, rfl⟩
  | case5 p attrs id rule hphase =>
    rintro ⟨⟩
    obtain ⟨hstored, hids⟩ := he id rule hphase
    obtain ⟨row, hget, rfl⟩ := Option.map_eq_some_iff.mp hstored
    exact hs.setPhase ⟨row, true, attrs, hget, rfl, hids, rfl⟩
  | case7 p id rule hphase =>
    rintro ⟨⟩
    obtain ⟨row, hget, rfl⟩ := Option.map_eq_some_iff.mp (he id rule hphase)
    exact hs.setPhase ⟨row, false, _, hget, rfl, canonicalIds_toggle row, rfl⟩
  | case9 p id verdict hphase hfresh =>
    rintro ⟨⟩
    obtain ⟨attrs, hids, rfl⟩ : (Phase.creating verdict).Valid s.db := hphase ▸ hs.valid p
    exact .written (insert_acyclic hs.acyclic hids hfresh) he
  | case12 p id rule verdict hphase =>
    rintro ⟨⟩
    obtain ⟨row, modes, attrs, hget, rfl, hids, rfl⟩ :
        (Phase.changing id rule verdict).Valid s.db := hphase ▸ hs.valid p
    exact .written (update_acyclic hs.acyclic hget (.inl hids)) he
  | case14 p id =>
    rintro ⟨⟩
    exact .written (hs.acyclic.remove id) he
  | case2 | case4 | case6 | case8 | case10 | case11 | case13 | case15 => rintro ⟨⟩

/-- However the statements of concurrent calls interleave, the enabled rules stay acyclic if no
other call writes between a call's check and its write. -/
theorem concurrent_rules_acyclic (s t : State) (es : List Event) (hidle : ∀ p, s.calls p = .idle)
    (h : s.db.Acyclic) (hundisturbed : Along step Undisturbed s es)
    (hrun : run step s es = some t) : t.db.Acyclic := by
  have hs : Inv s := ⟨h, fun p => by rw [hidle p]; trivial⟩
  exact (run_invariant_along Inv.step hs hundisturbed hrun).acyclic

def twoIdle : State where
  db := .empty [⟨web, acme, "web", .duplex⟩, ⟨crm, acme, "crm", .duplex⟩]
  calls := fun _ => .idle

def forward (name : String) (source target : StoredUuid) : Attrs where
  tenantId := some (some acme.text)
  name := some (some name)
  sourceChannelId := some (some source.text)
  targetChannelIds := some (some [target.text])

def crossed : List Event :=
  [.create 1 (forward "web to crm" web crm), .create 2 (forward "crm to web" crm web),
    .insert 1 webToCrm.id, .insert 2 crmToWeb.id]

theorem validate_forward_web :
    validate twoIdle.db.channels twoIdle.db.rules true {} (forward "web to crm" web crm) =
      .valid (castFields {} (forward "web to crm" web crm)) := by
  refine validate_of_checks (by decide) (by decide) (by decide) ?_
  exact @validateNoCycle_of_sinks acme _ _ web.text [crm.text] (by decide) (by decide) (by decide)
    (by decide)

theorem validate_forward_crm :
    validate twoIdle.db.channels twoIdle.db.rules true {} (forward "crm to web" crm web) =
      .valid (castFields {} (forward "crm to web" crm web)) := by
  refine validate_of_checks (by decide) (by decide) (by decide) ?_
  exact @validateNoCycle_of_sinks acme _ _ crm.text [web.text] (by decide) (by decide) (by decide)
    (by decide)

theorem run_crossed :
    ∃ t, run step twoIdle crossed = some t ∧
      t.db = (twoIdle.db.store webToCrm).store crmToWeb := by
  have hweb : rowOf (castFields {} (forward "web to crm" web crm)) webToCrm.id = some webToCrm := by
    decide
  have hcrm : rowOf (castFields {} (forward "crm to web" crm web)) crmToWeb.id = some crmToWeb := by
    decide
  have hwebFresh : twoIdle.db.get webToCrm.id = none := by decide
  have hcrmFresh : (twoIdle.db.store webToCrm).get crmToWeb.id = none := by decide
  have hwebName : twoIdle.db.nameTaken webToCrm = false := by decide
  have hcrmName : (twoIdle.db.store webToCrm).nameTaken crmToWeb = false := by decide
  have hidle : ∀ p, twoIdle.calls p = .idle := fun _ => rfl
  simp [crossed, run, step, State.setPhase, hidle, validate_forward_web, validate_forward_crm,
    Db.insert, hweb, hcrm, Db.write, hwebFresh, hcrmFresh, hwebName, hcrmName]

/-- The first call has stored its rule before the second one loads and deletes it. -/
def separate : List Event :=
  [.create 1 (forward "web to crm" web crm), .insert 1 webToCrm.id, .load 2 webToCrm.id, .delete 2]

theorem concurrent_rules_acyclic_separate :
    ∃ t, run step twoIdle separate = some t ∧ t.db.Acyclic := by
  have hids : CanonicalIds (castFields {} (forward "web to crm" web crm)) := by
    refine ⟨fun s hs => ?_, fun ts hts u hu => ?_⟩
    · cases hs
      exact web.canonical
    · cases hts
      cases List.mem_singleton.mp hu
      exact crm.canonical
  have hweb : rowOf (castFields {} (forward "web to crm" web crm)) webToCrm.id = some webToCrm := by
    decide
  have hfresh : twoIdle.db.get webToCrm.id = none := by decide
  have hname : twoIdle.db.nameTaken webToCrm = false := by decide
  have hstored : (twoIdle.db.store webToCrm).get webToCrm.id = some webToCrm := by decide
  have hidle : ∀ p, twoIdle.calls p = .idle := fun _ => rfl
  have hrun : ∃ t, run step twoIdle separate = some t := by
    simp [separate, run, step, State.setPhase, hidle, validate_forward_web, Db.insert, hweb,
      Db.write, hfresh, hname, hstored]
  have hundisturbed : Along step Undisturbed twoIdle separate := by
    simp [separate, Along, Undisturbed, hids, step, State.setPhase, hidle, validate_forward_web,
      Db.insert, hweb, Db.write, hfresh, hname, hstored, Function.update_apply, Phase.checked]
    grind [Phase.checked]
  obtain ⟨t, ht⟩ := hrun
  exact ⟨t, ht, concurrent_rules_acyclic twoIdle t separate hidle (empty_acyclic _) hundisturbed ht⟩

/-- Two rules that are fine by themselves, checked before either is stored, close a cycle. -/
theorem crossed_creates_close_cycle :
    twoIdle.db.Acyclic ∧ ∃ t, run step twoIdle crossed = some t ∧ ¬ t.db.Acyclic := by
  obtain ⟨t, ht, hdb⟩ := run_crossed
  refine ⟨empty_acyclic _, t, ht, fun h => ?_⟩
  rw [hdb] at h
  exact not_acyclic_of_both (by decide) (by decide) h

end Converger.RoutingRaces
