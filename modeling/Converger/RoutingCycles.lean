import Converger.GuardedRuns
import Converger.RoutingRules

/-!
# Routing rules stay acyclic, one call at a time

The table of routing rules and what create, update, toggle and delete write to it. A row
that is stored closes a cycle exactly where the cycle check, asked about the row, says so.
The check of a call is asked about the ids as the caller wrote them, which is the same
question only where they are written in lower case.
-/
namespace Converger.RoutingCycles
open GuardedRuns Relation RoutingRules StaleWrites UuidText WorklistSearch List Option

/-! ## The table -/

structure Db where
  channels : List Channel
  rules : List Rule
  nodup : (rules.map Rule.id).Nodup

variable {db : Db} {id tenantId : StoredUuid} {row : Rule} {x y : String} {rules : List Rule}
  {fields rule : Struct} {modes : Bool} {attrs : Attrs} {channels : List Channel}

namespace Db

def get (db : Db) (id : StoredUuid) : Option Rule := db.rules.find? fun r => r.id = id

def remove (db : Db) (id : StoredUuid) : Db where
  channels := db.channels
  rules := db.rules.filter fun r => r.id ≠ id
  nodup := db.nodup.sublist (filter_sublist.map Rule.id)

/-- The table with `row` under its id. -/
def store (db : Db) (row : Rule) : Db where
  channels := db.channels
  rules := row :: (db.remove row.id).rules
  nodup := by
    rw [map_cons, nodup_cons]
    refine ⟨?_, (db.remove row.id).nodup⟩
    simp [remove]

def nameTaken (db : Db) (row : Rule) : Bool :=
  db.rules.any fun r => r.id ≠ row.id ∧ r.tenantId = row.tenantId ∧ r.name = row.name

/-- Write a row; a value that no column holds or a name that is taken leaves the table. -/
def write (db : Db) : Option Rule → Db
  | none => db
  | some row => if db.nameTaken row then db else db.store row

def Acyclic (db : Db) : Prop := ∀ tenantId, WorklistSearch.Acyclic (Edge db.rules tenantId)

theorem edge_remove :
    Edge (db.remove id).rules tenantId x y ↔
      Edge (without db.rules (some id.text)) tenantId x y := by
  simp [remove, without, StoredUuid.text_inj]

theorem edge_store :
    Edge (db.store row).rules tenantId x y ↔
      Edge (without db.rules (some row.id.text)) tenantId x y ∨
        (row.tenantId = tenantId ∧ row.enabled) ∧ x = row.sourceChannelId.text ∧
          y ∈ row.targets := by
  rw [← edge_remove]
  simp only [store, Edge, mem_cons, exists_eq_or_imp]
  constructor
  · rintro (⟨htenant, henabled, rfl, hy⟩ | h)
    · exact .inr ⟨⟨htenant, henabled⟩, rfl, hy⟩
    · exact .inl h
  · rintro (h | ⟨⟨htenant, henabled⟩, rfl, hy⟩)
    · exact .inr h
    · exact .inl ⟨htenant, henabled, rfl, hy⟩

theorem Acyclic.without (h : db.Acyclic) (ruleId : Option String) (tenantId : StoredUuid) :
    WorklistSearch.Acyclic (Edge (RoutingRules.without db.rules ruleId) tenantId) := by
  refine (h tenantId).mono ?_
  rintro x y ⟨r, hr, hedge⟩
  exact ⟨r, (mem_filter.mp hr).1, hedge⟩

theorem Acyclic.remove (h : db.Acyclic) (id : StoredUuid) : (db.remove id).Acyclic :=
  fun tenantId => (h.without (some id.text) tenantId).mono fun _ _ => edge_remove.mp

/-- The cycle check, asked about a row with what is stored, tells whether storing the row
keeps the rules acyclic. -/
theorem acyclic_store_iff (h : db.Acyclic) (row : Rule) :
    (db.store row).Acyclic ↔
      (row.enabled → wouldCreateCycle db.rules row.tenantId.text row.sourceChannelId.text
        row.targets (some row.id.text) = false) := by
  have hother := h.without (some row.id.text)
  by_cases henabled : row.enabled = true
  · have hq : ∀ x y, Edge (db.store row).rules row.tenantId x y ↔
        Edge (RoutingRules.without db.rules (some row.id.text)) row.tenantId x y ∨
          x = row.sourceChannelId.text ∧ y ∈ row.targets := by
      intro x y
      rw [edge_store]
      simp [henabled]
    have hwith : Edge (db.store row).rules row.tenantId = EdgeWith db.rules row.tenantId
        row.sourceChannelId.text row.targets (some row.id.text) := by
      funext x y
      exact propext (hq x y)
    have hrow := acyclic_add_iff hq
    rw [hwith, ← wouldCreateCycle_iff, Bool.not_eq_true] at hrow
    constructor
    · intro hstore _
      exact (hrow.mp (hwith ▸ hstore row.tenantId)).2
    · intro hcheck tenantId
      by_cases htenant : row.tenantId = tenantId
      · rw [← htenant, hwith]
        exact hrow.mpr ⟨hother row.tenantId, hcheck henabled⟩
      · refine (hother tenantId).mono fun x y hedge => ?_
        rcases edge_store.mp hedge with hedge | ⟨⟨heq, -⟩, -⟩
        · exact hedge
        · exact absurd heq htenant
  · refine iff_of_true (fun tenantId => ?_) fun h => absurd h henabled
    refine (hother tenantId).mono fun x y hedge => ?_
    rcases edge_store.mp hedge with hedge | ⟨⟨-, h⟩, -⟩
    · exact hedge
    · exact absurd h henabled

end Db

/-! ## What a call writes -/

/-- The row of a rule in memory: ids are stored as UUIDs, and no column may be empty. -/
def rowOf (s : Struct) (id : StoredUuid) : Option Rule := do
  let tenantId ← s.tenantId.bind dump
  let name ← s.name
  let sourceChannelId ← s.sourceChannelId.bind dump
  let targetChannelIds ← s.targetChannelIds.bind (List.mapM dump)
  let enabled ← s.enabled
  let priority ← s.priority
  return {id, tenantId, name, sourceChannelId, targetChannelIds, enabled, priority}

/-- The stored rule with the fields in which the changeset differs from the rule that the
caller had loaded. -/
def merge (rule fields : Struct) (row : Rule) : Struct where
  id := row.load.id
  tenantId := put (some fields.tenantId) rule.tenantId row.load.tenantId
  name := put (some fields.name) rule.name row.load.name
  sourceChannelId := put (some fields.sourceChannelId) rule.sourceChannelId row.load.sourceChannelId
  targetChannelIds :=
    put (some fields.targetChannelIds) rule.targetChannelIds row.load.targetChannelIds
  enabled := put (some fields.enabled) rule.enabled row.load.enabled
  priority := put (some fields.priority) rule.priority row.load.priority

/-- `Repo.insert/1` under a new id. -/
def Db.insert (db : Db) (id : StoredUuid) : Verdict → Db
  | .valid fields => db.write (rowOf fields id)
  | _ => db

/-- `Repo.update/1`; a rule that is gone raises. -/
def Db.update (db : Db) (rule : Struct) (id : StoredUuid) : Verdict → Db
  | .valid fields =>
    match db.get id with
    | some row => db.write (rowOf (merge rule fields row) id)
    | none => db
  | _ => db

/-- The attributes of `toggle_routing_rule/2`. -/
def toggleAttrs (rule : Struct) : Attrs := {enabled := some (some (!rule.enabled.getD false))}

inductive Call
  | create (id : StoredUuid) (attrs : Attrs)
  | update (id : StoredUuid) (attrs : Attrs)
  | toggle (id : StoredUuid)
  | delete (id : StoredUuid)

/-- A call on a freshly loaded rule; a created rule gets an id no rule has. -/
def step (db : Db) : Call → Option Db
  | .create id attrs =>
    if db.get id = none then
      some (db.insert id (validate db.channels db.rules true {} attrs))
    else none
  | .update id attrs => (db.get id).map fun row =>
    db.update row.load id (validate db.channels db.rules true row.load attrs)
  | .toggle id => (db.get id).map fun row =>
    db.update row.load id (validate db.channels db.rules false row.load (toggleAttrs row.load))
  | .delete id => (db.get id).map fun _ => db.remove id

theorem rowOf_eq_some {s : Struct} (h : rowOf s id = some row) :
    row.id = id ∧ s.enabled = some row.enabled ∧ s.tenantId.bind dump = some row.tenantId ∧
      s.sourceChannelId.bind dump = some row.sourceChannelId ∧
      s.targetChannelIds.bind (List.mapM dump) = some row.targetChannelIds := by
  simp only [rowOf, bind_eq_bind, bind_eq_some_iff] at h
  obtain ⟨t, ht, n, hn, sr, hs, ts, hts, e, he, p, hp, heq⟩ := h
  cases heq
  refine ⟨rfl, he, ?_, ?_, ?_⟩
  · exact bind_eq_some_iff.mpr ht
  · exact bind_eq_some_iff.mpr hs
  · exact bind_eq_some_iff.mpr hts

theorem validate_eq_valid (h : validate channels rules modes rule attrs = .valid fields) :
    fields = castFields rule attrs ∧ validateNoCycle rules fields = [] := by
  simp only [validate] at h
  split at h
  · cases h
  · split at h
    · split at h
      · split at h <;> cases h
        exact ⟨rfl, ‹_›⟩
      · cases h
    · cases h

theorem validate_of_checks
    (hisolation : validateTenantIsolation channels (castFields rule attrs) = some [])
    (herrors : changesetErrors rule attrs = [])
    (hmodes : validateChannelModes channels (castFields rule attrs) = [])
    (hcycle : validateNoCycle rules (castFields rule attrs) = []) :
    validate channels rules modes rule attrs = .valid (castFields rule attrs) := by
  simp [validate, hisolation, herrors, hmodes, hcycle]

theorem validateNoCycle_of_sinks {sourceId : String} {targetIds : List String}
    (htenant : fields.tenantId = some tenantId.text) (hsource : fields.sourceChannelId = some sourceId)
    (htargets : fields.targetChannelIds = some targetIds)
    (h : ∀ t ∈ targetIds, t ≠ sourceId ∧ ∀ r ∈ rules, r.sourceChannelId.text ≠ t) :
    validateNoCycle rules fields = [] := by
  simp [validateNoCycle, htenant, hsource, htargets, wouldCreateCycle_of_sinks h]

theorem merge_current (row : Rule) (attrs : Attrs) :
    merge row.load (castFields row.load attrs) row = castFields row.load attrs := by
  simp [merge, castFields]

theorem wouldCreateCycle_congr_tenant {t : String} {u : StoredUuid} (h : dump t = some u)
    (sourceId : String) (targetIds : List String) (ruleId : Option String) :
    wouldCreateCycle rules t sourceId targetIds ruleId =
      wouldCreateCycle rules u.text sourceId targetIds ruleId := by
  rw [wouldCreateCycle, wouldCreateCycle, h, dump_text]

theorem get_eq_some (h : db.get id = some row) : row.id = id := by
  have hid := find?_some h
  exact of_decide_eq_true hid

theorem wouldCreateCycle_fresh (h : db.get id = none)
    (tenantId sourceId : String) (targetIds : List String) :
    wouldCreateCycle db.rules tenantId sourceId targetIds (some id.text) =
      wouldCreateCycle db.rules tenantId sourceId targetIds none := by
  have hkeep : ∀ r ∈ db.rules.filter (fun r => some r.tenantId = dump tenantId ∧ r.enabled),
      (decide (some r.id.text ≠ some id.text)) = decide (some r.id.text ≠ none) := by
    intro r hr
    have hne := find?_eq_none.mp h r (mem_filter.mp hr).1
    simp only [decide_eq_true_eq] at hne
    simp [StoredUuid.text_inj, hne]
  simp only [wouldCreateCycle, filter_congr hkeep]

/-! ## Runs -/

def CanonicalIds (fields : Struct) : Prop :=
  (∀ s ∈ fields.sourceChannelId, Canonical s) ∧
    ∀ ts ∈ fields.targetChannelIds, ∀ t ∈ ts, Canonical t

/-- The fields close no cycle unnoticed: their ids are in lower case, or the rule is disabled,
or the cycle check accepts the same ids in lower case as well. -/
def Plain (db : Db) (id : StoredUuid) (fields : Struct) : Prop :=
  CanonicalIds fields ∨ fields.enabled = some false ∨
    ∀ row, rowOf fields id = some row →
      wouldCreateCycle db.rules row.tenantId.text row.sourceChannelId.text row.targets
        (some id.text) = false

/-- The call's attributes, together with the rule it is made on, are plain. -/
def PlainCall (db : Db) : Call → Prop
  | .create id attrs => Plain db id (castFields {} attrs)
  | .update id attrs => ∀ row, db.get id = some row → Plain db id (castFields row.load attrs)
  | .toggle _ => True
  | .delete _ => True

/-- The cycle check of a changeset with ids in lower case is the one about its row. -/
theorem check_row (hids : CanonicalIds fields) (hrow : rowOf fields id = some row)
    (hcheck : validateNoCycle db.rules fields = []) :
    wouldCreateCycle db.rules row.tenantId.text row.sourceChannelId.text row.targets
      fields.id = false := by
  obtain ⟨-, -, ht, hs, hts⟩ := rowOf_eq_some hrow
  obtain ⟨t, htenant, ht⟩ := bind_eq_some_iff.mp ht
  obtain ⟨s, hsource, hs⟩ := bind_eq_some_iff.mp hs
  obtain ⟨ts, htargets, hts⟩ := bind_eq_some_iff.mp hts
  rw [text_of_dump (hids.1 s hsource) hs, Rule.targets,
    map_text_of_mapM_dump (hids.2 ts htargets) hts, ← wouldCreateCycle_congr_tenant ht]
  simpa [validateNoCycle, htenant, hsource, htargets] using hcheck

/-- A valid changeset that is plain keeps the rules acyclic when it is written. -/
theorem write_acyclic (h : db.Acyclic) (hcheck : validateNoCycle db.rules fields = [])
    (hid : fields.id = some id.text ∨ fields.id = none ∧ db.get id = none)
    (hplain : Plain db id fields) : (db.write (rowOf fields id)).Acyclic := by
  cases hrow : rowOf fields id with
  | none => exact h
  | some row =>
    rw [Db.write]
    split
    · exact h
    · rw [Db.acyclic_store_iff h]
      intro henabled
      obtain ⟨hrowid, hfields, -⟩ := rowOf_eq_some hrow
      rw [hrowid]
      rcases hplain with hids | hdisabled | hlower
      · have hfree := check_row hids hrow hcheck
        rcases hid with hid | ⟨hid, hfresh⟩
        · rwa [hid] at hfree
        · rwa [hid, ← wouldCreateCycle_fresh hfresh] at hfree
      · rw [hdisabled] at hfields
        rw [← some.inj hfields] at henabled
        exact absurd henabled (by decide)
      · exact hlower row hrow

theorem canonicalIds_toggle (row : Rule) :
    CanonicalIds (castFields row.load (toggleAttrs row.load)) := by
  refine ⟨?_, ?_⟩
  · intro s hs
    cases hs
    exact row.sourceChannelId.canonical
  · intro ts hts t ht
    cases hts
    obtain ⟨u, -, rfl⟩ := List.mem_map.mp ht
    exact u.canonical

theorem update_acyclic (h : db.Acyclic) (hget : db.get id = some row)
    (hplain : Plain db id (castFields row.load attrs)) :
    (db.update row.load id (validate db.channels db.rules modes row.load attrs)).Acyclic := by
  cases hv : validate db.channels db.rules modes row.load attrs with
  | raised | invalid errors => exact h
  | valid fields =>
    obtain ⟨rfl, hcheck⟩ := validate_eq_valid hv
    simp only [Db.update, hget, merge_current]
    refine write_acyclic h hcheck (.inl ?_) hplain
    rw [← get_eq_some hget]
    rfl

theorem step_acyclic {db' : Db} {call : Call} (h : db.Acyclic) (hplain : PlainCall db call)
    (hstep : step db call = some db') : db'.Acyclic := by
  cases call with
  | create id attrs =>
    simp only [step, ite_none_right_eq_some] at hstep
    obtain ⟨hfresh, hstep⟩ := hstep
    cases hstep
    cases hv : validate db.channels db.rules true {} attrs with
    | raised | invalid errors => exact h
    | valid fields =>
      obtain ⟨rfl, hcheck⟩ := validate_eq_valid hv
      exact write_acyclic h hcheck (.inr ⟨rfl, hfresh⟩) hplain
  | update id attrs =>
    obtain ⟨row, hget, rfl⟩ := map_eq_some_iff.mp hstep
    exact update_acyclic h hget (hplain row hget)
  | toggle id =>
    obtain ⟨row, hget, rfl⟩ := map_eq_some_iff.mp hstep
    exact update_acyclic h hget (.inl (canonicalIds_toggle row))
  | delete id =>
    obtain ⟨row, -, rfl⟩ := map_eq_some_iff.mp hstep
    exact h.remove id

/-- In every sequence of calls whose attributes write the ids of channels in lower case (or
close no cycle with the same ids in lower case) the enabled rules stay acyclic. -/
theorem sequential_rules_acyclic (db db' : Db) (calls : List Call) (h : db.Acyclic)
    (hplain : Along step PlainCall db calls) (hrun : run step db calls = some db') : db'.Acyclic :=
  run_invariant_along step_acyclic h hplain hrun

def Db.empty (channels : List Channel) : Db := ⟨channels, [], nodup_nil⟩

theorem empty_acyclic (channels : List Channel) : (Db.empty channels).Acyclic := by
  intro tenantId x hcycle
  obtain ⟨_, ⟨r, hr, -⟩, -⟩ := TransGen.head'_iff.mp hcycle
  exact not_mem_nil hr

/-- A rule from `web` to `crm` is stored. -/
def webToCrmDb : Db :=
  (Db.empty [⟨web, acme, "web", .duplex⟩, ⟨crm, acme, "crm", .duplex⟩]).store webToCrm

theorem webToCrmDb_acyclic : webToCrmDb.Acyclic := by
  rw [webToCrmDb, Db.acyclic_store_iff (empty_acyclic _)]
  exact fun _ => wouldCreateCycle_of_sinks (by decide)

/-- The attributes of a rule from `crm` to the target as it is written. -/
def fromCrm (target : String) : Attrs where
  tenantId := some (some acme.text)
  name := some (some "crm to web")
  sourceChannelId := some (some crm.text)
  targetChannelIds := some (some [target])

def webUpperCase : String := "00000000-0000-0000-0000-00000000000A"

theorem sequential_rules_acyclic_lower_case :
    Along step PlainCall webToCrmDb [.create crmToWeb.id (fromCrm web.text)] ∧
      ∀ db', run step webToCrmDb [.create crmToWeb.id (fromCrm web.text)] = some db' →
        db'.Acyclic := by
  have hplain : Along step PlainCall webToCrmDb [.create crmToWeb.id (fromCrm web.text)] := by
    refine ⟨.inl ⟨?_, ?_⟩, fun _ _ => trivial⟩
    · intro s hs
      cases hs
      exact crm.canonical
    · intro ts hts t ht
      cases hts
      cases mem_singleton.mp ht
      exact web.canonical
  exact ⟨hplain, fun db' h => sequential_rules_acyclic _ db' _ webToCrmDb_acyclic hplain h⟩

theorem validate_fromCrm_upperCase :
    validate webToCrmDb.channels webToCrmDb.rules true {} (fromCrm webUpperCase) =
      .valid (castFields {} (fromCrm webUpperCase)) := by
  refine validate_of_checks (by decide) (by decide) (by decide) ?_
  exact @validateNoCycle_of_sinks acme _ _ crm.text [webUpperCase] (by decide) (by decide) (by decide)
    (by decide)

theorem not_acyclic_of_both (hto : webToCrm ∈ db.rules) (hback : crmToWeb ∈ db.rules) : ¬ db.Acyclic :=
  fun h => h acme web.text (.tail (.single (webToCrm_edge hto)) (crmToWeb_edge hback))

/-- A target written in upper case gets past the cycle check and is stored as the UUID it is,
which closes a cycle. -/
theorem upper_case_target_closes_cycle :
    webToCrmDb.Acyclic ∧
      ∃ db', run step webToCrmDb [.create crmToWeb.id (fromCrm webUpperCase)] = some db' ∧
        ¬ db'.Acyclic := by
  have hrow : rowOf (castFields {} (fromCrm webUpperCase)) crmToWeb.id = some crmToWeb := by decide
  have hname : webToCrmDb.nameTaken crmToWeb = false := by decide
  have hfresh : webToCrmDb.get crmToWeb.id = none := by decide
  refine ⟨webToCrmDb_acyclic, webToCrmDb.store crmToWeb, ?_, ?_⟩
  · simp [run, step, hfresh, validate_fromCrm_upperCase, Db.insert, hrow, Db.write, hname]
  · exact not_acyclic_of_both (by decide) (by decide)

end Converger.RoutingCycles
