import Converger.ActivityChangeset
import Converger.StaleWrites
import Converger.UuidText
import Converger.WorklistSearch

/-!
# Routing rules

The changeset of a routing rule, the validations of the `RoutingRules` context with its
cycle detection, and the rows that a create or an update writes. Channel ids are texts: a
changeset keeps them as the caller wrote them, while the store compares UUIDs, so what is
written is the lower-case form. A rule's conditions, transformations and `stop_processing`
take no part in this; what their checks report is part of the attributes.
-/
namespace Converger.RoutingRules
open Relation Text UuidText WorklistSearch List
open ActivityChangeset (FieldError required)

inductive Mode
  | inbound | outbound | duplex
  deriving DecidableEq, Repr

structure Channel where
  id : StoredUuid
  tenantId : StoredUuid
  name : String
  mode : Mode
  deriving DecidableEq

structure Rule where
  id : StoredUuid
  tenantId : StoredUuid
  name : String
  sourceChannelId : StoredUuid
  targetChannelIds : List StoredUuid
  enabled : Bool
  priority : Int
  deriving DecidableEq

structure Struct where
  id : Option String := none
  tenantId : Option String := none
  name : Option String := none
  sourceChannelId : Option String := none
  targetChannelIds : Option (List String) := some []
  enabled : Option Bool := some true
  priority : Option Int := some 100
  deriving DecidableEq, Repr

def Rule.targets (r : Rule) : List String := r.targetChannelIds.map StoredUuid.text

def Rule.load (r : Rule) : Struct where
  id := some r.id.text
  tenantId := some r.tenantId.text
  name := some r.name
  sourceChannelId := some r.sourceChannelId.text
  targetChannelIds := some r.targets
  enabled := some r.enabled
  priority := some r.priority

/-- The attributes of a call: each field is absent or given, possibly as `nil`. -/
structure Attrs where
  tenantId : Option (Option String) := none
  name : Option (Option String) := none
  sourceChannelId : Option (Option String) := none
  targetChannelIds : Option (Option (List String)) := none
  enabled : Option (Option Bool) := none
  priority : Option (Option Int) := none
  otherErrors : List FieldError := []
  deriving DecidableEq, Repr

/-! ## The changeset -/

/-- The fields after the cast. The tenant can be given only where the rule has none. -/
def castFields (rule : Struct) (attrs : Attrs) : Struct where
  id := rule.id
  tenantId :=
    if rule.tenantId = none then (attrs.tenantId.map (·.bind castText)).getD rule.tenantId
    else rule.tenantId
  name := (attrs.name.map (·.bind castText)).getD rule.name
  sourceChannelId := (attrs.sourceChannelId.map (·.bind castText)).getD rule.sourceChannelId
  targetChannelIds :=
    (attrs.targetChannelIds.map (·.map (·.filter fun t => !blank t))).getD rule.targetChannelIds
  enabled := attrs.enabled.getD rule.enabled
  priority := attrs.priority.getD rule.priority

def maxTargets : ℕ := 20

def validateLength (rule fields : Struct) : List FieldError :=
  match fields.targetChannelIds with
  | none => []
  | some ids =>
    if fields.targetChannelIds = rule.targetChannelIds then []
    else if ids.length < 1 then [("target_channel_ids", "should have at least 1 item(s)")]
    else if maxTargets < ids.length then
      [("target_channel_ids", "should have at most 20 item(s)")]
    else []

def validatePriority (rule fields : Struct) : List FieldError :=
  match fields.priority with
  | none => []
  | some p =>
    if fields.priority = rule.priority then []
    else if p < -1000000 then [("priority", "must be greater than or equal to -1000000")]
    else if 1000000 < p then [("priority", "must be less than or equal to 1000000")]
    else []

def validateNoSelfReference (fields : Struct) : List FieldError :=
  if fields.sourceChannelId.any fun s => s ∈ fields.targetChannelIds.getD [] then
    [("target_channel_ids", "cannot include the source channel")]
  else []

/-- The errors of `RoutingRule.changeset/2`. -/
def changesetErrors (rule : Struct) (attrs : Attrs) : List FieldError :=
  let fields := castFields rule attrs
  attrs.otherErrors ++ required "name" fields.name.isNone ++
    required "source_channel_id" fields.sourceChannelId.isNone ++
    required "target_channel_ids" fields.targetChannelIds.isNone ++
    required "tenant_id" fields.tenantId.isNone ++ validateLength rule fields ++
    validatePriority rule fields ++ validateNoSelfReference fields

/-! ## Cycle detection -/

def adjacency (rules : List Rule) : Graph String :=
  rules.foldl (fun acc r => acc.add r.sourceChannelId.text r.targets) .empty

/-- The search compares the ids as texts, the query for the tenant's rules as UUIDs. -/
def wouldCreateCycle (rules : List Rule) (tenantId sourceId : String) (targetIds : List String)
    (excludeRuleId : Option String) : Bool :=
  let allRules := rules.filter fun r => some r.tenantId = dump tenantId ∧ r.enabled
  let kept := allRules.filter fun r => some r.id.text ≠ excludeRuleId
  ((adjacency kept).add sourceId targetIds).search sourceId targetIds {sourceId}

def Edge (rules : List Rule) (tenantId : StoredUuid) (x y : String) : Prop :=
  ∃ r ∈ rules, r.tenantId = tenantId ∧ r.enabled ∧ r.sourceChannelId.text = x ∧ y ∈ r.targets

def without (rules : List Rule) (ruleId : Option String) : List Rule :=
  rules.filter fun r => some r.id.text ≠ ruleId

/-- The edges of the other enabled rules and those from `sourceId` to each target. -/
def EdgeWith (rules : List Rule) (tenantId : StoredUuid) (sourceId : String)
    (targetIds : List String) (ruleId : Option String) (x y : String) : Prop :=
  Edge (without rules ruleId) tenantId x y ∨ x = sourceId ∧ y ∈ targetIds

theorem edge_foldl (rules : List Rule) (g : Graph String) {x y : String} :
    (rules.foldl (fun acc r => acc.add r.sourceChannelId.text r.targets) g).Edge x y ↔
      g.Edge x y ∨ ∃ r ∈ rules, r.sourceChannelId.text = x ∧ y ∈ r.targets := by
  induction rules generalizing g with
  | nil => simp
  | cons r rules ih =>
    rw [foldl_cons, ih, Graph.edge_add]
    constructor
    · rintro ((h | ⟨rfl, h⟩) | ⟨r', hr', h⟩)
      · exact .inl h
      · exact .inr ⟨r, mem_cons_self, rfl, h⟩
      · exact .inr ⟨r', mem_cons_of_mem _ hr', h⟩
    · rintro (h | ⟨r', hr', rfl, h⟩)
      · exact .inl (.inl h)
      · rcases mem_cons.mp hr' with rfl | hr'
        · exact .inl (.inr ⟨rfl, h⟩)
        · exact .inr ⟨r', hr', rfl, h⟩

theorem edge_adjacency {rules : List Rule} {x y : String} :
    (adjacency rules).Edge x y ↔ ∃ r ∈ rules, r.sourceChannelId.text = x ∧ y ∈ r.targets := by
  rw [adjacency, edge_foldl]
  exact or_iff_right (Graph.edge_empty x y)

section CycleCheck
variable {rules : List Rule} {tenantId : StoredUuid} {sourceId : String}
  {targetIds : List String} {ruleId : Option String}

theorem wouldCreateCycle_iff :
    wouldCreateCycle rules tenantId.text sourceId targetIds ruleId = true ↔
      ∃ t ∈ targetIds,
        ReflTransGen (EdgeWith rules tenantId sourceId targetIds ruleId) t sourceId := by
  rw [wouldCreateCycle, Graph.search_iff]
  · have hedge : Graph.Edge ((adjacency ((rules.filter fun r => some r.tenantId =
        dump tenantId.text ∧ r.enabled).filter fun r => some r.id.text ≠ ruleId)).add
        sourceId targetIds) = EdgeWith rules tenantId sourceId targetIds ruleId := by
      funext x y
      rw [Graph.edge_add, edge_adjacency, dump_text]
      simp [EdgeWith, Edge, without, and_assoc, and_left_comm]
    rw [hedge]
  · -- the only node expanded at the start is the goal itself
    intro v hv hne
    exact absurd (Finset.mem_singleton.mp hv) hne

theorem wouldCreateCycle_of_sinks
    (h : ∀ t ∈ targetIds, t ≠ sourceId ∧ ∀ r ∈ rules, r.sourceChannelId.text ≠ t) :
    wouldCreateCycle rules tenantId.text sourceId targetIds ruleId = false := by
  rw [Bool.eq_false_iff, ne_eq, wouldCreateCycle_iff]
  rintro ⟨t, ht, hpath⟩
  obtain ⟨hne, hsink⟩ := h t ht
  rcases hpath.cases_head with heq | ⟨y, ⟨r, hr, -, -, hsource, -⟩ | ⟨hsource, -⟩, -⟩
  · exact hne heq
  · exact hsink r (mem_filter.mp hr).1 hsource
  · exact hne hsource

end CycleCheck

/-- The search of the cycle check ends and finds the cycles that begin with a new edge. A
cycle through the source over old edges alone is none of them, so where there is no such
cycle the check tells whether there is any way from the source back to itself. -/
theorem wouldCreateCycle_spec (rules : List Rule) (tenantId : StoredUuid) (sourceId : String)
    (targetIds : List String) (ruleId : Option String) :
    (wouldCreateCycle rules tenantId.text sourceId targetIds ruleId = true ↔ ∃ t ∈ targetIds,
        ReflTransGen (EdgeWith rules tenantId sourceId targetIds ruleId) t sourceId) ∧
    (¬ TransGen (Edge (without rules ruleId) tenantId) sourceId sourceId →
      (wouldCreateCycle rules tenantId.text sourceId targetIds ruleId = true ↔
        TransGen (EdgeWith rules tenantId sourceId targetIds ruleId) sourceId sourceId)) := by
  refine ⟨wouldCreateCycle_iff, fun hold => ?_⟩
  rw [wouldCreateCycle_iff]
  constructor
  · rintro ⟨t, ht, hpath⟩
    exact .head' (.inr ⟨rfl, ht⟩) hpath
  · intro hcycle
    rcases transGen_or_through (fun _ _ => Iff.rfl) hcycle with hcycle | ⟨-, hback⟩
    · exact absurd hcycle hold
    · exact hback

def acme : StoredUuid := ⟨"00000000-0000-0000-0000-000000000001", by decide⟩
def web : StoredUuid := ⟨"00000000-0000-0000-0000-00000000000a", by decide⟩
def crm : StoredUuid := ⟨"00000000-0000-0000-0000-00000000000b", by decide⟩
def archive : StoredUuid := ⟨"00000000-0000-0000-0000-00000000000c", by decide⟩

def webToCrm : Rule where
  id := ⟨"00000000-0000-0000-0000-0000000000f1", by decide⟩
  tenantId := acme
  name := "web to crm"
  sourceChannelId := web
  targetChannelIds := [crm]
  enabled := true
  priority := 100

def crmToWeb : Rule where
  id := ⟨"00000000-0000-0000-0000-0000000000f2", by decide⟩
  tenantId := acme
  name := "crm to web"
  sourceChannelId := crm
  targetChannelIds := [web]
  enabled := true
  priority := 100

theorem webToCrm_edge {rules : List Rule} (h : webToCrm ∈ rules) : Edge rules acme web.text crm.text :=
  ⟨webToCrm, h, rfl, rfl, rfl, mem_singleton_self crm.text⟩

theorem crmToWeb_edge {rules : List Rule} (h : crmToWeb ∈ rules) : Edge rules acme crm.text web.text :=
  ⟨crmToWeb, h, rfl, rfl, rfl, mem_singleton_self web.text⟩

theorem no_way_back_to_crm : ¬ TransGen (Edge (without [webToCrm] none) acme) crm.text crm.text := by
  intro h
  obtain ⟨_, ⟨r, hr, -, -, hsource, -⟩, -⟩ := TransGen.head'_iff.mp h
  rw [mem_singleton.mp (mem_filter.mp hr).1] at hsource
  exact absurd hsource (by decide)

theorem wouldCreateCycle_spec_webToCrm :
    wouldCreateCycle [webToCrm] acme.text crm.text [web.text] none = true ↔
      TransGen (EdgeWith [webToCrm] acme crm.text [web.text] none) crm.text crm.text :=
  (wouldCreateCycle_spec [webToCrm] acme crm.text [web.text] none).2 no_way_back_to_crm

/-- Where the rules have a cycle through the source already, a rule that adds nothing to it
is not reported although there is a way from the source back to itself. -/
theorem old_cycle_not_reported :
    wouldCreateCycle [webToCrm, crmToWeb] acme.text web.text [archive.text] none = false ∧
      TransGen (EdgeWith [webToCrm, crmToWeb] acme web.text [archive.text] none)
        web.text web.text := by
  refine ⟨wouldCreateCycle_of_sinks (by decide), ?_⟩
  have hto : EdgeWith [webToCrm, crmToWeb] acme web.text [archive.text] none web.text crm.text :=
    .inl (webToCrm_edge (by decide))
  have hback : EdgeWith [webToCrm, crmToWeb] acme web.text [archive.text] none crm.text web.text :=
    .inl (crmToWeb_edge (by decide))
  exact .tail (.single hto) hback

/-! ## Validations against the store -/

def validateSourceMode (channels : List Channel) (fields : Struct) : List FieldError :=
  match fields.sourceChannelId.bind dump with
  | none => []
  | some id =>
    match channels.find? fun c => c.id = id with
    | none => []
    | some c =>
      if c.mode = .outbound then
        [("source_channel_id",
          "source channel is outbound-only and cannot receive inbound messages")]
      else []

def validateTargetModes (channels : List Channel) (fields : Struct) : List FieldError :=
  let ids := (fields.targetChannelIds.getD []).map dump
  let inboundOnly := (channels.filter fun c => some c.id ∈ ids ∧ c.mode = .inbound).map (·.name)
  if inboundOnly = [] then []
  else
    [("target_channel_ids",
      "these target channels are inbound-only and cannot deliver outbound: " ++
        String.intercalate ", " inboundOnly)]

def validateChannelModes (channels : List Channel) (fields : Struct) : List FieldError :=
  validateSourceMode channels fields ++ validateTargetModes channels fields

/-- `none` where the query raises, since an id is not the text of a UUID. -/
def validateTenantIsolation (channels : List Channel) (fields : Struct) :
    Option (List FieldError) :=
  let allIds := fields.sourceChannelId.toList ++ fields.targetChannelIds.getD []
  match fields.tenantId, allIds with
  | none, _ => some []
  | _, [] => some []
  | some tenantId, allIds =>
    match dump tenantId, allIds.mapM dump with
    | some tenantId, some ids =>
      if (channels.filter fun c => c.id ∈ ids ∧ c.tenantId = tenantId).length = allIds.length then
        some []
      else some [("target_channel_ids", "all channels must belong to the same tenant")]
    | _, _ => none

def validateNoCycle (rules : List Rule) (fields : Struct) : List FieldError :=
  match fields.tenantId, fields.sourceChannelId with
  | some tenantId, some sourceId =>
    if wouldCreateCycle rules tenantId sourceId (fields.targetChannelIds.getD []) fields.id then
      [("target_channel_ids", "would create a routing cycle")]
    else []
  | _, _ => []

inductive Verdict
  | raised
  | invalid (errors : List FieldError)
  | valid (fields : Struct)
  deriving DecidableEq, Repr

def validate (channels : List Channel) (rules : List Rule) (modes : Bool) (rule : Struct)
    (attrs : Attrs) : Verdict :=
  let fields := castFields rule attrs
  match validateTenantIsolation channels fields with
  | none => .raised
  | some isolation =>
    match changesetErrors rule attrs ++ isolation with
    | [] =>
      match if modes then validateChannelModes channels fields else [] with
      | [] =>
        match validateNoCycle rules fields with
        | [] => .valid fields
        | errors => .invalid errors
      | errors => .invalid errors
    | errors => .invalid errors

end Converger.RoutingRules
