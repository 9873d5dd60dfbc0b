import Converger.Pipeline

/-!
# The delivery channels of an activity

The channels `resolve_delivery_channels/2` returns, as a set: the fixed channels of the direction
and the targets of the rules that apply, without those that are left out. The stages of the plan
look at what earlier stages have left, so each is shown to be a filter on the channels.
-/
namespace Converger.Pipeline
open OrderedPages List Option

universe u v
variable {C : Type u} {N : Type v} [LinearOrder N]

/-! ### Lists -/

theorem nodup_eraseDups {α : Type*} [DecidableEq α] (xs : List α) : xs.eraseDups.Nodup := by
  induction hn : xs.length using Nat.strong_induction_on generalizing xs with
  | _ n ih =>
    cases xs with
    | nil => exact nodup_nil
    | cons x xs =>
      rw [eraseDups_cons]
      refine nodup_cons.mpr ⟨?_, ih _ ?_ _ rfl⟩
      · rw [mem_eraseDups]
        simp
      · rw [← hn, length_cons]
        exact Nat.lt_succ_of_le (length_filter_le _ _)

/-! ### Rules -/

section Rules
variable {holds : C → Option Bool} {rules : List (Rule C)}

theorem evaluate_stopped (rules : List (Rule C)) :
    evaluate holds true rules = some (rules.map fun rule => (rule, .skipped)) := by
  induction rules with
  | nil => rfl
  | cons rule rules ih =>
    rw [evaluate, ih]
    rfl

theorem matched_cons_matched (rule : Rule C) (evs : List (Rule C × Outcome)) :
    matched ((rule, .matched) :: evs) = rule :: matched evs := rfl

theorem matched_cons_notMatched (rule : Rule C) (evs : List (Rule C × Outcome)) :
    matched ((rule, .notMatched) :: evs) = matched evs := rfl

theorem matched_skipped (rules : List (Rule C)) :
    matched (rules.map fun rule => (rule, Outcome.skipped)) = [] := by
  induction rules with
  | nil => rfl
  | cons rule rules ih => exact ih

/-- No rule before this one matches and stops. -/
def Reached (holds : C → Option Bool) (lt : Rule C → Rule C → Prop) (rules : List (Rule C))
    (rule : Rule C) : Prop :=
  ∀ r ∈ rules, lt r rule → holds r.conditions = some true → r.stopProcessing = false

theorem reached_cons {lt : Rule C → Rule C → Prop} {first rule : Rule C} (hfirst : lt first rule) :
    Reached holds lt (first :: rules) rule ↔
      (holds first.conditions = some true → first.stopProcessing = false) ∧
        Reached holds lt rules rule := by
  rw [Reached, forall_mem_cons]
  exact and_congr_left fun _ => ⟨fun h => h hfirst, fun h _ => h⟩

/-- In a list in evaluation order the matching rules are those without a matching rule before them
that stops; the test of the others is not made and cannot raise. -/
theorem exists_evaluate {lt : Rule C → Rule C → Prop} (hasymm : ∀ r r', lt r r' → ¬ lt r' r)
    (hsorted : rules.Pairwise lt)
    (hreturns : ∀ rule ∈ rules, Reached holds lt rules rule →
      (holds rule.conditions).isSome = true) :
    ∃ evs, evaluate holds false rules = some evs ∧ ∀ rule, rule ∈ matched evs ↔
      rule ∈ rules ∧ holds rule.conditions = some true ∧ Reached holds lt rules rule := by
  induction rules with
  | nil => exact ⟨[], rfl, by simp [matched]⟩
  | cons first rest ih =>
    obtain ⟨hfirst, hrest⟩ := pairwise_cons.mp hsorted
    have hself : Reached holds lt (first :: rest) first := by
      intro r hr hlt
      rcases mem_cons.mp hr with rfl | hr
      · exact absurd hlt (hasymm r r hlt)
      · exact absurd hlt (hasymm first r (hfirst r hr))
    by_cases hgoes : holds first.conditions = some true → first.stopProcessing = false
    · have hreached : ∀ rule ∈ rest,
          Reached holds lt (first :: rest) rule ↔ Reached holds lt rest rule := fun rule hrule =>
        (reached_cons (hfirst rule hrule)).trans (and_iff_right hgoes)
      obtain ⟨evs, hevs, hmatched⟩ := ih hrest fun rule hrule h =>
        hreturns rule (mem_cons_of_mem _ hrule) ((hreached rule hrule).mpr h)
      have hmem : ∀ rule, rule ∈ matched evs ↔ rule ∈ rest ∧ holds rule.conditions = some true ∧
          Reached holds lt (first :: rest) rule := fun rule =>
        (hmatched rule).trans (and_congr_right fun hrule =>
          and_congr_right fun _ => (hreached rule hrule).symm)
      obtain ⟨matches?, hholds⟩ := isSome_iff_exists.mp (hreturns first mem_cons_self hself)
      cases matches? with
      | false =>
        refine ⟨(first, .notMatched) :: evs, by simp [evaluate, hholds, hevs], fun rule => ?_⟩
        rw [matched_cons_notMatched, hmem, mem_cons]
        constructor
        · rintro ⟨hrule, hmatches⟩
          exact ⟨.inr hrule, hmatches⟩
        · rintro ⟨rfl | hrule, hmatches⟩
          · rw [hholds] at hmatches
            cases hmatches.1
          · exact ⟨hrule, hmatches⟩
      | true =>
        refine ⟨(first, .matched) :: evs, by simp [evaluate, hholds, hgoes hholds, hevs],
          fun rule => ?_⟩
        rw [matched_cons_matched, mem_cons, hmem, mem_cons]
        constructor
        · rintro (rfl | ⟨hrule, hmatches⟩)
          · exact ⟨.inl rfl, hholds, hself⟩
          · exact ⟨.inr hrule, hmatches⟩
        · rintro ⟨rfl | hrule, hmatches⟩
          · exact .inl rfl
          · exact .inr ⟨hrule, hmatches⟩
    · -- the first rule matches and stops, so the others are not reached
      obtain ⟨hholds, hstop⟩ := Classical.not_imp.mp hgoes
      refine ⟨(first, .matched) :: rest.map fun rule => (rule, .skipped),
        by simp [evaluate, hholds, hstop, evaluate_stopped], fun rule => ?_⟩
      rw [matched_cons_matched, matched_skipped, mem_singleton, mem_cons]
      constructor
      · rintro rfl
        exact ⟨.inl rfl, hholds, hself⟩
      · rintro ⟨rfl | hrule, -, h⟩
        · rfl
        · exact absurd ((reached_cons (hfirst rule hrule)).mp h).1 hgoes

end Rules

section Route
variable {db : Db C} {collate : String → N} {holds : C → Option Bool} {m : Message}
  {c : Conversation} {rule : Rule C}

def Evaluated (db : Db C) (m : Message) (c : Conversation) (rule : Rule C) : Prop :=
  rule ∈ db.rules ∧ ruleSource m c = some rule.sourceChannelId ∧ rule.tenantId = c.tenantId ∧
    rule.enabled = true

/-- No rule before this one, in the order of priority, name and id, matches and stops. -/
def ComesTo (db : Db C) (collate : String → N) (holds : C → Option Bool) (m : Message)
    (c : Conversation) (rule : Rule C) : Prop :=
  Evaluated db m c rule ∧ ∀ r, Evaluated db m c r → r.key collate < rule.key collate →
    holds r.conditions = some true → r.stopProcessing = false

/-- The rule is evaluated and matches. -/
def Applies (db : Db C) (collate : String → N) (holds : C → Option Bool) (m : Message)
    (c : Conversation) (rule : Rule C) : Prop :=
  ComesTo db collate holds m c rule ∧ holds rule.conditions = some true

theorem mem_enabledRulesForSource :
    rule ∈ db.enabledRulesForSource collate (ruleSource m c) c.tenantId ↔ Evaluated db m c rule := by
  unfold Evaluated
  cases hsource : ruleSource m c with
  | none => simp [Db.enabledRulesForSource]
  | some id =>
    simp only [Db.enabledRulesForSource, mem_after, mem_filter, Rule.ofSource,
      Bool.and_eq_true, decide_eq_true_eq, Option.some.injEq]
    constructor
    · rintro ⟨⟨hmem, ⟨hid, htenant⟩, henabled⟩, -⟩
      exact ⟨hmem, hid.symm, htenant, henabled⟩
    · rintro ⟨hmem, hid, htenant, henabled⟩
      exact ⟨⟨hmem, ⟨hid.symm, htenant⟩, henabled⟩, fun k hk => by cases hk⟩

theorem sorted_enabledRulesForSource (db : Db C) (collate : String → N)
    (sourceChannelId : Option Uuid) (tenantId : Uuid) :
    (db.enabledRulesForSource collate sourceChannelId tenantId).Pairwise
      fun r r' => r.key collate < r'.key collate := by
  cases sourceChannelId with
  | none => exact List.Pairwise.nil
  | some id =>
    refine after_pairwise ?_
    -- the id is the last part of the key
    refine List.Nodup.of_map (fun key => (ofLex (ofLex key).2).2) ?_
    rw [List.map_map]
    exact db.rules_nodup.sublist (filter_sublist.map _)

theorem exists_evaluations
    (hreturns : ∀ rule, ComesTo db collate holds m c rule →
      (holds rule.conditions).isSome = true) :
    ∃ evs, route db collate holds m c = some (routeOf m c evs) ∧
      ∀ rule, rule ∈ matched evs ↔ Applies db collate holds m c rule := by
  have hsorted := sorted_enabledRulesForSource db collate (ruleSource m c) c.tenantId
  have hasymm : ∀ r r' : Rule C, r.key collate < r'.key collate →
      ¬ r'.key collate < r.key collate := fun _ _ h => lt_asymm h
  have hreached : ∀ rule, (rule ∈ db.enabledRulesForSource collate (ruleSource m c) c.tenantId ∧
      Reached holds (fun r r' => r.key collate < r'.key collate)
        (db.enabledRulesForSource collate (ruleSource m c) c.tenantId) rule) ↔
      ComesTo db collate holds m c rule := by
    intro rule
    simp only [Reached, mem_enabledRulesForSource]
    rfl
  obtain ⟨evs, hevs, hmem⟩ := exists_evaluate hasymm hsorted fun rule hrule h =>
    hreturns rule ((hreached rule).mp ⟨hrule, h⟩)
  refine ⟨evs, by rw [route, hevs]; rfl, fun rule => ?_⟩
  rw [hmem, Applies, ← hreached]
  tauto

end Route

/-! ### Candidates -/

section Candidates
variable {db : Db C} {collate : String → N} {holds : C → Option Bool} {m : Message}
  {c : Conversation} {id : Uuid} {channel : Channel} {e : Entry}
  {evs : List (Rule C × Outcome)}

theorem getChannel_eq_some {id : Option Uuid} :
    db.getChannel id = some channel ↔ channel ∈ db.channels ∧ id = some channel.id := by
  cases id with
  | none => simp [Db.getChannel]
  | some id =>
    simp only [Db.getChannel, bind_some, Option.some.injEq]
    constructor
    · intro h
      have hid := find?_some (p := fun channel : Channel => decide (channel.id = id)) h
      exact ⟨mem_of_find?_eq_some h, (of_decide_eq_true hid).symm⟩
    · rintro ⟨hmem, rfl⟩
      cases hfound : db.channels.find? (·.id = channel.id) with
      | none => exact absurd (find?_eq_none.mp hfound channel hmem) (by simp)
      | some other =>
        have hid := find?_some (p := fun d : Channel => decide (d.id = channel.id)) hfound
        exact congrArg some (inj_on_of_nodup_map db.channels_nodup
          (mem_of_find?_eq_some hfound) hmem (of_decide_eq_true hid))

/-- The channel the conversation started on, and for a reply the replying hub. -/
def IsFixed (m : Message) (c : Conversation) (channel : Channel) : Prop :=
  c.origin = some channel.id ∨
    direction m c = .reply ∧ m.sourceChannelId = some channel.id ∧ channel.type = "websocket"

def IsTarget (db : Db C) (collate : String → N) (holds : C → Option Bool) (m : Message)
    (c : Conversation) (channel : Channel) : Prop :=
  ∃ rule, Applies db collate holds m c rule ∧ channel.id ∈ rule.targetChannelIds

theorem mem_fixed (hchannel : channel ∈ db.channels) :
    some channel.id ∈ (fixed db (routeOf m c evs)).map (·.1) ↔ IsFixed m c channel := by
  unfold IsFixed fixed routeOf
  cases hdirection : direction m c with
  | inbound => simp [eq_comm]
  | reply =>
    have hhub : (db.getChannel m.sourceChannelId).any (·.type = "websocket") = true →
        (m.sourceChannelId = some channel.id ↔
          m.sourceChannelId = some channel.id ∧ channel.type = "websocket") := by
      intro hany
      refine ⟨fun hid => ⟨hid, ?_⟩, fun h => h.1⟩
      rw [getChannel_eq_some.mpr ⟨hchannel, hid⟩] at hany
      exact of_decide_eq_true hany
    by_cases hany : (db.getChannel m.sourceChannelId).any (·.type = "websocket") = true
    · rw [if_pos hany]
      simp only [map_cons, map_nil, mem_cons, not_mem_nil, or_false, true_and]
      rw [← hhub hany]
      exact or_congr eq_comm eq_comm
    · have hnot : ¬ (m.sourceChannelId = some channel.id ∧ channel.type = "websocket") := by
        rintro ⟨hid, htype⟩
        refine hany ?_
        rw [getChannel_eq_some.mpr ⟨hchannel, hid⟩]
        exact decide_eq_true htype
      rw [if_neg hany]
      simp only [map_cons, map_nil, mem_cons, not_mem_nil, or_false, true_and, hnot]
      exact eq_comm

theorem reason_of_mem_fixed {route : Route C} {candidate : Option Uuid × Reason}
    (h : candidate ∈ fixed db route) : candidate.2 ≠ .rule := by
  unfold fixed at h
  split at h
  · rw [mem_singleton.mp h]
    exact nofun
  · rcases mem_cons.mp h with rfl | h
    · exact nofun
    · split at h
      · rw [mem_singleton.mp h]
        exact nofun
      · cases h

theorem nodup_fixed : ((fixed db (routeOf m c evs)).map (·.1)).Nodup := by
  unfold fixed routeOf
  cases hdirection : direction m c with
  | inbound => exact nodup_singleton _
  | reply =>
    have hne : c.origin ≠ m.sourceChannelId := by
      intro heq
      rw [direction, if_pos (.inr heq.symm)] at hdirection
      cases hdirection
    simp only
    split
    · simpa using hne
    · exact nodup_singleton _

theorem mem_orderedTargets (hevs : ∀ rule, rule ∈ matched evs ↔ Applies db collate holds m c rule)
    (hchannel : channel ∈ db.channels) :
    channel.id ∈ orderedTargets db (routeOf m c evs) ↔
      IsTarget db collate holds m c channel ∧ ¬ IsFixed m c channel := by
  have hmatched : ∀ rule, rule ∈ (routeOf m c evs).matched ↔ Applies db collate holds m c rule :=
    hevs
  simp only [orderedTargets, mem_filter, mem_eraseDups, mem_flatMap, hmatched,
    decide_eq_true_eq, mem_fixed hchannel]
  rfl

theorem nodup_candidateIds :
    ((fixed db (routeOf m c evs) ++
      (orderedTargets db (routeOf m c evs)).map fun id =>
        (some id, Reason.rule)).map (·.1)).Nodup := by
  rw [map_append, List.map_map]
  refine nodup_append.mpr ⟨nodup_fixed, ?_, ?_⟩
  · refine List.Nodup.map (fun _ _ h => some.inj h) ?_
    exact (nodup_eraseDups _).sublist filter_sublist
  · rintro _ hfixed _ htarget rfl
    obtain ⟨id, hid, rfl⟩ := List.mem_map.mp htarget
    exact of_decide_eq_true (mem_filter.mp hid).2 hfixed

theorem entry_eq_some {route : Route C} {candidate : Option Uuid × Reason} :
    entry db route candidate = some e ↔ e.channel ∈ db.channels ∧
      candidate.1 = some e.channel.id ∧ e.reason = candidate.2 ∧
      e.ruleIds = ruleIds route candidate.1 ∧ e.excluded = none := by
  rw [entry, map_eq_some_iff]
  constructor
  · rintro ⟨channel, hchannel, rfl⟩
    obtain ⟨hmem, hid⟩ := getChannel_eq_some.mp hchannel
    exact ⟨hmem, hid, rfl, rfl, rfl⟩
  · rintro ⟨hmem, hid, hreason, hrules, hexcluded⟩
    refine ⟨e.channel, getChannel_eq_some.mpr ⟨hmem, hid⟩, ?_⟩
    rw [← hreason, ← hrules, ← hexcluded]

theorem sublist_entries (route : Route C) (all : List (Option Uuid × Reason)) :
    ((all.filterMap (entry db route)).map fun e => some e.channel.id).Sublist (all.map (·.1)) := by
  induction all with
  | nil => exact List.Sublist.slnil
  | cons candidate all ih =>
    cases hentry : entry db route candidate with
    | none =>
      rw [filterMap_cons_none hentry, map_cons]
      exact ih.cons _
    | some e =>
      rw [filterMap_cons_some hentry, map_cons, map_cons, (entry_eq_some.mp hentry).2.1]
      exact ih.cons_cons _

theorem nodup_candidates : ((candidates db (routeOf m c evs)).map (·.channel.id)).Nodup := by
  refine List.Nodup.of_map some ?_
  rw [List.map_map]
  exact nodup_candidateIds.sublist (sublist_entries _ _)

/-- A candidate is fixed, or a target of a rule that applies; only the latter have to be active. -/
theorem mem_candidates (hevs : ∀ rule, rule ∈ matched evs ↔ Applies db collate holds m c rule)
    (hchannel : channel ∈ db.channels) :
    (∃ e ∈ candidates db (routeOf m c evs), e.channel = channel ∧
      (e.reason = .rule → channel.active = true)) ↔
      (IsFixed m c channel ∨ IsTarget db collate holds m c channel) ∧
        (IsFixed m c channel ∨ channel.active = true) := by
  simp only [candidates, mem_filterMap]
  constructor
  · rintro ⟨e, ⟨candidate, hmem, hentry⟩, rfl, hactive⟩
    obtain ⟨-, hid, hreason, -, -⟩ := entry_eq_some.mp hentry
    rcases mem_append.mp hmem with hfixed | htarget
    · have hfixed : IsFixed m c e.channel :=
        (mem_fixed hchannel).mp (List.mem_map.mpr ⟨candidate, hfixed, hid⟩)
      exact ⟨.inl hfixed, .inl hfixed⟩
    · obtain ⟨id, hordered, rfl⟩ := List.mem_map.mp htarget
      cases some.inj hid
      exact ⟨.inr ((mem_orderedTargets hevs hchannel).mp hordered).1, .inr (hactive hreason)⟩
  · rintro ⟨hcandidate, hactive⟩
    by_cases hfixed : IsFixed m c channel
    · have hfixed : some channel.id ∈ (fixed db (routeOf m c evs)).map (·.1) :=
        (mem_fixed hchannel).mpr hfixed
      obtain ⟨candidate, hmem, hid⟩ := List.mem_map.mp hfixed
      refine ⟨{channel, reason := candidate.2, ruleIds := ruleIds _ candidate.1}, ⟨candidate,
        mem_append_left _ hmem, entry_eq_some.mpr ⟨hchannel, hid, rfl, rfl, rfl⟩⟩, rfl, ?_⟩
      exact fun hrule => absurd hrule (reason_of_mem_fixed hmem)
    · have htarget := hcandidate.resolve_left hfixed
      have hordered := (mem_orderedTargets hevs hchannel).mpr ⟨htarget, hfixed⟩
      refine ⟨{channel, reason := .rule, ruleIds := ruleIds _ (some channel.id)},
        ⟨(some channel.id, .rule), mem_append_right _ (List.mem_map.mpr ⟨_, hordered, rfl⟩),
          entry_eq_some.mpr ⟨hchannel, rfl, rfl, rfl, rfl⟩⟩, rfl, ?_⟩
      exact fun _ => hactive.resolve_left hfixed

end Candidates

/-! ### Exclusions -/

section Exclusions
variable {db : Db C} {adapters : Adapters} {m : Message} {participant : Option Participant}
  {channel : Channel} {entries : List Entry}

theorem plannedChannels_exclude (reason : Exclusion) (test : Channel → Bool) (entries : List Entry) :
    plannedChannels (entries.map (exclude reason test)) =
      (plannedChannels entries).filter fun channel => !test channel := by
  induction entries with
  | nil => rfl
  | cons e entries ih =>
    have hcons : ∀ (e : Entry) (rest : List Entry), plannedChannels (e :: rest) =
        if e.excluded = none then e.channel :: plannedChannels rest else plannedChannels rest := by
      intro e rest
      unfold plannedChannels
      by_cases h : e.excluded = none <;> simp [h]
    rw [map_cons, hcons, hcons, ih]
    unfold exclude
    by_cases hexcluded : e.excluded = none <;> cases htest : test e.channel <;>
      simp [hexcluded, htest]

theorem sublist_plannedChannels (entries : List Entry) :
    (plannedChannels entries).Sublist (entries.map (·.channel)) :=
  filter_sublist.map _

theorem mem_plannedChannels :
    channel ∈ plannedChannels entries ↔ ∃ e ∈ entries, e.excluded = none ∧ e.channel = channel := by
  simp [plannedChannels, and_assoc]

theorem channel_excludeUndeliverable (adapters : Adapters) (e : Entry) :
    (excludeUndeliverable adapters e).channel = e.channel := by
  unfold excludeUndeliverable
  split_ifs <;> rfl

theorem excluded_excludeUndeliverable (e : Entry) (h : e.excluded = none) :
    (excludeUndeliverable adapters e).excluded = none ↔
      deliverable adapters e.channel = true ∧ e.channel.mode ≠ .inbound ∧
        (e.reason = .rule → e.channel.active = true) := by
  unfold excludeUndeliverable
  by_cases hdeliverable : deliverable adapters e.channel = true
  · rw [if_neg (not_not_intro hdeliverable)]
    by_cases hmode : e.channel.mode = .inbound
    · rw [if_pos hmode]
      exact iff_of_false nofun fun hleft => hleft.2.1 hmode
    · rw [if_neg hmode]
      by_cases hinactive : e.reason = .rule ∧ ¬ e.channel.active = true
      · rw [if_pos hinactive]
        exact iff_of_false nofun fun hleft => hinactive.2 (hleft.2.2 hinactive.1)
      · rw [if_neg hinactive]
        refine iff_of_true h ⟨hdeliverable, hmode, fun hrule => ?_⟩
        by_contra hactive
        exact hinactive ⟨hrule, hactive⟩
  · rw [if_pos hdeliverable]
    exact iff_of_false nofun fun hleft => hdeliverable hleft.1

/-- The channel has a participant, or the conversation's participant is on it, who is the sender;
hubs are exempt. -/
def Echo (db : Db C) (m : Message) (participant : Option Participant) (channel : Channel) : Prop :=
  channel.type ≠ "websocket" ∧ ∃ p, (p ∈ db.participants ∨ participant = some p) ∧
    p.channelId = channel.id ∧ some p.externalId = m.sender

/-- The sender's own channel, where the conversation's participant is on a channel. -/
theorem exists_ownChannel
    (hparticipant : ∀ p ∈ participant, (db.getChannel (some p.channelId)).isSome = true) :
    ∃ own, ownChannel db m participant = some own ∧ ∀ channel ∈ db.channels,
      (channel.id ∈ own ↔ channel.type ≠ "websocket" ∧ ∃ p, participant = some p ∧
        p.channelId = channel.id ∧ some p.externalId = m.sender) := by
  cases participant with
  | none => exact ⟨[], rfl, fun channel _ => by simp⟩
  | some p =>
    unfold ownChannel
    by_cases hsender : some p.externalId = m.sender
    · obtain ⟨own, hown⟩ := isSome_iff_exists.mp (hparticipant p rfl)
      refine ⟨_, by simp only [if_pos hsender, hown, map_some]; rfl, fun channel hchannel => ?_⟩
      by_cases hid : p.channelId = channel.id
      · have hsame : own = channel := by
          rw [getChannel_eq_some.mpr ⟨hchannel, congrArg some hid⟩] at hown
          exact (some.inj hown).symm
        subst hsame
        by_cases htype : own.type = "websocket"
        · simp [htype]
        · simp [htype, hid, hsender]
      · split <;> simp [hid, Ne.symm hid]
    · exact ⟨[], if_neg hsender, fun channel _ => by simp [hsender]⟩

theorem mem_channelsWithParticipant {channels : List Channel} {externalId : Option String}
    (hchannel : channel ∈ channels) (hids : (channels.map (·.id)).Nodup) :
    channel.id ∈ db.channelsWithParticipant
        ((channels.filter (·.type ≠ "websocket")).map (·.id)) externalId ↔
      channel.type ≠ "websocket" ∧ ∃ p ∈ db.participants, p.channelId = channel.id ∧
        some p.externalId = externalId := by
  have hhub : channel.id ∈ (channels.filter (·.type ≠ "websocket")).map (·.id) ↔
      channel.type ≠ "websocket" := by
    rw [List.mem_map]
    constructor
    · rintro ⟨other, hother, hid⟩
      obtain ⟨hmem, htype⟩ := mem_filter.mp hother
      cases inj_on_of_nodup_map hids hmem hchannel hid
      exact of_decide_eq_true htype
    · exact fun htype => ⟨channel, mem_filter.mpr ⟨hchannel, decide_eq_true htype⟩, rfl⟩
  constructor
  · intro hmem
    obtain ⟨p, hp, hid⟩ := List.mem_map.mp hmem
    obtain ⟨hp, htest⟩ := mem_filter.mp hp
    obtain ⟨hmem, hsender⟩ := of_decide_eq_true htest
    rw [hid, hhub] at hmem
    exact ⟨hmem, p, hp, hid, hsender⟩
  · rintro ⟨htype, p, hp, hid, hsender⟩
    rw [← hhub, ← hid] at htype
    exact List.mem_map.mpr ⟨p, mem_filter.mpr ⟨hp, decide_eq_true ⟨htype, hsender⟩⟩, hid⟩

theorem exists_echoIds {channels : List Channel} (hids : (channels.map (·.id)).Nodup)
    (hstored : ∀ channel ∈ channels, channel ∈ db.channels)
    (hparticipant : ∀ p ∈ participant, (db.getChannel (some p.channelId)).isSome = true) :
    ∃ ids, participantEchoChannelIds db m participant channels = some ids ∧
      ∀ channel ∈ channels, (channel.id ∈ ids ↔ Echo db m participant channel) := by
  obtain ⟨own, hown, hmem⟩ := exists_ownChannel hparticipant
  refine ⟨_, by rw [participantEchoChannelIds, hown]; rfl, fun channel hchannel => ?_⟩
  rw [mem_append, hmem channel (hstored channel hchannel),
    mem_channelsWithParticipant hchannel hids, Echo, ← and_or_left]
  refine and_congr_right fun _ => ?_
  constructor
  · rintro (⟨p, hp, h⟩ | ⟨p, hp, h⟩)
    · exact ⟨p, .inr hp, h⟩
    · exact ⟨p, .inl hp, h⟩
  · rintro ⟨p, hp | hp, h⟩
    · exact .inr ⟨p, hp, h⟩
    · exact .inl ⟨p, hp, h⟩

theorem undeliverable_stage (adapters : Adapters) {collate : String → N} {holds : C → Option Bool}
    {c : Conversation} {evs : List (Rule C × Outcome)}
    (hevs : ∀ rule, rule ∈ matched evs ↔ Applies db collate holds m c rule) :
    ((plannedChannels ((candidates db (routeOf m c evs)).map
      (excludeUndeliverable adapters))).map (·.id)).Nodup ∧
    ∀ channel, channel ∈ plannedChannels ((candidates db (routeOf m c evs)).map
        (excludeUndeliverable adapters)) ↔
      channel ∈ db.channels ∧ (IsFixed m c channel ∨ IsTarget db collate holds m c channel) ∧
        deliverable adapters channel = true ∧ channel.mode ≠ .inbound ∧
        (IsFixed m c channel ∨ channel.active = true) := by
  constructor
  · refine List.Nodup.sublist ((sublist_plannedChannels _).map _) ?_
    rw [List.map_map, List.map_map]
    have hsame : ((·.id) ∘ (·.channel)) ∘ excludeUndeliverable adapters = (·.channel.id) := by
      funext e
      exact congrArg Channel.id (channel_excludeUndeliverable adapters e)
    rw [hsame]
    exact nodup_candidates
  · intro channel
    rw [mem_plannedChannels]
    constructor
    · rintro ⟨_, hmem, hexcluded, rfl⟩
      obtain ⟨e, he, rfl⟩ := List.mem_map.mp hmem
      obtain ⟨candidate, -, hentry⟩ := mem_filterMap.mp he
      obtain ⟨hstored, -, -, -, hnone⟩ := entry_eq_some.mp hentry
      obtain ⟨hdeliverable, hmode, hactive⟩ := (excluded_excludeUndeliverable e hnone).mp hexcluded
      rw [channel_excludeUndeliverable]
      obtain ⟨hcandidate, hactive⟩ := (mem_candidates hevs hstored).mp ⟨e, he, rfl, hactive⟩
      exact ⟨hstored, hcandidate, hdeliverable, hmode, hactive⟩
    · rintro ⟨hstored, hcandidate, hdeliverable, hmode, hactive⟩
      obtain ⟨e, he, rfl, hactive⟩ := (mem_candidates hevs hstored).mpr ⟨hcandidate, hactive⟩
      obtain ⟨candidate, -, hentry⟩ := mem_filterMap.mp he
      obtain ⟨-, -, -, -, hnone⟩ := entry_eq_some.mp hentry
      exact ⟨_, List.mem_map_of_mem he, (excluded_excludeUndeliverable e hnone).mpr
        ⟨hdeliverable, hmode, hactive⟩, channel_excludeUndeliverable adapters e⟩

end Exclusions

/-! ### The delivery channels -/

/-- The channels that get a delivery: every one once, and exactly the fixed channels of the
direction and the targets of the rules that apply, without those that cannot deliver or are inbound
only, inactive rule targets, echoes, and those that do not take the activity. No message goes to a
channel other than a hub that has its sender as a participant. -/
theorem delivery_channels_exact (db : Db C) (adapters : Adapters) (collate : String → N)
    (holds : C → Option Bool) (m : Message) (c : Conversation) (participant : Option Participant)
    (hreturns : ∀ rule, ComesTo db collate holds m c rule →
      (holds rule.conditions).isSome = true)
    (hparticipant : ∀ p ∈ participant, (db.getChannel (some p.channelId)).isSome = true) :
    ∃ channels, resolveDeliveryChannels db adapters collate holds m c participant = some channels ∧
      (channels.map (·.id)).Nodup ∧
      (∀ channel, channel ∈ channels ↔ channel ∈ db.channels ∧
        (IsFixed m c channel ∨ IsTarget db collate holds m c channel) ∧
        deliverable adapters channel = true ∧ channel.mode ≠ .inbound ∧
        (IsFixed m c channel ∨ channel.active = true) ∧ ¬ Echo db m participant channel ∧
        acceptsActivity adapters m channel = true) ∧
      (∀ channel ∈ channels, channel.type ≠ "websocket" → ∀ p ∈ db.participants,
        p.channelId = channel.id → some p.externalId ≠ m.sender) := by
  obtain ⟨evs, hroute, hevs⟩ := exists_evaluations hreturns
  obtain ⟨hids, hleft⟩ := undeliverable_stage adapters hevs
  have hstored : ∀ channel ∈ plannedChannels ((candidates db (routeOf m c evs)).map
      (excludeUndeliverable adapters)), channel ∈ db.channels :=
    fun channel hchannel => ((hleft channel).mp hchannel).1
  obtain ⟨ids, hecho, hmem⟩ := exists_echoIds hids hstored hparticipant
  refine ⟨_, by
    simp only [resolveDeliveryChannels, plan, hroute, bind_some]
    rw [excludeEcho, hecho]
    rfl, ?_,
    fun channel => ?_, fun channel hchannel htype p hp hid hsender => ?_⟩
  · rw [plannedChannels_exclude, plannedChannels_exclude]
    exact hids.sublist ((filter_sublist.trans filter_sublist).map _)
  · rw [plannedChannels_exclude, plannedChannels_exclude, mem_filter, mem_filter, Bool.not_not,
      Bool.not_eq_true', decide_eq_false_iff_not]
    constructor
    · rintro ⟨⟨hplanned, hecho⟩, haccepts⟩
      rw [hmem channel hplanned] at hecho
      obtain ⟨hstored, hcandidate, hdeliverable, hmode, hactive⟩ := (hleft channel).mp hplanned
      exact ⟨hstored, hcandidate, hdeliverable, hmode, hactive, hecho, haccepts⟩
    · rintro ⟨hstored, hcandidate, hdeliverable, hmode, hactive, hecho, haccepts⟩
      have hplanned := (hleft channel).mpr ⟨hstored, hcandidate, hdeliverable, hmode, hactive⟩
      rw [← hmem channel hplanned] at hecho
      exact ⟨⟨hplanned, hecho⟩, haccepts⟩
  · rw [plannedChannels_exclude, plannedChannels_exclude] at hchannel
    obtain ⟨hplanned, hnot⟩ := mem_filter.mp (mem_of_mem_filter hchannel)
    rw [Bool.not_eq_true', decide_eq_false_iff_not, hmem channel hplanned] at hnot
    exact hnot ⟨htype, p, .inl hp, hid, hsender⟩

/-- A WhatsApp conversation that is copied to a hub and an archive by two rules, the first of which
stops. -/
def supportDb : Db Bool where
  channels := [{ id := 1, type := "whatsapp" }, { id := 2, type := "websocket" },
    { id := 3, type := "webhook" }]
  rules := [
    { id := 12, tenantId := 1, name := "b", sourceChannelId := 1, targetChannelIds := [3]
      conditions := true},
    { id := 11, tenantId := 1, name := "a", sourceChannelId := 1, targetChannelIds := [2, 2, 1]
      conditions := true, stopProcessing := true}]
  participants := [⟨1, "+1555"⟩]
  channels_nodup := by decide
  rules_nodup := by decide

def outboundAdapters : Adapters := fun _ => [.outbound]

/-- The participant writes: their own channel is an echo, and the second rule is not reached. -/
theorem delivery_channels_exact_support :
    ∃ channels, resolveDeliveryChannels supportDb outboundAdapters String.length some
        { sender := some "+1555", sourceChannelId := some 1} ⟨1, some 1, none⟩
        (some ⟨1, "+1555"⟩) = some channels ∧
      channels.map (·.id) = [2] ∧ (channels.map (·.id)).Nodup := by
  obtain ⟨channels, hchannels, hnodup, -⟩ := delivery_channels_exact supportDb outboundAdapters
    String.length some { sender := some "+1555", sourceChannelId := some 1 } ⟨1, some 1, none⟩
    (some ⟨1, "+1555"⟩) (fun _ _ => rfl) (by decide)
  refine ⟨channels, hchannels, ?_, hnodup⟩
  have hids : (resolveDeliveryChannels supportDb outboundAdapters String.length some
      { sender := some "+1555", sourceChannelId := some 1} ⟨1, some 1, none⟩
      (some ⟨1, "+1555"⟩)).map (fun channels => channels.map (·.id)) = some [2] := by
    decide +kernel
  rw [hchannels] at hids
  exact some.inj hids

end Converger.Pipeline
