import Converger.FeedRuns

/-!
# Replay

`Feed.replay/3` reads the activities after a watermark page by page, with a running
budget, and then moves the position to the head of the conversation. The loop is shown
equal to one query for every page size, and a run of commits and broadcasts after it is
shown to hand over every later activity once.
-/
namespace Converger.ProtocolFeed
open OrderedPages Pagination GuardedRuns List Option

universe u
variable {V : Type u} {n batch remaining replayMax : ℕ} {feed : Feed V} {rows : List Activity}
  {position : Position} {e : Event} {es : List Event}

def finish (acc : List (List (Frame V))) : List (Frame V) := acc.reverse.flatten

def doReplay (c : Config) (rows : List Activity) (feed : Feed V) (position : Position)
    (headSeq remaining batch : ℕ) (acc : List (List (Frame V))) : List (Frame V) × Feed V :=
  let page := pageActivitiesSince c rows feed.conversationId position
    (.int (min batch remaining : ℕ))
  let delivered := deliver feed page.1 false
  let acc := delivered.1 :: acc
  match _h : page.1.getLast? with
  | none => (finish acc, delivered.2)
  | some last =>
    if _hmore : page.2 = true ∧ 0 < remaining - page.1.length then
      doReplay c rows delivered.2 (.seq last.seq) headSeq (remaining - page.1.length) batch acc
    else if page.2 then
      (finish ([.replayTruncated last.seq (max headSeq last.seq)] :: acc), delivered.2)
    else (finish acc, delivered.2)
termination_by remaining
decreasing_by
  have hpos : 0 < page.1.length := length_pos_of_mem (mem_of_getLast? _h)
  exact Nat.sub_lt (by omega) hpos

/-- Replay what lies after `position`, at most `replayMax` frames, and continue live
after `headSeq`, the head of the conversation read after subscribing. -/
def replay (c : Config) (replayMax : ℕ) (rows : List Activity) (feed : Feed V)
    (position : Position) (headSeq : ℕ) : List (Frame V) × Feed V :=
  let r := doReplay c rows feed position headSeq replayMax c.wsReplayLimit []
  (r.1, seek r.2 headSeq)

/-- The activities after a watermark position, as one unbounded query returns them. -/
def later (rows : List Activity) (feed : Feed V) (position : Position) : List Activity :=
  activitiesAfter rows feed.conversationId (resolvePosition rows feed.conversationId position)

/-- The notice behind a replay of the first `n` of the activities `as`. -/
def truncation (headSeq n : ℕ) (as : List Activity) : List (Frame V) :=
  if n < as.length then
    (as.take n).getLast?.toList.map fun last =>
      .replayTruncated last.seq (max headSeq last.seq)
  else []

theorem truncation_drop (headSeq : ℕ) {m : ℕ} {as : List Activity} (hm : n < as.length)
    (hlt : n < m) :
    (truncation headSeq (m - n) (as.drop n) : List (Frame V)) = truncation headSeq m as := by
  have hsplit : as.take m = as.take n ++ (as.drop n).take (m - n) := by
    rw [← take_add, Nat.add_sub_cancel' hlt.le]
  have hne : (as.drop n).take (m - n) ≠ [] := by
    rw [ne_eq, take_eq_nil_iff, drop_eq_nil_iff]
    omega
  have hlast : (as.take m).getLast? = ((as.drop n).take (m - n)).getLast? := by
    rw [hsplit, getLast?_append_of_ne_nil _ hne]
  have hiff : m - n < (as.drop n).length ↔ m < as.length := by
    rw [length_drop]
    omega
  simp only [truncation, hiff, hlast]

@[simp] theorem finish_cons (fs : List (Frame V)) (acc : List (List (Frame V))) :
    finish (fs :: acc) = finish acc ++ fs := by
  simp [finish]

theorem later_after_page (h : DistinctSeqs feed.conversationId rows) {last : Activity}
    (hlast : ((later rows feed position).take n).getLast? = some last) (as : List Activity) :
    later rows (as.foldl advance feed) (.seq last.seq) = (later rows feed position).drop n := by
  rw [later, foldl_advance_conversationId]
  exact after_last h hlast

/-- A page within the budget: at least one row, and never more than what remains. -/
theorem replayPage_eq (c : Config) (rows : List Activity) (feed : Feed V) (position : Position)
    (hb : 0 < batch) (hr : 0 < remaining) :
    ∃ n, 0 < n ∧ n ≤ remaining ∧
      pageActivitiesSince c rows feed.conversationId position (.int (min batch remaining : ℕ)) =
        ((later rows feed position).take n, decide (n < (later rows feed position).length)) := by
  have hM := c.activityMaxLimit_pos
  have hlimit := clampLimit_natCast c (n := min batch remaining) (by omega)
  refine ⟨min (min batch remaining) c.activityMaxLimit, by omega, by omega, ?_⟩
  rw [← hlimit]
  exact Prod.ext (pageActivitiesSince_fst c rows _ position _)
    (pageActivitiesSince_snd c rows _ position _)

theorem doReplay_eq (c : Config) (headSeq : ℕ) (hb : 0 < batch)
    (h : DistinctSeqs feed.conversationId rows) (hr : 0 < remaining) (acc : List (List (Frame V))) :
    doReplay c rows feed position headSeq remaining batch acc =
      (finish acc ++
        ((deliverLog feed false false ((later rows feed position).take remaining)).filterMap
          Prod.snd ++ truncation headSeq remaining (later rows feed position)),
        ((later rows feed position).take remaining).foldl advance feed) := by
  induction remaining using Nat.strong_induction_on generalizing feed position acc with
  | _ remaining ih =>
  obtain ⟨n, hpos, hle, hpage⟩ := replayPage_eq c rows feed position hb hr
  set as := later rows feed position
  rw [doReplay]
  simp only [hpage, deliver_eq]
  split
  · -- an empty page: nothing lies after the position
    rename_i hlast
    rw [hpage] at hlast
    have hnil : as = [] := by
      rcases take_eq_nil_iff.mp (getLast?_eq_none_iff.mp hlast) with h0 | h0
      · omega
      · exact h0
    simp [hnil, truncation, deliverLog]
  · rename_i last hlast
    rw [hpage] at hlast
    split_ifs with hmore htrunc
    · obtain ⟨hlen, hrest⟩ := hmore
      have hlen := of_decide_eq_true hlen
      have hfull : (as.take n).length = n := by
        rw [length_take]
        omega
      rw [hfull] at hrest ⊢
      have hdistinct : DistinctSeqs ((as.take n).foldl advance feed).conversationId rows := by
        simpa using h
      have hsplit : as.take remaining = as.take n ++ (as.drop n).take (remaining - n) := by
        rw [← take_add, Nat.add_sub_cancel' hle]
      have hlater : later rows ((as.take n).foldl advance feed) (.seq last.seq) = as.drop n :=
        later_after_page h hlast _
      rw [ih (remaining - n) (by omega) hdistinct hrest, hlater,
        truncation_drop headSeq hlen (by omega), hsplit, deliverLog_append, foldl_append]
      simp
    · have hn' : n = remaining := by
        have hlen := of_decide_eq_true htrunc
        rw [length_take] at hmore
        simp only [htrunc, true_and, not_lt] at hmore
        omega
      have hlen := of_decide_eq_true htrunc
      rw [hn'] at hlen hlast ⊢
      simp [truncation, hlen, hlast]
    · have hlen : as.length ≤ n := by simpa using htrunc
      have htake : as.take remaining = as.take n := by
        rw [take_of_length_le hlen, take_of_length_le (hlen.trans hle)]
      simp [truncation, htake, not_lt.mpr (hlen.trans hle)]

theorem replay_eq (c : Config) (hN : 0 < replayMax) (h : DistinctSeqs feed.conversationId rows)
    (position : Position) (headSeq : ℕ) :
    replay c replayMax rows feed position headSeq =
      (((later rows feed position).take replayMax).filterMap (render feed false false) ++
          truncation headSeq replayMax (later rows feed position),
        seek (((later rows feed position).take replayMax).foldl advance feed) headSeq) := by
  have hne : ((later rows feed position).take replayMax).Pairwise
      fun a b => a.seq ≠ b.seq := ((activitiesAfter_pairwise h).take).imp fun hab => ne_of_lt hab
  simp only [replay, doReplay_eq c headSeq c.wsReplayLimit_pos h hN, deliverLog_eq_map hne,
    filterMap_map, finish, reverse_nil, flatten_nil, nil_append]
  rfl

theorem truncated_mem_iff (headSeq : ℕ) (hN : 0 < replayMax) (feed : Feed V) (as : List Activity) :
    (∃ w n, .replayTruncated w n ∈ (as.take replayMax).filterMap (render feed false false) ++
      truncation headSeq replayMax as) ↔ replayMax < as.length := by
  constructor
  · rintro ⟨w, n, hmem⟩
    rcases mem_append.mp hmem with hmem | hmem
    · obtain ⟨a, -, ha⟩ := mem_filterMap.mp hmem
      exact absurd (render_seq ha) (by simp [Frame.seq])
    · by_contra hlt
      simp [truncation, hlt] at hmem
  · intro hlt
    have hne : as.take replayMax ≠ [] := by
      rw [ne_eq, take_eq_nil_iff, ← length_eq_zero_iff]
      omega
    obtain ⟨last, hlast⟩ := ne_none_iff_exists'.mp (mt getLast?_eq_none_iff.mp hne)
    refine ⟨last.seq, max headSeq last.seq, mem_append_right _ ?_⟩
    simp [truncation, hlt, hlast]

/-! ## The run after a replay -/

/-- The gap read before a broadcast activity asks for as many rows as are missing. -/
def GapExact (c : Config) (s : Connection V) : Event → Prop
  | .broadcast (.canonical a) _ =>
    min (a.seq - s.feed.lastSeq - 1) c.activityMaxLimit =
      (between s.transcript.rows s.feed.conversationId s.feed.lastSeq a.seq).length
  | _ => True

def Connection.replayed (c : Config) {replayMax : ℕ} (hN : 0 < replayMax) (t : Transcript)
    (feed : Feed V) (hc : feed.conversationId = t.conversationId) (position : Position)
    (headSeq : ℕ) : Connection V where
  transcript := t
  feed := (replay c replayMax t.rows feed position headSeq).2
  same := by
    have hd : DistinctSeqs feed.conversationId t.rows := hc ▸ t.distinct
    rw [replay_eq c hN hd]
    simpa [seek] using hc
  frames_eq := rfl

/-- Everything stored above `head` that the position moved past was handed over; turns in
`turns` are the only ones skipped as own. -/
structure CaughtUp (head : ℕ) (turns : Set ℕ) (s : Connection V) : Prop where
  ordered : Ordered s
  le_counter : s.feed.lastSeq ≤ s.transcript.lastSeq
  handed : ∀ b, s.transcript.Stored b → head < b.seq → b.seq ≤ s.feed.lastSeq →
    ∃ x ∈ s.log, x.1 = b
  own_subset : ∀ n ∈ s.feed.own, n ∈ turns
  skipped : ∀ x ∈ s.log, x.2 = none →
    x.1.seq ∈ turns ∨ ∃ p, s.feed.prepare = some p ∧ p.run x.1 = none

/-- The log holds `b` once, with its frame unless it was an own turn or halted. -/
def HandedOnce (turns : Set ℕ) (s : Connection V) (b : Activity) : Prop :=
  ∃ o, (s.log.filter fun x => x.1.seq = b.seq) = [(b, o)] ∧
    match o with
    | some f => f.seq = some b.seq
    | none => b.seq ∈ turns ∨ ∃ p, s.feed.prepare = some p ∧ p.run b = none

theorem CaughtUp.handedOnce {head : ℕ} {turns : Set ℕ} {s : Connection V}
    (hs : CaughtUp head turns s) {b : Activity} (hb : s.transcript.Stored b)
    (hhead : head < b.seq) (hle : b.seq ≤ s.feed.lastSeq) : HandedOnce turns s b := by
  obtain ⟨x, hx, rfl⟩ := hs.handed b hb hhead hle
  have hne := hs.ordered.increasing.imp fun {x y} hxy => ne_of_lt hxy
  have hkey : (s.log.filter fun y => y.1.seq = x.1.seq) = [x] := filter_key_eq hne hx
  refine ⟨x.2, hkey, ?_⟩
  cases ho : x.2 with
  | none => exact hs.skipped x hx ho
  | some f => exact hs.ordered.frame_seq x hx f ho

section Run
variable {c : Config} {head : ℕ} {turns : Set ℕ} {s t : Connection V}

theorem live_prepare (rows : List Activity) (feed : Feed V) (a : Activity) (prepared : Bool) :
    (live c rows feed (.canonical a) prepared).2.prepare = feed.prepare := by
  rw [live_eq, foldl_advance_prepare]

theorem GapExact.gapBelow (h : GapExact c s e) : GapBelow c s e := by
  cases e with
  | broadcast payload prepared =>
    cases payload with
    | canonical a => exact le_of_eq h
    | unnumbered => trivial
  | commit a | delete id | own seq => trivial

theorem CaughtUp.receive (hs : CaughtUp head turns s) {a : Activity} {prepared : Bool}
    (ha : s.transcript.Stored a) (hgap : GapExact c s (.broadcast (.canonical a) prepared)) :
    CaughtUp head turns (s.receive c (.canonical a) prepared) := by
  rcases le_or_gt a.seq s.feed.lastSeq with hle | hlt
  · rwa [s.receive_of_le hle]
  have hconv : a.conversationId = s.feed.conversationId := ha.2.trans s.same.symm
  have hg := (gap_eq_missing_iff c s.distinctSeqs ha.1 hconv hlt).mpr hgap
  have hbelow := (gap_forall_lt_iff c s.distinctSeqs ha.1 hconv hlt).mpr hgap.gapBelow
  have hlast : (s.receive c (.canonical a) prepared).feed.lastSeq = a.seq :=
    live_lastSeq_of_gap_lt prepared hlt hbelow
  have hprep : (s.receive c (.canonical a) prepared).feed.prepare = s.feed.prepare :=
    live_prepare _ _ _ _
  refine ⟨hs.ordered.receive ha hgap.gapBelow, ?_, ?_, ?_, ?_⟩
  · rw [hlast]
    exact s.transcript.le_lastSeq a ha.1 ha.2
  · intro b hb hhead hba
    rw [hlast] at hba
    rcases le_or_gt b.seq s.feed.lastSeq with hbp | hbp
    · obtain ⟨x, hx, rfl⟩ := hs.handed b hb hhead hbp
      exact ⟨x, mem_append_left _ hx, rfl⟩
    · have hmem := mem_handed_of_le s.distinctSeqs ha.1 hconv hlt hg hb.1
        (hb.2.trans s.same.symm) hbp hba
      rw [← liveLog_map_fst c _ prepared hlt] at hmem
      obtain ⟨x, hx, rfl⟩ := List.mem_map.mp hmem
      exact ⟨x, mem_append_right _ hx, rfl⟩
  · intro n hn
    simp only [Connection.receive, live_eq, mem_foldl_advance_own] at hn
    exact hs.own_subset n hn.1
  · intro x hx hnone
    rw [hprep]
    rcases mem_append.mp hx with hx | hx
    · exact hs.skipped x hx hnone
    · exact ((mem_liveLog hx).2 hnone).imp (hs.own_subset _) id

theorem CaughtUp.step (hs : CaughtUp head turns s) (hgap : GapExact c s e)
    (hown : ∀ n, e = .own n → n ∈ turns) (h : step c s e = some t) : CaughtUp head turns t := by
  have hord := hs.ordered.step hgap.gapBelow h
  cases e with
  | commit a =>
    simp only [ProtocolFeed.step, dite_none_right_eq_some, Option.some.injEq] at h
    obtain ⟨⟨hc, hseq⟩, rfl⟩ := h
    refine ⟨hord, hs.le_counter.trans (Nat.le_succ _), ?_, hs.own_subset, hs.skipped⟩
    intro b hb hhead hle
    have hcounter := hs.le_counter
    rcases mem_cons.mp hb.1 with rfl | hmem
    · -- the position cannot have passed a number that was just given out
      simp only at hle
      omega
    · exact hs.handed b ⟨hmem, hb.2⟩ hhead hle
  | delete id =>
    obtain rfl := some.inj h
    refine ⟨hord, hs.le_counter, ?_, hs.own_subset, hs.skipped⟩
    exact fun b hb => hs.handed b ⟨(mem_filter.mp hb.1).1, hb.2⟩
  | broadcast payload prepared =>
    cases payload with
    | canonical a =>
      obtain ⟨ha, rfl⟩ := step_broadcast_eq_some.mp h
      exact hs.receive ha hgap
    | unnumbered =>
      obtain rfl := some.inj h
      have hsame : s.receive c .unnumbered prepared = s := by
        cases s
        simp [Connection.receive, payloadLog, live]
      rwa [hsame]
  | own seq =>
    obtain rfl := some.inj h
    refine ⟨hord, ?_, ?_, ?_, ?_⟩
    · simpa [Connection.own] using hs.le_counter
    · simpa [Connection.own] using hs.handed
    · intro n hn
      rcases mem_own hn with rfl | hn
      · exact hown n rfl
      · exact hs.own_subset n hn
    · simpa [Connection.own] using hs.skipped

theorem step_lastSeq_le (h : step c s e = some t) :
    s.feed.lastSeq ≤ t.feed.lastSeq ∧
      ∀ a prepared, e = .broadcast (.canonical a) prepared → a.seq ≤ t.feed.lastSeq := by
  by_cases he : ∃ a prepared, e = .broadcast (.canonical a) prepared
  · obtain ⟨a, prepared, rfl⟩ := he
    obtain ⟨-, rfl⟩ := step_broadcast_eq_some.mp h
    rcases le_or_gt a.seq s.feed.lastSeq with hle | hlt
    · rw [s.receive_of_le hle]
      refine ⟨le_rfl, fun b prepared' heq => ?_⟩
      cases heq
      exact hle
    · have hbound := foldl_advance_lastSeq_le.mp (le_refl
        ((gap c s.transcript.rows s.feed a.seq ++ [a]).foldl advance s.feed).lastSeq)
      simp only [Connection.receive, live_eq, liveLog_map_fst c _ prepared hlt]
      refine ⟨hbound.1, fun b prepared' heq => ?_⟩
      cases heq
      exact hbound.2 a (by simp)
  · push Not at he
    refine ⟨(step_quiet he h).2.ge, fun a prepared heq => ?_⟩
    exact absurd heq (he a prepared)

theorem run_lastSeq_le (h : run (step c) s es = some t) :
    s.feed.lastSeq ≤ t.feed.lastSeq ∧
      ∀ a prepared, .broadcast (.canonical a) prepared ∈ es → a.seq ≤ t.feed.lastSeq := by
  induction es generalizing s with
  | nil => exact some.inj h ▸ ⟨le_rfl, by simp⟩
  | cons e es ih =>
    obtain ⟨m, hm, hrun⟩ := run_cons_eq_some.mp h
    obtain ⟨hstep, he⟩ := step_lastSeq_le hm
    obtain ⟨hmono, hes⟩ := ih hrun
    refine ⟨hstep.trans hmono, fun a prepared hmem => ?_⟩
    rcases mem_cons.mp hmem with heq | hmem
    · exact (he a prepared heq.symm).trans hmono
    · exact hes a prepared hmem

theorem caughtUp_run (hs : CaughtUp head turns s) (hgap : Along (step c) (GapExact c) s es)
    (hown : ∀ n, .own n ∈ es → n ∈ turns) (h : run (step c) s es = some t) : CaughtUp head turns t := by
  have hturns : ∀ e ∈ es, ∀ n, e = .own n → n ∈ turns := by
    rintro e he n rfl
    exact hown n he
  exact run_invariant_along (fun hm hg hn => hm.step hg.1 hg.2 hn) hs (hgap.and (along_of_forall hturns)) h

end Run

theorem replayed_lastSeq_le (c : Config) (hN : 0 < replayMax) {t : Transcript}
    (hc : feed.conversationId = t.conversationId) (position : Position)
    {headSeq : ℕ} (hp : feed.lastSeq ≤ t.lastSeq) (hh : headSeq ≤ t.lastSeq) :
    (Connection.replayed c hN t feed hc position headSeq).feed.lastSeq ≤ t.lastSeq := by
  have hd : DistinctSeqs feed.conversationId t.rows := hc ▸ t.distinct
  simp only [Connection.replayed, replay_eq c hN hd, seek, max_le_iff, foldl_advance_lastSeq_le]
  refine ⟨⟨hp, fun a ha => ?_⟩, hh⟩
  have hmem := mem_ofConversation.mp (mem_after.mp (mem_of_mem_take ha)).1
  exact t.le_lastSeq a hmem.1 (hmem.2.trans hc)

/-- A replay hands over the first activities after the position, in order and whatever
the page size, and tells whether it stopped short. In every run after it whose gap reads
ask for as many rows as are missing, each activity committed since is handed over once. -/
theorem replay_then_live_once (c : Config) {replayMax : ℕ} (hN : 0 < replayMax) {t₀ : Transcript}
    {feed : Feed V} (hc : feed.conversationId = t₀.conversationId) (position : Position)
    {headSeq : ℕ} (hp : feed.lastSeq ≤ t₀.lastSeq) (hh : headSeq ≤ t₀.lastSeq) :
    let as := later t₀.rows feed position
    let r := replay c replayMax t₀.rows feed position headSeq
    let s := Connection.replayed c hN t₀ feed hc position headSeq
    (as.Pairwise (fun a b => a.seq < b.seq) ∧ ∀ a, a ∈ as ↔ t₀.Stored a ∧
        ∀ w ∈ resolvePosition t₀.rows feed.conversationId position, w < a.seq) ∧
      r.1 = (as.take replayMax).filterMap (render feed false false) ++
        truncation headSeq replayMax as ∧
      ((∃ w n, .replayTruncated w n ∈ r.1) ↔ replayMax < as.length) ∧
      ∀ es t, run (step c) s es = some t →
        (∀ a prepared, .broadcast (.canonical a) prepared ∈ es → a.seq ≤ t.feed.lastSeq) ∧
        (Along (step c) (GapExact c) s es →
          ∀ b, t.transcript.Stored b → t₀.lastSeq < b.seq → b.seq ≤ t.feed.lastSeq →
            HandedOnce {n | n ∈ s.feed.own ∨ .own n ∈ es} t b) := by
  intro as r s
  have hd : DistinctSeqs feed.conversationId t₀.rows := hc ▸ t₀.distinct
  have hr : r.1 = _ := congrArg Prod.fst (replay_eq c hN hd position headSeq)
  refine ⟨⟨activitiesAfter_pairwise hd, fun a => ?_⟩, hr, ?_, fun es t hrun => ?_⟩
  · simp only [as, later, activitiesAfter, mem_after, mem_ofConversation, Transcript.Stored, hc]
  · rw [hr]
    exact truncated_mem_iff headSeq hN feed as
  · refine ⟨(run_lastSeq_le hrun).2, fun hgap b hb hhead hle => ?_⟩
    have hstart : s.feed.lastSeq ≤ t₀.lastSeq := replayed_lastSeq_le c hN hc position hp hh
    have hcaught : CaughtUp t₀.lastSeq {n | n ∈ s.feed.own ∨ .own n ∈ es} s := by
      refine ⟨⟨.nil, by simp [s, Connection.replayed], by simp [s, Connection.replayed]⟩, hstart,
        fun b _ hlt hle => ?_, fun n hn => .inl hn, by simp [s, Connection.replayed]⟩
      omega
    exact (caughtUp_run hcaught hgap (fun n hn => .inr hn) hrun).handedOnce hb hhead hle

def emptyTranscript : Transcript where
  conversationId := 7
  rows := []
  lastSeq := 0
  distinct := by decide
  le_lastSeq := by simp

def emptyFeed : Feed Unit := {conversationId := 7, userId := ()}

def newcomer : Connection Unit :=
  Connection.replayed {} (by decide : 0 < 1000) emptyTranscript emptyFeed rfl .start 0

def numberedActivity (i : ℕ) : Activity := {id := i, conversationId := 7, seq := i + 1}

theorem newcomer_lastSeq : newcomer.feed.lastSeq = 0 :=
  Nat.le_zero.mp (replayed_lastSeq_le {} _ rfl .start le_rfl le_rfl)

theorem replay_then_live_once_newcomer :
    ∃ t, run (step {}) newcomer [.commit (numberedActivity 0),
        .broadcast (.canonical (numberedActivity 0)) false] = some t ∧
      HandedOnce {n | n ∈ newcomer.feed.own ∨ Event.own n ∈ [Event.commit (numberedActivity 0),
        .broadcast (.canonical (numberedActivity 0)) false]} t (numberedActivity 0) := by
  have hrun : run (step {}) newcomer [.commit (numberedActivity 0),
      .broadcast (.canonical (numberedActivity 0)) false] = some _ := rfl
  have hmain := (replay_then_live_once {} (by decide) rfl .start le_rfl le_rfl).2.2.2 _ _ hrun
  refine ⟨_, hrun, hmain.2 ⟨trivial, ?_⟩ _ (by decide) (by decide) (hmain.1 _ false (by simp))⟩
  rintro _ ⟨⟩
  have hconv : newcomer.feed.conversationId = 7 := newcomer.same
  refine ⟨?_, fun _ _ => trivial⟩
  change min (1 - newcomer.feed.lastSeq - 1) 1000 =
    (between [numberedActivity 0] newcomer.feed.conversationId newcomer.feed.lastSeq 1).length
  rw [hconv, newcomer_lastSeq]
  decide

theorem numbered_succ (n : ℕ) : numbered 7 (n + 1) = numbered 7 n ++ [numberedActivity n] := by
  simp [numbered, range_succ, numberedActivity]

theorem run_commits {c : Config} {s : Connection V} (hc : s.transcript.conversationId = 7)
    (hlast : s.transcript.lastSeq = 0) (hrows : s.transcript.rows = []) (n : ℕ) :
    ∃ t, run (step c) s ((numbered 7 n).map .commit) = some t ∧ t.feed = s.feed ∧
      t.log = s.log ∧ t.transcript.conversationId = 7 ∧ t.transcript.lastSeq = n ∧
      ∀ a, a ∈ t.transcript.rows ↔ a ∈ numbered 7 n := by
  induction n with
  | zero => exact ⟨s, rfl, rfl, rfl, hc, hlast, by simp [hrows, numbered]⟩
  | succ n ih =>
    obtain ⟨t, hrun, hfeed, hlog, hconv, hseq, hmem⟩ := ih
    have hnext : (numberedActivity n).conversationId = t.transcript.conversationId ∧
        (numberedActivity n).seq = t.transcript.lastSeq + 1 := by simp [numberedActivity, hconv, hseq]
    refine ⟨{t with transcript := t.transcript.commit _ hnext.1 hnext.2}, ?_, hfeed, hlog, hconv,
      ?_, ?_⟩
    · rw [numbered_succ, map_append]
      exact run_append_eq_some.mpr ⟨t, hrun, by simp [run, step, hnext]⟩
    · simp [Transcript.commit, hseq]
    · intro a
      simp [Transcript.commit, numbered_succ, hmem, or_comm]

/-- After 1002 commits the broadcast of number 1002 arrives first. The read before it stops
at 1000, and the broadcast of 1001 that follows is dropped as already delivered. -/
theorem late_broadcast_lost :
    ∃ t, run (step {}) newcomer ((numbered 7 1002).map .commit ++
        [.broadcast (.canonical (numberedActivity 1001)) false,
          .broadcast (.canonical (numberedActivity 1000)) false]) = some t ∧
      t.transcript.Stored (numberedActivity 1000) ∧
      (numberedActivity 1000).seq ≤ t.feed.lastSeq ∧
      ∀ x ∈ t.log, x.1.seq ≠ (numberedActivity 1000).seq := by
  obtain ⟨t, hrun, hfeed, hlog, hconv, hseq, hmem⟩ := run_commits (c := {}) (s := newcomer) rfl rfl rfl 1002
  have hlast : t.feed.lastSeq = 0 := by rw [hfeed, newcomer_lastSeq]
  have hstored : ∀ i < 1002, t.transcript.Stored (numberedActivity i) := by
    intro i hi
    exact ⟨(hmem _).mpr (mem_numbered.mpr ⟨i, hi, rfl⟩), hconv.symm⟩
  have hall : ∀ n, t.feed.lastSeq < n → n < 1002 →
      ∃ b ∈ t.transcript.rows, b.conversationId = t.feed.conversationId ∧ b.seq = n := by
    intro n hn hlt
    have hb := hstored (n - 1) (by omega)
    exact ⟨_, hb.1, hb.2.trans t.same.symm, by simp [numberedActivity]; omega⟩
  have hlimit : gapLimit {} t.feed 1002 = 1000 := by simp [gapLimit, hlast]
  have hgap : (gap {} t.transcript.rows t.feed 1002).map Activity.seq = List.range' 1 1000 := by
    rw [gap_map_seq_of_contiguous {} t.distinctSeqs hall, hlimit, hlast]
  have hbelow : ∀ b ∈ gap {} t.transcript.rows t.feed 1002, b.seq < 1001 := by
    intro b hb
    have hmem := List.mem_map_of_mem (f := Activity.seq) hb
    rw [hgap, mem_range'_1] at hmem
    omega
  have hp : t.feed.lastSeq < (numberedActivity 1001).seq := by simp [numberedActivity, hlast]
  have hmoved : (t.receive {} (.canonical (numberedActivity 1001)) false).feed.lastSeq = 1002 :=
    live_lastSeq_of_gap_lt false hp fun b hb => (hbelow b hb).trans (Nat.lt_succ_self _)
  have hle : (numberedActivity 1000).seq ≤
      (t.receive {} (.canonical (numberedActivity 1001)) false).feed.lastSeq := by
    rw [hmoved]
    exact Nat.le_succ _
  refine ⟨_, run_append_eq_some.mpr ⟨t, hrun, run_cons_eq_some.mpr ⟨_,
    step_broadcast_eq_some.mpr ⟨hstored 1001 (by omega), rfl⟩, run_cons_eq_some.mpr ⟨_,
    step_broadcast_eq_some.mpr ⟨hstored 1000 (by omega), Connection.receive_of_le _ hle⟩, rfl⟩⟩⟩,
    hstored 1000 (by omega), hle, fun x hx hne => ?_⟩
  have hx' : x ∈ liveLog {} t.transcript.rows t.feed (numberedActivity 1001) false := by
    have hnil : t.log = [] := hlog
    simpa [Connection.receive, payloadLog, hnil] using hx
  have hmem := List.mem_map_of_mem (f := Prod.fst) hx'
  rw [liveLog_map_fst {} _ false hp, mem_append, mem_singleton] at hmem
  rcases hmem with hmem | hmem
  · exact absurd (hbelow _ hmem) (by simp [hne, numberedActivity])
  · simp [hmem, numberedActivity] at hne

end Converger.ProtocolFeed
