import Converger.FeedReplay
import Converger.Watermarks

/-!
# Conversation sockets

The Phoenix binding of a conversation. A socket keeps one position; the replay after a join,
the live activities and the gap reads all move it. A routed socket sees the activities as its
channel's middleware leaves them, and those the middleware halts are not pushed. The log of a
socket holds every activity that moved it, and whether it was pushed.
-/
namespace Converger.ConversationSockets
open GuardedRuns OrderedPages Pagination ProtocolFeed List Option

inductive Push
  | activitySet (activities : List Activity) (watermark : String) (hasMore : Bool)
  | replayUnavailable (watermark : Option String)

def Push.activities : Push → List Activity
  | .activitySet activities _ _ => activities
  | .replayUnavailable _ => []

def Push.hasMore : Push → Option Bool
  | .activitySet _ _ hasMore => some hasMore
  | .replayUnavailable _ => none

/-- What the database does while a replay runs: it answers, it does not, or it is lost after the
page was read and before the deliveries of the page are acknowledged. -/
inductive Database
  | available | unavailable | lostAfterRead
  deriving DecidableEq

/-- `start` is the position from which the socket follows the conversation; the replay after
the join is still to come while `joined` is false. A channel of type `websocket` that does not
require acks acknowledges what a replay pushes. -/
structure Socket where
  transcript : Transcript
  routed : Bool
  acknowledges : Bool
  joined : Bool := false
  start : Option ℕ
  lastSeq : ℕ
  log : List (Activity × Bool) := []
  pushes : List Push := []

namespace Socket

/-- `do_join`: the head is read before anything else. -/
def join (transcript : Transcript) (routed acknowledges : Bool) : Socket where
  transcript := transcript
  routed := routed
  acknowledges := acknowledges
  start := some transcript.lastSeq
  lastSeq := transcript.lastSeq

/-- `frame/2`: the middleware of a routed socket can halt the activity. -/
def halts (s : Socket) (halted : Activity → Bool) (a : Activity) : Bool := s.routed && halted a

/-- The `activitySet` for activities read from the database; none if all are halted. -/
def activitySets (s : Socket) (halted : Activity → Bool) (activities : List Activity)
    (lastSeq : ℕ) (hasMore : Bool) : List Push :=
  let frames := activities.filter fun a => !s.halts halted a
  if frames = [] then [] else [.activitySet frames (Watermarks.encode lastSeq) hasMore]

def pushActivities (s : Socket) (halted : Activity → Bool) (activities : List Activity)
    (hasMore : Bool) : Socket :=
  match activities.getLast? with
  | none => s
  | some last =>
    {s with
      pushes := s.pushes ++ s.activitySets halted activities last.seq hasMore
      lastSeq := last.seq
      log := s.log ++ activities.map fun a => (a, !s.halts halted a)}

def errorWatermark : Position → Option String
  | .seq n => some (Watermarks.encode n)
  | _ => none

def page (c : Config) (s : Socket) (position : Position) : List Activity × Bool :=
  pageActivitiesSince c s.transcript.rows s.transcript.conversationId position
    (.int c.wsReplayLimit)

def completes (s : Socket) (activities : List Activity) : Database → Bool
  | .available => true
  | .unavailable => false
  | .lostAfterRead => !s.acknowledges || activities.isEmpty

/-- What is pushed by a replay that does not reach its end, before the error. -/
def interrupted (s : Socket) (halted : Activity → Bool) (activities : List Activity)
    (hasMore : Bool) : Database → List Push
  | .lostAfterRead =>
    activities.getLast?.toList.flatMap fun last =>
      s.activitySets halted activities last.seq hasMore
  | _ => []

/-- A bounded page after the position. A lost database leaves the socket at its place. -/
def replay (c : Config) (s : Socket) (halted : Activity → Bool) (database : Database)
    (position : Position) : Socket :=
  let page := s.page c position
  if s.completes page.1 database then s.pushActivities halted page.1 page.2
  else
    {s with
      pushes := s.pushes ++ s.interrupted halted page.1 page.2 database ++
        [.replayUnavailable (errorWatermark position)]}

def pushLive (c : Config) (s : Socket) (halted : Activity → Bool) (database : Database)
    (a : Activity) : Socket :=
  if a.seq = s.lastSeq + 1 then
    {s with
      pushes := s.pushes ++ [.activitySet [a] (Watermarks.encode a.seq) false]
      lastSeq := a.seq
      log := s.log ++ [(a, true)]}
  else if a.seq ≤ s.lastSeq then s
  else s.replay c halted database (.seq s.lastSeq)

/-- The replay after the join, if the client gave a position. A page moves the socket to the
position that was asked for. -/
def afterJoin (c : Config) (s : Socket) (halted : Activity → Bool) (database : Database)
    (watermark : Option Position) : Socket :=
  match watermark with
  | none | some .start => s
  | some position =>
    let page := s.page c position
    {s.replay c halted database position with
      start :=
        if s.completes page.1 database ∧ page.1 ≠ [] then
          resolvePosition s.transcript.rows s.transcript.conversationId position
        else s.start}

def pushed (s : Socket) : List Activity := s.pushes.flatMap Push.activities

/-- `has_more` of the last `activitySet`. -/
def lastHasMore (s : Socket) : Option Bool := (s.pushes.filterMap Push.hasMore).getLast?

end Socket

/-- The watermark of a join is the position it parses to; a replay sees what the middleware
halts at that time. -/
inductive Event
  | commit (a : Activity)
  | afterJoin (watermark : Option Position) (halted : Activity → Bool) (database : Database)
  | broadcast (a : Activity) (halted : Activity → Bool) (database : Database)

/-- One event. Only stored activities are broadcast, and broadcasts are handled after the
replay of the join. -/
def step (c : Config) (s : Socket) : Event → Option Socket
  | .commit a =>
    if h : a.conversationId = s.transcript.conversationId ∧ a.seq = s.transcript.lastSeq + 1 then
      some {s with transcript := s.transcript.commit a h.1 h.2}
    else none
  | .afterJoin watermark halted database =>
    if s.joined then none
    else some {s.afterJoin c halted database watermark with joined := true}
  | .broadcast a halted database =>
    if s.joined ∧ s.transcript.Stored a then some (s.pushLive c halted database a) else none

/-! ## What the log covers -/

/-- The log holds, in order, exactly the stored activities after `start` up to `p`. -/
structure Covers (t : Transcript) (start p : Option ℕ) (log : List (Activity × Bool)) : Prop where
  increasing : log.Pairwise fun x y => x.1.seq < y.1.seq
  range : ∀ x ∈ log, (∀ k ∈ start, k < x.1.seq) ∧ ∃ k ∈ p, x.1.seq ≤ k
  covered : ∀ b, t.Stored b → (∀ k ∈ start, k < b.seq) → (∃ k ∈ p, b.seq ≤ k) →
    ∃ sent, (b, sent) ∈ log
  start_le : ∀ k ∈ start, ∃ q ∈ p, k ≤ q

theorem Covers.init (t : Transcript) (p : Option ℕ) : Covers t p p [] where
  increasing := .nil
  range := by simp
  covered := by
    rintro b - hafter ⟨k, hk, hle⟩
    exact absurd (hafter k hk) (not_lt.mpr hle)
  start_le := fun k hk => ⟨k, hk, le_rfl⟩

variable {start p : Option ℕ} {t : Transcript} {n : ℕ} {last a : Activity} {s : Socket}
  {halted : Activity → Bool} {c : Config} {database : Database} {position : Position}

theorem Covers.extend {log : List (Activity × Bool)} (h : Covers t start p log)
    (hlast : ((activitiesAfter t.rows t.conversationId p).take n).getLast? = some last)
    (sent : Activity → Bool) :
    Covers t start (some last.seq)
      (log ++ ((activitiesAfter t.rows t.conversationId p).take n).map fun a => (a, sent a)) := by
  have hsorted := activitiesAfter_pairwise (p := p) t.distinct
  have hafter : ∀ b ∈ (activitiesAfter t.rows t.conversationId p).take n,
      t.Stored b ∧ ∀ k ∈ p, k < b.seq := by
    intro b hb
    obtain ⟨hstored, hk⟩ := mem_after.mp (mem_of_mem_take hb)
    exact ⟨mem_ofConversation.mp hstored, hk⟩
  have hlastMem := mem_of_getLast? hlast
  have hle : ∀ b ∈ (activitiesAfter t.rows t.conversationId p).take n, b.seq ≤ last.seq :=
    fun b hb => le_key_last (hsorted.sublist (take_sublist n _)) hlast hb
  refine ⟨?_, ?_, ?_, ?_⟩
  · refine pairwise_append.mpr ⟨h.increasing, ?_, ?_⟩
    · rw [pairwise_map]
      exact hsorted.sublist (take_sublist n _)
    · intro x hx y hy
      obtain ⟨b, hb, rfl⟩ := List.mem_map.mp hy
      obtain ⟨-, k, hk, hxk⟩ := h.range x hx
      exact lt_of_le_of_lt hxk ((hafter b hb).2 k hk)
  · intro x hx
    rcases mem_append.mp hx with hx | hx
    · obtain ⟨hstart, k, hk, hxk⟩ := h.range x hx
      exact ⟨hstart, last.seq, rfl, hxk.trans ((hafter last hlastMem).2 k hk).le⟩
    · obtain ⟨b, hb, rfl⟩ := List.mem_map.mp hx
      refine ⟨fun k hk => ?_, last.seq, rfl, hle b hb⟩
      obtain ⟨q, hq, hkq⟩ := h.start_le k hk
      exact lt_of_le_of_lt hkq ((hafter b hb).2 q hq)
  · rintro b hb hstart ⟨k, hk, hbk⟩
    cases hk
    by_cases hold : ∃ q ∈ p, b.seq ≤ q
    · obtain ⟨flag, hmem⟩ := h.covered b hb hstart hold
      exact ⟨flag, mem_append_left _ hmem⟩
    · -- an activity after `p` that is not above the last one of the page is on the page
      have hb' : b ∈ activitiesAfter t.rows t.conversationId p := by
        refine mem_after.mpr ⟨mem_ofConversation.mpr hb, fun q hq => ?_⟩
        by_contra hlt
        exact hold ⟨q, hq, not_lt.mp hlt⟩
      refine ⟨sent b, mem_append_right _ (List.mem_map.mpr ⟨b, ?_, rfl⟩)⟩
      rcases lt_or_eq_of_le hbk with hlt | heq
      · exact mem_take_of_lt hsorted hb' hlastMem hlt
      · have hne := hsorted.imp fun h => ne_of_lt h
        rw [eq_of_key_eq hne (mem_of_mem_take hlastMem) hb' heq]
        exact hlastMem
  · intro k hk
    obtain ⟨q, hq, hkq⟩ := h.start_le k hk
    exact ⟨last.seq, rfl, hkq.trans ((hafter last hlastMem).2 q hq).le⟩

theorem take_one_activitiesAfter {p : ℕ} (ha : t.Stored a)
    (hseq : a.seq = p + 1) : (activitiesAfter t.rows t.conversationId (some p)).take 1 = [a] := by
  have hsorted := activitiesAfter_pairwise (p := some p) t.distinct
  have hmem : a ∈ activitiesAfter t.rows t.conversationId (some p) :=
    mem_activitiesAfter.mpr ⟨ha, by omega⟩
  cases hlist : activitiesAfter t.rows t.conversationId (some p) with
  | nil => simp [hlist] at hmem
  | cons x xs =>
    have hx : x ∈ activitiesAfter t.rows t.conversationId (some p) := by
      rw [hlist]
      exact mem_cons_self
    have hlow := (mem_activitiesAfter.mp hx).2
    rw [hlist] at hsorted hmem
    rcases mem_cons.mp hmem with rfl | hmem
    · rfl
    · have hlt := (pairwise_cons.mp hsorted).1 a hmem
      omega

/-! ## Steps -/

/-- The socket has pushed what its log says, and the log covers everything from its start. -/
structure Follows (s : Socket) : Prop where
  pushed_eq : s.pushed = (s.log.filter Prod.snd).map Prod.fst
  covers : Covers s.transcript s.start (some s.lastSeq) s.log
  head : s.lastSeq ≤ s.transcript.lastSeq
  routed : ∀ x ∈ s.log, x.2 = false → s.routed = true

def limit (c : Config) : ℕ := clampLimit c (.int c.wsReplayLimit) .activity

theorem limit_pos (c : Config) : 0 < limit c := by
  rw [limit, clampLimit_natCast c c.wsReplayLimit_pos]
  exact lt_min c.wsReplayLimit_pos c.activityMaxLimit_pos

def Socket.following (s : Socket) (p : Option ℕ) : List Activity :=
  activitiesAfter s.transcript.rows s.transcript.conversationId p

theorem page_fst_eq (c : Config) (s : Socket) (position : Position) :
    (s.page c position).1 = (s.following (resolvePosition s.transcript.rows
      s.transcript.conversationId position)).take (limit c) :=
  pageActivitiesSince_fst ..

theorem filter_sent (activities : List Activity) (sent : Activity → Bool) :
    ((activities.map fun a => (a, sent a)).filter Prod.snd).map Prod.fst =
      activities.filter sent := by
  rw [List.filter_map, List.map_map]
  exact map_id _

theorem activitySets_activities (s : Socket) (halted : Activity → Bool)
    (activities : List Activity) (lastSeq : ℕ) (hasMore : Bool) :
    (s.activitySets halted activities lastSeq hasMore).flatMap Push.activities =
      activities.filter fun a => !s.halts halted a := by
  simp only [Socket.activitySets]
  split_ifs with hframes
  · rw [hframes]
    rfl
  · simp [Push.activities]

theorem Follows.push (h : Follows s) {extra : List Push}
    (hextra : extra.flatMap Push.activities = []) : Follows {s with pushes := s.pushes ++ extra} where
  pushed_eq := by
    have hpushed := h.pushed_eq
    simp only [Socket.pushed] at hpushed ⊢
    rw [flatMap_append, hextra, append_nil, hpushed]
  covers := h.covers
  head := h.head
  routed := h.routed

theorem commit_follows (h : Follows s)
    (hc : a.conversationId = s.transcript.conversationId) (hs : a.seq = s.transcript.lastSeq + 1) :
    Follows {s with transcript := s.transcript.commit a hc hs} where
  pushed_eq := h.pushed_eq
  covers :=
    { increasing := h.covers.increasing
      range := h.covers.range
      covered := by
        rintro b ⟨hb, hbc⟩ hstart ⟨k, hk, hle⟩
        rcases mem_cons.mp hb with rfl | hb
        · have hk : s.lastSeq = k := some.inj hk
          have hhead := h.head
          omega
        · exact h.covers.covered b ⟨hb, hbc⟩ hstart ⟨k, hk, hle⟩
      start_le := h.covers.start_le}
  head := h.head.trans (Nat.le_succ _)
  routed := h.routed

theorem pushActivities_follows {hasMore : Bool} (h : Follows s)
    (hcovers : Covers s.transcript start p s.log) (hne : (s.following p).take n ≠ []) :
    Follows {s.pushActivities halted ((s.following p).take n) hasMore with start := start} := by
  obtain ⟨last, hlast⟩ : ∃ last, ((s.following p).take n).getLast? = some last :=
    ⟨_, getLast?_eq_some_getLast hne⟩
  have hstored := mem_ofConversation.mp (mem_after.mp (mem_of_mem_take (mem_of_getLast? hlast))).1
  simp only [Socket.pushActivities, hlast]
  refine ⟨?_, hcovers.extend hlast _, s.transcript.le_lastSeq last hstored.1 hstored.2, ?_⟩
  · have hpushed := h.pushed_eq
    simp only [Socket.pushed] at hpushed ⊢
    rw [flatMap_append, filter_append, map_append, filter_sent, activitySets_activities, hpushed]
  · refine forall_mem_append.mpr ⟨h.routed, fun x hx hsent => ?_⟩
    obtain ⟨b, -, rfl⟩ := List.mem_map.mp hx
    simp only [Socket.halts, Bool.not_eq_false'] at hsent
    exact (Bool.and_eq_true_iff.mp hsent).1

theorem replay_frame (c : Config) (s : Socket) (halted : Activity → Bool) (database : Database)
    (position : Position) : (s.replay c halted database position).start = s.start ∧
      (s.replay c halted database position).joined = s.joined := by
  simp only [Socket.replay, Socket.pushActivities]
  split_ifs
  · split <;> exact ⟨rfl, rfl⟩
  · exact ⟨rfl, rfl⟩

theorem pushLive_joined (c : Config) (s : Socket) (halted : Activity → Bool) (database : Database)
    (a : Activity) : (s.pushLive c halted database a).joined = s.joined := by
  unfold Socket.pushLive
  split_ifs
  · rfl
  · rfl
  · exact (replay_frame ..).2

/-- The replay pushes activities, and the database is lost before they are acknowledged. -/
def Torn (c : Config) (s : Socket) (halted : Activity → Bool) (database : Database)
    (position : Position) : Prop :=
  database = .lostAfterRead ∧ s.acknowledges = true ∧
    ∃ b ∈ (s.page c position).1, s.halts halted b = false

instance (c : Config) (s : Socket) (halted : Activity → Bool) (database : Database)
    (position : Position) : Decidable (Torn c s halted database position) :=
  inferInstanceAs (Decidable (_ ∧ _ ∧ _))

theorem interrupted_activities (hends : s.completes (s.page c position).1 database = false)
    (hwhole : ¬ Torn c s halted database position) :
    (s.interrupted halted (s.page c position).1 (s.page c position).2 database).flatMap
      Push.activities = [] := by
  cases database with
  | available => rfl
  | unavailable => rfl
  | lostAfterRead =>
    have hacks : s.acknowledges = true := by
      cases hacks : s.acknowledges with
      | true => rfl
      | false => simp [Socket.completes, hacks] at hends
    have hall : ((s.page c position).1.filter fun a => !s.halts halted a) = [] := by
      refine filter_eq_nil_iff.mpr fun b hb hsent => hwhole ⟨rfl, hacks, b, hb, ?_⟩
      simpa using hsent
    simp [Socket.interrupted, Socket.activitySets, hall]

/-- A replay either moves the socket over the page or leaves it at its place. -/
theorem replay_follows (h : Follows s) (hcovers : Covers s.transcript start
      (resolvePosition s.transcript.rows s.transcript.conversationId position) s.log)
    (hwhole : ¬ Torn c s halted database position) :
    Follows {s.replay c halted database position with
      start := if s.completes (s.page c position).1 database ∧ (s.page c position).1 ≠ [] then start
        else s.start} := by
  by_cases hends : s.completes (s.page c position).1 database = true
  · simp only [Socket.replay, hends, if_true, true_and]
    by_cases hempty : (s.page c position).1 = []
    · simpa [hempty, Socket.pushActivities] using h
    · rw [if_pos hempty]
      rw [page_fst_eq] at hempty ⊢
      exact pushActivities_follows h hcovers hempty
  · simp only [Bool.not_eq_true] at hends
    simp only [Socket.replay, hends, Bool.false_eq_true, if_false, false_and]
    rw [append_assoc]
    exact h.push (by simp [interrupted_activities hends hwhole, Push.activities])

theorem pushLive_follows (h : Follows s) (hstored : s.transcript.Stored a)
    (hwhole : s.lastSeq + 1 < a.seq → ¬ Torn c s halted database (.seq s.lastSeq)) :
    Follows (s.pushLive c halted database a) := by
  unfold Socket.pushLive
  split_ifs with hnext hold
  · have hone := take_one_activitiesAfter hstored hnext
    have hlast : ((s.following (some s.lastSeq)).take 1).getLast? = some a := by
      rw [Socket.following, hone]
      rfl
    have hcovers := h.covers.extend hlast fun _ => true
    rw [hone] at hcovers
    refine ⟨?_, hcovers, s.transcript.le_lastSeq a hstored.1 hstored.2, ?_⟩
    · have hpushed := h.pushed_eq
      simp only [Socket.pushed] at hpushed ⊢
      simp [hpushed, Push.activities]
    · refine forall_mem_snoc h.routed fun hsent => ?_
      cases hsent
  · exact h
  · have hreplay := @replay_follows s.start s halted c database (.seq s.lastSeq) h h.covers
      (hwhole (by omega))
    rw [ite_self, ← (replay_frame c s halted database (.seq s.lastSeq)).1] at hreplay
    exact hreplay

/-- The step pushes a page and loses the database before the acknowledgement. -/
def TornStep (c : Config) (s : Socket) : Event → Prop
  | .afterJoin (some position) halted database =>
    position ≠ .start ∧ Torn c s halted database position
  | .broadcast a halted database =>
    s.lastSeq + 1 < a.seq ∧ Torn c s halted database (.seq s.lastSeq)
  | _ => False

instance (c : Config) (s : Socket) : ∀ e, Decidable (TornStep c s e)
  | .commit _ => .isFalse not_false
  | .afterJoin none _ _ => .isFalse not_false
  | .afterJoin (some _) _ _ => inferInstanceAs (Decidable (_ ∧ _))
  | .broadcast _ _ _ => inferInstanceAs (Decidable (_ ∧ _))

def Fresh (s : Socket) : Prop := s.joined = false → s.log = []

theorem join_follows (t : Transcript) (routed acknowledges : Bool) :
    Follows (.join t routed acknowledges) :=
  ⟨rfl, .init t _, le_rfl, by simp [Socket.join]⟩

theorem afterJoin_follows {watermark : Option Position} (h : Follows s) (hlog : s.log = [])
    (hwhole : ¬ TornStep c s (.afterJoin watermark halted database)) :
    Follows (s.afterJoin c halted database watermark) := by
  have hinit : ∀ p, Covers s.transcript p p s.log := by
    intro p
    rw [hlog]
    exact .init _ p
  match watermark with
  | none | some .start => exact h
  | some (.seq n) | some (.activityId id) =>
    exact replay_follows h (hinit _) fun htorn => hwhole ⟨nofun, htorn⟩

theorem step_follows {t : Socket} {e : Event} (h : Follows s ∧ Fresh s)
    (hwhole : ¬ TornStep c s e) (hstep : step c s e = some t) : Follows t ∧ Fresh t := by
  obtain ⟨h, hfresh⟩ := h
  cases e with
  | commit a =>
    obtain ⟨hnext, hs⟩ := dite_none_right_eq_some.mp hstep
    cases hs
    exact ⟨commit_follows h hnext.1 hnext.2, hfresh⟩
  | afterJoin watermark halted database =>
    obtain ⟨hjoined, hs⟩ := ite_none_left_eq_some.mp hstep
    cases hs
    have hfollows := afterJoin_follows h (hfresh (Bool.eq_false_iff.mpr hjoined)) hwhole
    exact ⟨⟨hfollows.pushed_eq, hfollows.covers, hfollows.head, hfollows.routed⟩, nofun⟩
  | broadcast a halted database =>
    obtain ⟨⟨hjoined, hstored⟩, rfl⟩ := ite_some_none_eq_some.mp hstep
    have hfollows := pushLive_follows h hstored fun hgap htorn => hwhole ⟨hgap, htorn⟩
    exact ⟨hfollows, fun hnot => absurd hnot (by simp [pushLive_joined, hjoined])⟩

/-! ## After a broadcast -/

/-- A gap read that brings the client nothing: the page lies below the activity, all of it is
halted, and the last `activitySet` did not say that more can be fetched. -/
def Silent (c : Config) (s : Socket) (halted : Activity → Bool) (a : Activity) : Prop :=
  s.lastSeq + 1 < a.seq ∧ s.lastHasMore ≠ some true ∧
    ∀ b ∈ (s.page c (.seq s.lastSeq)).1, b.seq < a.seq ∧ s.halts halted b = true

theorem pushActivities_lastHasMore {activities : List Activity}
    (hlast : activities.getLast? = some last) (hasMore : Bool) :
    (s.pushActivities halted activities hasMore).lastHasMore =
      if ∀ b ∈ activities, s.halts halted b = true then s.lastHasMore else some hasMore := by
  simp only [Socket.pushActivities, hlast, Socket.lastHasMore, Socket.activitySets,
    filter_eq_nil_iff, Bool.not_eq_true', Bool.not_eq_false]
  split_ifs
  · simp
  · simp [Push.hasMore]

/-- A gap read finds activities, and leaves some for later if it does not reach the one that
was broadcast. -/
theorem gap_page (c : Config) (hstored : s.transcript.Stored a) (hgap : s.lastSeq < a.seq) :
    ∃ last, (s.page c (.seq s.lastSeq)).1.getLast? = some last ∧
      (∀ b ∈ (s.page c (.seq s.lastSeq)).1, b.seq ≤ last.seq) ∧
      (last.seq < a.seq → (s.page c (.seq s.lastSeq)).2 = true) := by
  have ha : a ∈ s.following (some s.lastSeq) := mem_activitiesAfter.mpr ⟨hstored, hgap⟩
  have hsorted := activitiesAfter_pairwise (p := some s.lastSeq) s.transcript.distinct
  have hpage : (s.page c (.seq s.lastSeq)).1 = (s.following (some s.lastSeq)).take (limit c) :=
    page_fst_eq ..
  have hne : (s.following (some s.lastSeq)).take (limit c) ≠ [] := by
    rw [Ne, take_eq_nil_iff]
    rintro (h | h)
    · exact (limit_pos c).ne' h
    · exact ne_nil_of_mem ha h
  have hlast := getLast?_eq_some_getLast hne
  have hle := fun b => le_key_last (x := b) (hsorted.sublist (take_sublist (limit c) _)) hlast
  rw [hpage]
  refine ⟨_, hlast, hle, fun hbelow => ?_⟩
  refine (pageActivitiesSince_snd ..).trans (decide_eq_true ?_)
  -- a page that holds everything would hold the activity
  by_contra hall
  have hwhole := take_of_length_le (not_lt.mp hall)
  refine not_lt.mpr (hle a ?_) hbelow
  exact hwhole.symm ▸ ha

theorem pushLive_settles_iff (hstored : s.transcript.Stored a) :
    (a.seq ≤ (s.pushLive c halted .available a).lastSeq ∨
        (s.pushLive c halted .available a).lastHasMore = some true) ↔ ¬ Silent c s halted a := by
  unfold Socket.pushLive
  split_ifs with hnext hold
  · exact iff_of_true (.inl le_rfl) fun hsilent => hsilent.1.ne' hnext
  · exact iff_of_true (.inl hold) fun hsilent =>
      not_lt.mpr (hold.trans (Nat.le_succ _)) hsilent.1
  obtain ⟨last, hlast, hle, hmore⟩ := gap_page c hstored (not_le.mp hold)
  have hmoved : (s.replay c halted .available (.seq s.lastSeq)).lastSeq = last.seq := by
    simp only [Socket.replay, Socket.completes, if_true, Socket.pushActivities, hlast]
  have hsets : (s.replay c halted .available (.seq s.lastSeq)).lastHasMore =
      if ∀ b ∈ (s.page c (.seq s.lastSeq)).1, s.halts halted b = true then s.lastHasMore
      else some (s.page c (.seq s.lastSeq)).2 := by
    simp only [Socket.replay, Socket.completes, if_true]
    exact pushActivities_lastHasMore hlast _
  rw [hmoved, hsets]
  by_cases hreached : a.seq ≤ last.seq
  · exact iff_of_true (.inl hreached) fun hsilent =>
      not_lt.mpr hreached (hsilent.2.2 last (mem_of_getLast? hlast)).1
  · have hbelow := not_le.mp hreached
    rw [hmore hbelow]
    split_ifs with hhalts
    · constructor
      · rintro (h | h) hsilent
        · exact hreached h
        · exact hsilent.2.1 h
      · intro hnot
        by_contra hnone
        refine hnot ⟨by omega, fun h => hnone (.inr h), fun b hb => ⟨?_, hhalts b hb⟩⟩
        exact lt_of_le_of_lt (hle b hb) hbelow
    · exact iff_of_true (.inr rfl) fun hsilent => hhalts fun b hb => (hsilent.2.2 b hb).2

/-- In every run without a torn replay the activities are pushed in order, and none between the
start and the position of the socket is left out except those its middleware halted. A broadcast
leaves the socket at or above the activity, or the client with more to fetch, unless the gap read
is silent. -/
theorem socket_in_order (c : Config) (t : Transcript) (routed acknowledges : Bool) (es : List Event)
    (s : Socket) (hrun : run (step c) (.join t routed acknowledges) es = some s)
    (hwhole : Along (step c) (fun s e => ¬ TornStep c s e) (.join t routed acknowledges) es) :
    s.pushed.Pairwise (fun a b => a.seq < b.seq) ∧
      (∀ b ∈ s.pushed, (∀ k ∈ s.start, k < b.seq) ∧ b.seq ≤ s.lastSeq) ∧
      (∀ b, s.transcript.Stored b → (∀ k ∈ s.start, k < b.seq) → b.seq ≤ s.lastSeq →
        b ∈ s.pushed ∨ s.routed = true ∧ (b, false) ∈ s.log) ∧
      ∀ a halted u, step c s (.broadcast a halted .available) = some u →
        ((a.seq ≤ u.lastSeq ∨ u.lastHasMore = some true) ↔ ¬ Silent c s halted a) := by
  have hinit : Follows (.join t routed acknowledges) ∧ Fresh (.join t routed acknowledges) :=
    ⟨join_follows t routed acknowledges, fun _ => rfl⟩
  obtain ⟨hfollows, -⟩ := run_invariant_along step_follows hinit hwhole hrun
  have hpushed : ∀ b, b ∈ s.pushed ↔ (b, true) ∈ s.log := by
    intro b
    rw [hfollows.pushed_eq]
    simp
  refine ⟨?_, ?_, ?_, ?_⟩
  · rw [hfollows.pushed_eq, pairwise_map]
    exact hfollows.covers.increasing.filter _
  · intro b hb
    obtain ⟨hstart, k, hk, hle⟩ := hfollows.covers.range _ ((hpushed b).mp hb)
    exact ⟨hstart, some.inj hk ▸ hle⟩
  · intro b hb hstart hle
    obtain ⟨sent, hlog⟩ := hfollows.covers.covered b hb hstart ⟨s.lastSeq, rfl, hle⟩
    cases sent with
    | true => exact .inl ((hpushed b).mpr hlog)
    | false => exact .inr ⟨hfollows.routed _ hlog rfl, hlog⟩
  · intro a halted u hu
    obtain ⟨⟨-, hstored⟩, rfl⟩ := ite_some_none_eq_some.mp hu
    exact pushLive_settles_iff hstored

def missedBroadcast (database : Database) : List Event :=
  [.afterJoin none (fun _ => false) .available, .commit (numberedActivity 0),
    .commit (numberedActivity 1), .broadcast (numberedActivity 1) (fun _ => false) database]

theorem socket_in_order_missed_broadcast :
    ∃ s, run (step {}) (.join emptyTranscript false true) (missedBroadcast .available) = some s ∧
      s.pushed = [numberedActivity 0, numberedActivity 1] ∧
      s.pushed.Pairwise fun a b => a.seq < b.seq := by
  have hpushed : (run (step {}) (.join emptyTranscript false true)
      (missedBroadcast .available)).map Socket.pushed =
        some [numberedActivity 0, numberedActivity 1] := by decide +kernel
  obtain ⟨s, hrun, hs⟩ := map_eq_some_iff.mp hpushed
  exact ⟨s, hrun, hs, (socket_in_order {} emptyTranscript false true _ s hrun (by decide +kernel)).1⟩

/-- After 101 halted activities the broadcast of the next one pushes nothing and promises
nothing. A replay whose acknowledgement fails is pushed twice. -/
theorem halted_page_silent_and_torn_page_repeated :
    (run (step {}) (.join emptyTranscript true true)
        (.afterJoin none (fun _ => false) .available ::
          (List.range 102).map (fun i => .commit (numberedActivity i)) ++
          [.broadcast (numberedActivity 101) (fun a => a.seq ≤ 101) .available])).map
        (fun s => (s.lastSeq, s.lastHasMore, s.pushed)) = some (100, none, []) ∧
    (run (step {}) (.join emptyTranscript false true) (missedBroadcast .lostAfterRead ++
          [.broadcast (numberedActivity 1) (fun _ => false) .available])).map
        (fun s => s.pushed.map Activity.seq) = some [1, 2, 1, 2] := by
  constructor <;> decide +kernel

end Converger.ConversationSockets
