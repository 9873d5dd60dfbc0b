import Converger.FeedGaps
import Converger.GuardedRuns

/-!
# A connection over a whole run

The transcript of a conversation grows by commits and loses rows to deletes and
retention, while broadcasts of stored activities reach the connection in any order,
repeated or not at all. The log of a connection holds every activity the feed handed
to `deliver`, with the frame it became.
-/
namespace Converger.ProtocolFeed
open Pagination GuardedRuns List Option

universe u
variable {V : Type u} {a : Activity} {prepared : Bool}

/-- The stored activities of a conversation and the highest number given out in it. -/
structure Transcript where
  conversationId : Uuid
  rows : List Activity
  lastSeq : ℕ
  distinct : DistinctSeqs conversationId rows
  le_lastSeq : ∀ a ∈ rows, a.conversationId = conversationId → a.seq ≤ lastSeq

namespace Transcript

def Stored (t : Transcript) (a : Activity) : Prop :=
  a ∈ t.rows ∧ a.conversationId = t.conversationId

instance (t : Transcript) (a : Activity) : Decidable (t.Stored a) :=
  inferInstanceAs (Decidable (_ ∧ _))

def commit (t : Transcript) (a : Activity) (hc : a.conversationId = t.conversationId)
    (hs : a.seq = t.lastSeq + 1) : Transcript where
  conversationId := t.conversationId
  rows := a :: t.rows
  lastSeq := t.lastSeq + 1
  distinct := by
    have hfresh : a.seq ∉ (ofConversation t.conversationId t.rows).map Activity.seq := by
      intro hmem
      obtain ⟨b, hb, hab⟩ := List.mem_map.mp hmem
      have hle := t.le_lastSeq b (mem_ofConversation.mp hb).1 (mem_ofConversation.mp hb).2
      omega
    simpa [DistinctSeqs, ofConversation, hc] using ⟨by simpa [ofConversation] using hfresh, t.distinct⟩
  le_lastSeq := by
    intro b hb hbc
    rcases mem_cons.mp hb with rfl | hb
    · exact hs.le
    · exact (t.le_lastSeq b hb hbc).trans (Nat.le_succ _)

/-- A delete, by an operator or by retention, removes a row and keeps the counter. -/
def delete (t : Transcript) (id : Uuid) : Transcript where
  conversationId := t.conversationId
  rows := t.rows.filter fun a => a.id ≠ id
  lastSeq := t.lastSeq
  distinct := by
    have hsub : (ofConversation t.conversationId (t.rows.filter fun a => a.id ≠ id)).Sublist
        (ofConversation t.conversationId t.rows) := filter_sublist.filter _
    exact t.distinct.sublist (hsub.map _)
  le_lastSeq := fun b hb => t.le_lastSeq b (mem_filter.mp hb).1

end Transcript

/-- One connection: what is stored, its feed, and everything that happened on it. -/
structure Connection (V : Type u) where
  transcript : Transcript
  feed : Feed V
  log : List (Activity × Option (Frame V)) := []
  frames : List (Frame V) := []
  same : feed.conversationId = transcript.conversationId
  frames_eq : frames = log.filterMap Prod.snd

inductive Event where
  | commit (activity : Activity)
  | delete (id : Uuid)
  | broadcast (payload : Payload) (prepared : Bool)
  | own (seq : ℕ)

theorem live_conversationId (c : Config) (rows : List Activity) (feed : Feed V) (payload : Payload)
    (prepared : Bool) : (live c rows feed payload prepared).2.conversationId = feed.conversationId := by
  cases payload with
  | unnumbered => rfl
  | canonical a => rw [live_eq, foldl_advance_conversationId]

/-- What a payload makes the feed hand to `deliver`. -/
def payloadLog (c : Config) (rows : List Activity) (feed : Feed V) (payload : Payload)
    (prepared : Bool) : List (Activity × Option (Frame V)) :=
  match payload with
  | .canonical a => liveLog c rows feed a prepared
  | .unnumbered => []

theorem live_fst (c : Config) (rows : List Activity) (feed : Feed V) (payload : Payload)
    (prepared : Bool) :
    (live c rows feed payload prepared).1 =
      (payloadLog c rows feed payload prepared).filterMap Prod.snd := by
  cases payload with
  | unnumbered => rfl
  | canonical a => rw [live_eq, payloadLog]

namespace Connection

theorem distinctSeqs (s : Connection V) : DistinctSeqs s.feed.conversationId s.transcript.rows := by
  rw [s.same]
  exact s.transcript.distinct

def receive (c : Config) (s : Connection V) (payload : Payload) (prepared : Bool) :
    Connection V where
  transcript := s.transcript
  feed := (live c s.transcript.rows s.feed payload prepared).2
  log := s.log ++ payloadLog c s.transcript.rows s.feed payload prepared
  frames := s.frames ++ (live c s.transcript.rows s.feed payload prepared).1
  same := (live_conversationId c _ _ payload prepared).trans s.same
  frames_eq := by rw [live_fst, s.frames_eq, filterMap_append]

theorem receive_of_le {c : Config} (s : Connection V)
    (h : a.seq ≤ s.feed.lastSeq) : s.receive c (.canonical a) prepared = s := by
  cases s
  simp [receive, payloadLog, liveLog, live, h]

def own (s : Connection V) (seq : ℕ) : Connection V where
  transcript := s.transcript
  feed := ProtocolFeed.own s.feed seq
  log := s.log
  frames := s.frames
  same := (own_conversationId s.feed seq).trans s.same
  frames_eq := s.frames_eq

end Connection

/-- One event. A commit takes the next number; only stored activities are broadcast. -/
def step (c : Config) (s : Connection V) : Event → Option (Connection V)
  | .commit a =>
    if h : a.conversationId = s.transcript.conversationId ∧ a.seq = s.transcript.lastSeq + 1 then
      some {s with transcript := s.transcript.commit a h.1 h.2}
    else none
  | .delete id => some {s with transcript := s.transcript.delete id}
  | .broadcast (.canonical a) prepared =>
    if s.transcript.Stored a then some (s.receive c (.canonical a) prepared) else none
  | .broadcast .unnumbered prepared => some (s.receive c .unnumbered prepared)
  | .own seq => some (s.own seq)

/-- The gap read before a broadcast activity asks for no more rows than are missing. -/
def GapBelow (c : Config) (s : Connection V) : Event → Prop
  | .broadcast (.canonical a) _ =>
    min (a.seq - s.feed.lastSeq - 1) c.activityMaxLimit ≤
      (between s.transcript.rows s.feed.conversationId s.feed.lastSeq a.seq).length
  | _ => True

instance (c : Config) (s : Connection V) (e : Event) : Decidable (GapBelow c s e) :=
  match e with
  | .broadcast (.canonical _) _ => inferInstanceAs (Decidable (_ ≤ _))
  | .broadcast .unnumbered _ => .isTrue trivial
  | .commit _ => .isTrue trivial
  | .delete _ => .isTrue trivial
  | .own _ => .isTrue trivial

section Runs
variable {c : Config} {s t : Connection V} {e : Event} {es : List Event}

theorem step_broadcast_eq_some :
    step c s (.broadcast (.canonical a) prepared) = some t ↔
      s.transcript.Stored a ∧ s.receive c (.canonical a) prepared = t := by
  simp only [step, ite_none_right_eq_some, Option.some.injEq]

/-- Whatever is not the broadcast of an activity leaves the log and the position alone. -/
theorem step_quiet (he : ∀ a prepared, e ≠ .broadcast (.canonical a) prepared)
    (h : step c s e = some t) : t.log = s.log ∧ t.feed.lastSeq = s.feed.lastSeq := by
  cases e with
  | commit a =>
    simp only [step, dite_none_right_eq_some, Option.some.injEq] at h
    obtain ⟨-, rfl⟩ := h
    exact ⟨rfl, rfl⟩
  | delete id => exact some.inj h ▸ ⟨rfl, rfl⟩
  | broadcast payload prepared =>
    cases payload with
    | canonical a => exact absurd rfl (he a prepared)
    | unnumbered => exact some.inj h ▸ ⟨append_nil _, rfl⟩
  | own seq => exact some.inj h ▸ ⟨rfl, own_lastSeq s.feed seq⟩

theorem step_log_isPrefix (h : step c s e = some t) : s.log <+: t.log := by
  by_cases he : ∃ a prepared, e = .broadcast (.canonical a) prepared
  · obtain ⟨a, prepared, rfl⟩ := he
    obtain ⟨-, rfl⟩ := step_broadcast_eq_some.mp h
    exact prefix_append _ _
  · push Not at he
    exact (step_quiet he h).1 ▸ prefix_rfl

/-- What was handed to `deliver` is in increasing order and below the position, and a
frame carries the number of its activity. -/
structure Ordered (s : Connection V) : Prop where
  increasing : s.log.Pairwise fun x y => x.1.seq < y.1.seq
  le_lastSeq : ∀ x ∈ s.log, x.1.seq ≤ s.feed.lastSeq
  frame_seq : ∀ x ∈ s.log, ∀ f ∈ x.2, f.seq = some x.1.seq

theorem Ordered.receive (hs : Ordered s)
    (ha : s.transcript.Stored a) (hgap : GapBelow c s (.broadcast (.canonical a) prepared)) :
    Ordered (s.receive c (.canonical a) prepared) := by
  rcases le_or_gt a.seq s.feed.lastSeq with hle | hlt
  · rwa [s.receive_of_le hle]
  · have hbelow := (gap_forall_lt_iff c s.distinctSeqs ha.1 (ha.2.trans s.same.symm) hlt).mpr hgap
    have hnew : ∀ x ∈ liveLog c s.transcript.rows s.feed a prepared,
        s.feed.lastSeq < x.1.seq ∧ x.1.seq ≤ a.seq := by
      intro x hx
      have hmem := List.mem_map_of_mem (f := Prod.fst) hx
      rw [liveLog_map_fst c _ prepared hlt, mem_append, mem_singleton] at hmem
      rcases hmem with hmem | hmem
      · exact ⟨lastSeq_lt_of_mem_gap c hmem, (hbelow _ hmem).le⟩
      · rw [hmem]
        exact ⟨hlt, le_rfl⟩
    have hlast := live_lastSeq_of_gap_lt prepared hlt hbelow
    constructor
    · refine pairwise_append.mpr ⟨hs.increasing, liveLog_pairwise prepared s.distinctSeqs hlt hbelow, ?_⟩
      exact fun x hx y hy => lt_of_le_of_lt (hs.le_lastSeq x hx) (hnew y hy).1
    · intro x hx
      simp only [Connection.receive, hlast]
      rcases mem_append.mp hx with hx | hx
      · exact (hs.le_lastSeq x hx).trans hlt.le
      · exact (hnew x hx).2
    · exact forall_mem_append.mpr ⟨hs.frame_seq, fun x hx => (mem_liveLog hx).1⟩

theorem Ordered.step (hs : Ordered s) (hgap : GapBelow c s e) (h : step c s e = some t) :
    Ordered t := by
  by_cases he : ∃ a prepared, e = .broadcast (.canonical a) prepared
  · obtain ⟨a, prepared, rfl⟩ := he
    obtain ⟨ha, rfl⟩ := step_broadcast_eq_some.mp h
    exact hs.receive ha hgap
  · push Not at he
    obtain ⟨hlog, hlast⟩ := step_quiet he h
    exact ⟨hlog ▸ hs.increasing, hlog ▸ hlast ▸ hs.le_lastSeq, hlog ▸ hs.frame_seq⟩

theorem frameSeqs_sublist {log : List (Activity × Option (Frame V))}
    (h : ∀ x ∈ log, ∀ f ∈ x.2, f.seq = some x.1.seq) :
    ((log.filterMap Prod.snd).filterMap Frame.seq).Sublist (log.map fun x => x.1.seq) := by
  induction log with
  | nil => exact nil_sublist _
  | cons x log ih =>
    have hlog := ih fun y hy => h y (mem_cons_of_mem _ hy)
    obtain ⟨a, o⟩ := x
    cases o with
    | none => simpa using hlog.cons _
    | some f =>
      have hf : f.seq = some a.seq := h _ mem_cons_self f rfl
      simpa [hf] using hlog

theorem Ordered.frames_increasing (hs : Ordered s) :
    (s.frames.filterMap Frame.seq).Pairwise (· < ·) := by
  rw [s.frames_eq]
  exact (pairwise_map.mpr hs.increasing).sublist (frameSeqs_sublist hs.frame_seq)

theorem gapBelow_of_increasing (h : step c s e = some t)
    (ht : t.log.Pairwise fun x y => x.1.seq < y.1.seq) : GapBelow c s e := by
  by_cases he : ∃ a prepared, e = .broadcast (.canonical a) prepared
  · obtain ⟨a, prepared, rfl⟩ := he
    obtain ⟨ha, rfl⟩ := step_broadcast_eq_some.mp h
    rcases le_or_gt a.seq s.feed.lastSeq with hle | hlt
    · simp [GapBelow, Nat.sub_eq_zero_of_le hle]
    · have hnew := (pairwise_append.mp ht).2.1
      have hmap : ((payloadLog c s.transcript.rows s.feed (.canonical a) prepared).map
          Prod.fst).Pairwise fun x y => x.seq < y.seq := pairwise_map.mpr hnew
      rw [payloadLog, liveLog_map_fst c _ prepared hlt, pairwise_append] at hmap
      refine (gap_forall_lt_iff c s.distinctSeqs ha.1 (ha.2.trans s.same.symm) hlt).mp ?_
      intro b hb
      exact hmap.2.2 b hb a (mem_singleton_self a)
  · cases e with
    | broadcast payload prepared =>
      cases payload with
      | canonical a => exact absurd ⟨a, prepared, rfl⟩ he
      | unnumbered => trivial
    | commit a => trivial
    | delete id => trivial
    | own seq => trivial

theorem along_gapBelow_of_increasing (h : run (step c) s es = some t)
    (ht : t.log.Pairwise fun x y => x.1.seq < y.1.seq) : Along (step c) (GapBelow c) s es := by
  have hstep : ∀ (m : Connection V) e n, True → True → step c m e = some n → True ∧
      (n.log.Pairwise (fun x y => x.1.seq < y.1.seq) →
        m.log.Pairwise (fun x y => x.1.seq < y.1.seq) ∧ GapBelow c m e) := by
    intro m e n _ _ hn
    refine ⟨trivial, fun hlog => ?_⟩
    exact ⟨hlog.sublist (step_log_isPrefix hn).sublist, gapBelow_of_increasing hn hlog⟩
  exact (along_of_run hstep trivial (fun _ _ => trivial) h ht).2

end Runs

/-- Over a whole run the activities handed to `deliver` have increasing numbers exactly
where no gap read reaches the activity it precedes; the frames then have, too. -/
theorem handed_increasing_iff (c : Config) {s t : Connection V} {es : List Event}
    (hs : s.log = []) (h : run (step c) s es = some t) :
    (t.log.Pairwise (fun x y => x.1.seq < y.1.seq) ↔ Along (step c) (GapBelow c) s es) ∧
      (Along (step c) (GapBelow c) s es → (t.frames.filterMap Frame.seq).Pairwise (· < ·)) := by
  have hinc : Along (step c) (GapBelow c) s es → Ordered t := by
    intro hgap
    have h₀ : Ordered s := ⟨by simp [hs], by simp [hs], by simp [hs]⟩
    exact run_invariant_along (fun hm hg hn => hm.step hg hn) h₀ hgap h
  exact ⟨⟨along_gapBelow_of_increasing h, fun hgap => (hinc hgap).increasing⟩,
    fun hgap => (hinc hgap).frames_increasing⟩

/-- A connection at position `p` over the given transcript. -/
def Connection.fresh (t : Transcript) (p : ℕ) : Connection Unit where
  transcript := t
  feed := {conversationId := t.conversationId, userId := (), lastSeq := p}
  same := rfl
  frames_eq := rfl

def holed : Transcript where
  conversationId := 7
  rows := [1, 5, 6].map fun n => {id := n, conversationId := 7, seq := n}
  lastSeq := 6
  distinct := by decide
  le_lastSeq := by decide

def activityFive : Activity := {id := 5, conversationId := 7, seq := 5}

theorem handed_increasing_iff_holed :
    ∃ t, run (step {}) (Connection.fresh holed 4)
        [.broadcast (.canonical activityFive) false] = some t ∧
      t.log.Pairwise fun x y => x.1.seq < y.1.seq := by
  refine ⟨(Connection.fresh holed 4).receive {} (.canonical activityFive) false, rfl, ?_⟩
  have hrun : run (step {}) (Connection.fresh holed 4)
      [.broadcast (.canonical activityFive) false] = some _ := rfl
  exact (handed_increasing_iff {} rfl hrun).1.mpr ⟨by decide, fun _ _ => trivial⟩

/-- From position 1 the broadcast of number 5 makes the feed push 5, 6 and 5 again. -/
theorem live_repeats_over_hole :
    (run (step {}) (Connection.fresh holed 1) [.broadcast (.canonical activityFive) false]).map
      (fun t => (t.log.map fun x => x.1.seq, t.frames.filterMap Frame.seq)) =
      some ([5, 6, 5], [5, 6, 5]) := by
  decide

end Converger.ProtocolFeed
