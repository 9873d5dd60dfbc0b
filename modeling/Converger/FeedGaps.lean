import Converger.Feed

/-!
# Gap fills

A live activity that is ahead of the position makes the feed read the missing range
first. The read asks for as many rows as the numbers differ, and the page size is
clamped, so what it returns depends on how many activities are stored in the range:
it stops short where more are stored than fit on a page, and it reaches the broadcast
activity itself where fewer are stored than the numbers suggest.
-/
namespace Converger.ProtocolFeed
open OrderedPages Pagination List

universe u
variable {V : Type u} {s p : ℕ} {conversationId : Uuid} {a b : Activity} {rows : List Activity}
  {feed : Feed V} {e : Activity × Option (Frame V)}

theorem mem_between :
    a ∈ between rows conversationId p s ↔
      (a ∈ rows ∧ a.conversationId = conversationId) ∧ p < a.seq ∧ a.seq < s := by
  simp [between, mem_activitiesAfter, and_assoc]

theorem between_pairwise (p s : ℕ) (h : DistinctSeqs conversationId rows) :
    (between rows conversationId p s).Pairwise fun a b => a.seq < b.seq :=
  (activitiesAfter_pairwise h).filter _

section
variable (h : DistinctSeqs conversationId rows)
  (hc : ∀ n, p < n → n < s → ∃ b ∈ rows, b.conversationId = conversationId ∧ b.seq = n)
include h hc

/-- Where every number strictly between `p` and `s` is stored, the rows between them carry
exactly these numbers. -/
theorem between_map_seq_of_contiguous :
    (between rows conversationId p s).map Activity.seq = List.range' (p + 1) (s - p - 1) := by
  have hsorted : ((between rows conversationId p s).map Activity.seq).Pairwise (· < ·) :=
    pairwise_map.mpr (between_pairwise p s h)
  refine @eq_of_mem_iff ℕ ℕ _ id _ _ hsorted pairwise_lt_range' fun n => ?_
  simp only [mem_map, mem_between, mem_range'_1]
  constructor
  · rintro ⟨b, ⟨-, hb⟩, rfl⟩
    omega
  · intro hn
    obtain ⟨b, hb, hconv, rfl⟩ := hc n (by omega) (by omega)
    exact ⟨b, ⟨⟨hb, hconv⟩, by omega, by omega⟩, rfl⟩

theorem between_length_of_contiguous : (between rows conversationId p s).length = s - p - 1 := by
  simpa using congrArg List.length (between_map_seq_of_contiguous h hc)

end

section Gap
variable (c : Config)

/-- How many rows the gap read before `s` asks for. -/
def gapLimit (feed : Feed V) (s : ℕ) : ℕ := min (s - feed.lastSeq - 1) c.activityMaxLimit

/-- The activities stored between the position and `s`. -/
def missing (rows : List Activity) (feed : Feed V) (s : ℕ) : List Activity :=
  between rows feed.conversationId feed.lastSeq s

theorem lastSeq_lt_of_mem_gap (hb : b ∈ gap c rows feed s) : feed.lastSeq < b.seq :=
  (mem_activitiesAfter.mp (mem_of_mem_take hb)).2

theorem gap_pairwise (h : DistinctSeqs feed.conversationId rows) (s : ℕ) :
    (gap c rows feed s).Pairwise fun a b => a.seq < b.seq :=
  (activitiesAfter_pairwise h).take

variable (h : DistinctSeqs feed.conversationId rows) (ha : a ∈ rows)
  (hconv : a.conversationId = feed.conversationId) (hp : feed.lastSeq < a.seq)
include h

theorem gap_eq_take_missing (hn : gapLimit c feed s ≤ (missing rows feed s).length) :
    gap c rows feed s = (missing rows feed s).take (gapLimit c feed s) :=
  take_eq_filter_take (activitiesAfter_pairwise h) hn

/-- Where no number is missing the gap read returns the next ones, up to its limit. -/
theorem gap_map_seq_of_contiguous
    (hc : ∀ n, feed.lastSeq < n → n < s → ∃ b ∈ rows, b.conversationId = feed.conversationId ∧ b.seq = n) :
    (gap c rows feed s).map Activity.seq =
      List.range' (feed.lastSeq + 1) (gapLimit c feed s) := by
  have hmin : gapLimit c feed s ≤ s - feed.lastSeq - 1 := min_le_left _ _
  have hle : gapLimit c feed s ≤ (missing rows feed s).length := by
    rw [missing, between_length_of_contiguous h hc]
    exact hmin
  rw [gap_eq_take_missing c h hle, map_take, missing, between_map_seq_of_contiguous h hc,
    take_range'_of_length_ge hmin]

include ha hconv hp

/-- The gap read stays below a stored activity exactly where it asks for no more rows
than are missing. -/
theorem gap_forall_lt_iff :
    (∀ b ∈ gap c rows feed a.seq, b.seq < a.seq) ↔
      gapLimit c feed a.seq ≤ (missing rows feed a.seq).length :=
  take_forall_lt_iff (activitiesAfter_pairwise h) (mem_activitiesAfter.mpr ⟨⟨ha, hconv⟩, hp⟩) le_rfl _

/-- A gap read that does not return the broadcast activity returns only earlier ones. -/
theorem gap_forall_lt_of_notMem (hg : a ∉ gap c rows feed a.seq) :
    ∀ b ∈ gap c rows feed a.seq, b.seq < a.seq := by
  intro b hb
  have hmem : a ∈ activitiesAfter rows feed.conversationId (some feed.lastSeq) :=
    mem_activitiesAfter.mpr ⟨⟨ha, hconv⟩, hp⟩
  rcases lt_trichotomy b.seq a.seq with hlt | heq | hgt
  · exact hlt
  · have hne := (activitiesAfter_pairwise (p := some feed.lastSeq) h).imp
      fun {x y : Activity} hxy => ne_of_lt hxy
    have hba : b = a := eq_of_key_eq hne hmem (mem_of_mem_take hb) heq
    exact absurd (hba ▸ hb) hg
  · exact absurd (mem_take_of_lt (activitiesAfter_pairwise h) hmem hb hgt) hg

/-- The gap read returns the missing activities, all of them and nothing else, exactly
where it asks for as many rows as are missing. -/
theorem gap_eq_missing_iff :
    gap c rows feed a.seq = missing rows feed a.seq ↔
      gapLimit c feed a.seq = (missing rows feed a.seq).length := by
  constructor
  · intro he
    have hlt : ∀ b ∈ gap c rows feed a.seq, b.seq < a.seq := by
      intro b hb
      exact (mem_between.mp (he ▸ hb)).2.2
    have hle := (gap_forall_lt_iff c h ha hconv hp).mp hlt
    have hlen := congrArg List.length he
    rw [gap_eq_take_missing c h hle, length_take] at hlen
    omega
  · intro hn
    rw [gap_eq_take_missing c h hn.le, hn, take_length]

end Gap

/-! ## What became of each activity -/

/-- Why `deliver` may produce no frame: the turn was sent on this connection, or
`prepare` returned `:skip`. -/
def Skippable (feed : Feed V) (b : Activity) : Prop :=
  b.seq ∈ feed.own ∨ ∃ p, feed.prepare = some p ∧ p.run b = none

/-- `deliver` was handed `b` exactly once; it pushed a frame for it or had a reason not to. -/
def Settled (feed : Feed V) (log : List (Activity × Option (Frame V))) (b : Activity) : Prop :=
  ∃ o, (log.filter fun e => e.1.seq = b.seq) = [(b, o)] ∧
    match o with
    | some f => f.seq = some b.seq
    | none => Skippable feed b

theorem skippable_of_render_eq_none {live prepared : Bool}
    (h : render feed live prepared b = none) : Skippable feed b := by
  simp only [render] at h
  split_ifs at h with hown
  · exact .inl hown
  · simp only [prepare, Option.map_eq_none_iff] at h
    split at h
    · simp at h
    · simp at h
    · exact .inr ⟨_, ‹_›, h⟩

theorem mem_deliverLog {live prepared : Bool} {as : List Activity}
    (he : e ∈ deliverLog feed live prepared as) :
    (∀ f ∈ e.2, f.seq = some e.1.seq) ∧ (e.2 = none → Skippable feed e.1) := by
  induction as generalizing feed with
  | nil => simp [deliverLog] at he
  | cons a as ih =>
    rcases mem_cons.mp he with rfl | he
    · exact ⟨fun f hf => render_seq hf, skippable_of_render_eq_none⟩
    · refine ⟨(ih he).1, fun hn => ((ih he).2 hn).imp ?_ id⟩
      exact fun hown => Finset.mem_of_mem_erase hown

theorem liveLog_eq (c : Config) (rows : List Activity) (prepared : Bool) (hp : feed.lastSeq < a.seq) :
    liveLog c rows feed a prepared =
      deliverLog feed true false (gap c rows feed a.seq) ++
        deliverLog ((gap c rows feed a.seq).foldl advance feed) true prepared [a] := by
  simp [liveLog, not_le.mpr hp, deliverLog]

theorem mem_liveLog {c : Config} {prepared : Bool} (he : e ∈ liveLog c rows feed a prepared) :
    (∀ f ∈ e.2, f.seq = some e.1.seq) ∧ (e.2 = none → Skippable feed e.1) := by
  by_cases hp : a.seq ≤ feed.lastSeq
  · simp [liveLog, hp] at he
  · rw [liveLog_eq c rows prepared (not_le.mp hp), mem_append] at he
    rcases he with he | he
    · exact mem_deliverLog he
    · refine ⟨(mem_deliverLog he).1, fun hn => ((mem_deliverLog he).2 hn).imp ?_ ?_⟩
      · exact fun hown => (mem_foldl_advance_own.mp hown).1
      · simp

theorem settled_of_mem {log : List (Activity × Option (Frame V))}
    (hd : log.Pairwise fun x y => x.1.seq ≠ y.1.seq) (he : e ∈ log) (hf : ∀ f ∈ e.2, f.seq = some e.1.seq)
    (hn : e.2 = none → Skippable feed e.1) : Settled feed log e.1 := by
  have hkey : (log.filter fun x => x.1.seq = e.1.seq) = [e] := filter_key_eq hd he
  refine ⟨e.2, hkey, ?_⟩
  cases ho : e.2 with
  | none => exact hn ho
  | some f => exact hf f ho

/-- After the broadcast of `a` the position is at least `a.seq`, and every stored activity
the position moved past is settled. -/
def SettlesAll (c : Config) (rows : List Activity) (feed : Feed V) (a : Activity)
    (prepared : Bool) : Prop :=
  let feed' := (live c rows feed (.canonical a) prepared).2
  a.seq ≤ feed'.lastSeq ∧
    ∀ b ∈ rows, b.conversationId = feed.conversationId →
      feed.lastSeq < b.seq → b.seq ≤ feed'.lastSeq →
      Settled feed (liveLog c rows feed a prepared) b

section Live
variable {c : Config} (prepared : Bool)
  (h : DistinctSeqs feed.conversationId rows) (ha : a ∈ rows)
  (hconv : a.conversationId = feed.conversationId) (hp : feed.lastSeq < a.seq)

theorem live_lastSeq_of_gap_lt (hp : feed.lastSeq < a.seq)
    (hg : ∀ b ∈ gap c rows feed a.seq, b.seq < a.seq) :
    (live c rows feed (.canonical a) prepared).2.lastSeq = a.seq := by
  rw [live_eq, liveLog_map_fst c rows prepared hp]
  exact foldl_advance_lastSeq_concat feed hp.le fun b hb => (hg b hb).le

include h

theorem liveLog_pairwise (hp : feed.lastSeq < a.seq) (hg : ∀ b ∈ gap c rows feed a.seq, b.seq < a.seq) :
    (liveLog c rows feed a prepared).Pairwise fun x y => x.1.seq < y.1.seq := by
  have hmap : ((liveLog c rows feed a prepared).map Prod.fst).Pairwise
      fun x y => x.seq < y.seq := by
    rw [liveLog_map_fst c rows prepared hp, pairwise_append]
    exact ⟨gap_pairwise c h _, pairwise_singleton _ _, by simpa using hg⟩
  rwa [pairwise_map] at hmap

theorem settled_of_mem_liveLog (hp : feed.lastSeq < a.seq) (hg : ∀ b ∈ gap c rows feed a.seq, b.seq < a.seq)
    (hb : b ∈ gap c rows feed a.seq ++ [a]) : Settled feed (liveLog c rows feed a prepared) b := by
  rw [← liveLog_map_fst c rows prepared hp] at hb
  obtain ⟨e, he, rfl⟩ := mem_map.mp hb
  have hne := (liveLog_pairwise prepared h hp hg).imp fun hxy => ne_of_lt hxy
  exact settled_of_mem hne he (mem_liveLog he).1 (mem_liveLog he).2

include ha hconv hp

/-- A gap read that returns what is missing hands over everything up to the broadcast
activity. -/
theorem mem_handed_of_le (hg : gap c rows feed a.seq = missing rows feed a.seq)
    (hb : b ∈ rows) (hbc : b.conversationId = feed.conversationId) (hpb : feed.lastSeq < b.seq)
    (hba : b.seq ≤ a.seq) : b ∈ gap c rows feed a.seq ++ [a] := by
  rcases lt_or_eq_of_le hba with hba | hba
  · refine mem_append_left _ ?_
    rw [hg]
    exact mem_between.mpr ⟨⟨hb, hbc⟩, hpb, hba⟩
  · have hne := (activitiesAfter_pairwise (p := some feed.lastSeq) h).imp
      fun {x y : Activity} hxy => ne_of_lt hxy
    have hmem : ∀ x ∈ rows, x.conversationId = feed.conversationId → feed.lastSeq < x.seq →
        x ∈ activitiesAfter rows feed.conversationId (some feed.lastSeq) :=
      fun x hx hxc hpx => mem_activitiesAfter.mpr ⟨⟨hx, hxc⟩, hpx⟩
    have hba : b = a := eq_of_key_eq hne (hmem a ha hconv hp) (hmem b hb hbc hpb) hba
    simp [hba]

theorem settlesAll_of_gap_eq (hg : gap c rows feed a.seq = missing rows feed a.seq) :
    SettlesAll c rows feed a prepared := by
  have hlt : ∀ b ∈ gap c rows feed a.seq, b.seq < a.seq := by
    intro b hb
    exact (mem_between.mp (hg ▸ hb)).2.2
  have hlast := live_lastSeq_of_gap_lt prepared hp hlt
  refine ⟨hlast.ge, fun b hb hbc hpb hbl => settled_of_mem_liveLog prepared h hp hlt ?_⟩
  exact mem_handed_of_le h ha hconv hp hg hb hbc hpb (hlast ▸ hbl)

theorem gap_eq_of_settlesAll (hs : SettlesAll c rows feed a prepared) :
    gap c rows feed a.seq = missing rows feed a.seq := by
  obtain ⟨hle, hall⟩ := hs
  have hhanded : ∀ b ∈ rows, b.conversationId = feed.conversationId → feed.lastSeq < b.seq →
      b.seq ≤ a.seq →
      ((gap c rows feed a.seq ++ [a]).filter fun x => x.seq = b.seq) = [b] := by
    intro b hb hbc hpb hba
    obtain ⟨o, ho, -⟩ := hall b hb hbc hpb (hba.trans hle)
    rw [← liveLog_map_fst c rows prepared hp, filter_map]
    exact congrArg (List.map Prod.fst) ho
  -- the broadcast activity is handed over once, at the end, so the gap does not hold it
  have hnot : a ∉ gap c rows feed a.seq := by
    intro hmem
    have hnone : ∀ x ∈ gap c rows feed a.seq, x.seq ≠ a.seq := by
      simpa [filter_append] using hhanded a ha hconv hp le_rfl
    exact hnone a hmem rfl
  have hlt := gap_forall_lt_of_notMem c h ha hconv hp hnot
  refine eq_of_mem_iff (gap_pairwise c h _) (between_pairwise _ _ h) fun b => ?_
  constructor
  · intro hb
    have hb' := mem_activitiesAfter.mp (mem_of_mem_take hb)
    exact mem_between.mpr ⟨hb'.1, hb'.2, hlt b hb⟩
  · intro hb
    obtain ⟨⟨hb, hbc⟩, hpb, hba⟩ := mem_between.mp hb
    have hmem : b ∈ (gap c rows feed a.seq ++ [a]).filter fun x => x.seq = b.seq := by
      simp [hhanded b hb hbc hpb hba.le]
    rcases mem_snoc.mp (mem_filter.mp hmem).1 with hmem | hmem
    · exact hmem
    · rw [hmem] at hba
      exact absurd hba (lt_irrefl _)

/-- A broadcast settles everything it moves the position past exactly where the gap
read asks for as many rows as are missing. -/
theorem settlesAll_iff :
    SettlesAll c rows feed a prepared ↔
      gapLimit c feed a.seq = (missing rows feed a.seq).length := by
  rw [← gap_eq_missing_iff c h ha hconv hp]
  exact ⟨gap_eq_of_settlesAll prepared h ha hconv hp, settlesAll_of_gap_eq prepared h ha hconv hp⟩

end Live

/-- A broadcast settles every stored activity it moves the position past exactly where as
many activities are stored in the range as the gap read asks for; in a transcript that
stores every number of the range, exactly where the gap fits on one page. -/
theorem live_settles_range_iff (c : Config) {rows : List Activity} {feed : Feed V} {a : Activity}
    (prepared : Bool) (h : DistinctSeqs feed.conversationId rows) (ha : a ∈ rows)
    (hconv : a.conversationId = feed.conversationId) (hp : feed.lastSeq < a.seq) :
    (live c rows feed (.canonical a) prepared).1 =
        (liveLog c rows feed a prepared).filterMap Prod.snd ∧
      (SettlesAll c rows feed a prepared ↔ min (a.seq - feed.lastSeq - 1) c.activityMaxLimit =
          (between rows feed.conversationId feed.lastSeq a.seq).length) ∧
      ((∀ n, feed.lastSeq < n → n < a.seq → ∃ b ∈ rows, b.conversationId = feed.conversationId ∧ b.seq = n) →
        (SettlesAll c rows feed a prepared ↔ a.seq - feed.lastSeq - 1 ≤ c.activityMaxLimit)) := by
  have hiff := settlesAll_iff (c := c) prepared h ha hconv hp
  refine ⟨by rw [live_eq], hiff, fun hc => hiff.trans ?_⟩
  rw [missing, between_length_of_contiguous h hc, gapLimit, min_eq_left_iff]

/-- A transcript that stores the numbers `1` to `n`. -/
def numbered (conversationId : Uuid) (n : ℕ) : List Activity :=
  (List.range n).map fun i => {id := i, conversationId := conversationId, seq := i + 1}

theorem mem_numbered {n : ℕ} :
    a ∈ numbered conversationId n ↔
      ∃ i < n, a = {id := i, conversationId := conversationId, seq := i + 1} := by
  simp only [numbered, mem_map, mem_range, eq_comm]

theorem numbered_distinctSeqs (conversationId : Uuid) (n : ℕ) :
    DistinctSeqs conversationId (numbered conversationId n) := by
  have hconv : ofConversation conversationId (numbered conversationId n) =
      numbered conversationId n := by
    refine filter_eq_self.mpr fun a ha => ?_
    obtain ⟨i, -, rfl⟩ := mem_numbered.mp ha
    simp
  rw [DistinctSeqs, hconv, numbered, map_map]
  exact nodup_range.map fun _ _ hij => Nat.succ.inj hij

theorem live_settles_range_iff_three :
    SettlesAll {} (numbered 7 3) ({conversationId := 7, userId := ()} : Feed Unit)
      {id := 2, conversationId := 7, seq := 3} false :=
  (live_settles_range_iff {} false (numbered_distinctSeqs 7 3) (by decide) rfl
    (by decide)).2.1.mpr (by decide)

/-- A client at position 0 that missed 1001 broadcasts: the read before number 1002 stops
at 1000 and the position moves past 1001. -/
theorem live_skips_past_page :
    ¬ SettlesAll {} (numbered 7 1002) ({conversationId := 7, userId := ()} : Feed Unit)
      {id := 1001, conversationId := 7, seq := 1002} false := by
  have hmem : ({id := 1001, conversationId := 7, seq := 1002} : Activity) ∈ numbered 7 1002 :=
    mem_numbered.mpr ⟨1001, by omega, rfl⟩
  have hall : ∀ n, 0 < n → n < 1002 →
      ∃ b ∈ numbered 7 1002, b.conversationId = 7 ∧ b.seq = n := by
    intro n hn hlt
    exact ⟨_, mem_numbered.mpr ⟨n - 1, by omega, rfl⟩, rfl, by simp; omega⟩
  have hlen := between_length_of_contiguous (numbered_distinctSeqs 7 1002) hall
  intro hs
  have hlimit := (settlesAll_iff false ?_ hmem rfl (by simp)).mp hs
  · simp [gapLimit, missing, hlen] at hlimit
  · exact numbered_distinctSeqs 7 1002

end Converger.ProtocolFeed
