import Converger.ClientConversation

/-!
# Frames and the watermark of the client

The watermark is the end of the seqs that have arrived without a gap, as frames or acks, and a frame
is handed to the application on its first arrival. The client keeps its own seqs when a conversation
is replaced or started over, and drops another's frame that arrives above the watermark with one of
them.
-/
namespace Converger.ClientConversation
open GuardedRuns List

namespace Inbox

variable {i : Inbox} {seq k : ℕ} {id : Uuid} {cfg : Config}

def Arrived (i : Inbox) (seq : ℕ) : Prop := seq ∈ i.received ∨ seq ∈ i.acked

/-- The watermark and the seqs above it, between the iterations of the loop. -/
structure Tracks (i : Inbox) : Prop where
  start_le : i.start ≤ i.watermark
  below : ∀ k, i.start < k → k ≤ i.watermark → i.Arrived k
  seen : ∀ k, k ∈ i.seen ↔ i.Arrived k ∧ i.watermark < k

/-! ### The loop -/

theorem drain_frame (fuel : ℕ) (i : Inbox) :
    (drain fuel i).received = i.received ∧ (drain fuel i).acked = i.acked ∧
      (drain fuel i).emitted = i.emitted ∧ (drain fuel i).epoch = i.epoch ∧
      (drain fuel i).start = i.start ∧ (drain fuel i).ownIds = i.ownIds := by
  induction fuel generalizing i with
  | zero => exact ⟨rfl, rfl, rfl, rfl, rfl, rfl⟩
  | succ fuel ih =>
    unfold drain
    split
    · exact ih _
    · exact ⟨rfl, rfl, rfl, rfl, rfl, rfl⟩

theorem Tracks.drain (h : i.Tracks) (fuel : ℕ) : (drain fuel i).Tracks := by
  induction fuel generalizing i with
  | zero => exact h
  | succ fuel ih =>
    unfold Inbox.drain
    split
    · rename_i hnext
      apply ih
      refine ⟨Nat.le_succ_of_le h.start_le, fun k hlow hhigh => ?_, fun k => ?_⟩
      · rcases Nat.le_succ_iff.mp hhigh with hle | rfl
        · exact h.below k hlow hle
        · exact ((h.seen _).mp hnext).1
      · simp only [mem_filter, h.seen, decide_eq_true_eq]
        constructor
        · rintro ⟨⟨harrived, hlt⟩, hne⟩
          exact ⟨harrived, by omega⟩
        · rintro ⟨harrived, hlt⟩
          exact ⟨⟨harrived, by omega⟩, by omega⟩
    · exact h

theorem drain_gap {fuel : ℕ} (hfuel : i.seen.length ≤ fuel) :
    (drain fuel i).watermark + 1 ∉ (drain fuel i).seen := by
  induction fuel generalizing i with
  | zero =>
    have hnil : i.seen = [] := length_eq_zero_iff.mp (Nat.le_zero.mp hfuel)
    simp [drain, hnil]
  | succ fuel ih =>
    unfold drain
    split
    · rename_i hnext
      apply ih
      have hshorter : (i.seen.filter (· ≠ i.watermark + 1)).length < i.seen.length :=
        length_filter_lt_length_iff_exists.mpr ⟨_, hnext, by simp⟩
      exact Nat.le_of_lt_succ (Nat.lt_of_lt_of_le hshorter hfuel)
    · assumption

theorem markSeen_frame (i : Inbox) (seq : ℕ) :
    (i.markSeen seq).received = i.received ∧ (i.markSeen seq).acked = i.acked ∧
      (i.markSeen seq).emitted = i.emitted ∧ (i.markSeen seq).epoch = i.epoch ∧
      (i.markSeen seq).start = i.start ∧ (i.markSeen seq).ownIds = i.ownIds := by
  unfold markSeen
  split
  · exact ⟨rfl, rfl, rfl, rfl, rfl, rfl⟩
  · exact drain_frame _ _

/-- Marking the seq that has just arrived, where the others are tracked already. -/
theorem Tracks.markSeen {received acked : List ℕ} (h : i.Tracks)
    (harrived : ∀ k, {i with received, acked}.Arrived k ↔ i.Arrived k ∨ k = seq) :
    ({i with received, acked}.markSeen seq).Tracks := by
  have hbelow : ∀ k, i.start < k → k ≤ i.watermark → {i with received, acked}.Arrived k :=
    fun k hlow hhigh => (harrived k).mpr (.inl (h.below k hlow hhigh))
  unfold Inbox.markSeen
  split
  · rename_i hlow
    refine ⟨h.start_le, hbelow, fun k => ?_⟩
    rw [harrived]
    refine (h.seen k).trans ⟨fun hk => ⟨.inl hk.1, hk.2⟩, fun hk => ⟨hk.1.resolve_right ?_, hk.2⟩⟩
    rintro rfl
    exact Nat.not_lt.mpr hlow hk.2
  · rename_i hlow
    apply Tracks.drain
    refine ⟨h.start_le, hbelow, fun k => ?_⟩
    -- the seq is in the list now, whether or not it was before
    have hmem : (k ∈ if seq ∈ i.seen then i.seen else i.seen ++ [seq]) ↔ k ∈ i.seen ∨ k = seq := by
      split
      · rename_i hold
        exact ⟨.inl, fun hk => hk.elim id fun heq => heq ▸ hold⟩
      · exact mem_snoc
    rw [hmem, h.seen]
    refine Iff.trans ?_ (and_congr_left fun _ => (harrived k).symm)
    constructor
    · rintro (hk | rfl)
      · exact ⟨.inl hk.1, hk.2⟩
      · exact ⟨.inr rfl, Nat.not_le.mp hlow⟩
    · rintro ⟨hk, hlt⟩
      exact hk.imp_left fun hk => ⟨hk, hlt⟩

theorem gap_markSeen (hgap : i.watermark + 1 ∉ i.seen) (seq : ℕ) :
    (i.markSeen seq).watermark + 1 ∉ (i.markSeen seq).seen := by
  unfold markSeen
  split
  · exact hgap
  · exact drain_gap (Nat.le_refl _)

/-! ### The invariant -/

structure Inv (cfg : Config) (i : Inbox) : Prop where
  tracks : i.Tracks
  gap : i.watermark + 1 ∉ i.seen
  acked : ∀ seq ∈ i.acked, cfg.own (cfg.log i.epoch seq)
  ownIds : ∀ id ∈ i.ownIds, cfg.own id
  emitted : ∀ seq ∈ i.emitted, seq ∈ i.received
  once : i.emitted.Nodup

theorem Tracks.arrive (h : i.Tracks) (seq : ℕ) : (i.arrive seq).Tracks :=
  h.markSeen fun k => by simp [Arrived, or_right_comm]

theorem Tracks.acknowledge (h : i.Tracks) (seq : ℕ) : (i.acknowledge seq).Tracks :=
  h.markSeen fun k => by simp [Arrived, or_assoc]

theorem Tracks.receive (h : i.Tracks) (hduplicate : i.duplicate seq) : (i.receive seq).Tracks := by
  refine ⟨h.start_le, fun k hlow hhigh => ?_, fun k => ?_⟩
  · exact (h.below k hlow hhigh).imp_left (mem_append_left _)
  · change k ∈ i.seen ↔ _
    rw [h.seen k]
    by_cases hk : k = seq
    · subst hk
      have harrived : i.watermark < k → i.Arrived k := by
        intro hlt
        rcases of_decide_eq_true hduplicate with hle | hmem
        · exact absurd hlt (Nat.not_lt.mpr hle)
        · exact ((h.seen k).mp hmem).1
      constructor
      · exact fun hk => ⟨hk.1.imp_left (mem_append_left _), hk.2⟩
      · exact fun hk => ⟨harrived hk.2, hk.2⟩
    · simp [Arrived, Inbox.receive, hk]

theorem arrive_frame (i : Inbox) (seq : ℕ) :
    (i.arrive seq).received = i.received ++ [seq] ∧ (i.arrive seq).acked = i.acked ∧
      (i.arrive seq).emitted = i.emitted ∧ (i.arrive seq).epoch = i.epoch ∧
      (i.arrive seq).start = i.start ∧ (i.arrive seq).ownIds = i.ownIds :=
  markSeen_frame (i.receive seq) seq

section
variable (h : i.Inv cfg)
include h

theorem Inv.arrive (seq : ℕ) : (i.arrive seq).Inv cfg := by
  obtain ⟨hreceived, hacked, hemitted, hepoch, -, hids⟩ := arrive_frame i seq
  refine ⟨h.tracks.arrive seq, gap_markSeen (i := i.receive seq) h.gap seq, ?_, ?_, ?_, ?_⟩
  · rw [hacked, hepoch]
    exact h.acked
  · rw [hids]
    exact h.ownIds
  · rw [hemitted, hreceived]
    exact fun k hk => mem_append_left _ (h.emitted k hk)
  · rw [hemitted]
    exact h.once

theorem Inv.receive (hduplicate : i.duplicate seq) : (i.receive seq).Inv cfg where
  tracks := h.tracks.receive hduplicate
  gap := h.gap
  acked := h.acked
  ownIds := h.ownIds
  emitted k hk := mem_append_left _ (h.emitted k hk)
  once := h.once

theorem Inv.emit (hreceived : seq ∈ i.received) (hnew : seq ∉ i.emitted) : (i.emit seq).Inv cfg where
  tracks := ⟨h.tracks.start_le, h.tracks.below, h.tracks.seen⟩
  gap := h.gap
  acked := h.acked
  ownIds := h.ownIds
  emitted k hk := by
    rcases mem_snoc.mp hk with hold | rfl
    · exact h.emitted k hold
    · exact hreceived
  once := h.once.snoc hnew

theorem Inv.acknowledge (hown : cfg.own (cfg.log i.epoch seq)) : (i.acknowledge seq).Inv cfg := by
  obtain ⟨hreceived, hacked, hemitted, hepoch, -, hids⟩ :=
    markSeen_frame {i with acked := i.acked ++ [seq]} seq
  refine ⟨h.tracks.acknowledge seq,
    gap_markSeen (i := {i with acked := i.acked ++ [seq]}) h.gap seq, ?_, ?_, ?_, ?_⟩
  · intro k hk
    rw [Inbox.acknowledge, hacked] at hk
    rw [Inbox.acknowledge, hepoch]
    rcases mem_snoc.mp hk with hold | hnew
    · exact h.acked k hold
    · exact hnew ▸ hown
  · rw [Inbox.acknowledge, hids]
    exact h.ownIds
  · rw [Inbox.acknowledge, hemitted, hreceived]
    exact h.emitted
  · rw [Inbox.acknowledge, hemitted]
    exact h.once

theorem Inv.remember (hown : cfg.own id) : (i.remember seq id).Inv cfg where
  tracks := ⟨h.tracks.start_le, h.tracks.below, h.tracks.seen⟩
  gap := h.gap
  acked := h.acked
  ownIds := by
    have hids : ∀ x ∈ (if id ∈ i.ownIds then i.ownIds else i.ownIds ++ [id]), cfg.own x := by
      split
      · exact h.ownIds
      · exact forall_mem_snoc h.ownIds hown
    simp only [Inbox.remember]
    generalize (if id ∈ i.ownIds then i.ownIds else i.ownIds ++ [id]) = ids at hids ⊢
    split
    · exact fun x hx => hids x (mem_of_mem_tail hx)
    · exact hids
  emitted := h.emitted
  once := h.once

theorem Inv.reset : i.reset.Inv cfg where
  tracks := ⟨Nat.le_refl 0, fun k hlow hhigh => absurd hlow (Nat.not_lt.mpr hhigh),
    fun k => by simp [Inbox.reset, Arrived]⟩
  gap := not_mem_nil
  acked k hk := by cases hk
  ownIds := h.ownIds
  emitted k hk := by cases hk
  once := nodup_nil

end

end Inbox

/-! ### What the application gets -/

variable {cfg : Config} {c d : Client} {e : Event} {i : Inbox}

/-- Since the conversation was started over, every frame above the watermark of that time has been
handed to the application once if it is not an own turn, and not at all if it is one. -/
def Inbox.Emitted (cfg : Config) (i : Inbox) : Prop :=
  ∀ seq ∈ i.received, i.start < seq →
    i.emitted.count seq = if cfg.own (cfg.log i.epoch seq) then 0 else 1

/-- The client does not hand a frame that has just arrived to the application. -/
def Hides (c : Client) (frame : Frame) (id : Uuid) : Prop :=
  (c.ownTurn frame).isSome ∨ frame.seq ∈ (c.inbox.arrive frame.seq).ownSeqs ∨ id ∈ c.inbox.ownIds

instance (c : Client) (frame : Frame) (id : Uuid) : Decidable (Hides c frame id) := by
  unfold Hides
  infer_instance

/-- The first arrival of a frame: an own turn is in the outbox, or its seq or its id is still
remembered, and another's frame does not have a seq the client takes for its own. -/
def Clear (cfg : Config) (c : Client) : Event → Prop
  | .frame frame _ => ¬ c.inbox.duplicate frame.seq →
    if cfg.own (cfg.log c.inbox.epoch frame.seq) then
      Hides c frame (cfg.log c.inbox.epoch frame.seq)
    else frame.seq ∉ (c.inbox.arrive frame.seq).ownSeqs
  | _ => True

instance (cfg : Config) (c : Client) (e : Event) : Decidable (Clear cfg c e) := by
  cases e <;> unfold Clear <;> infer_instance

inductive InboxEffect (cfg : Config) (c : Client) : Event → Inbox → Prop where
  | keep {e : Event} (hclear : Clear cfg c e) : InboxEffect cfg c e c.inbox
  | reset {e : Event} (hclear : Clear cfg c e) : InboxEffect cfg c e c.inbox.reset
  | duplicate {frame : Frame} (sends : ℕ) (h : c.inbox.duplicate frame.seq) :
      InboxEffect cfg c (.frame frame sends) (c.inbox.receive frame.seq)
  | own {frame : Frame} (sends : ℕ) (h : ¬ c.inbox.duplicate frame.seq)
      (hturn : (c.ownTurn frame).isSome) (hown : cfg.own (cfg.log c.inbox.epoch frame.seq)) :
      InboxEffect cfg c (.frame frame sends) ((c.inbox.arrive frame.seq).remember frame.seq
        (cfg.log c.inbox.epoch frame.seq))
  | hide {frame : Frame} (sends : ℕ) (h : ¬ c.inbox.duplicate frame.seq)
      (hhides : frame.seq ∈ (c.inbox.arrive frame.seq).ownSeqs ∨
        cfg.log c.inbox.epoch frame.seq ∈ c.inbox.ownIds) :
      InboxEffect cfg c (.frame frame sends) (c.inbox.arrive frame.seq)
  | emit {frame : Frame} (sends : ℕ) (h : ¬ c.inbox.duplicate frame.seq)
      (hshows : ¬ Hides c frame (cfg.log c.inbox.epoch frame.seq)) :
      InboxEffect cfg c (.frame frame sends) ((c.inbox.arrive frame.seq).emit frame.seq)
  | acked (clientId : String) {seq : ℕ} (sends : ℕ) (hown : cfg.own (cfg.log c.inbox.epoch seq)) :
      InboxEffect cfg c (.ack clientId seq sends)
        ((c.inbox.acknowledge seq).remember seq (cfg.log c.inbox.epoch seq))

theorem inbox_flush (c : Client) (sends : ℕ) : (c.flush sends).inbox = c.inbox := by
  unfold Client.flush
  split <;> rfl

theorem inbox_endReplay (c : Client) (sends : ℕ) : (c.endReplay sends).inbox = c.inbox := by
  unfold Client.endReplay
  split
  · exact inbox_flush _ sends
  · rfl

theorem inbox_onOtherError (c : Client) (frame : ErrorFrame) (sends : ℕ) :
    (c.onOtherError frame sends).inbox = c.inbox ∨
      (c.onOtherError frame sends).inbox = c.inbox.reset := by
  unfold Client.onOtherError
  split
  · exact .inl (inbox_endReplay c sends)
  · split
    · exact .inr (inbox_endReplay _ sends)
    · exact .inl rfl
  · exact .inl rfl

theorem inbox_onError (c : Client) (frame : ErrorFrame) (sends : ℕ) :
    (c.onError frame sends).inbox = c.inbox ∨ (c.onError frame sends).inbox = c.inbox.reset := by
  cases hclient : frame.clientId with
  | none =>
    simp only [Client.onError, hclient]
    exact inbox_onOtherError c frame sends
  | some clientId =>
    simp only [Client.onError, hclient]
    split
    · split
      · exact .inl rfl
      · exact .inl (inbox_flush _ sends)
    · exact inbox_onOtherError _ frame sends

theorem inboxEffect_onPersistent (frame : Frame) (sends : ℕ)
    (hserver : (c.ownTurn frame).isSome → cfg.own (cfg.log c.inbox.epoch frame.seq)) :
    InboxEffect cfg c (.frame frame sends)
      (c.onPersistent frame (cfg.log c.inbox.epoch frame.seq) sends).inbox := by
  have hreceive : InboxEffect cfg c (.frame frame sends)
      (c.receive frame (cfg.log c.inbox.epoch frame.seq)).inbox := by
    have hids := (Inbox.arrive_frame c.inbox frame.seq).2.2.2.2.2
    simp only [Client.receive]
    split
    · rename_i hduplicate
      exact .duplicate sends hduplicate
    · rename_i hnew
      cases hturn : c.ownTurn frame with
      | some clientId =>
        have hsome : (c.ownTurn frame).isSome := by rw [hturn]; rfl
        exact .own sends hnew hsome (hserver hsome)
      | none =>
        simp only [hids]
        split
        · rename_i hhides
          exact .hide sends hnew hhides
        · rename_i hshows
          refine .emit sends hnew ?_
          rintro (hsome | hhides)
          · rw [hturn] at hsome
            cases hsome
          · exact hshows hhides
  simp only [Client.onPersistent]
  split
  · rw [inbox_endReplay]
    exact hreceive
  · exact hreceive

theorem inboxEffect_of_step (h : step cfg c e = some d) : InboxEffect cfg c e d.inbox := by
  cases result_of_step h with
  | send clientId sends | attached stored sends | retryTimer sends =>
    rw [inbox_flush]
    exact .keep trivial
  | discard | disconnect | connect hrunning hphase | refused hrunning hphase | gaveUp
  | replayTruncated headSeq | tick ms => exact .keep trivial
  | welcome conversationId limit head htransport hphase =>
    simp only [Client.onWelcome]
    split
    · exact .reset trivial
    · exact .keep trivial
  | frame frame sends hown => exact inboxEffect_onPersistent frame sends hown
  | ack clientId seq sends hown =>
    simp only [Client.onAck, inbox_flush]
    exact .acked clientId sends hown
  | error frame sends =>
    rcases inbox_onError c frame sends with hsame | hreset
    · exact hsame ▸ .keep trivial
    · exact hreset ▸ .reset trivial
  | close gaveUp => cases gaveUp <;> exact .keep trivial
  | replayTimer sends =>
    rw [inbox_endReplay]
    exact .keep trivial

/-! ### One step -/

section Step
variable {seq : ℕ}

theorem Inbox.Tracks.fresh (h : i.Tracks) (hnew : ¬ i.duplicate seq) :
    seq ∉ i.received ∧ i.start < seq := by
  obtain ⟨hlow, hmem⟩ : ¬ seq ≤ i.watermark ∧ seq ∉ i.seen := by
    simpa [Inbox.duplicate] using hnew
  have hlt := Nat.not_le.mp hlow
  exact ⟨fun hreceived => hmem ((h.seen seq).mpr ⟨.inl hreceived, hlt⟩),
    Nat.lt_of_le_of_lt h.start_le hlt⟩

/-- A first arrival keeps what was handed over, and adds one seq to what is to be handed over. -/
theorem emitted_first (emitted : List ℕ) (hi : i.Inv cfg) (hgood : i.Emitted cfg)
    (hnew : ¬ i.duplicate seq) (hold : ∀ k, k ≠ seq → emitted.count k = i.emitted.count k) :
    Inbox.Emitted cfg {i.arrive seq with emitted} ↔
      emitted.count seq = if cfg.own (cfg.log i.epoch seq) then 0 else 1 := by
  obtain ⟨hreceived, -, -, hepoch, hstart, -⟩ := Inbox.arrive_frame i seq
  obtain ⟨hfresh, hhigh⟩ := hi.tracks.fresh hnew
  simp only [Inbox.Emitted, hreceived, hepoch, hstart]
  constructor
  · intro h
    exact h seq (mem_append_right _ (mem_singleton_self seq)) hhigh
  · intro h k hk hlow
    rcases mem_snoc.mp hk with hbefore | hlast
    · have hne : k ≠ seq := by
        rintro rfl
        exact hfresh hbefore
      rw [hold k hne]
      exact hgood k hbefore hlow
    · rw [hlast]
      exact h

theorem Inbox.Inv.count_fresh (hi : i.Inv cfg) (hnew : ¬ i.duplicate seq) : i.emitted.count seq = 0 :=
  List.count_eq_zero.mpr fun hmem => (hi.tracks.fresh hnew).1 (hi.emitted seq hmem)

section
variable (hi : i.Inv cfg) (hgood : i.Emitted cfg)
include hi hgood

theorem emitted_arrive (hnew : ¬ i.duplicate seq) :
    (i.arrive seq).Emitted cfg ↔ cfg.own (cfg.log i.epoch seq) := by
  have hsame := (Inbox.arrive_frame i seq).2.2.1
  have hfirst := emitted_first i.emitted hi hgood hnew fun _ _ => rfl
  rw [hi.count_fresh hnew] at hfirst
  rw [← hsame] at hfirst
  refine hfirst.trans ?_
  split <;> simp_all

theorem emitted_emit (hnew : ¬ i.duplicate seq) :
    ((i.arrive seq).emit seq).Emitted cfg ↔ ¬ cfg.own (cfg.log i.epoch seq) := by
  have hsame := (Inbox.arrive_frame i seq).2.2.1
  have hfirst := emitted_first (i.emitted ++ [seq]) hi hgood hnew fun k hk => by
    simp [count_append, hk.symm]
  rw [count_append, hi.count_fresh hnew, count_singleton_self] at hfirst
  rw [Inbox.emit, hsame]
  refine hfirst.trans ?_
  split <;> simp_all

theorem emitted_receive (h : i.duplicate seq) : (i.receive seq).Emitted cfg := by
  intro k hk hlow
  by_cases hbefore : k ∈ i.received
  · exact hgood k hbefore hlow
  · -- only an ack can have marked the seq before its frame
    have hseq : k = seq := by simpa [Inbox.receive, hbefore] using hk
    subst hseq
    have harrived : i.Arrived k := by
      rcases of_decide_eq_true h with hle | hmem
      · exact hi.tracks.below k hlow hle
      · exact ((hi.tracks.seen k).mp hmem).1
    have hown := hi.acked k (harrived.resolve_left hbefore)
    have hzero : i.emitted.count k = 0 := List.count_eq_zero.mpr fun hmem => hbefore (hi.emitted k hmem)
    change i.emitted.count k = if cfg.own (cfg.log i.epoch k) then 0 else 1
    rw [hzero, if_pos hown]

end

theorem emitted_acknowledge (hgood : i.Emitted cfg) (id : Uuid) :
    ((i.acknowledge seq).remember seq id).Emitted cfg := by
  obtain ⟨hreceived, -, hemitted, hepoch, hstart, -⟩ :=
    Inbox.markSeen_frame {i with acked := i.acked ++ [seq]} seq
  simp only [Inbox.Emitted, Inbox.remember, Inbox.acknowledge, hreceived, hemitted, hepoch, hstart]
  exact hgood

end Step

theorem clear_iff {frame : Frame} {sends : ℕ} (h : ¬ c.inbox.duplicate frame.seq) :
    Clear cfg c (.frame frame sends) ↔
      if cfg.own (cfg.log c.inbox.epoch frame.seq) then
        Hides c frame (cfg.log c.inbox.epoch frame.seq)
      else frame.seq ∉ (c.inbox.arrive frame.seq).ownSeqs := by
  constructor
  · exact fun hclear => hclear h
  · exact fun hclear _ => hclear

/-- A step from a state in which the application has got what it should leads to one exactly if the
step is clear. -/
theorem emitted_of_effect (hc : c.inbox.Inv cfg) (hgood : c.inbox.Emitted cfg)
    (h : InboxEffect cfg c e i) : i.Emitted cfg ↔ Clear cfg c e := by
  cases h with
  | keep hclear => exact iff_of_true hgood hclear
  | reset hclear => exact iff_of_true (fun k hk => by cases hk) hclear
  | duplicate sends h =>
    exact iff_of_true (emitted_receive hc hgood h) fun hnew => absurd h hnew
  | @own frame sends h hturn hown =>
    rw [clear_iff h, if_pos hown]
    exact iff_of_true ((emitted_arrive hc hgood h).mpr hown) (.inl hturn)
  | @hide frame sends h hhides =>
    rw [clear_iff h, emitted_arrive hc hgood h]
    split
    · rename_i hown
      exact iff_of_true hown (.inr hhides)
    · rename_i hother
      -- the ids the client remembers are own ones, so the seq is what it takes for its own
      have hseq := hhides.resolve_right fun hid => hother (hc.ownIds _ hid)
      exact iff_of_false hother fun hnot => hnot hseq
  | @emit frame sends h hshows =>
    rw [clear_iff h, emitted_emit hc hgood h]
    split
    · rename_i hown
      exact iff_of_false (fun hother => hother hown) hshows
    · rename_i hother
      exact iff_of_true hother fun hseq => hshows (.inr (.inl hseq))
  | acked clientId sends hown => exact iff_of_true (emitted_acknowledge hgood _) trivial

/-! ### Whole runs -/

theorem inv_opened (conversationId : Option String) (watermark : ℕ) (stored : List Entry) :
    (opened conversationId watermark stored).inbox.Inv cfg where
  tracks := ⟨Nat.le_refl _, fun _ hlow hhigh => absurd hlow (Nat.not_lt.mpr hhigh),
    fun k => by simp [opened, Inbox.Arrived]⟩
  gap := not_mem_nil
  acked _ hk := by cases hk
  ownIds _ hid := by cases hid
  emitted _ hk := by cases hk
  once := nodup_nil

theorem inv_of_effect (hc : c.inbox.Inv cfg) (h : InboxEffect cfg c e i) : i.Inv cfg := by
  cases h with
  | keep => exact hc
  | reset => exact hc.reset
  | duplicate sends h => exact hc.receive h
  | own sends h hturn hown => exact (hc.arrive _).remember hown
  | hide sends h hhides => exact hc.arrive _
  | @emit frame sends h hshows =>
    obtain ⟨hreceived, -, hemitted, -⟩ := Inbox.arrive_frame c.inbox frame.seq
    refine (hc.arrive frame.seq).emit ?_ ?_
    · rw [hreceived]
      exact mem_concat_self
    · rw [hemitted]
      exact List.count_eq_zero.mp (hc.count_fresh h)
  | acked clientId sends hown => exact (hc.acknowledge hown).remember hown

theorem Inbox.Inv.lt_of_mem_seen {k : ℕ} (hi : i.Inv cfg) (hk : k ∈ i.seen) : i.watermark + 1 < k := by
  have hlt := ((hi.tracks.seen k).mp hk).2
  have hne : i.watermark + 1 ≠ k := by
    rintro rfl
    exact hi.gap hk
  exact Nat.lt_of_le_of_ne hlt hne

theorem Inbox.Inv.not_arrived (hi : i.Inv cfg) : ¬ i.Arrived (i.watermark + 1) :=
  fun harrived => hi.gap ((hi.tracks.seen _).mpr ⟨harrived, Nat.lt_succ_self _⟩)

/-- At any time of a run the watermark is the end of what has arrived without a gap, and what was
seen lies beyond the gap. The application gets every frame of another on its first arrival, once,
and no own turn, exactly as long as every first arrival is clear. -/
theorem frames_emitted_once {conversationId : Option String} {watermark : ℕ} {stored : List Entry}
    {es : List Event} (h : run (step cfg) (opened conversationId watermark stored) es = some c) :
    (c.inbox.start ≤ c.inbox.watermark ∧
      (∀ seq, c.inbox.start < seq → seq ≤ c.inbox.watermark → c.inbox.Arrived seq) ∧
      ¬ c.inbox.Arrived (c.inbox.watermark + 1)) ∧
    (∀ seq ∈ c.inbox.seen, c.inbox.watermark + 1 < seq) ∧
    (Throughout (step cfg) (fun d => d.inbox.Emitted cfg)
        (opened conversationId watermark stored) es ↔
      Along (step cfg) (Clear cfg) (opened conversationId watermark stored) es) := by
  have hopened : (opened conversationId watermark stored).inbox.Inv cfg :=
    inv_opened conversationId watermark stored
  have hkeeps : ∀ {d : Client} {e : Event} {d' : Client}, d.inbox.Inv cfg →
      step cfg d e = some d' → d'.inbox.Inv cfg :=
    fun hd hstep => inv_of_effect hd (inboxEffect_of_step hstep)
  have hclear : ∀ (d : Client) (e : Event) (d' : Client), d.inbox.Inv cfg → d.inbox.Emitted cfg →
      step cfg d e = some d' → d'.inbox.Inv cfg ∧ (d'.inbox.Emitted cfg ↔ Clear cfg d e) :=
    fun d e d' hd hgood hstep =>
      ⟨hkeeps hd hstep, emitted_of_effect hd hgood (inboxEffect_of_step hstep)⟩
  have hinv := run_invariant hkeeps hopened h
  exact ⟨⟨hinv.tracks.start_le, hinv.tracks.below, hinv.not_arrived⟩,
    fun seq hseq => hinv.lt_of_mem_seen hseq,
    throughout_iff_along hclear hopened (fun k hk => by cases hk) h⟩

/-- A server on which this client has sent the second activity of its first conversation. -/
def renewedServer : Config where
  log epoch seq := 10 * epoch + seq
  own id := id = 2

/-- A turn is sent and acknowledged before the first activity of the conversation has arrived. -/
def acknowledgedEarly : List Event :=
  [.connect, .welcome "a" none none, .send "m" 1, .ack "m" 2 0]

theorem frames_emitted_once_in_order :
    Throughout (step renewedServer) (fun d => d.inbox.Emitted renewedServer) (opened none 0 [])
      (acknowledgedEarly ++ [.frame {seq := 1} 0, .frame {seq := 2} 0]) := by
  obtain ⟨c, hc, -⟩ : ∃ c, run (step renewedServer) (opened none 0 [])
      (acknowledgedEarly ++ [.frame {seq := 1} 0, .frame {seq := 2} 0]) = some c ∧
      c.inbox.emitted = [1] := by decide +kernel
  exact (frames_emitted_once hc).2.2.mpr (by decide +kernel)

/-- The conversation is replaced, and the bot's second frame of the new one arrives before the
first. -/
theorem replaced_conversation_drops_frame :
    ∃ c, run (step renewedServer) (opened none 0 []) (acknowledgedEarly ++
        [.close false, .connect, .welcome "b" none none, .frame {seq := 2} 0,
          .frame {seq := 1} 0, .frame {seq := 2} 0]) = some c ∧
      c.inbox.start = 0 ∧ c.inbox.received = [2, 1, 2] ∧
      ¬ renewedServer.own (renewedServer.log c.inbox.epoch 2) ∧ c.inbox.emitted = [1] := by
  decide +kernel

end Converger.ClientConversation
