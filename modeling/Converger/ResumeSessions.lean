import Converger.GuardedRuns

/-!
# The resume state machine of the Python client

A session delivers the frame after its watermark, and asks for a sync where it sees a later one. The
flag of a sync that was asked for is taken back by a delivery or a new connection only.
-/
namespace Converger.ResumeSessions
open GuardedRuns List

inductive Frame where
  | welcome (conversationId : Option String)
  | ack (seq : ℕ)
  | persistent (seq : ℕ)
  | heartbeat (headSeq : ℕ)
  | replayTruncated
  | replayUnavailable
  | invalidWatermark
  | other
deriving DecidableEq

structure Session where
  watermark : ℕ
  conversationId : Option String := none
  syncPending : Bool := false
  own : List ℕ := []

/-- The loop of `_advance`, for at most `n` own turns. -/
def drain : ℕ → ℕ → List ℕ → ℕ × List ℕ
  | 0, w, own => (w, own.filter (w < ·))
  | n + 1, w, own => if w + 1 ∈ own then drain n (w + 1) (own.erase (w + 1)) else (w, own.filter (w < ·))

def Session.advance (s : Session) (seq : ℕ) : Session :=
  let r := drain s.own.length seq s.own
  {s with watermark := r.1, own := r.2}

/-- `on_frame`: the session, whether the frame is delivered, and whether a sync from the watermark
is sent, now or after a pause. -/
def Session.onFrame (s : Session) : Frame → Session × Bool × Bool
  | .welcome id =>
    let t := if s.conversationId.isSome ∧ id ≠ s.conversationId then
      {s with watermark := 0, own := []} else s
    ({t with conversationId := id.or s.conversationId, syncPending := false}, true, false)
  | .ack seq =>
    if seq = s.watermark + 1 then (s.advance seq, false, false)
    else if s.watermark + 1 < seq then ({s with own := s.own.insert seq}, false, false)
    else (s, false, false)
  | .persistent seq =>
    if seq ≤ s.watermark ∨ seq ∈ s.own then (s, false, false)
    else if seq = s.watermark + 1 then ({s.advance seq with syncPending := false}, true, false)
    else ({s with syncPending := true}, false, !s.syncPending)
  | .heartbeat head =>
    if s.watermark < head then ({s with syncPending := true}, false, !s.syncPending)
    else (s, false, false)
  | .replayTruncated | .replayUnavailable => ({s with syncPending := true}, true, true)
  | .invalidWatermark =>
    ({s with watermark := 0, own := [], syncPending := true}, true, true)
  | .other => (s, true, false)

/-- The stored rows, with whether they are the client's own, the frames on their way to the client,
the syncs on their way to the server, and what was delivered. -/
structure State where
  session : Session
  rows : List (ℕ × Bool) := []
  queue : List Frame := []
  syncs : List ℕ := []
  delivered : List ℕ := []

def State.headSeq (s : State) : ℕ := (s.rows.getLast?.map Prod.fst).getD 0

def State.after (s : State) (w : ℕ) : List Frame :=
  (s.rows.filter (w < ·.1)).map (.persistent ·.1)

inductive Event where
  | store (seq : ℕ) (own lost : Bool)
  | heartbeat
  | answer
  | receive
  | reconnect

/-- A stored row is acknowledged or sent live, unless that is lost; a sync is answered with every
row after its watermark, and so is the `hello` of a new connection. -/
def step (s : State) : Event → Option State
  | .store seq own lost =>
    if ∀ row ∈ s.rows, row.1 < seq then
      some {s with
        rows := s.rows ++ [(seq, own)]
        queue := s.queue ++ (if lost then [] else [if own then .ack seq else .persistent seq])}
    else none
  | .heartbeat => some {s with queue := s.queue ++ [.heartbeat s.headSeq]}
  | .answer =>
    match s.syncs with
    | [] => none
    | w :: syncs => some {s with syncs, queue := s.queue ++ s.after w}
  | .receive =>
    match s.queue with
    | [] => none
    | frame :: queue =>
      let r := s.session.onFrame frame
      some {s with
        queue
        session := r.1
        syncs := if r.2.2 then s.syncs ++ [r.1.watermark] else s.syncs
        delivered := match frame with
          | .persistent seq => if r.2.1 then s.delivered ++ [seq] else s.delivered
          | _ => s.delivered}
  | .reconnect => some {s with
      queue := .welcome s.session.conversationId :: s.after s.session.watermark, syncs := []}

def Frame.isAck : Frame → Bool
  | .ack _ => true
  | _ => false

/-- No row is missing, and no acknowledgement is received while a sync is pending. -/
def Orderly (start : ℕ) (s : State) : Event → Prop
  | .store seq _ _ => seq = start + s.rows.length + 1
  | .receive => ∀ frame ∈ s.queue.head?, frame.isAck = true → s.session.syncPending = false
  | _ => True

instance decidableOrderly (start : ℕ) (s : State) : ∀ e, Decidable (Orderly start s e)
  | .store seq _ _ => inferInstanceAs (Decidable (seq = _))
  | .receive => inferInstanceAs (Decidable (∀ frame ∈ s.queue.head?, _))
  | .heartbeat | .answer | .reconnect => .isTrue trivial

def Sound (start : ℕ) (s : State) : Frame → Prop
  | .welcome id => id = s.session.conversationId
  | .ack seq => (seq, true) ∈ s.rows
  | .persistent seq => seq ≤ start + s.rows.length
  | .heartbeat head => head ≤ start + s.rows.length
  | _ => False

structure Inv (start : ℕ) (s : State) : Prop where
  rows : s.rows.map Prod.fst = List.range' (start + 1) s.rows.length
  low : start ≤ s.session.watermark ∧ s.session.watermark ≤ start + s.rows.length
  own : ∀ k ∈ s.session.own, s.session.watermark + 1 < k ∧ (k, true) ∈ s.rows
  queue : ∀ frame ∈ s.queue, Sound start s frame
  syncs : ∀ w ∈ s.syncs, w ≤ s.session.watermark
  pending : s.session.syncPending = true → s.session.watermark < start + s.rows.length ∧
    (s.syncs ≠ [] ∨ .persistent (s.session.watermark + 1) ∈ s.queue)
  sorted : s.delivered.Pairwise (· < ·) ∧ ∀ k ∈ s.delivered, k ≤ s.session.watermark
  delivered : ∀ k, (k, false) ∈ s.rows → k ≤ s.session.watermark → k ∈ s.delivered

variable {queue : List Frame} {w : ℕ}

section
variable {start : ℕ} {s t : State} {k : ℕ} {b : Bool} {e : Event}

/-- An own turn after the watermark stops the loop; those it passes are own turns. -/
theorem drain_spec {n : ℕ} {own : List ℕ} (h : own.length ≤ n) :
    w ≤ (drain n w own).1 ∧ (∀ k ∈ (drain n w own).2, k ∈ own ∧ (drain n w own).1 + 1 < k) ∧
      ∀ k, w < k → k ≤ (drain n w own).1 → k ∈ own := by
  induction n generalizing w own with
  | zero =>
    cases length_eq_zero_iff.mp (Nat.le_zero.mp h)
    exact ⟨Nat.le_refl _, by simp [drain], fun k hlow hhigh => absurd hhigh (Nat.not_le.mpr hlow)⟩
  | succ n ih =>
    unfold drain
    split
    · rename_i hmem
      have hlength : (own.erase (w + 1)).length ≤ n := by
        rw [length_erase_of_mem hmem]
        omega
      obtain ⟨hle, hkept, hpassed⟩ := @ih (w + 1) _ hlength
      refine ⟨by omega, fun k hk => ⟨mem_of_mem_erase (hkept k hk).1, (hkept k hk).2⟩, ?_⟩
      intro k hlow hhigh
      by_cases heq : k = w + 1
      · exact heq ▸ hmem
      · exact mem_of_mem_erase (hpassed k (by omega) hhigh)
    · rename_i hnot
      refine ⟨Nat.le_refl _, fun k hk => ?_, fun k hlow hhigh => absurd hhigh (Nat.not_le.mpr hlow)⟩
      obtain ⟨hmem, hlt⟩ := mem_filter.mp hk
      have hne : k ≠ w + 1 := fun heq => hnot (heq ▸ hmem)
      have hlt : w < k := of_decide_eq_true hlt
      exact ⟨hmem, by omega⟩

section
variable (h : Inv start s)
include h

theorem Inv.mem_rows (hk : (k, b) ∈ s.rows) : start < k ∧ k ≤ start + s.rows.length := by
  have hmem := mem_map_of_mem (f := Prod.fst) hk
  rw [h.rows, mem_range'_1] at hmem
  omega

theorem Inv.exists_row (hlow : start < k) (hhigh : k ≤ start + s.rows.length) :
    ∃ b, (k, b) ∈ s.rows := by
  have hmem : k ∈ s.rows.map Prod.fst := by
    rw [h.rows, mem_range'_1]
    omega
  obtain ⟨row, hrow, rfl⟩ := mem_map.mp hmem
  exact ⟨row.2, hrow⟩

theorem Inv.not_own (hk : (k, true) ∈ s.rows) : (k, false) ∉ s.rows := by
  intro hother
  have hnodup : (s.rows.map Prod.fst).Nodup := h.rows ▸ nodup_range'
  have heq := inj_on_of_nodup_map hnodup hk hother rfl
  cases heq

theorem Inv.mem_after (hk : start < k) (hlow : w < k)
    (hhigh : k ≤ start + s.rows.length) : .persistent k ∈ s.after w := by
  obtain ⟨b, hb⟩ := h.exists_row hk hhigh
  exact mem_map.mpr ⟨(k, b), mem_filter.mpr ⟨hb, decide_eq_true hlow⟩, rfl⟩

/-- The watermark moves to the next row, whose delivery is recorded unless it is an own turn. -/
theorem Inv.advance {delivered : List ℕ}
    (hlt : s.session.watermark < start + s.rows.length) (hqueue : ∀ frame ∈ queue, frame ∈ s.queue)
    (hdelivered : delivered = s.delivered ∧ (s.session.watermark + 1, true) ∈ s.rows ∨
      delivered = s.delivered ++ [s.session.watermark + 1]) :
    Inv start {s with
      queue, delivered
      session := {s.session.advance (s.session.watermark + 1) with syncPending := false}} := by
  have hspec := drain_spec (w := s.session.watermark + 1) (Nat.le_refl s.session.own.length)
  simp only [Session.advance]
  generalize drain s.session.own.length (s.session.watermark + 1) s.session.own = r at hspec
  obtain ⟨hle, hkept, hpassed⟩ := hspec
  -- The rows that are passed are stored, and are own turns but the first.
  have hrow : ∀ k, s.session.watermark + 1 < k → k ≤ r.1 → (k, true) ∈ s.rows :=
    fun k hlow hhigh => (h.own k (hpassed k hlow hhigh)).2
  have hmax : r.1 ≤ start + s.rows.length := by
    by_cases heq : r.1 = s.session.watermark + 1
    · omega
    · exact (h.mem_rows (hrow r.1 (by omega) (Nat.le_refl _))).2
  have hlow := h.low
  constructor
  case rows => exact h.rows
  case low => exact ⟨Nat.le_trans hlow.1 (Nat.le_of_succ_le hle), hmax⟩
  case own => exact fun k hk => ⟨(hkept k hk).2, (h.own k (hkept k hk).1).2⟩
  case queue => exact fun frame hframe => h.queue frame (hqueue frame hframe)
  case syncs => exact fun w hw => Nat.le_trans (h.syncs w hw) (Nat.le_of_succ_le hle)
  case pending => exact nofun
  case sorted =>
    obtain ⟨hpairwise, hall⟩ := h.sorted
    grind
  case delivered =>
    intro k hk hle
    by_cases hlate : s.session.watermark + 1 < k
    · exact absurd hk (h.not_own (hrow k hlate hle))
    · have hold := h.delivered k hk
      have hnot := h.not_own (k := k)
      grind

theorem Inv.ask (hqueue : ∀ f ∈ queue, Sound start s f)
    (hlt : s.session.watermark < start + s.rows.length)
    (hpending : s.session.syncPending = true → s.syncs ≠ [] ∨ .persistent (s.session.watermark + 1) ∈ queue) :
    Inv start {s with
      queue
      session := {s.session with syncPending := true}
      syncs := if (!s.session.syncPending) = true then s.syncs ++ [s.session.watermark] else s.syncs} := by
  cases hflag : s.session.syncPending with
  | true => exact {h with queue := hqueue, pending := fun _ => ⟨hlt, hpending hflag⟩}
  | false =>
    have hsyncs := h.syncs
    exact {h with queue := hqueue, syncs := by grind, pending := fun _ => ⟨hlt, .inl (by simp)⟩}

theorem Inv.receive {frame : Frame} (horderly : Orderly start s .receive)
    (hqueue : s.queue = frame :: queue) (ht : step s .receive = some t) : Inv start t := by
  simp only [step, hqueue, Option.some.injEq] at ht
  subst ht
  have hsound := h.queue frame (hqueue ▸ mem_cons_self)
  have hrest : ∀ f ∈ queue, f ∈ s.queue := fun f hf => hqueue ▸ mem_cons_of_mem _ hf
  have hkept : ∀ f ∈ queue, Sound start s f := fun f hf => h.queue f (hrest f hf)
  have hpending := h.pending
  simp only [hqueue, mem_cons] at hpending
  cases frame with
  | welcome id =>
    cases hsound
    simp only [Session.onFrame, ne_eq, not_true_eq_false, and_false, if_false, Option.or_self]
    exact {h with queue := hkept, pending := nofun}
  | ack seq =>
    have hflag := horderly (.ack seq) (by rw [hqueue]; rfl) rfl
    have hnone : s.session.syncPending = true → False := by simp [hflag]
    by_cases hnext : seq = s.session.watermark + 1
    · rw [hnext] at hsound
      simp only [Session.onFrame, if_pos hnext, Bool.false_eq_true, if_false]
      have hadvance := h.advance (h.mem_rows hsound).2 hrest (.inl ⟨rfl, hsound⟩)
      simpa [Session.advance, hflag, hnext] using hadvance
    · simp only [Session.onFrame, if_neg hnext]
      by_cases hlater : s.session.watermark + 1 < seq
      · simp only [if_pos hlater, Bool.false_eq_true, if_false]
        refine {h with queue := hkept, own := ?_, pending := fun hp => (hnone hp).elim}
        intro k hk
        rcases mem_insert_iff.mp hk with rfl | hk
        · exact ⟨hlater, hsound⟩
        · exact h.own k hk
      · simp only [if_neg hlater, Bool.false_eq_true, if_false]
        exact {h with queue := hkept, pending := fun hp => (hnone hp).elim}
  | persistent seq =>
    by_cases hknown : seq ≤ s.session.watermark ∨ seq ∈ s.session.own
    · simp only [Session.onFrame, if_pos hknown, Bool.false_eq_true, if_false]
      have hown := h.own seq
      exact {h with queue := hkept, pending := by grind}
    · by_cases hnext : seq = s.session.watermark + 1
      · rw [hnext] at hsound
        simp only [Session.onFrame, if_neg hknown, if_pos hnext, Bool.false_eq_true, if_false, if_true]
        rw [hnext]
        exact h.advance hsound hrest (.inr rfl)
      · have hlt : s.session.watermark < start + s.rows.length := by
          have hle : seq ≤ start + s.rows.length := hsound
          omega
        simp only [Session.onFrame, if_neg hknown, if_neg hnext, Bool.false_eq_true, if_false]
        exact h.ask hkept hlt (by grind)
  | heartbeat head =>
    by_cases hlt : s.session.watermark < head
    · simp only [Session.onFrame, if_pos hlt]
      exact h.ask hkept (Nat.lt_of_lt_of_le hlt hsound) (by grind)
    · simp only [Session.onFrame, if_neg hlt, Bool.false_eq_true, if_false]
      exact {h with queue := hkept, pending := by grind}
  | _ => cases hsound

theorem Inv.step (horderly : Orderly start s e)
    (ht : step s e = some t) : Inv start t := by
  have hafter : ∀ w, ∀ frame ∈ s.after w, Sound start s frame := by
    intro w frame hframe
    obtain ⟨row, hrow, rfl⟩ := mem_map.mp hframe
    exact (h.mem_rows (mem_filter.mp hrow).1).2
  cases e with
  | receive =>
    cases hqueue : s.queue with
    | nil => simp [ResumeSessions.step, hqueue] at ht
    | cons frame queue => exact h.receive horderly hqueue ht
  | reconnect =>
    cases ht
    refine {h with queue := ?_, syncs := nofun, pending := fun hp => ⟨(h.pending hp).1, .inr ?_⟩}
    · exact forall_mem_cons.mpr ⟨rfl, hafter _⟩
    · exact mem_cons_of_mem _ (h.mem_after (Nat.lt_succ_of_le h.low.1)
        (Nat.lt_succ_self _) (h.pending hp).1)
  | heartbeat =>
    cases ht
    have hhead : s.headSeq ≤ start + s.rows.length := by
      unfold State.headSeq
      cases hlast : s.rows.getLast? with
      | none => exact Nat.zero_le _
      | some row => exact (h.mem_rows (mem_of_getLast? hlast)).2
    have hqueue := h.queue
    have hpending := h.pending
    exact {h with
      queue := forall_mem_snoc hqueue hhead
      pending := fun hp => ⟨(hpending hp).1, (hpending hp).2.imp_right (mem_append_left _)⟩}
  | answer =>
    cases hsyncs : s.syncs with
    | nil => simp [ResumeSessions.step, hsyncs] at ht
    | cons w syncs =>
      simp only [ResumeSessions.step, hsyncs, Option.some.injEq] at ht
      subst ht
      have hw := h.syncs
      rw [hsyncs] at hw
      obtain ⟨hw, hrest⟩ := forall_mem_cons.mp hw
      refine { h with queue := forall_mem_append.mpr ⟨h.queue, hafter w⟩, syncs := hrest,
                      pending := fun hp => ⟨(h.pending hp).1, .inr (mem_append_right _ ?_)⟩}
      exact h.mem_after (Nat.lt_succ_of_le h.low.1) (Nat.lt_succ_of_le hw) (h.pending hp).1
  | store seq own lost =>
    obtain ⟨-, rfl⟩ := Option.ite_some_none_eq_some.mp ht
    cases horderly
    have hlow := h.low
    have hpending := h.pending
    constructor
    case rows => simp [h.rows, range'_concat, Nat.add_right_comm]
    case low => exact ⟨hlow.1, by simp only [length_append, length_singleton]; omega⟩
    case own => exact fun k hk => (h.own k hk).imp_right (mem_append_left _)
    case queue =>
      refine forall_mem_append.mpr ⟨fun frame hframe => ?_, ?_⟩
      · have hsound := h.queue frame hframe
        cases frame <;> simp_all [Sound] <;> omega
      · cases lost <;> cases own <;> simp [Sound, Nat.add_assoc]
    case syncs => exact h.syncs
    case pending =>
      intro hp
      simp only [length_append, length_singleton]
      exact ⟨by have := (hpending hp).1; omega, (hpending hp).2.imp_right (mem_append_left _)⟩
    case sorted => exact h.sorted
    case delivered =>
      intro k hk hle
      rcases mem_snoc.mp hk with hk | hk
      · exact h.delivered k hk hle
      · cases hk
        simp only at hle
        omega

end

theorem inv_start (start : ℕ) (id : Option String) :
    Inv start {session := {watermark := start, conversationId := id}} := by
  constructor <;> simp

theorem le_advance (session : Session) (seq : ℕ) : seq ≤ (session.advance seq).watermark :=
  (drain_spec (Nat.le_refl session.own.length)).1

theorem exists_caughtUp (seqs : List ℕ) (h : Inv start s) (hqueue : s.queue = seqs.map .persistent)
    (hsorted : seqs.Pairwise (· < ·))
    (hall : ∀ k, s.session.watermark < k → k ≤ start + s.rows.length → k ∈ seqs) :
    ∃ t, run ResumeSessions.step s (replicate seqs.length .receive) = some t ∧ Inv start t ∧
      t.rows = s.rows ∧ t.session.watermark = start + s.rows.length := by
  induction seqs generalizing s with
  | nil =>
    refine ⟨s, rfl, h, rfl, ?_⟩
    have hlow := h.low
    by_contra hne
    cases hall (start + s.rows.length) (by omega) (Nat.le_refl _)
  | cons seq seqs ih =>
    obtain ⟨hfirst, hsorted⟩ := pairwise_cons.mp hsorted
    have hsound : seq ≤ start + s.rows.length := h.queue (.persistent seq) (hqueue ▸ mem_cons_self)
    -- The first of the rows is not beyond the next one.
    have hnext : seq ≤ s.session.watermark + 1 := by
      by_contra hlate
      rcases mem_cons.mp (hall (s.session.watermark + 1) (by omega) (by omega)) with heq | hmem
      · omega
      · have hlt := hfirst _ hmem
        omega
    obtain ⟨m, hm⟩ : ∃ m, ResumeSessions.step s .receive = some m := by
      rw [ResumeSessions.step, hqueue]
      exact ⟨_, rfl⟩
    have hinv : Inv start m := h.receive (by simp [Orderly, hqueue, Frame.isAck]) hqueue hm
    have hmore : m.queue = seqs.map .persistent ∧ m.rows = s.rows ∧ seq ≤ m.session.watermark ∧
        s.session.watermark ≤ m.session.watermark := by
      have hown := h.own seq
      have hle := le_advance s.session seq
      simp only [ResumeSessions.step, hqueue, map_cons, Option.some.injEq] at hm
      subst hm
      simp only [Session.onFrame]
      grind
    obtain ⟨t, ht, hinv', hrows, hdone⟩ := ih hinv hmore.1 hsorted (by grind)
    rw [hmore.2.1] at hrows hdone
    exact ⟨t, run_cons_eq_some.mpr ⟨m, hm, ht⟩, hinv', hrows, hdone⟩

/-- Without missing rows, and without acknowledgements while a sync is pending, rows are delivered
once and in order up to the watermark, a pending sync or the row it is for is on its way, and from
every state with nothing on its way the client catches up with the rows. -/
theorem session_delivers_rows (start : ℕ) (id : Option String) (es : List Event) (s : State)
    (hrun : run ResumeSessions.step {session := {watermark := start, conversationId := id}} es = some s)
    (horderly : Along ResumeSessions.step (Orderly start)
      {session := {watermark := start, conversationId := id}} es) :
    s.delivered.Pairwise (· < ·) ∧
      (∀ k, (k, false) ∈ s.rows → k ≤ s.session.watermark → k ∈ s.delivered) ∧
      (s.session.syncPending = true → s.syncs ≠ [] ∨ .persistent (s.session.watermark + 1) ∈ s.queue) ∧
      (s.queue = [] → s.syncs = [] → ∃ fs t, (∀ f ∈ fs, f ∈ [.heartbeat, .answer, .receive]) ∧
        run ResumeSessions.step s fs = some t ∧ t.rows = s.rows ∧
        ∀ k, (k, false) ∈ t.rows → k ∈ t.delivered) := by
  have h : Inv start s := run_invariant_along Inv.step (inv_start start id) horderly hrun
  refine ⟨h.sorted.1, h.delivered, fun hp => (h.pending hp).2, fun hqueue hsyncs => ?_⟩
  have hflag : s.session.syncPending = false := by
    by_contra hp
    have hpending := (h.pending (by simpa using hp)).2
    simp [hsyncs, hqueue] at hpending
  by_cases hdone : s.session.watermark = start + s.rows.length
  · exact ⟨[], s, nofun, rfl, rfl, fun k hk => h.delivered k hk (hdone ▸ (h.mem_rows hk).2)⟩
  · -- A heartbeat makes the client ask, and the answer holds every row after the watermark.
    have hlow := h.low
    have hhead : s.headSeq = start + s.rows.length := by
      rw [State.headSeq, ← getLast?_map, h.rows, getLast?_range', if_neg (by omega), Option.getD_some]
      omega
    have hasked : run ResumeSessions.step s [.heartbeat, .receive, .answer] = some {s with
        queue := s.after s.session.watermark
        session := {s.session with syncPending := true}} := by
      have hlt : s.session.watermark < s.headSeq := by omega
      simp [run, ResumeSessions.step, hqueue, hsyncs, Session.onFrame, hlt, hflag, State.after]
    have hinv : Inv start {s with
        queue := s.after s.session.watermark
        session := {s.session with syncPending := true}} := by
      refine run_invariant_along Inv.step h ?_ hasked
      simp [Along, Orderly, ResumeSessions.step, hqueue, Frame.isAck]
    obtain ⟨t, ht, hinv', hrows, hend⟩ := exists_caughtUp
      ((s.rows.filter (s.session.watermark < ·.1)).map Prod.fst) hinv
      (by simp [State.after]) (by
        have hall : (s.rows.map Prod.fst).Pairwise (· < ·) := h.rows ▸ pairwise_lt_range'
        exact hall.sublist (filter_sublist.map _)) (by
        intro k hlt hle
        obtain ⟨b, hb⟩ := h.exists_row (Nat.lt_of_le_of_lt hlow.1 hlt) hle
        exact mem_map.mpr ⟨_, mem_filter.mpr ⟨hb, decide_eq_true hlt⟩, rfl⟩)
    refine ⟨_, t, ?_, run_append_eq_some.mpr ⟨_, hasked, ht⟩, hrows, fun k hk => ?_⟩
    · intro f hf
      rcases mem_append.mp hf with hf | hf
      · simp only [mem_cons] at hf ⊢
        tauto
      · rw [eq_of_mem_replicate hf]
        simp
    · refine hinv'.delivered k hk ?_
      have hk := (hinv'.mem_rows hk).2
      rw [hrows] at hk
      exact hend ▸ hk

end

def client (watermark : ℕ) : State := {session := {watermark}}

/-- The broadcast of the second row is lost, and a heartbeat makes the client ask for it. -/
theorem session_delivers_rows_two : ∃ s, run ResumeSessions.step (client 0)
    [.store 1 false false, .store 2 false true, .receive] = some s ∧
      s.delivered = [1] ∧ s.delivered.Pairwise (· < ·) ∧
      ∃ fs t, (∀ f ∈ fs, f ∈ [.heartbeat, .answer, .receive]) ∧
        run ResumeSessions.step s fs = some t ∧ t.rows = s.rows ∧
        ∀ k, (k, false) ∈ t.rows → k ∈ t.delivered := by
  have hrun : (run ResumeSessions.step (client 0)
      [.store 1 false false, .store 2 false true, .receive]).any (fun s =>
        s.delivered = [1] ∧ s.queue = [] ∧ s.syncs = []) = true := by decide +kernel
  obtain ⟨s, hs, hend⟩ := (Option.any_eq_true _ _).mp hrun
  obtain ⟨hdelivered, hqueue, hsyncs⟩ := of_decide_eq_true hend
  obtain ⟨hsorted, -, -, hcatch⟩ := session_delivers_rows 0 none _ s hs (by decide +kernel)
  exact ⟨s, hs, hdelivered, hsorted, hcatch hqueue hsyncs⟩

/-- The rows before 5 are missing: the sync is answered, and the client drops what it gets and will
not ask again. -/
theorem missing_rows_block : (run ResumeSessions.step (client 0)
    [.store 5 false false, .receive, .answer, .receive, .store 6 false false, .receive, .heartbeat,
      .receive]).any (fun s => s.delivered = [] ∧ s.session.syncPending = true ∧ s.syncs = [] ∧
        s.queue = []) = true := by
  decide +kernel

end Converger.ResumeSessions
