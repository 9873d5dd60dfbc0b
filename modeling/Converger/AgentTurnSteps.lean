import Converger.AgentTurns

/-!
# No turn is dispatched twice

What every step of the agent and the server keeps: the numbers that were given, what is on its way, and
that a turn once dispatched counts as seen.
-/
namespace Converger.AgentTurns
open Function List Option WatermarkTracker

variable {b : Bool} {known : List String} {c : String} {start : ℕ} {s t : State}

/-! ### Well-formed states -/

/-- The conversations are known and fit the tracker; numbers are given once and grow; what is on its
way was stored; and the agent has seen no number that was not given. -/
structure WellFormed (known : List String) (s : State) : Prop where
  fits : s.agent.tracker.Fits known
  numbered : ∀ x ∈ s.stored,
    1 ≤ x.seq ∧ x.seq ≤ s.lastSeq x.conversationId ∧ x.conversationId ∈ known
  unique : ∀ x ∈ s.stored, ∀ y ∈ s.stored, x.conversationId = y.conversationId → x.seq = y.seq → x = y
  link : ∀ l, s.link = some l → ∀ e ∈ l, e.1 ∈ known ∧ Sent s.stored e.1 e.2
  high_le : ∀ k, (s.agent.tracker.position k).high ≤ s.lastSeq k
  histories_le : ∀ k bound, s.agent.histories.lookup k = some bound → bound ≤ s.lastSeq k
  dispatched_le : ∀ e ∈ s.agent.dispatched, ∀ n ∈ e.2.seq, n ≤ s.lastSeq e.1

theorem Sent.mono {stored stored' : List Stored} {m : Inbound} (h : Sent stored c m)
    (hsubset : stored ⊆ stored') : Sent stored' c m := by
  cases m with
  | ack seq => exact fun n hn => hsubset (h n hn)
  | replayTruncated watermark => trivial
  | frame f => exact ⟨fun n hn => hsubset (h.1 n hn), h.2⟩

theorem Sent.stored {stored : List Stored} {m : Inbound} {n : ℕ} (h : Sent stored c m)
    (hseq : m.seq = some n) : ∃ x ∈ stored, x.conversationId = c ∧ x.seq = n ∧
      (x.body = .message .bot ∨ m = .frame x.frame) := by
  cases m with
  | ack seq => exact ⟨_, h n hseq, rfl, rfl, .inl rfl⟩
  | replayTruncated watermark => cases hseq
  | frame f =>
    have hframe : f = ⟨some n, f.body⟩ := by
      cases f
      exact congrArg (Frame.mk · _) hseq
    exact ⟨_, h.1 n hseq, rfl, rfl, .inr (congrArg Inbound.frame hframe)⟩

structure Still (s t : State) : Prop where
  lastSeq : t.lastSeq = s.lastSeq
  stored : t.stored = s.stored
  dispatched : t.agent.dispatched = s.agent.dispatched
  position? : ∀ k, t.agent.tracker.position? k = s.agent.tracker.position? k

theorem Still.position (h : Still s t) (k : String) :
    t.agent.tracker.position k = s.agent.tracker.position k := by
  rw [Tracker.position, h.position?, Tracker.position]

theorem WellFormed.of_still (h : WellFormed known s) (hstill : Still s t)
    (hfits : t.agent.tracker.Fits known)
    (hlink : ∀ l, t.link = some l → ∀ e ∈ l, e.1 ∈ known ∧ Sent s.stored e.1 e.2)
    (hhistories : ∀ k bound, t.agent.histories.lookup k = some bound → bound ≤ s.lastSeq k) :
    WellFormed known t where
  fits := hfits
  numbered := by
    rw [hstill.stored, hstill.lastSeq]
    exact h.numbered
  unique := by
    rw [hstill.stored]
    exact h.unique
  link := by
    rw [hstill.stored]
    exact hlink
  high_le := by
    intro k
    rw [hstill.position, hstill.lastSeq]
    exact h.high_le k
  histories_le := by
    rw [hstill.lastSeq]
    exact hhistories
  dispatched_le := by
    rw [hstill.dispatched, hstill.lastSeq]
    exact h.dispatched_le

def Event.isStill : Event → Bool
  | .store _ _ | .deliver _ => false
  | .send _ _ | .disconnect | .connect | .history _ | .historyDone _ | .enqueue _ => true

theorem history_cases (a : Agent) (c : String) : a.history c = a ∨
    a.history c = {a with
      tracker := a.tracker.touch c
      histories := (c, a.tracker.get c) :: a.histories} := by
  unfold Agent.history
  split
  · exact .inl rfl
  · exact .inr rfl

theorem mem_replay {stored : List Stored} {watermarks : List (String × ℕ)} {e : String × Inbound} :
    e ∈ replay stored watermarks ↔ ∃ x ∈ stored,
      (watermarks.lookup x.conversationId).any (· < x.seq) = true ∧
        (x.conversationId, .frame x.frame) = e := by
  simp only [replay, List.mem_map, mem_filter, and_assoc]

variable {x : Stored}

theorem sent_frame {stored : List Stored} (h : x ∈ stored) :
    Sent stored x.conversationId (.frame x.frame) := by
  refine ⟨fun n hn => ?_, fun hnone => ?_⟩
  · cases hn
    exact h
  · cases hnone

theorem lookup_history {a : Agent} {k : String} {bound : ℕ}
    (h : (a.history c).histories.lookup k = some bound) :
    a.histories.lookup k = some bound ∨ k = c ∧ bound = a.tracker.get c := by
  rcases history_cases a c with heq | heq
  · rw [heq] at h
    exact .inl h
  · rw [heq, lookup_cons] at h
    by_cases hk : k = c
    · rw [beq_iff_eq.mpr hk] at h
      exact .inr ⟨hk, (some.inj h).symm⟩
    · rw [beq_eq_false_iff_ne.mpr hk] at h
      exact .inl h

/-- A step in which nothing is stored and nothing arrives. -/
theorem step_still {e : Event} (h : WellFormed known s) (he : e.isStill = true)
    (hknown : ∀ id ∈ e.conversations, id ∈ known) (ht : step b s e = some t) :
    Still s t ∧ t.agent.tracker.Fits known ∧
      (∀ l, t.link = some l → ∀ e ∈ l, e.1 ∈ known ∧ Sent s.stored e.1 e.2) ∧
      ∀ k bound, t.agent.histories.lookup k = some bound → bound ≤ s.lastSeq k := by
  have hsame : ∀ link histories, Still s {s with link, agent := {s.agent with histories}} :=
    fun _ _ => ⟨rfl, rfl, rfl, fun _ => rfl⟩
  have htouch : ∀ id ∈ known, ∀ histories,
      Still s {s with agent := {s.agent with tracker := s.agent.tracker.touch id, histories}} :=
    fun id hid _ => ⟨rfl, rfl, rfl, fun k => h.fits.position?_touch hid k⟩
  cases e with
  | store k body | deliver i => cases he
  | send k m =>
    obtain ⟨l, hl, ht⟩ := bind_eq_some_iff.mp ht
    obtain ⟨hsent, rfl⟩ := ite_some_none_eq_some.mp ht
    refine ⟨hsame _ s.agent.histories, h.fits, fun l' hl' e he => ?_, h.histories_le⟩
    cases hl'
    rcases mem_snoc.mp he with he | rfl
    · exact h.link l hl e he
    · exact ⟨hknown k mem_cons_self, hsent⟩
  | disconnect =>
    obtain ⟨-, rfl⟩ := ite_some_none_eq_some.mp ht
    refine ⟨hsame _ s.agent.histories, h.fits, fun l hl => ?_, h.histories_le⟩
    cases hl
  | connect =>
    obtain ⟨-, ht⟩ := ite_none_left_eq_some.mp ht
    cases ht
    refine ⟨hsame _ s.agent.histories, h.fits, fun l hl e he => ?_, h.histories_le⟩
    cases hl
    obtain ⟨x, hx, -, rfl⟩ := mem_replay.mp he
    exact ⟨(h.numbered x hx).2.2, sent_frame hx⟩
  | history k =>
    cases ht
    have hk := hknown k mem_cons_self
    rw [← and_assoc]
    refine ⟨?_, h.link, fun k' bound hbound => ?_⟩
    · rcases history_cases s.agent k with heq | heq
      · rw [heq]
        exact ⟨hsame s.link s.agent.histories, h.fits⟩
      · rw [heq]
        exact ⟨htouch k hk _, h.fits.touch hk⟩
    · rcases lookup_history hbound with hbound | ⟨rfl, rfl⟩
      · exact h.histories_le k' bound hbound
      · rw [Tracker.get_eq]
        exact h.high_le k'
  | historyDone k =>
    cases ht
    refine ⟨hsame s.link _, h.fits, h.link, fun k' bound hbound => ?_⟩
    exact h.histories_le k' bound (lookup_of_delete hbound)
  | enqueue k =>
    cases ht
    have hk := hknown k mem_cons_self
    exact ⟨htouch k hk s.agent.histories, h.fits.touch hk, h.link, h.histories_le⟩

/-! ### Storing -/

theorem update_le (lastSeq : String → ℕ) (c k : String) :
    lastSeq k ≤ update lastSeq c (lastSeq c + 1) k :=
  le_update_self_iff.mpr (Nat.le_succ _) k

variable {body : Body}

theorem link_store {l : List (String × Inbound)} (h : (s.store c body).link = some l) :
    ∃ l', s.link = some l' ∧ l' ⊆ l ∧
      (body = .message .user → (c, .frame ⟨some (s.lastSeq c + 1), body⟩) ∈ l) ∧
      ∀ e ∈ l, e ∈ l' ∨ e = (c, .frame ⟨some (s.lastSeq c + 1), body⟩) := by
  simp only [State.store] at h
  split at h
  · obtain ⟨l', hl', rfl⟩ := map_eq_some_iff.mp h
    refine ⟨l', hl', subset_append_left _ _, fun _ => ?_, fun e he => ?_⟩
    · exact mem_append_right _ mem_cons_self
    · exact mem_snoc.mp he
  · rename_i hbody
    exact ⟨l, h, List.Subset.refl l, fun heq => absurd heq hbody, fun e he => .inl he⟩

theorem link_store_eq_none (h : (s.store c body).link = none) : s.link = none := by
  simp only [State.store] at h
  split at h
  · exact map_eq_none_iff.mp h
  · exact h

theorem WellFormed.store (h : WellFormed known s) (hc : c ∈ known) (body : Body) :
    WellFormed known (s.store c body) where
  fits := h.fits
  numbered := by
    intro x hx
    rcases mem_snoc.mp hx with hx | rfl
    · obtain ⟨hone, hle, hknown⟩ := h.numbered x hx
      exact ⟨hone, hle.trans (update_le _ _ _), hknown⟩
    · refine ⟨Nat.succ_pos _, ?_, hc⟩
      simp only [State.store, update_self, le_refl]
  unique := by
    -- Earlier numbers of the conversation are below the new one.
    have hnew : ∀ x ∈ s.stored, x.conversationId = c → x.seq ≠ s.lastSeq c + 1 := by
      rintro x hx rfl heq
      have hle := (h.numbered x hx).2.1
      omega
    intro x hx y hy hconv hseq
    rcases mem_snoc.mp hx with hx | rfl
    · rcases mem_snoc.mp hy with hy | rfl
      · exact h.unique x hx y hy hconv hseq
      · exact absurd hseq (hnew x hx hconv)
    · rcases mem_snoc.mp hy with hy | hy
      · exact absurd hseq.symm (hnew y hy hconv.symm)
      · exact hy.symm
  link := by
    intro l hl e he
    obtain ⟨l', hl', -, -, hmem⟩ := link_store hl
    rcases hmem e he with he | rfl
    · obtain ⟨hknown, hsent⟩ := h.link l' hl' e he
      exact ⟨hknown, hsent.mono (subset_append_left _ _)⟩
    · exact ⟨hc, sent_frame (mem_append_right _ mem_cons_self)⟩
  high_le := fun k => (h.high_le k).trans (update_le _ _ _)
  histories_le := fun k bound hbound => (h.histories_le k bound hbound).trans (update_le _ _ _)
  dispatched_le := fun e he n hn => (h.dispatched_le e he n hn).trans (update_le _ _ _)

/-! ### Arrivals -/

section
variable {i : ℕ} {l : List (String × Inbound)} {e : String × Inbound}

def State.deliver (s : State) (b : Bool) (i : ℕ) (e : String × Inbound) : State :=
  {s with
    link := s.link.map (·.eraseIdx i)
    agent := s.agent.onEnveloped b e.1 e.2}

theorem deliver_eq_some (ht : step b s (.deliver i) = some t) :
    ∃ e l, s.link = some l ∧ l[i]? = some e ∧ t = s.deliver b i e := by
  obtain ⟨e, he, rfl⟩ := map_eq_some_iff.mp ht
  obtain ⟨l, hl, hi⟩ := bind_eq_some_iff.mp he
  exact ⟨e, l, hl, hi, rfl⟩

theorem step_cases {e : Event} (ht : step b s e = some t) :
    e.isStill = true ∨ (∃ k body, e = .store k body ∧ t = s.store k body) ∨
      ∃ i d l, e = .deliver i ∧ s.link = some l ∧ l[i]? = some d ∧ t = s.deliver b i d := by
  cases e with
  | store k body =>
    cases ht
    exact .inr (.inl ⟨k, body, rfl, rfl⟩)
  | deliver i =>
    obtain ⟨d, l, hl, hi, rfl⟩ := deliver_eq_some ht
    exact .inr (.inr ⟨i, d, l, rfl, hl, hi, rfl⟩)
  | send k m | disconnect | connect | history k | historyDone k | enqueue k => exact .inl rfl

section
variable (h : WellFormed known s) (hl : s.link = some l) (hi : l[i]? = some e)
include h hl hi

theorem WellFormed.arriving
    {n : ℕ} (hseq : e.2.seq = some n) : ∃ x ∈ s.stored, x.conversationId = e.1 ∧ x.seq = n ∧
      (x.body = .message .bot ∨ e.2 = .frame x.frame) :=
  (h.link l hl e (mem_of_getElem? hi)).2.stored hseq

theorem WellFormed.known_arriving : e.1 ∈ known :=
  (h.link l hl e (mem_of_getElem? hi)).1

theorem WellFormed.position?_of_seq {n : ℕ} (hseq : e.2.seq = some n) (k : String) :
    (s.deliver b i e).agent.tracker.position? k =
      if k = e.1 then some ((s.agent.tracker.position e.1).record n).2
      else s.agent.tracker.position? k := by
  obtain ⟨x, hx, -, rfl, -⟩ := h.arriving hl hi hseq
  rw [State.deliver, tracker_onEnveloped_of_seq hseq]
  exact h.fits.position?_record (h.known_arriving hl hi) (h.numbered x hx).1 k

theorem WellFormed.position?_of_none (hseq : e.2.seq = none) (k : String) :
    (s.deliver b i e).agent.tracker.position? k = s.agent.tracker.position? k := by
  rw [State.deliver]
  rcases tracker_onEnveloped_of_none (a := s.agent) (b := b) (c := e.1) hseq with heq | heq
  · rw [heq]
  · rw [heq, h.fits.position?_touch (h.known_arriving hl hi)]

/-- The position of a conversation after an arrival: the one before it, or with a number of the
conversation recorded. -/
theorem WellFormed.position_deliver (k : String) :
    ((s.deliver b i e).agent.tracker.position k = s.agent.tracker.position k ∧ (e.1 = k → e.2.seq = none)) ∨
      ∃ n, e.1 = k ∧ e.2.seq = some n ∧ (s.deliver b i e).agent.tracker.position k =
        ((s.agent.tracker.position k).record n).2 := by
  cases hseq : e.2.seq with
  | none =>
    refine .inl ⟨?_, fun _ => rfl⟩
    rw [Tracker.position, h.position?_of_none hl hi hseq, Tracker.position]
  | some n =>
    have hposition := h.position?_of_seq (b := b) hl hi hseq k
    by_cases hk : k = e.1
    · rw [if_pos hk] at hposition
      refine .inr ⟨n, hk.symm, rfl, ?_⟩
      rw [Tracker.position, hposition, hk]
      rfl
    · rw [if_neg hk] at hposition
      refine .inl ⟨?_, fun heq => absurd heq.symm hk⟩
      rw [Tracker.position, hposition, Tracker.position]

theorem WellFormed.fits_deliver : (s.deliver b i e).agent.tracker.Fits known := by
  have hknown := h.known_arriving hl hi
  rw [State.deliver]
  cases hseq : e.2.seq with
  | none =>
    rcases tracker_onEnveloped_of_none (a := s.agent) (b := b) (c := e.1) hseq with heq | heq
    · rw [heq]
      exact h.fits
    · rw [heq]
      exact h.fits.touch hknown
  | some n =>
    rw [tracker_onEnveloped_of_seq hseq]
    exact h.fits.record hknown n

theorem WellFormed.deliver : WellFormed known (s.deliver b i e) where
  fits := h.fits_deliver hl hi
  numbered := h.numbered
  unique := h.unique
  link := by
    intro l' hl' e' he'
    obtain ⟨l'', hl'', rfl⟩ := map_eq_some_iff.mp hl'
    exact h.link l'' hl'' e' (mem_of_mem_eraseIdx he')
  high_le := by
    intro k
    rcases h.position_deliver (b := b) hl hi k with ⟨heq, -⟩ | ⟨n, rfl, hseq, heq⟩
    · rw [heq]
      exact h.high_le k
    · obtain ⟨x, hx, hconv, rfl, -⟩ := h.arriving hl hi hseq
      rw [heq, (Position.record_spec _ _).2.1]
      refine max_le (h.high_le _) ?_
      rw [← hconv]
      exact (h.numbered x hx).2.1
  histories_le := fun k bound hbound => h.histories_le k bound (lookup_of_onEnveloped hbound)
  dispatched_le := by
    intro d hd n hn
    rcases dispatched_onEnveloped b s.agent e.1 e.2 with heq | ⟨f, hframe, -, heq, -⟩
    · exact h.dispatched_le d (heq ▸ hd) n hn
    · have hd' : d ∈ s.agent.dispatched ++ [(e.1, f)] := heq ▸ hd
      rcases mem_snoc.mp hd' with hd' | rfl
      · exact h.dispatched_le d hd' n hn
      · have hseq : e.2.seq = some n := by
          rw [hframe]
          exact hn
        obtain ⟨x, hx, hconv, rfl, -⟩ := h.arriving hl hi hseq
        rw [← hconv]
        exact (h.numbered x hx).2.1

end

theorem WellFormed.step {e : Event} (h : WellFormed known s)
    (hknown : ∀ id ∈ e.conversations, id ∈ known) (ht : step b s e = some t) : WellFormed known t := by
  rcases step_cases ht with hstill | ⟨k, body, rfl, rfl⟩ | ⟨i, d, l, rfl, hl, hi, rfl⟩
  · obtain ⟨hsame, hfits, hlink, hhistories⟩ := step_still h hstill hknown ht
    exact h.of_still hsame hfits hlink hhistories
  · exact h.store (hknown k mem_cons_self) body
  · exact h.deliver hl hi

end

/-! ### At most once -/

/-- A turn is dispatched at most once, and then its number counts as seen. -/
structure Once (c : String) (start : ℕ) (s : State) : Prop where
  once : ∀ x, s.Turn c start x → s.dispatches x ≤ 1
  marked : ∀ x, s.Turn c start x → x.envelope ∈ s.agent.dispatched →
    (s.agent.tracker.position c).isSeen x.seq = true

theorem Still.turn (h : Still s t) (hx : t.Turn c start x) : s.Turn c start x := by
  rwa [State.Turn, h.stored] at hx

theorem Once.of_still (h : Once c start s) (hstill : Still s t) : Once c start t := by
  refine ⟨fun x hx => ?_, fun x hx hd => ?_⟩
  · rw [State.dispatches, hstill.dispatched]
    exact h.once x (hstill.turn hx)
  · rw [hstill.position]
    rw [hstill.dispatched] at hd
    exact h.marked x (hstill.turn hx) hd

theorem turn_store {k : String} (hx : (s.store k body).Turn c start x) :
    s.Turn c start x ∨ x = ⟨k, s.lastSeq k + 1, body⟩ := by
  obtain ⟨hmem, hrest⟩ := hx
  rcases mem_snoc.mp hmem with hmem | hmem
  · exact .inl ⟨hmem, hrest⟩
  · exact .inr hmem

theorem WellFormed.new_not_dispatched (h : WellFormed known s) (k : String) (body : Body) :
    (⟨k, s.lastSeq k + 1, body⟩ : Stored).envelope ∉ s.agent.dispatched := by
  intro hmem
  have hle := h.dispatched_le _ hmem (s.lastSeq k + 1) rfl
  exact absurd hle (Nat.not_succ_le_self _)

theorem Once.store (h : Once c start s) (hwf : WellFormed known s) (k : String) (body : Body) :
    Once c start (s.store k body) := by
  refine ⟨fun x hx => ?_, fun x hx hd => ?_⟩
  · rcases turn_store hx with hx | rfl
    · exact h.once x hx
    · have hzero := List.count_eq_zero.mpr (hwf.new_not_dispatched k body)
      exact hzero.le.trans (Nat.zero_le 1)
  · rcases turn_store hx with hx | rfl
    · exact h.marked x hx hd
    · exact absurd hd (hwf.new_not_dispatched k body)

section
variable {i : ℕ} {l : List (String × Inbound)} {e : String × Inbound}

theorem WellFormed.isSeen_deliver (h : WellFormed known s) (hl : s.link = some l)
    (hi : l[i]? = some e) {k : String} {n : ℕ} (hn : (s.agent.tracker.position k).isSeen n = true) :
    ((s.deliver b i e).agent.tracker.position k).isSeen n = true := by
  rcases h.position_deliver (b := b) hl hi k with ⟨heq, -⟩ | ⟨m, -, -, heq⟩
  · rw [heq]
    exact hn
  · rw [heq]
    exact (Position.record_spec _ _).2.2.2.1 n hn

theorem WellFormed.unseen_of_fresh (h : WellFormed known s) (hx : x ∈ s.stored)
    (hfresh : (s.agent.tracker.record x.conversationId x.seq).1 = true) :
    (s.agent.tracker.position x.conversationId).isSeen x.seq = false := by
  rw [Tracker.record_fst (h.numbered x hx).1] at hfresh
  simpa using hfresh

theorem Once.deliver (h : Once c start s) (hwf : WellFormed known s) (hl : s.link = some l)
    (hi : l[i]? = some e) : Once c start (s.deliver b i e) := by
  have hsame : ∀ x, s.Turn c start x → x.envelope ∈ s.agent.dispatched →
      ((s.deliver b i e).agent.tracker.position c).isSeen x.seq = true :=
    fun x hx hd => hwf.isSeen_deliver hl hi (h.marked x hx hd)
  rcases dispatched_onEnveloped b s.agent e.1 e.2 with heq | ⟨f, hframe, -, heq, hfresh⟩
  · refine ⟨fun x hx => ?_, fun x hx hd => hsame x hx (heq ▸ hd)⟩
    rw [State.dispatches, State.deliver, heq]
    exact h.once x hx
  · refine ⟨fun x hx => ?_, fun x hx hd => ?_⟩
    · rw [State.dispatches, State.deliver, heq, count_append, count_singleton]
      split
      · rename_i hnew
        obtain ⟨hconv, rfl⟩ := Prod.mk.inj (beq_iff_eq.mp hnew)
        have hunseen := hwf.unseen_of_fresh hx.1 (hconv ▸ hfresh x.seq rfl)
        have hnot : x.envelope ∉ s.agent.dispatched := by
          intro hd
          have hseen := h.marked x hx hd
          rw [← hx.2.1, hunseen] at hseen
          cases hseen
        exact (congrArg (· + 1) (List.count_eq_zero.mpr hnot)).le
      · exact h.once x hx
    · have hd' : x.envelope ∈ s.agent.dispatched ++ [(e.1, f)] := heq ▸ hd
      rcases mem_append.mp hd' with hd' | hd'
      · exact hsame x hx hd'
      · obtain ⟨hconv, hbody⟩ := Prod.mk.inj (mem_singleton.mp hd')
        have hseq : e.2.seq = some x.seq := by
          rw [hframe, ← hbody]
          rfl
        rcases hwf.position_deliver (b := b) hl hi c with ⟨-, hnone⟩ | ⟨n, -, hn, hposition⟩
        · rw [hnone (hconv.symm.trans hx.2.1)] at hseq
          cases hseq
        · cases hn.symm.trans hseq
          rw [hposition]
          exact (Position.record_spec _ _).2.2.1

theorem Once.step {e : Event} (h : Once c start s) (hwf : WellFormed known s)
    (hknown : ∀ id ∈ e.conversations, id ∈ known) (ht : step b s e = some t) : Once c start t := by
  rcases step_cases ht with hstill | ⟨k, body, rfl, rfl⟩ | ⟨i, d, l, rfl, hl, hi, rfl⟩
  · exact h.of_still (step_still hwf hstill hknown ht).1
  · exact h.store hwf k body
  · exact h.deliver hwf hl hi

end

end Converger.AgentTurns
