import Converger.AgentTurnSteps
import Mathlib.Order.WellFounded

/-!
# No turn is missed

What the runs keep in which no overtaken turn meets a loss of the connection or a request for the
history, and how an agent catches up from there.
-/
namespace Converger.AgentTurns
open GuardedRuns WatermarkTracker List Option

variable {b : Bool} {known : List String} {c : String} {start : ℕ} {s t : State}

/-! ### Pending turns -/

/-- A pending turn was not seen, is not overtaken by more than the window, comes over the link or is
above the watermark, and is beyond every history that is being collected. -/
structure Safe (c : String) (start : ℕ) (s : State) : Prop where
  tracked : s.agent.tracker.position? c ≠ none
  unseen : ∀ x, s.Pending c start x → (s.agent.tracker.position c).isSeen x.seq = false
  near : ∀ x, s.Pending c start x → (s.agent.tracker.position c).high ≤ x.seq + window
  coming : ∀ l, s.link = some l → ∀ x, s.Pending c start x → (c, Inbound.frame x.frame) ∈ l
  ahead : s.link = none → ∀ x, s.Pending c start x → (s.agent.tracker.position c).high < x.seq
  uncollected : ∀ bound, s.agent.histories.lookup c = some bound →
    ∀ x, s.Pending c start x → bound < x.seq

theorem Safe.high_lt (h : Safe c start s) (hnone : s.NoneOvertaken c start) {x : Stored}
    (hx : s.Pending c start x) : (s.agent.tracker.position c).high < x.seq := by
  have hle := hnone x hx.1.1 hx
  rw [State.watermark, Tracker.get_eq] at hle
  apply lt_of_le_of_ne hle
  intro heq
  have hunseen := h.unseen x hx
  rw [← heq, Position.isSeen_high] at hunseen
  cases hunseen

theorem Still.pending (h : Still s t) {x : Stored} (hx : t.Pending c start x) :
    s.Pending c start x := by
  refine ⟨h.turn hx.1, ?_⟩
  rw [← h.dispatched]
  exact hx.2

theorem Safe.of_still (h : Safe c start s) (hstill : Still s t)
    (hcoming : ∀ l, t.link = some l → ∀ x, s.Pending c start x → (c, Inbound.frame x.frame) ∈ l)
    (hahead : t.link = none → ∀ x, s.Pending c start x → (s.agent.tracker.position c).high < x.seq)
    (huncollected : ∀ bound, t.agent.histories.lookup c = some bound →
      ∀ x, s.Pending c start x → bound < x.seq) : Safe c start t where
  tracked := by
    rw [hstill.position?]
    exact h.tracked
  unseen := by
    intro x hx
    rw [hstill.position]
    exact h.unseen x (hstill.pending hx)
  near := by
    intro x hx
    rw [hstill.position]
    exact h.near x (hstill.pending hx)
  coming := fun l hl x hx => hcoming l hl x (hstill.pending hx)
  ahead := by
    intro hl x hx
    rw [hstill.position]
    exact hahead hl x (hstill.pending hx)
  uncollected := fun bound hbound x hx => huncollected bound hbound x (hstill.pending hx)

theorem mem_replay_of_high_lt {x : Stored} (htracked : s.agent.tracker.position? c ≠ none)
    (hx : s.Pending c start x) (hlt : (s.agent.tracker.position c).high < x.seq) :
    (c, Inbound.frame x.frame) ∈ replay s.stored s.agent.tracker.snapshot := by
  obtain ⟨p, hp⟩ := ne_none_iff_exists'.mp htracked
  have hposition : s.agent.tracker.position c = p := by
    rw [Tracker.position, hp]
    rfl
  rw [hposition] at hlt
  refine mem_replay.mpr ⟨x, hx.1.1, ?_, by rw [hx.1.2.1]⟩
  rw [hx.1.2.1, Tracker.lookup_snapshot hp]
  exact decide_eq_true hlt

theorem pending_store {k : String} {body : Body} {x : Stored}
    (hx : (s.store k body).Pending c start x) :
    s.Pending c start x ∨ k = c ∧ body = .message .user ∧ x = ⟨c, s.lastSeq c + 1, .message .user⟩ := by
  rcases turn_store hx.1 with hturn | rfl
  · exact .inl ⟨hturn, hx.2⟩
  · obtain ⟨⟨-, hconv, hbody, -⟩, -⟩ := hx
    cases hconv
    cases hbody
    exact .inr ⟨rfl, rfl, rfl⟩

section
variable {i : ℕ} {l : List (String × Inbound)} {e : String × Inbound} {x : Stored}

theorem mem_dispatched_deliver {d : String × Frame} (h : d ∈ s.agent.dispatched) :
    d ∈ (s.deliver b i e).agent.dispatched := by
  rw [State.deliver]
  rcases dispatched_onEnveloped b s.agent e.1 e.2 with heq | ⟨f, -, -, heq, -⟩
  · rw [heq]
    exact h
  · rw [heq]
    exact mem_append_left _ h

theorem arriving_eq_some (hl : s.link = some l) (hi : l[i]? = some e) : s.arriving i = some e := by
  rw [State.arriving, hl]
  exact hi

section
variable (h : Safe c start s) (hwf : WellFormed known s) (hl : s.link = some l) (hi : l[i]? = some e)
include h hwf

theorem Safe.store (k : String) (body : Body) :
    Safe c start (s.store k body) where
  tracked := h.tracked
  unseen := by
    intro x hx
    rcases pending_store hx with hx | ⟨-, -, rfl⟩
    · exact h.unseen x hx
    · apply Bool.eq_false_iff.mpr
      intro hseen
      have hle := (Position.le_high_of_isSeen hseen).trans (hwf.high_le c)
      exact absurd hle (Nat.not_succ_le_self _)
  near := by
    intro x hx
    rcases pending_store hx with hx | ⟨-, -, rfl⟩
    · exact h.near x hx
    · have hle := hwf.high_le c
      change (s.agent.tracker.position c).high ≤ s.lastSeq c + 1 + window
      omega
  coming := by
    intro l hl x hx
    obtain ⟨l', hl', hsubset, hnew, -⟩ := link_store hl
    rcases pending_store hx with hx | ⟨rfl, rfl, rfl⟩
    · exact hsubset (h.coming l' hl' x hx)
    · exact hnew rfl
  ahead := by
    intro hl x hx
    rcases pending_store hx with hx | ⟨-, -, rfl⟩
    · exact h.ahead (link_store_eq_none hl) x hx
    · exact Nat.lt_succ_of_le (hwf.high_le c)
  uncollected := by
    intro bound hbound x hx
    rcases pending_store hx with hx | ⟨-, -, rfl⟩
    · exact h.uncollected bound hbound x hx
    · exact Nat.lt_succ_of_le (hwf.histories_le c bound hbound)

include hl hi

theorem Safe.dispatched_of_arriving (hx : s.Pending c start x) (hc : e.1 = c)
    (hseq : e.2.seq = some x.seq) : x.envelope ∈ (s.deliver b i e).agent.dispatched := by
  obtain ⟨hstored, hconv, hbody, -⟩ := hx.1
  obtain ⟨y, hy, hyconv, hyseq, hsent⟩ := hwf.arriving hl hi hseq
  cases hwf.unique y hy x hstored (hyconv.trans (hc.trans hconv.symm)) hyseq
  rcases hsent with hbot | hframe
  · rw [hbody] at hbot
    cases hbot
  · have hturn : isTurn b x.frame = true := by
      rw [isTurn, Stored.frame, hbody]
    have hfresh : (s.agent.tracker.record c x.seq).1 = true := by
      rw [Tracker.record_fst (hwf.numbered x hstored).1, h.unseen x hx]
      rfl
    have hdispatched := dispatched_of_turn hturn rfl
      (fun bound hbound => h.uncollected bound hbound x hx) hfresh
    rw [State.deliver, hframe, hc]
    change x.envelope ∈ (s.agent.onEnveloped b c (.frame x.frame)).dispatched
    rw [hdispatched, Stored.envelope, hconv]
    exact mem_append_right _ mem_cons_self

/-- A turn that is pending after an arrival was pending before it, and has another number. -/
theorem Safe.pending_deliver (hx : (s.deliver b i e).Pending c start x) :
    s.Pending c start x ∧ (e.1 = c → e.2.seq ≠ some x.seq) := by
  have hpending : s.Pending c start x := ⟨hx.1, fun hd => hx.2 (mem_dispatched_deliver hd)⟩
  refine ⟨hpending, fun hc hseq => hx.2 ?_⟩
  exact h.dispatched_of_arriving hwf hl hi hpending hc hseq

theorem Safe.deliver (hnear : e.1 = c → ∀ n, e.2.seq = some n → ∀ x, s.Pending c start x → n ≤ x.seq + window) :
    Safe c start (s.deliver b i e) where
  tracked := by
    cases hseq : e.2.seq with
    | none =>
      rw [hwf.position?_of_none hl hi hseq]
      exact h.tracked
    | some n =>
      rw [hwf.position?_of_seq hl hi hseq]
      split
      · exact some_ne_none _
      · exact h.tracked
  unseen := by
    intro x hx
    obtain ⟨hx, hne⟩ := h.pending_deliver hwf hl hi hx
    rcases hwf.position_deliver (b := b) hl hi c with ⟨heq, -⟩ | ⟨n, hc, hseq, heq⟩
    · rw [heq]
      exact h.unseen x hx
    · -- Only the number that arrived and numbers far below it count as seen in addition.
      rw [heq]
      apply Bool.eq_false_iff.mpr
      intro hseen
      rcases (Position.record_spec _ _).2.2.2.2 _ hseen with hseen | hn | hfar
      · rw [h.unseen x hx] at hseen
        cases hseen
      · exact hne hc (hn ▸ hseq)
      · have hhigh := h.near x hx
        have hn := hnear hc n hseq x hx
        omega
  near := by
    intro x hx
    obtain ⟨hx, -⟩ := h.pending_deliver hwf hl hi hx
    rcases hwf.position_deliver (b := b) hl hi c with ⟨heq, -⟩ | ⟨n, hc, hseq, heq⟩
    · rw [heq]
      exact h.near x hx
    · rw [heq, (Position.record_spec _ _).2.1]
      exact max_le (h.near x hx) (hnear hc n hseq x hx)
  coming := by
    intro l' hl' x hx
    obtain ⟨hx, hne⟩ := h.pending_deliver hwf hl hi hx
    rw [State.deliver, hl] at hl'
    cases hl'
    obtain ⟨j, hj⟩ := mem_iff_getElem?.mp (h.coming l hl x hx)
    refine mem_eraseIdx_iff_getElem?.mpr ⟨j, ?_, hj⟩
    rintro rfl
    cases hi.symm.trans hj
    exact hne rfl rfl
  ahead := by
    intro hnone
    rw [State.deliver, hl] at hnone
    cases hnone
  uncollected := by
    intro bound hbound x hx
    obtain ⟨hx, -⟩ := h.pending_deliver hwf hl hi hx
    exact h.uncollected bound (lookup_of_onEnveloped hbound) x hx

omit hl hi

variable {e : Event} (hknown : ∀ id ∈ e.conversations, id ∈ known) (horderly : Orderly c start s e)
  (ht : step b s e = some t)
include hknown horderly ht

theorem Safe.still (he : e.isStill = true) : Safe c start t := by
  have hstill := (step_still hwf he hknown ht).1
  cases e with
  | store k body | deliver i => cases he
  | send k m =>
    obtain ⟨l, hl, ht⟩ := bind_eq_some_iff.mp ht
    obtain ⟨-, rfl⟩ := ite_some_none_eq_some.mp ht
    refine h.of_still hstill (fun l' hl' x hx => ?_) (fun hnone => ?_) h.uncollected
    · cases hl'
      exact mem_append_left _ (h.coming l hl x hx)
    · cases hnone
  | disconnect =>
    obtain ⟨-, rfl⟩ := ite_some_none_eq_some.mp ht
    refine h.of_still hstill (fun l hl => ?_) (fun _ x hx => ?_) h.uncollected
    · cases hl
    · exact h.high_lt horderly hx
  | connect =>
    obtain ⟨hlink, ht⟩ := ite_none_left_eq_some.mp ht
    cases ht
    have hnone : s.link = none := not_isSome_iff_eq_none.mp hlink
    refine h.of_still hstill (fun l hl x hx => ?_) (fun hl => ?_) h.uncollected
    · cases hl
      exact mem_replay_of_high_lt h.tracked hx (h.ahead hnone x hx)
    · cases hl
  | history k =>
    cases ht
    refine h.of_still hstill h.coming h.ahead (fun bound hbound x hx => ?_)
    rcases lookup_history hbound with hbound | ⟨rfl, rfl⟩
    · exact h.uncollected bound hbound x hx
    · rw [Tracker.get_eq]
      exact h.high_lt (horderly rfl) hx
  | historyDone k =>
    cases ht
    refine h.of_still hstill h.coming h.ahead (fun bound hbound x hx => ?_)
    exact h.uncollected bound (lookup_of_delete hbound) x hx
  | enqueue k =>
    cases ht
    exact h.of_still hstill h.coming h.ahead h.uncollected

theorem Safe.step : Safe c start t := by
  rcases step_cases ht with hstill | ⟨k, body, rfl, rfl⟩ | ⟨i, d, l, rfl, hl, hi, rfl⟩
  · exact h.still hwf hknown horderly ht hstill
  · exact h.store hwf k body
  · refine h.deliver hwf hl hi (fun hc n hseq x hx => ?_)
    exact horderly d (arriving_eq_some hl hi) hc n hseq x hx.1.1 hx

end

end

/-! ### Receiving what is left -/

def Event.isReceipt : Event → Bool
  | .connect | .deliver _ => true
  | .store _ _ | .send _ _ | .disconnect | .history _ | .historyDone _ | .enqueue _ => false

theorem exists_least_pending (h : ∃ x, s.Pending c start x) :
    ∃ x, s.Pending c start x ∧ ∀ y, s.Pending c start y → x.seq ≤ y.seq := by
  obtain ⟨x, hx, hleast⟩ := (measure Stored.seq).wf.has_min {x | s.Pending c start x} h
  exact ⟨x, hx, fun y hy => Nat.not_lt.mp (hleast y hy)⟩

theorem exists_receipts (n : ℕ) : ∀ {s : State} {l : List (String × Inbound)} (pending : List Stored),
    pending.length = n → WellFormed known s → Once c start s → Safe c start s → s.link = some l →
    (∀ x, s.Pending c start x → x ∈ pending) →
    ∃ fs t, run (step b) s fs = some t ∧ (∀ e ∈ fs, e.isReceipt = true) ∧ t.stored = s.stored ∧
      Once c start t ∧ ∀ x, ¬ t.Pending c start x := by
  induction n with
  | zero =>
    intro s l pending hlength _ honce _ _ hpending
    rw [length_eq_zero_iff.mp hlength] at hpending
    exact ⟨[], s, rfl, fun e he => absurd he not_mem_nil, rfl, honce,
      fun x hx => absurd (hpending x hx) not_mem_nil⟩
  | succ n ih =>
    intro s l pending hlength hwf honce hsafe hl hpending
    by_cases hsome : ∃ x, s.Pending c start x
    · obtain ⟨x, hx, hleast⟩ := exists_least_pending hsome
      obtain ⟨i, hi⟩ := mem_iff_getElem?.mp (hsafe.coming l hl x hx)
      set e : String × Inbound := (c, .frame x.frame) with he
      have hsafe' : Safe c start (s.deliver b i e) := by
        refine hsafe.deliver hwf hl hi (fun _ m hm y hy => ?_)
        cases hm
        exact (hleast y hy).trans (Nat.le_add_right _ _)
      have hstep : step b s (.deliver i) = some (s.deliver b i e) := by
        rw [step, arriving_eq_some hl hi]
        rfl
      have hlink : (s.deliver b i e).link = some (l.eraseIdx i) := by
        rw [State.deliver, hl]
        rfl
      -- The turn that arrived is not pending any more.
      have hrest : ∀ y, (s.deliver b i e).Pending c start y → y ∈ pending.erase x := by
        intro y hy
        obtain ⟨hy, hne⟩ := hsafe.pending_deliver hwf hl hi hy
        refine (mem_erase_of_ne ?_).mpr (hpending y hy)
        rintro rfl
        exact hne rfl rfl
      have herase : (pending.erase x).length = n := by
        rw [length_erase_of_mem (hpending x hx), hlength]
        rfl
      obtain ⟨fs, t, ht, hreceipts, hstored, hrun⟩ :=
        ih (pending.erase x) herase (hwf.deliver hl hi) (honce.deliver hwf hl hi) hsafe' hlink hrest
      refine ⟨.deliver i :: fs, t, run_cons_eq_some.mpr ⟨_, hstep, ht⟩, ?_, hstored, hrun⟩
      exact forall_mem_cons.mpr ⟨rfl, hreceipts⟩
    · exact ⟨[], s, rfl, fun e he => absurd he not_mem_nil, rfl, honce, fun x hx => hsome ⟨x, hx⟩⟩

/-- From every such state the agent can catch up, after a reconnect where it is needed. -/
theorem Safe.exists_receipts (h : Safe c start s) (hwf : WellFormed known s) (honce : Once c start s) :
    ∃ fs t, run (AgentTurns.step b) s fs = some t ∧ (∀ e ∈ fs, e.isReceipt = true) ∧
      t.stored = s.stored ∧ Once c start t ∧ ∀ x, ¬ t.Pending c start x := by
  cases hl : s.link with
  | some l => exact AgentTurns.exists_receipts _ s.stored rfl hwf honce h hl fun x hx => hx.1.1
  | none =>
    have hstep : AgentTurns.step b s .connect =
        some {s with link := some (replay s.stored s.agent.tracker.snapshot)} := by
      rw [AgentTurns.step, hl]
      rfl
    have hknown : ∀ id ∈ Event.connect.conversations, id ∈ known := fun id hid => absurd hid not_mem_nil
    obtain ⟨fs, t, ht, hreceipts, hrun⟩ := AgentTurns.exists_receipts _ s.stored rfl
      (hwf.step hknown hstep) (honce.step hwf hknown hstep)
      (h.step hwf hknown trivial hstep) rfl fun x hx => hx.1.1
    refine ⟨.connect :: fs, t, run_cons_eq_some.mpr ⟨_, hstep, ht⟩, ?_, hrun⟩
    exact forall_mem_cons.mpr ⟨rfl, hreceipts⟩

/-! ### Every run -/

/-- Where the agent starts to follow the conversation, no turn was stored after it. -/
theorem WellFormed.not_turn (h : WellFormed known s) (x : Stored) : ¬ s.Turn c (s.lastSeq c) x := by
  rintro ⟨hx, rfl, -, hlt⟩
  have hle := (h.numbered x hx).2.1
  omega

theorem WellFormed.once (h : WellFormed known s) : Once c (s.lastSeq c) s :=
  ⟨fun x hx => absurd hx (h.not_turn x), fun x hx => absurd hx (h.not_turn x)⟩

theorem WellFormed.safe (h : WellFormed known s) (htracked : s.agent.tracker.position? c ≠ none) :
    Safe c (s.lastSeq c) s where
  tracked := htracked
  unseen := fun x hx => absurd hx.1 (h.not_turn x)
  near := fun x hx => absurd hx.1 (h.not_turn x)
  coming := fun _ _ x hx => absurd hx.1 (h.not_turn x)
  ahead := fun _ x hx => absurd hx.1 (h.not_turn x)
  uncollected := fun _ _ x hx => absurd hx.1 (h.not_turn x)

theorem Once.dispatches_eq_one (h : Once c start s) {x : Stored} (hx : s.Turn c start x)
    (hnot : ¬ s.Pending c start x) : s.dispatches x = 1 := by
  have hmem : x.envelope ∈ s.agent.dispatched := by
    by_contra hmem
    exact hnot ⟨hx, hmem⟩
  have hpos : 0 < s.dispatches x := count_pos_iff.mpr hmem
  have hle := h.once x hx
  omega

/-- For every conversation that is tracked where the run starts: no turn that is stored after that is
dispatched twice. In the runs in which the connection is not lost and the history not asked for while a
turn is overtaken, and in which nothing overtakes a turn by more than the window, the watermark of
`hello` is below every turn that was not dispatched; a turn with nothing left on its way was dispatched
exactly once; and from every state the agent, reconnecting if it has to, receives all turns and has then
dispatched each of them exactly once. -/
theorem turns_dispatched_once (includeBotTurns : Bool) (known : List String) (c : String)
    (s₀ s : State) (es : List Event) (hwf : WellFormed known s₀)
    (htracked : s₀.agent.tracker.position? c ≠ none) (hknown : ∀ e ∈ es, ∀ id ∈ e.conversations, id ∈ known)
    (hrun : run (step includeBotTurns) s₀ es = some s) :
    (∀ x, s.Turn c (s₀.lastSeq c) x → s.dispatches x ≤ 1) ∧
      (Along (step includeBotTurns) (Orderly c (s₀.lastSeq c)) s₀ es →
        (s.link = none → ∀ x, s.Turn c (s₀.lastSeq c) x → s.dispatches x = 0 → s.watermark c < x.seq) ∧
        (∀ l, s.link = some l → ∀ x, s.Turn c (s₀.lastSeq c) x → (c, Inbound.frame x.frame) ∉ l →
          s.dispatches x = 1) ∧
        ∃ fs t, run (step includeBotTurns) s fs = some t ∧ (∀ e ∈ fs, e.isReceipt = true) ∧
          ∀ x, s.Turn c (s₀.lastSeq c) x → t.dispatches x = 1) := by
  have hstep : ∀ {u e v}, WellFormed known u ∧ Once c (s₀.lastSeq c) u →
      (∀ id ∈ e.conversations, id ∈ known) → step includeBotTurns u e = some v →
      WellFormed known v ∧ Once c (s₀.lastSeq c) v := by
    intro u e v hu he hv
    exact ⟨hu.1.step he hv, hu.2.step hu.1 he hv⟩
  obtain ⟨hwf', honce⟩ := run_invariant_forall hstep ⟨hwf, hwf.once⟩ hknown hrun
  refine ⟨honce.once, fun horderly => ?_⟩
  have hsafely : ∀ {u e v}, WellFormed known u ∧ Safe c (s₀.lastSeq c) u →
      Orderly c (s₀.lastSeq c) u e ∧ (∀ id ∈ e.conversations, id ∈ known) →
      step includeBotTurns u e = some v → WellFormed known v ∧ Safe c (s₀.lastSeq c) v := by
    intro u e v hu he hv
    exact ⟨hu.1.step he.2 hv, hu.2.step hu.1 he.2 he.1 hv⟩
  obtain ⟨-, hsafe⟩ :=
    run_invariant_along hsafely ⟨hwf, hwf.safe htracked⟩ (horderly.and (along_of_forall hknown)) hrun
  refine ⟨fun hl x hx hzero => ?_, fun l hl x hx hmissing => ?_, ?_⟩
  · rw [State.watermark, Tracker.get_eq]
    exact hsafe.ahead hl x ⟨hx, List.count_eq_zero.mp hzero⟩
  · exact honce.dispatches_eq_one hx fun hpending => hmissing (hsafe.coming l hl x hpending)
  · obtain ⟨fs, t, ht, hreceipts, hstored, honce', hnone⟩ :=
      hsafe.exists_receipts (b := includeBotTurns) hwf' honce
    refine ⟨fs, t, ht, hreceipts, fun x hx => ?_⟩
    have hturn : t.Turn c (s₀.lastSeq c) x := by
      rw [State.Turn, hstored]
      exact hx
    exact honce'.dispatches_eq_one hturn (hnone x)

def starting (lastSeq : String → ℕ) (capacity : ℕ) (watermarks : List (String × ℕ)) : State where
  lastSeq := lastSeq
  stored := []
  agent := {tracker := .new capacity watermarks}
  link := none

theorem wellFormed_starting {lastSeq : String → ℕ} {capacity : ℕ} {watermarks : List (String × ℕ)}
    (hlength : known.length ≤ max 1 capacity)
    (hwatermarks : ∀ entry ∈ watermarks, entry.1 ∈ known ∧ entry.2 ≤ lastSeq entry.1) :
    WellFormed known (starting lastSeq capacity watermarks) where
  fits := (Tracker.fits_new hlength hwatermarks).1
  numbered := fun _ hx => absurd hx not_mem_nil
  unique := fun _ hx => absurd hx not_mem_nil
  link := fun l hl => absurd hl (some_ne_none l).symm
  high_le := (Tracker.fits_new hlength hwatermarks).2
  histories_le := fun _ bound hbound => absurd hbound (some_ne_none bound).symm
  dispatched_le := fun _ hd => absurd hd not_mem_nil

def following : State := starting (fun _ => 4) 1000 [("c", 4)]

/-- A turn is stored, then a send of the agent, and the acknowledgement of the send arrives first. -/
def overtaking : List Event :=
  [.connect, .store "c" (.message .user), .store "c" (.message .bot), .send "c" (.ack (some 6)),
    .deliver 1]

/-- The overtaken turn arrives, and another one is stored while the agent is away. -/
def caughtUp : List Event :=
  overtaking ++ [.deliver 0, .disconnect, .store "c" (.message .user), .connect, .deliver 0]

theorem turns_dispatched_once_caughtUp :
    ∃ s, run (step false) following caughtUp = some s ∧
      s.dispatches ⟨"c", 5, .message .user⟩ = 1 ∧ s.dispatches ⟨"c", 7, .message .user⟩ = 1 := by
  have hwf : WellFormed ["c"] following := wellFormed_starting (by decide) (by decide)
  have hknown : ∀ e ∈ caughtUp, ∀ id ∈ e.conversations, id ∈ ["c"] := by decide
  obtain ⟨s, hs, hlink, hfive, hseven⟩ : ∃ s, run (step false) following caughtUp = some s ∧ s.link = some [] ∧
      (⟨"c", 5, .message .user⟩ : Stored) ∈ s.stored ∧
      (⟨"c", 7, .message .user⟩ : Stored) ∈ s.stored := by decide +kernel
  have horderly : Along (step false) (Orderly "c" (following.lastSeq "c")) following caughtUp := by
    decide +kernel
  obtain ⟨-, hmain⟩ := turns_dispatched_once false ["c"] "c" following s caughtUp hwf (by decide)
    hknown hs
  obtain ⟨-, hdone, -⟩ := hmain horderly
  refine ⟨s, hs, ?_, ?_⟩
  · exact hdone [] hlink _ ⟨hfive, rfl, rfl, by decide⟩ not_mem_nil
  · exact hdone [] hlink _ ⟨hseven, rfl, rfl, by decide⟩ not_mem_nil

/-- The connection is lost while a turn is overtaken: `hello` has a watermark above it, the server does
not send it again, and it is never dispatched. And if the history is asked for instead, the collector
takes the turn. -/
theorem overtaken_turn_missed :
    (∃ s, run (step false) following (overtaking ++ [.disconnect, .connect]) = some s ∧
      s.Pending "c" 4 ⟨"c", 5, .message .user⟩ ∧ s.watermark "c" = 6 ∧ s.link = some []) ∧
    ∃ s, run (step false) following (overtaking ++ [.history "c", .deliver 0]) = some s ∧
      s.Pending "c" 4 ⟨"c", 5, .message .user⟩ ∧ s.watermark "c" = 6 ∧ s.link = some [] := by
  decide +kernel

end Converger.AgentTurns
