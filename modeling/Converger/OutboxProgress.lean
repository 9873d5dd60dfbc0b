import Converger.OutboxRuns

/-!
# Every delivery of an outbox is received

A consumer that polls with the last watermark it received acknowledges the page it came with, so
the next page it receives holds deliveries it was not handed before. While a delivery waits, a
page that leaves it out holds only deliveries before it; there can be no more such pages than
deliveries before it.
-/
namespace Converger.OutboxProgress
open GuardedRuns Outbox OutboxRuns UuidText List Option

def SendsLast (s : State) : Event → Prop
  | .send watermark _ => watermark = s.last
  | _ => True

instance (s : State) : ∀ e, Decidable (SendsLast s e)
  | .send watermark _ => inferInstanceAs (Decidable (watermark = s.last))
  | .handOff _ | .acknowledge _ | .select | .markServed _ | .receive | .lose
  | .acknowledgeOnly _ => .isTrue trivial

def answered : List Event → ℕ
  | [] => 0
  | .receive :: es => answered es + 1
  | _ :: es => answered es

/-- The deliveries before a position that were acknowledged or are on the last page. -/
def usedBefore (s : State) (q : Position) : ℕ :=
  s.rows.countP fun r => r.position < q && (r.status = .sent || r.id ∈ s.lastPage)

def acknowledgedFlight : Option Flight → Bool
  | some (.acknowledged _ _ _) | some (.selected _ _ _ _) | some (.responded _ _) => true
  | _ => false

def flightPage : Option Flight → Option (List Row)
  | some (.selected _ _ page _) | some (.responded page _) => some page
  | _ => none

/-- A delivery that waits and was not received, after `k` received responses. -/
structure Pursues (channelId : Uuid) (d : StoredUuid) (q : Position) (k : ℕ) (s : State) :
    Prop where
  waits : ∃ r ∈ s.rows, r.id = d ∧ r.position = q ∧ r.waits channelId = true
  unreceived : d ∉ s.received
  asked : ∀ watermark limit, s.flight = some (.requested watermark limit) → watermark = s.last
  settled : acknowledgedFlight s.flight = true →
    ∀ r ∈ s.rows, r.id ∈ s.lastPage → r.status = .sent
  page : ∀ page ∈ flightPage s.flight, d ∈ page.map Row.id ∨
    page ≠ [] ∧ ∀ x ∈ page, x.position < q
  count : k ≤ usedBefore s q

theorem countP_lt_countP {α : Type*} {p q : α → Bool} {l : List α} (h : ∀ x ∈ l, p x = true → q x = true)
    {y : α} (hy : y ∈ l) (hp : p y = false) (hq : q y = true) : l.countP p < l.countP q := by
  obtain ⟨xs, ys, rfl⟩ := append_of_mem hy
  have hxs : xs.countP p ≤ xs.countP q := countP_mono_left fun x hx => h x (mem_append_left _ hx)
  have hys : ys.countP p ≤ ys.countP q :=
    countP_mono_left fun x hx => h x (mem_append_right _ (mem_cons_of_mem _ hx))
  simp only [countP_append, countP_cons, hp, hq, Bool.false_eq_true, if_false, if_true]
  omega

variable {t : State} {row : Row} {watermark : Param} {count : ℕ} {page : List Row} {e : Event}
  {es : List Event}

section Steps
variable {stored : Uuid → Option String} {channelId : Uuid} {d : StoredUuid} {q : Position} {k : ℕ}
  {s : State}

section
variable (h : Pursues channelId d q k s)
include h

theorem markServed_pursues {more : Bool} {servedAt : String}
    (hflight : s.flight = some (.selected watermark count page more)) :
    Pursues channelId d q k
      { s.mapRows (markServed servedAt (unservedIds page))
          (fun _ => (markServed_same servedAt _).1) with
        flight := some (.responded page (respond stored watermark page more count))} := by
  have hsame := fun r => markServed_same (r := r) servedAt (unservedIds page)
  refine ⟨?_, h.unreceived, nofun, fun _ => ?_, ?_, ?_⟩
  · obtain ⟨r, hr, hid, hposition, hwaits⟩ := h.waits
    refine ⟨_, List.mem_map_of_mem hr, (hsame r).1.trans hid, (hsame r).2.2.1.trans hposition, ?_⟩
    rw [waits_iff, (hsame r).2.1, (hsame r).2.2.2.1, (hsame r).2.2.2.2]
    exact waits_iff.mp hwaits
  · refine List.forall_mem_map.mpr fun r hr => ?_
    rw [(hsame r).1, (hsame r).2.2.2.2]
    exact h.settled (by rw [hflight]; rfl) r hr
  · rintro _ ⟨⟩
    exact h.page page (by rw [hflight]; rfl)
  · refine h.count.trans ?_
    simp only [usedBefore, State.mapRows, countP_map]
    refine countP_mono_left fun r _ hr => ?_
    simpa only [Function.comp_apply, (hsame r).1, (hsame r).2.2.1, (hsame r).2.2.2.2] using hr

theorem Pursues.lost : Pursues channelId d q k {s with flight := none} :=
  ⟨h.waits, h.unreceived, by simp, by simp [acknowledgedFlight], by simp [flightPage], h.count⟩

variable (hsound : Sound stored channelId s)
include hsound

theorem handOff_pursues (hnew : row.id ∉ s.rows.map Row.id) :
    Pursues channelId d q k (s.handOff row hnew) where
  waits := by
    obtain ⟨r, hr, hsame⟩ := h.waits
    exact ⟨r, mem_cons_of_mem _ hr, hsame⟩
  unreceived := h.unreceived
  asked := h.asked
  settled := fun hack => forall_mem_cons.mpr
    ⟨fun hid => absurd (hsound.lastPage_stored _ hid) hnew, h.settled hack⟩
  page := h.page
  count := h.count.trans (List.Sublist.countP_le (sublist_cons_self _ _))

/-- An acknowledgement up to the last watermark settles the last page and leaves the delivery
that was not received. -/
theorem acknowledgeOutbox_pursues {now : ℕ} {p : Position} {f : Option Flight}
    (hquiet : ∀ id, ¬ OnResponse s.flight id) (hp : decodeWatermark s.last = some (some p))
    (hasked : ∀ watermark limit, f ≠ some (.requested watermark limit)) (hpage : flightPage f = none) :
    Pursues channelId d q k {s.acknowledgeOutbox now channelId p with flight := f} := by
  have hsame := fun r => @acknowledgeRow_same channelId r now p
  refine ⟨?_, h.unreceived, fun w l hf => absurd hf (hasked w l), fun _ => ?_, ?_, ?_⟩
  · obtain ⟨r, hr, rfl, hposition, hwaits⟩ := h.waits
    have hnot : ¬ acknowledges channelId p r = true := by
      intro hack
      obtain ⟨-, hs, hle⟩ := acknowledges_iff.mp hack
      have habove := (hsound.unseen r hr hwaits hs h.unreceived).resolve_right (hquiet r.id)
      exact not_lt.mpr hle (habove p hp)
    have hrow : acknowledgeRow now channelId p r = r := if_neg hnot
    exact ⟨r, List.mem_map.mpr ⟨r, hr, hrow⟩, rfl, hposition, hwaits⟩
  · refine List.forall_mem_map.mpr fun r hr => ?_
    rw [(hsame r).1, acknowledgeRow_status]
    intro hid
    obtain ⟨hchannel, hs, p', hp', hle⟩ := hsound.lastPage r hr hid
    cases hp.symm.trans hp'
    obtain ⟨hattempts, hpending | hsent⟩ := hsound.handed r hr
    · rw [if_pos (acknowledges_iff.mpr ⟨waits_iff.mpr ⟨hchannel, hpending, hattempts⟩, hs, hle⟩)]
    · rw [hsent, ite_self]
  · rw [hpage]
    nofun
  · refine h.count.trans ?_
    simp only [usedBefore, State.acknowledgeOutbox, State.mapRows, countP_map]
    refine countP_mono_left fun r _ hr => ?_
    simp only [Function.comp_apply, (hsame r).1, (hsame r).2.2.1, acknowledgeRow_status,
      Bool.and_eq_true, Bool.or_eq_true, decide_eq_true_eq] at hr ⊢
    refine ⟨hr.1, hr.2.imp_left fun hsent => ?_⟩
    rw [hsent, ite_self]

theorem select_pursues {limit : ℕ}
    (hflight : s.flight = some (.acknowledged watermark limit count)) :
    Pursues channelId d q k {s with
      flight := some (.selected watermark count (outboxPage channelId limit s.rows).1
        (outboxPage channelId limit s.rows).2)} := by
  refine ⟨h.waits, h.unreceived, nofun, fun _ => h.settled (by rw [hflight]; rfl), ?_, h.count⟩
  rintro page ⟨⟩
  obtain ⟨-, hlimit⟩ := hsound.flight _ hflight
  obtain ⟨r, hr, rfl, rfl, hwaits⟩ := h.waits
  obtain ⟨-, -, hothers⟩ := @outboxPage_spec channelId limit s.rows s.distinct
  by_cases hin : r ∈ (outboxPage channelId limit s.rows).1
  · exact .inl (List.mem_map_of_mem hin)
  · exact .inr ⟨outboxPage_ne_nil hlimit hr hwaits, hothers r hr hwaits hin⟩

theorem receive_pursues {response : Response}
    (hflight : s.flight = some (.responded page response)) :
    let t := {s with
      flight := none
      received := s.received ++ response.items.map Item.deliveryId
      last := if response.watermark = .absent then s.last else response.watermark
      lastPage := page.map Row.id}
    Pursues channelId d q (k + 1) t ∨ d ∈ t.received := by
  obtain ⟨hpage, -, watermark, more, count, -, rfl⟩ := hsound.flight _ hflight
  have hsettled := h.settled (by rw [hflight]; rfl)
  rw [respond_ids]
  by_cases hd : d ∈ page.map Row.id
  · exact .inr (mem_append_right _ hd)
  · obtain ⟨hne, hbefore⟩ := (h.page page (by rw [hflight]; rfl)).resolve_left hd
    refine .inl ⟨h.waits, ?_, nofun, nofun, nofun, ?_⟩
    · exact fun hin => (mem_append.mp hin).elim h.unreceived hd
    · obtain ⟨x, hx⟩ := exists_mem_of_ne_nil page hne
      obtain ⟨r, hr, hid, hposition, hwaits, -⟩ := hpage.waits x hx
      have hpending : r.status ≠ .sent := by
        rw [(waits_iff.mp hwaits).2.1]
        decide
      have hnew : r.id ∉ s.lastPage := fun hin => hpending (hsettled r hr hin)
      refine h.count.trans_lt (countP_lt_countP (fun y hy hused => ?_) hr ?_ ?_)
      · simp only [Bool.and_eq_true, Bool.or_eq_true, decide_eq_true_eq] at hused ⊢
        exact ⟨hused.1, .inl (hused.2.elim id (hsettled y hy))⟩
      · simp [hpending, hnew]
      · simp only [Bool.and_eq_true, Bool.or_eq_true, decide_eq_true_eq, hposition]
        exact ⟨hbefore x hx, .inr (hid ▸ List.mem_map_of_mem hx)⟩

theorem step_pursues (hsends : SendsLast s e) (hstep : step stored channelId s e = some t) :
    Pursues channelId d q (k + answered [e]) t ∨ d ∈ t.received := by
  revert hstep
  fun_cases step stored channelId s e with
  | case1 row hguard =>
    rintro ⟨⟩
    exact .inl (handOff_pursues h hsound hguard.1)
  | case3 watermark limit hguard =>
    rintro ⟨⟩
    refine .inl ⟨h.waits, h.unreceived, ?_, by simp [acknowledgedFlight], by simp [flightPage], h.count⟩
    rintro _ _ ⟨⟩
    exact hsends
  | case5 | case15 =>
    rintro ⟨⟩
    exact .inl h.lost
  | case6 now watermark limit hflight hnone =>
    rintro ⟨⟩
    refine .inl ⟨h.waits, h.unreceived, by simp, fun _ r hr hid => ?_, by simp [flightPage], h.count⟩
    obtain ⟨-, -, p, hp, -⟩ := hsound.lastPage r hr hid
    rw [h.asked _ _ hflight, hp] at hnone
    cases hnone
  | case7 now watermark limit hflight p hp =>
    rintro ⟨⟩
    exact .inl (acknowledgeOutbox_pursues h hsound (not_onResponse (by simp [hflight]))
      (h.asked _ _ hflight ▸ hp) (by simp) rfl)
  | case9 watermark limit count hflight =>
    rintro ⟨⟩
    exact .inl (select_pursues h hsound hflight)
  | case11 servedAt watermark count page more hflight =>
    rintro ⟨⟩
    exact .inl (markServed_pursues h hflight)
  | case13 page response hflight =>
    rintro ⟨⟩
    exact receive_pursues h hsound hflight
  | case17 now hidle p hp =>
    rintro ⟨⟩
    have hnone := isNone_iff_eq_none.mp hidle
    have hack := @acknowledgeOutbox_pursues stored channelId d q k s h hsound now p s.flight
      (not_onResponse (by simp [hnone])) hp (by simp [hnone]) (by simp [hnone, flightPage])
    exact .inl hack
  | case18 =>
    rintro ⟨⟩
    exact .inl h
  | case2 | case4 | case8 | case10 | case12 | case14 | case16 | case19 => rintro ⟨⟩

end

def KeepsRows (f : Row → Row) : Prop :=
  ∀ r, (f r).id = r.id ∧ (f r).channelId = r.channelId ∧ (f r).position = r.position

theorem keepsRows_acknowledgeRow (now : ℕ) (p : Position) :
    KeepsRows (acknowledgeRow now channelId p) := by
  intro r
  obtain ⟨hid, hchannel, hposition, -⟩ := @acknowledgeRow_same channelId r now p
  exact ⟨hid, hchannel, hposition⟩

theorem keepsRows_markServed (servedAt : String) (ids : List StoredUuid) :
    KeepsRows (markServed servedAt ids) := by
  intro r
  obtain ⟨hid, hchannel, hposition, -⟩ := markServed_same (r := r) servedAt ids
  exact ⟨hid, hchannel, hposition⟩

/-- A step hands a delivery off or rewrites the stored ones, and nothing that was received is
forgotten. -/
theorem step_frame (hstep : step stored channelId s e = some t) :
    ((∃ row, e = .handOff row ∧ t.rows = row :: s.rows) ∨
      (∀ row, e ≠ .handOff row) ∧ ∃ f, KeepsRows f ∧ t.rows = s.rows.map f) ∧
      s.received ⊆ t.received := by
  have hsame : (∀ row, e ≠ .handOff row) → t.rows = s.rows → (∀ row, e ≠ .handOff row) ∧
      ∃ f, KeepsRows f ∧ t.rows = s.rows.map f :=
    fun he ht => ⟨he, id, fun r => ⟨rfl, rfl, rfl⟩, ht.trans (List.map_id _).symm⟩
  revert hstep
  fun_cases step stored channelId s e with
  | case1 row =>
    rintro ⟨⟩
    exact ⟨.inl ⟨row, rfl, rfl⟩, List.Subset.refl _⟩
  | case3 | case5 | case6 | case9 | case15 | case18 =>
    rintro ⟨⟩
    exact ⟨.inr (hsame (by simp) rfl), List.Subset.refl _⟩
  | case7 now | case17 now =>
    rintro ⟨⟩
    exact ⟨.inr ⟨by simp, _, keepsRows_acknowledgeRow now _, rfl⟩, List.Subset.refl _⟩
  | case11 servedAt =>
    rintro ⟨⟩
    exact ⟨.inr ⟨by simp, _, keepsRows_markServed servedAt _, rfl⟩, List.Subset.refl _⟩
  | case13 =>
    rintro ⟨⟩
    exact ⟨.inr (hsame (by simp) rfl), subset_append_left _ _⟩
  | case2 | case4 | case8 | case10 | case12 | case14 | case16 | case19 => rintro ⟨⟩

theorem run_keeps (hrun : run (step stored channelId) s es = some t)
    (h : (∃ r ∈ s.rows, r.id = row.id ∧ r.channelId = row.channelId ∧ r.position = row.position) ∨
      .handOff row ∈ es) :
    ∃ r ∈ t.rows, r.id = row.id ∧ r.channelId = row.channelId ∧ r.position = row.position := by
  induction es generalizing s with
  | nil =>
    cases hrun
    exact h.resolve_right (by simp)
  | cons e es ih =>
    obtain ⟨m, hm, hrest⟩ := run_cons_eq_some.mp hrun
    refine ih hrest ?_
    rcases (step_frame hm).1 with ⟨new, rfl, hrows⟩ | ⟨hother, f, hf, hrows⟩
    · rcases h with ⟨r, hr, hsame⟩ | hmem
      · exact .inl ⟨r, hrows ▸ mem_cons_of_mem _ hr, hsame⟩
      · rcases mem_cons.mp hmem with heq | hmem
        · cases heq
          exact .inl ⟨row, hrows ▸ mem_cons_self, rfl, rfl, rfl⟩
        · exact .inr hmem
    · rcases h with ⟨r, hr, hid, hchannel, hposition⟩ | hmem
      · refine .inl ⟨f r, hrows ▸ List.mem_map_of_mem hr, ?_⟩
        obtain ⟨hfid, hfchannel, hfposition⟩ := hf r
        exact ⟨hfid.trans hid, hfchannel.trans hchannel, hfposition.trans hposition⟩
      · rcases mem_cons.mp hmem with heq | hmem
        · exact absurd heq.symm (hother row)
        · exact .inr hmem

theorem answered_cons (e : Event) (es : List Event) : answered (e :: es) = answered [e] + answered es := by
  cases e with
  | receive => simp only [answered]; omega
  | _ => simp only [answered, Nat.zero_add]

theorem run_pursues (hsound : Sound stored channelId s) (h : Pursues channelId d q k s ∨ d ∈ s.received)
    (hkeeps : Along (step stored channelId) (fun s e => LossKeeps s e ∧ SendsLast s e) s es)
    (hrun : run (step stored channelId) s es = some t) :
    Pursues channelId d q (k + answered es) t ∨ d ∈ t.received := by
  induction es generalizing s k with
  | nil =>
    cases hrun
    exact h
  | cons e es ih =>
    obtain ⟨m, hm, hrest⟩ := run_cons_eq_some.mp hrun
    have hnext : Pursues channelId d q (k + answered [e]) m ∨ d ∈ m.received := by
      rcases h with h | hd
      · exact step_pursues h hsound hkeeps.1.2 hm
      · exact .inr ((step_frame hm).2 hd)
    have hdone := ih (step_sound hsound hkeeps.1.1 hm) hnext (hkeeps.2 m hm) hrest
    rwa [Nat.add_assoc, ← answered_cons] at hdone

end Steps

theorem initial_sound (stored : Uuid → Option String) (channelId : Uuid) :
    Sound stored channelId {} :=
  ⟨nofun, nofun, nofun, nofun, nofun, nofun⟩

/-- In every run whose lost responses hold nothing new at or before the last watermark of the
consumer, only received deliveries are marked sent, and every delivery that was handed off to the
channel still waits in the outbox or was received. From every such state, a consumer that goes on
polling with its last watermark receives a waiting delivery with as many responses as there are
deliveries before it, and one more. -/
theorem outbox_delivers (stored : Uuid → Option String) (channelId : Uuid) (es : List Event)
    (s : State) (hrun : run (step stored channelId) {} es = some s)
    (hkeeps : Along (step stored channelId) LossKeeps {} es) :
    (∀ r ∈ s.rows, r.status = .sent → r.id ∈ s.received) ∧
      (∀ row, .handOff row ∈ es → row.channelId = channelId →
        ∃ r ∈ s.rows, r.id = row.id ∧ (r.waits channelId = true ∨ r.id ∈ s.received)) ∧
      ∀ r ∈ s.rows, r.waits channelId = true → s.flight = none → ∀ fs t,
        run (step stored channelId) s fs = some t →
        Along (step stored channelId) (fun s e => LossKeeps s e ∧ SendsLast s e) s fs →
        t.rows.countP (fun x => x.position < r.position) < answered fs → r.id ∈ t.received := by
  have hsound := run_invariant_along step_sound (initial_sound stored channelId) hkeeps hrun
  refine ⟨hsound.sent, ?_, ?_⟩
  · intro row hmem hchannel
    obtain ⟨r, hr, hid, hrchannel, -⟩ := run_keeps hrun (.inr hmem)
    refine ⟨r, hr, hid, ?_⟩
    obtain ⟨hattempts, hpending | hsent⟩ := hsound.handed r hr
    · exact .inl (waits_iff.mpr ⟨hrchannel.trans hchannel, hpending, hattempts⟩)
    · exact .inr (hsound.sent r hr hsent)
  · intro r hr hwaits hidle fs t hfs hkeeps' hcount
    have hstart : Pursues channelId r.id r.position 0 s ∨ r.id ∈ s.received := by
      by_cases hd : r.id ∈ s.received
      · exact .inr hd
      · exact .inl ⟨⟨r, hr, rfl, rfl, hwaits⟩, hd, by simp [hidle],
          by simp [hidle, acknowledgedFlight], by simp [hidle, flightPage], Nat.zero_le _⟩
    rcases run_pursues hsound hstart hkeeps' hfs with h | h
    · have hused : usedBefore t r.position ≤ t.rows.countP fun x => x.position < r.position :=
        countP_mono_left fun x _ hx => (Bool.and_eq_true_iff.mp hx).1
      have hle := h.count
      omega
    · exact h

def early : Row where
  id := ⟨"00000000-0000-4000-8000-000000000001", by decide⟩
  activityId := 1
  channelId := 5
  insertedAt := 1
  insertedAt_le := by decide
  attempts := 1

def late : Row where
  id := ⟨"00000000-0000-4000-8000-000000000002", by decide⟩
  activityId := 2
  channelId := 5
  insertedAt := 2
  insertedAt_le := by decide
  attempts := 1

def pollWith (watermark : Param) : List Event :=
  [.send watermark 50, .acknowledge 10, .select, .markServed "2026-01-01T00:00:00Z"]

def oneWaiting : State := State.handOff {} late (by decide)

theorem outbox_delivers_one :
    run (step (fun _ => none) 5) {} [.handOff late] = some oneWaiting ∧
      ∃ t, run (step (fun _ => none) 5) oneWaiting (pollWith .absent ++ [.receive]) = some t ∧
        late.id ∈ t.received := by
  have hrun : run (step (fun _ => none) 5) {} [.handOff late] = some oneWaiting := by
    refine run_cons_eq_some.mpr ⟨oneWaiting, ?_, rfl⟩
    simp only [step]
    exact dif_pos (by decide)
  have hcount : (run (step (fun _ => none) 5) oneWaiting (pollWith .absent ++ [.receive])).map
      (fun t => t.rows.countP fun x => x.position < late.position) = some 0 := by decide +kernel
  obtain ⟨t, ht, hzero⟩ := map_eq_some_iff.mp hcount
  refine ⟨hrun, t, ht, (outbox_delivers (fun _ => none) 5 _ oneWaiting hrun (by decide +kernel)).2.2
    late (by decide) (by decide) rfl _ t ht (by decide +kernel) ?_⟩
  rw [hzero]
  decide

/-- The page `[late]` is received, `early` is committed with its earlier position and served, and
that response is lost: the repeated watermark marks `early` sent. -/
theorem lost_page_acknowledged :
    (run (step (fun _ => none) 5) {}
      (.handOff late :: pollWith .absent ++ .receive :: .handOff early ::
        pollWith (.text (encodeWatermark late)) ++ .lose ::
        pollWith (.text (encodeWatermark late)))).map
      (fun s => (s.received, s.rows.map fun r => (r.id, r.status))) =
    some ([late.id], [(early.id, .sent), (late.id, .sent)]) := by
  decide +kernel

end Converger.OutboxProgress
