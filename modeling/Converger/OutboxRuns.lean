import Converger.GuardedRuns
import Converger.Outbox

/-!
# One consumer of an outbox

The statements of a poll and the hand-offs of the pipeline in any order, with one consumer that
polls without a watermark or with the last one it received, and whose responses can be lost. A
delivery that is handed off may have an earlier position than those already served.
-/
namespace Converger.OutboxRuns
open GuardedRuns OrderedPages Outbox UuidText List Option

/-- A poll on its way through `Outbox.poll/3`. -/
inductive Flight
  | requested (watermark : Param) (limit : ℕ)
  | acknowledged (watermark : Param) (limit count : ℕ)
  | selected (watermark : Param) (count : ℕ) (page : List Row) (more : Bool)
  | responded (page : List Row) (response : Response)

/-- The stored deliveries and the consumer: what it received, the last watermark it received and
the ids of the page it came with. -/
structure State where
  rows : List Row := []
  distinct : (rows.map Row.id).Nodup := by decide
  flight : Option Flight := none
  received : List StoredUuid := []
  last : Param := .absent
  lastPage : List StoredUuid := []

inductive Event
  | handOff (row : Row)
  | send (watermark : Param) (limit : ℕ)
  | acknowledge (now : ℕ)
  | select
  | markServed (servedAt : String)
  | receive
  | lose
  | acknowledgeOnly (now : ℕ)

def State.mapRows (s : State) (f : Row → Row) (hf : ∀ r, (f r).id = r.id) : State :=
  {s with
    rows := s.rows.map f
    distinct := by
      have hids : (s.rows.map f).map Row.id = s.rows.map Row.id := by
        rw [List.map_map]
        exact map_congr_left fun r _ => hf r
      rw [hids]
      exact s.distinct}

def State.acknowledgeOutbox (s : State) (now : ℕ) (channelId : Uuid) (p : Position) : State :=
  s.mapRows (acknowledgeRow now channelId p) fun _ => (acknowledgeRow_same now p).1

def State.handOff (s : State) (row : Row) (h : row.id ∉ s.rows.map Row.id) : State :=
  {s with rows := row :: s.rows, distinct := nodup_cons.mpr ⟨h, s.distinct⟩}

/-- One event. A delivery is new to the outbox when it is handed off. A poll that fails is lost
like one whose response is. -/
def step (stored : Uuid → Option String) (channelId : Uuid) (s : State) : Event → Option State
  | .handOff row =>
    if h : row.id ∉ s.rows.map Row.id ∧ row.status = .pending ∧ 0 < row.attempts ∧
        row.served = false then
      some (s.handOff row h.1)
    else none
  | .send watermark limit =>
    if s.flight.isNone ∧ (watermark = .absent ∨ watermark = s.last) ∧ 0 < limit then
      some {s with flight := some (.requested watermark limit)}
    else none
  | .acknowledge now =>
    match s.flight with
    | some (.requested watermark limit) =>
      match decodeWatermark watermark with
      | none => some {s with flight := none}
      | some none => some {s with flight := some (.acknowledged watermark limit 0)}
      | some (some p) =>
        some {s.acknowledgeOutbox now channelId p with
          flight := some (.acknowledged watermark limit
            (s.rows.countP (acknowledges channelId p)))}
    | _ => none
  | .select =>
    match s.flight with
    | some (.acknowledged watermark limit count) =>
      let page := outboxPage channelId limit s.rows
      some {s with flight := some (.selected watermark count page.1 page.2)}
    | _ => none
  | .markServed servedAt =>
    match s.flight with
    | some (.selected watermark count page more) =>
      some { s.mapRows (markServed servedAt (unservedIds page))
          (fun _ => (markServed_same servedAt _).1) with
        flight := some (.responded page (respond stored watermark page more count))}
    | _ => none
  | .receive =>
    match s.flight with
    | some (.responded page response) =>
      some {s with
        flight := none
        received := s.received ++ response.items.map Item.deliveryId
        last := if response.watermark = .absent then s.last else response.watermark
        lastPage := page.map Row.id}
    | _ => none
  | .lose => if s.flight.isSome then some {s with flight := none} else none
  | .acknowledgeOnly now =>
    if s.flight.isNone then
      match decodeWatermark s.last with
      | some (some p) => some (s.acknowledgeOutbox now channelId p)
      | _ => some s
    else none

variable {rows page : List Row} {watermark : Param} {now : ℕ} {servedAt : String}
  {response : Response} {row : Row} {f : Option Flight}

theorem run_poll {stored : Uuid → Option String} {channelId : Uuid} {s : State} {limit : ℕ}
    (hflight : s.flight = some (.requested watermark limit))
    (hpoll : poll stored now servedAt channelId watermark limit s.rows = some (rows, response)) :
    ∃ t page, run (step stored channelId) s [.acknowledge now, .select, .markServed servedAt] =
      some t ∧ t.rows = rows ∧ t.flight = some (.responded page response) := by
  cases hdecode : decodeWatermark watermark with
  | none => simp [poll, hdecode] at hpoll
  | some position =>
    -- with or without a position to acknowledge, the statements run in the order of `poll`
    cases position
    all_goals
      simp only [poll, hdecode, bind_eq_bind, bind_some, Option.pure_def,
        Option.some.injEq, Prod.mk.injEq] at hpoll
      obtain ⟨rfl, rfl⟩ := hpoll
      simp only [run, step, hflight, hdecode, bind_some]
      exact ⟨_, _, rfl, rfl, rfl⟩

/-! ## Nothing unseen is acknowledged -/

def Above (watermark : Param) (r : Row) : Prop :=
  ∀ p, decodeWatermark watermark = some (some p) → p < r.position

instance (watermark : Param) (r : Row) : Decidable (Above watermark r) :=
  decidable_of_iff (∀ p ∈ (decodeWatermark watermark).join, p < r.position) (by
    simp [Above, join_eq_some_iff])

def OnResponse (flight : Option Flight) (id : StoredUuid) : Prop :=
  ∃ page response, flight = some (.responded page response) ∧ id ∈ page.map Row.id

/-- A page that was selected: its rows still wait, and a served row that is not on it lies after
all of them. -/
structure PageOf (channelId : Uuid) (rows page : List Row) : Prop where
  waits : ∀ x ∈ page, ∃ r ∈ rows, r.id = x.id ∧ r.position = x.position ∧
    r.waits channelId = true ∧ (x.served = true → r.served = true)
  sorted : page.Pairwise fun a b => a.position < b.position
  others : ∀ r ∈ rows, r.waits channelId = true → r.served = true → r.id ∉ page.map Row.id →
    ∀ x ∈ page, x.position < r.position

def FlightOk (stored : Uuid → Option String) (channelId : Uuid) (rows : List Row) (last : Param) :
    Flight → Prop
  | .requested watermark limit => (watermark = .absent ∨ watermark = last) ∧ 0 < limit
  | .acknowledged watermark limit _ => (watermark = .absent ∨ watermark = last) ∧ 0 < limit
  | .selected watermark _ page _ =>
    (watermark = .absent ∨ watermark = last) ∧ PageOf channelId rows page
  | .responded page response =>
    PageOf channelId rows page ∧ (∀ r ∈ rows, r.id ∈ page.map Row.id → r.served = true) ∧
      ∃ watermark more count, (watermark = .absent ∨ watermark = last) ∧
        response = respond stored watermark page more count

/-- Only received deliveries are sent, and a served one that was not received lies after the
last watermark or is on a response under way. -/
structure Sound (stored : Uuid → Option String) (channelId : Uuid) (s : State) : Prop where
  handed : ∀ r ∈ s.rows, 0 < r.attempts ∧ (r.status = .pending ∨ r.status = .sent)
  sent : ∀ r ∈ s.rows, r.status = .sent → r.id ∈ s.received
  unseen : ∀ r ∈ s.rows, r.waits channelId = true → r.served = true → r.id ∉ s.received →
    Above s.last r ∨ OnResponse s.flight r.id
  flight : ∀ f ∈ s.flight, FlightOk stored channelId s.rows s.last f
  lastPage_stored : ∀ id ∈ s.lastPage, id ∈ s.rows.map Row.id
  lastPage : ∀ r ∈ s.rows, r.id ∈ s.lastPage → r.channelId = channelId ∧ r.served = true ∧
    ∃ p, decodeWatermark s.last = some (some p) ∧ r.position ≤ p

section Steps
variable {stored : Uuid → Option String} {channelId : Uuid} {s t : State} {e : Event}

theorem PageOf.handOff (h : PageOf channelId rows page)
    (hserved : row.served = false) : PageOf channelId (row :: rows) page where
  waits := by
    intro x hx
    obtain ⟨r, hr, hsame⟩ := h.waits x hx
    exact ⟨r, mem_cons_of_mem _ hr, hsame⟩
  sorted := h.sorted
  others := by
    intro r hr hwaits hs
    rcases mem_cons.mp hr with rfl | hr
    · exact absurd (hserved.symm.trans hs) Bool.false_ne_true
    · exact h.others r hr hwaits hs

theorem FlightOk.handOff {last : Param} {f : Flight}
    (h : FlightOk stored channelId rows last f) (hserved : row.served = false)
    (hfresh : row.id ∉ rows.map Row.id) : FlightOk stored channelId (row :: rows) last f := by
  cases f with
  | requested watermark limit | acknowledged watermark limit count => exact h
  | selected watermark count page more => exact ⟨h.1, h.2.handOff hserved⟩
  | responded page response =>
    obtain ⟨hpage, hall, hresponse⟩ := h
    refine ⟨hpage.handOff hserved, forall_mem_cons.mpr ⟨fun hid => ?_, hall⟩, hresponse⟩
    obtain ⟨x, hx, hxid⟩ := List.mem_map.mp hid
    obtain ⟨y, hy, hyid, -⟩ := hpage.waits x hx
    exact absurd (List.mem_map.mpr ⟨y, hy, hyid.trans hxid⟩) hfresh

theorem not_onResponse {flight : Option Flight}
    (h : ∀ page response, flight ≠ some (.responded page response)) (id : StoredUuid) :
    ¬ OnResponse flight id := by
  rintro ⟨page, response, hflight, -⟩
  exact h page response hflight

theorem pageOf_outboxPage (distinct : (s.rows.map Row.id).Nodup) (limit : ℕ) :
    PageOf channelId s.rows (outboxPage channelId limit s.rows).1 := by
  obtain ⟨hmem, hsorted, hothers⟩ := @outboxPage_spec channelId limit s.rows distinct
  refine ⟨fun x hx => ⟨x, (hmem x hx).1, rfl, rfl, (hmem x hx).2, id⟩, hsorted, ?_⟩
  intro r hr hwaits _ hid
  exact hothers r hr hwaits fun hin => hid (List.mem_map_of_mem hin)

theorem mem_unservedIds {id : StoredUuid} (h : id ∈ unservedIds page) : id ∈ page.map Row.id := by
  obtain ⟨x, hx, rfl⟩ := List.mem_map.mp h
  exact List.mem_map_of_mem (mem_filter.mp hx).1

theorem PageOf.markServed (h : PageOf channelId rows page) (servedAt : String) :
    PageOf channelId (rows.map (Outbox.markServed servedAt (unservedIds page))) page where
  waits := by
    intro x hx
    obtain ⟨r, hr, hid, hposition, hwaits, hserved⟩ := h.waits x hx
    obtain ⟨hsameId, hchannel, hsame, hattempts, hstatus⟩ :=
      markServed_same (r := r) servedAt (unservedIds page)
    refine ⟨_, List.mem_map_of_mem hr, hsameId.trans hid, hsame.trans hposition, ?_,
      fun hx => (served_markServed servedAt _).mpr (.inl (hserved hx))⟩
    rw [waits_iff, hchannel, hattempts, hstatus]
    exact waits_iff.mp hwaits
  sorted := h.sorted
  others := by
    refine List.forall_mem_map.mpr fun r hr => ?_
    obtain ⟨hid, hchannel, hposition, hattempts, hstatus⟩ :=
      markServed_same (r := r) servedAt (unservedIds page)
    rw [waits_iff, hid, hchannel, hattempts, hstatus, hposition]
    intro hwaits hs hout
    have hserved := (served_markServed servedAt _).mp hs
    exact h.others r hr (waits_iff.mpr hwaits)
      (hserved.resolve_right fun hin => hout (mem_unservedIds hin)) hout

theorem respond_ids (watermark : Param) (page : List Row) (more : Bool) (count : ℕ) :
    (respond stored watermark page more count).items.map Item.deliveryId = page.map Row.id := by
  simp [respond, items]

def State.underWay (s : State) : List Row :=
  match s.flight with
  | some (.responded page _) => page
  | _ => []

/-- A response may be lost if none of its deliveries that the consumer did not receive before
lies at or before the last watermark it received. -/
def LossKeeps (s : State) : Event → Prop
  | .lose => ∀ x ∈ s.underWay, x.id ∉ s.received → Above s.last x
  | _ => True

instance (s : State) : ∀ e, Decidable (LossKeeps s e)
  | .lose => inferInstanceAs (Decidable (∀ x ∈ s.underWay, x.id ∉ s.received → Above s.last x))
  | .handOff _ | .send _ _ | .acknowledge _ | .select | .markServed _ | .receive
  | .acknowledgeOnly _ => .isTrue trivial

variable (h : Sound stored channelId s)
include h

theorem Sound.setFlight (hquiet : ∀ id, ¬ OnResponse s.flight id)
    (hf : ∀ x ∈ f, FlightOk stored channelId s.rows s.last x) :
    Sound stored channelId {s with flight := f} where
  handed := h.handed
  sent := h.sent
  unseen := fun r hr hwaits hs hnot =>
    .inl ((h.unseen r hr hwaits hs hnot).resolve_right (hquiet r.id))
  flight := hf
  lastPage_stored := h.lastPage_stored
  lastPage := h.lastPage

theorem handOff_sound (hnew : row.id ∉ s.rows.map Row.id)
    (hpending : row.status = .pending) (hattempts : 0 < row.attempts) (hserved : row.served = false) :
    Sound stored channelId (s.handOff row hnew) where
  handed := forall_mem_cons.mpr ⟨⟨hattempts, .inl hpending⟩, h.handed⟩
  sent := by
    refine forall_mem_cons.mpr ⟨fun hsent => ?_, h.sent⟩
    rw [hpending] at hsent
    cases hsent
  unseen := by
    refine forall_mem_cons.mpr ⟨fun _ hs => ?_, h.unseen⟩
    exact absurd (hserved.symm.trans hs) Bool.false_ne_true
  flight := fun f hf => (h.flight f hf).handOff hserved hnew
  lastPage_stored := fun id hid => mem_cons_of_mem _ (h.lastPage_stored id hid)
  lastPage := forall_mem_cons.mpr ⟨fun hid => absurd (h.lastPage_stored _ hid) hnew, h.lastPage⟩

theorem acknowledgeOutbox_sound {p : Position}
    (hquiet : ∀ id, ¬ OnResponse s.flight id) (hp : decodeWatermark s.last = some (some p))
    (hf : ∀ x ∈ f, FlightOk stored channelId (s.acknowledgeOutbox now channelId p).rows s.last x) :
    Sound stored channelId {s.acknowledgeOutbox now channelId p with flight := f} := by
  have habove : ∀ r ∈ s.rows, r.waits channelId = true → r.served = true → r.id ∉ s.received →
      Above s.last r := fun r hr hwaits hs hnot =>
    (h.unseen r hr hwaits hs hnot).resolve_right (hquiet r.id)
  refine ⟨?_, ?_, ?_, hf, ?_, ?_⟩
  · refine List.forall_mem_map.mpr fun r hr => ?_
    rw [acknowledgeRow_status, (acknowledgeRow_same now p).2.2.2.1]
    split_ifs
    · exact ⟨(h.handed r hr).1, .inr rfl⟩
    · exact h.handed r hr
  · refine List.forall_mem_map.mpr fun r hr => ?_
    rw [acknowledgeRow_status, (acknowledgeRow_same now p).1]
    split_ifs with hack
    · intro _
      obtain ⟨hwaits, hs, hle⟩ := acknowledges_iff.mp hack
      by_contra hnot
      exact not_lt.mpr hle (habove r hr hwaits hs hnot p hp)
    · exact h.sent r hr
  · refine List.forall_mem_map.mpr fun r hr => ?_
    obtain ⟨hid, hchannel, hposition, hattempts, hserved⟩ := acknowledgeRow_same now p
    rw [hid, hserved]
    intro hwaits hs hnot
    refine .inl ?_
    simp only [Above, hposition]
    refine habove r hr ?_ hs hnot
    rw [waits_iff, hchannel, hattempts, acknowledgeRow_status] at hwaits
    split_ifs at hwaits with hack
    · cases hwaits.2.1
    · exact waits_iff.mpr hwaits
  · intro id hid
    obtain ⟨r, hr, hrid⟩ := List.mem_map.mp (h.lastPage_stored id hid)
    exact List.mem_map.mpr ⟨_, List.mem_map_of_mem hr, (acknowledgeRow_same now p).1.trans hrid⟩
  · refine List.forall_mem_map.mpr fun r hr => ?_
    obtain ⟨hid, hchannel, hposition, -, hserved⟩ := acknowledgeRow_same now p
    rw [hid, hchannel, hposition, hserved]
    exact h.lastPage r hr

theorem markServed_sound {count : ℕ} {more : Bool}
    (hflight : s.flight = some (.selected watermark count page more)) :
    Sound stored channelId
      { s.mapRows (markServed servedAt (unservedIds page))
          (fun _ => (markServed_same servedAt _).1) with
        flight := some (.responded page (respond stored watermark page more count))} := by
  obtain ⟨hwatermark, hpage⟩ := h.flight _ hflight
  have hsame := fun r => markServed_same (r := r) servedAt (unservedIds page)
  refine ⟨?_, ?_, ?_, ?_, ?_, ?_⟩
  · refine List.forall_mem_map.mpr fun r hr => ?_
    rw [(hsame r).2.2.2.1, (hsame r).2.2.2.2]
    exact h.handed r hr
  · refine List.forall_mem_map.mpr fun r hr => ?_
    rw [(hsame r).1, (hsame r).2.2.2.2]
    exact h.sent r hr
  · refine List.forall_mem_map.mpr fun r hr => ?_
    rw [(hsame r).1]
    intro hwaits hs hnot
    rw [waits_iff, (hsame r).2.1, (hsame r).2.2.2.1, (hsame r).2.2.2.2, ← waits_iff] at hwaits
    rcases (served_markServed servedAt _).mp hs with hs | hin
    · rcases h.unseen r hr hwaits hs hnot with habove | ⟨_, _, hother, _⟩
      · refine .inl fun p hp => ?_
        rw [(hsame r).2.2.1]
        exact habove p hp
      · rw [hflight] at hother
        cases hother
    · exact .inr ⟨_, _, rfl, mem_unservedIds hin⟩
  · rintro f hf
    cases hf
    refine ⟨hpage.markServed servedAt, ?_, watermark, more, count, hwatermark, rfl⟩
    refine List.forall_mem_map.mpr fun r hr => ?_
    rw [(hsame r).1]
    intro hid
    refine (served_markServed servedAt _).mpr ?_
    obtain ⟨x, hx, hxid⟩ := List.mem_map.mp hid
    cases hserved : x.served with
    | true =>
      obtain ⟨y, hy, hyid, -, -, hys⟩ := hpage.waits x hx
      rw [inj_on_of_nodup_map s.distinct hr hy (hxid.symm.trans hyid.symm)]
      exact .inl (hys hserved)
    | false =>
      refine .inr (List.mem_map.mpr ⟨x, mem_filter.mpr ⟨hx, ?_⟩, hxid⟩)
      rw [hserved]
      rfl
  · intro id hid
    obtain ⟨r, hr, hrid⟩ := List.mem_map.mp (h.lastPage_stored id hid)
    exact List.mem_map.mpr ⟨_, List.mem_map_of_mem hr, (hsame r).1.trans hrid⟩
  · refine List.forall_mem_map.mpr fun r hr => ?_
    rw [(hsame r).1, (hsame r).2.1, (hsame r).2.2.1]
    intro hid
    obtain ⟨hchannel, hs, hle⟩ := h.lastPage r hr hid
    exact ⟨hchannel, (served_markServed servedAt _).mpr (.inl hs), hle⟩

theorem receive_sound (hflight : s.flight = some (.responded page response)) :
    Sound stored channelId {s with
      flight := none
      received := s.received ++ response.items.map Item.deliveryId
      last := if response.watermark = .absent then s.last else response.watermark
      lastPage := page.map Row.id} := by
  obtain ⟨hpage, hserved, watermark, more, count, hwatermark, rfl⟩ := h.flight _ hflight
  rw [respond_ids]
  have hlast : ∀ x, page.getLast? = some x →
      decodeWatermark (if (respond stored watermark page more count).watermark = .absent then s.last
        else (respond stored watermark page more count).watermark) = some (some x.position) := by
    intro x hx
    simp only [respond, hx, reduceCtorEq, if_false]
    exact decodeWatermark_encodeWatermark x
  have hempty : page = [] → (if (respond stored watermark page more count).watermark = .absent
      then s.last else (respond stored watermark page more count).watermark) = s.last := by
    rintro rfl
    rcases hwatermark with rfl | rfl
    · rfl
    · exact ite_self _
  have hstored : ∀ r ∈ s.rows, r.id ∈ page.map Row.id →
      ∃ x ∈ page, r.position = x.position ∧ r.waits channelId = true := by
    intro r hr hid
    obtain ⟨x, hx, hxid⟩ := List.mem_map.mp hid
    obtain ⟨y, hy, hyid, hposition, hwaits, -⟩ := hpage.waits x hx
    rw [inj_on_of_nodup_map s.distinct hr hy (hxid.symm.trans hyid.symm)]
    exact ⟨x, hx, hposition, hwaits⟩
  refine ⟨h.handed, fun r hr hs => mem_append_left _ (h.sent r hr hs), ?_, nofun, ?_, ?_⟩
  · intro r hr hwaits hs hnot
    rw [mem_append, not_or] at hnot
    refine .inl fun p hp => ?_
    cases hx : page.getLast? with
    | none =>
      have hnil := getLast?_eq_none_iff.mp hx
      rcases h.unseen r hr hwaits hs hnot.1 with habove | ⟨page', _, hother, hin⟩
      · rw [hempty hnil] at hp
        exact habove p hp
      · rw [hflight] at hother
        cases hother
        exact absurd hin hnot.2
    | some x =>
      rw [hlast x hx] at hp
      cases hp
      exact hpage.others r hr hwaits hs hnot.2 x (mem_of_getLast? hx)
  · intro id hid
    obtain ⟨x, hx, rfl⟩ := List.mem_map.mp hid
    obtain ⟨r, hr, hrid, -⟩ := hpage.waits x hx
    exact List.mem_map.mpr ⟨r, hr, hrid⟩
  · intro r hr hid
    obtain ⟨x, hx, hposition, hwaits⟩ := hstored r hr hid
    refine ⟨(waits_iff.mp hwaits).1, hserved r hr hid, ?_⟩
    obtain ⟨last, hl⟩ : ∃ last, page.getLast? = some last :=
      ⟨_, getLast?_eq_some_getLast (ne_nil_of_mem hx)⟩
    refine ⟨last.position, hlast last hl, ?_⟩
    rw [hposition]
    exact le_key_last hpage.sorted hl hx

theorem lose_sound (hkeeps : LossKeeps s .lose) : Sound stored channelId {s with flight := none} := by
  refine ⟨h.handed, h.sent, ?_, nofun, h.lastPage_stored, h.lastPage⟩
  intro r hr hwaits hs hnot
  rcases h.unseen r hr hwaits hs hnot with habove | ⟨page, response, hflight, hid⟩
  · exact .inl habove
  · obtain ⟨hpage, -⟩ := h.flight _ hflight
    obtain ⟨x, hx, hxid⟩ := List.mem_map.mp hid
    obtain ⟨y, hy, hyid, hposition, -⟩ := hpage.waits x hx
    have hsame := inj_on_of_nodup_map s.distinct hr hy (hxid.symm.trans hyid.symm)
    refine .inl fun p hp => ?_
    rw [hsame, hposition]
    refine hkeeps x ?_ (hxid ▸ hnot) p hp
    simpa only [State.underWay, hflight] using hx

theorem step_sound (hkeeps : LossKeeps s e)
    (hstep : step stored channelId s e = some t) : Sound stored channelId t := by
  revert hstep
  fun_cases step stored channelId s e with
  | case1 row hguard =>
    rintro ⟨⟩
    exact handOff_sound h hguard.1 hguard.2.1 hguard.2.2.1 hguard.2.2.2
  | case3 watermark limit hguard =>
    rintro ⟨⟩
    refine h.setFlight (not_onResponse ?_) ?_
    · simp [isNone_iff_eq_none.mp hguard.1]
    · rintro f ⟨⟩
      exact hguard.2
  | case5 now watermark limit hflight =>
    rintro ⟨⟩
    exact h.setFlight (not_onResponse (by simp [hflight])) nofun
  | case6 now watermark limit hflight =>
    rintro ⟨⟩
    have hasked := h.flight _ hflight
    refine h.setFlight (not_onResponse (by simp [hflight])) ?_
    rintro f ⟨⟩
    exact hasked
  | case7 now watermark limit hflight p hp =>
    rintro ⟨⟩
    have hasked := h.flight _ hflight
    have hlast : watermark = s.last := by
      refine hasked.1.resolve_left ?_
      rintro rfl
      simp [decodeWatermark] at hp
    refine acknowledgeOutbox_sound h (not_onResponse (by simp [hflight])) (hlast ▸ hp) ?_
    rintro f ⟨⟩
    exact hasked
  | case9 watermark limit count hflight =>
    rintro ⟨⟩
    refine h.setFlight (not_onResponse (by simp [hflight])) ?_
    rintro f ⟨⟩
    exact ⟨(h.flight _ hflight).1, pageOf_outboxPage s.distinct limit⟩
  | case11 servedAt watermark count page more hflight =>
    rintro ⟨⟩
    exact markServed_sound h hflight
  | case13 page response hflight =>
    rintro ⟨⟩
    exact receive_sound h hflight
  | case15 =>
    rintro ⟨⟩
    exact lose_sound h hkeeps
  | case17 now hidle p hp =>
    rintro ⟨⟩
    have hnone := isNone_iff_eq_none.mp hidle
    refine acknowledgeOutbox_sound h (not_onResponse (by simp [hnone])) hp ?_
    rw [hnone]
    nofun
  | case18 =>
    rintro ⟨⟩
    exact h
  | case2 | case4 | case8 | case10 | case12 | case14 | case16 | case19 => rintro ⟨⟩

end Steps

end Converger.OutboxRuns
