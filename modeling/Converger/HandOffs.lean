import Converger.DeliveryJobs

/-!
# Hand-offs and their acknowledgement

Deliveries whose receipt comes from the consumer: a worker records the hand-off from the
struct it read, a client acknowledges everything of a conversation up to a number, and the
circuit breaker parks and releases the deliveries of the channel. Each event is one
statement on the whole table.
-/
namespace Converger.HandOffs
open Deliveries DeliveryJobs StaleWrites GuardedRuns Option

/-- A row, with what became of it since it was created or last replayed: its hand-off was
recorded, and an acknowledgement covered it after that. -/
structure Entry where
  row : Delivery
  handedOff : Bool := false
  acknowledged : Bool := false

/-- The delivery is one of the channel, to an activity of the conversation up to `seq`. -/
def covers (activities : List Activity) (channelId conversationId : Uuid) (seq : ℕ)
    (delivery : Delivery) : Bool :=
  delivery.channelId = channelId && activities.any fun a =>
    a.id = delivery.activityId && a.insertedAt = delivery.activityInsertedAt &&
      a.conversationId = conversationId && a.seq ≤ seq

/-- `acknowledge/3`, on a row it covers. -/
def acknowledgeRow (now : ℕ) (row : Delivery) : Delivery :=
  if row.status = .pending ∧ 0 < row.attempts then
    {row with status := .sent, sentAt := some now, updatedAt := now}
  else row

/-- `acknowledge/3`, where `covered` says which rows it covers. -/
def Entry.acknowledge (covered : Delivery → Bool) (now : ℕ) (entry : Entry) : Entry :=
  if covered entry.row then
    {entry with
      row := acknowledgeRow now entry.row
      acknowledged := entry.acknowledged || entry.handedOff}
  else entry

def Entry.onRow (selected : Delivery → Bool) (f : Delivery → Delivery) (entry : Entry) : Entry :=
  if selected entry.row then {entry with row := f entry.row} else entry

def Entry.handOff (now : ℕ) (struct : Delivery) (response : Metadata) (entry : Entry) : Entry :=
  {entry with
    row := update now struct entry.row (markHandedOff struct response)
    handedOff := true}

structure State where
  activities : List Activity
  entries : Uuid → Option Entry
  structs : ℕ → Option (Uuid × Delivery) := fun _ => none

inductive Event where
  | post (activity : Activity)
  | create (id : Uuid) (activity : Activity) (channelId : Uuid) (now : ℕ)
  | read (process : ℕ) (id : Uuid)
  | handOff (process : ℕ) (response : Metadata) (now : ℕ)
  | acknowledge (channelId conversationId : Uuid) (seq : ℕ) (now : ℕ)
  | parkBacklog (channelId : Uuid) (now : ℕ)
  | park (channelId activityId : Uuid) (now : ℕ)
  | releaseParked (channelId : Uuid) (now : ℕ)
  | retry (id : Uuid) (actor : String) (now : ℕ)

def step (s : State) : Event → Option State
  | .post activity => some {s with activities := activity :: s.activities}
  | .create id activity channelId now =>
    if (s.entries id).isNone then
      some { s with entries :=
        Function.update s.entries id (some {row := createDelivery id activity channelId now})}
    else none
  | .read process id =>
    -- What was sent already is not attempted.
    ((s.entries id).filter fun entry => !entry.row.status.settled).map fun entry =>
      {s with structs := Function.update s.structs process (some (id, entry.row))}
  | .handOff process response now =>
    (s.structs process).bind fun read =>
      (s.entries read.1).map fun entry =>
        {s with
          entries := Function.update s.entries read.1 (some (entry.handOff now read.2 response))
          structs := Function.update s.structs process none}
  | .acknowledge channelId conversationId seq now =>
    some { s with entries := fun id =>
      (s.entries id).map (.acknowledge (covers s.activities channelId conversationId seq) now)}
  | .parkBacklog channelId now =>
    some { s with entries := fun id =>
      (s.entries id).map (.onRow (fun row => row.channelId = channelId) (parkRow now))}
  | .park channelId activityId now =>
    some { s with entries := fun id =>
      (s.entries id).map (.onRow
        (fun row => row.channelId = channelId && row.activityId = activityId) (parkRow now))}
  | .releaseParked channelId now =>
    some { s with entries := fun id =>
      (s.entries id).map (.onRow (fun row => row.channelId = channelId) (releaseRow now))}
  | .retry id actor now =>
    ((s.entries id).filter fun entry => entry.row.status = .failed).map fun entry =>
      { s with entries :=
        Function.update s.entries id (some {row := resetDeadLetter now actor entry.row})}

/-- A delivery that was handed off and then acknowledged is sent, or further. -/
def Entry.Sent (entry : Entry) : Prop :=
  entry.acknowledged = true → entry.row.status.settled = true

def Entry.Counted (entry : Entry) : Prop :=
  (entry.handedOff = true → 0 < entry.row.attempts) ∧
    (entry.acknowledged = true → entry.handedOff = true)

/-- Every row of the table is as `P` says. -/
def State.All (P : Entry → Prop) (s : State) : Prop := ∀ id entry, s.entries id = some entry → P entry

/-- No delivery an acknowledgement covers is parked or dead by then, and a hand-off that is
recorded on an acknowledged delivery was read as pending. -/
def Unparked (s : State) : Event → Prop
  | .acknowledge channelId conversationId seq _ =>
    s.All fun entry => entry.handedOff = true →
      covers s.activities channelId conversationId seq entry.row = true →
      entry.row.status ≠ .paused ∧ entry.row.status ≠ .failed
  | .handOff process _ _ =>
    ∀ id struct entry, s.structs process = some (id, struct) → s.entries id = some entry →
      entry.acknowledged = true → struct.status = .pending
  | _ => True

section Table
variable {P : Entry → Prop} {s : State} {structs : ℕ → Option (Uuid × Delivery)}

theorem all_update (hs : s.All P) (id : Uuid) (entry : Entry) :
    State.All P ⟨s.activities, Function.update s.entries id (some entry), structs⟩ ↔ P entry := by
  rw [State.All, Function.forall_update_iff s.entries fun _ o => ∀ entry', o = some entry' → P entry']
  simp only [Option.some.injEq, forall_eq']
  exact and_iff_left fun id' _ => hs id'

theorem all_map {f : Entry → Entry} :
    State.All P ⟨s.activities, fun id => (s.entries id).map f, structs⟩ ↔ s.All fun e => P (f e) := by
  constructor
  · intro h id entry hrow
    exact h id (f entry) (by simp only [hrow, map_some])
  · intro h id entry' hrow
    obtain ⟨entry, hentry, rfl⟩ := map_eq_some_iff.mp hrow
    exact h id entry hentry

end Table

section Rows
variable {entry : Entry}

/-- A row that is new or starts over has been neither handed off nor acknowledged. -/
theorem counted_and_sent_of_new (row : Delivery) : Entry.Counted {row := row} ∧ Entry.Sent {row := row} :=
  ⟨⟨by simp, by simp⟩, by simp [Entry.Sent]⟩

theorem onRow_keeps (selected : Delivery → Bool) {f : Delivery → Delivery}
    (hf : ∀ row, Rests row (f row)) (hc : entry.Counted) (hs : entry.Sent) :
    (entry.onRow selected f).Counted ∧ (entry.onRow selected f).Sent := by
  by_cases h : selected entry.row = true
  · rw [Entry.onRow, if_pos h]
    refine ⟨⟨fun hhand => ?_, hc.2⟩, fun hack => ?_⟩
    · exact (hf entry.row).attempts ▸ hc.1 hhand
    · exact (hf entry.row).settled ▸ hs hack
  · rw [Entry.onRow, if_neg h]
    exact ⟨hc, hs⟩

theorem settled_put_pending {old cur : Status} (hcur : cur.settled = true) :
    (put (some .pending) old cur).settled = true ↔ old = .pending := by
  by_cases h : old = .pending
  · simp [h, hcur]
  · simp [put_of_ne (Ne.symm h), h, Status.settled]

theorem handOff_counted (now : ℕ) (struct : Delivery) (response : Metadata) :
    (entry.handOff now struct response).Counted := by
  refine ⟨fun _ => ?_, fun _ => rfl⟩
  have hattempts : (entry.handOff now struct response).row.attempts = struct.attempts + 1 := put_succ _ _
  omega

theorem handOff_sent (hs : entry.Sent) (now : ℕ) (struct : Delivery) (response : Metadata) :
    (entry.handOff now struct response).Sent ↔
      (entry.acknowledged = true → struct.status = .pending) :=
  forall_congr' fun hack => settled_put_pending (hs hack)

theorem acknowledge_counted (hc : entry.Counted) (covered : Delivery → Bool) (now : ℕ) :
    (entry.acknowledge covered now).Counted := by
  by_cases h : covered entry.row = true
  · rw [Entry.acknowledge, if_pos h]
    have hattempts : (acknowledgeRow now entry.row).attempts = entry.row.attempts := by
      unfold acknowledgeRow
      split <;> rfl
    refine ⟨fun hhand => hattempts ▸ hc.1 hhand, fun hack => ?_⟩
    rcases Bool.or_eq_true_iff.mp hack with hack | hhand
    · exact hc.2 hack
    · exact hhand
  · rwa [Entry.acknowledge, if_neg h]

/-- Of the rows with an attempt, the acknowledgement leaves out those parked or dead. -/
theorem settled_acknowledgeRow {row : Delivery} (hpos : 0 < row.attempts) (now : ℕ) :
    (acknowledgeRow now row).status.settled = true ↔
      row.status ≠ .paused ∧ row.status ≠ .failed := by
  cases hstatus : row.status <;> simp [acknowledgeRow, hpos, hstatus, Status.settled]

theorem acknowledge_sent (hc : entry.Counted) (hs : entry.Sent) (covered : Delivery → Bool)
    (now : ℕ) :
    (entry.acknowledge covered now).Sent ↔ (entry.handedOff = true → covered entry.row = true →
      entry.row.status ≠ .paused ∧ entry.row.status ≠ .failed) := by
  by_cases h : covered entry.row = true
  · rw [Entry.acknowledge, if_pos h]
    -- An entry acknowledged before was handed off before, so only the hand-off counts.
    have hor : (entry.acknowledged || entry.handedOff) = entry.handedOff := by
      cases hack : entry.acknowledged with
      | true => rw [hc.2 hack, Bool.or_true]
      | false => rw [Bool.false_or]
    simp only [Entry.Sent, hor, h, forall_const]
    exact forall_congr' fun hhand => settled_acknowledgeRow (hc.1 hhand) now
  · rw [Entry.acknowledge, if_neg h]
    exact iff_of_true hs fun _ hcovered => absurd hcovered h

end Rows

section Step
variable {s t : State} {e : Event}

theorem onRow_all (hc : s.All Entry.Counted) (hs : s.All Entry.Sent)
    (selected : Delivery → Bool) {f : Delivery → Delivery} (hf : ∀ row, Rests row (f row)) :
    State.All Entry.Counted {s with entries := fun id => (s.entries id).map (.onRow selected f)} ∧
      State.All Entry.Sent {s with entries := fun id => (s.entries id).map (.onRow selected f)} :=
  ⟨all_map.mpr fun id entry h => (onRow_keeps selected hf (hc id entry h) (hs id entry h)).1,
    all_map.mpr fun id entry h => (onRow_keeps selected hf (hc id entry h) (hs id entry h)).2⟩

theorem step_sent (hc : s.All Entry.Counted) (hs : s.All Entry.Sent) (h : step s e = some t) :
    t.All Entry.Counted ∧ (t.All Entry.Sent ↔ Unparked s e) := by
  cases e with
  | post activity =>
    cases some.inj h
    exact ⟨hc, iff_of_true hs trivial⟩
  | create id activity channelId now =>
    simp only [step, ite_none_right_eq_some, Option.some.injEq] at h
    obtain ⟨-, rfl⟩ := h
    exact ⟨(all_update hc _ _).mpr (counted_and_sent_of_new _).1,
      iff_of_true ((all_update hs _ _).mpr (counted_and_sent_of_new _).2) trivial⟩
  | read process id =>
    obtain ⟨entry, -, rfl⟩ := map_eq_some_iff.mp h
    exact ⟨hc, iff_of_true hs trivial⟩
  | handOff process response now =>
    obtain ⟨⟨id, struct⟩, hstruct, hmap⟩ := bind_eq_some_iff.mp h
    obtain ⟨entry, hentry, rfl⟩ := map_eq_some_iff.mp hmap
    refine ⟨(all_update hc _ _).mpr (handOff_counted now struct response), ?_⟩
    rw [all_update hs, handOff_sent (hs id entry hentry)]
    constructor
    · intro hread id' struct' entry' hstruct' hentry'
      obtain ⟨rfl, rfl⟩ := Prod.mk.inj (some.inj (hstruct.symm.trans hstruct'))
      obtain rfl := some.inj (hentry.symm.trans hentry')
      exact hread
    · exact fun hread => hread id struct entry hstruct hentry
  | acknowledge channelId conversationId seq now =>
    cases some.inj h
    refine ⟨all_map.mpr fun id entry hentry => acknowledge_counted (hc id entry hentry) _ now, ?_⟩
    rw [all_map]
    refine forall_congr' fun id => forall_congr' fun entry => forall_congr' fun hentry => ?_
    exact acknowledge_sent (hc id entry hentry) (hs id entry hentry) _ now
  | parkBacklog channelId now | park channelId activityId now =>
    cases some.inj h
    obtain ⟨hc', hs'⟩ := onRow_all hc hs _ (rests_parkRow now)
    exact ⟨hc', iff_of_true hs' trivial⟩
  | releaseParked channelId now =>
    cases some.inj h
    obtain ⟨hc', hs'⟩ := onRow_all hc hs _ (rests_releaseRow now)
    exact ⟨hc', iff_of_true hs' trivial⟩
  | retry id actor now =>
    obtain ⟨entry, -, rfl⟩ := map_eq_some_iff.mp h
    exact ⟨(all_update hc _ _).mpr (counted_and_sent_of_new _).1,
      iff_of_true ((all_update hs _ _).mpr (counted_and_sent_of_new _).2) trivial⟩

end Step

def State.stored (activities : List Activity) (rows : Uuid → Option Delivery) : State where
  activities := activities
  entries := fun id => (rows id).map fun row => {row := row}

/-- What was handed off and acknowledged is sent in every state of a run exactly where no
acknowledgement comes while a delivery it covers is parked, and no hand-off is recorded over
an acknowledged delivery from a struct that was not pending. -/
theorem acknowledged_stay_sent_iff {activities : List Activity} {rows : Uuid → Option Delivery}
    {es : List Event} {t : State} (h : run step (.stored activities rows) es = some t) :
    Throughout step (State.All Entry.Sent) (.stored activities rows) es ↔
      Along step Unparked (.stored activities rows) es := by
  have hnew : ∀ id entry, (State.stored activities rows).entries id = some entry →
      entry.Counted ∧ entry.Sent := by
    intro id entry hentry
    obtain ⟨row, -, rfl⟩ := map_eq_some_iff.mp hentry
    exact counted_and_sent_of_new row
  exact throughout_iff_along (fun _ _ _ hc hs hst => step_sent hc hs hst)
    (fun id entry hentry => (hnew id entry hentry).1)
    (fun id entry hentry => (hnew id entry hentry).2) h

def firstHandedOff : List Event :=
  let activity : Activity := {id := 2, conversationId := 7, seq := 1}
  [.post activity, .create 1 activity 4 0, .read 0 1, .handOff 0 [] 1]

theorem acknowledged_stay_sent_iff_resumed :
    ∃ t, run step (.stored [] fun _ => none)
        (firstHandedOff ++ [.acknowledge 4 7 1 2, .parkBacklog 4 3, .releaseParked 4 4]) = some t ∧
      (Throughout step (State.All Entry.Sent) (.stored [] fun _ => none)
          (firstHandedOff ++ [.acknowledge 4 7 1 2, .parkBacklog 4 3, .releaseParked 4 4]) ↔
        Along step Unparked (.stored [] fun _ => none)
          (firstHandedOff ++ [.acknowledge 4 7 1 2, .parkBacklog 4 3, .releaseParked 4 4])) := by
  have hrun : (run step (.stored [] fun _ => none)
      (firstHandedOff ++ [.acknowledge 4 7 1 2, .parkBacklog 4 3, .releaseParked 4 4])).isSome =
        true := by
    decide +kernel
  obtain ⟨t, ht⟩ := isSome_iff_exists.mp hrun
  exact ⟨t, ht, acknowledged_stay_sent_iff ht⟩

/-- Acknowledged while the channel is paused, the delivery is pending again once it resumes. -/
theorem acknowledged_while_parked :
    ∃ t entry, run step (.stored [] fun _ => none)
        (firstHandedOff ++ [.parkBacklog 4 2, .acknowledge 4 7 1 3, .releaseParked 4 4]) = some t ∧
      t.entries 1 = some entry ∧ entry.acknowledged = true ∧ entry.row.status = .pending := by
  have hrun : (run step (.stored [] fun _ => none)
      (firstHandedOff ++ [.parkBacklog 4 2, .acknowledge 4 7 1 3, .releaseParked 4 4])).map
        (fun t => (t.entries 1).map fun entry => (entry.acknowledged, entry.row.status)) =
          some (some (true, .pending)) := by
    decide +kernel
  obtain ⟨t, ht, hentries⟩ := map_eq_some_iff.mp hrun
  obtain ⟨entry, hentry, hend⟩ := map_eq_some_iff.mp hentries
  obtain ⟨hack, hstatus⟩ := Prod.mk.inj hend
  exact ⟨t, entry, ht, hentry, hack, hstatus⟩

end Converger.HandOffs
