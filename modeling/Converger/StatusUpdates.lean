import Converger.Deliveries
import Converger.JsonValues

/-!
# Status updates of a provider

`Deliveries.apply_status_update/2` on the JSON object of a provider. `none` is a call that raises:
the delivery is read with `Repo.get_by`, which takes no second result, and an integer timestamp
goes through `DateTime.from_unix!`.
-/
namespace Converger.StatusUpdates
open Deliveries JsonValues Text

/-- What the update relies on. A time is in microseconds from the first instant of the calendar;
`fromIso8601` is `none` where it raises, and the database refuses a time or text by raising. -/
structure Runtime where
  now : ℕ
  fromIso8601 : String → Option (Option ℕ)
  castUuid : String → Option Uuid
  storableTime : ℕ → Bool
  storableText : String → Bool

inductive Answer where
  | ok (delivery : Delivery)
  | deliveryNotFound
  | missingIdentifier
  | invalid
deriving DecidableEq

def field (update : List (String × Value)) (name : String) : Value :=
  (update.lookup name).getD .null

/-- The seconds from the first to the last instant of the calendar, from 1970. -/
def InCalendar (unix : ℤ) : Prop := -377705116800 ≤ unix ∧ unix ≤ 253402300799

instance (unix : ℤ) : Decidable (InCalendar unix) := inferInstanceAs (Decidable (_ ∧ _))

def fromUnix (unix : ℤ) : Option ℕ :=
  if InCalendar unix then some ((unix + 377705116800) * 1000000).toNat else none

def parseProviderTimestamp (rt : Runtime) : Value → Option ℕ
  | .str ts => (rt.fromIso8601 ts).bind fun parsed =>
      match parsed, integerParse ts.toList with
      | some time, _ => some time
      | none, some (unix, _) => fromUnix unix
      | none, none => some rt.now
  | .int ts => fromUnix ts
  | _ => some rt.now

def statusOf : Value → Option Status
  | .str "pending" => some .pending
  | .str "paused" => some .paused
  | .str "sent" => some .sent
  | .str "delivered" => some .delivered
  | .str "read" => some .read
  | .str "failed" => some .failed
  | _ => none

def errorOf : Value → Option (Option String)
  | .null => some none
  | .str error => some (some error)
  | _ => none

def storable (rt : Runtime) (attrs : Attrs) : Bool :=
  [attrs.sentAt, attrs.deliveredAt, attrs.readAt].all (fun time => time.join.all rt.storableTime) &&
    attrs.lastError.join.all rt.storableText

/-- `advance_status/2` on a delivery that no other process changes. -/
def advance (rt : Runtime) (delivery : Delivery) (update : List (String × Value)) :
    Option Answer :=
  match advanceStatus delivery ⟨statusOf (field update "status"),
    parseProviderTimestamp rt (field update "timestamp"), errorOf (field update "error")⟩ with
  | .ignored => some (.ok delivery)
  | .raised => none
  | .rejected => some .invalid
  | .written attrs =>
    if storable rt attrs then some (.ok (Deliveries.update rt.now delivery delivery attrs))
    else none

/-- `Repo.get_by/2`, and what is done with the delivery. -/
def getBy (rt : Runtime) (update : List (String × Value)) : List Delivery → Option Answer
  | [] => some .deliveryNotFound
  | [delivery] => advance rt delivery update
  | _ => none

def byProviderMessageId (deliveries : List Delivery) (channelId : Uuid) (pmid : String) :
    List Delivery :=
  deliveries.filter fun d => d.channelId = channelId ∧ d.providerMessageId = some pmid

def byId (deliveries : List Delivery) (channelId id : Uuid) : List Delivery :=
  deliveries.filter fun d => d.channelId = channelId ∧ d.id = id

def applyById (rt : Runtime) (deliveries : List Delivery) (channelId : Uuid)
    (update : List (String × Value)) : Option Answer :=
  match field update "delivery_id" with
  | .str id =>
    if id = "" then some .missingIdentifier
    else match rt.castUuid id with
      | some id => getBy rt update (byId deliveries channelId id)
      | none => some .deliveryNotFound
  | _ => some .missingIdentifier

def applyStatusUpdate (rt : Runtime) (deliveries : List Delivery) (channelId : Uuid)
    (update : List (String × Value)) : Option Answer :=
  match field update "provider_message_id" with
  | .str pmid =>
    if pmid = "" then applyById rt deliveries channelId update
    else if rt.storableText pmid then
      getBy rt update (byProviderMessageId deliveries channelId pmid)
    else none
  | _ => applyById rt deliveries channelId update

/-- The timestamp can be read: an integer, also one at the front of a text, is in the calendar. -/
def Readable (rt : Runtime) : Value → Prop
  | .str ts => ∃ parsed, rt.fromIso8601 ts = some parsed ∧
      (parsed = none → ∀ r, integerParse ts.toList = some r → InCalendar r.1)
  | .int ts => InCalendar ts
  | _ => True

def namedById (rt : Runtime) (deliveries : List Delivery) (channelId : Uuid)
    (update : List (String × Value)) : List Delivery :=
  match field update "delivery_id" with
  | .str id => if id = "" then [] else ((rt.castUuid id).map (byId deliveries channelId)).getD []
  | _ => []

/-- The deliveries that an update names. -/
def named (rt : Runtime) (deliveries : List Delivery) (channelId : Uuid)
    (update : List (String × Value)) : List Delivery :=
  match field update "provider_message_id" with
  | .str pmid =>
    if pmid = "" then namedById rt deliveries channelId update
    else byProviderMessageId deliveries channelId pmid
  | _ => namedById rt deliveries channelId update

/-- An update that advances the delivery has a timestamp that can be read, and the database takes
what the new status writes: the error of a failure, else the time. -/
structure Taken (rt : Runtime) (update : List (String × Value)) (status : Status) : Prop where
  readable : Readable rt (field update "timestamp")
  error : status = .failed → ∀ s, field update "error" = .str s → blank s = false →
    rt.storableText s = true
  time : status ≠ .failed → ∀ t, parseProviderTimestamp rt (field update "timestamp") = some t →
    rt.storableTime t = true

section
variable {rt : Runtime} {deliveries : List Delivery} {channelId : Uuid} {delivery : Delivery}
  {update : List (String × Value)} {status : Status} {ts : Value}

theorem exists_timestamp_iff : (∃ t, parseProviderTimestamp rt ts = some t) ↔ Readable rt ts := by
  cases ts with
  | str s =>
    simp only [parseProviderTimestamp, Readable]
    cases rt.fromIso8601 s with
    | none => simp
    | some parsed =>
      cases parsed with
      | some t => simp
      | none =>
        cases integerParse s.toList with
        | none => simp
        | some r => simp [fromUnix]
  | int n => simp [parseProviderTimestamp, Readable, fromUnix]
  | _ => exact iff_of_true ⟨rt.now, rfl⟩ trivial

theorem storable_time {t : ℕ} {error : Option String} (hshould : shouldUpdate delivery (some status))
    (hfailed : status ≠ .failed) :
    storable rt (advanceAttrs status t error) = rt.storableTime t := by
  cases status with
  | failed => exact absurd rfl hfailed
  | pending | paused =>
    -- the lowest rank is above no other
    cases hcurrent : delivery.status <;> simp [shouldUpdate, hcurrent, Status.rank] at hshould
  | _ => simp [storable, advanceAttrs]

theorem storable_error {t : ℕ} {error : Option String} :
    storable rt (advanceAttrs .failed t error) = true ↔
      ∀ s ∈ error, blank s = false → rt.storableText s = true := by
  cases error with
  | none => simp [storable, advanceAttrs]
  | some s => cases hblank : blank s <;> simp [storable, advanceAttrs, castText, hblank]

theorem errorOf_eq {value : Value} {s : String} : errorOf value = some (some s) ↔ value = .str s := by
  cases value <;> simp [errorOf]

theorem exists_advance_iff : (∃ answer, advance rt delivery update = some answer) ↔
    ∀ status, statusOf (field update "status") = some status → shouldUpdate delivery (some status) →
      Taken rt update status := by
  cases hstatus : statusOf (field update "status") with
  | none => simp [advance, advanceStatus, hstatus]
  | some status =>
    by_cases hshould : shouldUpdate delivery (some status) = true
    case neg => simp [advance, advanceStatus, hstatus, hshould]
    have htaken : (∀ s, some status = some s → shouldUpdate delivery (some s) →
        Taken rt update s) ↔ Taken rt update status := by
      simp [hshould]
    rw [htaken]
    cases htime : parseProviderTimestamp rt (field update "timestamp") with
    | none =>
      refine iff_of_false (by simp [advance, advanceStatus, hstatus, hshould, htime]) fun h => ?_
      obtain ⟨t, ht⟩ := exists_timestamp_iff.mpr h.readable
      simp [htime] at ht
    | some t =>
      have hreadable : Readable rt (field update "timestamp") := exists_timestamp_iff.mp ⟨t, htime⟩
      by_cases hfailed : status = .failed
      · subst hfailed
        cases herror : errorOf (field update "error") with
        | none =>
          refine iff_of_true ⟨.invalid, by
            simp [advance, advanceStatus, hstatus, hshould, htime, herror]⟩ ⟨hreadable, ?_, by simp⟩
          intro _ s hs
          rw [hs] at herror
          cases herror
        | some error =>
          have hstorable := @storable_error rt t error
          simp only [advance, advanceStatus, hstatus, hshould, htime, herror, if_true]
          constructor
          · rintro ⟨answer, hanswer⟩
            obtain ⟨hstore, -⟩ := Option.ite_some_none_eq_some.mp hanswer
            refine ⟨hreadable, fun _ s hs => hstorable.mp hstore s ?_, by simp⟩
            exact Option.some.inj (herror.symm.trans (errorOf_eq.mpr hs))
          · intro h
            refine ⟨_, if_pos (hstorable.mpr fun s hs => h.error rfl s (errorOf_eq.mp ?_))⟩
            rw [herror, Option.mem_def.mp hs]
      · have hwritten : ∃ error, advance rt delivery update =
            if rt.storableTime t then
              some (.ok (Deliveries.update rt.now delivery delivery (advanceAttrs status t error)))
            else none := by
          cases herror : errorOf (field update "error") with
          | none => exact ⟨none, by
              simp [advance, advanceStatus, hstatus, hshould, htime, herror, hfailed,
                storable_time hshould hfailed]⟩
          | some error => exact ⟨error, by
              simp [advance, advanceStatus, hstatus, hshould, htime, herror,
                storable_time hshould hfailed]⟩
        obtain ⟨error, hwritten⟩ := hwritten
        rw [hwritten]
        constructor
        · rintro ⟨answer, hanswer⟩
          obtain ⟨hstore, -⟩ := Option.ite_some_none_eq_some.mp hanswer
          refine ⟨hreadable, fun h => absurd h hfailed, fun _ t' ht' => ?_⟩
          rw [htime] at ht'
          exact Option.some.inj ht' ▸ hstore
        · intro h
          exact ⟨_, if_pos (h.time hfailed t htime)⟩

theorem exists_getBy_iff {found : List Delivery} :
    (∃ answer, getBy rt update found = some answer) ↔
      found.length ≤ 1 ∧ ∀ delivery ∈ found, ∀ status, statusOf (field update "status") = some status →
        shouldUpdate delivery (some status) → Taken rt update status := by
  rcases found with _ | ⟨delivery, _ | ⟨other, rest⟩⟩
  · simp [getBy]
  · rw [getBy, exists_advance_iff]
    simp
  · simp [getBy]

theorem exists_applyById_iff : (∃ answer, applyById rt deliveries channelId update = some answer) ↔
    ∃ answer, getBy rt update (namedById rt deliveries channelId update) = some answer := by
  unfold applyById namedById
  split
  · split
    · simp [getBy]
    · cases rt.castUuid _ <;> simp [getBy]
  · simp [getBy]

/-- An update is answered exactly if it names at most one delivery and, where it advances it, its
timestamp can be read and the database takes what is written. -/
theorem applyStatusUpdate_returns_iff (rt : Runtime) (deliveries : List Delivery) (channelId : Uuid)
    (update : List (String × Value)) :
    (∃ answer, applyStatusUpdate rt deliveries channelId update = some answer) ↔
      (∀ pmid, field update "provider_message_id" = .str pmid → pmid ≠ "" →
        rt.storableText pmid = true) ∧
      (named rt deliveries channelId update).length ≤ 1 ∧
      ∀ delivery ∈ named rt deliveries channelId update,
        ∀ status, statusOf (field update "status") = some status →
          shouldUpdate delivery (some status) → Taken rt update status := by
  rw [← exists_getBy_iff]
  unfold applyStatusUpdate named
  split
  · rename_i pmid hpmid
    simp only [hpmid, Value.str.injEq, forall_eq']
    by_cases hempty : pmid = ""
    · rw [if_pos hempty, if_pos hempty, exists_applyById_iff, and_iff_right (absurd hempty)]
    · rw [if_neg hempty, if_neg hempty, forall_prop_of_true hempty]
      cases rt.storableText pmid <;> simp
  · rename_i hpmid
    rw [exists_applyById_iff, and_iff_right fun pmid heq => absurd heq (hpmid pmid)]

end

def plain : Runtime where
  now := 0
  fromIso8601 := fun _ => some none
  castUuid := fun _ => none
  storableTime := fun _ => true
  storableText := fun _ => true

def delivered (timestamp : Value) : List (String × Value) :=
  [("provider_message_id", .str "m"), ("status", .str "delivered"), ("timestamp", timestamp)]

def sentDelivery (id : Uuid) : Delivery :=
  { id, status := .sent, providerMessageId := some "m" }

/-- A timestamp in milliseconds raises, and so does an update that names two deliveries. -/
theorem milliseconds_raise :
    applyStatusUpdate plain [sentDelivery 1] 0 (delivered (.int 1760000000000)) = none ∧
      applyStatusUpdate plain [sentDelivery 1, sentDelivery 2] 0 (delivered .null) = none := by
  decide +kernel

end Converger.StatusUpdates
