import Converger.Deliveries
import Converger.OrderedPages
import Converger.Watermarks
import Mathlib.Data.Prod.Lex
import Mathlib.Data.String.Basic

/-!
# The outbox of a pull channel

`Converger.Channels.Outbox`: a poll acknowledges what was served up to the watermark it sends
and answers with the next page. A watermark names the position of a delivery, its insertion
time and its id. Times are microseconds.
-/
namespace Converger.Outbox
open Deliveries OrderedPages Text UuidText List Option

/-- The microseconds a `DateTime` can hold. -/
def unixStart : ℤ := -377705116800000000

def unixEnd : ℕ := 253402300799999999

structure Row where
  id : StoredUuid
  activityId : Uuid
  channelId : Uuid
  insertedAt : ℕ
  insertedAt_le : insertedAt ≤ unixEnd
  status : Status := .pending
  attempts : ℕ := 0
  metadata : Metadata := []
  sentAt : Option ℕ := none
  updatedAt : ℕ := 0
  deriving DecidableEq

/-- The order of an outbox: `(inserted_at, id)`. -/
abbrev Position := ℤ ×ₗ String

def Row.position (r : Row) : Position := toLex ((r.insertedAt : ℤ), r.id.text)

def servedKey : String := "outbox_served_at"

def payloadKey : String := "outbox"

def Row.served (r : Row) : Bool := (r.metadata.lookup servedKey).isSome

def Row.waits (channelId : Uuid) (r : Row) : Bool :=
  r.channelId = channelId && r.status = .pending && 0 < r.attempts

/-! ## Watermarks -/

inductive Param
  | absent
  | text (s : String)
  | nested
  deriving DecidableEq

/-- `String.split/3` on the first colon. -/
def splitColon (cs : List Char) : Option (List Char × List Char) :=
  match cs.dropWhile (· ≠ ':') with
  | [] => none
  | _ :: rest => some (cs.takeWhile (· ≠ ':'), rest)

def positionText (p : Position) : List Char :=
  "v1".toList ++ ':' :: (toString (ofLex p).1).toList ++ ':' :: (ofLex p).2.toList

def encodeWatermark (r : Row) : String :=
  String.ofList (Base64.encode ((positionText r.position).map Char.toNat))

def decodePosition (text : List Char) : Option Position := do
  let (version, rest) ← splitColon text
  let (micros, id) ← splitColon rest
  if version = "v1".toList then
    match integerParse micros with
    | some (micros, []) =>
      if unixStart ≤ micros ∧ micros ≤ unixEnd then
        (Watermarks.castUuid id).map fun id => toLex (micros, id)
      else none
    | _ => none
  else none

/-- `none` is an invalid watermark. -/
def decodeWatermark : Param → Option (Option Position)
  | .absent => some none
  | .text w =>
    if w = "" then some none else ((Watermarks.opaqueText w).bind decodePosition).map some
  | .nested => none

theorem splitColon_append {cs : List Char} (h : ∀ c ∈ cs, c ≠ ':') (rest : List Char) :
    splitColon (cs ++ ':' :: rest) = some (cs, rest) := by
  have hall : ∀ c ∈ cs, (decide (c ≠ ':')) = true := fun c hc => decide_eq_true (h c hc)
  simp only [splitColon, dropWhile_append_of_pos hall, takeWhile_append_of_pos hall]
  simp

theorem positionText_position (r : Row) :
    positionText r.position =
      "v1".toList ++ ':' :: (Nat.toDigits 10 r.insertedAt ++ ':' :: r.id.text.toList) := by
  have hdigits : (toString (r.insertedAt : ℤ)).toList = Nat.toDigits 10 r.insertedAt := by
    rw [← Nat.toList_repr]
    rfl
  simp only [positionText, Row.position, ofLex_toLex, hdigits, append_assoc, cons_append]

theorem castUuid_text (u : StoredUuid) : Watermarks.castUuid u.text.toList = some u.text := by
  obtain ⟨hform, hlower⟩ := u.canonical
  rw [Watermarks.castUuid, if_pos hform, hlower, String.ofList_toList]

theorem toNat_lt_of_mem_positionText {r : Row} {c : Char} (hc : c ∈ positionText r.position) :
    c.toNat < 256 := by
  rw [positionText_position] at hc
  simp only [mem_append, mem_cons] at hc
  rcases hc with hc | rfl | hc | rfl | hc
  · have hletters : ∀ c ∈ "v1".toList, c.toNat < 256 := by simp
    exact hletters c hc
  · decide
  · exact Watermarks.toNat_lt_of_mem_toDigits hc
  · decide
  · exact toNat_lt_of_mem_text hc

theorem decodePosition_positionText (r : Row) :
    decodePosition (positionText r.position) = some r.position := by
  have hversion : ∀ c ∈ "v1".toList, c ≠ ':' := by simp
  have hdigits : ∀ c ∈ Nat.toDigits 10 r.insertedAt, c ≠ ':' := by
    rintro c hc rfl
    exact absurd (Nat.isDigit_of_mem_toDigits (by decide) (by decide) hc) (by decide)
  have hrange : unixStart ≤ Int.ofNat r.insertedAt ∧ Int.ofNat r.insertedAt ≤ unixEnd :=
    ⟨(by decide : unixStart ≤ 0).trans (Int.natCast_nonneg _), Int.ofNat_le.mpr r.insertedAt_le⟩
  simp only [decodePosition, positionText_position, splitColon_append hversion,
    splitColon_append hdigits, bind_eq_bind, bind_some, if_pos,
    Watermarks.integerParse_toDigits, if_pos hrange, castUuid_text, map_some]
  rfl

theorem decodeWatermark_encodeWatermark (r : Row) :
    decodeWatermark (.text (encodeWatermark r)) = some (some r.position) := by
  have htext := Watermarks.opaqueText_ofList fun c => toNat_lt_of_mem_positionText (r := r)
  have hne : encodeWatermark r ≠ "" := by
    intro h
    rw [← encodeWatermark, h] at htext
    have hlen := congrArg List.length (some.inj htext)
    rw [positionText_position] at hlen
    simp at hlen
  rw [decodeWatermark, if_neg hne, encodeWatermark, htext, bind_some,
    decodePosition_positionText, map_some]

/-! ## Pages and acknowledgements -/

/-- The `SELECT` of `outbox_page/2`. -/
def outboxPage (channelId : Uuid) (limit : ℕ) (rows : List Row) : List Row × Bool :=
  page Row.position none limit (rows.filter (Row.waits channelId))

def unservedIds (page : List Row) : List StoredUuid :=
  (page.filter fun r => !r.served).map Row.id

/-- The `UPDATE` of `outbox_page/2`, on one row. -/
def markServed (servedAt : String) (ids : List StoredUuid) (r : Row) : Row :=
  if r.id ∈ ids then {r with metadata := r.metadata.merge [(servedKey, servedAt)]} else r

/-- The rows `acknowledge_outbox/2` selects. -/
def acknowledges (channelId : Uuid) (p : Position) (r : Row) : Bool :=
  r.waits channelId && r.served &&
    ((r.insertedAt : ℤ) < (ofLex p).1 || (r.insertedAt : ℤ) = (ofLex p).1 && r.id.text ≤ (ofLex p).2)

def acknowledgeRow (now : ℕ) (channelId : Uuid) (p : Position) (r : Row) : Row :=
  if acknowledges channelId p r then
    {r with status := .sent, sentAt := some now, updatedAt := now}
  else r

/-- An item of a page. A delivery without a payload falls back to the stored activity. -/
structure Item where
  deliveryId : StoredUuid
  activity : Option String
  queuedAt : ℕ
  servedBefore : Bool
  deriving DecidableEq

def items (stored : Uuid → Option String) (deliveries : List Row) : List Item :=
  deliveries.map fun d =>
    { deliveryId := d.id
      activity := (d.metadata.lookup payloadKey).or (stored d.activityId)
      queuedAt := d.insertedAt
      servedBefore := d.served}

structure Response where
  items : List Item
  watermark : Param
  hasMore : Bool
  acknowledged : ℕ
  deriving DecidableEq

def respond (stored : Uuid → Option String) (watermark : Param) (page : List Row) (more : Bool)
    (acknowledged : ℕ) : Response where
  items := items stored page
  watermark :=
    match page.getLast? with
    | none => watermark
    | some last => .text (encodeWatermark last)
  hasMore := more
  acknowledged := acknowledged

/-- A poll that no other process interrupts: the stored rows and the answer. -/
def poll (stored : Uuid → Option String) (now : ℕ) (servedAt : String) (channelId : Uuid)
    (watermark : Param) (limit : ℕ) (rows : List Row) : Option (List Row × Response) := do
  let position ← decodeWatermark watermark
  let acknowledged := match position with
    | none => 0
    | some p => rows.countP (acknowledges channelId p)
  let rows := match position with
    | none => rows
    | some p => rows.map (acknowledgeRow now channelId p)
  let (page, more) := outboxPage channelId limit rows
  return (rows.map (markServed servedAt (unservedIds page)),
    respond stored watermark page more acknowledged)

/-! ## What the statements do to a row -/

section Rows
variable {channelId : Uuid} {r : Row}

theorem waits_iff :
    r.waits channelId = true ↔ r.channelId = channelId ∧ r.status = .pending ∧ 0 < r.attempts := by
  simp only [Row.waits, Bool.and_eq_true, decide_eq_true_eq, and_assoc]

theorem acknowledges_iff {p : Position} :
    acknowledges channelId p r = true ↔
      r.waits channelId = true ∧ r.served = true ∧ r.position ≤ p := by
  simp only [acknowledges, Bool.and_eq_true, Bool.or_eq_true, decide_eq_true_eq, Row.position,
    Prod.Lex.le_iff, ofLex_toLex, and_assoc]

variable (now : ℕ) (p : Position) (servedAt : String) (ids : List StoredUuid)

theorem acknowledgeRow_same :
    (acknowledgeRow now channelId p r).id = r.id ∧
      (acknowledgeRow now channelId p r).channelId = r.channelId ∧
      (acknowledgeRow now channelId p r).position = r.position ∧
      (acknowledgeRow now channelId p r).attempts = r.attempts ∧
      (acknowledgeRow now channelId p r).served = r.served := by
  unfold acknowledgeRow
  split_ifs <;> exact ⟨rfl, rfl, rfl, rfl, rfl⟩

theorem acknowledgeRow_status :
    (acknowledgeRow now channelId p r).status =
      if acknowledges channelId p r then .sent else r.status := by
  unfold acknowledgeRow
  split_ifs <;> rfl

theorem markServed_same :
    (markServed servedAt ids r).id = r.id ∧ (markServed servedAt ids r).channelId = r.channelId ∧
      (markServed servedAt ids r).position = r.position ∧
      (markServed servedAt ids r).attempts = r.attempts ∧
      (markServed servedAt ids r).status = r.status := by
  unfold markServed
  split_ifs <;> exact ⟨rfl, rfl, rfl, rfl, rfl⟩

theorem lookup_merge_singleton (metadata : Metadata) (key value : String) :
    (metadata.merge [(key, value)]).lookup key = some value := by
  induction metadata with
  | nil => simp [Metadata.merge]
  | cons entry metadata ih =>
    obtain ⟨name, text⟩ := entry
    simp only [Metadata.merge] at ih ⊢
    by_cases hkey : name = key
    · simpa [hkey] using ih
    · have hne : (key == name) = false := beq_eq_false_iff_ne.mpr (Ne.symm hkey)
      simpa [hkey, lookup_cons, hne] using ih

theorem served_markServed : (markServed servedAt ids r).served = true ↔ r.served = true ∨ r.id ∈ ids := by
  unfold markServed
  split_ifs with hmem
  · simp only [Row.served, lookup_merge_singleton, hmem, or_true, isSome_some]
  · simp only [hmem, or_false]

end Rows

/-! ## What a page holds -/

section Pages
variable {channelId : Uuid} {limit : ℕ} {rows : List Row}

theorem mem_waiting {r : Row} :
    r ∈ after Row.position none (rows.filter (Row.waits channelId)) ↔
      r ∈ rows ∧ r.waits channelId = true := by
  simp [mem_after]

theorem waiting_pairwise (h : (rows.map Row.id).Nodup) :
    (after Row.position none (rows.filter (Row.waits channelId))).Pairwise
      fun a b => a.position < b.position := by
  refine after_pairwise ?_
  have hids : ((rows.filter (Row.waits channelId)).map Row.id).Nodup :=
    h.sublist (filter_sublist.map _)
  rw [List.Nodup, pairwise_map] at hids ⊢
  refine hids.imp fun hne heq => hne ?_
  exact StoredUuid.text_inj.mp (congrArg (fun p : Position => (ofLex p).2) heq)

/-- A page holds waiting rows in order, and every row it leaves out comes after them. -/
theorem outboxPage_spec (h : (rows.map Row.id).Nodup) :
    let page := (outboxPage channelId limit rows).1
    (∀ x ∈ page, x ∈ rows ∧ x.waits channelId = true) ∧
      page.Pairwise (fun a b => a.position < b.position) ∧
      ∀ r ∈ rows, r.waits channelId = true → r ∉ page → ∀ x ∈ page, x.position < r.position := by
  have hpage : (outboxPage channelId limit rows).1 =
      (after Row.position none (rows.filter (Row.waits channelId))).take limit := page_fst limit
  have hsorted : (after Row.position none (rows.filter (Row.waits channelId))).Pairwise
      fun a b => a.position < b.position := waiting_pairwise h
  simp only [hpage]
  refine ⟨fun x hx => mem_waiting.mp (mem_of_mem_take hx),
    hsorted.sublist (take_sublist _ _), fun r hr hwaits hout x hx => ?_⟩
  have hr := mem_waiting.mpr ⟨hr, hwaits⟩
  by_contra hle
  rcases lt_or_eq_of_le (not_lt.mp hle) with hlt | heq
  · exact hout (mem_take_of_lt hsorted hr hx hlt)
  · have hne := hsorted.imp fun h => ne_of_lt h
    rw [eq_of_key_eq hne hr (mem_of_mem_take hx) heq.symm] at hx
    exact hout hx

theorem outboxPage_ne_nil {r : Row} (hlimit : 0 < limit) (hr : r ∈ rows)
    (hwaits : r.waits channelId = true) : (outboxPage channelId limit rows).1 ≠ [] := by
  have hpage : (outboxPage channelId limit rows).1 =
      (after Row.position none (rows.filter (Row.waits channelId))).take limit := page_fst limit
  rw [hpage, Ne, take_eq_nil_iff]
  rintro (h | h)
  · exact hlimit.ne' h
  · exact ne_nil_of_mem (mem_waiting.mpr ⟨hr, hwaits⟩) h

end Pages

end Converger.Outbox
