import Converger.ChunkedDecoding
import Mathlib.Data.Nat.Bitwise

/-!
# MQTT packets

The encoder and decoder of `Channels.Mqtt.Packet` for the packets a connection receives, and the
reading loop of `Channels.Mqtt.Connection`. Binaries are lists of bytes. Encoding raises for a
string or a packet that is too long; decoding never raises.
-/
namespace Converger.Mqtt
open ChunkedDecoding List

@[match_pattern] def connackType : ℕ := 2
@[match_pattern] def publishType : ℕ := 3
@[match_pattern] def pubackType : ℕ := 4
@[match_pattern] def subackType : ℕ := 9
@[match_pattern] def pingrespType : ℕ := 13

def maxRemainingLength : ℕ := 268435455

def maxStringBytes : ℕ := 65535

structure Publish where
  topic : List UInt8
  payload : List UInt8
  qos : ℕ := 0
  packetId : Option ℕ := none
  dup : Bool := false
  retain : Bool := false
  deriving DecidableEq, Repr

inductive Packet where
  | connack (sessionPresent : Bool) (returnCode : UInt8)
  | publish (p : Publish)
  | puback (packetId : ℕ)
  | suback (packetId : ℕ) (returnCodes : List UInt8)
  | pingresp
  deriving DecidableEq, Repr

/-! ## Encoding -/

/-- The exceptions of the encoder. A packet id that is no integer cannot be written as 16 bits. -/
inductive Raise where
  | packetTooLarge (bytes : ℕ)
  | stringTooLong
  | notAnInteger
  deriving DecidableEq, Repr

/-- `<<n::16>>`. -/
def word (n : ℕ) : List UInt8 := [UInt8.ofNat (n / 256), UInt8.ofNat n]

def remainingLength (n : ℕ) : List UInt8 :=
  if n < 128 then [UInt8.ofNat n]
  else UInt8.ofNat (128 + n % 128) :: remainingLength (n / 128)

def fixed (type flags : ℕ) (body : List UInt8) : Except Raise (List UInt8) :=
  if maxRemainingLength < body.length then .error (.packetTooLarge body.length)
  else .ok (UInt8.ofNat (type <<< 4 ||| flags) :: (remainingLength body.length ++ body))

def string (value : List UInt8) : Except Raise (List UInt8) :=
  if maxStringBytes < value.length then .error .stringTooLong
  else .ok (word value.length ++ value)

def publishFlags (dup : Bool) (qos : ℕ) (retain : Bool) : ℕ :=
  (if dup then 0x08 else 0) ||| qos <<< 1 ||| if retain then 0x01 else 0

/-- The packet id of a `PUBLISH`, which is there for QoS 1. -/
def idBytes (p : Publish) : Except Raise (List UInt8) :=
  if 0 < p.qos then
    match p.packetId with
    | some id => .ok (word id)
    | none => .error .notAnInteger
  else .ok []

def publish (p : Publish) : Except Raise (List UInt8) := do
  let id ← idBytes p
  let topic ← string p.topic
  fixed publishType (publishFlags p.dup p.qos p.retain) (topic ++ id ++ p.payload)

def puback (packetId : ℕ) : Except Raise (List UInt8) := fixed pubackType 0 (word packetId)

/-! ## Decoding -/

inductive DecodeError where
  | malformedRemainingLength
  | unsupportedQos (qos : ℕ)
  | malformedPublish
  | unexpectedPacket (type : ℕ)
  deriving DecidableEq, Repr

inductive Length where
  | ok (length : ℕ) (rest : List UInt8)
  | more
  | error (e : DecodeError)
  deriving DecidableEq, Repr

def decodeLength : List UInt8 → ℕ → ℕ → Length
  | [], _, _ => .more
  | b :: rest, acc, multiplier =>
    if 128 ≤ b.toNat then
      if multiplier < 2097152 then decodeLength rest (acc + b.toNat % 128 * multiplier) (multiplier * 128)
      else .error .malformedRemainingLength
    else .ok (acc + b.toNat * multiplier) rest

/-- `<<length::16, topic::binary-size(length), rest::binary>>`. -/
def takeString : List UInt8 → Option (List UInt8 × List UInt8)
  | hi :: lo :: rest =>
    let length := hi.toNat * 256 + lo.toNat
    if length ≤ rest.length then some (rest.take length, rest.drop length) else none
  | _ => none

def publishId (qos : ℕ) (rest : List UInt8) : Except DecodeError (Option ℕ × List UInt8) :=
  match qos, rest with
  | 0, payload => .ok (none, payload)
  | 1, hi :: lo :: payload =>
    if 0 < hi.toNat * 256 + lo.toNat then .ok (some (hi.toNat * 256 + lo.toNat), payload)
    else .error .malformedPublish
  | _, _ => .error .malformedPublish

def decodePublish (flags : ℕ) (body : List UInt8) : Except DecodeError Packet :=
  let qos := flags >>> 1 &&& 0b11
  if qos ∉ [0, 1] then .error (.unsupportedQos qos)
  else
    match takeString body with
    | none => .error .malformedPublish
    | some (topic, rest) =>
      (publishId qos rest).map fun (packetId, payload) =>
        .publish {topic, payload, qos, packetId, dup := flags &&& 0x08 ≠ 0, retain := flags &&& 0x01 ≠ 0}

def decodePacket : ℕ → ℕ → List UInt8 → Except DecodeError Packet
  | connackType, 0, [session, code] => .ok (.connack (session.toNat % 2 = 1) code)
  | publishType, flags, body => decodePublish flags body
  | pubackType, 0, [hi, lo] => .ok (.puback (hi.toNat * 256 + lo.toNat))
  | subackType, 0, hi :: lo :: code :: codes =>
    .ok (.suback (hi.toNat * 256 + lo.toNat) (code :: codes))
  | pingrespType, 0, [] => .ok .pingresp
  | type, _, _ => .error (.unexpectedPacket type)

def decode : List UInt8 → Decoded UInt8 Packet DecodeError
  | [] => .more
  | header :: rest =>
    match decodeLength rest 0 1 with
    | .ok length rest =>
      if length ≤ rest.length then
        match decodePacket (header.toNat >>> 4) (header.toNat &&& 0x0F) (rest.take length) with
        | .ok packet => .packet packet (rest.drop length)
        | .error e => .error e
      else .more
    | .more => .more
    | .error e => .error e

/-! ## Round trips -/

@[simp] theorem toNat_ofNat_of_lt {n : ℕ} (h : n < 256) : (UInt8.ofNat n).toNat = n := by
  rw [UInt8.toNat_ofNat']
  exact Nat.mod_eq_of_lt h

section Lengths
variable {n multiplier : ℕ} (h : n * multiplier ≤ maxRemainingLength)
include h

/-- The bound of the decoder on the multiplier lets the lengths up to four groups pass. -/
theorem decodeLength_group (hn : ¬ n < 128) (rest : List UInt8) (acc : ℕ) :
    decodeLength (UInt8.ofNat (128 + n % 128) :: rest) acc multiplier =
      decodeLength rest (acc + n % 128 * multiplier) (multiplier * 128) := by
  have hbyte : (UInt8.ofNat (128 + n % 128)).toNat = 128 + n % 128 := toNat_ofNat_of_lt (by omega)
  have hmultiplier : multiplier < 2097152 := by
    have := Nat.mul_le_mul_right multiplier (Nat.not_lt.mp hn)
    simp only [maxRemainingLength] at h
    omega
  rw [decodeLength, if_pos (by omega), if_pos hmultiplier, hbyte, Nat.add_mod_left, Nat.mod_mod]

theorem next_group_le : n / 128 * (multiplier * 128) ≤ maxRemainingLength := by
  refine Nat.le_trans ?_ h
  rw [Nat.mul_comm multiplier, ← Nat.mul_assoc]
  exact Nat.mul_le_mul_right _ (Nat.div_mul_le_self n 128)

theorem decodeLength_remainingLength (rest : List UInt8) (acc : ℕ) :
    decodeLength (remainingLength n ++ rest) acc multiplier = .ok (acc + n * multiplier) rest := by
  induction n using Nat.strong_induction_on generalizing acc multiplier with
  | _ n ih =>
    rw [remainingLength]
    split_ifs with hn
    · have hbyte : (UInt8.ofNat n).toNat = n := toNat_ofNat_of_lt (by omega)
      simp [decodeLength, hbyte, Nat.not_le.mpr hn]
    · rw [cons_append, decodeLength_group h hn, ih (n / 128) (by omega) (next_group_le h)]
      congr 1
      rw [Nat.mul_comm multiplier, ← Nat.mul_assoc, Nat.add_assoc, ← Nat.add_mul]
      congr 2
      omega

theorem decodeLength_incomplete {front : List UInt8} (hfront : front <+: remainingLength n)
    (hne : front ≠ remainingLength n) (acc : ℕ) : decodeLength front acc multiplier = .more := by
  induction n using Nat.strong_induction_on generalizing front acc multiplier with
  | _ n ih =>
    cases front with
    | nil => rfl
    | cons b front =>
      rw [remainingLength] at hfront hne
      split_ifs at hfront hne with hn
      · obtain ⟨rfl, hnil⟩ := cons_prefix_cons.mp hfront
        rw [prefix_nil] at hnil
        exact absurd (by rw [hnil]) hne
      · obtain ⟨rfl, htail⟩ := cons_prefix_cons.mp hfront
        rw [decodeLength_group h hn]
        exact ih (n / 128) (by omega) (next_group_le h) htail (fun heq => hne (by rw [heq])) _

end Lengths

theorem header_split {type flags : ℕ} (htype : type < 16) (hflags : flags < 16) :
    (UInt8.ofNat (type <<< 4 ||| flags)).toNat >>> 4 = type ∧
      (UInt8.ofNat (type <<< 4 ||| flags)).toNat &&& 0x0F = flags := by
  have hor : type <<< 4 ||| flags = 2 ^ 4 * type + flags := by
    rw [Nat.shiftLeft_eq, Nat.mul_comm]
    exact (Nat.two_pow_add_eq_or_of_lt (i := 4) hflags type).symm
  have hbyte : (UInt8.ofNat (type <<< 4 ||| flags)).toNat = 2 ^ 4 * type + flags := by
    rw [hor]
    exact toNat_ofNat_of_lt (by omega)
  rw [hbyte]
  refine ⟨?_, ?_⟩
  · rw [Nat.shiftRight_eq_div_pow]
    omega
  · have hmask : 2 ^ 4 * type + flags &&& 0x0F = (2 ^ 4 * type + flags) % 2 ^ 4 :=
      Nat.and_two_pow_sub_one_eq_mod _ 4
    rw [hmask]
    omega

variable {packet : Packet}

section Fixed
variable {type flags : ℕ} {body bytes : List UInt8} (h : fixed type flags body = .ok bytes)
include h

theorem fixed_eq : body.length ≤ maxRemainingLength ∧
    bytes = UInt8.ofNat (type <<< 4 ||| flags) :: (remainingLength body.length ++ body) := by
  unfold fixed at h
  split_ifs at h with hlength
  cases h
  exact ⟨Nat.not_lt.mp hlength, rfl⟩

theorem decode_fixed (htype : type < 16) (hflags : flags < 16)
    (hpacket : decodePacket type flags body = .ok packet) (rest : List UInt8) :
    decode (bytes ++ rest) = .packet packet rest := by
  obtain ⟨hlength, rfl⟩ := fixed_eq h
  obtain ⟨hshift, hmask⟩ := header_split htype hflags
  rw [cons_append, append_assoc, decode, decodeLength_remainingLength (by rwa [Nat.mul_one])]
  simp only [Nat.zero_add, Nat.mul_one, length_append, Nat.le_add_right, ↓reduceIte, hshift, hmask,
    take_left, drop_left, hpacket]

theorem decode_incomplete {front : List UInt8} (hfront : front <+: bytes) (hne : front ≠ bytes) :
    decode front = .more := by
  obtain ⟨hlength, rfl⟩ := fixed_eq h
  rw [← Nat.mul_one body.length] at hlength
  cases front with
  | nil => rfl
  | cons header front =>
    obtain ⟨rfl, htail⟩ := cons_prefix_cons.mp hfront
    by_cases hcomplete : remainingLength body.length <+: front
    · obtain ⟨part, rfl⟩ := hcomplete
      rw [prefix_append_right_inj] at htail
      have hshort : part.length < body.length := by
        refine Nat.lt_of_le_of_ne htail.length_le fun heq => hne ?_
        rw [htail.eq_of_length heq]
      rw [decode, decodeLength_remainingLength hlength]
      simp only [Nat.zero_add, Nat.mul_one, Nat.not_le.mpr hshort, ↓reduceIte]
    · have hpart : front <+: remainingLength body.length := by
        obtain hpart | hall := prefix_or_prefix_of_prefix htail (prefix_append _ body)
        · exact hpart
        · exact absurd hall hcomplete
      rw [decode, decodeLength_incomplete hlength hpart fun heq => hcomplete (heq ▸ prefix_rfl)]

end Fixed

theorem word_value {n : ℕ} (h : n < 65536) :
    (UInt8.ofNat (n / 256)).toNat * 256 + (UInt8.ofNat n).toNat = n := by
  rw [toNat_ofNat_of_lt (by omega), UInt8.toNat_ofNat']
  omega

theorem takeString_word {topic : List UInt8} (h : topic.length ≤ maxStringBytes) (rest : List UInt8) :
    takeString (word topic.length ++ topic ++ rest) = some (topic, rest) := by
  have hlength : topic.length < 65536 := Nat.lt_succ_of_le h
  simp only [word, takeString, cons_append, nil_append, word_value hlength, length_append,
    Nat.le_add_right, ↓reduceIte, take_left, drop_left]

/-- What the encoder is given: QoS 0 goes without a packet id, QoS 1 with one of 16 bits. -/
def Publish.Sendable (p : Publish) : Prop :=
  p.qos = 0 ∧ p.packetId = none ∨
    p.qos = 1 ∧ ∃ id, p.packetId = some id ∧ 1 ≤ id ∧ id ≤ 65535

inductive Encodes : Packet → List UInt8 → Prop
  | publish {p : Publish} {bytes : List UInt8} (hp : p.Sendable) (h : publish p = .ok bytes) :
      Encodes (.publish p) bytes
  | puback {packetId : ℕ} {bytes : List UInt8} (hle : 1 ≤ packetId ∧ packetId ≤ 65535)
      (h : puback packetId = .ok bytes) : Encodes (.puback packetId) bytes

theorem publishFlags_spec {qos : ℕ} (h : qos ∈ [0, 1]) (dup retain : Bool) :
    publishFlags dup qos retain < 16 ∧ publishFlags dup qos retain >>> 1 &&& 0b11 = qos ∧
      decide (publishFlags dup qos retain &&& 0x08 ≠ 0) = dup ∧
      decide (publishFlags dup qos retain &&& 0x01 ≠ 0) = retain := by
  simp only [mem_cons, not_mem_nil, or_false] at h
  obtain rfl | rfl := h <;> cases dup <;> cases retain <;> decide

theorem Publish.Sendable.qos {p : Publish} (h : p.Sendable) : p.qos ∈ [0, 1] := by
  obtain ⟨hqos, -⟩ | ⟨hqos, -⟩ := h <;> simp [hqos]

theorem Publish.Sendable.id {p : Publish} (h : p.Sendable) :
    ∃ id, idBytes p = .ok id ∧ publishId p.qos (id ++ p.payload) = .ok (p.packetId, p.payload) := by
  obtain ⟨hqos, hid⟩ | ⟨hqos, id, hid, hpos, hle⟩ := h
  · exact ⟨[], by simp [idBytes, hqos], by simp [publishId, hqos, hid]⟩
  · have hvalue := word_value (Nat.lt_succ_of_le hle)
    refine ⟨word id, by simp [idBytes, hqos, hid], ?_⟩
    simp only [publishId, hqos, hid, word, cons_append, nil_append, hvalue, Nat.lt_of_lt_of_le
      Nat.zero_lt_one hpos, ↓reduceIte]

theorem decodePacket_publish (flags : ℕ) (body : List UInt8) :
    decodePacket publishType flags body = decodePublish flags body := rfl

theorem decodePacket_puback (n : ℕ) : decodePacket pubackType 0 (word n) =
    .ok (.puback ((UInt8.ofNat (n / 256)).toNat * 256 + (UInt8.ofNat n).toNat)) := rfl

/-- An encoded packet is a fixed header and a body from which the packet is decoded. -/
theorem Encodes.exists_fixed {bytes : List UInt8} (h : Encodes packet bytes) :
    ∃ type flags body, fixed type flags body = .ok bytes ∧ type < 16 ∧ flags < 16 ∧
      decodePacket type flags body = .ok packet := by
  cases h with
  | @publish p bytes hp h =>
    obtain ⟨id, hid, hdecode⟩ := hp.id
    obtain ⟨hflags, hqos, hdup, hretain⟩ := publishFlags_spec hp.qos p.dup p.retain
    simp only [Mqtt.publish, hid, string] at h
    split_ifs at h with hlength
    · cases h
    · refine ⟨_, _, _, h, by decide, hflags, ?_⟩
      have htopic := takeString_word (Nat.not_lt.mp hlength) (id ++ p.payload)
      rw [← append_assoc] at htopic
      rw [decodePacket_publish]
      simp only [decodePublish, hqos, hp.qos, not_true_eq_false, ↓reduceIte, htopic, hdecode,
        Except.map, hdup, hretain]
  | @puback packetId bytes hle h =>
    refine ⟨_, _, _, h, by decide, by decide, ?_⟩
    rw [decodePacket_puback, word_value (Nat.lt_succ_of_le hle.2)]

theorem length_decodeLength {bytes rest : List UInt8} {acc multiplier length : ℕ}
    (h : decodeLength bytes acc multiplier = .ok length rest) : rest.length < bytes.length := by
  induction bytes generalizing acc multiplier with
  | nil => cases h
  | cons b bytes ih =>
    rw [decodeLength] at h
    split_ifs at h
    · exact Nat.lt_succ_of_lt (ih h)
    · cases h
      exact Nat.lt_succ_self _

theorem decode_shrinks {buffer rest : List UInt8}
    (h : decode buffer = .packet packet rest) : rest.length < buffer.length := by
  cases buffer with
  | nil => cases h
  | cons header buffer =>
    rw [decode] at h
    cases hlength : decodeLength buffer 0 1 with
    | more | error e => simp [hlength] at h
    | ok length body =>
      simp only [hlength] at h
      split_ifs at h
      split at h <;> cases h
      have := length_decodeLength hlength
      simp only [length_drop, length_cons]
      omega

def decoder : Decoder UInt8 Packet DecodeError := ⟨decode, decode_shrinks⟩

theorem decoder_inverts : decoder.Inverts Encodes where
  nil := rfl
  append h rest := by
    obtain ⟨type, flags, body, hfixed, htype, hflags, hpacket⟩ := h.exists_fixed
    exact decode_fixed hfixed htype hflags hpacket rest
  incomplete h _ hfront hne := by
    obtain ⟨type, flags, body, hfixed, -⟩ := h.exists_fixed
    exact decode_incomplete hfixed hfront hne

/-! ## The reading loop -/

/-- The state of a connection that packets change: the publishes that wait for their `PUBACK` with
their callers, what was answered and what was passed on to the owner. -/
structure Connection where
  inflight : List (ℕ × ℕ) := []
  pingPending : Bool := false
  replies : List ℕ := []
  delivered : List Publish := []
  deriving DecidableEq, Repr

inductive Stop where
  | protocolError (e : DecodeError)
  | unexpectedPacket (packet : Packet)
  deriving DecidableEq, Repr

namespace Connection

def deliver (conn : Connection) (p : Publish) : Connection :=
  {conn with delivered := conn.delivered ++ [p]}

/-- The caller that waits for the acknowledgement is answered; a late one is ignored. -/
def acknowledge (conn : Connection) (packetId : ℕ) : Connection :=
  match conn.inflight.lookup packetId with
  | some caller =>
    {conn with
      inflight := conn.inflight.filter fun entry => entry.1 ≠ packetId
      replies := conn.replies ++ [caller]}
  | none => conn

def handlePacket (conn : Connection) : Packet → Except (Connection × Stop) Connection
  | .publish p => .ok (conn.deliver p)
  | .puback packetId => .ok (conn.acknowledge packetId)
  | .pingresp => .ok {conn with pingPending := false}
  | packet => .error (conn, .unexpectedPacket packet)

def handled (conn : Connection) (packet : Packet) : Connection :=
  match conn.handlePacket packet with
  | .ok conn' => conn'
  | .error (conn', _) => conn'

theorem handlePacket_eq {bytes : List UInt8} (h : Encodes packet bytes)
    (conn : Connection) : conn.handlePacket packet = .ok (conn.handled packet) := by
  cases h <;> rfl

/-- `handle_info/2` for the data of the socket: `handle_data/1` on the buffer and the new bytes, for
one chunk after the other. -/
def receive (conn : Connection) (buffer : List UInt8) (chunks : List (List UInt8)) :
    Except (Connection × Stop) (Connection × List UInt8) :=
  decoder.feed handlePacket .protocolError conn buffer chunks

end Connection

/-- However the encodings of a sequence of packets are cut into chunks, the connection handles these
packets in order and keeps nothing; a part of an encoding asks for more; and every byte string holds
finitely many packets, after which the decoder asks for more or reports an error. -/
theorem chunked_packets_received (sent : List (Packet × List UInt8))
    (hsent : ∀ x ∈ sent, Encodes x.1 x.2) :
    (∀ conn chunks, chunks.flatten = Decoder.stream sent → Connection.receive conn [] chunks =
        .ok ((Decoder.packets sent).foldl Connection.handled conn, [])) ∧
    (∀ x ∈ sent, ∀ front, front <+: x.2 → front ≠ x.2 → decode front = .more) ∧
    ∀ bytes, ∃ found left, decoder.Drains bytes found left ∧
      found.length + left.length ≤ bytes.length := by
  refine ⟨fun conn chunks hchunks => ?_, fun x hx front hfront hne => ?_, decoder.exists_drains⟩
  · refine decoder_inverts.feed_eq (fun x hx => ⟨hsent x hx, fun conn => ?_⟩) rfl hchunks conn
    exact Connection.handlePacket_eq (hsent x hx) conn
  · exact decoder_inverts.incomplete (hsent x hx) hfront hne

theorem fixed_of_short (type flags : ℕ) (body : List UInt8) (h : body.length < 128) :
    fixed type flags body =
      .ok (UInt8.ofNat (type <<< 4 ||| flags) :: UInt8.ofNat body.length :: body) := by
  have hlength : ¬ maxRemainingLength < body.length := by
    simp only [maxRemainingLength]
    omega
  rw [fixed, if_neg hlength, remainingLength, if_pos h, singleton_append]

def oneByteTopic : Publish := {topic := [97], payload := [1, 2], qos := 1, packetId := some 7}

/-- The chunks end inside the header, the topic length and the second packet. -/
theorem chunked_packets_received_pair :
    Connection.receive {inflight := [(9, 4)]} [] [[0x32], [7, 0], [1, 97, 0, 7, 1, 2, 0x40], [2, 0, 9]] =
      .ok ({replies := [4], delivered := [oneByteTopic]}, []) := by
  have hsent : ∀ x ∈ [(Packet.publish oneByteTopic, [0x32, 7, 0, 1, 97, 0, 7, 1, 2]),
      (Packet.puback 9, [0x40, 2, 0, 9])], Encodes x.1 x.2 := by
    refine forall_mem_cons.mpr ⟨?_, forall_mem_singleton.mpr ?_⟩
    · exact .publish (.inr ⟨rfl, 7, rfl, by decide, by decide⟩)
        (fixed_of_short publishType 2 [0, 1, 97, 0, 7, 1, 2] (by decide))
    · exact .puback (by decide) (fixed_of_short pubackType 0 [0, 9] (by decide))
  exact (chunked_packets_received _ hsent).1 _ _ rfl

end Converger.Mqtt
