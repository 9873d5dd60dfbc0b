import Mathlib.Data.List.Infix

/-!
# Decoding a stream that arrives in chunks

A decoder takes the first packet off a buffer. The reader appends each chunk to what is left and
takes packets off until the decoder asks for more. Where the encodings can be told from their
beginnings, the packets it hands on do not depend on how the stream was cut.
-/
namespace Converger.ChunkedDecoding
open List

universe u v w
variable {α : Type u} {P : Type v} {E : Type w} {S R : Type*} {buffer : List α} {s : S}
  {sent : List (P × List α)}

/-- What a decoder makes of a buffer: the first packet and the rest, nothing yet, or an error. -/
inductive Decoded (α : Type u) (P : Type v) (E : Type w) where
  | packet (p : P) (rest : List α)
  | more
  | error (e : E)

structure Decoder (α : Type u) (P : Type v) (E : Type w) where
  decode : List α → Decoded α P E
  shrinks : ∀ {buffer p rest}, decode buffer = .packet p rest → rest.length < buffer.length

namespace Decoder
variable (d : Decoder α P E)

/-- Take packets off the buffer and handle them, until more is needed or one of them, or an error,
ends the reading. -/
def pump (handle : S → P → Except (S × R) S) (onError : E → R) (s : S) (buffer : List α) :
    Except (S × R) (S × List α) :=
  match h : d.decode buffer with
  | .packet p rest =>
    have := d.shrinks h
    match handle s p with
    | .ok s' => pump handle onError s' rest
    | .error stopped => .error stopped
  | .more => .ok (s, buffer)
  | .error e => .error (s, onError e)
termination_by buffer.length

def feed (handle : S → P → Except (S × R) S) (onError : E → R) :
    S → List α → List (List α) → Except (S × R) (S × List α)
  | s, buffer, [] => .ok (s, buffer)
  | s, buffer, chunk :: chunks =>
    match d.pump handle onError s (buffer ++ chunk) with
    | .ok (s', buffer') => feed handle onError s' buffer' chunks
    | .error stopped => .error stopped

/-- Taking packets off the buffer, one after the other, gives these and leaves a buffer that
starts with no packet. -/
inductive Drains : List α → List P → List α → Prop
  | stop {buffer : List α} (h : ∀ p rest, d.decode buffer ≠ .packet p rest) : Drains buffer [] buffer
  | packet {buffer rest left : List α} {p : P} {ps : List P} (h : d.decode buffer = .packet p rest)
      (hrest : Drains rest ps left) : Drains buffer (p :: ps) left

theorem exists_drains (buffer : List α) :
    ∃ ps left, d.Drains buffer ps left ∧ ps.length + left.length ≤ buffer.length := by
  induction hn : buffer.length using Nat.strong_induction_on generalizing buffer with
  | _ n ih =>
    cases h : d.decode buffer with
    | packet p rest =>
      have hlt := d.shrinks h
      obtain ⟨ps, left, hdrains, hle⟩ := ih rest.length (hn ▸ hlt) rest rfl
      refine ⟨p :: ps, left, .packet h hdrains, ?_⟩
      rw [length_cons]
      omega
    | more | error e => exact ⟨[], buffer, .stop (by simp [h]), by simp [hn]⟩

/-- The decoder inverts an encoding, and recognises that a part of one is not complete. -/
structure Inverts (Encodes : P → List α → Prop) : Prop where
  nil : d.decode [] = .more
  append : ∀ {p bytes}, Encodes p bytes → ∀ rest, d.decode (bytes ++ rest) = .packet p rest
  incomplete : ∀ {p bytes}, Encodes p bytes → ∀ {front}, front <+: bytes → front ≠ bytes →
    d.decode front = .more

section Chunks
variable {d} {Encodes : P → List α → Prop} {handle : S → P → Except (S × R) S} {onError : E → R}
  {next : S → P → S}

theorem pump_of_packet {s' : S} {rest : List α} {p : P} (h : d.decode buffer = .packet p rest)
    (hp : handle s p = .ok s') : d.pump handle onError s buffer = d.pump handle onError s' rest := by
  rw [pump]
  split
  · next h' =>
    obtain ⟨rfl, rfl⟩ := Decoded.packet.inj (h.symm.trans h')
    simp only [hp]
  · next h' => cases h.symm.trans h'
  · next h' => cases h.symm.trans h'

theorem pump_of_more (h : d.decode buffer = .more) :
    d.pump handle onError s buffer = .ok (s, buffer) := by
  rw [pump]
  split
  · next h' => cases h.symm.trans h'
  · rfl
  · next h' => cases h.symm.trans h'

def packets (sent : List (P × List α)) : List P := sent.map Prod.fst

def stream (sent : List (P × List α)) : List α := sent.flatMap Prod.snd

/-- From a part of the stream, the complete packets are handled; the buffer is left with the
beginning of the next one. -/
theorem Inverts.pump_eq (hd : d.Inverts Encodes) (onError : E → R)
    (hsent : ∀ x ∈ sent, Encodes x.1 x.2 ∧ ∀ s, handle s x.1 = .ok (next s x.1))
    {tail : List α} (hbuffer : buffer ++ tail = stream sent) (s : S) :
    ∃ done todo left, sent = done ++ todo ∧ left ++ tail = stream todo ∧ d.decode left = .more ∧
      d.pump handle onError s buffer = .ok ((packets done).foldl next s, left) := by
  induction sent generalizing s buffer with
  | nil =>
    obtain ⟨rfl, rfl⟩ := append_eq_nil_iff.mp hbuffer
    exact ⟨[], [], [], rfl, rfl, hd.nil, pump_of_more hd.nil⟩
  | cons x sent ih =>
    obtain ⟨p, bytes⟩ := x
    obtain ⟨⟨hp, hhandle⟩, hsent⟩ := forall_mem_cons.mp hsent
    rw [stream, flatMap_cons] at hbuffer
    by_cases hcomplete : bytes <+: buffer
    · obtain ⟨rest, rfl⟩ := hcomplete
      rw [append_assoc, append_cancel_left_eq] at hbuffer
      obtain ⟨done, todo, left, hdone, hstream, hleft, hpump⟩ := ih hsent hbuffer (next s p)
      refine ⟨(p, bytes) :: done, todo, left, by rw [hdone, cons_append], hstream, hleft, ?_⟩
      rw [pump_of_packet (hd.append hp rest) (hhandle s), hpump]
      rfl
    · have hpart : buffer <+: bytes := by
        have hbytes : bytes <+: buffer ++ tail := hbuffer ▸ prefix_append ..
        obtain h | h := prefix_or_prefix_of_prefix (prefix_append buffer tail) hbytes
        · exact h
        · exact absurd h hcomplete
      have hdecode : d.decode buffer = .more :=
        hd.incomplete hp hpart fun heq => hcomplete (heq ▸ prefix_rfl)
      exact ⟨[], (p, bytes) :: sent, buffer, rfl, hbuffer, hdecode, pump_of_more hdecode⟩

/-- However the stream is cut, its packets are handled in order and nothing is left. -/
theorem Inverts.feed_eq (hd : d.Inverts Encodes) {chunks : List (List α)}
    (hsent : ∀ x ∈ sent, Encodes x.1 x.2 ∧ ∀ s, handle s x.1 = .ok (next s x.1))
    (hbuffer : d.decode buffer = .more) (hstream : buffer ++ chunks.flatten = stream sent) (s : S) :
    d.feed handle onError s buffer chunks = .ok ((packets sent).foldl next s, []) := by
  induction chunks generalizing sent buffer s with
  | nil =>
    rw [flatten_nil, append_nil] at hstream
    cases sent with
    | nil =>
      subst hstream
      rfl
    | cons x sent =>
      rw [hstream, stream, flatMap_cons, hd.append (hsent x mem_cons_self).1] at hbuffer
      cases hbuffer
  | cons chunk chunks ih =>
    rw [flatten_cons, ← append_assoc] at hstream
    obtain ⟨done, todo, left, rfl, hstream', hleft, hpump⟩ := hd.pump_eq onError hsent hstream s
    simp only [feed, hpump]
    rw [ih (fun x hx => hsent x (mem_append_right _ hx)) hleft hstream', packets, packets,
      packets, map_append, foldl_append]

end Chunks

end Decoder

end Converger.ChunkedDecoding
