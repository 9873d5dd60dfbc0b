import Converger.Base64
import Converger.Json
import Converger.Text
import Converger.UuidText
import Mathlib.Algebra.Group.Nat.Defs
import Mathlib.Data.List.TakeWhile

/-!
# Watermarks

The position a client hands back: the number of the last activity it has seen, as an integer
or a decimal string, or one of the older opaque forms, which are the URL-safe Base64 of
`seq:` and the number or of an activity id.
-/
namespace Converger.Watermarks
open Text UuidText List

inductive Position
  | seq (n : ℕ)
  | activityId (id : String)
  deriving DecidableEq, Repr

inductive Outcome
  | ok (position : Option Position)
  | invalidWatermark
  | raised
  deriving DecidableEq, Repr

/-! ## The opaque form -/

def rawText (bytes : List ℕ) : String :=
  let hexDigit n := "0123456789abcdef".toList.getD n '0'
  let hex := bytes.flatMap fun b => [hexDigit (b / 16), hexDigit (b % 16)]
  let part i n := (hex.drop i).take n
  String.ofList (part 0 8 ++ '-' :: part 8 4 ++ '-' :: part 12 4 ++ '-' :: part 16 4 ++ '-' :: part 20 12)

/-- `Ecto.UUID.cast/1` of a binary: the text of a UUID in any case, or its 16 bytes. -/
def castUuid (text : List Char) : Option String :=
  if wellFormed text then some (String.ofList (text.map lowerHex))
  else if text.length = 16 then some (rawText (text.map Char.toNat))
  else none

def decodePosition : List Char → Outcome
  | 's' :: 'e' :: 'q' :: ':' :: digits =>
    match integerParse digits with
    | some (.ofNat n, []) => .ok (some (.seq n))
    | _ => .invalidWatermark
  | legacyActivityId =>
    match castUuid legacyActivityId with
    | some id => .ok (some (.activityId id))
    | none => .invalidWatermark

def opaqueText (watermark : String) : Option (List Char) :=
  (Base64.decode watermark.toList).map fun bytes => bytes.map Char.ofNat

/-- `Watermark.decode/1` of a string that is not empty. -/
def decode (watermark : String) : Outcome :=
  match opaqueText watermark with
  | some text => decodePosition text
  | none => .invalidWatermark

def encode (seq : ℕ) : String :=
  String.ofList (Base64.encode (("seq:".toList ++ seq.repr.toList).map Char.toNat))

/-! ## Parsing -/

/-- The pattern `0|[1-9][0-9]` with at most 18 further digits. -/
def isDecimal : List Char → Bool
  | [] => false
  | ['0'] => true
  | c :: cs => '1' ≤ c && c ≤ '9' && cs.all Char.isDigit && cs.length ≤ 18

/-- A decimal string before a line break: the `$` of the pattern matches there too. -/
def isDecimalLine (cs : List Char) : Bool := cs.getLast? = some '\n' && isDecimal cs.dropLast

/-- `ConvergerWeb.Protocol.parse_watermark/2`. A line break makes the conversion of the
decimal string raise. -/
def parseWatermark : Json → Outcome
  | .null => .ok none
  | .int (.ofNat n) => .ok (some (.seq n))
  | .str s =>
    if s = "" then .ok none
    else if isDecimal s.toList then .ok (some (.seq (Nat.ofDigitChars 10 s.toList 0)))
    else if isDecimalLine s.toList then .raised
    else decode s
  | _ => .invalidWatermark

/-- The largest value of a `bigint` column and one more. -/
def bigintEnd : ℕ := 2 ^ 63

/-- The string is an opaque watermark for the number `n`. -/
def Opaque (s : String) (n : ℕ) : Prop :=
  ∃ digits, opaqueText s = some ('s' :: 'e' :: 'q' :: ':' :: digits) ∧
    integerParse digits = some (.ofNat n, [])

/-- Numbers, in whatever form, are below the end of `bigint`, and no decimal string is
followed by a line break. -/
def InRange : Json → Prop
  | .int n => n < bigintEnd
  | .str s =>
    if isDecimal s.toList then Nat.ofDigitChars 10 s.toList 0 < bigintEnd
    else isDecimalLine s.toList = false ∧ ∀ n, Opaque s n → n < bigintEnd
  | _ => True

/-- The value is parsed without raising, and a number it gives fits a `bigint` column. -/
def ParsesInRange (v : Json) : Prop :=
  parseWatermark v ≠ .raised ∧ ∀ n, parseWatermark v = .ok (some (.seq n)) → n < bigintEnd

theorem decode_ne_raised (s : String) : decode s ≠ .raised := by
  unfold decode decodePosition
  repeat' split
  all_goals simp

variable {n : ℕ}

theorem decode_eq_seq {s : String} : decode s = .ok (some (.seq n)) ↔ Opaque s n := by
  unfold decode Opaque
  cases opaqueText s with
  | none => simp
  | some text =>
    simp only [Option.some.injEq]
    constructor
    · intro h
      unfold decodePosition at h
      split at h
      · split at h <;> cases h
        exact ⟨_, rfl, ‹_›⟩
      · split at h <;> cases h
    · rintro ⟨digits, rfl, h⟩
      simp [decodePosition, h]

theorem parsesInRange_iff (v : Json) : ParsesInRange v ↔ InRange v := by
  cases v with
  | null | bool b | float text | arr items | obj fields =>
    simp [ParsesInRange, parseWatermark, InRange]
  | int n =>
    cases n with
    | ofNat n => simp [ParsesInRange, parseWatermark, InRange]
    | negSucc n =>
      simp only [ParsesInRange, parseWatermark, InRange]
      simp
      omega
  | str s =>
    simp only [ParsesInRange, parseWatermark, InRange]
    by_cases hempty : s = ""
    · subst hempty
      have htext : opaqueText "" = some [] := by decide
      simp [isDecimal, isDecimalLine, Opaque, htext]
    · rw [if_neg hempty]
      split
      · simp
      · cases hline : isDecimalLine s.toList with
        | true => simp
        | false => simp [decode_ne_raised, decode_eq_seq]

/-! ## Round trips -/

theorem head_toDigits (h : 0 < n) : ∃ c cs, Nat.toDigits 10 n = c :: cs ∧ '1' ≤ c ∧ c ≤ '9' := by
  induction n using Nat.strongRecOn with
  | ind n ih =>
    rw [Nat.toDigits_eq_if (by decide)]
    by_cases hn : n < 10
    · have hall : ∀ i : Fin 10, 0 < i.val →
          '1' ≤ Nat.digitChar i.val ∧ Nat.digitChar i.val ≤ '9' := by decide
      rw [if_pos hn]
      exact ⟨_, [], rfl, hall ⟨n, hn⟩ h⟩
    · obtain ⟨c, cs, hcs, hc⟩ := ih (n / 10) (by omega) (by omega)
      rw [if_neg hn, hcs]
      exact ⟨c, _, rfl, hc⟩

theorem isDecimal_toDigits (h : n < bigintEnd) : isDecimal (Nat.toDigits 10 n) = true := by
  by_cases hn : n = 0
  · subst hn
    rfl
  · obtain ⟨c, cs, hcs, hlow, hhigh⟩ := head_toDigits (Nat.pos_of_ne_zero hn)
    have hlen : (Nat.toDigits 10 n).length ≤ 19 :=
      (Nat.length_toDigits_le_iff (by decide) (by decide)).mpr (Nat.lt_trans h (by decide))
    have hdigits : ∀ d ∈ cs, d.isDigit = true := by
      intro d hd
      have hmem : d ∈ Nat.toDigits 10 n := by
        rw [hcs]
        exact mem_cons_of_mem _ hd
      exact Nat.isDigit_of_mem_toDigits (by decide) (by decide) hmem
    rw [hcs] at hlen ⊢
    have hc : c ≠ '0' := by
      rintro rfl
      exact absurd hlow (by decide)
    simp only [length_cons] at hlen
    rw [isDecimal]
    · simp only [hlow, hhigh, decide_true, Bool.true_and, Bool.and_eq_true, all_eq_true,
        decide_eq_true_eq]
      exact ⟨hdigits, by omega⟩
    · intro h0
      exact absurd h0 hc

theorem isDigit_of_mem_toDigits {n : ℕ} : ∀ d ∈ Nat.toDigits 10 n, d.isDigit = true :=
  fun _ hd => Nat.isDigit_of_mem_toDigits (by decide) (by decide) hd

theorem parseDigits_toDigits (n : ℕ) : parseDigits (Nat.toDigits 10 n) = some (n, []) := by
  have htake : (Nat.toDigits 10 n).takeWhile Char.isDigit = Nat.toDigits 10 n :=
    takeWhile_eq_self_iff.mpr isDigit_of_mem_toDigits
  have hdrop : (Nat.toDigits 10 n).dropWhile Char.isDigit = [] :=
    dropWhile_eq_nil_iff.mpr isDigit_of_mem_toDigits
  have hvalue : Nat.ofDigitChars 10 (Nat.toDigits 10 n) 0 = n := Nat.ofDigitChars_ten_toDigits
  simp only [parseDigits, htake, hdrop, if_neg Nat.toDigits_ne_nil]
  exact congrArg (fun m => some (m, [])) hvalue

theorem integerParse_toDigits (n : ℕ) : integerParse (Nat.toDigits 10 n) = some (.ofNat n, []) := by
  have hdigits := @isDigit_of_mem_toDigits n
  have hparse := parseDigits_toDigits n
  cases hd : Nat.toDigits 10 n with
  | nil => exact absurd hd Nat.toDigits_ne_nil
  | cons c cs =>
    have hc : c.isDigit = true := hdigits c (by simp [hd])
    rw [hd] at hparse
    unfold integerParse
    split
    · exact absurd hc (by simp_all)
    · exact absurd hc (by simp_all)
    · simp [hparse]

def seqText (n : ℕ) : List Char := 's' :: 'e' :: 'q' :: ':' :: Nat.toDigits 10 n

theorem encode_toList (n : ℕ) : (encode n).toList = Base64.encode ((seqText n).map Char.toNat) := by
  simp [encode, seqText, Nat.toList_repr]

theorem opaqueText_ofList {text : List Char} (h : ∀ c ∈ text, c.toNat < 256) :
    opaqueText (String.ofList (Base64.encode (text.map Char.toNat))) = some text := by
  have hbytes : ∀ b ∈ text.map Char.toNat, b < 256 := by
    intro b hb
    obtain ⟨c, hc, rfl⟩ := mem_map.mp hb
    exact h c hc
  rw [opaqueText, String.toList_ofList, Base64.decode_encode hbytes, Option.map_some, map_map]
  have hid : (Char.ofNat ∘ Char.toNat) = id := by
    funext c
    exact Char.ofNat_toNat c
  rw [hid, map_id]

theorem toNat_lt_of_mem_toDigits {c : Char} (hc : c ∈ Nat.toDigits 10 n) : c.toNat < 256 := by
  have hdigit := Nat.isDigit_of_mem_toDigits (by decide) (by decide) hc
  have hle : c.toNat ≤ 57 := by
    simp only [Char.isDigit, Bool.and_eq_true, decide_eq_true_eq] at hdigit
    exact hdigit.2
  omega

theorem opaqueText_encode (n : ℕ) : opaqueText (encode n) = some (seqText n) := by
  have htext : encode n = String.ofList (Base64.encode ((seqText n).map Char.toNat)) := by
    rw [← encode_toList, String.ofList_toList]
  rw [htext]
  refine opaqueText_ofList fun c hc => ?_
  have hletters : ∀ c ∈ ['s', 'e', 'q', ':'], c.toNat < 256 := by simp
  rcases mem_append.mp (show c ∈ ['s', 'e', 'q', ':'] ++ Nat.toDigits 10 n from hc) with
    hc | hc
  · exact hletters c hc
  · exact toNat_lt_of_mem_toDigits hc

theorem encode_head (n : ℕ) : ∃ cs, (encode n).toList = 'c' :: cs := by
  rw [encode_toList]
  exact ⟨_, rfl⟩

theorem isDecimal_letter (cs : List Char) : isDecimal ('c' :: cs) = false := by
  simp [isDecimal]

theorem parseWatermark_encode (n : ℕ) : parseWatermark (.str (encode n)) = .ok (some (.seq n)) := by
  obtain ⟨cs, hcs⟩ := encode_head n
  have hne : encode n ≠ "" := by
    intro h
    rw [h, String.toList_empty] at hcs
    exact absurd hcs (cons_ne_nil _ _).symm
  have hline : isDecimalLine ('c' :: cs) = false := by
    cases cs with
    | nil => simp [isDecimalLine, isDecimal]
    | cons c cs => simp [isDecimalLine, List.dropLast, isDecimal_letter]
  simp only [parseWatermark, if_neg hne, hcs, isDecimal_letter, hline, Bool.false_eq_true, if_false]
  exact decode_eq_seq.mpr ⟨_, opaqueText_encode n, integerParse_toDigits n⟩

theorem parseWatermark_repr (h : n < bigintEnd) :
    parseWatermark (.str n.repr) = .ok (some (.seq n)) := by
  have hne : n.repr ≠ "" := by
    intro hempty
    have hlist := congrArg String.toList hempty
    rw [Nat.toList_repr] at hlist
    exact Nat.toDigits_ne_nil hlist
  rw [parseWatermark, if_neg hne, Nat.toList_repr, isDecimal_toDigits h, if_pos rfl,
    Nat.ofDigitChars_ten_toDigits]

/-- A watermark is parsed without raising into a number that fits a `bigint` column exactly if
the number it writes does and no line break follows a decimal string; and every number of that
range is read back from each of its three forms. -/
theorem watermark_parses_iff (v : Json) :
    (ParsesInRange v ↔ InRange v) ∧
    ∀ n < bigintEnd, parseWatermark (.int n) = .ok (some (.seq n)) ∧
      parseWatermark (.str n.repr) = .ok (some (.seq n)) ∧
      parseWatermark (.str (encode n)) = .ok (some (.seq n)) :=
  ⟨parsesInRange_iff v, fun n h => ⟨rfl, parseWatermark_repr h, parseWatermark_encode n⟩⟩

theorem watermark_parses_iff_seven :
    ParsesInRange (.int 7) ∧ parseWatermark (.str (encode 7)) = .ok (some (.seq 7)) :=
  ⟨(watermark_parses_iff (.int 7)).1.mpr (by simp [InRange, bigintEnd]),
    ((watermark_parses_iff (.int 7)).2 7 (by decide)).2.2⟩

/-- A line break after a decimal string raises, and a number that no `bigint` column holds is
returned. -/
theorem line_break_raises_and_range_exceeded :
    parseWatermark (.str "5\n") = .raised ∧
      parseWatermark (.str "9999999999999999999") = .ok (some (.seq 9999999999999999999)) ∧
      ¬ 9999999999999999999 < bigintEnd := by
  refine ⟨by decide, by decide, by decide⟩

end Converger.Watermarks
