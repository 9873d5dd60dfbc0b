import Converger.Sms
import Mathlib.Algebra.GroupWithZero.Nat
import Mathlib.Order.Bounds.Basic

/-!
# Segments of an SMS

`Sms.segments/1` divides the length of a text by the size of a segment. That is the number of
segments the text needs where no character of two units lies across the end of a segment.
-/
namespace Converger.Sms
open Text List

/-- GSM 03.38. -/
def gsm7Basic : List Char :=
  ("@£$¥èéùìòÇ\nØø\rÅåΔ_ΦΓΛΩΠΨΣΘΞÆæßÉ !\"#¤%&'()*+,-./0123456789:;<=>?¡" ++
    "ABCDEFGHIJKLMNOPQRSTUVWXYZÄÖÑÜ§¿abcdefghijklmnopqrstuvwxyzäöñüà").toList

def gsm7Extended : List Char := "^\x7b\x7d\\[~]|€\x0c".toList

inductive Encoding where
  | gsm7 | ucs2
  deriving DecidableEq

/-- The septets of a character, or its UTF-16 units. -/
def Encoding.units : Encoding → Char → ℕ
  | .gsm7, c => if c ∈ gsm7Basic then 1 else 2
  | .ucs2, c => if c.toNat < 0x10000 then 1 else 2

def Encoding.single : Encoding → ℕ
  | .gsm7 => 160
  | .ucs2 => 70

def Encoding.multi : Encoding → ℕ
  | .gsm7 => 153
  | .ucs2 => 67

def gsm7Length : List Char → ℕ → Option ℕ
  | [], acc => some acc
  | c :: cs, acc =>
    if c ∈ gsm7Basic then gsm7Length cs (acc + 1)
    else if c ∈ gsm7Extended then gsm7Length cs (acc + 2)
    else none

def utf16Units (cs : List Char) : ℕ := (cs.map Encoding.ucs2.units).sum

def count (length single multi : ℕ) : ℕ :=
  if length = 0 then 0 else if length ≤ single then 1 else (length + multi - 1) / multi

def segments (text : String) : Encoding × ℕ :=
  match gsm7Length text.toList 0 with
  | some septets => (.gsm7, count septets 160 153)
  | none => (.ucs2, count (utf16Units text.toList) 70 67)

def maxSegments : Option Json → ℕ
  | some (.int n) => if 0 < n then n.toNat else 10
  | some (.str s) => match integerParse (trim s.toList) with
    | some (n, []) => if 0 < n then n.toNat else 10
    | _ => 10
  | _ => 10

/-- A text of these sizes can be sent in `n` segments: alone, or cut between characters. -/
def Fits (single multi : ℕ) (sizes : List ℕ) (n : ℕ) : Prop :=
  (n = 1 ∧ sizes.sum ≤ single) ∨
    ∃ parts : List (List ℕ), parts.flatten = sizes ∧ parts.length = n ∧ ∀ part ∈ parts, part.sum ≤ multi

variable {single multi n : ℕ} {sizes : List ℕ}

end Converger.Sms
