import Mathlib.Data.List.Basic

/-!
# UUIDs as text

The text form of a UUID has 32 hexadecimal digits in groups of 8, 4, 4, 4 and 12. Digits in
upper case are accepted; a loaded UUID is always written in lower case. A stored UUID is
represented by that lower-case text, so equality of stored UUIDs is equality of texts.
-/
namespace Converger.UuidText
open List

def lowerHex : Char → Char
  | 'A' => 'a'
  | 'B' => 'b'
  | 'C' => 'c'
  | 'D' => 'd'
  | 'E' => 'e'
  | 'F' => 'f'
  | c => c

def isHex (c : Char) : Bool :=
  c.isDigit || ('a' ≤ c && c ≤ 'f') || ('A' ≤ c && c ≤ 'F')

/-- The pattern of the text: a digit for each `0`. -/
def groups : List Char :=
  let digits n := List.replicate n '0'
  digits 8 ++ '-' :: digits 4 ++ '-' :: digits 4 ++ '-' :: digits 4 ++ '-' :: digits 12

def wellFormed (cs : List Char) : Bool :=
  cs.length = groups.length ∧
    (cs.zip groups).all fun p => if p.2 = '-' then p.1 = '-' else isHex p.1

def Canonical (s : String) : Prop :=
  wellFormed s.toList = true ∧ s.toList.map lowerHex = s.toList

instance (s : String) : Decidable (Canonical s) := inferInstanceAs (Decidable (_ ∧ _))

structure StoredUuid where
  text : String
  canonical : Canonical text
  deriving DecidableEq

variable {u : StoredUuid} {c : Char} {cs : List Char}

theorem StoredUuid.text_inj {v : StoredUuid} : u.text = v.text ↔ u = v := by
  cases u
  cases v
  simp

theorem lowerHex_lowerHex (c : Char) : lowerHex (lowerHex c) = lowerHex c := by
  unfold lowerHex
  split <;> first | rfl | (split <;> simp_all)

theorem isHex_lowerHex (h : isHex c = true) : isHex (lowerHex c) = true := by
  unfold lowerHex
  split <;> first | decide | exact h

theorem lowerHex_dash (h : c = '-') : lowerHex c = '-' := by
  rw [h]
  rfl

theorem wellFormed_map_lowerHex (h : wellFormed cs = true) : wellFormed (cs.map lowerHex) = true := by
  simp only [wellFormed, Bool.decide_and, Bool.and_eq_true, decide_eq_true_eq, all_eq_true] at h ⊢
  refine ⟨by rw [length_map]; exact h.1, ?_⟩
  rw [zip_map_left]
  intro p hp
  obtain ⟨q, hq, rfl⟩ := mem_map.mp hp
  have hpos := h.2 q hq
  simp only [Prod.map_fst, Prod.map_snd, id_eq]
  split
  · rename_i hdash
    rw [if_pos hdash] at hpos
    exact decide_eq_true (lowerHex_dash (of_decide_eq_true hpos))
  · rename_i hdigit
    rw [if_neg hdigit] at hpos
    exact isHex_lowerHex hpos

theorem eq_dash_or_isHex (h : wellFormed cs = true) (hc : c ∈ cs) : c = '-' ∨ isHex c = true := by
  simp only [wellFormed, Bool.decide_and, Bool.and_eq_true, decide_eq_true_eq, all_eq_true] at h
  rw [← map_fst_zip (Nat.le_of_eq h.1)] at hc
  obtain ⟨p, hp, rfl⟩ := mem_map.mp hc
  have hpos := h.2 p hp
  split at hpos
  · exact .inl (of_decide_eq_true hpos)
  · exact .inr hpos

theorem canonical_map_lowerHex (h : wellFormed cs = true) :
    Canonical (String.ofList (cs.map lowerHex)) := by
  rw [Canonical, String.toList_ofList]
  refine ⟨wellFormed_map_lowerHex h, ?_⟩
  rw [map_map]
  exact map_congr_left fun c _ => lowerHex_lowerHex c

/-- `Ecto.UUID.dump/1`: the UUID of a text, in upper or lower case. -/
def dump (s : String) : Option StoredUuid :=
  if h : wellFormed s.toList = true then
    some ⟨String.ofList (s.toList.map lowerHex), canonical_map_lowerHex h⟩
  else none

@[simp] theorem dump_text (u : StoredUuid) : dump u.text = some u := by
  obtain ⟨text, hform, hlower⟩ := u
  simp only [dump, dif_pos hform, hlower, String.ofList_toList]

theorem text_of_dump {s : String} (hs : Canonical s) (h : dump s = some u) : u.text = s := by
  rw [show s = (StoredUuid.mk s hs).text from rfl, dump_text] at h
  exact congrArg StoredUuid.text (Option.some.inj h).symm

theorem map_text_of_mapM_dump {ss : List String} {us : List StoredUuid}
    (hs : ∀ s ∈ ss, Canonical s) (h : ss.mapM dump = some us) : us.map StoredUuid.text = ss := by
  induction ss generalizing us with
  | nil =>
    cases h
    rfl
  | cons s ss ih =>
    obtain ⟨hhead, htail⟩ := forall_mem_cons.mp hs
    rw [mapM_cons] at h
    obtain ⟨u, hu, h⟩ := Option.bind_eq_some_iff.mp h
    obtain ⟨us', hus, h⟩ := Option.bind_eq_some_iff.mp h
    cases h
    rw [map_cons, text_of_dump hhead hu, ih htail hus]

theorem toNat_lt_of_mem_text (hc : c ∈ u.text.toList) : c.toNat < 256 := by
  have hupper : ∀ d : Char, d.toNat < 256 → c ≤ d → c.toNat < 256 := fun d hd hle => Nat.lt_of_le_of_lt hle hd
  rcases eq_dash_or_isHex u.canonical.1 hc with rfl | hhex
  · decide
  · simp only [isHex, Bool.or_eq_true, Bool.and_eq_true, decide_eq_true_eq, Char.isDigit] at hhex
    rcases hhex with (⟨-, h⟩ | ⟨-, h⟩) | ⟨-, h⟩
    · exact hupper '9' (by decide) h
    · exact hupper 'f' (by decide) h
    · exact hupper 'F' (by decide) h

end Converger.UuidText
