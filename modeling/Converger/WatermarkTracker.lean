import Converger.KeyedLists
import Mathlib.Data.List.Sort

/-!
# The resume positions of an agent

For each conversation an agent keeps the highest number it has seen, which it resumes from after a
reconnect, and a window of the numbers seen lately, which tells a frame that comes again from one that
was overtaken. Numbers below the window count as seen.
-/
namespace Converger.WatermarkTracker
open KeyedLists List

/-! ### Lists of numbers -/

variable {l : List ℕ} {x capacity : ℕ} {α : Type} {positions : List (String × Position)}

theorem foldl_max_le_iff {b c : ℕ} : l.foldl max b ≤ c ↔ b ≤ c ∧ ∀ x ∈ l, x ≤ c := by
  induction l generalizing b with
  | nil => simp
  | cons x l ih => rw [foldl_cons, ih, Nat.max_le, forall_mem_cons, and_assoc]

theorem le_foldl_max (l : List ℕ) (b : ℕ) : b ≤ l.foldl max b := (foldl_max_le_iff.mp le_rfl).1

theorem mem_le_foldl_max (h : x ∈ l) (b : ℕ) : x ≤ l.foldl max b := (foldl_max_le_iff.mp le_rfl).2 x h

theorem foldl_max_eq (l : List ℕ) (b : ℕ) : l.foldl max b = b ∨ l.foldl max b ∈ l := by
  induction l generalizing b with
  | nil => exact .inl rfl
  | cons x l ih =>
    rcases ih (max b x) with h | h
    · rw [foldl_cons, h]
      rcases le_total x b with hle | hle
      · exact .inl (max_eq_left hle)
      · exact .inr (mem_cons.mpr (.inl (max_eq_right hle)))
    · exact .inr (mem_cons_of_mem _ h)

theorem add_length_le_of_increasing {b : ℕ} (hl : l.Pairwise (· < ·))
    (hx : ∀ y ∈ l, x < y) (hb : ∀ y ∈ l, y ≤ b) (hxb : x ≤ b) : x + l.length ≤ b := by
  induction l generalizing x with
  | nil => exact hxb
  | cons y l ih =>
    obtain ⟨hy, hl⟩ := pairwise_cons.mp hl
    have hrest : y + l.length ≤ b := ih hl hy (fun z hz => hb z (mem_cons_of_mem _ hz)) (hb y mem_cons_self)
    have hxy := hx y mem_cons_self
    rw [length_cons]
    omega

/-! ### Positions -/

/-- The highest number seen, the bound up to which numbers count as seen, and the numbers seen above
it. The highest number itself counts as seen. -/
structure Position where
  high : ℕ
  floor : ℕ
  seen : List ℕ
  nodup : seen.Nodup
  seen_le : ∀ n ∈ seen, n ≤ high
  floor_le : floor ≤ high
  high_seen : high ≤ floor ∨ high ∈ seen
  deriving DecidableEq, Repr

def window : ℕ := 512

namespace Position

def upTo (n : ℕ) : Position where
  high := n
  floor := n
  seen := []
  nodup := nodup_nil
  seen_le := fun _ h => absurd h not_mem_nil
  floor_le := le_rfl
  high_seen := .inl le_rfl

def isSeen (p : Position) (n : ℕ) : Bool := n ≤ p.floor || p.seen.contains n

variable {p : Position} {n : ℕ}

theorem isSeen_iff : p.isSeen n = true ↔ n ≤ p.floor ∨ n ∈ p.seen := by
  simp [isSeen]

theorem isSeen_high (p : Position) : p.isSeen p.high = true := isSeen_iff.mpr p.high_seen

theorem le_high_of_isSeen (h : p.isSeen n = true) : n ≤ p.high := by
  rcases isSeen_iff.mp h with h | h
  · exact h.trans p.floor_le
  · exact p.seen_le n h

theorem not_mem_of_not_isSeen (h : p.isSeen n = false) : n ∉ p.seen := by
  intro hmem
  rw [isSeen_iff.mpr (.inr hmem)] at h
  cases h

theorem forall_mem_add (p : Position) (n : ℕ) : ∀ m ∈ p.seen ++ [n], m ≤ max p.high n := by
  intro m hm
  rcases mem_snoc.mp hm with hm | rfl
  · exact (p.seen_le m hm).trans (le_max_left _ _)
  · exact le_max_right _ _

theorem high_seen_add (p : Position) (n : ℕ) : max p.high n ≤ p.floor ∨ max p.high n ∈ p.seen ++ [n] := by
  rcases le_total n p.high with h | h
  · rw [max_eq_left h]
    rcases p.high_seen with hfloor | hseen
    · exact .inl hfloor
    · exact .inr (mem_append_left _ hseen)
  · rw [max_eq_right h]
    exact .inr (mem_append_right _ mem_cons_self)

theorem nodup_add (h : p.isSeen n = false) : (p.seen ++ [n]).Nodup :=
  p.nodup.snoc (not_mem_of_not_isSeen h)

def add (p : Position) (n : ℕ) (h : p.isSeen n = false) : Position where
  high := max p.high n
  floor := p.floor
  seen := p.seen ++ [n]
  nodup := nodup_add h
  seen_le := p.forall_mem_add n
  floor_le := p.floor_le.trans (le_max_left _ _)
  high_seen := p.high_seen_add n

def sorted (p : Position) : List ℕ := p.seen.insertionSort (· ≤ ·)

def oldest (p : Position) : List ℕ := p.sorted.take (p.sorted.length - window)

theorem mem_sorted : n ∈ p.sorted ↔ n ∈ p.seen := mem_insertionSort _

theorem mem_of_oldest (h : n ∈ p.oldest) : n ∈ p.seen := mem_sorted.mp (mem_of_mem_take h)

theorem floor_le_forget (p : Position) : p.oldest.foldl max p.floor ≤ p.high := by
  rcases foldl_max_eq p.oldest p.floor with h | h
  · rw [h]
    exact p.floor_le
  · exact p.seen_le _ (mem_of_oldest h)

theorem high_seen_forget (p : Position) :
    p.high ≤ p.oldest.foldl max p.floor ∨ p.high ∈ p.seen.filter (· ∉ p.oldest) := by
  rcases p.high_seen with hfloor | hseen
  · exact .inl (hfloor.trans (le_foldl_max _ _))
  · by_cases hold : p.high ∈ p.oldest
    · exact .inl (mem_le_foldl_max hold _)
    · exact .inr (mem_filter.mpr ⟨hseen, decide_eq_true hold⟩)

theorem forall_mem_forget (p : Position) : ∀ m ∈ p.seen.filter (· ∉ p.oldest), m ≤ p.high :=
  fun m hm => p.seen_le m (mem_filter.mp hm).1

/-- The oldest numbers leave the window, and everything up to them counts as seen. -/
def forgetOldest (p : Position) : Position where
  high := p.high
  floor := p.oldest.foldl max p.floor
  seen := p.seen.filter (· ∉ p.oldest)
  nodup := p.nodup.filter _
  seen_le := p.forall_mem_forget
  floor_le := p.floor_le_forget
  high_seen := p.high_seen_forget

def record (p : Position) (n : ℕ) : Bool × Position :=
  match h : p.isSeen n with
  | true => (false, p)
  | false =>
    if window < (p.add n h).seen.length then (true, (p.add n h).forgetOldest)
    else (true, p.add n h)

/-! What recording a number changes. -/

theorem floor_forgetOldest (p : Position) : p.forgetOldest.floor = p.oldest.foldl max p.floor := by
  rw [forgetOldest]

theorem isSeen_forgetOldest_iff : p.forgetOldest.isSeen n = true ↔
    n ≤ p.oldest.foldl max p.floor ∨ n ∈ p.seen ∧ n ∉ p.oldest := by
  rw [isSeen_iff, forgetOldest, mem_filter, decide_eq_true_iff]

theorem isSeen_forgetOldest (h : p.isSeen n = true) : p.forgetOldest.isSeen n = true := by
  apply isSeen_forgetOldest_iff.mpr
  rcases isSeen_iff.mp h with h | h
  · exact .inl (h.trans (le_foldl_max p.oldest p.floor))
  · by_cases hold : n ∈ p.oldest
    · exact .inl (mem_le_foldl_max hold p.floor)
    · exact .inr ⟨h, hold⟩

theorem increasing_sorted (p : Position) : p.sorted.Pairwise (· < ·) := by
  have hle : p.sorted.Pairwise (· ≤ ·) := pairwise_insertionSort _ _
  have hne : p.sorted.Nodup := (perm_insertionSort _ _).nodup_iff.mpr p.nodup
  exact (hle.and hne).imp fun h => lt_of_le_of_ne h.1 h.2

/-- The numbers that stay in the window. -/
def newest (p : Position) : List ℕ := p.sorted.drop (p.sorted.length - window)

theorem increasing_oldest_newest (p : Position) : (p.oldest ++ p.newest).Pairwise (· < ·) := by
  rw [oldest, newest, take_append_drop]
  exact p.increasing_sorted

theorem nodup_newest (p : Position) : p.newest.Nodup :=
  (pairwise_append.mp p.increasing_oldest_newest).2.1.imp ne_of_lt

theorem lt_newest (p : Position) {m : ℕ} (hm : m ∈ p.oldest) (hn : n ∈ p.newest) : m < n :=
  (pairwise_append.mp p.increasing_oldest_newest).2.2 m hm n hn

theorem mem_newest (h : n ∈ p.seen) (hold : n ∉ p.oldest) : n ∈ p.newest := by
  have hmem : n ∈ p.oldest ++ p.newest := by
    rw [oldest, newest, take_append_drop]
    exact mem_sorted.mpr h
  exact (mem_append.mp hmem).resolve_left hold

theorem length_newest (h : n ∈ p.oldest) : p.newest.length = window := by
  have hpos := length_pos_of_mem h
  rw [oldest, length_take] at hpos
  rw [newest, length_drop]
  omega

theorem length_forgetOldest_le (p : Position) : p.forgetOldest.seen.length ≤ window := by
  have hle : p.newest.length ≤ window := by
    rw [newest, length_drop]
    omega
  refine (p.forgetOldest.nodup.length_le_of_subset fun m hm => ?_).trans hle
  obtain ⟨hseen, hold⟩ := mem_filter.mp hm
  exact mem_newest hseen (of_decide_eq_true hold)

theorem add_window_le (h : n ∈ p.oldest) : n + window ≤ p.high := by
  have hincreasing := (pairwise_append.mp p.increasing_oldest_newest).2.1
  have hbound := add_length_le_of_increasing hincreasing (fun m => p.lt_newest h)
    (fun y hy => p.seen_le y (mem_sorted.mp (mem_of_mem_drop hy)))
    (p.seen_le n (mem_of_oldest h))
  rwa [length_newest h] at hbound

theorem of_isSeen_forgetOldest (h : p.forgetOldest.isSeen n = true) :
    p.isSeen n = true ∨ n + window < p.high := by
  rcases isSeen_forgetOldest_iff.mp h with h | h
  · rcases foldl_max_eq p.oldest p.floor with hfloor | hmem
    · rw [hfloor] at h
      exact .inl (isSeen_iff.mpr (.inl h))
    · rcases h.eq_or_lt with heq | hlt
      · exact .inl (isSeen_iff.mpr (.inr (mem_of_oldest (heq ▸ hmem))))
      · exact .inr ((Nat.add_lt_add_right hlt window).trans_le (add_window_le hmem))
  · exact .inl (isSeen_iff.mpr (.inr h.1))

theorem isSeen_add {m : ℕ} {h : p.isSeen n = false} :
    (p.add n h).isSeen m = true ↔ p.isSeen m = true ∨ m = n := by
  simp [isSeen_iff, add, or_assoc]

theorem record_spec (p : Position) (n : ℕ) :
    (p.record n).1 = !p.isSeen n ∧ (p.record n).2.high = max p.high n ∧
      (p.record n).2.isSeen n = true ∧
      (∀ m, p.isSeen m = true → (p.record n).2.isSeen m = true) ∧
      ∀ m, (p.record n).2.isSeen m = true →
        p.isSeen m = true ∨ m = n ∨ m + window < max p.high n := by
  unfold record
  split
  · rename_i hseen
    refine ⟨(congrArg (!·) hseen).symm, ?_, hseen, fun m hm => hm, fun m hm => .inl hm⟩
    exact (max_eq_left (le_high_of_isSeen hseen)).symm
  · rename_i hseen
    have hself : (p.add n hseen).isSeen n = true := isSeen_add.mpr (.inr rfl)
    have hmono : ∀ m, p.isSeen m = true → (p.add n hseen).isSeen m = true :=
      fun m hm => isSeen_add.mpr (.inl hm)
    split
    · refine ⟨(congrArg (!·) hseen).symm, rfl, isSeen_forgetOldest hself,
        fun m hm => isSeen_forgetOldest (hmono m hm), fun m hm => ?_⟩
      rcases of_isSeen_forgetOldest hm with h | h
      · exact (isSeen_add.mp h).imp_right .inl
      · exact .inr (.inr h)
    · refine ⟨(congrArg (!·) hseen).symm, rfl, hself, hmono, fun m hm => ?_⟩
      have hadded : (p.add n hseen).isSeen m = true := hm
      exact (isSeen_add.mp hadded).imp_right .inl

end Position

/-! ### The tracker -/

/-- The position of each tracked conversation, least recently active first. -/
structure Tracker where
  capacity : ℕ
  positions : List (String × Position)
  nodup : (positions.map Prod.fst).Nodup
  length_le : positions.length ≤ capacity

/-- The entries of the least recently active conversations are forgotten until the rest fits. -/
def evict {α : Type} (capacity : ℕ) (l : List α) : List α := l.drop (l.length - capacity)

theorem length_evict_le (capacity : ℕ) (l : List α) : (evict capacity l).length ≤ capacity := by
  rw [evict, length_drop]
  omega

theorem evict_eq_self {l : List α} (h : l.length ≤ capacity) : evict capacity l = l := by
  rw [evict, Nat.sub_eq_zero_of_le h, drop_zero]

theorem nodup_keys_append (id : String) (p : Position) (h : (positions.map Prod.fst).Nodup) :
    ((delete id positions ++ [(id, p)]).map Prod.fst).Nodup := by
  rw [map_append]
  refine (nodup_keys_delete h id).snoc fun hmem => ?_
  obtain ⟨q, hq, heq⟩ := mem_map.mp hmem
  exact (mem_delete.mp hq).2 heq

theorem nodup_keys_evict (capacity : ℕ)
    (h : (positions.map Prod.fst).Nodup) : ((evict capacity positions).map Prod.fst).Nodup :=
  h.sublist ((drop_sublist _ _).map _)

namespace Tracker

/-- `#touch`: the conversation becomes the most recently active one. -/
def put (t : Tracker) (id : String) (p : Position) : Tracker where
  capacity := t.capacity
  positions := evict t.capacity (delete id t.positions ++ [(id, p)])
  nodup := nodup_keys_evict _ (nodup_keys_append id p t.nodup)
  length_le := length_evict_le _ _

def new (capacity : ℕ) (initial : List (String × ℕ)) : Tracker :=
  initial.foldl (fun t entry => t.put entry.1 (.upTo entry.2))
    {capacity := max 1 capacity, positions := [], nodup := nodup_nil, length_le := Nat.zero_le _}

def position? (t : Tracker) (id : String) : Option Position := t.positions.lookup id

def position (t : Tracker) (id : String) : Position := (t.position? id).getD (.upTo 0)

def get (t : Tracker) (id : String) : ℕ := ((t.position? id).map Position.high).getD 0

def touch (t : Tracker) (id : String) : Tracker :=
  match t.position? id with
  | some p => t.put id p
  | none => t

def record (t : Tracker) (id : String) (n : ℕ) : Bool × Tracker :=
  if n < 1 then (true, t)
  else
    (((t.position id).record n).1, t.put id ((t.position id).record n).2)

def snapshot (t : Tracker) : List (String × ℕ) := t.positions.map fun entry => (entry.1, entry.2.high)

def ids (t : Tracker) : List String := t.positions.map Prod.fst

structure Fits (t : Tracker) (known : List String) : Prop where
  ids : t.ids ⊆ known
  length : known.length ≤ t.capacity

variable {t : Tracker} {known : List String} {id : String} {p : Position}

section
variable (h : t.Fits known) (hid : id ∈ known)
include h hid

theorem Fits.length_put (p : Position) : (delete id t.positions ++ [(id, p)]).length ≤ t.capacity := by
  have hsubset : (delete id t.positions ++ [(id, p)]).map Prod.fst ⊆ known := by
    rw [map_append]
    apply append_subset.mpr
    refine ⟨fun k hk => ?_, fun k hk => ?_⟩
    · exact h.ids (map_subset _ (delete_subset id _) hk)
    · cases mem_singleton.mp hk
      exact hid
  have hlength := (nodup_keys_append id p t.nodup).length_le_of_subset hsubset
  rw [length_map] at hlength
  exact hlength.trans h.length

theorem Fits.put (p : Position) : (t.put id p).Fits known := by
  refine ⟨fun k hk => ?_, h.length⟩
  obtain ⟨entry, hentry, rfl⟩ := mem_map.mp hk
  rcases mem_snoc.mp (mem_of_mem_drop hentry) with hentry | rfl
  · exact h.ids (mem_map_of_mem (delete_subset id _ hentry))
  · exact hid

theorem Fits.position?_put (p : Position) (k : String) :
    (t.put id p).position? k = if k = id then some p else t.position? k := by
  have hpositions : (t.put id p).positions = delete id t.positions ++ [(id, p)] :=
    evict_eq_self (h.length_put hid p)
  rw [position?, hpositions, lookup_append, lookup_delete]
  by_cases hk : k = id
  · subst hk
    simp
  · rw [if_neg hk, if_neg hk, lookup_cons, beq_eq_false_iff_ne.mpr hk]
    simp [position?]

theorem Fits.position_put (p : Position) (k : String) :
    (t.put id p).position k = if k = id then p else t.position k := by
  rw [position, h.position?_put hid]
  split
  · rfl
  · rfl

theorem Fits.touch : (t.touch id).Fits known := by
  unfold Tracker.touch
  split
  · exact h.put hid _
  · exact h

theorem Fits.position?_touch (k : String) : (t.touch id).position? k = t.position? k := by
  unfold Tracker.touch
  split
  · rename_i p hp
    rw [h.position?_put hid]
    split
    · rename_i hk
      rw [hk, hp]
    · rfl
  · rfl

theorem Fits.record (n : ℕ) : (t.record id n).2.Fits known := by
  unfold Tracker.record
  split
  · exact h
  · exact h.put hid _

theorem Fits.position?_record {n : ℕ} (hn : 1 ≤ n) (k : String) :
    (t.record id n).2.position? k =
      if k = id then some ((t.position id).record n).2 else t.position? k := by
  rw [Tracker.record, if_neg (Nat.not_lt.mpr hn)]
  exact h.position?_put hid _ k

end

theorem record_fst {n : ℕ} (hn : 1 ≤ n) : (t.record id n).1 = !(t.position id).isSeen n := by
  rw [Tracker.record, if_neg (Nat.not_lt.mpr hn)]
  exact ((t.position id).record_spec n).1

theorem get_eq (t : Tracker) (id : String) : t.get id = (t.position id).high := by
  unfold get position
  cases t.position? id with
  | none => rfl
  | some p => rfl

/-- A new tracker fits the conversations it starts from, and starts from their numbers. -/
theorem fits_new {initial : List (String × ℕ)} {lastSeq : String → ℕ}
    (hlength : known.length ≤ max 1 capacity)
    (hinitial : ∀ entry ∈ initial, entry.1 ∈ known ∧ entry.2 ≤ lastSeq entry.1) :
    (new capacity initial).Fits known ∧ ∀ k, ((new capacity initial).position k).high ≤ lastSeq k := by
  have hfold : ∀ t : Tracker, t.Fits known → (∀ k, (t.position k).high ≤ lastSeq k) →
      (initial.foldl (fun t entry => t.put entry.1 (.upTo entry.2)) t).Fits known ∧
        ∀ k, ((initial.foldl (fun t entry => t.put entry.1 (.upTo entry.2)) t).position k).high ≤
          lastSeq k := by
    induction initial with
    | nil => exact fun t hfits hhigh => ⟨hfits, hhigh⟩
    | cons entry initial ih =>
      intro t hfits hhigh
      obtain ⟨⟨hid, hle⟩, hrest⟩ := forall_mem_cons.mp hinitial
      apply ih hrest _ (hfits.put hid _)
      intro k
      rw [hfits.position_put hid]
      split
      · rename_i hk
        rw [hk]
        exact hle
      · exact hhigh k
  exact hfold _ ⟨nil_subset _, hlength⟩ fun k => Nat.zero_le _

theorem lookup_snapshot (h : t.position? id = some p) : t.snapshot.lookup id = some p.high := by
  have hmem : (id, p.high) ∈ t.snapshot := mem_map.mpr ⟨(id, p), mem_of_lookup h, rfl⟩
  apply lookup_of_mem _ hmem
  rw [snapshot, map_map]
  exact t.nodup

end Tracker

end Converger.WatermarkTracker
