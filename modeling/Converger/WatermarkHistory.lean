import Converger.WatermarkTracker
import Mathlib.Data.Finset.Card
import Mathlib.Data.PNat.Defs

/-!
# What the positions of an agent remember

For each conversation there is the number it started from with the numbers recorded since it is
tracked.
-/
namespace Converger.WatermarkHistory
open KeyedLists List WatermarkTracker Position

structure History where
  base : ℕ := 0
  recorded : Finset ℕ := ∅

def History.add (h : History) (n : ℕ) : History := {h with recorded := insert n h.recorded}

structure Remembers (h : History) (p : Position) : Prop where
  recent : ∀ m ∈ p.seen, p.floor < m ∧ m ∈ h.recorded
  seen : ∀ m ∈ h.recorded, p.isSeen m = true
  below : ∀ m ≤ p.floor, m ≤ h.base ∨ window ≤ (h.recorded.filter (m < ·)).card

variable {h : History} {p : Position} {m n : ℕ}

theorem below_add {floor : ℕ} (hbelow : ∀ m ≤ floor, m ≤ h.base ∨ window ≤ (h.recorded.filter (m < ·)).card) :
    ∀ m ≤ floor, m ≤ (h.add n).base ∨ window ≤ ((h.add n).recorded.filter (m < ·)).card := by
  intro m hm
  refine (hbelow m hm).imp_right fun hcard => hcard.trans (Finset.card_le_card ?_)
  exact Finset.filter_subset_filter _ (Finset.subset_insert _ _)

namespace Remembers

theorem upTo (n : ℕ) : Remembers {base := n} (upTo n) :=
  ⟨nofun, nofun, fun _ hm => .inl hm⟩

variable (hp : Remembers h p)
include hp

theorem again (hn : p.isSeen n = true) : Remembers (h.add n) p := by
  refine ⟨fun m hm => ?_, fun m hm => ?_, below_add hp.below⟩
  · exact ⟨(hp.recent m hm).1, Finset.mem_insert_of_mem (hp.recent m hm).2⟩
  · rcases Finset.mem_insert.mp hm with rfl | hm
    · exact hn
    · exact hp.seen m hm

theorem add (hn : p.isSeen n = false) : Remembers (h.add n) (p.add n hn) := by
  refine ⟨fun m hm => ?_, fun m hm => ?_, below_add hp.below⟩
  · rcases mem_snoc.mp hm with hm | rfl
    · exact ⟨(hp.recent m hm).1, Finset.mem_insert_of_mem (hp.recent m hm).2⟩
    · refine ⟨Nat.lt_of_not_le fun hle => ?_, Finset.mem_insert_self _ _⟩
      exact Bool.false_ne_true (hn.symm.trans (isSeen_iff.mpr (.inl hle)))
  · rcases Finset.mem_insert.mp hm with rfl | hm
    · exact isSeen_add.mpr (.inr rfl)
    · exact isSeen_add.mpr (.inl (hp.seen m hm))

theorem forgetOldest : Remembers h p.forgetOldest := by
  have hfloor : p.forgetOldest.floor = p.floor ∨ p.forgetOldest.floor ∈ p.oldest := by
    rw [floor_forgetOldest]
    exact foldl_max_eq _ _
  refine ⟨fun m hm => ?_, fun m hm => isSeen_forgetOldest (hp.seen m hm), fun m hm => ?_⟩
  · obtain ⟨hseen, hold⟩ := mem_filter.mp hm
    refine ⟨?_, (hp.recent m hseen).2⟩
    rcases hfloor with hfloor | hfloor
    · exact hfloor.trans_lt (hp.recent m hseen).1
    · exact p.lt_newest hfloor (mem_newest hseen (of_decide_eq_true hold))
  · rcases hfloor with hfloor | hfloor
    · exact hp.below m (hm.trans_eq hfloor)
    · -- the whole window is above the number that left it
      rw [← length_newest hfloor, ← toFinset_card_of_nodup (nodup_newest p)]
      refine .inr (Finset.card_le_card fun k hk => ?_)
      have hk := mem_toFinset.mp hk
      refine Finset.mem_filter.mpr ⟨?_, hm.trans_lt (p.lt_newest hfloor hk)⟩
      exact (hp.recent k (mem_sorted.mp (mem_of_mem_drop hk))).2

theorem record (hlength : p.seen.length ≤ window) (n : ℕ) :
    Remembers (h.add n) (p.record n).2 ∧ (p.record n).2.seen.length ≤ window ∧
      p.floor ≤ (p.record n).2.floor := by
  unfold Position.record
  split
  · rename_i hn
    exact ⟨hp.again hn, hlength, le_rfl⟩
  · rename_i hn
    split
    · refine ⟨(hp.add hn).forgetOldest, length_forgetOldest_le _, ?_⟩
      rw [floor_forgetOldest]
      exact le_foldl_max _ _
    · rename_i hle
      exact ⟨hp.add hn, Nat.le_of_not_lt hle, le_rfl⟩

end Remembers

/-! ### The operations -/

/-- With the histories of the conversations, and their names in the order of the last operation. -/
structure State where
  tracker : Tracker
  history : String → History := fun _ => {}
  recent : List String := []

def State.note (s : State) (tracker : Tracker) (id : String) (history : History) : State where
  tracker := tracker
  history := Function.update s.history id history
  recent := s.recent.filter (· ≠ id) ++ [id]

def start (capacity : ℕ) (initial : List (String × ℕ)) : State :=
  initial.foldl (fun s entry => s.note (s.tracker.put entry.1 (upTo entry.2)) entry.1 {base := entry.2})
    {tracker := .new capacity []}

inductive Op where
  | record (id : String) (n : ℕ+)
  | touch (id : String)

/-- The history of a conversation starts anew when it is not tracked. -/
def apply (s : State) : Op → State
  | .record id n =>
    let history := if (s.tracker.position? id).isSome then s.history id else {}
    s.note (s.tracker.record id n).2 id (history.add n)
  | .touch id =>
    if (s.tracker.position? id).isSome then s.note (s.tracker.touch id) id (s.history id) else s

structure Inv (capacity : ℕ) (s : State) : Prop where
  capacity : s.tracker.capacity = max 1 capacity
  remembers : ∀ entry ∈ s.tracker.positions,
    Remembers (s.history entry.1) entry.2 ∧ entry.2.seen.length ≤ window
  recent : s.tracker.ids <:+ s.recent

namespace Inv
variable {capacity : ℕ} {s : State} {id : String} {q : Position} (hs : Inv capacity s)
include hs

theorem put (hp : Remembers h p ∧ p.seen.length ≤ window) :
    Inv capacity (s.note (s.tracker.put id p) id h) := by
  refine ⟨hs.capacity, fun entry hentry => ?_, ?_⟩
  · rcases mem_snoc.mp (mem_of_mem_drop hentry) with hentry | rfl
    · obtain ⟨hentry, hne⟩ := mem_delete.mp hentry
      simpa [State.note, hne] using hs.remembers entry hentry
    · simpa [State.note] using hp
  · refine ((drop_suffix _ _).map _).trans ?_
    obtain ⟨before, hbefore⟩ := hs.recent.filter (· ≠ id)
    refine ⟨before, ?_⟩
    rw [State.note, ← hbefore, Tracker.ids, filter_map, map_append, ← append_assoc]
    rfl

/-- An operation that changes something puts a position whose floor has not fallen. -/
theorem effect (op : Op) : apply s op = s ∨ ∃ id p h,
    apply s op = s.note (s.tracker.put id p) id h ∧ (Remembers h p ∧ p.seen.length ≤ window) ∧
      ∀ q, s.tracker.position? id = some q → q.floor ≤ p.floor := by
  cases op with
  | record id n =>
    have hrecord : (s.tracker.record id n).2 =
        s.tracker.put id ((s.tracker.position id).record n).2 := by
      rw [Tracker.record, if_neg (Nat.not_lt.mpr n.pos)]
    refine .inr ⟨id, _, _, congrArg (s.note · id _) hrecord, ?_⟩
    rw [Tracker.position]
    cases hq : s.tracker.position? id with
    | none =>
      obtain ⟨hrem, hlength, -⟩ := (Remembers.upTo 0).record (Nat.zero_le _) n
      refine ⟨⟨hrem, hlength⟩, fun r hr => ?_⟩
      cases hr
    | some q =>
      obtain ⟨hq, hle⟩ := hs.remembers _ (mem_of_lookup hq)
      obtain ⟨hrem, hlength, hfloor⟩ := hq.record hle n
      exact ⟨⟨hrem, hlength⟩, fun r hr => Option.some_inj.mp hr ▸ hfloor⟩
  | touch id =>
    cases hq : s.tracker.position? id with
    | none => exact .inl (by simp [apply, hq])
    | some q =>
      refine .inr ⟨id, q, s.history id, ?_, hs.remembers _ (mem_of_lookup hq), fun r hr => ?_⟩
      · simp [apply, Tracker.touch, hq]
      · cases hq.symm.trans hr
        exact le_rfl

theorem step (op : Op) : Inv capacity (apply s op) := by
  obtain heq | ⟨id, p, h, heq, hp, -⟩ := hs.effect op
  · rwa [heq]
  · rw [heq]
    exact hs.put hp

theorem floor_le (op : Op) (hp : s.tracker.position? id = some p)
    (hq : (apply s op).tracker.position? id = some q) : p.floor ≤ q.floor := by
  obtain heq | ⟨k, r, h, heq, -, hfloor⟩ := hs.effect op <;> rw [heq] at hq
  · cases hp.symm.trans hq
    exact le_rfl
  · rcases mem_snoc.mp (mem_of_mem_drop (mem_of_lookup hq)) with hmem | hmem
    · cases hp.symm.trans (lookup_of_mem s.tracker.nodup (delete_subset _ _ hmem))
      exact le_rfl
    · cases hmem
      exact hfloor p hp

end Inv

theorem inv_start (capacity : ℕ) (initial : List (String × ℕ)) :
    Inv capacity (start capacity initial) := by
  refine foldlRecOn (motive := Inv capacity) initial _ ⟨rfl, nofun, nil_suffix⟩ fun s hs entry _ => ?_
  exact hs.put ⟨.upTo _, Nat.zero_le _⟩

/-- Along every run an answer is exact within the window, a floor only rises, and the conversations
that are tracked are those with the latest operations. -/
theorem record_exact (capacity : ℕ) (initial : List (String × ℕ)) (ops : List Op) (op : Op)
    (id : String) (n : ℕ+) :
    let s := ops.foldl apply (start capacity initial)
    s.tracker.ids.length ≤ max 1 capacity ∧ s.tracker.ids <:+ s.recent ∧
    (s.tracker.position? id = none → (s.tracker.record id n).1 = true) ∧
    ∀ p, s.tracker.position? id = some p →
      p.seen.length ≤ window ∧ (∀ m ∈ p.seen, p.floor < m ∧ m ≤ p.high) ∧
      (n.1 ∈ (s.history id).recorded → (s.tracker.record id n).1 = false) ∧
      ((s.tracker.record id n).1 = false → n.1 ∈ (s.history id).recorded ∨ n ≤ (s.history id).base ∨
        window ≤ ((s.history id).recorded.filter (n.1 < ·)).card) ∧
      ∀ q, (apply s op).tracker.position? id = some q → p.floor ≤ q.floor := by
  intro s
  have hs : Inv capacity s :=
    foldlRecOn (motive := Inv capacity) ops _ (inv_start capacity initial) fun s hs op _ => hs.step op
  refine ⟨?_, hs.recent, fun hnone => ?_, fun p hp => ?_⟩
  · rw [Tracker.ids, length_map, ← hs.capacity]
    exact s.tracker.length_le
  · rw [Tracker.record_fst n.pos, Tracker.position, hnone]
    simp [isSeen, upTo]
  · obtain ⟨hrem, hlength⟩ := hs.remembers _ (mem_of_lookup hp)
    have hanswer : (s.tracker.record id n).1 = !p.isSeen n := by
      rw [Tracker.record_fst n.pos, Tracker.position, hp, Option.getD_some]
    rw [hanswer, Bool.not_eq_false']
    refine ⟨hlength, fun m hm => ⟨(hrem.recent m hm).1, p.seen_le m hm⟩, hrem.seen n, fun hn => ?_,
      fun q => hs.floor_le op hp⟩
    rcases isSeen_iff.mp hn with hn | hn
    · exact .inr (hrem.below n hn)
    · exact .inl (hrem.recent n hn).2

end Converger.WatermarkHistory
