import Converger.GrowingLists

/-!
# Lists of keyed values

A map as the list of its entries: deleting a key, what that takes out, and what `List.lookup` finds
where no key occurs twice.
-/
namespace Converger.KeyedLists
open List

variable {κ α β : Type} [DecidableEq κ] {key : κ} {map : List (κ × α)} {a : α} {f : α → α}

def delete (key : κ) (map : List (κ × α)) : List (κ × α) := map.filter (·.1 ≠ key)

/-- The entries that `delete` takes out. -/
def taken (key : κ) (map : List (κ × α)) : List (κ × α) := map.filter (·.1 = key)

variable {p : κ × α}

theorem mem_delete : p ∈ delete key map ↔ p ∈ map ∧ p.1 ≠ key := by
  simp [delete]

theorem delete_subset (key : κ) (map : List (κ × α)) : delete key map ⊆ map :=
  fun _ hp => (mem_delete.mp hp).1

theorem mem_of_lookup (h : map.lookup key = some a) : (key, a) ∈ map := by
  obtain ⟨before, after, rfl, -⟩ := lookup_eq_some_iff.mp h
  exact mem_append_right before mem_cons_self

theorem key_ne_of_lookup (h : map.lookup key = none) (hp : p ∈ map) : p.1 ≠ key :=
  (bne_iff_ne.mp (lookup_eq_none_iff.mp h p hp)).symm

theorem taken_of_lookup (hkeys : (map.map Prod.fst).Nodup) (h : map.lookup key = some a) :
    taken key map = [(key, a)] := by
  obtain ⟨before, after, rfl, hbefore⟩ := lookup_eq_some_iff.mp h
  rw [map_append, map_cons] at hkeys
  have hnot : key ∉ after.map Prod.fst := (nodup_cons.mp hkeys.of_append_right).1
  have hafter : after.filter (·.1 = key) = [] :=
    filter_eq_nil_iff.mpr fun p hp hkey => hnot (of_decide_eq_true hkey ▸ mem_map_of_mem hp)
  have hfront : before.filter (·.1 = key) = [] :=
    filter_eq_nil_iff.mpr fun p hp hkey =>
      bne_iff_ne.mp (hbefore p hp) (of_decide_eq_true hkey).symm
  rw [taken, filter_append, hfront, filter_cons, if_pos (decide_eq_true rfl), hafter, nil_append]

theorem count_flatMap_delete_add_taken [DecidableEq β] (f : κ × α → List β) (x : β) (key : κ)
    (map : List (κ × α)) :
    ((delete key map).flatMap f).count x + ((taken key map).flatMap f).count x =
      (map.flatMap f).count x := by
  induction map with
  | nil => rfl
  | cons p map ih =>
    by_cases hp : p.1 = key
    · simp only [delete, taken, ne_eq, decide_not] at ih ⊢
      simp only [hp, decide_true, Bool.not_true, Bool.false_eq_true, not_false_eq_true,
        filter_cons_of_neg, filter_cons_of_pos, flatMap_cons, count_append]
      omega
    · simp only [delete, taken, ne_eq, decide_not] at ih ⊢
      simp only [hp, decide_false, Bool.not_false, Bool.false_eq_true, not_false_eq_true,
        filter_cons_of_neg, filter_cons_of_pos, flatMap_cons, count_append]
      omega

theorem count_delete_add_taken [DecidableEq β] (f : κ × α → β) (x : β) (key : κ)
    (map : List (κ × α)) :
    ((delete key map).map f).count x + ((taken key map).map f).count x = (map.map f).count x := by
  simp only [map_eq_flatMap]
  exact count_flatMap_delete_add_taken _ x key map

theorem nodup_keys_delete (h : (map.map Prod.fst).Nodup) (key : κ) :
    ((delete key map).map Prod.fst).Nodup :=
  h.sublist (filter_sublist.map _)

theorem lookup_filter (keep : κ → Bool) (map : List (κ × α)) (other : κ) :
    (map.filter (keep ·.1)).lookup other = if keep other then map.lookup other else none := by
  induction map with
  | nil => exact (ite_self none).symm
  | cons p map ih =>
    rw [filter_cons, lookup_cons]
    by_cases hother : other = p.1
    · subst hother
      by_cases hp : keep p.1
      · rw [if_pos hp, if_pos hp, lookup_cons, beq_self_eq_true]
      · rw [if_neg hp, if_neg hp, ih, if_neg hp]
    · rw [beq_eq_false_iff_ne.mpr hother]
      by_cases hp : keep p.1
      · rw [if_pos hp, lookup_cons, beq_eq_false_iff_ne.mpr hother, ih]
      · rw [if_neg hp, ih]

theorem lookup_delete (key : κ) (map : List (κ × α)) (other : κ) :
    (delete key map).lookup other = if other = key then none else map.lookup other := by
  rw [delete, lookup_filter (· ≠ key)]
  by_cases h : other = key <;> simp [h]

/-! ### Changing the value of a key -/

/-- The entries of the key changed by `f`. -/
def modify (key : κ) (f : α → α) (map : List (κ × α)) : List (κ × α) :=
  map.map fun p => if p.1 = key then (p.1, f p.2) else p

@[simp] theorem keys_modify (key : κ) (f : α → α) (map : List (κ × α)) :
    (modify key f map).map Prod.fst = map.map Prod.fst := by
  rw [modify, map_map]
  apply map_congr_left
  intro p _
  by_cases hp : p.1 = key <;> simp [hp]

theorem mem_modify (h : p ∈ modify key f map) : p ∈ map ∧ p.1 ≠ key ∨ ∃ a, (key, a) ∈ map ∧ p = (key, f a) := by
  obtain ⟨q, hq, rfl⟩ := mem_map.mp h
  by_cases hkey : q.1 = key
  · rw [if_pos hkey]
    exact .inr ⟨q.2, hkey ▸ hq, by rw [hkey]⟩
  · rw [if_neg hkey]
    exact .inl ⟨hq, hkey⟩

theorem modify_of_not_mem (h : key ∉ map.map Prod.fst) : modify key f map = map := by
  rw [modify]
  conv_rhs => rw [← map_id map]
  apply map_congr_left
  intro p hp
  have hne : p.1 ≠ key := fun heq => h (heq ▸ mem_map_of_mem hp)
  exact if_neg hne

theorem lookup_modify (key : κ) (f : α → α) (map : List (κ × α)) (other : κ) :
    (modify key f map).lookup other =
      if other = key then (map.lookup other).map f else map.lookup other := by
  induction map with
  | nil => exact (ite_self none).symm
  | cons p map ih =>
    rw [lookup_cons, modify, map_cons]
    change (_ :: modify key f map).lookup other = _
    by_cases hother : other = p.1
    · subst hother
      by_cases hp : p.1 = key
      · rw [if_pos hp, if_pos hp, lookup_cons, beq_self_eq_true, Option.map_some]
      · rw [if_neg hp, if_neg hp, lookup_cons, beq_self_eq_true]
    · rw [beq_eq_false_iff_ne.mpr hother]
      by_cases hp : p.1 = key
      · rw [if_pos hp, lookup_cons, beq_eq_false_iff_ne.mpr hother, ih]
      · rw [if_neg hp, lookup_cons, beq_eq_false_iff_ne.mpr hother, ih]

theorem lookup_modify_self (h : map.lookup key = some a) :
    (modify key f map).lookup key = some (f a) := by
  rw [lookup_modify, if_pos rfl, h, Option.map_some]

theorem lookup_modify_ne {other : κ} (h : other ≠ key) :
    (modify key f map).lookup other = map.lookup other := by
  rw [lookup_modify, if_neg h]

theorem lookup_of_mem (hkeys : (map.map Prod.fst).Nodup) (h : (key, a) ∈ map) :
    map.lookup key = some a := by
  cases hlookup : map.lookup key with
  | none => exact absurd rfl (key_ne_of_lookup hlookup h)
  | some b =>
    have hmem : (key, a) ∈ taken key map := mem_filter.mpr ⟨h, decide_eq_true rfl⟩
    rw [taken_of_lookup hkeys hlookup] at hmem
    cases mem_singleton.mp hmem
    rfl

theorem count_flatMap_modify [DecidableEq β] (g : κ × α → List β) (x : β)
    (hkeys : (map.map Prod.fst).Nodup) (h : map.lookup key = some a) :
    ((modify key f map).flatMap g).count x + (g (key, a)).count x =
      (map.flatMap g).count x + (g (key, f a)).count x := by
  induction map with
  | nil => cases h
  | cons p map ih =>
    obtain ⟨hnot, hkeys⟩ := nodup_cons.mp hkeys
    by_cases hp : p.1 = key
    · rw [lookup_cons, beq_iff_eq.mpr hp.symm] at h
      cases h
      have hrest : modify key f map = map := modify_of_not_mem (hp ▸ hnot)
      have hhead : modify key f (p :: map) = (key, f p.2) :: map := by
        rw [modify, map_cons, if_pos hp, hp]
        exact congrArg _ hrest
      have hentry : p = (key, p.2) := by rw [← hp]
      rw [hhead, flatMap_cons, flatMap_cons, count_append, count_append, ← hentry]
      omega
    · rw [lookup_cons, beq_eq_false_iff_ne.mpr (Ne.symm hp)] at h
      have hhead : modify key f (p :: map) = p :: modify key f map := by
        rw [modify, map_cons, if_neg hp]
        rfl
      have hrest := ih hkeys h
      rw [hhead, flatMap_cons, flatMap_cons, count_append, count_append]
      omega

/-! ### Setting and merging -/

def put (key : κ) (a : α) (map : List (κ × α)) : List (κ × α) := (key, a) :: delete key map

def putNew (key : κ) (a : α) (map : List (κ × α)) : List (κ × α) :=
  if (map.lookup key).isSome then map else put key a map

def drop (keys : List κ) (map : List (κ × α)) : List (κ × α) := map.filter (·.1 ∉ keys)

def merge (map other : List (κ × α)) : List (κ × α) := other ++ drop (other.map Prod.fst) map

theorem lookup_put (key : κ) (a : α) (map : List (κ × α)) (k : κ) :
    (put key a map).lookup k = if k = key then some a else map.lookup k := by
  rw [put, lookup_cons]
  by_cases h : k = key
  · rw [beq_iff_eq.mpr h, if_pos h]
  · rw [beq_eq_false_iff_ne.mpr h, if_neg h, lookup_delete, if_neg h]

theorem lookup_drop (keys : List κ) (map : List (κ × α)) (k : κ) :
    (drop keys map).lookup k = if k ∈ keys then none else map.lookup k := by
  rw [drop, lookup_filter (· ∉ keys)]
  by_cases h : k ∈ keys <;> simp [h]

theorem lookup_merge (map other : List (κ × α)) (k : κ) :
    (merge map other).lookup k = (other.lookup k).or (map.lookup k) := by
  rw [merge, lookup_append, lookup_drop]
  cases hk : other.lookup k with
  | some a => rfl
  | none =>
    have hnot : k ∉ other.map Prod.fst := by
      intro hmem
      obtain ⟨p, hp, hkey⟩ := mem_map.mp hmem
      exact key_ne_of_lookup hk hp hkey
    rw [if_neg hnot]

theorem lookup_putNew (key : κ) (a : α) (map : List (κ × α)) (k : κ) :
    (putNew key a map).lookup k = if k = key then some ((map.lookup k).getD a) else map.lookup k := by
  unfold putNew
  by_cases h : k = key
  · rw [if_pos h, h]
    cases hlookup : map.lookup key with
    | some b => exact hlookup
    | none => exact (lookup_put key a map key).trans (if_pos rfl)
  · rw [if_neg h]
    split
    · rfl
    · rw [lookup_put, if_neg h]

theorem lookup_filter_key (keys : List κ) (map : List (κ × α)) {k : κ} (hk : k ∈ keys) :
    (map.filter (·.1 ∈ keys)).lookup k = map.lookup k := by
  rw [lookup_filter (· ∈ keys), if_pos (decide_eq_true hk)]

theorem countP_set_add {f : α → Bool} {l : List α} {i : ℕ} (h : l[i]? = some a) (b : α) :
    (l.set i b).countP f + (if f a then 1 else 0) = l.countP f + (if f b then 1 else 0) := by
  obtain ⟨hi, rfl⟩ := List.getElem?_eq_some_iff.mp h
  have hpos : (if f l[i] then 1 else 0) ≤ l.countP f := by
    split
    · rename_i hf
      exact countP_pos_iff.mpr ⟨_, getElem_mem hi, hf⟩
    · exact Nat.zero_le _
  rw [countP_set hi]
  omega

end Converger.KeyedLists
