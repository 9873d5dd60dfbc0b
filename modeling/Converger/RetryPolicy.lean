import Converger.Json
import Converger.KeyedLists

/-!
# Retry policies

`Converger.Pipeline.RetryPolicy`: the policy of a channel is the global default with
the adapter's and then the channel's own settings merged over it. The settings of a
channel are the entries of a JSON object, in the order the map is walked.
-/
namespace Converger.RetryPolicy
open KeyedLists

inductive Backoff where
  | exponential | linear | fixed
  deriving DecidableEq, Repr

structure Policy where
  maxAttempts : ℕ := 5
  backoff : Backoff := .exponential
  baseMs : ℕ := 10000
  maxMs : ℕ := 3600000
  timeoutMs : ℕ := 15000
  deriving DecidableEq, Repr

def Backoff.ofText : String → Option Backoff
  | "exponential" => some .exponential
  | "linear" => some .linear
  | "fixed" => some .fixed
  | _ => none

def keys : List String := ["max_attempts", "backoff", "base_ms", "max_ms", "timeout_ms"]

def positive : Json → Option ℕ
  | .int (.ofNat n) => if 0 < n then some n else none
  | _ => none

/-- `none` where the conversion of the value to text raises. -/
def validateField (key : String) (value : Json) : Option (Except String Unit) :=
  if key = "backoff" then
    value.toText.map fun text =>
      match Backoff.ofText text with
      | some _ => .ok ()
      | none => .error "backoff must be one of: exponential, linear, fixed"
  else if key ∈ keys then
    match positive value with
    | some _ => some (.ok ())
    | none => some (.error s!"{key} must be a positive integer")
  else some (.error s!"unknown retry_policy key: {key}")

/-- `validate/1` of a map: the first setting that is refused decides. -/
def validate : List (String × Json) → Option (Except String Unit)
  | [] => some (.ok ())
  | (key, value) :: rest =>
    match validateField key value with
    | some (.ok ()) => validate rest
    | refused => refused

def Policy.set (policy : Policy) (key : String) (n : ℕ) : Policy :=
  match key with
  | "max_attempts" => {policy with maxAttempts := n}
  | "base_ms" => {policy with baseMs := n}
  | "max_ms" => {policy with maxMs := n}
  | "timeout_ms" => {policy with timeoutMs := n}
  | _ => policy

/-- One setting merged over a policy; a value of the wrong kind is left out. -/
def mergeField (policy : Policy) (key : String) (value : Json) : Option Policy :=
  if key = "backoff" then
    value.toText.map fun text =>
      match Backoff.ofText text with
      | some backoff => {policy with backoff := backoff}
      | none => policy
  else
    match positive value with
    | some n => some (policy.set key n)
    | none => some policy

def merge (policy : Policy) (overrides : List (String × Json)) : Option Policy :=
  overrides.foldlM (fun acc entry => mergeField acc entry.1 entry.2) policy

/-- `for_channel/1`, given the global default and the adapter's own settings. -/
def forChannel (default : Policy) (adapter channel : List (String × Json)) : Option Policy :=
  (merge default adapter).bind (merge · channel)

/-- Whether `attempts` attempts use up the policy. -/
def exhausted (policy : Policy) (attempts : ℕ) : Bool := policy.maxAttempts ≤ attempts

theorem isSome_mergeField_of_valid {key : String} {value : Json}
    (h : validateField key value = some (.ok ())) (policy : Policy) :
    (mergeField policy key value).isSome = true := by
  unfold validateField at h
  unfold mergeField
  by_cases hkey : key = "backoff"
  · cases htext : value.toText with
    | none => simp [hkey, htext] at h
    | some text => simp [hkey]
  · cases positive value <;> simp [hkey]

theorem merge_of_valid {channel : List (String × Json)} (h : validate channel = some (.ok ()))
    (policy : Policy) : ∃ merged, merge policy channel = some merged := by
  induction channel generalizing policy with
  | nil => exact ⟨policy, rfl⟩
  | cons entry rest ih =>
    obtain ⟨key, value⟩ := entry
    simp only [validate] at h
    split at h
    · rename_i hfield
      obtain ⟨acc, hacc⟩ := Option.isSome_iff_exists.mp (isSome_mergeField_of_valid hfield policy)
      obtain ⟨merged, hmerged⟩ := ih h acc
      exact ⟨merged, by simpa [merge, List.foldlM_cons, hacc] using hmerged⟩
    · rename_i hfield
      exact absurd h hfield

/-! ### What a channel gets -/

def Backoff.text : Backoff → String
  | .exponential => "exponential"
  | .linear => "linear"
  | .fixed => "fixed"

def Policy.get (policy : Policy) : String → Json
  | "max_attempts" => .int policy.maxAttempts
  | "base_ms" => .int policy.baseMs
  | "max_ms" => .int policy.maxMs
  | "timeout_ms" => .int policy.timeoutMs
  | _ => .str policy.backoff.text

/-- What a setting makes of its field; `none` where it is left out. -/
def setting (key : String) (value : Json) : Option Json :=
  if key = "backoff" then (value.toText.bind Backoff.ofText).map fun backoff => .str backoff.text
  else (positive value).map fun n : ℕ => .int n

def backoffMs (policy : Policy) (attempt : ℕ) : ℕ :=
  let delay := match policy.backoff with
    | .exponential => policy.baseMs * Nat.pow 3 attempt
    | .linear => policy.baseMs * attempt
    | .fixed => policy.baseMs
  min delay policy.maxMs

section Merge
variable {policy merged : Policy} {key k : String} {value : Json} {overrides : List (String × Json)}

theorem get_set (hk : k ∈ keys) (hkey : key ≠ "backoff") (n : ℕ) :
    (policy.set key n).get k = if k = key then .int n else policy.get k := by
  simp only [keys, List.mem_cons, List.not_mem_nil, or_false] at hk
  unfold Policy.set
  rcases hk with rfl | rfl | rfl | rfl | rfl <;> split <;> simp_all [Policy.get, eq_comm]

theorem get_mergeField (hk : k ∈ keys) (h : mergeField policy key value = some merged) :
    merged.get k = if k = key then (setting key value).getD (policy.get k) else policy.get k := by
  unfold mergeField at h
  by_cases hkey : key = "backoff"
  · simp only [hkey, if_true, Option.map_eq_some_iff] at h
    obtain ⟨text, htext, rfl⟩ := h
    simp only [keys, List.mem_cons, List.not_mem_nil, or_false] at hk
    cases hbackoff : Backoff.ofText text <;>
      rcases hk with rfl | rfl | rfl | rfl | rfl <;>
      simp [Policy.get, setting, hkey, htext, hbackoff]
  · cases hpositive : positive value with
    | none =>
      simp only [hkey, if_false, hpositive, Option.some.injEq] at h
      simp [setting, hkey, hpositive, h]
    | some n =>
      simp only [hkey, if_false, hpositive, Option.some.injEq] at h
      rw [← h, get_set hk hkey]
      simp [setting, hkey, hpositive]

/-- The settings of a map are merged field by field. -/
theorem get_merge (hk : k ∈ keys) (hkeys : (overrides.map Prod.fst).Nodup)
    (h : merge policy overrides = some merged) :
    merged.get k = ((overrides.lookup k).bind (setting k)).getD (policy.get k) := by
  induction overrides generalizing policy with
  | nil =>
    cases h
    rfl
  | cons entry rest ih =>
    obtain ⟨key, value⟩ := entry
    obtain ⟨acc, hacc, hrest⟩ := Option.bind_eq_some_iff.mp h
    obtain ⟨hnew, hkeys⟩ := List.nodup_cons.mp hkeys
    rw [ih hkeys hrest, get_mergeField hk hacc]
    by_cases heq : k = key
    · subst heq
      have hnone : rest.lookup k = none := by
        rw [List.lookup_eq_none_iff]
        intro p hp
        have hne : p.1 ≠ k := fun heq => hnew (List.mem_map.mpr ⟨p, hp, heq⟩)
        simpa using Ne.symm hne
      simp [hnone]
    · have hne : (k == key) = false := beq_eq_false_iff_ne.mpr heq
      simp [heq, List.lookup_cons, hne]

/-- Where the walk comes to the backoff, its value has a text. -/
def Answered (p : List (String × Json)) : Prop :=
  ∀ before value after, p = before ++ ("backoff", value) :: after →
    value.toText.isSome ∨ ∃ entry ∈ before, entry.1 ∉ keys ∨ positive entry.2 = none

theorem answered_of_not_mem {p : List (String × Json)} (h : "backoff" ∉ p.map Prod.fst) :
    Answered p := by
  rintro before value after rfl
  exact absurd (by simp) h

theorem validateField_number (hkey : key ≠ "backoff") :
    validateField key value = some (.ok ()) ∧ ¬ (key ∉ keys ∨ positive value = none) ∨
      (∃ message, validateField key value = some (.error message)) ∧
        (key ∉ keys ∨ positive value = none) := by
  unfold validateField
  rw [if_neg hkey]
  split_ifs with hmem
  · cases hpositive : positive value with
    | none => exact .inr ⟨⟨_, rfl⟩, .inr rfl⟩
    | some n => exact .inl ⟨rfl, by simp [hmem]⟩
  · exact .inr ⟨⟨_, rfl⟩, .inl hmem⟩

/-- An entry that is let through is passed over. -/
theorem answered_cons (hkey : key ≠ "backoff") (h : ¬ (key ∉ keys ∨ positive value = none)) :
    Answered ((key, value) :: overrides) ↔ Answered overrides := by
  constructor
  · rintro hall before v after rfl
    refine (hall ((key, value) :: before) v after rfl).imp_right ?_
    rintro ⟨entry, hentry, hrefused⟩
    rcases List.mem_cons.mp hentry with rfl | hentry
    · exact absurd hrefused h
    · exact ⟨entry, hentry, hrefused⟩
  · rintro hall (_ | ⟨entry, before⟩) v after heq
    · simp only [List.nil_append, List.cons.injEq, Prod.mk.injEq] at heq
      exact absurd heq.1.1 hkey
    · rw [List.cons_append, List.cons.injEq] at heq
      refine (hall before v after heq.2).imp_right ?_
      rintro ⟨entry', hentry, hrefused⟩
      exact ⟨entry', List.mem_cons_of_mem _ hentry, hrefused⟩

theorem validate_isSome_iff (hkeys : (overrides.map Prod.fst).Nodup) :
    (validate overrides).isSome ↔ Answered overrides := by
  induction overrides with
  | nil => exact iff_of_true rfl (answered_of_not_mem (by simp))
  | cons entry rest ih =>
    obtain ⟨key, value⟩ := entry
    obtain ⟨hnew, hrestKeys⟩ := List.nodup_cons.mp hkeys
    by_cases hkey : key = "backoff"
    · subst hkey
      have hrest := (ih hrestKeys).mpr (answered_of_not_mem hnew)
      cases htext : value.toText with
      | none =>
        refine iff_of_false (by simp [validate, validateField, htext]) fun h => ?_
        simpa [htext] using h [] value rest rfl
      | some text =>
        refine iff_of_true ?_ ?_
        · cases hbackoff : Backoff.ofText text <;>
            simp [validate, validateField, htext, hbackoff, hrest]
        · rintro (_ | ⟨first, before⟩) v after heq
          · simp only [List.nil_append, List.cons.injEq, Prod.mk.injEq, true_and] at heq
            exact .inl (heq.1 ▸ htext ▸ rfl)
          · rw [List.cons_append, List.cons.injEq] at heq
            exact absurd (by simp [heq.2]) hnew
    · rcases @validateField_number key value hkey with ⟨hfield, hpasses⟩ | ⟨⟨message, hfield⟩, hrefused⟩
      · rw [validate, hfield, answered_cons hkey hpasses]
        exact ih hrestKeys
      · refine iff_of_true (by rw [validate, hfield]; rfl) ?_
        rintro (_ | ⟨first, before⟩) v after heq
        · simp only [List.nil_append, List.cons.injEq, Prod.mk.injEq] at heq
          exact absurd heq.1.1 hkey
        · rw [List.cons_append, List.cons.injEq] at heq
          exact .inr ⟨first, List.mem_cons_self, heq.1 ▸ hrefused⟩

theorem text_of_ofText {text : String} {backoff : Backoff} (h : Backoff.ofText text = some backoff) :
    backoff.text = text := by
  unfold Backoff.ofText at h
  split at h <;> cases h <;> rfl

theorem int_of_positive {n : ℕ} (h : positive value = some n) : value = .int n := by
  unfold positive at h
  split at h
  · obtain ⟨-, rfl⟩ := Option.ite_some_none_eq_some.mp h
    rfl
  · cases h

theorem setting_of_validateField (h : validateField k value = some (.ok ())) :
    ∃ v, setting k value = some v ∧ v.toText = value.toText ∧ (k ≠ "backoff" → v = value) := by
  unfold validateField at h
  split_ifs at h with hkey
  · obtain ⟨text, htext, h⟩ := Option.map_eq_some_iff.mp h
    cases hbackoff : Backoff.ofText text with
    | none => simp [hbackoff] at h
    | some backoff =>
      refine ⟨.str backoff.text, by simp [setting, hkey, htext, hbackoff], ?_, fun hne => absurd hkey hne⟩
      rw [htext, ← text_of_ofText hbackoff]
      rfl
  · cases hpositive : positive value with
    | none => simp [hpositive] at h
    | some n =>
      have hvalue := int_of_positive hpositive
      exact ⟨.int n, by simp [setting, hkey, hpositive], by rw [hvalue], fun _ => hvalue.symm⟩
  · cases h

theorem setting_of_valid (hvalid : validate overrides = some (.ok ())) (h : (k, value) ∈ overrides) :
    ∃ v, setting k value = some v ∧ v.toText = value.toText ∧ (k ≠ "backoff" → v = value) := by
  induction overrides with
  | nil => cases h
  | cons entry rest ih =>
    unfold validate at hvalid
    split at hvalid
    · rcases List.mem_cons.mp h with rfl | h
      · exact setting_of_validateField ‹_›
      · exact ih hvalid h
    · exact absurd hvalid ‹_›

end Merge

theorem backoffMs_mono (policy : Policy) {a b : ℕ} (h : a ≤ b) : backoffMs policy a ≤ backoffMs policy b := by
  have hdelay : policy.baseMs * Nat.pow 3 a ≤ policy.baseMs * Nat.pow 3 b :=
    Nat.mul_le_mul_left _ (Nat.pow_le_pow_right (by decide) h)
  have hlinear := Nat.mul_le_mul_left policy.baseMs h
  unfold backoffMs
  cases policy.backoff <;> simp only <;> omega

/-- A policy is refused or accepted exactly if the backoff has a text or an entry before it is
refused. An accepted one gives its fields to the channel, the others are the adapter's or the
default's, and the delays grow up to the limit. -/
theorem channel_policy_iff (default base : Policy) (adapter p : List (String × Json))
    (hadapter : (adapter.map Prod.fst).Nodup) (hbase : merge default adapter = some base)
    (hkeys : (p.map Prod.fst).Nodup) :
    (∃ answer, validate p = some answer ∧ (answer = .ok () →
      ∃ policy, forChannel default adapter p = some policy ∧
        (∀ k ∈ keys,
          (∀ value, p.lookup k = some value →
            (policy.get k).toText = value.toText ∧ (k ≠ "backoff" → policy.get k = value)) ∧
          (p.lookup k = none →
            policy.get k = ((adapter.lookup k).bind (setting k)).getD (default.get k))) ∧
        ∀ a b, a ≤ b →
          backoffMs policy a ≤ backoffMs policy b ∧ backoffMs policy b ≤ policy.maxMs)) ↔
      Answered p := by
  rw [← validate_isSome_iff hkeys, Option.isSome_iff_exists]
  refine exists_congr fun answer => and_iff_left_iff_imp.mpr fun hanswer hok => ?_
  subst hok
  obtain ⟨policy, hpolicy⟩ := merge_of_valid hanswer base
  have hchannel : forChannel default adapter p = some policy := by
    rw [forChannel, hbase]
    exact hpolicy
  refine ⟨policy, hchannel, fun k hk => ⟨fun value hvalue => ?_, fun hnone => ?_⟩, fun a b hab => ?_⟩
  · obtain ⟨v, hv, hgiven⟩ := setting_of_valid hanswer (mem_of_lookup hvalue)
    have hget := get_merge hk hkeys hpolicy
    rw [hvalue, Option.bind_some, hv] at hget
    exact hget ▸ hgiven
  · rw [get_merge hk hkeys hpolicy, hnone, ← get_merge hk hadapter hbase]
    rfl
  · exact ⟨backoffMs_mono policy hab, Nat.min_le_right _ _⟩

theorem channel_policy_iff_fixed : ∃ policy,
    forChannel {} [("timeout_ms", .int 10000)] [("max_ms", .int 5), ("backoff", .str "fixed")] =
      some policy ∧ backoffMs policy 1 ≤ backoffMs policy 7 := by
  have hanswered : Answered [("max_ms", .int 5), ("backoff", .str "fixed")] :=
    (validate_isSome_iff (by decide)).mp rfl
  obtain ⟨answer, hanswer, hok⟩ := (channel_policy_iff {} { timeoutMs := 10000 }
    [("timeout_ms", .int 10000)] [("max_ms", .int 5), ("backoff", .str "fixed")] (by decide) rfl
    (by decide)).mpr hanswered
  obtain ⟨policy, hpolicy, -, hmono⟩ := hok (Option.some.inj (hanswer.symm.trans rfl))
  exact ⟨policy, hpolicy, (hmono 1 7 (by decide)).1⟩

/-- An object has no text. -/
theorem object_backoff_raises : validate [("backoff", .obj [])] = none := rfl

end Converger.RetryPolicy
