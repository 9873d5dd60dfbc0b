import Converger.GuardedRuns

/-!
# The token manager of the TypeScript client

`TokenManager`, called again only after a call has returned.
-/
namespace Converger.TokenManager
open Function GuardedRuns Option

variable {ν τ ε : Type}

/-- `normalise`, and what `fetch` makes of an error that it catches. -/
structure Config (ν τ ε : Type) where
  normalise : ν → ℕ → Except ε τ
  failed : ε → ε

/-- `asked` counts the calls of the provider, and `results` has those that are settled; `pending`
is the number of the call whose promise is kept. -/
structure State (τ ε : Type) where
  current : Option τ := none
  pending : Option ℕ := none
  asked : ℕ := 0
  results : ℕ → Option (Except ε τ) := fun _ => none

def State.Outstanding (s : State τ ε) (i : ℕ) : Prop := i < s.asked ∧ s.results i = none

instance (s : State τ ε) (i : ℕ) : Decidable (s.Outstanding i) := inferInstanceAs (Decidable (_ ∧ _))

/-- Where the provider throws, `finally` is over before the promise, rejected by then, is kept. -/
def ask (cfg : Config ν τ ε) (s : State τ ε) (thrown : Option ε) : State τ ε :=
  {s with
    pending := some s.asked
    asked := s.asked + 1
    results := update s.results s.asked (thrown.map fun error => .error (cfg.failed error))}

def fetch (cfg : Config ν τ ε) (s : State τ ε) (thrown : Option ε) : State τ ε × ℕ :=
  match s.pending with
  | some i => (s, i)
  | none => (ask cfg s thrown, s.asked)

/-- `due` is `#needsRefresh` of the current token. -/
def get (cfg : Config ν τ ε) (s : State τ ε) (due : Bool) (thrown : Option ε) :
    State τ ε × (τ ⊕ ℕ) :=
  match s.current, due with
  | some token, false => (s, .inl token)
  | _, _ => ((fetch cfg s thrown).1, .inr (fetch cfg s thrown).2)

def result (cfg : Config ν τ ε) (outcome : Except ε ν) (now : ℕ) : Except ε τ :=
  (outcome.bind (cfg.normalise · now)).mapError cfg.failed

def settle (cfg : Config ν τ ε) (s : State τ ε) (i : ℕ) (outcome : Except ε ν) (now : ℕ) :
    State τ ε :=
  {s with
    current := (result cfg outcome now).toOption.or s.current
    pending := none
    results := update s.results i (some (result cfg outcome now))}

inductive Event (ν ε : Type) where
  | fetch (thrown : Option ε)
  | get (due : Bool) (thrown : Option ε)
  | settle (i : ℕ) (outcome : Except ε ν) (now : ℕ)

def step (cfg : Config ν τ ε) (s : State τ ε) : Event ν ε → Option (State τ ε)
  | .fetch thrown => some (fetch cfg s thrown).1
  | .get due thrown => some (get cfg s due thrown).1
  | .settle i outcome now => if s.Outstanding i then some (settle cfg s i outcome now) else none

def Event.thrown : Event ν ε → Option ε
  | .fetch thrown | .get _ thrown => thrown
  | .settle _ _ _ => none

variable {cfg : Config ν τ ε} {s t : State τ ε} {e : Event ν ε} {P : State τ ε → Prop}

theorem of_fetch (hs : P s) {thrown : Option ε} (hask : s.pending = none → P (ask cfg s thrown)) :
    P (fetch cfg s thrown).1 := by
  unfold fetch
  split
  · exact hs
  · exact hask ‹_›

theorem of_step (h : step cfg s e = some t) (hs : P s) (hask : s.pending = none → P (ask cfg s e.thrown))
    (hsettle : ∀ i outcome now, s.Outstanding i → P (settle cfg s i outcome now)) : P t := by
  cases e with
  | fetch thrown =>
    cases h
    exact of_fetch hs hask
  | get due thrown =>
    cases h
    unfold get
    split
    · exact hs
    · exact of_fetch hs hask
  | settle i outcome now =>
    obtain ⟨hout, rfl⟩ := ite_some_none_eq_some.mp h
    exact hsettle i outcome now hout

/-- The promise of a call that is outstanding is kept. -/
def Kept (s : State τ ε) : Prop := ∀ i, s.Outstanding i → s.pending = some i

theorem Kept.step (hs : Kept s) (h : step cfg s e = some t) : Kept t := by
  refine of_step h hs (fun hpending i hi => ?_) (fun i outcome now hi j hj => ?_)
  · by_cases hnew : i = s.asked
    · exact congrArg some hnew.symm
    · have hold : s.Outstanding i :=
        ⟨Nat.lt_of_le_of_ne (Nat.le_of_lt_succ hi.1) hnew, (update_of_ne hnew ..).symm.trans hi.2⟩
      cases hpending.symm.trans (hs i hold)
  · have hij : j ≠ i := by
      rintro rfl
      simp [State.Outstanding, settle] at hj
    have hold : s.Outstanding j := by simpa [State.Outstanding, settle, hij] using hj
    exact absurd (some.inj ((hs j hold).symm.trans (hs i hi))) hij

theorem outstanding_of_step (hs : ∀ i ∈ s.pending, s.Outstanding i) (he : e.thrown = none)
    (h : step cfg s e = some t) : ∀ i ∈ t.pending, t.Outstanding i := by
  refine of_step h (P := fun t => ∀ i ∈ t.pending, t.Outstanding i) hs (fun _ => ?_) (fun _ _ _ _ => nofun)
  rintro i ⟨⟩
  simp [State.Outstanding, ask, he]

theorem settled_of_step {i : ℕ} {r : Except ε τ} (hs : i < s.asked ∧ s.results i = some r)
    (h : step cfg s e = some t) : i < t.asked ∧ t.results i = some r := by
  refine of_step h (P := fun t => i < t.asked ∧ t.results i = some r) hs (fun _ => ?_)
    (fun j outcome now hj => ⟨hs.1, ?_⟩)
  · exact ⟨Nat.lt_succ_of_lt hs.1, (update_of_ne (Nat.ne_of_lt hs.1) ..).trans hs.2⟩
  · have hij : i ≠ j := by
      rintro rfl
      cases hj.2.symm.trans hs.2
    exact (update_of_ne hij ..).trans hs.2

/-- One call of the provider is outstanding at a time, and the calls made in that time get its
promise, or a current token that is not due; where none throws, a `fetch` after it asks again. -/
theorem provider_asked {es : List (Event ν ε)} {current : Option τ}
    (h : run (step cfg) {current} es = some s) :
    (∀ i j, s.Outstanding i → s.Outstanding j → i = j) ∧
    (∀ i, s.Outstanding i → (∀ thrown, fetch cfg s thrown = (s, i)) ∧
      (∀ due thrown, get cfg s due thrown = (s, .inr i) ∨
        due = false ∧ ∃ token, s.current = some token ∧ get cfg s due thrown = (s, .inl token)) ∧
      ∀ outcome now fs t, run (step cfg) s (.settle i outcome now :: fs) = some t →
        t.results i = some (result cfg outcome now)) ∧
    ((∀ e ∈ es, e.thrown = none) → (∀ i, ¬ s.Outstanding i) →
      ∀ thrown, fetch cfg s thrown = (ask cfg s thrown, s.asked)) := by
  have hkept : Kept s := run_invariant Kept.step (fun i hi => absurd hi.1 (Nat.not_lt_zero i)) h
  refine ⟨fun i j hi hj => ?_, fun i hi => ⟨fun thrown => ?_, fun due thrown => ?_,
    fun outcome now fs t ht => ?_⟩, fun hthrown hnone thrown => ?_⟩
  · exact some.inj ((hkept i hi).symm.trans (hkept j hj))
  · rw [fetch, hkept i hi]
  · unfold get
    split
    · exact .inr ⟨rfl, _, ‹_›, rfl⟩
    · rw [fetch, hkept i hi]
      exact .inl rfl
  · obtain ⟨m, hm, ht⟩ := run_cons_eq_some.mp ht
    obtain ⟨-, rfl⟩ := ite_some_none_eq_some.mp hm
    have hsettled : i < (settle cfg s i outcome now).asked ∧
        (settle cfg s i outcome now).results i = some _ := ⟨hi.1, update_self ..⟩
    exact (run_invariant settled_of_step hsettled ht).2
  · have hasked : ∀ i ∈ s.pending, s.Outstanding i :=
      run_invariant_forall outstanding_of_step (by simp) hthrown h
    cases hpending : s.pending with
    | some i => exact absurd (hasked i hpending) (hnone i)
    | none => rw [fetch, hpending]

def numbered : Config ℕ ℕ String where
  normalise value _ := if value = 0 then .error "invalid_token" else .ok value
  failed error := if error = "invalid_token" then error else "token_provider_failed"

theorem provider_asked_refused : ∃ s,
    run (step numbered) {} [.fetch none, .get true none, .settle 0 (.ok 0) 5] = some s ∧
    (∀ i, ¬ s.Outstanding i) ∧ ∀ thrown, fetch numbered s thrown = (ask numbered s thrown, s.asked) := by
  obtain ⟨s, hs, hnone⟩ : ∃ s,
      run (step numbered) {} [.fetch none, .get true none, .settle 0 (.ok 0) 5] = some s ∧
      ∀ i < s.asked, s.results i ≠ none := by decide +kernel
  have hnone : ∀ i, ¬ s.Outstanding i := fun i hi => hnone i hi.1 hi.2
  exact ⟨s, hs, hnone, (provider_asked hs).2.2 (by simp [Event.thrown]) hnone⟩

/-- The provider throws once; the later calls get the rejected promise, and it is not asked. -/
theorem thrown_once_fails : ∃ s,
    run (step numbered) {} [.fetch (some "offline"), .fetch none, .get true none] = some s ∧
    s.asked = 1 ∧ s.results 0 = some (.error "token_provider_failed") ∧
    ∀ thrown, fetch numbered s thrown = (s, 0) :=
  ⟨_, rfl, rfl, rfl, fun _ => rfl⟩

end Converger.TokenManager
