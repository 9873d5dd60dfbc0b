import Converger.GuardedRuns
import Converger.StaleWrites
import Mathlib.Data.Int.Notation

/-!
# Two-factor authentication

`Accounts.TOTP`: each call decides on a user struct that was loaded before, and writes the fields
that differ from it. The transactions of a confirmation and of a clearing hold the row from their
update to their commit, so each is one step. Only `record_step` looks at the stored row.
-/
namespace Converger.Totp
open Function GuardedRuns List Option StaleWrites

variable {σ : Type}

/-- The columns of a user: `totp_secret`, `totp_enabled_at` and `totp_last_step`. -/
structure User (σ : Type) where
  secret : Option σ := none
  enabledAt : Option ℤ := none
  lastStep : Option ℤ := none
  deriving DecidableEq, Repr

def User.enabled (user : User σ) : Bool := user.enabledAt.isSome

def User.pending (user : User σ) : Bool := user.secret.isSome && !user.enabled

def newer (step : ℤ) (last : Option ℤ) : Prop := ∀ l ∈ last, l < step

instance (step : ℤ) (last : Option ℤ) : Decidable (newer step last) :=
  inferInstanceAs (Decidable (∀ l ∈ last, l < step))

def period : ℤ := 30

/-- The characters of `\s`. -/
def isBlank (c : Char) : Bool := c = ' ' || (9 ≤ c.toNat && c.toNat ≤ 13)

def withoutBlanks (code : String) : String := String.ofList (code.toList.filter (!isBlank ·))

section
variable (valid : σ → String → ℤ → Bool)

/-- The time step of `code` (now or one step back) newer than `last`; `valid` is `NimbleTOTP.valid?`
for the time step. -/
def matchStep (secret : Option σ) (code : Option String) (last : Option ℤ) (now : ℤ) : Option ℤ :=
  match secret, code with
  | some secret, some code =>
    [now, now - period].findSome? fun time =>
      let step := time / period
      if newer step last ∧ valid secret (withoutBlanks code) step = true then some step else none
  | _, _ => none

def User.confirms (user : User σ) (code : String) (now : ℤ) : Option ℤ :=
  if user.pending then matchStep valid user.secret (some code) none now else none

/-- The step `verify/3` accepts over the stored row. -/
def User.verifies (user row : User σ) (code : Option String) (now : ℤ) : Option ℤ :=
  if user.enabled then
    (matchStep valid user.secret code user.lastStep now).filter (newer · row.lastStep)
  else none

end

inductive Op where
  | beginEnrollment | confirmEnrollment | verify | disable | reset
  deriving DecidableEq, Repr

/-- A call with its struct; `authorised` once it may clear the user. -/
structure Call (σ : Type) where
  op : Op
  user : User σ
  authorised : Bool
  deriving DecidableEq, Repr

/-- `accepted` are the codes accepted by successful calls, `secrets` all that were generated. -/
structure State (σ : Type) where
  row : User σ := {}
  calls : ℕ → Option (Call σ) := fun _ => none
  accepted : List (σ × ℤ) := []
  secrets : List σ := []

inductive Event (σ : Type) where
  | load (pid : ℕ) (op : Op)
  | beginEnrollment (pid : ℕ) (secret : σ)
  | confirmEnrollment (pid : ℕ) (code : String) (now : ℤ)
  | verify (pid : ℕ) (code : Option String) (now : ℤ)
  /-- The password of a user who disables is valid. -/
  | password (pid : ℕ)
  | clear (pid : ℕ)
  /-- The call ends in an error or is rolled back. -/
  | fail (pid : ℕ)
  deriving DecidableEq, Repr

def State.set (s : State σ) (pid : ℕ) (call : Option (Call σ)) : State σ :=
  {s with calls := update s.calls pid call}

/-- What follows `verify/3`: the call returns, or goes on to disable. -/
def Call.verified (call : Call σ) : Option (Call σ) :=
  if call.op = .disable then some {call with authorised := true} else none

section
variable [DecidableEq σ]

/-- `Ecto.Changeset.change/2` of the struct and `Repo.update/1` over the stored row. -/
def User.update (user row : User σ) (secret : Option (Option σ)) (enabledAt lastStep : Option ℤ) :
    User σ where
  secret := put secret user.secret row.secret
  enabledAt := put (some enabledAt) user.enabledAt row.enabledAt
  lastStep := put (some lastStep) user.lastStep row.lastStep

def step (valid : σ → String → ℤ → Bool) (s : State σ) : Event σ → Option (State σ)
  | .load pid op =>
    if s.calls pid = none then some (s.set pid (some ⟨op, s.row, op = .reset⟩)) else none
  | .beginEnrollment pid secret => (s.calls pid).bind fun call =>
    if call.op = .beginEnrollment ∧ call.user.enabled = false then
      some {s.set pid none with
        row := call.user.update s.row (some (some secret)) none none
        secrets := s.secrets ++ [secret]}
    else none
  | .confirmEnrollment pid code now => (s.calls pid).bind fun call =>
    if call.op = .confirmEnrollment then
      match call.user.secret, call.user.confirms valid code now with
      | some secret, some step => some {s.set pid none with
          row := call.user.update s.row none (some now) (some step)
          accepted := s.accepted ++ [(secret, step)]}
      | _, _ => some (s.set pid none)
    else none
  | .verify pid code now => (s.calls pid).bind fun call =>
    if call.op = .verify ∨ call.op = .disable ∧ call.authorised = false then
      match call.user.secret, call.user.verifies valid s.row code now with
      | some secret, some step => some {s.set pid call.verified with
          row := {s.row with lastStep := some step}
          accepted := s.accepted ++ [(secret, step)]}
      | _, _ => if call.op = .disable then some s else some (s.set pid none)
    else none
  | .password pid => (s.calls pid).bind fun call =>
    if call.op = .disable ∧ call.user.enabled = true then
      some (s.set pid (some {call with authorised := true}))
    else none
  | .clear pid => (s.calls pid).bind fun call =>
    if call.authorised then
      some {s.set pid none with row := call.user.update s.row (some none) none none}
    else none
  | .fail pid => if s.calls pid = none then none else some (s.set pid none)

end

/-! ### What a step does -/

/-- The call has gone on with its struct; only a disabling gets authorised. -/
structure Call.Since (old call : Call σ) : Prop where
  user : call.user = old.user
  op : call.op = old.op
  authorised : call.authorised = true → old.authorised = true ∨ call.op = .disable

def Kept (s t : State σ) : Prop :=
  ∀ pid call, t.calls pid = some call → ∃ old, s.calls pid = some old ∧ old.Since call

section
variable {s t : State σ}

theorem Kept.refl (s : State σ) : Kept s s := fun _ call hcall => ⟨call, hcall, rfl, rfl, .inl⟩

variable {pid : ℕ}

theorem kept_of_none (ht : t.calls = update s.calls pid none) : Kept s t := by
  intro other call hcall
  rw [ht] at hcall
  rcases update_eq_some hcall with ⟨-, hnew⟩ | ⟨-, hold⟩
  · cases hnew
  · exact ⟨call, hold, rfl, rfl, .inl⟩

theorem kept_of_some {old new : Call σ} (hold : s.calls pid = some old)
    (ht : t.calls = update s.calls pid (some new)) (hsince : old.Since new) : Kept s t := by
  intro other call hcall
  rw [ht] at hcall
  rcases update_eq_some hcall with ⟨rfl, hnew⟩ | ⟨-, hsame⟩
  · cases hnew
    exact ⟨old, hold, hsince⟩
  · exact ⟨call, hsame, rfl, rfl, .inl⟩

theorem kept_of_verified {call : Call σ} (hcall : s.calls pid = some call)
    (ht : t.calls = update s.calls pid call.verified) : Kept s t := by
  unfold Call.verified at ht
  by_cases hop : call.op = .disable
  · rw [if_pos hop] at ht
    exact kept_of_some hcall ht ⟨rfl, rfl, fun _ => .inr hop⟩
  · rw [if_neg hop] at ht
    exact kept_of_none ht

end

theorem User.enabledAt_of_enabled {user : User σ} (h : user.enabled = false) : user.enabledAt = none :=
  not_isSome_iff_eq_none.mp (Bool.eq_false_iff.mp h)

theorem User.enabledAt_of_confirms {valid : σ → String → ℤ → Bool} {user : User σ} {code : String}
    {now step : ℤ} (h : user.confirms valid code now = some step) : user.enabledAt = none := by
  obtain ⟨hpending, -⟩ := ite_none_right_eq_some.mp h
  have hnot := ((Bool.and_eq_true _ _).mp hpending).2
  exact enabledAt_of_enabled ((Bool.not_eq_true' _).mp hnot)

theorem User.newer_of_verifies {valid : σ → String → ℤ → Bool} {user row : User σ}
    {code : Option String} {now step : ℤ} (h : user.verifies valid row code now = some step) :
    user.enabled = true ∧ newer step row.lastStep := by
  obtain ⟨henabled, h⟩ := ite_none_right_eq_some.mp h
  exact ⟨henabled, of_decide_eq_true (filter_eq_some_iff.mp h).2⟩

variable [DecidableEq σ]

structure Stored (t : State σ) (row : User σ) (accepted : List (σ × ℤ)) (secrets : List σ) : Prop where
  row : t.row = row
  accepted : t.accepted = accepted
  secrets : t.secrets = secrets

inductive Effect (valid : σ → String → ℤ → Bool) (s t : State σ) : Event σ → Prop where
  | load {pid : ℕ} {op : Op} (ht : t = s.set pid (some ⟨op, s.row, op = .reset⟩)) :
      Effect valid s t (.load pid op)
  | quiet {e : Event σ} (hcalls : Kept s t) (ht : Stored t s.row s.accepted s.secrets) :
      Effect valid s t e
  | begun {pid : ℕ} {secret : σ} (call : Call σ) (hcall : s.calls pid = some call)
      (henabled : call.user.enabled = false) (hcalls : Kept s t)
      (ht : Stored t (call.user.update s.row (some (some secret)) none none) s.accepted
        (s.secrets ++ [secret])) :
      Effect valid s t (.beginEnrollment pid secret)
  | confirmed {pid : ℕ} {code : String} {now : ℤ} (call : Call σ) (hcall : s.calls pid = some call)
      (secret : σ) (step : ℤ) (hsecret : call.user.secret = some secret)
      (hstep : call.user.confirms valid code now = some step) (hcalls : Kept s t)
      (ht : Stored t (call.user.update s.row none (some now) (some step))
        (s.accepted ++ [(secret, step)]) s.secrets) :
      Effect valid s t (.confirmEnrollment pid code now)
  | verified {pid : ℕ} {code : Option String} {now : ℤ} (call : Call σ)
      (hcall : s.calls pid = some call) (secret : σ) (step : ℤ)
      (hsecret : call.user.secret = some secret)
      (hstep : call.user.verifies valid s.row code now = some step) (hcalls : Kept s t)
      (ht : Stored t {s.row with lastStep := some step} (s.accepted ++ [(secret, step)])
        s.secrets) :
      Effect valid s t (.verify pid code now)
  | cleared {pid : ℕ} (call : Call σ) (hcall : s.calls pid = some call)
      (hauthorised : call.authorised = true) (hcalls : Kept s t)
      (ht : Stored t (call.user.update s.row (some none) none none) s.accepted s.secrets) :
      Effect valid s t (.clear pid)

section
variable {valid : σ → String → ℤ → Bool} {s t : State σ}

theorem effect_confirmEnrollment {pid : ℕ} {code : String} {now : ℤ}
    (h : step valid s (.confirmEnrollment pid code now) = some t) :
    Effect valid s t (.confirmEnrollment pid code now) := by
  obtain ⟨call, hcall, h⟩ := bind_eq_some_iff.mp h
  obtain ⟨-, h⟩ := ite_none_right_eq_some.mp h
  split at h
  · next secret step hsecret hstep =>
    cases h
    exact .confirmed call hcall secret step hsecret hstep (kept_of_none rfl) ⟨rfl, rfl, rfl⟩
  · cases h
    exact .quiet (kept_of_none rfl) ⟨rfl, rfl, rfl⟩

theorem effect_refused {e : Event σ} {pid : ℕ} {call : Call σ}
    (h : (if call.op = .disable then some s else some (s.set pid none)) = some t) :
    Effect valid s t e := by
  by_cases hop : call.op = .disable
  · rw [if_pos hop] at h
    cases h
    exact .quiet (Kept.refl s) ⟨rfl, rfl, rfl⟩
  · rw [if_neg hop] at h
    cases h
    exact .quiet (kept_of_none rfl) ⟨rfl, rfl, rfl⟩

theorem effect_verify {pid : ℕ} {code : Option String} {now : ℤ}
    (h : step valid s (.verify pid code now) = some t) : Effect valid s t (.verify pid code now) := by
  obtain ⟨call, hcall, h⟩ := bind_eq_some_iff.mp h
  obtain ⟨-, h⟩ := ite_none_right_eq_some.mp h
  split at h
  · next secret step hsecret hstep =>
    cases h
    exact .verified call hcall secret step hsecret hstep (kept_of_verified hcall rfl) ⟨rfl, rfl, rfl⟩
  · exact effect_refused h

theorem effect_of_step {e : Event σ} (h : step valid s e = some t) : Effect valid s t e := by
  cases e with
  | load pid op =>
    obtain ⟨-, h⟩ := ite_none_right_eq_some.mp h
    exact .load (some.inj h).symm
  | beginEnrollment pid secret =>
    obtain ⟨call, hcall, h⟩ := bind_eq_some_iff.mp h
    obtain ⟨⟨-, henabled⟩, rfl⟩ := ite_some_none_eq_some.mp h
    exact .begun call hcall henabled (kept_of_none rfl) ⟨rfl, rfl, rfl⟩
  | confirmEnrollment pid code now => exact effect_confirmEnrollment h
  | verify pid code now => exact effect_verify h
  | password pid =>
    obtain ⟨call, hcall, h⟩ := bind_eq_some_iff.mp h
    obtain ⟨⟨hop, -⟩, rfl⟩ := ite_some_none_eq_some.mp h
    exact .quiet (kept_of_some hcall rfl ⟨rfl, rfl, fun _ => .inr hop⟩) ⟨rfl, rfl, rfl⟩
  | clear pid =>
    obtain ⟨call, hcall, h⟩ := bind_eq_some_iff.mp h
    obtain ⟨hauthorised, rfl⟩ := ite_some_none_eq_some.mp h
    exact .cleared call hcall hauthorised (kept_of_none rfl) ⟨rfl, rfl, rfl⟩
  | fail pid =>
    by_cases hnone : s.calls pid = none
    · rw [step, if_pos hnone] at h
      cases h
    · rw [step, if_neg hnone] at h
      cases h
      exact .quiet (kept_of_none rfl) ⟨rfl, rfl, rfl⟩

end

/-! ### Turning two-factor authentication off -/

def Authorised (s : State σ) : Prop :=
  ∀ pid call, s.calls pid = some call → call.authorised = true →
    call.op = .disable ∨ call.op = .reset

section
variable {valid : σ → String → ℤ → Bool} {s t : State σ} {e : Event σ}

omit [DecidableEq σ] in
theorem Kept.authorised (h : Kept s t) (hs : Authorised s) : Authorised t := by
  intro pid call hcall hauthorised
  obtain ⟨old, hold, hsince⟩ := h pid call hcall
  rcases hsince.authorised hauthorised with hbefore | hop
  · rw [hsince.op]
    exact hs pid old hold hbefore
  · exact .inl hop

theorem authorised_step (hs : Authorised s) (h : step valid s e = some t) : Authorised t := by
  cases effect_of_step h with
  | load ht =>
    intro other call hcall hauthorised
    rw [ht] at hcall
    rcases update_eq_some hcall with ⟨-, hnew⟩ | ⟨-, hold⟩
    · cases hnew
      exact .inr (of_decide_eq_true hauthorised)
    · exact hs other call hold hauthorised
  | quiet hcalls | begun _ _ _ hcalls | confirmed _ _ _ _ _ _ hcalls | verified _ _ _ _ _ _ hcalls
  | cleared _ _ _ hcalls => exact hcalls.authorised hs

/-- A confirmation writes the time over whatever is stored, a new enrollment writes no time. -/
theorem enabled_step (hs : Authorised s) (h : step valid s e = some t)
    (henabled : s.row.enabled = true) (hnot : t.row.enabled = false) :
    ∃ pid call, e = .clear pid ∧ s.calls pid = some call ∧
      (call.op = .disable ∨ call.op = .reset) := by
  have hchanged : t.row.enabledAt ≠ s.row.enabledAt := by
    intro hat
    rw [User.enabled, hat] at hnot
    cases henabled.symm.trans hnot
  cases effect_of_step h with
  | load ht => exact absurd (by rw [ht]; rfl) hchanged
  | quiet _ ht | verified _ _ _ _ _ _ _ ht => exact absurd (by rw [ht.row]) hchanged
  | begun call _ hcall _ ht =>
    refine absurd ?_ hchanged
    rw [ht.row, User.update, User.enabledAt_of_enabled hcall, put_same]
  | @confirmed pid code now call _ _ step _ hstep _ ht =>
    have hat : t.row.enabledAt = some now := by
      rw [ht.row, User.update, User.enabledAt_of_confirms hstep, put_of_ne (some_ne_none now)]
    rw [User.enabled, hat] at hnot
    cases hnot
  | cleared call hcall hauthorised =>
    exact ⟨_, call, rfl, hcall, hs _ call hcall hauthorised⟩

end

/-! ### Codes used once -/

def Call.Current (call : Call σ) (s : State σ) : Prop :=
  s.row.secret = call.user.secret ∧ s.row.enabledAt = call.user.enabledAt

instance (call : Call σ) (s : State σ) : Decidable (call.Current s) :=
  inferInstanceAs (Decidable (_ ∧ _))

/-- A generated secret is new, and a call that accepts a code or clears the user does so while its
struct is current. -/
def Orderly (valid : σ → String → ℤ → Bool) (s : State σ) : Event σ → Prop
  | .beginEnrollment _ secret => secret ∉ s.secrets
  | .confirmEnrollment pid code now => ∀ call ∈ s.calls pid,
    call.user.confirms valid code now ≠ none → call.Current s
  | .verify pid code now => ∀ call ∈ s.calls pid,
    call.user.verifies valid s.row code now ≠ none → call.Current s
  | .clear pid => ∀ call ∈ s.calls pid, call.Current s
  | .load _ _ | .password _ | .fail _ => True

instance (valid : σ → String → ℤ → Bool) (s : State σ) (e : Event σ) :
    Decidable (Orderly valid s e) :=
  match e with
  | .beginEnrollment _ secret => inferInstanceAs (Decidable (secret ∉ s.secrets))
  | .confirmEnrollment pid code now => inferInstanceAs (Decidable (∀ call ∈ s.calls pid,
      call.user.confirms valid code now ≠ none → call.Current s))
  | .verify pid code now => inferInstanceAs (Decidable (∀ call ∈ s.calls pid,
      call.user.verifies valid s.row code now ≠ none → call.Current s))
  | .clear pid => inferInstanceAs (Decidable (∀ call ∈ s.calls pid, call.Current s))
  | .load _ _ | .password _ | .fail _ => .isTrue trivial

structure Inv (s : State σ) : Prop where
  nodup : s.accepted.Nodup
  recorded : ∀ p ∈ s.accepted, s.row.secret = some p.1 → ∃ last ∈ s.row.lastStep, p.2 ≤ last
  unused : s.row.enabledAt = none → ∀ p ∈ s.accepted, s.row.secret ≠ some p.1
  loaded : ∀ pid call secret, s.calls pid = some call → call.user.secret = some secret →
    s.row.secret = some secret → call.user.enabledAt = none → s.row.enabledAt = none →
    call.user.lastStep = s.row.lastStep
  row_secret : ∀ secret ∈ s.row.secret, secret ∈ s.secrets
  call_secret : ∀ pid call, s.calls pid = some call → ∀ secret ∈ call.user.secret, secret ∈ s.secrets
  accepted_secret : ∀ p ∈ s.accepted, p.1 ∈ s.secrets

omit [DecidableEq σ] in
theorem inv_init : Inv ({} : State σ) where
  nodup := nodup_nil
  recorded := nofun
  unused := fun _ => nofun
  loaded := nofun
  row_secret := nofun
  call_secret := nofun
  accepted_secret := nofun

namespace Inv

variable {valid : σ → String → ℤ → Bool} {s t : State σ}

omit [DecidableEq σ] in
theorem load (h : Inv s) {pid : ℕ} {op : Op} (ht : t = s.set pid (some ⟨op, s.row, op = .reset⟩)) :
    Inv t := by
  subst ht
  have hcalls : ∀ other call, (s.set pid (some ⟨op, s.row, op = .reset⟩)).calls other = some call →
      call.user = s.row ∨ s.calls other = some call := by
    intro other call hcall
    rcases update_eq_some hcall with ⟨-, hnew⟩ | ⟨-, hold⟩
    · cases hnew
      exact .inl rfl
    · exact .inr hold
  exact {h with
    loaded := by
      intro other call secret hcall hsecret hrow hat hrowAt
      rcases hcalls other call hcall with huser | hold
      · rw [huser]
        rfl
      · exact h.loaded other call secret hold hsecret hrow hat hrowAt
    call_secret := by
      intro other call hcall secret hsecret
      rcases hcalls other call hcall with huser | hold
      · rw [huser] at hsecret
        exact h.row_secret secret hsecret
      · exact h.call_secret other call hold secret hsecret}

omit [DecidableEq σ] in
theorem kept_secret (h : Inv s) (hcalls : Kept s t) {pid : ℕ} {call : Call σ} {secret : σ}
    (hcall : t.calls pid = some call) (hsecret : call.user.secret = some secret) : secret ∈ s.secrets := by
  obtain ⟨old, hold, hsince⟩ := hcalls pid call hcall
  rw [hsince.user] at hsecret
  exact h.call_secret pid old hold secret hsecret

omit [DecidableEq σ] in
/-- Where no secret that was in use is stored, it is enough that the codes and secrets are kept. -/
theorem of_retired (h : Inv s) (hcalls : Kept s t)
    (hretired : ∀ secret ∈ t.row.secret, secret ∉ s.secrets ∧ secret ∈ t.secrets)
    (haccepted : t.accepted = s.accepted) (hsecrets : s.secrets ⊆ t.secrets) : Inv t where
  nodup := haccepted ▸ h.nodup
  recorded := by
    intro p hp hsecret
    rw [haccepted] at hp
    exact absurd (h.accepted_secret p hp) (hretired _ hsecret).1
  unused := by
    intro _ p hp hsecret
    rw [haccepted] at hp
    exact absurd (h.accepted_secret p hp) (hretired _ hsecret).1
  loaded := by
    intro pid call secret hcall hsecret hrow _ _
    exact absurd (h.kept_secret hcalls hcall hsecret) (hretired _ hrow).1
  row_secret := fun secret hsecret => (hretired secret hsecret).2
  call_secret _ _ hcall _ hsecret := hsecrets (h.kept_secret hcalls hcall hsecret)
  accepted_secret := fun p hp => hsecrets (h.accepted_secret p (haccepted ▸ hp))

omit [DecidableEq σ] in
/-- Where the stored secret stays and two-factor authentication is on, the step of a new code is
recorded. -/
theorem of_accepted (h : Inv s) (hcalls : Kept s t) {secret : σ} {step : ℤ}
    (hsecret : s.row.secret = some secret) (hnew : ∀ p ∈ s.accepted, p.1 = secret → p.2 < step)
    (hrow : t.row.secret = some secret) (henabled : t.row.enabledAt ≠ none)
    (hlast : t.row.lastStep = some step) (haccepted : t.accepted = s.accepted ++ [(secret, step)])
    (hsecrets : t.secrets = s.secrets) : Inv t where
  nodup := by
    rw [haccepted]
    exact h.nodup.snoc fun hp => Int.lt_irrefl _ (hnew _ hp rfl)
  recorded := by
    intro p hp hp'
    have heq : secret = p.1 := some.inj (hrow.symm.trans hp')
    refine ⟨step, hlast, ?_⟩
    rw [haccepted] at hp
    rcases mem_snoc.mp hp with hold | hlast
    · exact Int.le_of_lt (hnew p hold heq.symm)
    · exact Int.le_of_eq (congrArg Prod.snd hlast)
  unused := fun hnone => absurd hnone henabled
  loaded := fun _ _ _ _ _ _ _ hnone => absurd hnone henabled
  row_secret := by
    intro other hother
    rw [hsecrets]
    apply h.row_secret
    rw [hsecret, ← hrow]
    exact hother
  call_secret _ _ hcall _ hother := hsecrets ▸ h.kept_secret hcalls hcall hother
  accepted_secret := by
    intro p hp
    rw [hsecrets]
    rw [haccepted] at hp
    rcases mem_snoc.mp hp with hold | rfl
    · exact h.accepted_secret p hold
    · exact h.row_secret secret hsecret

omit [DecidableEq σ] in
theorem quiet (h : Inv s) (hcalls : Kept s t) (ht : Stored t s.row s.accepted s.secrets) : Inv t := by
  obtain ⟨row, calls, accepted, secrets⟩ := t
  obtain ⟨rfl, rfl, rfl⟩ := ht
  exact {h with
    loaded := by
      intro pid call secret hcall hsecret hrow hat hrowAt
      obtain ⟨old, hold, hsince⟩ := hcalls pid call hcall
      rw [hsince.user] at hsecret hat ⊢
      exact h.loaded pid old secret hold hsecret hrow hat hrowAt
    call_secret := fun _ _ hcall _ => h.kept_secret hcalls hcall}

theorem step {e : Event σ} (h : Inv s) (horderly : Orderly valid s e)
    (hstep : Totp.step valid s e = some t) : Inv t := by
  cases effect_of_step hstep with
  | load ht => exact h.load ht
  | quiet hcalls ht => exact h.quiet hcalls ht
  | @begun pid secret call hcall henabled hcalls ht =>
    have hdiffers : some secret ≠ call.user.secret := fun heq =>
      horderly (h.call_secret pid call hcall secret heq.symm)
    have hsecret : t.row.secret = some secret := by
      rw [ht.row, User.update, put_of_ne hdiffers]
    refine h.of_retired hcalls ?_ ht.accepted ?_
    · intro other hother
      rw [hsecret] at hother
      cases hother
      rw [ht.secrets]
      exact ⟨horderly, mem_append_right _ mem_cons_self⟩
    · rw [ht.secrets]
      exact subset_append_left _ _
  | @confirmed pid code now call hcall secret step hsecret hcode hcalls ht =>
    obtain ⟨hcurrent, hcurrentAt⟩ := horderly call hcall (hcode ▸ some_ne_none step)
    have hstruct := User.enabledAt_of_confirms hcode
    rw [hsecret] at hcurrent
    rw [hstruct] at hcurrentAt
    have hlast := h.loaded pid call secret hcall hsecret hcurrent hstruct hcurrentAt
    refine h.of_accepted hcalls hcurrent ?hnew ?hrow ?henabled ?hlast ht.accepted ht.secrets
    case hnew =>
      intro p hp heq
      exact absurd (heq ▸ hcurrent) (h.unused hcurrentAt p hp)
    case hrow =>
      rw [ht.row]
      exact hcurrent
    case henabled =>
      rw [ht.row, User.update, hstruct, put_of_ne (some_ne_none now)]
      exact some_ne_none now
    case hlast => rw [ht.row, User.update, hlast, put_current]
  | @verified pid code now call hcall secret step hsecret hcode hcalls ht =>
    obtain ⟨hcurrent, hcurrentAt⟩ := horderly call hcall (hcode ▸ some_ne_none step)
    obtain ⟨henabled, hnewer⟩ := User.newer_of_verifies hcode
    rw [hsecret] at hcurrent
    refine h.of_accepted hcalls hcurrent ?hnew ?hrow ?henabled ?hlast ht.accepted ht.secrets
    case hnew =>
      intro p hp heq
      obtain ⟨last, hlast, hle⟩ := h.recorded p hp (heq ▸ hcurrent)
      exact Int.lt_of_le_of_lt hle (hnewer last hlast)
    case hrow =>
      rw [ht.row]
      exact hcurrent
    case henabled =>
      rw [ht.row]
      change s.row.enabledAt ≠ none
      rw [hcurrentAt]
      exact isSome_iff_ne_none.mp henabled
    case hlast => rw [ht.row]
  | @cleared pid call hcall _ hcalls ht =>
    have hnone : t.row.secret = none := by
      rw [ht.row, User.update, (horderly call hcall).1, put_current]
    refine h.of_retired hcalls ?_ ht.accepted ?_
    · intro other hother
      rw [hnone] at hother
      cases hother
    · rw [ht.secrets]
      exact List.Subset.refl _

end Inv

/-- In every run two-factor authentication is turned off only by a disabling or a reset, and where
the structs are current no code of a time step is accepted twice. -/
theorem codes_once_and_kept_on {valid : σ → String → ℤ → Bool} {es : List (Event σ)} {s : State σ}
    (h : run (step valid) {} es = some s) :
    (∀ e t, step valid s e = some t → s.row.enabled = true → t.row.enabled = false →
      ∃ pid call, e = .clear pid ∧ s.calls pid = some call ∧ (call.op = .disable ∨ call.op = .reset)) ∧
    (Along (step valid) (Orderly valid) {} es → s.accepted.Nodup) := by
  constructor
  · intro e t ht henabled hnot
    have hinit : Authorised ({} : State σ) := nofun
    have hauthorised : Authorised s := run_invariant authorised_step hinit h
    exact enabled_step hauthorised ht henabled hnot
  · intro horderly
    have hinv : Inv s := run_invariant_along Inv.step inv_init horderly h
    exact hinv.nodup

/-- An enrollment, and two calls that confirm it with structs loaded before. -/
def enrolling : List (Event ℕ) :=
  [.load 0 .beginEnrollment, .beginEnrollment 0 5, .load 1 .confirmEnrollment,
    .load 2 .confirmEnrollment, .confirmEnrollment 1 "123 456" 60]

def sixDigits (_ : ℕ) (code : String) (_ : ℤ) : Bool := code = "123456"

theorem codes_once_and_kept_on_enrolled : ∃ s, run (step sixDigits) {} (enrolling ++
      [.load 3 .verify, .load 4 .disable, .verify 3 (some "123456") 90, .verify 4 (some "123456") 125,
        .clear 4]) = some s ∧
    s.row = {} ∧ s.accepted = [(5, 2), (5, 3), (5, 4)] ∧ s.accepted.Nodup := by
  obtain ⟨s, hs, hrow, haccepted⟩ : ∃ s,
      run (step sixDigits) {} (enrolling ++ [.load 3 .verify, .load 4 .disable,
      .verify 3 (some "123456") 90, .verify 4 (some "123456") 125, .clear 4]) = some s ∧
      s.row = {} ∧ s.accepted = [(5, 2), (5, 3), (5, 4)] := by decide +kernel
  exact ⟨s, hs, hrow, haccepted, (codes_once_and_kept_on hs).2 (by decide +kernel)⟩

/-- Both calls accept the same code. -/
theorem enrollment_confirmed_twice : ∃ s,
    run (step sixDigits) {} (enrolling ++ [.confirmEnrollment 2 "123456" 61]) = some s ∧
    s.accepted = [(5, 2), (5, 2)] ∧ ¬s.accepted.Nodup := by
  decide +kernel

end Converger.Totp
