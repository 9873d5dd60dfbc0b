import Converger.GuardedRuns
import Converger.Revocations

/-!
# Refreshing tokens

`ConvergerToken` next to `Revocations` on one node. A refresh verifies the token, rotates it and
generates the new one; these are three steps, and everything else that issues or revokes tokens may
come between them. A row that is written is cached by the node that writes it. `revoke_user/3`
reads the clock in one step, and stores and caches its row in another.
-/
namespace Converger.TokenRefreshes
open Function GuardedRuns List Option Revocations

/-- An issued token. It has a `jti` and an `exp`, and `iat` is the second it is issued in. -/
structure Token where
  claims : Claims
  issuedAt : ℕ
  jti_isSome : claims.jti.isSome
  iat_eq : claims.iat = some (issuedAt / 1000000)
  exp_isSome : claims.exp.isSome

def expiry (now : ℕ) (expiresIn notAfter : Option ℕ) : ℕ :=
  let exp := now / 1000000 + expiresIn.getD defaultExpiry
  match notAfter with
  | some notAfter => min exp notAfter
  | none => exp

/-- `generate_token/2`. An empty `user_id` is left out. -/
def generateToken (channelId : Uuid) (userId : Option String)
    (expiresIn family notAfter : Option ℕ) (jti : Uuid) (now : ℕ) : Token where
  claims := {
    channelId
    userId := userId.filter (· ≠ "")
    jti := some jti
    fam := some (family.getD jti)
    iat := some (now / 1000000)
    exp := some (expiry now expiresIn notAfter)}
  issuedAt := now
  jti_isSome := rfl
  iat_eq := rfl
  exp_isSome := rfl

/-- Where a call of `refresh_token/1` is. A token that was rotated too long ago passes the
verification, which is `seenRotated`. -/
inductive Phase where
  | verified (seenRotated : Bool)
  | rotated (rotatedAt : ℕ)
  | returned (rotatedAt : ℕ)
  | refused
  deriving DecidableEq

def Phase.rotatedAt : Phase → Option ℕ
  | .rotated rotatedAt | .returned rotatedAt => some rotatedAt
  | .verified _ | .refused => none

def Phase.inFlight : Phase → Bool
  | .verified _ | .rotated _ => true
  | .returned _ | .refused => false

/-- A call of `refresh_token/1`, with the position of the token it was given. -/
structure Refresh where
  token : ℕ
  claims : Claims
  verifiedAt : ℕ
  phase : Phase
  deriving DecidableEq

/-- A call of `revoke_user/3`. -/
structure UserRevocation where
  channelId : Uuid
  userId : String
  revokedAt : ℕ
  finished : Bool := false
  deriving DecidableEq

def OfUser (c : Claims) (channelId : Uuid) (userId : String) : Prop :=
  c.channelId = channelId ∧ c.userId = some userId

instance (c : Claims) (channelId : Uuid) (userId : String) : Decidable (OfUser c channelId userId) :=
  inferInstanceAs (Decidable (_ ∧ _))

structure State where
  now : ℕ := 0
  db : Key → Option Row := fun _ => none
  cache : Cache := fun _ => none
  tokens : List Token := []
  refreshes : List Refresh := []
  revocations : List UserRevocation := []

def State.store (s : State) (row : Row) : State :=
  {s with
    db := update s.db row.key (some row)
    cache := update s.cache row.key (some row.entry)}

def State.revokeFamily (s : State) (c : Claims) : State :=
  match c.family with
  | none => s
  | some family => s.store (revocation (.fam family) s.now)

/-- The stored row is a rotation at most a grace period ago; both times are cut to milliseconds. -/
def withinGrace (cfg : Config) (now : ℕ) (row : Row) : Bool :=
  row.kind = .rotated ∧ now / 1000 - row.revokedAt / 1000 ≤ cfg.graceMs

/-- `rotate/1`: the state after it, and whether it answers `:ok`. -/
def State.rotate (cfg : Config) (s : State) (c : Claims) : State × Bool :=
  match c.jti with
  | none => (s, true)
  | some jti =>
    match s.db (.jti jti) with
    | none => (s.store (Revocations.rotation c jti s.now), true)
    | some row => if withinGrace cfg s.now row then (s, true) else (s.revokeFamily c, false)

/-- A token with a new `jti` is issued. -/
def State.issue (s : State) (channelId : Uuid) (userId : Option String)
    (expiresIn family notAfter : Option ℕ) (jti : Uuid) : Option State :=
  if ∀ tok ∈ s.tokens, tok.claims.jti ≠ some jti then
    some {s with
      tokens := s.tokens ++ [generateToken channelId userId expiresIn family notAfter jti s.now]}
  else none

def State.setPhase (s : State) (i : ℕ) (call : Refresh) (phase : Phase) : State :=
  {s with refreshes := s.refreshes.set i {call with phase}}

inductive Event where
  | tick (micros : ℕ)
  /-- A token for the channel secret. -/
  | generate (channelId : Uuid) (userId : Option String) (expiresIn : Option ℕ) (jti : Uuid)
  /-- A conversation token, derived from the token at position `k`. -/
  | derive (k : ℕ) (jti : Uuid)
  /-- `refresh_token/1` is called with the token at position `k` and verifies it. -/
  | verify (k : ℕ)
  | rotate (i : ℕ)
  /-- The refresh generates the new token and returns it. -/
  | mint (i : ℕ) (jti : Uuid)
  | beginRevokeUser (channelId : Uuid) (userId : String)
  | finishRevokeUser (j : ℕ)
  | revokeFamily (k : ℕ)
  | prune
  deriving DecidableEq

/-- What the verification of a refresh, with `allow_rotated: true`, makes of the call. -/
def verified : Verdict → Phase
  | .ok => .verified false
  | .rotated => .verified true
  | .expired | .revoked => .refused

def step (cfg : Config) (s : State) : Event → Option State
  | .tick micros => some {s with now := s.now + micros}
  | .generate channelId userId expiresIn jti => s.issue channelId userId expiresIn none none jti
  | .derive k jti => do
    let c := (← s.tokens[k]?).claims
    s.issue c.channelId c.userId none c.family c.exp jti
  | .verify k => do
    let c := (← s.tokens[k]?).claims
    let call : Refresh := ⟨k, c, s.now, verified (verify cfg s.cache s.now c)⟩
    return {s with refreshes := s.refreshes ++ [call]}
  | .rotate i => do
    let call ← s.refreshes[i]?
    match call.phase with
    | .verified _ =>
      let (s', ok) := s.rotate cfg call.claims
      return s'.setPhase i call (if ok then .rotated s.now else .refused)
    | _ => none
  | .mint i jti => do
    let call ← s.refreshes[i]?
    match call.phase with
    | .rotated rotatedAt =>
      let c := call.claims
      let s' ← s.issue c.channelId c.userId (some defaultExpiry) c.family none jti
      return s'.setPhase i call (.returned rotatedAt)
    | _ => none
  | .beginRevokeUser channelId userId =>
    some {s with revocations := s.revocations ++ [{channelId, userId, revokedAt := s.now}]}
  | .finishRevokeUser j => do
    let rev ← s.revocations[j]?
    if rev.finished then none
    else
      let s' := s.store (revocation (.user rev.channelId rev.userId) rev.revokedAt)
      return {s' with revocations := s.revocations.set j {rev with finished := true}}
  | .revokeFamily k => do
    let tok ← s.tokens[k]?
    return s.revokeFamily tok.claims
  | .prune => some {s with db := fun key => (s.db key).filter (s.now < ·.expiresAt)}

variable {jti : Uuid} {e : Event} {i : ℕ} {call : Refresh} {phase : Phase}

section Spec
variable {cfg : Config} {s t : State} {row : Row} {key : Key}

@[simp] theorem store_cache_self (s : State) (row : Row) : (s.store row).cache row.key = some row.entry :=
  update_self _ _ _

theorem store_cache_of_ne (h : key ≠ row.key) : (s.store row).cache key = s.cache key :=
  update_of_ne h _ _

@[simp] theorem store_db_self (s : State) (row : Row) : (s.store row).db row.key = some row :=
  update_self _ _ _

theorem store_db_of_ne (h : key ≠ row.key) : (s.store row).db key = s.db key :=
  update_of_ne h _ _

inductive Effect (cfg : Config) (s : State) : Event → State → Prop
  | tick (micros : ℕ) : Effect cfg s (.tick micros) {s with now := s.now + micros}
  | generate {channelId : Uuid} {userId : Option String} {expiresIn : Option ℕ} {jti : Uuid}
      (tok : Token) (hnow : tok.issuedAt = s.now)
      (hfresh : ∀ old ∈ s.tokens, old.claims.jti ≠ tok.claims.jti) :
      Effect cfg s (.generate channelId userId expiresIn jti) {s with tokens := s.tokens ++ [tok]}
  | derive {k : ℕ} {jti : Uuid} (tok : Token) (hnow : tok.issuedAt = s.now)
      (hfresh : ∀ old ∈ s.tokens, old.claims.jti ≠ tok.claims.jti) :
      Effect cfg s (.derive k jti) {s with tokens := s.tokens ++ [tok]}
  | verify {k : ℕ} {tok : Token} (htok : s.tokens[k]? = some tok) :
      Effect cfg s (.verify k) {s with
        refreshes := s.refreshes ++
          [⟨k, tok.claims, s.now, verified (verify cfg s.cache s.now tok.claims)⟩]}
  | rotate {i : ℕ} {call : Refresh} {seen : Bool} (hcall : s.refreshes[i]? = some call)
      (hphase : call.phase = .verified seen) :
      Effect cfg s (.rotate i) ((s.rotate cfg call.claims).1.setPhase i call
        (if (s.rotate cfg call.claims).2 then .rotated s.now else .refused))
  | mint {i rotatedAt : ℕ} {jti : Uuid} {call : Refresh} (hcall : s.refreshes[i]? = some call)
      (hphase : call.phase = .rotated rotatedAt) (tok : Token) (hnow : tok.issuedAt = s.now)
      (hfresh : ∀ old ∈ s.tokens, old.claims.jti ≠ tok.claims.jti) :
      Effect cfg s (.mint i jti)
        (State.setPhase {s with tokens := s.tokens ++ [tok]} i call (.returned rotatedAt))
  | beginRevokeUser (rev : UserRevocation) :
      Effect cfg s (.beginRevokeUser rev.channelId rev.userId)
        {s with revocations := s.revocations ++ [rev]}
  | finishRevokeUser {j : ℕ} {rev : UserRevocation} (hrev : s.revocations[j]? = some rev) :
      Effect cfg s (.finishRevokeUser j)
        {s.store (revocation (.user rev.channelId rev.userId) rev.revokedAt) with
          revocations := s.revocations.set j {rev with finished := true}}
  | revokeFamily (k : ℕ) (c : Claims) : Effect cfg s (.revokeFamily k) (s.revokeFamily c)
  | prune : Effect cfg s .prune {s with db := fun key => (s.db key).filter (s.now < ·.expiresAt)}

theorem issue_spec {channelId : Uuid} {userId : Option String}
    {expiresIn family notAfter : Option ℕ}
    (h : s.issue channelId userId expiresIn family notAfter jti = some t) :
    ∃ tok : Token, tok.issuedAt = s.now ∧ (∀ old ∈ s.tokens, old.claims.jti ≠ tok.claims.jti) ∧
      t = {s with tokens := s.tokens ++ [tok]} := by
  simp only [State.issue, ite_none_right_eq_some, Option.some.injEq] at h
  obtain ⟨hfresh, h⟩ := h
  exact ⟨generateToken channelId userId expiresIn family notAfter jti s.now, rfl, hfresh, h.symm⟩

theorem step_effect (hstep : step cfg s e = some t) : Effect cfg s e t := by
  cases e with
  | tick micros =>
    cases hstep
    exact .tick micros
  | generate channelId userId expiresIn jti =>
    obtain ⟨tok, hnow, hfresh, rfl⟩ := issue_spec hstep
    exact .generate tok hnow hfresh
  | derive k jti =>
    obtain ⟨parent, -, hissue⟩ := bind_eq_some_iff.mp hstep
    obtain ⟨tok, hnow, hfresh, rfl⟩ := issue_spec hissue
    exact .derive tok hnow hfresh
  | verify k =>
    obtain ⟨tok, htok, hverify⟩ := bind_eq_some_iff.mp hstep
    cases hverify
    exact .verify htok
  | rotate i =>
    obtain ⟨call, hcall, hrotate⟩ := bind_eq_some_iff.mp hstep
    split at hrotate
    · next seen hphase =>
      cases hrotate
      exact .rotate hcall hphase
    · cases hrotate
  | mint i jti =>
    obtain ⟨call, hcall, hmint⟩ := bind_eq_some_iff.mp hstep
    split at hmint
    · next rotatedAt hphase =>
      obtain ⟨s', hissue, hs'⟩ := bind_eq_some_iff.mp hmint
      obtain ⟨tok, hnow, hfresh, rfl⟩ := issue_spec hissue
      cases hs'
      exact .mint hcall hphase tok hnow hfresh
    · cases hmint
  | beginRevokeUser channelId userId =>
    cases hstep
    exact .beginRevokeUser {channelId, userId, revokedAt := s.now}
  | finishRevokeUser j =>
    obtain ⟨rev, hrev, hfinish⟩ := bind_eq_some_iff.mp hstep
    split at hfinish <;> cases hfinish
    exact .finishRevokeUser hrev
  | revokeFamily k =>
    obtain ⟨tok, -, hrevoke⟩ := bind_eq_some_iff.mp hstep
    cases hrevoke
    exact .revokeFamily k tok.claims
  | prune =>
    cases hstep
    exact .prune

theorem revokeFamily_induction {P : State → Prop} (c : Claims) (h : P s)
    (hfamily : ∀ family, P (s.store (revocation (.fam family) s.now))) : P (s.revokeFamily c) := by
  unfold State.revokeFamily
  split
  · exact h
  · exact hfamily _

/-- What a rotation finds under the `jti`, and what it does then. -/
theorem rotate_cases (cfg : Config) (s : State) {c : Claims} (hjti : c.jti = some jti) :
    (s.db (.jti jti) = none ∧ s.rotate cfg c = (s.store (Revocations.rotation c jti s.now), true)) ∨
      ∃ row, s.db (.jti jti) = some row ∧
        (withinGrace cfg s.now row = true ∧ s.rotate cfg c = (s, true) ∨
          withinGrace cfg s.now row = false ∧ s.rotate cfg c = (s.revokeFamily c, false)) := by
  simp only [State.rotate, hjti]
  cases hrow : s.db (.jti jti) with
  | none => exact .inl ⟨rfl, rfl⟩
  | some row =>
    refine .inr ⟨row, rfl, ?_⟩
    cases hgrace : withinGrace cfg s.now row with
    | true => exact .inl ⟨rfl, by simp [hgrace]⟩
    | false => exact .inr ⟨rfl, by simp [hgrace]⟩

/-- A rotation stores at most one row: the rotation, or the revocation of the family. -/
theorem rotate_induction {P : State → Prop} (c : Claims) (h : P s)
    (hrotation : ∀ jti, P (s.store (Revocations.rotation c jti s.now)))
    (hfamily : ∀ family, P (s.store (revocation (.fam family) s.now))) : P (s.rotate cfg c).1 := by
  cases hjti : c.jti with
  | none => simpa [State.rotate, hjti] using h
  | some jti =>
    obtain ⟨-, heq⟩ | ⟨row, -, ⟨-, heq⟩ | ⟨-, heq⟩⟩ := rotate_cases cfg s hjti <;> rw [heq]
    · exact hrotation jti
    · exact h
    · exact revokeFamily_induction c h hfamily

@[simp] theorem rotate_tokens (c : Claims) : (s.rotate cfg c).1.tokens = s.tokens :=
  rotate_induction (P := (·.tokens = s.tokens)) c rfl (fun _ => rfl) fun _ => rfl

@[simp] theorem rotate_refreshes (c : Claims) : (s.rotate cfg c).1.refreshes = s.refreshes :=
  rotate_induction (P := (·.refreshes = s.refreshes)) c rfl (fun _ => rfl) fun _ => rfl

end Spec

/-- What every reachable state has: a refresh carries the claims of the token it was given, which
had not expired when the call passed its verification. -/
structure Sound (s : State) : Prop where
  given : ∀ call ∈ s.refreshes, ∃ tok, s.tokens[call.token]? = some tok ∧ tok.claims = call.claims
  unexpired : ∀ call ∈ s.refreshes, ∀ exp, call.phase.inFlight = true → call.claims.exp = some exp →
    call.verifiedAt / 1000000 < exp

namespace Sound
variable {cfg : Config} {s t : State}

theorem setPhase (h : Sound s) (hcall : s.refreshes[i]? = some call)
    (hphase : phase.inFlight = true → call.phase.inFlight = true) : Sound (s.setPhase i call phase) where
  given := forall_mem_set h.given (h.given call (mem_of_getElem? hcall))
  unexpired := forall_mem_set h.unexpired fun exp hflight =>
    h.unexpired call (mem_of_getElem? hcall) exp (hphase hflight)

theorem issue (tok : Token) (h : Sound s) : Sound {s with tokens := s.tokens ++ [tok]} where
  given call hcall := by
    obtain ⟨old, hold, hclaims⟩ := h.given call hcall
    exact ⟨old, getElem?_append_of_eq_some hold _, hclaims⟩
  unexpired := h.unexpired

theorem of_eq (h : Sound s) (htokens : t.tokens = s.tokens) (hcalls : t.refreshes = s.refreshes) :
    Sound t where
  given := by rw [htokens, hcalls]; exact h.given
  unexpired := by rw [hcalls]; exact h.unexpired

theorem step (h : Sound s) (hstep : step cfg s e = some t) : Sound t := by
  cases step_effect hstep with
  | tick micros | beginRevokeUser rev | finishRevokeUser hrev | prune => exact h.of_eq rfl rfl
  | generate tok hnow hfresh | derive tok hnow hfresh => exact h.issue tok
  | @verify k tok htok =>
    constructor
    · exact forall_mem_snoc h.given ⟨tok, htok, rfl⟩
    · refine forall_mem_snoc h.unexpired fun exp hflight hexp => ?_
      have hunexpired : verify cfg s.cache s.now tok.claims ≠ .expired := by
        intro hexpired
        simp [hexpired, verified, Phase.inFlight] at hflight
      exact (lt_of_verify_ne_expired hexp hunexpired).1
  | rotate hcall hphase =>
    refine (h.of_eq (rotate_tokens _) (rotate_refreshes _)).setPhase ?_ ?_
    · rwa [rotate_refreshes]
    · simp [hphase, Phase.inFlight]
  | mint hcall hphase tok hnow hfresh =>
    refine (h.issue tok).setPhase hcall ?_
    simp [Phase.inFlight]
  | revokeFamily k c => exact revokeFamily_induction c h fun _ => h.of_eq rfl rfl

theorem run {events : List Event} (hrun : run (TokenRefreshes.step cfg) {} events = some t) :
    Sound t :=
  run_invariant (fun h hstep => h.step hstep) ⟨by simp, by simp⟩ hrun

end Sound

end Converger.TokenRefreshes
