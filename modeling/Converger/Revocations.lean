import Converger.Activity

/-!
# Token revocations

`Converger.Auth.Revocations`: rows of `revoked_tokens` reject a token family, the tokens an end user
was issued up to a time, or a token that was refreshed longer ago than the grace period. A check
looks the rows up in the cache of its node. Rows keep microseconds, the cache milliseconds, and the
claims of a token seconds; times are microseconds here.
-/
namespace Converger.Revocations

/-- The key of a row: `fam:<family>`, `jti:<jti>` or `user:<channel_id>:<user_id>`. -/
inductive Key where
  | fam (family : Uuid)
  | jti (jti : Uuid)
  | user (channelId : Uuid) (userId : String)
  deriving DecidableEq

inductive Kind where
  | revoked | rotated
  deriving DecidableEq

/-- A row of `revoked_tokens`. -/
structure Row where
  key : Key
  kind : Kind
  revokedAt : ℕ
  expiresAt : ℕ
  deriving DecidableEq

structure Entry where
  kind : Kind
  revokedAt : ℕ
  expiresAt : ℕ
  deriving DecidableEq

def Row.entry (row : Row) : Entry where
  kind := row.kind
  revokedAt := row.revokedAt / 1000
  expiresAt := row.expiresAt / 1000

abbrev Cache := Key → Option Entry

structure Claims where
  channelId : Uuid
  userId : Option String := none
  jti : Option Uuid := none
  fam : Option Uuid := none
  iat : Option ℕ := none
  exp : Option ℕ := none
  deriving DecidableEq

structure Config where
  rotationGraceSeconds : ℕ := 30

def Config.graceMs (cfg : Config) : ℕ := cfg.rotationGraceSeconds * 1000

def defaultExpiry : ℕ := 1800

def lifetimeLeewaySeconds : ℕ := 60

def maxLifetime : ℕ := defaultExpiry + lifetimeLeewaySeconds

/-- The family of a token: `fam`, or its own `jti` for the first token. -/
def Claims.family (c : Claims) : Option Uuid := c.fam.or c.jti

/-- The row that revokes `key` from `now` on. -/
def revocation (key : Key) (now : ℕ) : Row where
  key := key
  kind := .revoked
  revokedAt := now
  expiresAt := now + maxLifetime * 1000000

theorem revocation_entry_expiresAt (key : Key) (now : ℕ) :
    (revocation key now).entry.expiresAt = now / 1000 + maxLifetime * 1000 := by
  simp only [revocation, Row.entry]
  omega

/-- The row of a token refreshed at `now`. -/
def rotation (c : Claims) (jti : Uuid) (now : ℕ) : Row where
  key := .jti jti
  kind := .rotated
  revokedAt := now
  expiresAt := match c.exp with
    | some exp => (exp + lifetimeLeewaySeconds) * 1000000
    | none => now + maxLifetime * 1000000

def lookup (cache : Cache) (now : ℕ) (key : Key) : Option (Kind × ℕ) :=
  match cache key with
  | some e => if now / 1000 < e.expiresAt then some (e.kind, e.revokedAt) else none
  | none => none

def revokedFamily (cache : Cache) (now : ℕ) (c : Claims) : Bool :=
  match c.family with
  | none => false
  | some family => (lookup cache now (.fam family)).isSome

def rotated (cfg : Config) (cache : Cache) (now : ℕ) (c : Claims) : Bool :=
  match c.jti with
  | none => false
  | some jti =>
    match lookup cache now (.jti jti) with
    | some (_, rotatedAt) => rotatedAt + cfg.graceMs < now / 1000
    | none => false

def revokedUser (cache : Cache) (now : ℕ) (c : Claims) : Bool :=
  match c.userId with
  | none => false
  | some userId =>
    match lookup cache now (.user c.channelId userId) with
    | some (_, revokedAt) =>
      match c.iat with
      | some iat => iat * 1000 ≤ revokedAt
      | none => true
    | none => false

inductive Verdict where
  | ok | expired | revoked | rotated
  deriving DecidableEq

def check (cfg : Config) (cache : Cache) (now : ℕ) (c : Claims) : Verdict :=
  if revokedFamily cache now c then .revoked
  else if rotated cfg cache now c then .rotated
  else if revokedUser cache now c then .revoked
  else .ok

/-- `verify_token/2` of a token with a valid signature. -/
def verify (cfg : Config) (cache : Cache) (now : ℕ) (c : Claims) : Verdict :=
  match c.exp with
  | some exp => if exp ≤ now / 1000000 then .expired else check cfg cache now c
  | none => check cfg cache now c

section Lookup
variable {cfg : Config} {cache : Cache} {now : ℕ} {key : Key} {c : Claims}

theorem lookup_eq_some {e : Entry} (h : cache key = some e) (hnow : now / 1000 < e.expiresAt) :
    lookup cache now key = some (e.kind, e.revokedAt) := by
  simp [lookup, h, hnow]

theorem check_of_family {family : Uuid} {e : Entry} (hfamily : c.family = some family)
    (h : cache (.fam family) = some e) (hnow : now / 1000 < e.expiresAt) :
    check cfg cache now c = .revoked := by
  have hlookup := lookup_eq_some h hnow
  simp [check, revokedFamily, hfamily, hlookup]

/-- A token of a user whose entry is there and covers its issue time is rejected. -/
theorem check_ne_ok_of_user {userId : String} {iat : ℕ} {e : Entry} (huser : c.userId = some userId)
    (hiat : c.iat = some iat) (h : cache (.user c.channelId userId) = some e)
    (hnow : now / 1000 < e.expiresAt) (hcovers : iat * 1000 ≤ e.revokedAt) :
    check cfg cache now c ≠ .ok := by
  have hlookup := lookup_eq_some h hnow
  have hrevoked : revokedUser cache now c = true := by
    simp [revokedUser, huser, hiat, hlookup, hcovers]
  unfold check
  split_ifs <;> simp

theorem lt_of_verify_ne_expired {exp : ℕ} (hexp : c.exp = some exp)
    (h : verify cfg cache now c ≠ .expired) :
    now / 1000000 < exp ∧ verify cfg cache now c = check cfg cache now c := by
  simp only [verify, hexp] at h ⊢
  split at h
  · exact absurd rfl h
  · next hlt => exact ⟨Nat.not_le.mp hlt, if_neg hlt⟩

end Lookup

end Converger.Revocations
