import Converger.TokenRefreshes

/-!
# Reuse of refreshed tokens

A token that is refreshed again after the grace period was copied, and its family is revoked. The
row of a rotation outlives the token it is for, so it is there to tell the reuse; the row of a family
outlives every token that was issued before it.
-/
namespace Converger.TokenRefreshes
open Revocations GuardedRuns List Option

structure Recorded (s : State) : Prop where
  distinct : ∀ tok ∈ s.tokens, ∀ other ∈ s.tokens, tok.claims.jti = other.claims.jti →
    tok.claims = other.claims
  rows : ∀ jti row, s.db (.jti jti) = some row → row.kind = .rotated ∧ row.revokedAt ≤ s.now ∧
    ∃ tok ∈ s.tokens, tok.claims.jti = some jti ∧
      ∀ exp, tok.claims.exp = some exp → row.expiresAt = (exp + lifetimeLeewaySeconds) * 1000000
  rotated : ∀ call ∈ s.refreshes, ∀ rotatedAt jti exp, call.phase.rotatedAt = some rotatedAt →
    call.claims.jti = some jti → call.claims.exp = some exp →
    s.now < (exp + lifetimeLeewaySeconds) * 1000000 →
    ∃ row, s.db (.jti jti) = some row ∧ row.revokedAt ≤ rotatedAt

theorem verified_rotatedAt (verdict : Verdict) : (verified verdict).rotatedAt = none := by
  cases verdict <;> rfl

namespace Recorded
variable {cfg : Config} {s t : State}

section
variable (h : Recorded s)
include h

theorem of_eq (hnow : t.now = s.now) (htokens : t.tokens = s.tokens)
    (hcalls : t.refreshes = s.refreshes) (hdb : ∀ jti, t.db (.jti jti) = s.db (.jti jti)) :
    Recorded t where
  distinct := by rw [htokens]; exact h.distinct
  rows := by simp only [hdb, hnow, htokens]; exact h.rows
  rotated := by simp only [hdb, hnow, hcalls]; exact h.rotated

theorem store (row : Row) (hkey : ∀ jti, row.key ≠ .jti jti) :
    Recorded (s.store row) :=
  h.of_eq rfl rfl rfl fun jti => store_db_of_ne (hkey jti).symm

theorem revokeFamily (c : Claims) : Recorded (s.revokeFamily c) :=
  revokeFamily_induction c h fun _ => h.store _ fun _ => Key.noConfusion

theorem issue (tok : Token)
    (hfresh : ∀ old ∈ s.tokens, old.claims.jti ≠ tok.claims.jti) :
    Recorded {s with tokens := s.tokens ++ [tok]} where
  distinct := by
    intro a ha b hb heq
    obtain ha | rfl := mem_snoc.mp ha
    · obtain hb | hb := mem_append.mp hb
      · exact h.distinct a ha b hb heq
      · cases mem_singleton.mp hb
        exact absurd heq (hfresh a ha)
    · obtain hb | rfl := mem_snoc.mp hb
      · exact absurd heq.symm (hfresh b hb)
      · rfl
  rows jti row hrow := by
    obtain ⟨hkind, hle, old, hold, hrest⟩ := h.rows jti row hrow
    exact ⟨hkind, hle, old, mem_append_left _ hold, hrest⟩
  rotated := h.rotated

theorem setPhase {i : ℕ} {call : Refresh} {phase : Phase}
    (hphase : ∀ rotatedAt jti exp, phase.rotatedAt = some rotatedAt → call.claims.jti = some jti →
      call.claims.exp = some exp → s.now < (exp + lifetimeLeewaySeconds) * 1000000 →
      ∃ row, s.db (.jti jti) = some row ∧ row.revokedAt ≤ rotatedAt) :
    Recorded (s.setPhase i call phase) where
  distinct := h.distinct
  rows := h.rows
  rotated := forall_mem_set h.rotated hphase

theorem storeRotation {tok : Token} {jti : Uuid} (htok : tok ∈ s.tokens)
    (hjti : tok.claims.jti = some jti) (hnone : s.db (.jti jti) = none) :
    Recorded (s.store (Revocations.rotation tok.claims jti s.now)) where
  distinct := h.distinct
  rows jti' row hrow := by
    by_cases hkey : jti' = jti
    · subst hkey
      cases (store_db_self s (Revocations.rotation tok.claims jti' s.now)).symm.trans hrow
      refine ⟨rfl, Nat.le_refl _, tok, htok, hjti, fun exp hexp => ?_⟩
      simp only [Revocations.rotation, hexp]
    · rw [store_db_of_ne (by simpa [Revocations.rotation] using hkey)] at hrow
      exact h.rows jti' row hrow
  rotated call hcall rotatedAt jti' exp hrotated hjti' hexp hnow := by
    obtain ⟨row, hrow, hle⟩ := h.rotated call hcall rotatedAt jti' exp hrotated hjti' hexp hnow
    refine ⟨row, ?_, hle⟩
    rw [store_db_of_ne, hrow]
    rintro hkey
    cases hkey
    cases hnone.symm.trans hrow

/-- Pruning leaves the rows of the calls that are not past the expiry of their token. -/
theorem prune (hsound : Sound s) :
    Recorded {s with db := fun key => (s.db key).filter (s.now < ·.expiresAt)} where
  distinct := h.distinct
  rows jti row hrow := h.rows jti row (filter_eq_some_iff.mp hrow).1
  rotated call hcall rotatedAt jti exp hrotated hjti hexp hnow := by
    obtain ⟨row, hrow, hle⟩ := h.rotated call hcall rotatedAt jti exp hrotated hjti hexp hnow
    obtain ⟨-, -, tok, htok, hjti', hexpires⟩ := h.rows jti row hrow
    obtain ⟨given, hgiven, hclaims⟩ := hsound.given call hcall
    have hsame : tok.claims = call.claims := by
      rw [← hclaims]
      exact h.distinct tok htok given (mem_of_getElem? hgiven) (by rw [hjti', hclaims, hjti])
    have hkept : s.now < row.expiresAt := by rwa [hexpires exp (hsame ▸ hexp)]
    exact ⟨row, by simp [hrow, hkept], hle⟩

theorem rotate {i : ℕ} {call : Refresh} (hsound : Sound s)
    (hcall : s.refreshes[i]? = some call) :
    Recorded ((s.rotate cfg call.claims).1.setPhase i call
      (if (s.rotate cfg call.claims).2 then .rotated s.now else .refused)) := by
  obtain ⟨tok, htok, hclaims⟩ := hsound.given call (mem_of_getElem? hcall)
  obtain ⟨jti, hjti⟩ := isSome_iff_exists.mp tok.jti_isSome
  have hjti' : call.claims.jti = some jti := hclaims ▸ hjti
  obtain ⟨hnone, hrotate⟩ | ⟨row, hrow, ⟨-, hrotate⟩ | ⟨-, hrotate⟩⟩ := rotate_cases cfg s hjti' <;>
    simp only [hrotate]
  · rw [← hclaims]
    refine (h.storeRotation (mem_of_getElem? htok) hjti hnone).setPhase ?_
    intro rotatedAt jti' exp hrotated hcalled _ _
    cases hjti'.symm.trans hcalled
    cases hrotated
    exact ⟨_, store_db_self s (Revocations.rotation tok.claims jti s.now), Nat.le_refl _⟩
  · refine h.setPhase ?_
    intro rotatedAt jti' exp hrotated hcalled _ _
    cases hjti'.symm.trans hcalled
    cases hrotated
    exact ⟨row, hrow, (h.rows jti row hrow).2.1⟩
  · exact (h.revokeFamily _).setPhase (by simp [Phase.rotatedAt])

theorem step {e : Event} (hsound : Sound s) (hstep : step cfg s e = some t) :
    Recorded t := by
  cases step_effect hstep with
  | tick micros =>
    refine ⟨h.distinct, fun jti row hrow => ?_, fun call hcall rotatedAt jti exp hr hj he hnow => ?_⟩
    · obtain ⟨hkind, hle, hrest⟩ := h.rows jti row hrow
      exact ⟨hkind, Nat.le_add_right_of_le hle, hrest⟩
    · exact h.rotated call hcall rotatedAt jti exp hr hj he (Nat.lt_of_le_of_lt (Nat.le_add_right _ _) hnow)
  | generate tok hnow hfresh | derive tok hnow hfresh => exact h.issue tok hfresh
  | @verify k tok htok =>
    refine ⟨h.distinct, h.rows, forall_mem_snoc h.rotated ?_⟩
    simp [verified_rotatedAt]
  | rotate hcall hphase => exact h.rotate hsound hcall
  | mint hcall hphase tok hnow hfresh =>
    refine (h.issue tok hfresh).setPhase ?_
    intro at' jti exp hrotated
    exact h.rotated _ (mem_of_getElem? hcall) at' jti exp (hphase ▸ hrotated)
  | beginRevokeUser rev => exact h.of_eq rfl rfl rfl fun _ => rfl
  | @finishRevokeUser j rev hrev =>
    have hstored := h.store (revocation (.user rev.channelId rev.userId) rev.revokedAt)
      (by simp [revocation])
    exact hstored.of_eq rfl rfl rfl fun _ => rfl
  | revokeFamily k c => exact h.revokeFamily c
  | prune => exact h.prune hsound

end

theorem run {events : List Event} (hrun : run (TokenRefreshes.step cfg) {} events = some t) :
    Recorded t := by
  have hinit : Recorded {} := ⟨by simp, by simp, by simp⟩
  exact (run_invariant (fun h hstep => And.intro (h.1.step h.2 hstep) (h.2.step hstep))
    (And.intro hinit ⟨by simp, by simp⟩) hrun).1

end Recorded

/-- The family has been revoked since `since`: the entry and, until it expires, the row are there. -/
structure FamilyRevoked (family : Uuid) (since : ℕ) (s : State) : Prop where
  past : since ≤ s.now
  entry : ∃ entry, s.cache (.fam family) = some entry ∧
    since / 1000 + maxLifetime * 1000 ≤ entry.expiresAt
  row : s.now < since + maxLifetime * 1000000 →
    ∃ row, s.db (.fam family) = some row ∧ since + maxLifetime * 1000000 ≤ row.expiresAt

namespace FamilyRevoked
variable {cfg : Config} {s t : State} {family : Uuid} {since : ℕ}

theorem of_store (hpast : since ≤ s.now) :
    FamilyRevoked family since (s.store (revocation (.fam family) s.now)) where
  past := hpast
  entry := by
    refine ⟨_, store_cache_self s (revocation (.fam family) s.now), ?_⟩
    rw [revocation_entry_expiresAt]
    exact Nat.add_le_add_right (Nat.div_le_div_right hpast) _
  row _ := ⟨_, store_db_self s (revocation (.fam family) s.now), Nat.add_le_add_right hpast _⟩

variable (h : FamilyRevoked family since s)
include h

theorem of_eq (hnow : t.now = s.now)
    (hcache : t.cache (.fam family) = s.cache (.fam family))
    (hdb : t.db (.fam family) = s.db (.fam family)) : FamilyRevoked family since t where
  past := hnow ▸ h.past
  entry := hcache ▸ h.entry
  row := by rw [hnow, hdb]; exact h.row

theorem store_of_ne (row : Row) (hkey : .fam family ≠ row.key) :
    FamilyRevoked family since (s.store row) :=
  h.of_eq rfl (store_cache_of_ne hkey) (store_db_of_ne hkey)

theorem store_family (other : Uuid) :
    FamilyRevoked family since (s.store (revocation (.fam other) s.now)) := by
  by_cases hfamily : family = other
  · subst hfamily
    exact of_store h.past
  · exact h.store_of_ne _ (by simpa [revocation] using hfamily)

theorem rotate (c : Claims) : FamilyRevoked family since (s.rotate cfg c).1 :=
  rotate_induction c h (fun _ => h.store_of_ne _ Key.noConfusion) h.store_family

theorem step {e : Event} (hstep : step cfg s e = some t) : FamilyRevoked family since t := by
  cases step_effect hstep with
  | tick micros =>
    refine ⟨Nat.le_add_right_of_le h.past, h.entry, fun hnow => h.row ?_⟩
    exact Nat.lt_of_le_of_lt (Nat.le_add_right _ _) hnow
  | generate tok hnow hfresh | derive tok hnow hfresh | verify htok
  | mint hcall hphase tok hnow hfresh | beginRevokeUser rev => exact h.of_eq rfl rfl rfl
  | rotate hcall hphase => exact (h.rotate _).of_eq rfl rfl rfl
  | @finishRevokeUser j rev hrev =>
    have hstored := h.store_of_ne (revocation (.user rev.channelId rev.userId) rev.revokedAt)
      (by simp [revocation])
    exact hstored.of_eq rfl rfl rfl
  | revokeFamily k c => exact revokeFamily_induction c h h.store_family
  | prune =>
    refine ⟨h.past, h.entry, fun hnow => ?_⟩
    obtain ⟨row, hrow, hexpires⟩ := h.row hnow
    have hkept : s.now < row.expiresAt := Nat.lt_of_lt_of_le hnow hexpires
    exact ⟨row, by simp [hrow, hkept], hexpires⟩

/-- A token that does not outlive the row of its family is rejected until it expires, and the row is
stored until then. -/
theorem rejects {tok : Token} {exp : ℕ} (hfamily : tok.claims.family = some family)
    (hexp : tok.claims.exp = some exp) (hlives : exp ≤ since / 1000000 + maxLifetime)
    (hunexpired : verify cfg s.cache s.now tok.claims ≠ .expired) :
    verify cfg s.cache s.now tok.claims = .revoked ∧
      ∃ row, s.db (.fam family) = some row ∧ s.now < row.expiresAt := by
  obtain ⟨hlt, hcheck⟩ := lt_of_verify_ne_expired hexp hunexpired
  obtain ⟨entry, hentry, hexpires⟩ := h.entry
  have hlive : s.now < since + maxLifetime * 1000000 := by omega
  have hlive' : s.now / 1000 < since / 1000 + maxLifetime * 1000 := by omega
  obtain ⟨row, hrow, hkept⟩ := h.row hlive
  refine ⟨?_, row, hrow, Nat.lt_of_lt_of_le hlive hkept⟩
  rw [hcheck]
  exact check_of_family hfamily hentry (Nat.lt_of_lt_of_le hlive' hexpires)

end FamilyRevoked

section Reuse
variable {cfg : Config} {s t : State} {i k : ℕ} {call first : Refresh} {family : Uuid}

/-- A rotation that finds the token rotated more than a grace period ago revokes the family. -/
theorem familyRevoked_of_reuse (hsound : Sound s) (hrecorded : Recorded s)
    (hcall : s.refreshes[i]? = some call) (hfirst : s.refreshes[k]? = some first)
    (hsame : first.token = call.token) {rotatedAt : ℕ}
    (hrotated : first.phase.rotatedAt = some rotatedAt)
    (hage : cfg.graceMs < s.now / 1000 - rotatedAt / 1000)
    (hprompt : s.now ≤ call.verifiedAt + lifetimeLeewaySeconds * 1000000)
    (hfamily : call.claims.family = some family) (hstep : step cfg s (.rotate i) = some t) :
    FamilyRevoked family s.now t := by
  obtain ⟨tok, htok, hclaims⟩ := hsound.given call (mem_of_getElem? hcall)
  obtain ⟨tok', htok', hclaims'⟩ := hsound.given first (mem_of_getElem? hfirst)
  rw [hsame] at htok'
  cases htok.symm.trans htok'
  obtain ⟨jti, hjti⟩ := isSome_iff_exists.mp tok.jti_isSome
  obtain ⟨exp, hexp⟩ := isSome_iff_exists.mp tok.exp_isSome
  cases step_effect hstep with
  | rotate hcall' hphase =>
    cases hcall.symm.trans hcall'
    have hverified := hsound.unexpired call (mem_of_getElem? hcall) exp
      (by rw [hphase]; rfl) (hclaims ▸ hexp)
    have hstored : s.now < (exp + lifetimeLeewaySeconds) * 1000000 := by
      simp only [lifetimeLeewaySeconds] at hprompt ⊢
      omega
    obtain ⟨row, hrow, hle⟩ := hrecorded.rotated first (mem_of_getElem? hfirst) rotatedAt jti exp
      hrotated (hclaims' ▸ hjti) (hclaims' ▸ hexp) hstored
    have hreused : withinGrace cfg s.now row = false := by
      have hlater : s.now / 1000 - rotatedAt / 1000 ≤ s.now / 1000 - row.revokedAt / 1000 :=
        Nat.sub_le_sub_left (Nat.div_le_div_right hle) _
      simp only [withinGrace, decide_eq_false_iff_not, not_and, Nat.not_le]
      exact fun _ => Nat.lt_of_lt_of_le hage hlater
    have hrevoked : s.rotate cfg call.claims = (s.revokeFamily call.claims, false) := by
      simp only [State.rotate, ← hclaims, hjti, hrow, hreused, Bool.false_eq_true, ↓reduceIte]
    rw [hrevoked]
    simp only [State.revokeFamily, hfamily]
    exact (FamilyRevoked.of_store (Nat.le_refl _)).of_eq rfl rfl rfl

end Reuse

/-- Refreshing a token that was rotated more than a grace period ago, both times cut to milliseconds,
revokes its family: from then on every token of the family that does not outlive the family's row is
rejected until it expires, and the row is stored until then. -/
theorem reuse_rejects_family (cfg : Config) (before after : List Event) (s t : State)
    (hbefore : run (step cfg) {} before = some s) (k i : ℕ) (first call : Refresh)
    (hfirst : s.refreshes[k]? = some first) (hcall : s.refreshes[i]? = some call)
    (hsame : first.token = call.token) (rotatedAt : ℕ)
    (hrotated : first.phase.rotatedAt = some rotatedAt)
    (hage : cfg.graceMs < s.now / 1000 - rotatedAt / 1000)
    (hprompt : s.now ≤ call.verifiedAt + lifetimeLeewaySeconds * 1000000)
    (hafter : run (step cfg) s (.rotate i :: after) = some t) :
    ∀ tok ∈ t.tokens, tok.claims.family = call.claims.family →
      ∀ exp, tok.claims.exp = some exp → exp ≤ s.now / 1000000 + maxLifetime →
      verify cfg t.cache t.now tok.claims = .expired ∨
        verify cfg t.cache t.now tok.claims = .revoked ∧
          ∃ family row, call.claims.family = some family ∧ t.db (.fam family) = some row ∧
            t.now < row.expiresAt := by
  intro tok htok hfamily exp hexp hlives
  have hsound : Sound s := .run hbefore
  obtain ⟨given, -, hclaims⟩ := hsound.given call (mem_of_getElem? hcall)
  obtain ⟨family, hsome⟩ : ∃ family, call.claims.family = some family := by
    rw [← hclaims, Claims.family]
    exact isSome_iff_exists.mp (by simp [given.jti_isSome])
  obtain ⟨u, hstep, hrun⟩ := run_cons_eq_some.mp hafter
  have hrevoked := familyRevoked_of_reuse hsound (.run hbefore) hcall hfirst hsame hrotated hage
    hprompt hsome hstep
  have hlate : FamilyRevoked family s.now t :=
    run_invariant (fun h hstep => h.step hstep) hrevoked hrun
  by_cases hexpired : verify cfg t.cache t.now tok.claims = .expired
  · exact .inl hexpired
  · obtain ⟨hverdict, row, hrow, hkept⟩ := hlate.rejects (hfamily.trans hsome) hexp hlives hexpired
    exact .inr ⟨hverdict, family, row, hsome, hrow, hkept⟩

/-- A token is refreshed, and verified for a second refresh `micros` later. -/
def refreshedTwice (micros : ℕ) : List Event :=
  [.generate 1 none none 7, .verify 0, .rotate 0, .mint 0 8, .tick micros, .verify 0]

def refreshedClaims : Claims :=
  {channelId := 1, jti := some 7, fam := some 7, iat := some 0, exp := some 1800}

theorem reuse_rejects_family_after_grace :
    ∃ s t, run (step {}) {} (refreshedTwice 31000000) = some s ∧
      run (step {}) s [.rotate 1, .prune] = some t ∧ t.tokens.length = 2 ∧
      ∀ tok ∈ t.tokens, verify {} t.cache t.now tok.claims = .expired ∨
        verify {} t.cache t.now tok.claims = .revoked ∧
          ∃ family row, some 7 = some family ∧ t.db (.fam family) = some row ∧
            t.now < row.expiresAt := by
  obtain ⟨s, hs, hcalls, hnow, t, ht, hlength, htokens⟩ : ∃ s,
      run (step {}) {} (refreshedTwice 31000000) = some s ∧
      s.refreshes = [⟨0, refreshedClaims, 0, .returned 0⟩,
        ⟨0, refreshedClaims, 31000000, .verified true⟩] ∧ s.now = 31000000 ∧
      ∃ t, run (step {}) s [.rotate 1, .prune] = some t ∧ t.tokens.length = 2 ∧
        ∀ tok ∈ t.tokens, tok.claims.family = some 7 ∧ tok.claims.exp = some 1800 := by
    decide +kernel
  refine ⟨s, t, hs, ht, hlength, fun tok htok => ?_⟩
  obtain ⟨hfamily, hexp⟩ := htokens tok htok
  exact reuse_rejects_family {} _ [.prune] s t hs 0 1 ⟨0, refreshedClaims, 0, .returned 0⟩
    ⟨0, refreshedClaims, 31000000, .verified true⟩ (by rw [hcalls]; rfl) (by rw [hcalls]; rfl) rfl 0
    rfl (by rw [hnow]; decide) (by rw [hnow]; decide) ht tok htok hfamily 1800 hexp
    (by rw [hnow]; decide)

/-- Half a millisecond over the grace period is not over it: the second refresh returns a token as
well, and the whole family verifies. A token with a longer life than the default, in whose family a
derived token was reused, verifies again when the family's row has expired. -/
theorem reuse_within_millisecond :
    (run (step {}) {} (refreshedTwice 30000500 ++ [.rotate 1, .mint 1 9])).any (fun t =>
      t.tokens.length = 3 ∧ t.tokens.all fun tok => verify {} t.cache t.now tok.claims = .ok) =
        true ∧
    (run (step {}) {} [.generate 1 none (some 7200) 7, .derive 0 8, .verify 1, .rotate 0, .mint 0 9,
      .tick 31000000, .verify 1, .rotate 1, .tick 1900000000]).any (fun t =>
      t.refreshes.all (fun call => call.phase.inFlight = false) ∧
        t.tokens.all fun tok => tok.claims.family = some 7 ∧
          (tok.claims.jti = some 7 → verify {} t.cache t.now tok.claims = .ok)) = true := by
  constructor <;> decide +kernel

end Converger.TokenRefreshes
