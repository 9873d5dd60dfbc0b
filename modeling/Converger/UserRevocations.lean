import Converger.TokenReuse

/-!
# Refreshes of a revoked user

After `revoke_user/3` the user's tokens fail the user check, and a refresh of one should be refused
like any other use. A refresh that was verified before the revocation is not. A token that was
rotated too long ago does not come to the user check, but the rotation refuses it, since the row that
the verification saw in the cache is still stored.
-/
namespace Converger.TokenRefreshes
open Revocations GuardedRuns List

/-- As the revocation of a user completes, no refresh of the user is under way, and the tokens the
user holds were issued up to the time the revocation read from the clock and do not outlive its
row. -/
def Settled (s : State) (rev : UserRevocation) : Prop :=
  (∀ call ∈ s.refreshes, OfUser call.claims rev.channelId rev.userId →
    call.phase.inFlight = false) ∧
    ∀ tok ∈ s.tokens, OfUser tok.claims rev.channelId rev.userId →
      tok.issuedAt / 1000000 * 1000 ≤ rev.revokedAt / 1000 ∧
        ∀ exp ∈ tok.claims.exp, exp * 1000 ≤ rev.revokedAt / 1000 + maxLifetime * 1000

instance (s : State) (rev : UserRevocation) : Decidable (Settled s rev) :=
  inferInstanceAs (Decidable (_ ∧ _))

/-- A refresh of a token that was rotated too long ago comes to its rotation within a minute, and a
revocation of a user is not older than the cached one. -/
def Orderly (s : State) : Event → Prop
  | .rotate i => ∀ call ∈ s.refreshes[i]?, call.phase = .verified true →
      s.now ≤ call.verifiedAt + lifetimeLeewaySeconds * 1000000
  | .finishRevokeUser j => ∀ rev ∈ s.revocations[j]?,
      ∀ entry ∈ s.cache (.user rev.channelId rev.userId), entry.revokedAt ≤ rev.revokedAt / 1000
  | _ => True

instance (s : State) : ∀ e, Decidable (Orderly s e)
  | .rotate i => inferInstanceAs (Decidable (∀ call ∈ s.refreshes[i]?, _))
  | .finishRevokeUser j => inferInstanceAs (Decidable (∀ rev ∈ s.revocations[j]?, _))
  | .tick _ | .generate .. | .derive .. | .verify _ | .mint .. | .beginRevokeUser ..
  | .revokeFamily _ | .prune => .isTrue trivial

/-! ### What a verification saw is stored -/

/-- A cached rotation is one of an issued token, and it is stored until a minute after the token
expires. So is the rotation that a verification took to be too long ago. -/
structure Mirrored (cfg : Config) (s : State) : Prop where
  issued : ∀ jti entry, s.cache (.jti jti) = some entry →
    ∃ tok ∈ s.tokens, tok.claims.jti = some jti
  stored : ∀ jti entry, s.cache (.jti jti) = some entry →
    ∀ tok ∈ s.tokens, tok.claims.jti = some jti → ∀ exp, tok.claims.exp = some exp →
    s.now < (exp + lifetimeLeewaySeconds) * 1000000 →
    ∃ row, s.db (.jti jti) = some row ∧ row.entry = entry
  seen : ∀ call ∈ s.refreshes, ∀ jti exp, call.phase = .verified true →
    call.claims.jti = some jti → call.claims.exp = some exp →
    s.now < (exp + lifetimeLeewaySeconds) * 1000000 →
    ∃ row, s.db (.jti jti) = some row ∧ row.revokedAt / 1000 + cfg.graceMs < s.now / 1000

theorem rotated_of_verified {cfg : Config} {s : State} {c : Claims} {jti : Uuid}
    (hjti : c.jti = some jti) (h : verified (verify cfg s.cache s.now c) = .verified true) :
    ∃ entry, s.cache (.jti jti) = some entry ∧ entry.revokedAt + cfg.graceMs < s.now / 1000 := by
  have hrotated : rotated cfg s.cache s.now c = true := by
    cases hverdict : verify cfg s.cache s.now c with
    | rotated =>
      unfold verify check at hverdict
      grind
    | ok | expired | revoked => simp [hverdict, verified] at h
  simp only [rotated, hjti, Revocations.lookup] at hrotated
  cases hentry : s.cache (.jti jti) with
  | none => simp [hentry] at hrotated
  | some entry =>
    refine ⟨entry, rfl, ?_⟩
    rw [hentry] at hrotated
    by_cases hlive : s.now / 1000 < entry.expiresAt
    · simpa [hlive] using hrotated
    · simp [hlive] at hrotated

namespace Mirrored
variable {cfg : Config} {s t : State} {e : Event}

section
variable (h : Mirrored cfg s)
include h

theorem of_eq (hnow : t.now = s.now) (htokens : t.tokens = s.tokens)
    (hcalls : t.refreshes = s.refreshes) (hcache : ∀ jti, t.cache (.jti jti) = s.cache (.jti jti))
    (hdb : ∀ jti, t.db (.jti jti) = s.db (.jti jti)) : Mirrored cfg t where
  issued := by simp only [hcache, htokens]; exact h.issued
  stored := by simp only [hcache, htokens, hnow, hdb]; exact h.stored
  seen := by simp only [hcalls, hnow, hdb]; exact h.seen

theorem store (row : Row) (hkey : ∀ jti, row.key ≠ .jti jti) : Mirrored cfg (s.store row) :=
  h.of_eq rfl rfl rfl (fun jti => store_cache_of_ne (hkey jti).symm)
    fun jti => store_db_of_ne (hkey jti).symm

theorem revokeFamily (c : Claims) : Mirrored cfg (s.revokeFamily c) :=
  revokeFamily_induction c h fun _ => h.store _ fun _ => Key.noConfusion

theorem issue (tok : Token) (hfresh : ∀ old ∈ s.tokens, old.claims.jti ≠ tok.claims.jti) :
    Mirrored cfg { s with tokens := s.tokens ++ [tok] } where
  issued jti entry hentry := by
    obtain ⟨old, hold, hjti⟩ := h.issued jti entry hentry
    exact ⟨old, mem_append_left _ hold, hjti⟩
  stored jti entry hentry tok' htok' hjti := by
    obtain hold | rfl := mem_snoc.mp htok'
    · exact h.stored jti entry hentry tok' hold hjti
    · obtain ⟨old, hold, hsame⟩ := h.issued jti entry hentry
      exact absurd (hsame.trans hjti.symm) (hfresh old hold)
  seen := h.seen

theorem setPhase {i : ℕ} {call : Refresh} {phase : Phase} (hphase : phase ≠ .verified true) :
    Mirrored cfg (s.setPhase i call phase) where
  issued := h.issued
  stored := h.stored
  seen := forall_mem_set h.seen fun _ _ heq => absurd heq hphase

theorem storeRotation {tok : Token} {jti : Uuid} (htok : tok ∈ s.tokens)
    (hjti : tok.claims.jti = some jti) (hnone : s.db (.jti jti) = none) :
    Mirrored cfg (s.store (Revocations.rotation tok.claims jti s.now)) := by
  have hne : ∀ {jti'}, jti' ≠ jti →
      Key.jti jti' ≠ (Revocations.rotation tok.claims jti s.now).key := by
    intro jti' hkey
    simpa [Revocations.rotation] using hkey
  refine ⟨fun jti' entry hentry => ?_, fun jti' entry hentry tok' htok' hjti' exp hexp hnow => ?_,
    fun call hcall jti' exp hphase hjti' hexp hnow => ?_⟩
  · by_cases hkey : jti' = jti
    · exact ⟨tok, htok, hkey ▸ hjti⟩
    · rw [store_cache_of_ne (hne hkey)] at hentry
      exact h.issued jti' entry hentry
  · by_cases hkey : jti' = jti
    · subst hkey
      cases (store_cache_self s (Revocations.rotation tok.claims jti' s.now)).symm.trans hentry
      exact ⟨_, store_db_self s (Revocations.rotation tok.claims jti' s.now), rfl⟩
    · rw [store_cache_of_ne (hne hkey)] at hentry
      rw [store_db_of_ne (hne hkey)]
      exact h.stored jti' entry hentry tok' htok' hjti' exp hexp hnow
  · obtain ⟨row, hrow, hlong⟩ := h.seen call hcall jti' exp hphase hjti' hexp hnow
    refine ⟨row, ?_, hlong⟩
    rw [store_db_of_ne (hne ?_), hrow]
    rintro rfl
    cases hnone.symm.trans hrow

/-- Pruning leaves the rows of the tokens that expired less than a minute ago. -/
theorem prune (hsound : Sound s) (hrecorded : Recorded s) :
    Mirrored cfg { s with db := fun key => (s.db key).filter (s.now < ·.expiresAt) } := by
  have hkept : ∀ {jti row tok exp}, s.db (.jti jti) = some row → tok ∈ s.tokens →
      tok.claims.jti = some jti → tok.claims.exp = some exp →
      s.now < (exp + lifetimeLeewaySeconds) * 1000000 → s.now < row.expiresAt := by
    intro jti row tok exp hrow htok hjti hexp hnow
    obtain ⟨-, -, other, hother, hjti', hexpires⟩ := hrecorded.rows jti row hrow
    have hsame := hrecorded.distinct other hother tok htok (hjti'.trans hjti.symm)
    rwa [hexpires exp (hsame ▸ hexp)]
  refine ⟨h.issued, fun jti entry hentry tok htok hjti exp hexp hnow => ?_,
    fun call hcall jti exp hphase hjti hexp hnow => ?_⟩
  · obtain ⟨row, hrow, heq⟩ := h.stored jti entry hentry tok htok hjti exp hexp hnow
    exact ⟨row, by simp [hrow, hkept hrow htok hjti hexp hnow], heq⟩
  · obtain ⟨row, hrow, hlong⟩ := h.seen call hcall jti exp hphase hjti hexp hnow
    obtain ⟨tok, htok, hclaims⟩ := hsound.given call hcall
    have hlive := hkept hrow (mem_of_getElem? htok) (hclaims ▸ hjti) (hclaims ▸ hexp) hnow
    exact ⟨row, by simp [hrow, hlive], hlong⟩

theorem verify {k : ℕ} {tok : Token} (htok : s.tokens[k]? = some tok) :
    Mirrored cfg { s with
      refreshes := s.refreshes ++
        [⟨k, tok.claims, s.now, verified (Revocations.verify cfg s.cache s.now tok.claims)⟩] } where
  issued := h.issued
  stored := h.stored
  seen := by
    refine forall_mem_snoc h.seen fun jti exp hphase hjti hexp hnow => ?_
    obtain ⟨entry, hentry, hlong⟩ := rotated_of_verified hjti hphase
    obtain ⟨row, hrow, rfl⟩ :=
      h.stored jti entry hentry tok (mem_of_getElem? htok) hjti exp hexp hnow
    exact ⟨row, hrow, hlong⟩

theorem rotate {i : ℕ} {call : Refresh} (hsound : Sound s) (hcall : s.refreshes[i]? = some call) :
    Mirrored cfg ((s.rotate cfg call.claims).1.setPhase i call
      (if (s.rotate cfg call.claims).2 then .rotated s.now else .refused)) := by
  obtain ⟨tok, htok, hclaims⟩ := hsound.given call (mem_of_getElem? hcall)
  obtain ⟨jti, hjti⟩ := Option.isSome_iff_exists.mp tok.jti_isSome
  obtain ⟨hnone, hrotate⟩ | ⟨row, hrow, ⟨-, hrotate⟩ | ⟨-, hrotate⟩⟩ :=
    rotate_cases cfg s (hclaims ▸ hjti : call.claims.jti = some jti) <;> simp only [hrotate]
  · rw [← hclaims]
    exact (h.storeRotation (mem_of_getElem? htok) hjti hnone).setPhase (by simp)
  · exact h.setPhase (by simp)
  · exact (h.revokeFamily _).setPhase (by simp)

theorem step (hsound : Sound s) (hrecorded : Recorded s) (hstep : step cfg s e = some t) :
    Mirrored cfg t := by
  cases step_effect hstep with
  | tick micros =>
    refine ⟨h.issued, fun jti entry hentry tok htok hjti exp hexp hnow => ?_,
      fun call hcall jti exp hphase hjti hexp hnow => ?_⟩
    · exact h.stored jti entry hentry tok htok hjti exp hexp
        (Nat.lt_of_le_of_lt (Nat.le_add_right _ _) hnow)
    · obtain ⟨row, hrow, hlong⟩ := h.seen call hcall jti exp hphase hjti hexp
        (Nat.lt_of_le_of_lt (Nat.le_add_right _ _) hnow)
      exact ⟨row, hrow, Nat.lt_of_lt_of_le hlong (Nat.div_le_div_right (Nat.le_add_right _ _))⟩
  | generate tok hnow hfresh | derive tok hnow hfresh => exact h.issue tok hfresh
  | verify htok => exact h.verify htok
  | rotate hcall hphase => exact h.rotate hsound hcall
  | mint hcall hphase tok hnow hfresh => exact (h.issue tok hfresh).setPhase (by simp)
  | beginRevokeUser rev => exact h.of_eq rfl rfl rfl (fun _ => rfl) fun _ => rfl
  | @finishRevokeUser j rev hrev =>
    have hstored := h.store (revocation (.user rev.channelId rev.userId) rev.revokedAt)
      (by simp [revocation])
    exact hstored.of_eq rfl rfl rfl (fun _ => rfl) fun _ => rfl
  | revokeFamily k c => exact h.revokeFamily c
  | prune => exact h.prune hsound hrecorded

/-- A refresh of a token that was rotated too long ago is refused if it comes to its rotation within
a minute. -/
theorem rotate_refuses {i : ℕ} {call : Refresh} (hsound : Sound s)
    (hcall : s.refreshes[i]? = some call) (hphase : call.phase = .verified true)
    (hprompt : s.now ≤ call.verifiedAt + lifetimeLeewaySeconds * 1000000) :
    (s.rotate cfg call.claims).2 = false := by
  obtain ⟨tok, htok, hclaims⟩ := hsound.given call (mem_of_getElem? hcall)
  obtain ⟨jti, hjti⟩ := Option.isSome_iff_exists.mp tok.jti_isSome
  obtain ⟨exp, hexp⟩ := Option.isSome_iff_exists.mp tok.exp_isSome
  rw [hclaims] at hjti hexp
  have hverified := hsound.unexpired call (mem_of_getElem? hcall) exp (by rw [hphase]; rfl) hexp
  have hlive : s.now < (exp + lifetimeLeewaySeconds) * 1000000 := by
    simp only [lifetimeLeewaySeconds] at hprompt ⊢
    omega
  obtain ⟨row, hrow, hlong⟩ :=
    h.seen call (mem_of_getElem? hcall) jti exp hphase hjti hexp hlive
  have hgrace : withinGrace cfg s.now row = false := by
    simp only [withinGrace, decide_eq_false_iff_not, not_and, Nat.not_le]
    omega
  simp [State.rotate, hjti, hrow, hgrace]

end

theorem run {events : List Event} (hrun : run (TokenRefreshes.step cfg) {} events = some t) :
    Mirrored cfg t := by
  have hkeeps : ∀ {m e m'}, Mirrored cfg m ∧ Recorded m ∧ Sound m →
      TokenRefreshes.step cfg m e = some m' → Mirrored cfg m' ∧ Recorded m' ∧ Sound m' := by
    rintro m e m' ⟨h, hrecorded, hsound⟩ hstep
    exact ⟨h.step hsound hrecorded hstep, hrecorded.step hsound hstep, hsound.step hstep⟩
  exact (run_invariant hkeeps
    ⟨⟨by simp, by simp, by simp⟩, ⟨by simp, by simp, by simp⟩, ⟨by simp, by simp⟩⟩ hrun).1

end Mirrored

/-! ### Revoked users -/

def Covers (entry : Entry) (tok : Token) : Prop :=
  tok.issuedAt / 1000000 * 1000 ≤ entry.revokedAt ∧
    ∀ exp ∈ tok.claims.exp, exp * 1000 ≤ entry.expiresAt

/-- The user's tokens among the first `n` are covered by the cached revocation, and no refresh of one
comes further than the verification. -/
structure Barred (channelId : Uuid) (userId : String) (n : ℕ) (s : State) : Prop where
  issued : n ≤ s.tokens.length
  entry : ∃ entry, s.cache (.user channelId userId) = some entry ∧
    entry.expiresAt = entry.revokedAt + maxLifetime * 1000 ∧
    ∀ k < n, ∀ tok, s.tokens[k]? = some tok → OfUser tok.claims channelId userId → Covers entry tok
  calls : ∀ call ∈ s.refreshes, call.token < n → OfUser call.claims channelId userId →
    call.phase = .verified true ∨ call.phase.inFlight = false

section Cached
variable {cfg : Config} {s : State} {channelId : Uuid} {userId : String}

theorem covers_revocation {key : Key} {revokedAt : ℕ} {tok : Token}
    (h : tok.issuedAt / 1000000 * 1000 ≤ revokedAt / 1000)
    (hexp : ∀ exp ∈ tok.claims.exp, exp * 1000 ≤ revokedAt / 1000 + maxLifetime * 1000) :
    Covers (revocation key revokedAt).entry tok := by
  constructor
  · simpa only [revocation, Row.entry] using h
  · rw [revocation_entry_expiresAt]
    exact hexp

theorem verified_of_covers {entry : Entry} {tok : Token} (huser : OfUser tok.claims channelId userId)
    (hentry : s.cache (.user channelId userId) = some entry) (hcovers : Covers entry tok) :
    verified (verify cfg s.cache s.now tok.claims) = .verified true ∨
      verified (verify cfg s.cache s.now tok.claims) = .refused := by
  by_cases hexpired : verify cfg s.cache s.now tok.claims = .expired
  · exact .inr (by rw [hexpired]; rfl)
  · obtain ⟨exp, hexp⟩ := Option.isSome_iff_exists.mp tok.exp_isSome
    obtain ⟨hlt, hcheck⟩ := lt_of_verify_ne_expired hexp hexpired
    have hlive : s.now / 1000 < entry.expiresAt := by
      have := hcovers.2 exp hexp
      omega
    rw [← huser.1] at hentry
    have hne : check cfg s.cache s.now tok.claims ≠ .ok :=
      check_ne_ok_of_user huser.2 tok.iat_eq hentry hlive hcovers.1
    rw [hcheck]
    cases hverdict : check cfg s.cache s.now tok.claims with
    | ok => exact absurd hverdict hne
    | expired | revoked => exact .inr rfl
    | rotated => exact .inl rfl

theorem rotate_cache_user (c : Claims) :
    (s.rotate cfg c).1.cache (.user channelId userId) = s.cache (.user channelId userId) :=
  rotate_induction (P := (·.cache (.user channelId userId) = s.cache (.user channelId userId))) c rfl
    (fun _ => store_cache_of_ne Key.noConfusion) fun _ => store_cache_of_ne Key.noConfusion

end Cached

namespace Barred
variable {cfg : Config} {s t : State} {channelId : Uuid} {userId : String} {n : ℕ}
  {e : Event}

variable (h : Barred channelId userId n s)
include h

theorem setPhase {i : ℕ} {call : Refresh} {phase : Phase}
    (hphase : call.token < n → OfUser call.claims channelId userId →
      phase = .verified true ∨ phase.inFlight = false) :
    Barred channelId userId n (s.setPhase i call phase) where
  issued := h.issued
  entry := h.entry
  calls := forall_mem_set h.calls hphase

theorem issue (tok : Token) :
    Barred channelId userId n {s with tokens := s.tokens ++ [tok]} where
  issued := by
    have := h.issued
    simp only [length_append]
    omega
  entry := by
    obtain ⟨entry, hentry, hlife, hcovers⟩ := h.entry
    refine ⟨entry, hentry, hlife, fun k hk old hold => ?_⟩
    rw [getElem?_append_left (Nat.lt_of_lt_of_le hk h.issued)] at hold
    exact hcovers k hk old hold
  calls := h.calls

theorem of_eq (htokens : t.tokens = s.tokens)
    (hcalls : t.refreshes = s.refreshes)
    (hcache : t.cache (.user channelId userId) = s.cache (.user channelId userId)) :
    Barred channelId userId n t where
  issued := htokens ▸ h.issued
  entry := by rw [hcache, htokens]; exact h.entry
  calls := by rw [hcalls]; exact h.calls

theorem revokeUser {rev : UserRevocation} {revs : List UserRevocation}
    (hlater : ∀ entry ∈ s.cache (.user rev.channelId rev.userId),
      entry.revokedAt ≤ rev.revokedAt / 1000) :
    Barred channelId userId n
      {s.store (revocation (.user rev.channelId rev.userId) rev.revokedAt) with
        revocations := revs} := by
  by_cases hkey : (Key.user channelId userId) = .user rev.channelId rev.userId
  · cases hkey
    refine ⟨h.issued, ⟨_, store_cache_self s (revocation _ rev.revokedAt),
      revocation_entry_expiresAt _ _, fun k hk tok htok huser => ?_⟩, h.calls⟩
    obtain ⟨entry, hentry, hlife, hcovers⟩ := h.entry
    have hle := hlater entry hentry
    obtain ⟨hissued, hexp⟩ := hcovers k hk tok htok huser
    refine covers_revocation (Nat.le_trans hissued hle) fun exp hmem => ?_
    exact Nat.le_trans (hexp exp hmem) (hlife ▸ Nat.add_le_add_right hle _)
  · exact h.of_eq rfl rfl (store_cache_of_ne hkey)

theorem step (hsound : Sound s) (hmirrored : Mirrored cfg s) (he : Orderly s e)
    (hstep : step cfg s e = some t) : Barred channelId userId n t := by
  cases step_effect hstep with
  | tick micros | beginRevokeUser rev | prune => exact h.of_eq rfl rfl rfl
  | generate tok hnow hfresh | derive tok hnow hfresh => exact h.issue tok
  | @verify k tok htok =>
    refine ⟨h.issued, h.entry, forall_mem_snoc h.calls fun hissued huser => ?_⟩
    obtain ⟨entry, hentry, -, hcovers⟩ := h.entry
    refine (verified_of_covers huser hentry (hcovers k hissued tok htok huser)).imp_right ?_
    intro hrefused
    simp only [hrefused, Phase.inFlight]
  | @rotate i call seen hcall hphase =>
    refine (h.of_eq (rotate_tokens _) (rotate_refreshes _) (rotate_cache_user _)).setPhase ?_
    intro hissued huser
    -- only a call that saw its token rotated comes here, and the rotation refuses that one
    have hseen : call.phase = .verified true := by
      obtain htrue | hflight := h.calls call (mem_of_getElem? hcall) hissued huser
      · exact htrue
      · simp [hphase, Phase.inFlight] at hflight
    rw [hmirrored.rotate_refuses hsound hcall hseen (he call hcall hseen)]
    exact .inr rfl
  | mint hcall hphase tok hnow hfresh =>
    exact (h.issue tok).setPhase fun _ _ => .inr rfl
  | finishRevokeUser hrev => exact h.revokeUser (he _ hrev)
  | revokeFamily k c =>
    exact revokeFamily_induction c h fun _ => h.of_eq rfl rfl (store_cache_of_ne Key.noConfusion)

end Barred

end Converger.TokenRefreshes
