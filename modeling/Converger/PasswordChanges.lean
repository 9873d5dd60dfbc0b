import Converger.GuardedRuns
import Converger.KeyedLists

/-!
# Password changes and logins

A reset reads its token, changes the password in a transaction that deletes the tokens, and then
deletes the sessions. Nothing locks the token or the logins meanwhile, so what is verified before a
change and used after it is let through.
-/
namespace Converger.PasswordChanges
open GuardedRuns KeyedLists List Option

/-- Where a request of the user is. The passwords are numbered, and a login keeps the number of the
one it verified. -/
inductive Phase where
  /-- `get_user_by_token/2` has read the token, -/
  | found (token : ℕ)
  /-- and then the user. -/
  | checked (token : ℕ)
  /-- `change_own_password/4` after the check of the current password. -/
  | allowed (keep : Option ℕ)
  | committed (password : ℕ) (keep : Option ℕ)
  /-- The cookie of a login that waits for its code. -/
  | pending (password : ℕ)
  | authenticated (password : ℕ)
  | finished
deriving DecidableEq

def Phase.token : Phase → Option ℕ
  | .found token | .checked token => some token
  | _ => none

def Phase.login : Phase → Option ℕ
  | .pending password | .authenticated password => some password
  | _ => none

structure Session where
  id : ℕ
  password : ℕ

/-- The rows of one user and the requests. `resets` has the tokens of the resets that committed and
so return `:ok`, `changes` the returned changes: the password that was set and the session kept. -/
structure State where
  password : ℕ := 0
  tokens : List ℕ := []
  sessions : List Session := []
  requests : List Phase := []
  resets : List ℕ := []
  changes : List (ℕ × Option ℕ) := []

inductive Event where
  | deliver (token : ℕ)
  | expire (token : ℕ)
  | resetPassword (token : ℕ)
  | changeOwnPassword (keep : Option ℕ)
  | logIn (twoFactor : Bool)
  | advance (i : ℕ) (ok : Bool)

def State.goto (s : State) (i : ℕ) (p : Phase) : State := {s with requests := s.requests.set i p}

/-- The transaction of a reset or a change. -/
def State.commit (s : State) (i : ℕ) (keep : Option ℕ) : State :=
  {s with password := s.password + 1, tokens := []}.goto i (.committed (s.password + 1) keep)

/-- The next statement of a request; `ok` says whether the user is active and has the email of the
token, the new password is valid, the code of the second factor is right and in time. -/
def next (s : State) (i : ℕ) : Phase → Bool → Option State
  | .found token, true => some (s.goto i (.checked token))
  | .checked token, true => some ({s with resets := s.resets ++ [token]}.commit i none)
  | .allowed keep, true => some (s.commit i keep)
  | .found _, false | .checked _, false | .allowed _, false | .pending _, false =>
    some (s.goto i .finished)
  -- `Sessions.delete_all/3`
  | .committed password keep, _ => some ({s with
      sessions := s.sessions.filter (some ·.id = keep)
      changes := s.changes ++ [(password, keep)]}.goto i .finished)
  | .pending password, true => some {s with requests := s.requests ++ [.authenticated password]}
  | .authenticated password, _ => some ({s with
      sessions := s.sessions ++ [Session.mk i password]}.goto i .finished)
  | .finished, _ => none

/-- A token is random, so it is none that was used. -/
def step (s : State) : Event → Option State
  | .deliver token =>
    if token ∈ s.resets then none else some {s with tokens := s.tokens ++ [token]}
  | .expire token => some {s with tokens := s.tokens.filter (· ≠ token)}
  | .resetPassword token =>
    if token ∈ s.tokens then some {s with requests := s.requests ++ [.found token]} else some s
  | .changeOwnPassword keep => some {s with requests := s.requests ++ [.allowed keep]}
  | .logIn twoFactor => some { s with requests := s.requests ++
      [if twoFactor then .pending s.password else .authenticated s.password]}
  | .advance i ok => s.requests[i]?.bind fun p => next s i p ok

/-- No reset starts while another one has read its token and not committed, and no login with an
older password is under way, or waits for its code, when the sessions are deleted. -/
def Apart (s : State) : Event → Bool
  | .resetPassword token => s.requests.all (·.token ≠ some token)
  | .advance i _ => match s.requests[i]? with
    | some (.committed password _) => s.requests.all (·.login.all (password ≤ ·))
    | _ => true
  | _ => true

/-- A token is read by one call or used by one, and is deleted when it is used. -/
def Once (s : State) : Prop :=
  ∀ token, s.resets.count token + s.requests.countP (·.token = some token) ≤ 1 ∧
    (token ∈ s.tokens → token ∉ s.resets)

/-- What is left of older passwords after a change has returned. -/
structure Ended (s : State) (change : ℕ × Option ℕ) : Prop where
  set : change.1 ≤ s.password
  logins : ∀ p ∈ s.requests, ∀ password, p.login = some password → change.1 ≤ password
  sessions : ∀ x ∈ s.sessions, x.password < change.1 → change.2 = some x.id

structure Inv (s : State) : Prop where
  once : Once s
  committed : ∀ password keep, .committed password keep ∈ s.requests → password ≤ s.password
  ended : ∀ change ∈ s.changes, Ended s change

variable {s t : State} {i : ℕ} {p : Phase} {ok : Bool}

theorem Once.next (h : Once s) (hi : s.requests[i]? = some p) (ht : next s i p ok = some t) :
    Once t := by
  intro token
  have hcount := fun q => countP_set_add (f := fun c : Phase => c.token = some token) hi q
  obtain ⟨hone, hfresh⟩ := h token
  unfold PasswordChanges.next at ht
  split at ht <;> cases ht
  all_goals
    simp only [State.goto, State.commit, count_append, countP_append]
    grind [Phase.token]

theorem Ended.next {change : ℕ × Option ℕ} (h : Ended s change) (hi : s.requests[i]? = some p)
    (ht : next s i p ok = some t) : Ended t change := by
  have hlogin := h.logins p (mem_of_getElem? hi)
  unfold PasswordChanges.next at ht
  split at ht <;> cases ht
  all_goals
    obtain ⟨hset, hlogins, hsessions⟩ := h
    constructor
  all_goals
    simp only [State.goto, State.commit]
    grind [Phase.login, mem_or_eq_of_mem_set]

theorem Inv.next (h : Inv s) (hi : s.requests[i]? = some p)
    (hapart : Apart s (.advance i ok) = true) (ht : next s i p ok = some t) : Inv t := by
  refine ⟨h.once.next hi ht, ?_, ?_⟩
  · have hcommitted := h.committed
    unfold PasswordChanges.next at ht
    split at ht <;> cases ht
    all_goals
      simp only [State.goto, State.commit]
      grind [mem_or_eq_of_mem_set]
  · intro change hchange
    by_cases hold : change ∈ s.changes
    · exact (h.ended change hold).next hi ht
    · cases p with
      | committed password keep =>
        cases ht
        have heq : change = (password, keep) := by simpa [State.goto, hold] using hchange
        have hlogins : ∀ c ∈ s.requests, c.login.all (password ≤ ·) = true := by
          simpa [Apart, hi] using hapart
        subst heq
        refine ⟨h.committed password keep (mem_of_getElem? hi), fun c hc n hn => ?_, ?_⟩
        · rcases mem_or_eq_of_mem_set hc with hc | rfl
          · simpa [hn] using hlogins c hc
          · cases hn
        · intro x hx _
          exact (of_decide_eq_true (mem_filter.mp hx).2).symm
      | found | checked | allowed | pending | authenticated | finished =>
        cases ok <;> cases ht <;> exact absurd hchange hold

theorem Inv.start (h : Inv s) (hcommitted : ∀ password keep, p ≠ .committed password keep)
    (hlogin : ∀ password, p.login = some password → password = s.password)
    (htoken : ∀ token, p.token = some token → token ∉ s.resets ∧ ∀ c ∈ s.requests, c.token ≠ some token) :
    Inv {s with requests := s.requests ++ [p]} := by
  refine ⟨fun token => ?_, fun password keep hmem => ?_, fun change hchange => ?_⟩
  · have hold := h.once token
    have hnone := htoken token
    simp only [countP_append, countP_singleton]
    grind [countP_eq_zero]
  · rcases mem_snoc.mp hmem with hmem | hmem
    · exact h.committed password keep hmem
    · exact absurd hmem.symm (hcommitted password keep)
  · have hold := h.ended change hchange
    refine ⟨hold.set, forall_mem_snoc hold.logins ?_, hold.sessions⟩
    intro password hpassword
    exact hlogin password hpassword ▸ hold.set

theorem Inv.step {e : Event} (h : Inv s) (hapart : Apart s e = true) (ht : step s e = some t) :
    Inv t := by
  have hended : ∀ tokens, ∀ change ∈ s.changes, Ended {s with tokens} change :=
    fun _ change hchange => {h.ended change hchange with}
  cases e with
  | deliver token =>
    obtain ⟨hnew, ht⟩ := ite_none_left_eq_some.mp ht
    cases ht
    refine ⟨fun other => ⟨(h.once other).1, ?_⟩, h.committed, hended _⟩
    have hother := (h.once other).2
    grind
  | expire token =>
    cases ht
    exact ⟨fun other => ⟨(h.once other).1, fun hmem => (h.once other).2 (mem_filter.mp hmem).1⟩,
      h.committed, hended _⟩
  | resetPassword token =>
    simp only [PasswordChanges.step] at ht
    split at ht <;> cases ht
    · rename_i hmem
      refine h.start nofun nofun ?_
      rintro _ ⟨⟩
      exact ⟨(h.once token).2 hmem, by simpa [Apart] using hapart⟩
    · exact h
  | changeOwnPassword keep =>
    cases ht
    exact h.start nofun nofun nofun
  | logIn twoFactor =>
    cases ht
    cases twoFactor
    all_goals
      refine h.start nofun ?_ nofun
      rintro _ ⟨⟩
      rfl
  | advance i ok =>
    obtain ⟨p, hi, ht⟩ := bind_eq_some_iff.mp ht
    exact h.next hi hapart ht

/-- A token resets the password at most once, and of the logins that verified an older password none
has a session after a change has returned but the one that the change keeps. -/
theorem password_changes_end_sessions (es : List Event) (s : State)
    (h : run PasswordChanges.step {} es = some s)
    (hapart : Along PasswordChanges.step (Apart · · = true) {} es) :
    (∀ token, s.resets.count token ≤ 1) ∧
      ∀ password keep, (password, keep) ∈ s.changes → ∀ x ∈ s.sessions, x.password < password →
        keep = some x.id := by
  have hinv : Inv s := by
    refine run_invariant_along (fun hs he ht => hs.step he ht) ?_ hapart h
    exact ⟨fun _ => ⟨Nat.zero_le 1, nofun⟩, by simp, by simp⟩
  exact ⟨fun token => Nat.le_of_add_right_le (hinv.once token).1,
    fun password keep hmem => (hinv.ended _ hmem).sessions⟩

/-- A login with a code, and a reset when the pending login has run out. -/
def reset : List Event := [.logIn true, .advance 0 true, .advance 1 true, .advance 0 false, .deliver 7,
  .resetPassword 7, .advance 2 true, .advance 2 true, .advance 2 true]

theorem password_changes_end_sessions_reset : ∃ s, run PasswordChanges.step {} reset = some s ∧
    s.resets.count 7 ≤ 1 ∧ ∀ x ∈ s.sessions, ¬x.password < 1 := by
  have hrun : (run PasswordChanges.step {} reset).any (fun s => (1, none) ∈ s.changes) = true := by decide
  obtain ⟨s, hs, hchange⟩ := (any_eq_true _ _).mp hrun
  obtain ⟨honce, hended⟩ := password_changes_end_sessions reset s hs (by decide)
  refine ⟨s, hs, honce 7, fun x hx hlt => ?_⟩
  cases hended 1 none (of_decide_eq_true hchange) x hx hlt

/-- The token is read by two calls before the first commits, and the code of the pending login comes
after both have returned. -/
theorem token_used_twice_and_login_completed :
    (run PasswordChanges.step {} ([.logIn true, .deliver 7, .resetPassword 7, .resetPassword 7] ++
      [1, 2, 1, 2, 1, 2, 0, 3].map (.advance · true))).any
        (fun s => s.resets.count 7 = 2 ∧ (2, none) ∈ s.changes ∧ s.sessions.map (·.password) = [0]) = true := by
  decide

end Converger.PasswordChanges
