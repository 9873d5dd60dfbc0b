import Converger.GuardedRuns
import Converger.Revocations

/-!
# The revocation cache of a node

`Converger.Auth.RevocationCache`: the table of a node is written by the processes that revoke on this
node, by the broadcasts of every node, its own included, and by the periodic sync, which reads the
database and inserts what it has read in another step. The last writer of a key wins, whichever row
it writes. Broadcasts arrive in any order or not at all; the cache process handles them and the sync
one at a time.
-/
namespace Converger.RevocationCache
open Function GuardedRuns List Option Revocations

def overlapMs : ℕ := 120000

structure Sync where
  rows : Key → Option Row
  started : ℕ

/-- `publishes` are rows that a process of this node has stored and not yet inserted, `broadcasts`
those on their way to the cache process. `syncedAt` is the time of the last sync; the overlap is
taken into account when it is compared. -/
structure State where
  now : ℕ := 0
  db : Key → Option Row := fun _ => none
  table : Cache := fun _ => none
  publishes : List Row := []
  broadcasts : List Row := []
  sync : Option Sync := none
  syncedAt : Option ℕ := none

/-- `insert/1` of one row. -/
def insert (table : Cache) (row : Row) : Cache := update table row.key (some row.entry)

/-- `insert/1` of the rows a sync has read. -/
def insertAll (table : Cache) (rows : Key → Option Row) : Cache :=
  fun key => ((rows key).map Row.entry).or (table key)

/-- The `select_delete` of a sync. -/
def deleteExpired (table : Cache) (started : ℕ) : Cache :=
  fun key => (table key).filter (started / 1000 < ·.expiresAt)

def readRows (s : State) (key : Key) : Option Row :=
  (s.db key).filter fun row => s.now < row.expiresAt ∧
    ∀ syncedAt ∈ s.syncedAt, syncedAt < row.revokedAt + overlapMs * 1000

/-- A row is stored by a process of this node (`home`) or of another one. -/
def State.write (s : State) (row : Row) (home : Bool) : State :=
  {s with
    db := update s.db row.key (some row)
    publishes := if home then s.publishes ++ [row] else s.publishes
    broadcasts := if home then s.broadcasts else s.broadcasts ++ [row]}

/-- The key of a family or a user, whose rows are replaced by later revocations. -/
def revocable : Key → Bool
  | .fam _ | .user .. => true
  | .jti _ => false

inductive Event where
  | tick (micros : ℕ)
  /-- `revoke_family/1` or `revoke_user/3`, at the time it read from its clock. -/
  | revoke (key : Key) (revokedAt : ℕ) (home : Bool)
  | rotate (c : Claims) (jti : Uuid) (rotatedAt : ℕ) (home : Bool)
  | publish (i : ℕ)
  | deliver (i : ℕ)
  | lose (i : ℕ)
  | syncRead
  | syncInsert
  | syncFail
  | prune

def step (s : State) : Event → Option State
  | .tick micros => some {s with now := s.now + micros}
  | .revoke key revokedAt home =>
    if revocable key then some (s.write (revocation key revokedAt) home) else none
  | .rotate c jti rotatedAt home =>
    match s.db (.jti jti) with
    | some _ => some s
    | none => some (s.write (Revocations.rotation c jti rotatedAt) home)
  | .publish i => do
    let row ← s.publishes[i]?
    return {s with
      table := insert s.table row
      publishes := s.publishes.eraseIdx i
      broadcasts := s.broadcasts ++ [row]}
  | .deliver i => do
    let row ← s.broadcasts[i]?
    if s.sync.isSome then none
    else return {s with table := insert s.table row, broadcasts := s.broadcasts.eraseIdx i}
  | .lose i => some {s with broadcasts := s.broadcasts.eraseIdx i}
  | .syncRead =>
    if s.sync.isSome then none else some {s with sync := some ⟨readRows s, s.now⟩}
  | .syncInsert => do
    let sync ← s.sync
    return {s with
      table := deleteExpired (insertAll s.table sync.rows) sync.started
      sync := none
      syncedAt := some sync.started}
  | .syncFail => some {s with sync := none}
  | .prune => some {s with db := fun key => (s.db key).filter (s.now < ·.expiresAt)}

def written (s : State) : Event → Option (Row × Bool)
  | .revoke key revokedAt home => some (revocation key revokedAt, home)
  | .rotate c jti rotatedAt home =>
    if s.db (.jti jti) = none then some (Revocations.rotation c jti rotatedAt, home) else none
  | _ => none

/-- A copy of `row` is stored or on its way to the table. -/
inductive Known (s : State) : Key → Row → Prop
  | stored {key : Key} {row : Row} (h : s.db key = some row) : Known s key row
  | published {row : Row} (h : row ∈ s.publishes) : Known s row.key row
  | broadcast {row : Row} (h : row ∈ s.broadcasts) : Known s row.key row
  | read {sync : Sync} {key : Key} {row : Row} (hsync : s.sync = some sync)
      (h : sync.rows key = some row) : Known s key row

/-- What every step but a write does: it brings no new rows, inserts only known ones, and removes only
what has expired. -/
structure Effect (s t : State) : Prop where
  now : s.now ≤ t.now
  known : ∀ {key row}, Known t key row → Known s key row
  started : ∀ sync, t.sync = some sync → sync.started ≤ t.now
  table : ∀ {key e}, t.table key = some e →
    s.table key = some e ∨ ∃ row, Known s key row ∧ row.entry = e
  kept : ∀ {key}, t.table key = none → ∀ e, s.table key = some e →
    e.expiresAt ≤ s.now / 1000 ∨ ∃ row, Known s key row ∧ row.entry.expiresAt ≤ s.now / 1000

variable {e : Event} {key : Key}

section Steps
variable {s t : State}

theorem Effect.of_table_eq (hnow : s.now ≤ t.now)
    (hknown : ∀ {key row}, Known t key row → Known s key row)
    (hstarted : ∀ sync, t.sync = some sync → sync.started ≤ t.now) (htable : t.table = s.table) :
    Effect s t where
  now := hnow
  known := hknown
  started := hstarted
  table he := .inl (htable ▸ he)
  kept hnone e he := by
    rw [htable, he] at hnone
    cases hnone

theorem Effect.of_insert {row : Row} (hrow : Known s row.key row) (hnow : t.now = s.now)
    (hknown : ∀ {key row}, Known t key row → Known s key row) (hsync : t.sync = s.sync)
    (hstarted : ∀ sync, s.sync = some sync → sync.started ≤ s.now)
    (htable : t.table = insert s.table row) : Effect s t where
  now := Nat.le_of_eq hnow.symm
  known := hknown
  started := by rw [hnow, hsync]; exact hstarted
  table {key e} he := by
    rw [htable, insert] at he
    by_cases hkey : key = row.key
    · subst hkey
      rw [update_self] at he
      exact .inr ⟨row, hrow, some.inj he⟩
    · rw [update_of_ne hkey] at he
      exact .inl he
  kept {key} hnone e he := by
    rw [htable, insert] at hnone
    by_cases hkey : key = row.key
    · subst hkey
      simp at hnone
    · rw [update_of_ne hkey, he] at hnone
      cases hnone

theorem Effect.of_syncInsert {sync : Sync} (hsync : s.sync = some sync)
    (hstarted : sync.started ≤ s.now) :
    Effect s {s with
      table := deleteExpired (insertAll s.table sync.rows) sync.started
      sync := none
      syncedAt := some sync.started} where
  now := Nat.le_refl _
  known hknown := by
    cases hknown with
    | stored h => exact .stored h
    | published h => exact .published h
    | broadcast h => exact .broadcast h
    | read hnone => cases hnone
  started _ hnone := by cases hnone
  table {key e} he := by
    obtain ⟨hinserted, -⟩ := filter_eq_some_iff.mp he
    obtain hread | ⟨-, hold⟩ := or_eq_some_iff.mp hinserted
    · obtain ⟨row, hrow, hentry⟩ := map_eq_some_iff.mp hread
      exact .inr ⟨row, .read hsync hrow, hentry⟩
    · exact .inl hold
  kept {key} hnone e he := by
    have hle : sync.started / 1000 ≤ s.now / 1000 := Nat.div_le_div_right hstarted
    cases hread : sync.rows key with
    | none =>
      simp [deleteExpired, insertAll, hread, he] at hnone
      exact .inl (Nat.le_trans hnone hle)
    | some row =>
      simp [deleteExpired, insertAll, hread] at hnone
      exact .inr ⟨row, .read hsync hread, Nat.le_trans hnone hle⟩

theorem Known.of_step {row : Row} (h : Known t key row)
    (hdb : ∀ key row, t.db key = some row → s.db key = some row)
    (hpublishes : ∀ row ∈ t.publishes, row ∈ s.publishes)
    (hbroadcasts : ∀ row ∈ t.broadcasts, row ∈ s.publishes ∨ row ∈ s.broadcasts)
    (hsync : ∀ sync, t.sync = some sync →
      s.sync = some sync ∨ ∀ key row, sync.rows key = some row → s.db key = some row) :
    Known s key row := by
  cases h with
  | stored h => exact .stored (hdb key row h)
  | published h => exact .published (hpublishes row h)
  | broadcast h => exact (hbroadcasts row h).elim .published .broadcast
  | read h hrow =>
    obtain hsame | hread := hsync _ h
    · exact .read hsame hrow
    · exact .stored (hread key row hrow)

theorem step_cases (hstarted : ∀ sync, s.sync = some sync → sync.started ≤ s.now)
    (hstep : step s e = some t) :
    Effect s t ∨ ∃ row home, written s e = some (row, home) ∧ t = s.write row home := by
  cases e with
  | tick micros =>
    cases hstep
    refine .inl (.of_table_eq (Nat.le_add_right _ _) ?_ ?_ rfl)
    · exact fun h => h.of_step (by simp) (by simp) (fun _ => .inr) fun _ => .inl
    · exact fun sync h => Nat.le_add_right_of_le (hstarted sync h)
  | revoke key revokedAt home =>
    obtain ⟨-, hwrite⟩ := ite_none_right_eq_some.mp hstep
    exact .inr ⟨_, home, rfl, (some.inj hwrite).symm⟩
  | rotate c jti rotatedAt home =>
    simp only [step] at hstep
    split at hstep
    · cases hstep
      exact .inl (.of_table_eq (Nat.le_refl _) id hstarted rfl)
    · next hnone =>
      cases hstep
      exact .inr ⟨_, home, if_pos hnone, rfl⟩
  | publish i =>
    obtain ⟨row, hrow, hpublish⟩ := bind_eq_some_iff.mp hstep
    cases hpublish
    have hmem := mem_of_getElem? hrow
    refine .inl (.of_insert (.published hmem) rfl (fun h => ?_) rfl hstarted rfl)
    refine h.of_step (by simp) (fun _ => mem_of_mem_eraseIdx) (fun row' hmem' => ?_) fun _ => .inl
    obtain hold | rfl := mem_snoc.mp hmem'
    · exact .inr hold
    · exact .inl hmem
  | deliver i =>
    obtain ⟨row, hrow, hdeliver⟩ := bind_eq_some_iff.mp hstep
    split at hdeliver <;> cases hdeliver
    refine .inl (.of_insert (.broadcast (mem_of_getElem? hrow)) rfl (fun h => ?_) rfl hstarted rfl)
    exact h.of_step (by simp) (by simp) (fun _ hmem => .inr (mem_of_mem_eraseIdx hmem)) fun _ => .inl
  | lose i =>
    cases hstep
    refine .inl (.of_table_eq (Nat.le_refl _) (fun h => ?_) hstarted rfl)
    exact h.of_step (by simp) (by simp) (fun _ hmem => .inr (mem_of_mem_eraseIdx hmem)) fun _ => .inl
  | syncRead =>
    obtain ⟨-, hstep⟩ := ite_none_left_eq_some.mp hstep
    cases hstep
    refine .inl (.of_table_eq (Nat.le_refl _) (fun h => ?_) (by simp) rfl)
    refine h.of_step (by simp) (by simp) (fun _ => .inr) fun sync hsync => .inr fun key row hrow => ?_
    cases hsync
    exact (filter_eq_some_iff.mp hrow).1
  | syncInsert =>
    obtain ⟨sync, hsync, hinsert⟩ := bind_eq_some_iff.mp hstep
    cases hinsert
    exact .inl (.of_syncInsert hsync (hstarted sync hsync))
  | syncFail =>
    cases hstep
    refine .inl (.of_table_eq (Nat.le_refl _) (fun h => ?_) (by simp) rfl)
    exact h.of_step (by simp) (by simp) (fun _ => .inr) (by simp)
  | prune =>
    cases hstep
    refine .inl (.of_table_eq (Nat.le_refl _) (fun h => ?_) hstarted rfl)
    exact h.of_step (fun _ _ hrow => (filter_eq_some_iff.mp hrow).1) (by simp)
      (fun _ => .inr) fun _ => .inl

end Steps

def Clear (s : State) (key : Key) : Prop :=
  (∀ row ∈ s.publishes, row.key ≠ key) ∧ (∀ row ∈ s.broadcasts, row.key ≠ key) ∧
    ∀ sync ∈ s.sync, sync.rows key = none

/-- A row is written when no earlier one of its key is still on its way, and not with an earlier time
than the cached one. -/
def Orderly (s : State) (e : Event) : Prop :=
  ∀ w ∈ written s e, Clear s w.1.key ∧ ∀ entry ∈ s.table w.1.key, entry.revokedAt ≤ w.1.revokedAt / 1000

instance (s : State) (key : Key) : Decidable (Clear s key) := inferInstanceAs (Decidable (_ ∧ _ ∧ _))

instance (s : State) (e : Event) : Decidable (Orderly s e) :=
  inferInstanceAs (Decidable (∀ w ∈ written s e, _))

/-- All known rows of a key are of one time, which is not before the cached one; and revocations are
kept for the lifetime of a token. -/
structure Fresh (s : State) : Prop where
  started : ∀ sync, s.sync = some sync → sync.started ≤ s.now
  agree : ∀ {key row row'}, Known s key row → Known s key row' →
    row.entry.revokedAt = row'.entry.revokedAt
  cached : ∀ {key row entry}, Known s key row → s.table key = some entry →
    entry.revokedAt ≤ row.entry.revokedAt
  rows : ∀ {key row}, Known s key row → revocable key = true →
    row.entry.expiresAt = row.entry.revokedAt + maxLifetime * 1000
  entries : ∀ {key entry}, s.table key = some entry → revocable key = true →
    entry.expiresAt = entry.revokedAt + maxLifetime * 1000

section Writes
variable {s : State} {row row' : Row} {home : Bool}

theorem mem_write_publishes (h : row' ∈ (s.write row home).publishes) : row' ∈ s.publishes ∨ row' = row := by
  cases home with
  | true => exact mem_snoc.mp h
  | false => exact .inl h

theorem mem_write_broadcasts (h : row' ∈ (s.write row home).broadcasts) :
    row' ∈ s.broadcasts ∨ row' = row := by
  cases home with
  | true => exact .inl h
  | false => exact mem_snoc.mp h

theorem written_lasts (h : written s e = some (row, home)) (hkey : revocable row.key = true) :
    row.entry.expiresAt = row.entry.revokedAt + maxLifetime * 1000 := by
  cases e with
  | revoke key revokedAt home =>
    cases h
    exact revocation_entry_expiresAt key revokedAt
  | rotate c jti rotatedAt home =>
    obtain ⟨-, h⟩ := ite_some_none_eq_some.mp h
    cases h
    cases hkey
  | _ => cases h

end Writes

namespace Fresh
variable {s t : State}

theorem effect (h : Fresh s) (heffect : Effect s t) : Fresh t where
  started := heffect.started
  agree hrow hrow' := h.agree (heffect.known hrow) (heffect.known hrow')
  cached hrow he := by
    obtain hold | ⟨row', hrow', rfl⟩ := heffect.table he
    · exact h.cached (heffect.known hrow) hold
    · exact Nat.le_of_eq (h.agree hrow' (heffect.known hrow))
  rows hrow := h.rows (heffect.known hrow)
  entries he hkey := by
    obtain hold | ⟨row', hrow', rfl⟩ := heffect.table he
    · exact h.entries hold hkey
    · exact h.rows hrow' hkey

theorem known_write {row row' : Row} {home : Bool} (hclear : Clear s row.key)
    (h : Known (s.write row home) key row') :
    key = row.key ∧ row' = row ∨ key ≠ row.key ∧ Known s key row' := by
  obtain ⟨hpublishes, hbroadcasts, hsync⟩ := hclear
  cases h with
  | stored h =>
    by_cases hkey : key = row.key
    · subst hkey
      simp only [State.write, update_self, some.injEq] at h
      exact .inl ⟨rfl, h.symm⟩
    · simp only [State.write, update_of_ne hkey] at h
      exact .inr ⟨hkey, .stored h⟩
  | published h =>
    obtain hmem | rfl := mem_write_publishes h
    · exact .inr ⟨hpublishes row' hmem, .published hmem⟩
    · exact .inl ⟨rfl, rfl⟩
  | broadcast h =>
    obtain hmem | rfl := mem_write_broadcasts h
    · exact .inr ⟨hbroadcasts row' hmem, .broadcast hmem⟩
    · exact .inl ⟨rfl, rfl⟩
  | @read sync _ _ hread h =>
    refine .inr ⟨?_, .read hread h⟩
    rintro rfl
    cases (hsync sync hread).symm.trans h

theorem write {row : Row} {home : Bool} (h : Fresh s) (hclear : Clear s row.key)
    (hlater : ∀ entry ∈ s.table row.key, entry.revokedAt ≤ row.revokedAt / 1000)
    (hrow : revocable row.key = true → row.entry.expiresAt = row.entry.revokedAt + maxLifetime * 1000) :
    Fresh (s.write row home) where
  started := h.started
  agree hknown hknown' := by
    obtain ⟨rfl, rfl⟩ | ⟨hne, hold⟩ := known_write hclear hknown
    · obtain ⟨-, rfl⟩ | ⟨hne, -⟩ := known_write hclear hknown'
      · rfl
      · exact absurd rfl hne
    · obtain ⟨heq, -⟩ | ⟨-, hold'⟩ := known_write hclear hknown'
      · exact absurd heq hne
      · exact h.agree hold hold'
  cached hknown he := by
    obtain ⟨rfl, rfl⟩ | ⟨-, hold⟩ := known_write hclear hknown
    · exact hlater _ he
    · exact h.cached hold he
  rows hknown hkey := by
    obtain ⟨rfl, rfl⟩ | ⟨-, hold⟩ := known_write hclear hknown
    · exact hrow hkey
    · exact h.rows hold hkey
  entries := h.entries

theorem step (h : Fresh s) (he : Orderly s e) (hstep : step s e = some t) : Fresh t := by
  obtain heffect | ⟨row, home, hwritten, rfl⟩ := step_cases h.started hstep
  · exact h.effect heffect
  · obtain ⟨hclear, hlater⟩ := he _ hwritten
    exact h.write hclear hlater (written_lasts hwritten)

theorem init : Fresh {} := by
  have hnone : ∀ {key row}, ¬ Known {} key row := by
    intro key row h
    cases h with
    | stored h | published h | broadcast h | read h => cases h
  refine ⟨by simp, fun h => absurd h hnone, fun h => absurd h hnone, fun h => absurd h hnone, ?_⟩
  intro key entry h
  cases h

theorem replaced (h : Fresh s) (hstep : RevocationCache.step s e = some t) {old new : Entry}
    (hold : s.table key = some old) (hnew : t.table key = some new) : old.revokedAt ≤ new.revokedAt := by
  obtain heffect | ⟨row, home, -, rfl⟩ := step_cases h.started hstep
  · obtain hsame | ⟨row, hrow, rfl⟩ := heffect.table hnew
    · cases hold.symm.trans hsame
      exact Nat.le_refl _
    · exact h.cached hrow hold
  · cases hold.symm.trans hnew
    exact Nat.le_refl _

end Fresh

/-- Until the time of `entry` is over, the table holds an entry of the key that is not earlier. -/
def Holds (key : Key) (entry : Entry) (s : State) : Prop :=
  s.now / 1000 < entry.expiresAt → ∃ e, s.table key = some e ∧ entry.revokedAt ≤ e.revokedAt

theorem Holds.step {s t : State} {entry : Entry} (h : Holds key entry s) (hfresh : Fresh s)
    (hkey : revocable key = true) (hlasts : entry.expiresAt = entry.revokedAt + maxLifetime * 1000)
    (hstep : step s e = some t) : Holds key entry t := by
  obtain heffect | ⟨row, home, -, rfl⟩ := step_cases hfresh.started hstep
  · intro hlive
    have hle : s.now / 1000 ≤ t.now / 1000 := Nat.div_le_div_right heffect.now
    obtain ⟨old, hold, hge⟩ := h (Nat.lt_of_le_of_lt hle hlive)
    cases hnew : t.table key with
    | some new => exact ⟨new, rfl, Nat.le_trans hge (hfresh.replaced hstep hold hnew)⟩
    | none =>
      -- only what has expired is removed, and the entry has not
      exfalso
      obtain hexpired | ⟨row, hrow, hexpired⟩ := heffect.kept hnew old hold
      · have := hfresh.entries hold hkey
        omega
      · have := hfresh.rows hrow hkey
        have := hfresh.cached hrow hold
        omega
  · exact h

/-- Once the table has held the revocation of a user, the user's tokens issued up to it are rejected
until it expires; and no step replaces an entry by an earlier one. -/
theorem cached_revocation_rejects (before after : List Event) (s t : State)
    (hbefore : run step {} before = some s) (hafter : run step s after = some t)
    (horderly : Along step Orderly {} (before ++ after)) (channelId : Uuid) (userId : String)
    (entry : Entry) (hheld : s.table (.user channelId userId) = some entry) :
    (∀ cfg c iat, c.channelId = channelId → c.userId = some userId → c.iat = some iat →
      iat * 1000 ≤ entry.revokedAt → t.now / 1000 < entry.expiresAt → check cfg t.table t.now c ≠ .ok) ∧
    ∀ e u key old new, step t e = some u → t.table key = some old → u.table key = some new →
      old.revokedAt ≤ new.revokedAt := by
  obtain ⟨hcond, hcond'⟩ := (along_append_of_eq_some hbefore).mp horderly
  have hfresh : Fresh s := run_invariant_along Fresh.step Fresh.init hcond hbefore
  have hlasts := hfresh.entries hheld rfl
  have hkeeps : ∀ {m e m'}, Fresh m ∧ Holds (.user channelId userId) entry m → Orderly m e →
      step m e = some m' → Fresh m' ∧ Holds (.user channelId userId) entry m' :=
    fun h he hstep => ⟨h.1.step he hstep, h.2.step h.1 rfl hlasts hstep⟩
  have hlate := run_invariant_along hkeeps ⟨hfresh, fun _ => ⟨entry, hheld, Nat.le_refl _⟩⟩ hcond' hafter
  refine ⟨?_, fun e u key old new hstep => hlate.1.replaced hstep⟩
  intro cfg c iat hchannel huser hiat hcovered hlive
  obtain ⟨e, he, hge⟩ := hlate.2 hlive
  have hexpires := hlate.1.entries he rfl
  subst hchannel
  exact check_ne_ok_of_user huser hiat he (by omega) (by omega)

def userClaims (iat : ℕ) : Claims := { channelId := 1, userId := some "u1", iat := some iat}

theorem cached_revocation_rejects_synced :
    ∃ t, run step {} ([.revoke (.user 1 "u1") 5000000 true, .publish 0] ++
        [.syncRead, .syncInsert, .deliver 0, .prune]) = some t ∧
      check {} t.table t.now (userClaims 5) ≠ .ok := by
  obtain ⟨s, hs, hheld, t, ht, hnow⟩ :
      ∃ s, run step {} [.revoke (.user 1 "u1") 5000000 true, .publish 0] = some s ∧
      s.table (.user 1 "u1") = some ⟨.revoked, 5000, 1865000⟩ ∧
      ∃ t, run step s [.syncRead, .syncInsert, .deliver 0, .prune] = some t ∧ t.now = 0 := by
    decide +kernel
  refine ⟨t, run_append_eq_some.mpr ⟨s, hs, ht⟩, ?_⟩
  have hrejects := (cached_revocation_rejects _ _ s t hs ht (by decide +kernel) 1 "u1" _ hheld).1
  exact hrejects {} (userClaims 5) 5 rfl rfl rfl (by decide) (by rw [hnow]; decide)

/-- A user is revoked at 0 s and again at 2 s. The second revocation is cached, and then the first one
is written over it: by a sync that had read it before, or by a broadcast that was overtaken. A token
of 1 s is accepted again. -/
theorem cached_revocation_replaced :
    ((run step {} [.revoke (.user 1 "u1") 0 true, .publish 0, .deliver 0, .syncRead, .tick 2000000,
        .revoke (.user 1 "u1") 2000000 true, .publish 0]).any fun t =>
          check {} t.table t.now (userClaims 1) = .revoked) = true ∧
    ((run step {} [.revoke (.user 1 "u1") 0 true, .publish 0, .deliver 0, .syncRead, .tick 2000000,
        .revoke (.user 1 "u1") 2000000 true, .publish 0, .syncInsert]).any fun t =>
          check {} t.table t.now (userClaims 1) = .ok) = true ∧
    ((run step {} [.revoke (.user 1 "u1") 0 false, .tick 2000000,
        .revoke (.user 1 "u1") 2000000 false, .deliver 1]).any fun t =>
          check {} t.table t.now (userClaims 1) = .revoked) = true ∧
    ((run step {} [.revoke (.user 1 "u1") 0 false, .tick 2000000,
        .revoke (.user 1 "u1") 2000000 false, .deliver 1, .deliver 0]).any fun t =>
          check {} t.table t.now (userClaims 1) = .ok) = true := by
  decide +kernel

end Converger.RevocationCache
