import Converger.Deliveries
import Converger.GuardedRuns

/-!
# Receipts and sends on one delivery

Any number of processes work on one row: provider receipts (`advance_status/2`) and
workers that report a send (`mark_sent/2`), each from a struct it read before, while an
operator may replay the delivery once it is a dead letter. The state keeps the statuses
committed so far, newest first, in stretches that end where a replay starts over.
-/
namespace Converger.Deliveries.Receipts
open GuardedRuns StaleWrites List Option

structure State where
  row : Delivery
  structs : ℕ → Option Delivery
  stretch : List Status
  earlier : List (List Status)

def State.start (row : Delivery) : State where
  row := row
  structs := fun _ => none
  stretch := [row.status]
  earlier := []

/-- The `UPDATE` of a process, which is then done with its struct. -/
def State.commit (s : State) (process : ℕ) (row : Delivery) : State :=
  {s with
    row := row
    structs := Function.update s.structs process none
    stretch := row.status :: s.stretch}

inductive Event where
  | read (process : ℕ)
  | advance (process : ℕ) (u : StatusUpdate) (now : ℕ)
  | markSent (process : ℕ) (response : Metadata) (now : ℕ)
  | retry (actor : String) (now : ℕ)

def step (s : State) : Event → Option State
  | .read process => some {s with structs := Function.update s.structs process (some s.row)}
  | .advance process u now =>
    (s.structs process).map fun delivery =>
      match advanceStatus delivery u with
      | .written attrs => s.commit process (update now delivery s.row attrs)
      | _ => {s with structs := Function.update s.structs process none}
  | .markSent process response now =>
    -- The pipeline only sends what its struct does not show as sent.
    ((s.structs process).filter fun delivery => !delivery.status.settled).map fun delivery =>
      s.commit process (update now delivery s.row (markSent now delivery response))
  | .retry actor now =>
    if s.row.status = .failed then
      some {s with
        row := resetDeadLetter now actor s.row
        stretch := [.pending]
        earlier := s.stretch :: s.earlier}
    else none

/-- The status an event writes over the stored one; `none` where it writes none. -/
def written (s : State) : Event → Option Status
  | .advance process u _ => do
    let delivery ← s.structs process
    let .written attrs := advanceStatus delivery u | none
    attrs.status.filter (· ≠ delivery.status)
  | .markSent _ _ _ => some .sent
  | _ => none

/-- `y` is no step back from `x` in pending < sent < delivered < read; a read delivery stays
read, and a failure may follow anything below. -/
def NoRegress (x y : Status) : Prop :=
  (x = .read → y = .read) ∧ (x ≠ .failed → y ≠ .failed → x.rank ≤ y.rank)

instance (x y : Status) : Decidable (NoRegress x y) := inferInstanceAs (Decidable (_ ∧ _))

/-- No committed status is a step back from an earlier one, replays of a dead letter apart. -/
def State.Ordered (s : State) : Prop :=
  ∀ statuses ∈ s.stretch :: s.earlier, statuses.Pairwise fun y x => NoRegress x y

instance (s : State) : Decidable s.Ordered := inferInstanceAs (Decidable (∀ _ ∈ _, _))

/-- The write of `y` fits the stored status: no lower in the order, and no failure over `read`.
Over a failure it fits if it fails again or is as high as anything since the last replay. -/
def State.Fits (s : State) (y : Status) : Prop :=
  if s.row.status = .failed then
    y = .failed ∨ ∀ x ∈ s.stretch, x ≠ .failed → x.rank ≤ y.rank
  else NoRegress s.row.status y

def Keeps (s : State) (e : Event) : Prop := ∀ y ∈ written s e, s.Fits y

theorem NoRegress.refl (x : Status) : NoRegress x x := ⟨id, fun _ _ => Int.le_refl _⟩

theorem NoRegress.trans {x y z : Status} (hxy : NoRegress x y) (hy : y ≠ .failed)
    (hyz : NoRegress y z) : NoRegress x z :=
  ⟨fun hx => hyz.1 (hxy.1 hx), fun hx hz => Int.le_trans (hxy.2 hx hy) (hyz.2 hy hz)⟩

def Current (s : State) : Prop := s.stretch.head? = some s.row.status

theorem fits_iff {s : State} (hs : Current s) (hord : s.stretch.Pairwise fun y x => NoRegress x y)
    (y : Status) : (∀ x ∈ s.stretch, NoRegress x y) ↔ s.Fits y := by
  obtain ⟨rest, hstretch⟩ : ∃ rest, s.stretch = s.row.status :: rest := by
    obtain ⟨rest, hrest⟩ := head?_eq_some_iff.mp hs
    exact ⟨rest, hrest⟩
  have hrest : ∀ x ∈ rest, NoRegress x s.row.status := by
    rw [hstretch] at hord
    exact (pairwise_cons.mp hord).1
  by_cases hrow : s.row.status = .failed
  · simp only [State.Fits, hrow, if_true]
    constructor
    · intro hall
      by_cases hy : y = .failed
      · exact .inl hy
      · exact .inr fun x hx hne => (hall x hx).2 hne hy
    · intro hfits x hx
      -- Nothing in the stretch is `read`, since a failure came after it.
      have hread : x ≠ .read := by
        rw [hstretch, hrow] at hx
        rcases mem_cons.mp hx with rfl | hx
        · decide
        · intro hxr
          exact absurd ((hrest x hx).1 hxr) (by rw [hrow]; decide)
      refine ⟨fun hx => absurd hx hread, fun hne hy => ?_⟩
      exact (hfits.resolve_left hy) x hx hne
  · simp only [State.Fits, hrow, if_false]
    constructor
    · exact fun hall => hall _ (hstretch ▸ mem_cons_self)
    · intro hfits x hx
      rw [hstretch] at hx
      rcases mem_cons.mp hx with rfl | hx
      · exact hfits
      · exact (hrest x hx).trans hrow hfits

inductive Moves (s : State) (e : Event) (t : State) : Prop
  | quiet (hrow : t.row = s.row) (hstretch : t.stretch = s.stretch)
      (hearlier : t.earlier = s.earlier) (hwritten : written s e = none)
  | commit (hstretch : t.stretch = t.row.status :: s.stretch) (hearlier : t.earlier = s.earlier)
      (hwritten : t.row.status = (written s e).getD s.row.status)
  | retry (hrow : s.row.status = .failed) (hnew : t.row.status = .pending)
      (hstretch : t.stretch = [.pending]) (hearlier : t.earlier = s.stretch :: s.earlier)
      (hwritten : written s e = none)

theorem put_eq_getD (new : Option Status) (old cur : Status) :
    put new old cur = (new.filter (· ≠ old)).getD cur := by
  cases new with
  | none => rfl
  | some v => by_cases h : v = old <;> simp [put, h, Option.filter]

theorem step_moves {s t : State} {e : Event} (h : step s e = some t) : Moves s e t := by
  cases e with
  | read process =>
    cases some.inj h
    exact .quiet rfl rfl rfl rfl
  | advance process u now =>
    obtain ⟨delivery, hstruct, ht⟩ := map_eq_some_iff.mp h
    cases hadv : advanceStatus delivery u with
    | written attrs =>
      simp only [hadv] at ht
      subst ht
      refine .commit rfl rfl ?_
      simp [State.commit, written, hstruct, hadv, put_eq_getD]
    | ignored | raised | rejected =>
      simp only [hadv] at ht
      subst ht
      exact .quiet rfl rfl rfl (by simp [written, hstruct, hadv])
  | markSent process response now =>
    obtain ⟨delivery, hstruct, rfl⟩ := map_eq_some_iff.mp h
    have hsettled := (filter_eq_some_iff.mp hstruct).2
    refine .commit rfl rfl ?_
    have hne : Status.sent ≠ delivery.status := by
      rintro heq
      simp [← heq, Status.settled] at hsettled
    simp [State.commit, written, markSent, put_of_ne hne]
  | retry actor now =>
    simp only [step, ite_none_right_eq_some, Option.some.injEq] at h
    obtain ⟨hrow, rfl⟩ := h
    exact .retry hrow rfl rfl rfl rfl

theorem step_ordered {s t : State} {e : Event} (hs : Current s) (h : step s e = some t) :
    Current t ∧ (t.Ordered ↔ s.Ordered ∧ Keeps s e) := by
  cases step_moves h with
  | quiet hrow hstretch hearlier hwritten =>
    refine ⟨by rw [Current, hrow, hstretch, hs], ?_⟩
    simp [State.Ordered, Keeps, hstretch, hearlier, hwritten]
  | retry hrow hnew hstretch hearlier hwritten =>
    refine ⟨by rw [Current, hstretch, hnew]; rfl, ?_⟩
    simp [State.Ordered, Keeps, hstretch, hearlier, hwritten]
  | commit hstretch hearlier hwritten =>
    refine ⟨by rw [Current, hstretch]; rfl, ?_⟩
    have hnew : s.stretch.Pairwise (fun y x => NoRegress x y) →
        ((∀ x ∈ s.stretch, NoRegress x t.row.status) ↔ Keeps s e) := by
      intro hord
      cases he : written s e with
      | none =>
        have hsame : s.Fits s.row.status := by
          by_cases hrow : s.row.status = .failed <;> simp [State.Fits, hrow, NoRegress.refl]
        simpa [Keeps, he, hwritten] using (fits_iff hs hord _).mpr hsame
      | some y => simpa [Keeps, he, hwritten] using fits_iff hs hord y
    simp only [State.Ordered, hstretch, hearlier, forall_mem_cons, pairwise_cons]
    constructor
    · rintro ⟨⟨hall, hord⟩, hearlier⟩
      exact ⟨⟨hord, hearlier⟩, (hnew hord).mp hall⟩
    · rintro ⟨⟨hord, hearlier⟩, hkeeps⟩
      exact ⟨⟨(hnew hord).mpr hkeeps, hord⟩, hearlier⟩

/-- The struct that a write starts from still shows the stored status, and a failed delivery is
not sent anew where a receipt said since the last replay that it had arrived. -/
def Fresh (s : State) : Event → Prop
  | .advance process _ _ => ∀ delivery ∈ s.structs process, delivery.status = s.row.status
  | .markSent process _ _ => ∀ delivery ∈ s.structs process,
      delivery.status = s.row.status ∧
        (s.row.status = .failed → ∀ x ∈ s.stretch, x ≠ .delivered ∧ x ≠ .read)
  | _ => True

instance (s : State) : ∀ e, Decidable (Fresh s e)
  | .advance .. | .markSent .. => inferInstanceAs (Decidable (∀ _ ∈ _, _))
  | .read _ | .retry .. => inferInstanceAs (Decidable True)

/-- The rank check of `advance_status/2`, made on a struct that shows the stored status. -/
theorem fits_of_shouldUpdate {s : State} {delivery : Delivery} {y : Status}
    (hstatus : delivery.status = s.row.status) (h : shouldUpdate delivery (some y) = true) :
    s.Fits y := by
  unfold State.Fits
  split
  · rename_i hfailed
    left
    cases y <;> simp_all [shouldUpdate, Status.rank]
  · rename_i hfailed
    cases hrow : s.row.status <;> cases y <;>
      simp_all [shouldUpdate, Status.rank, NoRegress]

theorem fits_sent {s : State} {delivery : Delivery} (hstatus : delivery.status = s.row.status)
    (hsettled : delivery.status.settled = false)
    (hfailed : s.row.status = .failed → ∀ x ∈ s.stretch, x ≠ .delivered ∧ x ≠ .read) :
    s.Fits .sent := by
  unfold State.Fits
  split
  · rename_i hrow
    refine .inr fun x hx _ => ?_
    have harrived := hfailed hrow x hx
    cases x <;> simp_all [Status.rank]
  · cases hrow : s.row.status <;> simp_all [Status.settled, Status.rank, NoRegress]

theorem keeps_of_fresh {s t : State} {e : Event} (h : Fresh s e) (hstep : step s e = some t) :
    Keeps s e := by
  intro y hy
  cases e with
  | read | retry => cases hy
  | advance process u now =>
    simp only [written, Option.mem_def, Option.bind_eq_bind, bind_eq_some_iff] at hy
    obtain ⟨delivery, hdelivery, hy⟩ := hy
    cases hadv : advanceStatus delivery u with
    | ignored | raised | rejected => simp [hadv] at hy
    | written attrs =>
      simp only [hadv] at hy
      have hupdate : shouldUpdate delivery (some y) = true := by
        have hstatus := (filter_eq_some_iff.mp hy).1
        revert hadv
        fun_cases advanceStatus delivery u <;> rintro ⟨⟩ <;> simp_all [advanceAttrs]
      exact fits_of_shouldUpdate (h delivery hdelivery) hupdate
  | markSent process response now =>
    cases hy
    obtain ⟨delivery, hdelivery, -⟩ := map_eq_some_iff.mp hstep
    obtain ⟨hstruct, hsettled⟩ := filter_eq_some_iff.mp hdelivery
    obtain ⟨hstatus, hfailed⟩ := h delivery hstruct
    exact fits_sent hstatus (by simpa using hsettled) hfailed

/-- However receipts, sends and replays interleave, the committed statuses never regress as long
as each write starts from a struct that shows the stored status. -/
theorem statuses_never_regress {row : Delivery} {es : List Event} {t : State}
    (hfresh : Along step Fresh (.start row) es) (h : run step (.start row) es = some t) :
    t.Ordered := by
  have hstart : Current (.start row) ∧ (State.start row).Ordered :=
    ⟨rfl, by simp [State.Ordered, State.start]⟩
  have hstep : ∀ {s e t}, Current s ∧ s.Ordered → Fresh s e → step s e = some t →
      Current t ∧ t.Ordered := by
    intro s e t hs he ht
    obtain ⟨hcurrent, hordered⟩ := step_ordered hs.1 ht
    exact ⟨hcurrent, hordered.mpr ⟨hs.2, keeps_of_fresh he ht⟩⟩
  exact (run_invariant_along hstep hstart hfresh h).2

/-- A delivery left `sent` by the worker; a `read` receipt is stored between the reads and
the write of a `delivered` one. -/
def overtakenReceipts : List Event :=
  [.read 0, .read 1, .advance 0 {status := some .read, timestamp := some 20} 21,
    .advance 1 {status := some .delivered, timestamp := some 10} 22]

theorem read_becomes_delivered :
    ∃ t, run step (.start {status := .sent}) overtakenReceipts = some t ∧
      t.stretch = [.delivered, .read, .sent] ∧ ¬ t.Ordered := by
  have hrun : (run step (.start {status := .sent}) overtakenReceipts).map
      (fun t => (t.stretch, decide t.Ordered)) = some ([.delivered, .read, .sent], false) := by
    decide +kernel
  obtain ⟨t, ht, hend⟩ := map_eq_some_iff.mp hrun
  obtain ⟨hstretch, hord⟩ := Prod.mk.injEq .. ▸ hend
  exact ⟨t, ht, hstretch, of_decide_eq_false hord⟩

/-- Receipts in the order the provider sent them, around a replay of the dead letter. -/
def orderlyReceipts : List Event :=
  [.read 0, .markSent 0 [("provider_message_id", "m1")] 5, .read 1,
    .advance 1 { status := some .failed, timestamp := some 6, error := some (some "lost")} 7,
    .retry "admin" 8, .read 2, .markSent 2 [] 9, .read 3,
    .advance 3 {status := some .read, timestamp := some 10} 11]

theorem statuses_never_regress_orderly :
    ∃ t, run step (.start {}) orderlyReceipts = some t ∧ t.Ordered := by
  have hfresh : Along step Fresh (.start {}) orderlyReceipts := by decide +kernel
  have hrun : (run step (.start {}) orderlyReceipts).isSome = true := by decide +kernel
  obtain ⟨t, ht⟩ := isSome_iff_exists.mp hrun
  exact ⟨t, ht, statuses_never_regress hfresh ht⟩

end Converger.Deliveries.Receipts
