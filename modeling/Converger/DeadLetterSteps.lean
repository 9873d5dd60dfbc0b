import Converger.DeadLetters

/-!
# The steps of dead letter replays

What one step of the system does to the rows, the locks and the calls, and the invariant of the
locks: the rows a transaction holds are dead letters that nobody else changes, and a call keeps its
limit and has a bounded number of steps left.
-/
namespace Converger.Deliveries.DeadLetters
open OrderedPages List Option

variable {s t : State} {e : Event} {pid q : ℕ} {call call' : Call} {ids : List Uuid} {now : ℕ}
  {id : Uuid} {filters : Filters} {d : Delivery} {calls : List Call}

/-! ### What one step does -/

def Call.remaining (call : Call) : ℕ :=
  match call.phase with
  | .begin => 4
  | .updating _ => 3
  | .chunk => 3 * (call.request.limit - call.replayed.length) + 1
  | .locked _ => 3 * (call.request.limit - call.replayed.length)
  | .commit _ _ => 3 * (call.request.limit - call.replayed.length) - 1
  | .left => 1
  | .returned _ => 0
  | .crashed => 0

def Request.IsBulk (request : Request) : Prop := ∃ filters limit, request = .bulk filters limit

instance : (request : Request) → Decidable request.IsBulk
  | .bulk filters limit => .isTrue ⟨filters, limit, rfl⟩
  | .one _ => .isFalse fun ⟨_, _, h⟩ => nomatch h

/-- The phase is one of the call's kind, and a call that goes on has not reached its limit. -/
def Call.Fits (call : Call) : Prop :=
  match call.phase with
  | .begin | .updating _ => (∃ struct, call.request = .one struct) ∧ call.replayed = []
  | .chunk | .locked _ => call.request.IsBulk ∧ call.replayed.length < call.request.limit
  | .commit _ _ => call.replayed.length < call.request.limit
  | .left => call.request.IsBulk
  | _ => True

structure Call.Sound (call : Call) : Prop where
  fits : call.Fits
  within : call.replayed.length + call.held.length ≤ call.request.limit
  potential : call.steps + call.remaining ≤ 3 * call.request.limit + 1
  upTo : ∀ filters limit, call.request = .bulk filters limit →
    ∃ time ≤ call.startedAt, filters.upTo = some time

structure Call.Goes (call call' : Call) : Prop where
  running : call.ended = false
  request : call'.request = call.request
  startedAt : call'.startedAt = call.startedAt
  dead : call'.dead = call.dead
  replayed : call'.replayed = call.replayed

structure Call.Starts (s : State) (call : Call) : Prop where
  sound : call.Sound
  held : call.held = []
  dead : call.dead = s.deadLetters
  replayed : call.replayed = []

/-- The rows a call locks: unlocked dead letters, for a bulk call none that changed after its
start. -/
structure Picks (s : State) (call : Call) (ids : List Uuid) : Prop where
  nodup : ids.Nodup
  free : ∀ id ∈ ids, s.locks id = none
  dead : ∀ id ∈ ids, ∃ row ∈ s.rows, row.id = id ∧ row.status = .failed ∧
    (call.request.IsBulk → row.updatedAt ≤ call.startedAt)
  one : ∀ struct, call.request = .one struct → ∀ id ∈ ids, id = struct.id

inductive Effect (s : State) : Event → State → Prop where
  | other {e : Event} {t : State} (hrows : t.rows = s.rows) (hlocks : t.locks = s.locks)
      (haudits : t.audits = s.audits) (hcalls : t.calls = s.calls) : Effect s e t
  | create (id : Uuid) (activity : Activity) (channelId : Uuid) (hnew : id ∉ s.rows.map (·.id)) :
      Effect s (.create id activity channelId)
        {s with rows := s.rows ++ [createDelivery id activity channelId s.clock]}
  | write {process : ℕ} {w : Prepared} (hw : s.prepared process = some w)
      (hfree : s.locks w.struct.id = none) :
      Effect s (.write process) {s with
        prepared := Function.update s.prepared process none
        rows := s.rows.map fun d =>
          if d.id = w.struct.id then update w.now w.struct d w.attrs else d}
  | start {e : Event} (call : Call) (hcall : call.Starts s)
      (hone : ∀ struct, call.request = .one struct → call.ended = false → ∃ process actor active,
        e = .retryDelivery process actor active ∧ s.structs process = some struct ∧
        checkDelivery struct active = .begin) :
      Effect s e {s with calls := s.calls ++ [call]}
  | go {pid : ℕ} {call : Call} (call' : Call) (hcall : s.calls[pid]? = some call)
      (hgoes : call.Goes call') (hheld : call'.held = call.held) (hsound : call.Sound → call'.Sound) :
      Effect s (.advance pid) (s.setCall pid call')
  | lock {pid : ℕ} {call : Call} (call' : Call) (hcall : s.calls[pid]? = some call)
      (hgoes : call.Goes call') (hheld : call.held = []) (hpicks : Picks s call call'.held)
      (hsound : call.Sound → call'.Sound) :
      Effect s (.advance pid) ((s.lock pid call'.held).setCall pid call')
  | commit {pid : ℕ} {call : Call} (ids : List Uuid) (now : ℕ) (hcall : s.calls[pid]? = some call)
      (hphase : call.phase = .commit ids now) :
      Effect s (.advance pid) ((replay s pid call ids now).setCall pid {call with
        steps := call.steps + 1
        phase := call.request.next call.replayed.length (resetDeadLetters s call.actor ids now).length
        replayed := call.replayed ++ (resetDeadLetters s call.actor ids now).map (·.id)})
  | crash {pid : ℕ} {call : Call} (hcall : s.calls[pid]? = some call) :
      Effect s (.crash pid) ((s.unlock pid).setCall pid {call with phase := .crashed})

theorem mem_selectChunk {chunk : ℕ} (h : id ∈ selectChunk s filters chunk) :
    ∃ row ∈ s.rows, row.id = id ∧ retryable s.channels filters row ∧ s.locks id = none := by
  obtain ⟨row, hrow, rfl⟩ := List.mem_map.mp h
  have hafter := (mem_after.mp (mem_of_mem_take hrow)).1
  obtain ⟨hmem, htest⟩ := mem_filter.mp hafter
  obtain ⟨hretryable, hfree⟩ := Bool.and_eq_true_iff.mp htest
  exact ⟨row, hmem, rfl, hretryable, isNone_iff_eq_none.mp hfree⟩

theorem length_selectChunk_le (s : State) (filters : Filters) (chunk : ℕ) :
    (selectChunk s filters chunk).length ≤ chunk := by
  rw [selectChunk, length_map]
  exact length_take_le _ _

theorem nodup_selectChunk (h : (s.rows.map (·.id)).Nodup) (filters : Filters) (chunk : ℕ) :
    (selectChunk s filters chunk).Nodup := by
  set key : Delivery → ℕ ×ₗ ℕ := fun d => toLex (d.updatedAt, d.id)
  set free := s.rows.filter fun d => retryable s.channels filters d && (s.locks d.id).isNone
  have hfree : (free.map (·.id)).Nodup := h.sublist (filter_sublist.map _)
  have hsorted : ((after key none free).map (·.id)).Nodup := by
    have hperm := perm_insertionSort (fun a b => key a ≤ key b)
      (free.filter fun a => (none : Option (ℕ ×ₗ ℕ)).all fun k => decide (k < key a))
    exact (hperm.map _).nodup_iff.mpr (hfree.sublist (filter_sublist.map _))
  exact hsorted.sublist ((take_sublist _ _).map _)

theorem find_any_failed (h : (s.find id).any (·.status = .failed) = true) :
    ∃ row ∈ s.rows, row.id = id ∧ row.status = .failed := by
  obtain ⟨row, hrow, hfailed⟩ := (any_eq_true _ _).mp h
  have hid : decide (row.id = id) = true := find?_some (p := fun d : Delivery => decide (d.id = id)) hrow
  exact ⟨row, mem_of_find?_eq_some hrow, of_decide_eq_true hid, of_decide_eq_true hfailed⟩

theorem retryable_iff {channels : Uuid → Channel} (h : retryable channels filters d = true) :
    d.status = .failed ∧ filters.upTo.all (d.updatedAt ≤ ·) = true := by
  simp only [retryable, Filters.matches, Bool.and_eq_true] at h
  exact ⟨of_decide_eq_true h.1.1, h.1.2.1.2⟩

/-! ### Calls and rows -/

section Lists
variable {P : ℕ → Call → Prop}

theorem forall_calls_set (hpid : P pid call')
    (hother : ∀ q call, q ≠ pid → calls[q]? = some call → P q call) :
    ∀ (q : ℕ) (call : Call), (calls.set pid call')[q]? = some call → P q call := by
  intro q call hcall
  by_cases hq : pid = q
  · subst hq
    rw [getElem?_set_self'] at hcall
    obtain ⟨-, -, rfl⟩ := map_eq_some_iff.mp hcall
    exact hpid
  · rw [getElem?_set_ne hq] at hcall
    exact hother q call (Ne.symm hq) hcall

theorem forall_calls_append (hnew : P calls.length call')
    (hother : ∀ q call, calls[q]? = some call → P q call) :
    ∀ (q : ℕ) (call : Call), (calls ++ [call'])[q]? = some call → P q call := by
  intro q call hcall
  by_cases hq : q = calls.length
  · subst hq
    rw [getElem?_concat_length] at hcall
    exact some.inj hcall ▸ hnew
  · have hlt := (List.getElem?_eq_some_iff.mp hcall).1
    rw [length_append, length_singleton] at hlt
    rw [getElem?_append_left (by omega)] at hcall
    exact hother q call hcall

end Lists

theorem map_id_map {rows : List Delivery} {f : Delivery → Delivery} (hf : ∀ d, (f d).id = d.id) :
    (rows.map f).map (·.id) = rows.map (·.id) := by
  rw [List.map_map]
  exact map_congr_left fun d _ => hf d

theorem written_id (w : Prepared) (d : Delivery) :
    (if d.id = w.struct.id then update w.now w.struct d w.attrs else d).id = d.id := by
  split <;> rfl

theorem flipped_id (ids : List Uuid) (now : ℕ) (actor : String) (d : Delivery) :
    (if flips ids d then resetDeadLetter now actor d else d).id = d.id := by
  split <;> rfl

theorem flips_iff : flips ids d = true ↔ d.id ∈ ids ∧ d.status = .failed := by
  simp [flips]

/-- The ids of the rows an `UPDATE` flips. -/
def flipped (s : State) (ids : List Uuid) : List Uuid := (s.rows.filter (flips ids)).map (·.id)

theorem map_id_resetDeadLetters (s : State) (actor : Actor) (ids : List Uuid) (now : ℕ) :
    (resetDeadLetters s actor ids now).map (·.id) = flipped s ids := by
  rw [resetDeadLetters, List.map_map]
  rfl

theorem length_resetDeadLetters (s : State) (actor : Actor) (ids : List Uuid) (now : ℕ) :
    (resetDeadLetters s actor ids now).length = (flipped s ids).length := by
  rw [resetDeadLetters, flipped, length_map, length_map]

theorem mem_flipped : id ∈ flipped s ids ↔ ∃ row ∈ s.rows, row.id = id ∧ row.status = .failed ∧ id ∈ ids := by
  simp only [flipped, List.mem_map, mem_filter, flips_iff]
  constructor
  · rintro ⟨row, ⟨hrow, hmem, hstatus⟩, rfl⟩
    exact ⟨row, hrow, rfl, hstatus, hmem⟩
  · rintro ⟨row, hrow, rfl, hstatus, hmem⟩
    exact ⟨row, ⟨hrow, hmem, hstatus⟩, rfl⟩

/-! ### Locks -/

section
variable (hids : (s.rows.map (·.id)).Nodup)
include hids

theorem row_unique {d' : Delivery} (hd : d ∈ s.rows) (hd' : d' ∈ s.rows) (hid : d.id = d'.id) : d = d' :=
  inj_on_of_nodup_map hids hd hd' hid

theorem nodup_flipped (ids : List Uuid) : (flipped s ids).Nodup := hids.sublist (filter_sublist.map _)

theorem mem_flipped_of_mem {row : Delivery} (hrow : row ∈ s.rows) :
    row.id ∈ flipped s ids ↔ flips ids row = true := by
  rw [mem_flipped, flips_iff]
  constructor
  · rintro ⟨row', hrow', hid, hstatus, hmem⟩
    exact ⟨hmem, row_unique hids hrow hrow' hid.symm ▸ hstatus⟩
  · rintro ⟨hmem, hstatus⟩
    exact ⟨row, hrow, rfl, hstatus, hmem⟩

theorem length_flipped_le : (flipped s ids).length ≤ ids.length :=
  (subperm_of_subset (nodup_flipped hids ids) fun _ hid => by
    obtain ⟨-, -, -, -, hmem⟩ := mem_flipped.mp hid
    exact hmem).length_le

theorem effect_of_next (hcall : s.calls[pid]? = some call)
    (hsound : call.Sound) (h : next s pid call = some t) : Effect s (.advance pid) t := by
  obtain ⟨hfits, hwithin, hpotential, hupTo⟩ := hsound
  obtain ⟨request, actor, phase, startedAt, dead, replayed, steps⟩ := call
  cases phase with
  | begin =>
    cases h
    refine .go _ hcall ⟨rfl, rfl, rfl, rfl, rfl⟩ rfl fun _ => ⟨hfits, hwithin, ?_, hupTo⟩
    simp only [Call.remaining] at hpotential ⊢
    omega
  | updating now =>
    obtain ⟨⟨struct, rfl⟩, hnone⟩ := hfits
    cases hnone
    simp only [Call.remaining, Request.limit] at hpotential
    simp only [next] at h
    split at h
    · rename_i hfailed
      obtain ⟨hfree, h⟩ := ite_none_left_eq_some.mp h
      cases h
      obtain ⟨row, hrow, hid, hstatus⟩ := find_any_failed hfailed
      have hfree : s.locks struct.id = none := by simpa using hfree
      refine .lock { request := .one struct, actor, startedAt, dead
                     steps := steps + 1, phase := .commit [struct.id] now}
        hcall ⟨rfl, rfl, rfl, rfl, rfl⟩ rfl ⟨nodup_singleton _, ?_, ?_, ?_⟩ fun _ => ?_
      · rintro id hmem
        exact mem_singleton.mp hmem ▸ hfree
      · intro id hmem
        refine ⟨row, hrow, hid.trans (mem_singleton.mp hmem).symm, hstatus, ?_⟩
        rintro ⟨filters, limit, hbulk⟩
        cases hbulk
      · rintro _ hone id hmem
        cases hone
        exact mem_singleton.mp hmem
      · refine ⟨Nat.one_pos, Nat.le_refl 1, ?_, hupTo⟩
        simp only [Call.remaining, Request.limit, length_nil]
        omega
    · cases h
      refine .go _ hcall ⟨rfl, rfl, rfl, rfl, rfl⟩ rfl fun _ => ⟨trivial, hwithin, ?_, hupTo⟩
      simp only [Call.remaining, Request.limit]
      omega
  | chunk =>
    obtain ⟨⟨filters, limit, rfl⟩, hlt⟩ := hfits
    cases h
    obtain ⟨time, htime, hto⟩ := hupTo filters limit rfl
    refine .lock { request := .bulk filters limit, actor, startedAt, dead, replayed
                   steps := steps + 1, phase := .locked (selectChunk s filters _)}
      hcall ⟨rfl, rfl, rfl, rfl, rfl⟩ rfl ⟨nodup_selectChunk hids filters _, ?_, ?_, ?_⟩
      fun _ => ⟨⟨⟨filters, limit, rfl⟩, hlt⟩, ?_, ?_, hupTo⟩
    · intro id hid
      obtain ⟨-, -, -, -, hfree⟩ := mem_selectChunk hid
      exact hfree
    · intro id hid
      obtain ⟨row, hrow, hrowid, hretryable, -⟩ := mem_selectChunk hid
      obtain ⟨hstatus, hbound⟩ := retryable_iff hretryable
      rw [hto] at hbound
      exact ⟨row, hrow, hrowid, hstatus, fun _ => Nat.le_trans (of_decide_eq_true hbound) htime⟩
    · rintro struct hone
      cases hone
    · have hlength := length_selectChunk_le s filters (min bulkRetryChunk (limit - replayed.length))
      simp only [Call.held, Request.limit] at hlt ⊢
      omega
    · simp only [Call.remaining, Request.limit] at hpotential ⊢
      omega
  | locked ids =>
    obtain ⟨hbulk, hlt⟩ := hfits
    cases h
    refine .go _ hcall ⟨rfl, rfl, rfl, rfl, rfl⟩ rfl fun _ => ⟨hlt, hwithin, ?_, hupTo⟩
    simp only [Call.remaining] at hpotential hlt ⊢
    omega
  | commit ids now =>
    have hnext := Effect.commit (s := s) ids now hcall rfl
    simp only [next, some.injEq, length_map] at h
    exact h ▸ hnext
  | left =>
    obtain ⟨filters, limit, rfl⟩ := hfits
    cases h
    refine .go _ hcall ⟨rfl, rfl, rfl, rfl, rfl⟩ rfl fun _ => ⟨trivial, hwithin, ?_, hupTo⟩
    simp only [Call.remaining] at hpotential ⊢
    omega
  | returned result | crashed => cases h

theorem effect_of_step
    (hsound : ∀ (pid : ℕ) (call : Call), s.calls[pid]? = some call → call.Sound) (h : step s e = some t) :
    Effect s e t := by
  cases e with
  | tick time | channel id channel | finish job =>
    cases h
    exact .other rfl rfl rfl rfl
  | create id activity channelId =>
    obtain ⟨hnew, h⟩ := ite_none_left_eq_some.mp h
    cases h
    exact .create id activity channelId hnew
  | read process id =>
    obtain ⟨d, -, rfl⟩ := map_eq_some_iff.mp h
    exact .other rfl rfl rfl rfl
  | prepare process write =>
    obtain ⟨struct, -, hattrs⟩ := bind_eq_some_iff.mp h
    obtain ⟨attrs, -, hprepared⟩ := bind_eq_some_iff.mp hattrs
    cases hprepared
    exact .other rfl rfl rfl rfl
  | write process =>
    obtain ⟨w, hw, hwrite⟩ := bind_eq_some_iff.mp h
    obtain ⟨hfree, hwrite⟩ := ite_none_left_eq_some.mp hwrite
    cases hwrite
    exact .write hw (by simpa using hfree)
  | retryDelivery process actor active =>
    obtain ⟨struct, hstruct, rfl⟩ := map_eq_some_iff.mp h
    have hupTo : ∀ filters limit, Request.one struct = .bulk filters limit →
        ∃ time ≤ s.clock, filters.upTo = some time := fun _ _ hbulk => by cases hbulk
    cases hphase : checkDelivery struct active with
    | begin =>
      refine .start _ ⟨⟨⟨⟨struct, rfl⟩, rfl⟩, Nat.zero_le _, Nat.le_refl 4, hupTo⟩, rfl, rfl, rfl⟩ ?_
      rintro _ hone -
      cases hone
      exact ⟨process, actor, active, rfl, hstruct, hphase⟩
    | returned result =>
      refine .start _ ⟨⟨trivial, Nat.zero_le _, Nat.zero_le _, hupTo⟩, rfl, rfl, rfl⟩ ?_
      intro _ _ hended
      cases hended
    | _ =>
      unfold checkDelivery at hphase
      split_ifs at hphase
  | retryDeadLetters filters actor limit =>
    cases h
    have hupTo : ∀ f n, Request.bulk (filters.startedAt s.clock) limit = .bulk f n →
        ∃ time ≤ s.clock, f.upTo = some time := by
      intro f n hbulk
      cases hbulk
      refine ⟨_, ?_, rfl⟩
      cases filters.upTo with
      | none => exact Nat.le_refl _
      | some time => exact Nat.min_le_right _ _
    refine .start _ ⟨?_, ?_, rfl, rfl⟩ fun _ hone => by cases hone
    · by_cases hlimit : limit = 0
      · rw [if_pos hlimit]
        exact ⟨⟨_, _, rfl⟩, Nat.zero_le _, Nat.le_add_left _ _, hupTo⟩
      · rw [if_neg hlimit]
        exact ⟨⟨⟨_, _, rfl⟩, Nat.pos_of_ne_zero hlimit⟩, Nat.zero_le _,
          Nat.le_of_eq (Nat.zero_add _), hupTo⟩
    · split <;> rfl
  | advance pid =>
    obtain ⟨call, hcall, hnext⟩ := bind_eq_some_iff.mp h
    exact effect_of_next hids hcall (hsound pid call hcall) hnext
  | crash pid =>
    obtain ⟨call, hcall, rfl⟩ := map_eq_some_iff.mp h
    exact .crash (filter_eq_some_iff.mp hcall).1

end

/-- The rows a call holds are dead letters, for a bulk call from before its start. -/
structure Holds (s : State) (pid : ℕ) (call : Call) : Prop where
  locks : ∀ id ∈ call.held, s.locks id = some pid
  dead : ∀ id ∈ call.held, ∃ row ∈ s.rows, row.id = id ∧ row.status = .failed ∧
    (call.request.IsBulk → row.updatedAt ≤ call.startedAt)
  one : ∀ struct, call.request = .one struct → ∀ id ∈ call.held, id = struct.id

structure Inv (s : State) : Prop where
  ids : (s.rows.map (·.id)).Nodup
  sound : ∀ (pid : ℕ) (call : Call), s.calls[pid]? = some call → call.Sound
  holds : ∀ (pid : ℕ) (call : Call), s.calls[pid]? = some call → Holds s pid call
  locked : ∀ id pid, s.locks id = some pid → ∃ call, s.calls[pid]? = some call ∧ id ∈ call.held

theorem Holds.of_kept (h : Holds s q call) (hkept : ∀ id, s.locks id = some q →
      t.locks id = some q ∧ ∀ row ∈ s.rows, row.id = id → row ∈ t.rows) : Holds t q call where
  locks id hid := (hkept id (h.locks id hid)).1
  dead id hid := by
    obtain ⟨row, hrow, hrowid, hfailed⟩ := h.dead id hid
    exact ⟨row, (hkept id (h.locks id hid)).2 row hrow hrowid, hrowid, hfailed⟩
  one := h.one

theorem holds_of_nil (h : call.held = []) : Holds s pid call := by
  refine ⟨?_, ?_, ?_⟩ <;> simp [h]

theorem held_next (request : Request) (done count : ℕ) (actor : Actor) (startedAt : ℕ)
    (dead replayed : List Uuid) (steps : ℕ) :
    Call.held ⟨request, actor, request.next done count, startedAt, dead, replayed, steps⟩ = [] := by
  cases request with
  | one struct | bulk filters limit =>
    simp only [Request.next]
    split <;> rfl

theorem Call.Sound.commit (h : call.Sound) (hphase : call.phase = .commit ids now)
    {retried : List Uuid} (hlength : retried.length ≤ ids.length) :
    Call.Sound {call with
      steps := call.steps + 1
      phase := call.request.next call.replayed.length retried.length
      replayed := call.replayed ++ retried} := by
  obtain ⟨hfits, hwithin, hpotential, hupTo⟩ := h
  obtain ⟨request, actor, phase, startedAt, dead, replayed, steps⟩ := call
  cases hphase
  have hheld := held_next request replayed.length retried.length actor startedAt dead
    (replayed ++ retried) (steps + 1)
  simp only [Call.Fits] at hfits
  simp only [Call.held] at hwithin
  simp only [Call.remaining] at hpotential
  have hwithin' : (replayed ++ retried).length ≤ request.limit := by
    rw [length_append]
    omega
  refine ⟨?_, by rw [hheld]; exact hwithin', ?_, hupTo⟩
  · cases request with
    | one struct =>
      simp only [Request.next]
      split <;> trivial
    | bulk filters limit =>
      simp only [Request.next]
      split
      · exact ⟨filters, limit, rfl⟩
      · rename_i hgoes
        refine ⟨⟨filters, limit, rfl⟩, ?_⟩
        simp only [Request.limit, length_append]
        omega
  · cases request with
    | one struct =>
      simp only [Request.next]
      split <;> simp only [Call.remaining, Request.limit] at hpotential hfits ⊢ <;> omega
    | bulk filters limit =>
      simp only [Request.next]
      -- a chunk that goes on has replayed at least one delivery
      split
      · simp only [Call.remaining, Request.limit] at hpotential hfits ⊢
        omega
      · rename_i hgoes
        have hchunk : 0 < bulkRetryChunk := Nat.succ_pos 499
        simp only [Call.remaining, Request.limit, length_append] at hpotential hfits ⊢
        omega

theorem unlock_locks_iff (s : State) (pid : ℕ) :
    (s.unlock pid).locks id = some q ↔ s.locks id = some q ∧ q ≠ pid := by
  simp only [State.unlock]
  split
  · rename_i hpid
    rw [hpid]
    simp only [reduceCtorEq, some.injEq, false_iff, not_and, not_not]
    exact Eq.symm
  · rename_i hpid
    refine ⟨fun h => ⟨h, ?_⟩, fun h => h.1⟩
    rintro rfl
    exact hpid h

theorem Inv.of_unlock (h : Inv s) (hsound : call'.Sound) (hheld : call'.held = [])
    (hids : (t.rows.map (·.id)).Nodup) (hkept : ∀ row ∈ s.rows, s.locks row.id ≠ some pid → row ∈ t.rows)
    (hlocks : t.locks = (s.unlock pid).locks) (hcalls : t.calls = s.calls.set pid call') : Inv t where
  ids := hids
  sound := by
    rw [hcalls]
    exact forall_calls_set hsound fun q call _ hq => h.sound q call hq
  holds := by
    rw [hcalls]
    refine forall_calls_set (holds_of_nil hheld) fun q call hne hq => ?_
    refine (h.holds q call hq).of_kept fun id hid => ⟨?_, ?_⟩
    · rw [hlocks]
      exact (unlock_locks_iff s pid).mpr ⟨hid, hne⟩
    · rintro row hrow rfl
      refine hkept row hrow ?_
      rw [hid]
      exact fun hpid => hne (some.inj hpid)
  locked id q hq := by
    rw [hlocks] at hq
    obtain ⟨hold, hne⟩ := (unlock_locks_iff s pid).mp hq
    obtain ⟨call, hcall, hid⟩ := h.locked id q hold
    exact ⟨call, by rw [hcalls, getElem?_set_ne (Ne.symm hne)]; exact hcall, hid⟩

theorem Inv.create {channelId : Uuid} {activity : Activity} (h : Inv s)
    (hnew : id ∉ s.rows.map (·.id)) :
    Inv {s with rows := s.rows ++ [createDelivery id activity channelId s.clock]} := by
  refine ⟨?_, h.sound, fun pid call hcall => ?_, h.locked⟩
  · rw [map_append]
    exact h.ids.snoc hnew
  · exact (h.holds pid call hcall).of_kept fun id hid =>
      ⟨hid, fun row hrow _ => mem_append_left _ hrow⟩

theorem Inv.write (h : Inv s) (w : Prepared) (hfree : s.locks w.struct.id = none)
    (prepared : ℕ → Option Prepared) :
    Inv {s with
      prepared
      rows := s.rows.map fun d =>
        if d.id = w.struct.id then update w.now w.struct d w.attrs else d} := by
  refine ⟨?_, h.sound, fun pid call hcall => ?_, h.locked⟩
  · rw [map_id_map (written_id w)]
    exact h.ids
  · refine (h.holds pid call hcall).of_kept fun id hid => ⟨hid, ?_⟩
    rintro row hrow rfl
    have hne : row.id ≠ w.struct.id := by
      intro heq
      rw [heq, hfree] at hid
      cases hid
    exact List.mem_map.mpr ⟨row, hrow, if_neg hne⟩

theorem Inv.start (h : Inv s) (hstarts : call.Starts s) : Inv {s with calls := s.calls ++ [call]} := by
  refine ⟨h.ids, forall_calls_append hstarts.sound h.sound,
    forall_calls_append (holds_of_nil hstarts.held) fun q call hq => ?_, fun id q hq => ?_⟩
  · exact (h.holds q call hq).of_kept fun id hid => ⟨hid, fun row hrow _ => hrow⟩
  · obtain ⟨c, hc, hid⟩ := h.locked id q hq
    exact ⟨c, getElem?_append_of_eq_some hc _, hid⟩

theorem calls_setCall_self (hcall : s.calls[pid]? = some call) :
    (s.setCall pid call').calls[pid]? = some call' :=
  getElem?_set_self (List.getElem?_eq_some_iff.mp hcall).1

theorem calls_setCall_ne (hne : pid ≠ q) (hcall : s.calls[q]? = some call) :
    (s.setCall pid call').calls[q]? = some call := by
  rw [State.setCall, getElem?_set_ne hne]
  exact hcall

theorem Inv.go (h : Inv s) (hcall : s.calls[pid]? = some call) (hgoes : call.Goes call')
    (hheld : call'.held = call.held) (hsound : call'.Sound) : Inv (s.setCall pid call') := by
  refine ⟨h.ids, forall_calls_set hsound fun q c _ hq => h.sound q c hq,
    forall_calls_set ?_ fun q c _ hq => ?_, fun id q hq => ?_⟩
  · obtain ⟨hlocks, hdead, hone⟩ := h.holds pid call hcall
    refine ⟨?_, ?_, ?_⟩
    · rw [hheld]
      exact hlocks
    · rw [hheld, hgoes.request, hgoes.startedAt]
      exact hdead
    · rw [hheld, hgoes.request]
      exact hone
  · exact (h.holds q c hq).of_kept fun id hid => ⟨hid, fun row hrow _ => hrow⟩
  · obtain ⟨c, hc, hid⟩ := h.locked id q hq
    by_cases hpid : pid = q
    · subst hpid
      rw [hcall] at hc
      cases hc
      exact ⟨call', calls_setCall_self hcall, hheld ▸ hid⟩
    · exact ⟨c, calls_setCall_ne hpid hc, hid⟩

theorem Inv.lock (h : Inv s) (hcall : s.calls[pid]? = some call) (hgoes : call.Goes call')
    (hheld : call.held = []) (hpicks : Picks s call call'.held) (hsound : call'.Sound) :
    Inv ((s.lock pid call'.held).setCall pid call') := by
  refine ⟨h.ids, forall_calls_set hsound fun q c _ hq => h.sound q c hq,
    forall_calls_set ⟨fun id hid => if_pos hid, ?_, ?_⟩ fun q c _ hq => ?_, fun id q hq => ?_⟩
  · rw [hgoes.request, hgoes.startedAt]
    exact hpicks.dead
  · rw [hgoes.request]
    exact hpicks.one
  · refine (h.holds q c hq).of_kept fun id hid => ⟨?_, fun row hrow _ => hrow⟩
    have hnot : id ∉ call'.held := by
      intro hmem
      rw [hpicks.free id hmem] at hid
      cases hid
    exact (if_neg hnot).trans hid
  · have hcalls : (s.lock pid call'.held).calls = s.calls := rfl
    by_cases hmem : id ∈ call'.held
    · have hpid : some pid = some q := (if_pos hmem).symm.trans hq
      cases hpid
      exact ⟨call', calls_setCall_self (hcalls ▸ hcall), hmem⟩
    · obtain ⟨c, hc, hid⟩ := h.locked id q ((if_neg hmem).symm.trans hq)
      have hne : pid ≠ q := by
        rintro rfl
        rw [hcall] at hc
        cases hc
        rw [hheld] at hid
        cases hid
      exact ⟨c, calls_setCall_ne hne (hcalls ▸ hc), hid⟩

theorem Inv.of_effect (h : Inv s) (heffect : Effect s e t) : Inv t := by
  cases heffect with
  | other hrows hlocks haudits hcalls =>
    refine ⟨?_, ?_, ?_, ?_⟩
    · rw [hrows]
      exact h.ids
    · rw [hcalls]
      exact h.sound
    · rw [hcalls]
      refine fun pid call hcall => (h.holds pid call hcall).of_kept fun id hid => ?_
      rw [hrows, hlocks]
      exact ⟨hid, fun row hrow _ => hrow⟩
    · rw [hlocks, hcalls]
      exact h.locked
  | create id activity channelId hnew => exact h.create hnew
  | @write process w hw hfree => exact h.write w hfree _
  | start call hstarts => exact h.start hstarts
  | @go pid call call' hcall hgoes hheld hsound =>
    exact h.go hcall hgoes hheld (hsound (h.sound pid call hcall))
  | @lock pid call call' hcall hgoes hheld hpicks hsound =>
    exact h.lock hcall hgoes hheld hpicks (hsound (h.sound pid call hcall))
  | @commit pid call ids now hcall hphase =>
    have hids : ((s.rows.map fun d =>
        if flips ids d then resetDeadLetter now call.actor.retriedBy d else d).map (·.id)).Nodup := by
      rw [map_id_map (flipped_id ids now _)]
      exact h.ids
    have hheld : call.held = ids := by simp only [Call.held, hphase]
    refine h.of_unlock ?_ (held_next _ _ _ _ _ _ _ _) hids ?_ rfl rfl
    · rw [map_id_resetDeadLetters, length_resetDeadLetters]
      exact (h.sound pid call hcall).commit hphase (length_flipped_le h.ids)
    · intro row hrow hlock
      have hnot : flips ids row = false := by
        refine Bool.eq_false_iff.mpr fun hflips => hlock ?_
        exact (h.holds pid call hcall).locks row.id (hheld ▸ (flips_iff.mp hflips).1)
      refine List.mem_map.mpr ⟨row, hrow, ?_⟩
      rw [hnot]
      rfl
  | @crash pid call hcall =>
    refine h.of_unlock ?_ rfl h.ids (fun row hrow _ => hrow) rfl rfl
    obtain ⟨-, hwithin, hpotential, hupTo⟩ := h.sound pid call hcall
    exact ⟨trivial, Nat.le_trans (Nat.add_le_add_left (Nat.zero_le _) _) hwithin,
      Nat.le_trans (Nat.add_le_add_left (Nat.zero_le _) _) hpotential, hupTo⟩

end Converger.Deliveries.DeadLetters
