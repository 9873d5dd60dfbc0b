import Converger.DeadLetterSteps

/-!
# Concurrent replays of dead letters

A dead letter is replayed by one call, which writes one audit entry for it. A call takes a bounded
number of steps and keeps its limit. That it replays nothing twice, and only what was a dead letter
when it started, rests on the time bound of the bulk calls: a failure that is stored after the start
of a call must carry a later time, which it does not where the time was read before the start.
-/
namespace Converger.Deliveries.DeadLetters
open GuardedRuns List Option

variable {s t : State} {e : Event} {pid q : ℕ} {call call' : Call} {ids : List Uuid} {now : ℕ}
  {base : Uuid → ℕ} {rows : List Delivery}

/-! ### Audit entries -/

/-- The entries of a call are what it has replayed, a delivery's `retry_count` is the number of its
entries (over what it was at first), and the entries of a delivery carry different counts. -/
structure Audited (base : Uuid → ℕ) (s : State) : Prop where
  fresh : ∀ id, id ∉ s.rows.map (·.id) → base id = 0
  counted : ∀ row ∈ s.rows,
    row.retryCount = base row.id + (s.audits.map (·.resourceId)).count row.id
  reached : ∀ a ∈ s.audits, ∃ row ∈ s.rows, row.id = a.resourceId ∧ a.retryCount ≤ row.retryCount
  numbered : (s.audits.map fun a => (a.resourceId, a.retryCount)).Nodup
  started : ∀ a ∈ s.audits, a.call < s.calls.length
  entries : ∀ (pid : ℕ) (call : Call), s.calls[pid]? = some call →
    (s.audits.filter (·.call = pid)).map (·.resourceId) = call.replayed

theorem Audited.of_set (h : Audited base s) (hcall : s.calls[pid]? = some call)
    (hreplayed : call'.replayed = call.replayed) (hrows : t.rows = s.rows) (haudits : t.audits = s.audits)
    (hcalls : t.calls = s.calls.set pid call') : Audited base t := by
  obtain ⟨hfresh, hcounted, hreached, hnumbered, hstarted, hentries⟩ := h
  rw [← hrows] at hfresh hcounted hreached
  rw [← haudits] at hcounted hreached hnumbered hstarted hentries
  refine ⟨hfresh, hcounted, hreached, hnumbered, ?_, ?_⟩
  · rw [hcalls, length_set]
    exact hstarted
  · rw [hcalls]
    exact forall_calls_set (hreplayed.symm ▸ hentries pid call hcall) fun q c _ hq => hentries q c hq

theorem Audited.of_written (h : Audited base s) {f : Delivery → Delivery} (hid : ∀ d, (f d).id = d.id)
    (hcount : ∀ d, (f d).retryCount = d.retryCount) (hrows : t.rows = s.rows.map f)
    (haudits : t.audits = s.audits) (hcalls : t.calls = s.calls) : Audited base t := by
  obtain ⟨hfresh, hcounted, hreached, hnumbered, hstarted, hentries⟩ := h
  refine ⟨?_, ?_, ?_, ?_, ?_, ?_⟩
  · rw [hrows, map_id_map hid]
    exact hfresh
  · intro row hrow
    rw [hrows] at hrow
    obtain ⟨d, hd, rfl⟩ := List.mem_map.mp hrow
    rw [hid, hcount, haudits]
    exact hcounted d hd
  · intro a ha
    rw [haudits] at ha
    obtain ⟨d, hd, hresource, hle⟩ := hreached a ha
    refine ⟨f d, ?_, (hid d).trans hresource, (hcount d).symm ▸ hle⟩
    rw [hrows]
    exact List.mem_map_of_mem hd
  · rw [haudits]
    exact hnumbered
  · rw [haudits, hcalls]
    exact hstarted
  · rw [haudits, hcalls]
    exact hentries

theorem Audited.commit (h : Audited base s) (hids : (s.rows.map (·.id)).Nodup)
    (hcall : s.calls[pid]? = some call) (hreplayed : call'.replayed = call.replayed ++ flipped s ids) :
    Audited base ((replay s pid call ids now).setCall pid call') := by
  set reset := fun d => if flips ids d then resetDeadLetter now call.actor.retriedBy d else d
  set new := (resetDeadLetters s call.actor ids now).map (retryAuditLog s pid call)
  have hresource : new.map (·.resourceId) = flipped s ids := by
    rw [List.map_map]
    exact map_id_resetDeadLetters s call.actor ids now
  have hnew : ∀ a ∈ new, a.call = pid ∧ ∃ d ∈ s.rows, flips ids d = true ∧ d.id = a.resourceId ∧
      a.retryCount = d.retryCount + 1 := by
    intro a ha
    obtain ⟨r, hr, rfl⟩ := List.mem_map.mp ha
    obtain ⟨d, hd, rfl⟩ := List.mem_map.mp hr
    obtain ⟨hrow, hflips⟩ := mem_filter.mp hd
    exact ⟨rfl, d, hrow, hflips, rfl, rfl⟩
  have hreset : ∀ d, (reset d).id = d.id := flipped_id ids now call.actor.retriedBy
  have hle : ∀ d, d.retryCount ≤ (reset d).retryCount := by
    intro d
    simp only [reset]
    split
    · exact Nat.le_succ _
    · exact Nat.le_refl _
  refine ⟨?_, ?_, ?_, ?_, ?_, ?_⟩
  · change ∀ id, id ∉ (s.rows.map reset).map (·.id) → base id = 0
    rw [map_id_map hreset]
    exact h.fresh
  · intro row hrow
    obtain ⟨d, hd, rfl⟩ := List.mem_map.mp hrow
    change (reset d).retryCount =
      base (reset d).id + ((s.audits ++ new).map (·.resourceId)).count (reset d).id
    rw [hreset, map_append, count_append, hresource, ← Nat.add_assoc, ← h.counted d hd]
    -- the row is one of the flipped ones, once, or none of them
    by_cases hflips : flips ids d = true
    · have hmem := (mem_flipped_of_mem hids hd).mpr hflips
      rw [count_eq_one_of_mem (nodup_flipped hids ids) hmem]
      simp only [reset, if_pos hflips]
      rfl
    · have hnot : d.id ∉ flipped s ids := fun hmem => hflips ((mem_flipped_of_mem hids hd).mp hmem)
      rw [count_eq_zero_of_not_mem hnot]
      simp only [reset, if_neg hflips]
      rfl
  · intro a ha
    rcases mem_append.mp ha with hold | ha
    · obtain ⟨d, hd, hresource, hcount⟩ := h.reached a hold
      exact ⟨reset d, List.mem_map_of_mem hd, (hreset d).trans hresource, Nat.le_trans hcount (hle d)⟩
    · obtain ⟨-, d, hd, hflips, hresource, hcount⟩ := hnew a ha
      refine ⟨reset d, List.mem_map_of_mem hd, (hreset d).trans hresource, ?_⟩
      simp only [reset, if_pos hflips, hcount]
      exact Nat.le_refl _
  · change ((s.audits ++ new).map fun a => (a.resourceId, a.retryCount)).Nodup
    rw [map_append]
    refine nodup_append.mpr ⟨h.numbered, ?_, ?_⟩
    · refine List.Nodup.of_map Prod.fst ?_
      rw [List.map_map]
      exact hresource ▸ nodup_flipped hids ids
    · intro x hx y hy hxy
      obtain ⟨a, ha, rfl⟩ := List.mem_map.mp hx
      obtain ⟨b, hb, rfl⟩ := List.mem_map.mp hy
      obtain ⟨hsame, hnumber⟩ := Prod.mk.inj hxy
      obtain ⟨d, hd, had, hcount⟩ := h.reached a ha
      obtain ⟨-, d', hd', -, hbd, hcount'⟩ := hnew b hb
      cases row_unique hids hd hd' (had.trans (hsame.trans hbd.symm))
      omega
  · intro a ha
    change a.call < (s.calls.set pid call').length
    rw [length_set]
    rcases mem_append.mp ha with hold | ha
    · exact h.started a hold
    · rw [(hnew a ha).1]
      exact (List.getElem?_eq_some_iff.mp hcall).1
  · change ∀ (q : ℕ) (c : Call), (s.calls.set pid call')[q]? = some c →
      ((s.audits ++ new).filter (·.call = q)).map (·.resourceId) = c.replayed
    simp only [filter_append, map_append]
    refine forall_calls_set ?_ fun q c hne hq => ?_
    · have hall : new.filter (·.call = pid) = new :=
        filter_eq_self.mpr fun a ha => decide_eq_true (hnew a ha).1
      rw [hall, hresource, hreplayed, h.entries pid call hcall]
    · have hnone : new.filter (·.call = q) = [] :=
        filter_eq_nil_iff.mpr fun a ha => by simp [(hnew a ha).1, Ne.symm hne]
      rw [hnone, h.entries q c hq]
      exact append_nil _

theorem Audited.of_effect (h : Audited base s) (hs : Inv s) (heffect : Effect s e t) :
    Audited base t := by
  cases heffect with
  | other hrows hlocks haudits hcalls =>
    refine h.of_written (f := id) (fun _ => rfl) (fun _ => rfl) ?_ haudits hcalls
    rw [List.map_id, hrows]
  | create id activity channelId hnew =>
    have hzero : base id = 0 := h.fresh id hnew
    have hnone : id ∉ s.audits.map (·.resourceId) := by
      intro hmem
      obtain ⟨a, ha, rfl⟩ := List.mem_map.mp hmem
      obtain ⟨row, hrow, hid, -⟩ := h.reached a ha
      exact hnew (hid ▸ List.mem_map_of_mem hrow)
    refine ⟨fun x hx => h.fresh x fun hmem => hx ?_, fun row hrow => ?_, fun a ha => ?_,
      h.numbered, h.started, h.entries⟩
    · rw [map_append]
      exact mem_append_left _ hmem
    · rcases mem_snoc.mp hrow with hrow | rfl
      · exact h.counted row hrow
      · change 0 = base id + (s.audits.map (·.resourceId)).count id
        rw [hzero, count_eq_zero_of_not_mem hnone]
    · obtain ⟨row, hrow, hreached⟩ := h.reached a ha
      exact ⟨row, mem_append_left _ hrow, hreached⟩
  | @write process w hw hfree =>
    refine h.of_written (written_id w) (fun d => ?_) rfl rfl rfl
    split <;> rfl
  | start call hstarts =>
    refine ⟨h.fresh, h.counted, h.reached, h.numbered, fun a ha => ?_, ?_⟩
    · rw [length_append]
      exact Nat.lt_add_right _ (h.started a ha)
    · refine forall_calls_append ?_ h.entries
      have hnone : s.audits.filter (·.call = s.calls.length) = [] :=
        filter_eq_nil_iff.mpr fun a ha => by simp [Nat.ne_of_lt (h.started a ha)]
      rw [hstarts.replayed, hnone]
      rfl
  | go call' hcall hgoes | lock call' hcall hgoes => exact h.of_set hcall hgoes.replayed rfl rfl rfl
  | commit ids now hcall hphase =>
    refine h.commit hs.ids hcall ?_
    rw [map_id_resetDeadLetters]
  | @crash pid call hcall =>
    have hsame : {call with phase := .crashed}.replayed = call.replayed := rfl
    exact h.of_set hcall hsame rfl rfl rfl

/-! ### The time bound -/

/-- The delivery is a dead letter, and looks as if it had been one at the time. -/
def DeadBy (time : ℕ) (d : Delivery) : Prop := d.status = .failed ∧ d.updatedAt ≤ time

instance (time : ℕ) (d : Delivery) : Decidable (DeadBy time d) := inferInstanceAs (Decidable (_ ∧ _))

/-- A write does not make a delivery look as if it had failed before a running bulk call started,
and the struct a `retry_delivery/2` goes on with is still that of a dead letter. -/
def Timely (s : State) : Event → Prop
  | .write process => ∀ w ∈ s.prepared process, ∀ row ∈ s.rows, row.id = w.struct.id →
    ∀ call ∈ s.calls, call.ended = false → call.request.IsBulk →
      DeadBy call.startedAt (update w.now w.struct row w.attrs) → DeadBy call.startedAt row
  | .retryDelivery process _ active => ∀ struct ∈ s.structs process,
    checkDelivery struct active = .begin → struct.id ∈ s.deadLetters
  | _ => True

instance (s : State) (e : Event) : Decidable (Timely s e) := by
  cases e <;> unfold Timely <;> infer_instance

/-- The call has replayed nothing twice, and only dead letters of its start. -/
def Call.Faithful (call : Call) : Prop :=
  call.replayed.Nodup ∧ ∀ id ∈ call.replayed, id ∈ call.dead

/-- What a running call may still replay are dead letters of its start, not replayed by it. -/
structure Timed (rows : List Delivery) (call : Call) : Prop where
  faithful : call.Faithful
  bulk : call.ended = false → call.request.IsBulk → ∀ row ∈ rows, DeadBy call.startedAt row →
    row.id ∈ call.dead ∧ row.id ∉ call.replayed
  one : call.ended = false → ∀ struct, call.request = .one struct → struct.id ∈ call.dead

/-- The table changes, but nothing new looks like a dead letter from before the start. -/
theorem Timed.of_rows {rows' : List Delivery} (h : Timed rows call)
    (hrows : call.ended = false → call.request.IsBulk → ∀ row ∈ rows', DeadBy call.startedAt row →
      ∃ d ∈ rows, d.id = row.id ∧ DeadBy call.startedAt d) : Timed rows' call where
  faithful := h.faithful
  bulk hended hbulk row hrow hdead := by
    obtain ⟨d, hd, hid, hold⟩ := hrows hended hbulk row hrow hdead
    exact hid ▸ h.bulk hended hbulk d hd hold
  one := h.one

theorem Timed.of_goes (h : Timed rows call) (hgoes : call.Goes call') : Timed rows call' where
  faithful := by
    rw [Call.Faithful, hgoes.replayed, hgoes.dead]
    exact h.faithful
  bulk _ := by
    rw [hgoes.request, hgoes.startedAt, hgoes.dead, hgoes.replayed]
    exact h.bulk hgoes.running
  one _ := by
    rw [hgoes.request, hgoes.dead]
    exact h.one hgoes.running

theorem mem_flip {row : Delivery} {actor : String} (hstatus : row.status = .failed)
    (hrow : row ∈ s.rows.map fun d => if flips ids d then resetDeadLetter now actor d else d) :
    row ∈ s.rows ∧ flips ids row = false := by
  obtain ⟨d, hd, rfl⟩ := List.mem_map.mp hrow
  by_cases hflips : flips ids d = true
  · rw [if_pos hflips] at hstatus
    cases hstatus
  · rw [if_neg hflips]
    exact ⟨hd, Bool.eq_false_iff.mpr hflips⟩

theorem Timed.commit (h : Timed s.rows call) (hs : Inv s) (hcall : s.calls[pid]? = some call)
    (hphase : call.phase = .commit ids now) (hrequest : call'.request = call.request)
    (hstartedAt : call'.startedAt = call.startedAt) (hdead : call'.dead = call.dead)
    (hreplayed : call'.replayed = call.replayed ++ flipped s ids) (actor : String) :
    Timed (s.rows.map fun d => if flips ids d then resetDeadLetter now actor d else d) call' := by
  have hrunning : call.ended = false := by simp only [Call.ended, hphase]
  have hheld : call.held = ids := by simp only [Call.held, hphase]
  obtain ⟨-, hholds, hone⟩ := hs.holds pid call hcall
  rw [hheld] at hholds hone
  have hnew : ∀ id ∈ flipped s ids, id ∈ call.dead ∧ id ∉ call.replayed := by
    intro id hid
    obtain ⟨-, -, -, -, hmem⟩ := mem_flipped.mp hid
    obtain ⟨row, hrow, rfl, hstatus, hbefore⟩ := hholds id hmem
    cases hrequest : call.request with
    | bulk filters limit =>
      have hbulk : call.request.IsBulk := ⟨filters, limit, hrequest⟩
      exact h.bulk hrunning hbulk row hrow ⟨hstatus, hbefore hbulk⟩
    | one struct =>
      have hnil : call.replayed = [] := by
        have hfits := (hs.sound pid call hcall).fits
        simp only [Call.Fits, hphase, hrequest, Request.limit] at hfits
        exact eq_nil_of_length_eq_zero (Nat.lt_one_iff.mp hfits)
      rw [hone struct hrequest row.id hmem, hnil]
      exact ⟨h.one hrunning struct hrequest, not_mem_nil⟩
  refine ⟨⟨?_, ?_⟩, ?_, ?_⟩
  · rw [hreplayed]
    refine nodup_append.mpr ⟨h.faithful.1, nodup_flipped hs.ids ids, ?_⟩
    rintro id hid _ hflipped rfl
    exact (hnew id hflipped).2 hid
  · rw [hreplayed, hdead]
    exact forall_mem_append.mpr ⟨h.faithful.2, fun id hflipped => (hnew id hflipped).1⟩
  · rw [hrequest, hstartedAt, hdead, hreplayed]
    intro _ hbulk row hrow hby
    obtain ⟨hmem, hflips⟩ := mem_flip hby.1 hrow
    obtain ⟨hwas, hnot⟩ := h.bulk hrunning hbulk row hmem hby
    refine ⟨hwas, fun hid => ?_⟩
    rcases mem_append.mp hid with hold | hflipped
    · exact hnot hold
    · rw [(mem_flipped_of_mem hs.ids hmem).mp hflipped] at hflips
      cases hflips
  · rw [hrequest, hdead]
    exact fun _ => h.one hrunning

/-- What a running call may still replay is as it should be, for every call. -/
def AllTimed (s : State) : Prop :=
  ∀ (pid : ℕ) (call : Call), s.calls[pid]? = some call → Timed s.rows call

theorem AllTimed.of_effect (h : AllTimed s) (hs : Inv s) (htimely : Timely s e)
    (heffect : Effect s e t) : AllTimed t := by
  cases heffect with
  | other hrows hlocks haudits hcalls =>
    rw [AllTimed, hrows, hcalls]
    exact h
  | create id activity channelId hnew =>
    intro pid call hcall
    refine (h pid call hcall).of_rows fun _ _ row hrow hdead => ?_
    rcases mem_snoc.mp hrow with hold | rfl
    · exact ⟨row, hold, rfl, hdead⟩
    · cases hdead.1
  | @write process w hw hfree =>
    intro pid call hcall
    refine (h pid call hcall).of_rows fun hrunning hbulk row hrow hdead => ?_
    obtain ⟨d, hd, rfl⟩ := List.mem_map.mp hrow
    refine ⟨d, hd, (written_id w d).symm, ?_⟩
    by_cases hid : d.id = w.struct.id
    · rw [if_pos hid] at hdead
      exact htimely w hw d hd hid call (mem_of_getElem? hcall) hrunning hbulk hdead
    · rw [if_neg hid] at hdead
      exact hdead
  | start call hstarts hone =>
    refine forall_calls_append ⟨⟨?_, ?_⟩, fun _ _ row hrow hdead => ⟨?_, ?_⟩, ?_⟩ h
    · rw [hstarts.replayed]
      exact nodup_nil
    · rw [hstarts.replayed]
      exact fun id hid => absurd hid not_mem_nil
    · rw [hstarts.dead]
      exact List.mem_map_of_mem (mem_filter.mpr ⟨hrow, decide_eq_true hdead.1⟩)
    · rw [hstarts.replayed]
      exact not_mem_nil
    · intro hrunning struct hrequest
      obtain ⟨process, actor, active, rfl, hstruct, hbegin⟩ := hone struct hrequest hrunning
      rw [hstarts.dead]
      exact htimely struct hstruct hbegin
  | @go pid call call' hcall hgoes | @lock pid call call' hcall hgoes =>
    exact forall_calls_set ((h pid call hcall).of_goes hgoes) fun q c _ hq => h q c hq
  | @commit pid call ids now hcall hphase =>
    refine forall_calls_set ?_ fun q c _ hq => ?_
    · refine (h pid call hcall).commit hs hcall hphase ?_ ?_ ?_ ?_ _
      · rfl
      · rfl
      · rfl
      · rw [map_id_resetDeadLetters]
    · refine (h q c hq).of_rows fun _ _ row hrow hdead => ?_
      exact ⟨row, (mem_flip hdead.1 hrow).1, rfl, hdead⟩
  | @crash pid call hcall =>
    refine forall_calls_set ⟨(h pid call hcall).faithful, ?_, ?_⟩ fun q c _ hq => h q c hq
    · intro hrunning
      cases hrunning
    · intro hrunning
      cases hrunning

/-! ### Whole runs -/

theorem advances_of_held {id : Uuid} (hcall : s.calls[pid]? = some call) (hid : id ∈ call.held) :
    (step s (.advance pid)).isSome := by
  simp only [step, hcall, bind_some]
  obtain ⟨request, actor, phase, startedAt, dead, replayed, steps⟩ := call
  cases phase with
  | locked ids => rfl
  | commit ids now => rfl
  | _ => cases hid

/-- The call has ended, or goes on, or waits for a row that a call holds which goes on. -/
def Proceeds (s : State) (pid : ℕ) (call : Call) : Prop :=
  call.ended = true ∨ (step s (.advance pid)).isSome ∨
    ∃ struct q, call.request = .one struct ∧ s.locks struct.id = some q ∧
      (step s (.advance q)).isSome

theorem Inv.proceeds (hs : Inv s) (hcall : s.calls[pid]? = some call) : Proceeds s pid call := by
  have hfits := (hs.sound pid call hcall).fits
  have hstep : step s (.advance pid) = next s pid call := by simp only [step, hcall, bind_some]
  unfold Proceeds
  rw [hstep]
  obtain ⟨request, actor, phase, startedAt, dead, replayed, steps⟩ := call
  cases phase with
  | begin | locked ids | commit ids now => exact .inr (.inl rfl)
  | updating now =>
    obtain ⟨⟨struct, rfl⟩, -⟩ := hfits
    simp only [next]
    split
    · cases hlock : s.locks struct.id with
      | none => exact .inr (.inl rfl)
      | some q =>
        obtain ⟨holder, hholder, hid⟩ := hs.locked struct.id q hlock
        exact .inr (.inr ⟨struct, q, rfl, hlock, advances_of_held hholder hid⟩)
    · exact .inr (.inl rfl)
  | chunk =>
    obtain ⟨⟨filters, limit, rfl⟩, -⟩ := hfits
    exact .inr (.inl rfl)
  | left =>
    obtain ⟨filters, limit, rfl⟩ := hfits
    exact .inr (.inl rfl)
  | returned result | crashed => exact .inl rfl

/-- A delivery's `retry_count` in the table at first. -/
def retriesOf (rows : List Delivery) (id : Uuid) : ℕ :=
  (rows.find? (·.id = id)).elim 0 (·.retryCount)

theorem inv_stored (hids : (rows.map (·.id)).Nodup)
    (channels : Uuid → Channel) (clock : ℕ) : Inv (stored rows channels clock) where
  ids := hids
  sound _ _ hcall := by cases hcall
  holds _ _ hcall := by cases hcall
  locked _ _ hlock := by cases hlock

theorem audited_stored (hids : (rows.map (·.id)).Nodup) (channels : Uuid → Channel) (clock : ℕ) :
    Audited (retriesOf rows) (stored rows channels clock) where
  fresh id hid := by
    have hnone : rows.find? (·.id = id) = none := by
      refine find?_eq_none.mpr fun d hd => ?_
      simp only [decide_eq_true_eq]
      rintro rfl
      exact hid (List.mem_map_of_mem hd)
    rw [retriesOf, hnone]
    rfl
  counted row hrow := by
    have hfind : rows.find? (·.id = row.id) = some row := by
      cases hfound : rows.find? (·.id = row.id) with
      | none => exact absurd (find?_eq_none.mp hfound row hrow) (by simp)
      | some d =>
        have hid := find?_some (p := fun d : Delivery => decide (d.id = row.id)) hfound
        exact congrArg some (inj_on_of_nodup_map hids (mem_of_find?_eq_some hfound) hrow
          (of_decide_eq_true hid))
    rw [retriesOf, hfind]
    rfl
  reached _ ha := by cases ha
  numbered := nodup_nil
  started _ ha := by cases ha
  entries _ _ hcall := by cases hcall

structure Sound (base : Uuid → ℕ) (s : State) : Prop where
  inv : Inv s
  audited : Audited base s

theorem Sound.of_step (h : Sound base s) (hstep : step s e = some t) : Sound base t := by
  have heffect := effect_of_step h.inv.ids h.inv.sound hstep
  exact ⟨h.inv.of_effect heffect, h.audited.of_effect h.inv heffect⟩

/-- In every interleaving a call ends after a bounded number of steps, within its limit, and writes
an audit entry for each replay; `retry_count` counts the replays, and the replay that raised it to a
value belongs to one call. Where every step is timely, a call replays nothing twice and only dead
letters of its start. -/
theorem dead_letters_replayed {rows : List Delivery} {channels : Uuid → Channel} {clock : ℕ}
    {es : List Event} (hids : (rows.map (·.id)).Nodup)
    (h : run step (stored rows channels clock) es = some t) :
    (∀ (pid : ℕ) (call : Call), t.calls[pid]? = some call →
      call.steps ≤ 3 * call.request.limit + 1 ∧ Proceeds t pid call ∧
      call.replayed.length ≤ call.request.limit ∧
      (t.audits.filter (·.call = pid)).map (·.resourceId) = call.replayed) ∧
    (∀ row ∈ t.rows, row.retryCount =
      retriesOf rows row.id + (t.audits.map (·.resourceId)).count row.id) ∧
    (∀ a ∈ t.audits, ∀ b ∈ t.audits, a.resourceId = b.resourceId → a.retryCount = b.retryCount → a = b) ∧
    (Along step Timely (stored rows channels clock) es → ∀ call ∈ t.calls, call.Faithful) := by
  have hstored : Sound (retriesOf rows) (stored rows channels clock) :=
    ⟨inv_stored hids channels clock, audited_stored hids channels clock⟩
  have hsound := run_invariant Sound.of_step hstored h
  refine ⟨fun pid call hcall => ?_, hsound.audited.counted, fun a ha b hb hid hcount => ?_,
    fun htimely call hcall => ?_⟩
  · obtain ⟨-, hwithin, hpotential, -⟩ := hsound.inv.sound pid call hcall
    exact ⟨Nat.le_trans (Nat.le_add_right _ _) hpotential, hsound.inv.proceeds hcall,
      Nat.le_trans (Nat.le_add_right _ _) hwithin, hsound.audited.entries pid call hcall⟩
  · exact inj_on_of_nodup_map hsound.audited.numbered ha hb (Prod.ext hid hcount)
  · have hstep : ∀ {s e t}, Sound (retriesOf rows) s ∧ AllTimed s → Timely s e → step s e = some t →
        Sound (retriesOf rows) t ∧ AllTimed t := by
      rintro s e t ⟨hs, htimed⟩ htimely hstep
      exact ⟨hs.of_step hstep, htimed.of_effect hs.inv htimely
        (effect_of_step hs.inv.ids hs.inv.sound hstep)⟩
    have hnone : AllTimed (stored rows channels clock) := fun _ _ hcall => by cases hcall
    have htimed := (run_invariant_along hstep ⟨hstored, hnone⟩ htimely h).2
    obtain ⟨pid, hpid⟩ := getElem?_of_mem hcall
    exact (htimed pid call hpid).faithful

def failing : Delivery := {id := 1, channelId := 1}

/-- The worker stores the failure while a bulk call runs, before or after it has started. -/
def lastAttempt : List Event := [.tick 5, .read 0 1, .prepare 0 (.dead "timeout"), .tick 1]

def bulkRetry : Event := .retryDeadLetters {} ⟨"admin", "a"⟩ 10

def oneChunk : List Event := [.advance 0, .advance 0, .advance 0, .advance 0]

theorem dead_letters_replayed_stored_first :
    ∃ t call, run step (stored [failing] (fun _ => ⟨1, true⟩) 0)
        (lastAttempt ++ .write 0 :: bulkRetry :: oneChunk) = some t ∧ call ∈ t.calls ∧
      call.replayed = [1] ∧ call.Faithful := by
  obtain ⟨t, ht, call, hcall, hreplayed⟩ : ∃ t, run step (stored [failing] (fun _ => ⟨1, true⟩) 0)
      (lastAttempt ++ .write 0 :: bulkRetry :: oneChunk) = some t ∧ ∃ call ∈ t.calls, call.replayed = [1] := by
    decide +kernel
  have hids : ([failing].map (·.id)).Nodup := nodup_singleton _
  refine ⟨t, call, ht, hcall, hreplayed, ?_⟩
  exact (dead_letters_replayed hids ht).2.2.2 (by decide +kernel) call hcall

/-- The failure carries a time from before the start of the call, but is stored after it. -/
theorem later_failure_replayed :
    ∃ t call, run step (stored [failing] (fun _ => ⟨1, true⟩) 0)
        (lastAttempt ++ bulkRetry :: .write 0 :: oneChunk) = some t ∧ call ∈ t.calls ∧
      call.replayed = [1] ∧ call.dead = [] := by
  obtain ⟨t, ht, call, hcall, hreplayed⟩ : ∃ t, run step (stored [failing] (fun _ => ⟨1, true⟩) 0)
      (lastAttempt ++ bulkRetry :: .write 0 :: oneChunk) = some t ∧
      ∃ call ∈ t.calls, call.replayed = [1] ∧ call.dead = [] := by decide +kernel
  exact ⟨t, call, ht, hcall, hreplayed⟩

end Converger.Deliveries.DeadLetters
