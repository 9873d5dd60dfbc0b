import Converger.ConversationLifecycle

/-!
# Lifecycle events and the status they name

Every status change differs from the one before. Where the events of the changes are stored in the
order of the changes, the stored events followed by those still to be stored therefore alternate and
end in the current status, and no activity follows the event that closed the conversation: ordinary
activities are only accepted under the row lock while it is active.
-/
namespace Converger.ConversationLifecycle
open ActivityChangeset CreateActivity Function GuardedRuns Option

variable {attrs : Attrs} {a : Activity} {stamp : Option Stamp} {e : Event}

section Store
variable {cfg : Config} {s t : CreateActivity.State} {conversationId c : Uuid} {pid : ℕ} {call : Call}
  {out : Outcome} {act : Action}

def statusOf (s : CreateActivity.State) (conversationId : Uuid) : Option ConversationStatus :=
  (s.conversations conversationId).map Conversation.status

/-- The calls that hold the row lock and may not write to a closed conversation found it active. -/
def OpenUnderLock (conversationId : Uuid) (s : CreateActivity.State) : Prop :=
  ∀ pid call, s.calls pid = some call → call.phase.lock = some conversationId →
    call.opts.allowClosed = false → statusOf s conversationId = some .active

theorem statement_eq_some (h : CreateActivity.step cfg s (.statement pid out) = some t) :
    ∃ call act, s.calls pid = some call ∧ next cfg s call out = some act ∧
      perform s pid call act = t := by
  simp only [CreateActivity.step, bind_eq_some_iff, map_eq_some_iff] at h
  obtain ⟨call, hcall, act, hact, rfl⟩ := h
  exact ⟨call, act, hcall, hact, rfl⟩

theorem perform_status (pid : ℕ) (c : Uuid) (hfits : act.Fits s call.phase) :
    statusOf (perform s pid call act) c = statusOf s c := by
  cases act with
  | goto p => rfl
  | acquire d p => rfl
  | leave p => simp [statusOf, perform]
  | commit cv a stamp =>
    by_cases hc : c = a.conversationId
    · subst hc
      simp [statusOf, perform, State.commit, hfits.2]
    · simp [statusOf, perform, State.commit, hc]

/-- What the actions tell about the phase: only a commit commits, and the row lock is taken for a
closed conversation only by those who may. -/
def Suits (s : CreateActivity.State) (call : Call) : Action → Prop
  | .goto _ | .leave _ => ∀ a stamp, call.phase ≠ .commit a stamp
  | .acquire c _ => (∀ a stamp, call.phase ≠ .commit a stamp) ∧
      (call.opts.allowClosed = false → statusOf s c = some .active)
  | .commit _ a stamp => call.phase = .commit a stamp

theorem next_suits (h : next cfg s call out = some act) : Suits s call act := by
  have hnext := next_cases h
  generalize hphase : call.phase = p at hnext
  cases hnext with
  | raised hp | found hp => exact fun a stamp h => hp a stamp (hphase.symm.trans h)
  | allocated hch hcv hopen =>
    refine ⟨by simp [hphase], fun hclosed => ?_⟩
    simp only [hclosed, Bool.false_eq_true, false_or] at hopen
    simp [statusOf, hcv, hopen]
  | committed => exact hphase
  | _ => simp [Suits, hphase]

theorem perform_committed (hphase : ∀ a stamp, call.phase ≠ .commit a stamp)
    (hsuits : Suits s call act) :
    (perform s pid call act).committed conversationId = s.committed conversationId := by
  cases act with
  | goto p => rfl
  | acquire d p => rfl
  | leave p => simp [perform, State.committed]
  | commit cv a stamp => exact absurd hsuits (hphase a stamp)

theorem perform_commit_committed (s : CreateActivity.State) (pid : ℕ) (call : Call)
    (conversationId : Uuid) (cv : Conversation) (a : Activity) (stamp : Option Stamp) :
    (perform s pid call (.commit cv a stamp)).committed conversationId =
      s.committed conversationId ++ if a.conversationId = conversationId then [a] else [] := by
  by_cases h : a.conversationId = conversationId <;> simp [perform, State.commit, State.committed, h]

theorem OpenUnderLock.statement (hs : OpenUnderLock conversationId s) (hcall : s.calls pid = some call)
    (hnext : next cfg s call out = some act) :
    OpenUnderLock conversationId (perform s pid call act) := by
  have hfits := next_fits hnext
  unfold OpenUnderLock
  rw [perform_calls, perform_status pid _ hfits]
  refine forall_calls_update.mpr ⟨fun hlock hclosed => ?_, fun q _ call' hq => hs q call' hq⟩
  cases act with
  | goto p => exact hs pid call hcall (hfits.1 ▸ hlock) hclosed
  | acquire d p =>
    cases hfits.2.2.1.symm.trans hlock
    exact (next_suits hnext).2 hclosed
  | leave p => cases hfits.1.symm.trans hlock
  | commit cv a stamp => cases hlock

theorem OpenUnderLock.of_unlocked (hs : Serialised s) (hfree : s.locks conversationId = none)
    (hcalls : t.calls = s.calls) : OpenUnderLock conversationId t := by
  intro pid call hcall hlock
  have := (hs pid call (hcalls ▸ hcall)).lock conversationId hlock
  simp [hfree] at this

theorem OpenUnderLock.start {opts : Opts} (hs : OpenUnderLock conversationId s) :
    OpenUnderLock conversationId
      {s with calls := update s.calls pid (some {attrs, opts})} := by
  refine forall_calls_update.mpr ⟨fun hlock => ?_, fun q _ call' hq => hs q call' hq⟩
  simp [Phase.lock] at hlock

end Store

def State.events (s : State) : List ConversationStatus := s.transcript.filterMap Prod.snd

/-- The statuses that the events still to be stored name, in the order of the changes. -/
def State.due (s : State) : List ConversationStatus :=
  s.pending.filterMap fun i => (s.changes[i]?).map Change.target

/-- Who is doing what: a change whose event is not stored has not called for it yet or its call is on
the way to the commit, and only such calls write to closed conversations. -/
structure Calls (conversationId tenantId : Uuid) (s : State) : Prop where
  serialised : Serialised s.store
  openUnderLock : OpenUnderLock conversationId s.store
  nodup : s.pending.Nodup
  waiting : ∀ i ∈ s.pending, ∃ change, s.changes[i]? = some change ∧
    (change.phase = .changed ∨ ∃ pid call, change.phase = .emitting pid ∧
      s.emitters pid = some i ∧ s.store.calls pid = some call ∧ Due conversationId call.phase)
  emitting : ∀ pid i, s.emitters pid = some i → ∃ change call, s.changes[i]? = some change ∧
    change.phase = .emitting pid ∧ s.store.calls pid = some call ∧
    call.attrs = lifecycleAttrs conversationId tenantId ∧ call.opts.allowClosed = true ∧ pid ∈ s.pids
  ordinary : ∀ pid call, s.store.calls pid = some call → s.emitters pid = none →
    call.opts.allowClosed = false

/-- What the transcript tells: the events alternate, up to the current status once the due ones are
stored, and the one that closed the conversation is the last activity. -/
structure Told (conversationId : Uuid) (s : State) : Prop where
  committed : s.transcript.map Prod.fst = s.store.committed conversationId
  alternate : (ConversationStatus.active :: (s.events ++ s.due)).IsChain (· ≠ ·)
  current : (ConversationStatus.active :: (s.events ++ s.due)).getLast? =
    statusOf s.store conversationId
  final : statusOf s.store conversationId = some .closed → s.pending = [] →
    ∃ a, s.transcript.getLast? = some (a, some .closed)

section Changes
variable {s : State} {i : ℕ} {change : Change} {phase : ChangePhase}

theorem setChange_getElem? (hchange : s.changes[i]? = some change) (j : ℕ) :
    (s.setChange i change phase).changes[j]? =
      if i = j then some {change with phase} else s.changes[j]? := by
  have hlt := (List.getElem?_eq_some_iff.mp hchange).1
  simp only [State.setChange, List.getElem?_set, hlt, ↓reduceIte]

theorem setChange_target (hchange : s.changes[i]? = some change) (j : ℕ) :
    ((s.setChange i change phase).changes[j]?).map Change.target =
      (s.changes[j]?).map Change.target := by
  rw [setChange_getElem? hchange]
  split
  · next heq =>
    subst heq
    rw [hchange]
    rfl
  · rfl

end Changes

namespace Calls
variable {cfg : Config} {conversationId tenantId : Uuid} {s : State} {pid i : ℕ} {call : Call}
  {out : Outcome} {act : Action} {change : Change}

theorem update_other {calls : ℕ → Option Call} {q : ℕ} {call' : Call} {new : Option Call}
    (hpid : calls pid = none) (hq : calls q = some call') : update calls pid new q = some call' := by
  rw [update_of_ne]
  · exact hq
  · rintro rfl
    cases hpid.symm.trans hq

variable {store : CreateActivity.State} (h : Calls conversationId tenantId s)
  (hserialised : Serialised store) (hopen : OpenUnderLock conversationId store)
  (hcalls : store.calls = update s.store.calls pid (some call))
include h

theorem due_of_mem (hi : i ∈ s.pending) (hemitter : s.emitters pid = some i)
    (hcall : s.store.calls pid = some call) : Due conversationId call.phase := by
  obtain ⟨change, -, hchange, hpid, -⟩ := h.emitting pid i hemitter
  obtain ⟨change', hchange', hphase⟩ := h.waiting i hi
  cases hchange.symm.trans hchange'
  obtain hchanged | ⟨q, call', hq, -, hcall', hdue⟩ := hphase
  · cases hpid.symm.trans hchanged
  · cases hpid.symm.trans hq
    cases hcall.symm.trans hcall'
    exact hdue

theorem of_changes (changes : List Change)
    (hkept : ∀ (j : ℕ) (change : Change), s.changes[j]? = some change → change.phase ≠ .requested →
      changes[j]? = some change) :
    Calls conversationId tenantId {s with changes} where
  serialised := h.serialised
  openUnderLock := h.openUnderLock
  nodup := h.nodup
  waiting j hj := by
    obtain ⟨change, hchange, hphase⟩ := h.waiting j hj
    refine ⟨change, hkept j change hchange ?_, hphase⟩
    obtain hphase | ⟨q, -, hphase, -⟩ := hphase <;> simp [hphase]
  emitting q j hemitter := by
    obtain ⟨change, call, hchange, hphase, hrest⟩ := h.emitting q j hemitter
    exact ⟨change, call, hkept j change hchange (by simp [hphase]), hphase, hrest⟩
  ordinary := h.ordinary

theorem setChange (hchange : s.changes[i]? = some change) (hphase : change.phase = .requested)
    (phase : ChangePhase) : Calls conversationId tenantId (s.setChange i change phase) := by
  refine h.of_changes _ fun j change' hchange' hne => ?_
  rw [List.getElem?_set_ne, hchange']
  rintro rfl
  cases hchange.symm.trans hchange'
  exact hne hphase

include hserialised hopen

theorem changed (hchange : s.changes[i]? = some change) (hphase : change.phase = .requested)
    (hcalls : store.calls = s.store.calls) :
    Calls conversationId tenantId {s.setChange i change .changed with
      store, pending := s.pending ++ [i]} := by
  have hnew : i ∉ s.pending := by
    intro hmem
    obtain ⟨change', hchange', hphase'⟩ := h.waiting i hmem
    cases hchange.symm.trans hchange'
    obtain hphase' | ⟨q, -, hphase', -⟩ := hphase' <;> cases hphase.symm.trans hphase'
  have hkept := h.setChange hchange hphase .changed
  refine ⟨hserialised, hopen, ?_, ?_, ?_, ?_⟩
  · exact h.nodup.snoc hnew
  · simp only [hcalls]
    exact List.forall_mem_snoc hkept.waiting
      ⟨_, (setChange_getElem? hchange i).trans (if_pos rfl), .inl rfl⟩
  · simp only [hcalls]
    exact hkept.emitting
  · simp only [hcalls]
    exact hkept.ordinary

include hcalls

/-- A call starts or moves. The changes that remain pending are not those whose event it has
stored. -/
theorem of_calls {pending pids : List ℕ}
    (transcript : List (Activity × Option ConversationStatus)) (hsub : pending.Sublist s.pending)
    (hpids : s.pids ⊆ pids)
    (hdue : ∀ j ∈ pending, s.emitters pid = some j → Due conversationId call.phase)
    (hemits : ∀ j, s.emitters pid = some j → call.attrs = lifecycleAttrs conversationId tenantId ∧
      call.opts.allowClosed = true)
    (hordinary : s.emitters pid = none → call.opts.allowClosed = false) :
    Calls conversationId tenantId {s with store, pending, transcript, pids} where
  serialised := hserialised
  openUnderLock := hopen
  nodup := h.nodup.sublist hsub
  waiting j hj := by
    obtain ⟨change, hchange, hchanged | ⟨q, call', hq, hemitter, hcall', hphase⟩⟩ :=
      h.waiting j (hsub.subset hj)
    · exact ⟨change, hchange, .inl hchanged⟩
    · refine ⟨change, hchange, .inr ?_⟩
      simp only [hcalls]
      by_cases hpid : q = pid
      · subst hpid
        exact ⟨q, call, hq, hemitter, update_self .., hdue j hj hemitter⟩
      · exact ⟨q, call', hq, hemitter, (update_of_ne hpid _ _).trans hcall', hphase⟩
  emitting q j hemitter := by
    obtain ⟨change, call', hchange, hq, hcall', hattrs, hopts, hmem⟩ := h.emitting q j hemitter
    simp only [hcalls]
    by_cases hpid : q = pid
    · subst hpid
      obtain ⟨hattrs, hopts⟩ := hemits j hemitter
      exact ⟨change, call, hchange, hq, update_self .., hattrs, hopts, hpids hmem⟩
    · exact ⟨change, call', hchange, hq, (update_of_ne hpid _ _).trans hcall', hattrs, hopts, hpids hmem⟩
  ordinary := by
    simp only [hcalls]
    exact forall_calls_update.mpr ⟨hordinary, fun q _ call' hq => h.ordinary q call' hq⟩

theorem create (hpid : s.store.calls pid = none) (hopts : call.opts.allowClosed = false) :
    Calls conversationId tenantId {s with store, pids := s.pids ++ [pid]} := by
  have hnone : ∀ j, s.emitters pid ≠ some j := by
    intro j hemitter
    obtain ⟨-, call', -, -, hcall', -⟩ := h.emitting pid j hemitter
    cases hpid.symm.trans hcall'
  exact h.of_calls hserialised hopen hcalls s.transcript (List.Sublist.refl _)
    (List.subset_append_left _ _) (fun j _ hj => absurd hj (hnone j)) (fun j hj => absurd hj (hnone j))
    fun _ => hopts

theorem emit (hchange : s.changes[i]? = some change) (hphase : change.phase = .changed)
    (hpid : s.store.calls pid = none) (hattrs : call.attrs = lifecycleAttrs conversationId tenantId)
    (hopts : call.opts.allowClosed = true) (hcall : call.phase = .fetchExisting) :
    Calls conversationId tenantId {s.setChange i change (.emitting pid) with
      store
      pids := s.pids ++ [pid]
      emitters := update s.emitters pid (some i)} where
  serialised := hserialised
  openUnderLock := hopen
  nodup := h.nodup
  waiting j hj := by
    simp only [hcalls, setChange_getElem? hchange]
    split
    · next heq =>
      subst heq
      refine ⟨_, rfl, .inr ⟨pid, call, rfl, update_self .., update_self .., ?_⟩⟩
      rw [hcall]
      trivial
    · obtain ⟨change', hchange', hchanged | ⟨q, call', hq, hemitter, hcall', hdue⟩⟩ := h.waiting j hj
      · exact ⟨change', hchange', .inl hchanged⟩
      · have hne : q ≠ pid := by
          rintro rfl
          cases hpid.symm.trans hcall'
        exact ⟨change', hchange', .inr ⟨q, call', hq, (update_of_ne hne _ _).trans hemitter,
          update_other hpid hcall', hdue⟩⟩
  emitting q j hemitter := by
    simp only [hcalls, setChange_getElem? hchange]
    obtain ⟨rfl, ⟨⟩⟩ | ⟨-, hemitter⟩ := update_eq_some hemitter
    · exact ⟨_, call, if_pos rfl, rfl, update_self .., hattrs, hopts, by simp⟩
    · obtain ⟨change', call', hchange', hq, hcall', hattrs', hopts', hmem⟩ := h.emitting q j hemitter
      have hij : i ≠ j := by
        rintro rfl
        cases hchange.symm.trans hchange'
        cases hphase.symm.trans hq
      exact ⟨change', call', (if_neg hij).trans hchange', hq, update_other hpid hcall', hattrs',
        hopts', List.mem_append_left _ hmem⟩
  ordinary q call' hq hemitter := by
    simp only [hcalls] at hq hemitter
    by_cases hne : q = pid
    · subst hne
      rw [update_self] at hemitter
      cases hemitter
    · rw [update_of_ne hne] at hq hemitter
      exact h.ordinary q call' hq hemitter

omit hserialised hopen hcalls

theorem perform (hcall : s.store.calls pid = some call)
    (hnext : next cfg s.store call out = some act) {pending : List ℕ}
    (transcript : List (Activity × Option ConversationStatus)) (hsub : pending.Sublist s.pending)
    (hdue : ∀ j ∈ pending, s.emitters pid = some j → Due conversationId (phaseOf act)) :
    Calls conversationId tenantId
      {s with store := CreateActivity.perform s.store pid call act, pending, transcript} := by
  refine h.of_calls (h.serialised.perform hcall (next_fits hnext))
    (h.openUnderLock.statement hcall hnext) (perform_calls _ _ _ _) transcript hsub
    (List.Subset.refl _) hdue (fun j hemitter => ?_) (h.ordinary pid call hcall)
  obtain ⟨-, call', -, -, hcall', hattrs, hopts, -⟩ := h.emitting pid j hemitter
  cases hcall.symm.trans hcall'
  exact ⟨hattrs, hopts⟩

end Calls

namespace Told
variable {cfg : Config} {conversationId tenantId : Uuid} {s t : State} {pid i : ℕ} {call : Call}
  {change : Change}

section
variable (h : Told conversationId s)
include h

theorem conversation_isSome : (s.store.conversations conversationId).isSome = true := by
  have hcurrent := h.current
  cases hnone : s.store.conversations conversationId with
  | some cv => rfl
  | none => simp [statusOf, hnone] at hcurrent

theorem changed (hchange : s.changes[i]? = some change)
    (htranscript : t.transcript = s.transcript) (hpending : t.pending = s.pending ++ [i])
    (hchanges : ∀ j : ℕ, (t.changes[j]?).map Change.target = (s.changes[j]?).map Change.target)
    (hcommitted : t.store.committed conversationId = s.store.committed conversationId)
    (hne : statusOf s.store conversationId ≠ some change.target)
    (hstatus : statusOf t.store conversationId = some change.target) : Told conversationId t := by
  have hdue : t.due = s.due ++ [change.target] := by
    simp only [State.due, hpending, List.filterMap_append, hchanges]
    simp [hchange]
  have hevents : t.events = s.events := by simp only [State.events, htranscript]
  refine ⟨by rw [htranscript, hcommitted]; exact h.committed, ?_, ?_, by simp [hpending]⟩
  · rw [hdue, hevents, ← List.append_assoc, ← List.cons_append]
    refine List.isChain_append.mpr ⟨h.alternate, List.isChain_singleton _, ?_⟩
    intro last hlast new hnew
    cases hnew
    rw [h.current] at hlast
    exact fun heq => hne (heq ▸ hlast)
  · rw [hdue, hevents, ← List.append_assoc, ← List.cons_append, List.getLast?_concat]
    exact hstatus.symm

variable (hstatus : statusOf t.store conversationId = statusOf s.store conversationId)
include hstatus

theorem of_eq (htranscript : t.transcript = s.transcript)
    (hpending : t.pending = s.pending) (hdue : t.due = s.due)
    (hcommitted : t.store.committed conversationId = s.store.committed conversationId) :
    Told conversationId t where
  committed := by rw [htranscript, hcommitted]; exact h.committed
  alternate := by simpa only [State.events, htranscript, hdue] using h.alternate
  current := by simpa only [State.events, htranscript, hdue, hstatus] using h.current
  final := by rw [hstatus, hpending, htranscript]; exact h.final

theorem ordinary (htranscript : t.transcript = s.transcript ++ [(a, none)]) (hdue : t.due = s.due)
    (hcommitted : t.store.committed conversationId = s.store.committed conversationId ++ [a])
    (hactive : statusOf s.store conversationId = some .active) :
    Told conversationId t := by
  have hevents : t.events = s.events := by simp [State.events, htranscript]
  refine ⟨by simp [htranscript, hcommitted, h.committed], ?_, ?_, ?_⟩
  · rw [hevents, hdue]
    exact h.alternate
  · rw [hevents, hdue, hstatus]
    exact h.current
  · intro hclosed
    rw [hstatus, hactive] at hclosed
    cases hclosed

theorem event (hchange : s.changes[i]? = some change) (hhead : s.pending.head? = some i)
    (htranscript : t.transcript = s.transcript ++ [(a, some change.target)])
    (hchanges : t.changes = s.changes) (hpending : t.pending = s.pending.erase i)
    (hcommitted : t.store.committed conversationId = s.store.committed conversationId ++ [a]) :
    Told conversationId t := by
  obtain ⟨rest, hrest⟩ : ∃ rest, s.pending = i :: rest := List.head?_eq_some_iff.mp hhead
  rw [hrest, List.erase_cons_head] at hpending
  have hdue : s.due = change.target :: t.due := by
    simp [State.due, hrest, hchange, hpending, hchanges]
  -- the event moves from the due ones to the stored ones
  have hevents : t.events ++ t.due = s.events ++ s.due := by
    rw [hdue]
    simp [State.events, htranscript]
  refine ⟨by simp [htranscript, hcommitted, h.committed], ?_, ?_, ?_⟩
  · rw [hevents]
    exact h.alternate
  · rw [hevents, hstatus]
    exact h.current
  · intro hclosed hnone
    have hlast := h.current
    have hdue' : t.due = [] := by rw [State.due, hnone, List.filterMap_nil]
    rw [hdue, hdue', ← List.cons_append, List.getLast?_concat, ← hstatus, hclosed] at hlast
    exact ⟨a, by rw [htranscript, List.getLast?_concat, some.inj hlast]⟩

end

end Told

def committing : Phase → Bool
  | .commit _ _ => true
  | _ => false

/-- The event of a change is stored, unless one of an earlier change is due: the database reports no
constraint, and the deliveries are enqueued. -/
def Orderly (s : State) : Event → Prop
  | .statement pid out => ∀ i ∈ s.emitters pid, out.constraintErrors = none ∧ out.enqueued = true ∧
      ∀ call ∈ s.store.calls pid, committing call.phase = true → s.pending.head? = some i
  | _ => True

instance (s : State) : ∀ e, Decidable (Orderly s e)
  | .statement pid _ => inferInstanceAs (Decidable (∀ i ∈ s.emitters pid, _ ∧ _ ∧ _))
  | .create .. | .request _ | .update _ | .emit .. => .isTrue trivial

section Steps
variable {cfg : Config} {conversationId tenantId : Uuid} {s t : State} {pid i : ℕ} {call : Call}
  {out : Outcome} {act : Action}

theorem record_of_none (hconv : a.conversationId = conversationId) (hemitter : s.emitters pid = none) :
    s.record conversationId pid a = {s with transcript := s.transcript ++ [(a, none)]} := by
  simp [State.record, State.names, hconv, hemitter]

theorem record_of_some {change : Change} (hconv : a.conversationId = conversationId)
    (hemitter : s.emitters pid = some i) (hchange : s.changes[i]? = some change) :
    s.record conversationId pid a =
      {s with
        transcript := s.transcript ++ [(a, some change.target)]
        pending := s.pending.erase i} := by
  simp [State.record, State.names, hconv, hemitter, hchange]

section
variable (hnext : next cfg s.store call out = some act) (hcalls : Calls conversationId tenantId s)
  (htold : Told conversationId s) (he : Orderly s (.statement pid out))
  (hcall : s.store.calls pid = some call)
include hnext

theorem eq_commit_of_next (hphase : call.phase = .commit a stamp) :
    ∃ cv, act = .commit cv a stamp := by
  have hsuits := next_suits hnext
  cases act with
  | goto p | leave p => exact absurd hphase (hsuits a stamp)
  | acquire d p => exact absurd hphase (hsuits.1 a stamp)
  | commit cv a' stamp' =>
    cases hphase.symm.trans hsuits
    exact ⟨cv, rfl⟩

include hcalls htold he hcall

theorem tracked_statement (hphase : ∀ a stamp, call.phase ≠ .commit a stamp) :
    Calls conversationId tenantId {s with store := perform s.store pid call act} ∧
      Told conversationId {s with store := perform s.store pid call act} := by
  constructor
  · refine hcalls.perform hcall hnext s.transcript (List.Sublist.refl _) fun j hj hemitter => ?_
    obtain ⟨-, call', -, -, hcall', hattrs, hopts, -⟩ := hcalls.emitting pid j hemitter
    cases hcall.symm.trans hcall'
    obtain ⟨herrors, henqueued, -⟩ := he j hemitter
    obtain hdue | ⟨a, stamp, hcommit⟩ := next_due hattrs hopts htold.conversation_isSome herrors
      henqueued (hcalls.due_of_mem hj hemitter hcall) hnext
    · exact hdue
    · exact absurd hcommit (hphase a stamp)
  · exact htold.of_eq (perform_status pid _ (next_fits hnext)) rfl rfl rfl
      (perform_committed hphase (next_suits hnext))

theorem tracked_commit (hphase : call.phase = .commit a stamp) :
    Calls conversationId tenantId
        {s.record conversationId pid a with store := perform s.store pid call act} ∧
      Told conversationId
        {s.record conversationId pid a with store := perform s.store pid call act} := by
  have hstatus := perform_status pid conversationId (next_fits hnext)
  obtain ⟨cv, rfl⟩ := eq_commit_of_next hnext hphase
  have hcommitted := perform_commit_committed s.store pid call conversationId cv a stamp
  by_cases hconv : a.conversationId = conversationId
  · rw [if_pos hconv] at hcommitted
    cases hemitter : s.emitters pid with
    | none =>
      rw [record_of_none hconv hemitter]
      constructor
      · exact hcalls.perform hcall hnext _ (List.Sublist.refl _) (by simp [hemitter])
      · refine htold.ordinary hstatus rfl rfl hcommitted ?_
        exact hcalls.openUnderLock pid call hcall (by rw [hphase, ← hconv]; rfl)
          (hcalls.ordinary pid call hcall hemitter)
    | some i =>
      obtain ⟨change, -, hchange, -⟩ := hcalls.emitting pid i hemitter
      rw [record_of_some hconv hemitter hchange]
      constructor
      · refine hcalls.perform hcall hnext _ List.erase_sublist fun j hj hj' => ?_
        cases hemitter.symm.trans hj'
        exact absurd hj hcalls.nodup.not_mem_erase
      · have hhead := (he i hemitter).2.2 call hcall (by rw [hphase]; rfl)
        exact htold.event hstatus hchange hhead rfl rfl rfl hcommitted
  · rw [if_neg hconv, List.append_nil] at hcommitted
    have hrecord : s.record conversationId pid a = s := if_neg hconv
    rw [hrecord]
    constructor
    · refine hcalls.perform hcall hnext _ (List.Sublist.refl _) fun j hj hemitter => ?_
      have hdue := hcalls.due_of_mem hj hemitter hcall
      rw [hphase] at hdue
      exact absurd hdue hconv
    · exact htold.of_eq hstatus rfl rfl rfl hcommitted

omit hnext he hcall

theorem tracked_update (hstep : step cfg conversationId tenantId s (.update i) = some t) :
    (Calls conversationId tenantId t ∧ Told conversationId t) ∧ Moves cfg s.store t.store := by
  simp only [step, bind_eq_bind, bind_eq_some_iff] at hstep
  obtain ⟨change, hchange, cv, hcv, hstep⟩ := hstep
  split at hstep
  · cases hstep
  · next hrequested =>
    have hrequested : change.phase = .requested := Decidable.not_not.mp hrequested
    split at hstep
    · cases hstep
      refine ⟨⟨hcalls.setChange hchange hrequested .unchanged, ?_⟩, .idle⟩
      refine htold.of_eq rfl rfl rfl ?_ rfl
      simp only [State.due, setChange_target hchange]
      rfl
    · next hne =>
      obtain ⟨store, hstore, hstep⟩ := bind_eq_some_iff.mp hstep
      cases hstep
      have hmoves := step_moves hstore
      have hserialised := hcalls.serialised.moves hmoves
      simp only [CreateActivity.step, hcv, hne, ↓reduceIte, ite_none_right_eq_some, some.injEq] at hstore
      obtain ⟨hfree, rfl⟩ := hstore
      refine ⟨⟨?_, ?_⟩, hmoves⟩
      · exact hcalls.changed hserialised (.of_unlocked hcalls.serialised hfree rfl)
          hchange hrequested rfl
      · refine htold.changed hchange rfl rfl (setChange_target hchange) rfl ?_ ?_
        · simpa [statusOf, hcv] using hne
        · simp [statusOf]

theorem tracked_step (he : Orderly s e) (hstep : step cfg conversationId tenantId s e = some t) :
    (Calls conversationId tenantId t ∧ Told conversationId t) ∧ Moves cfg s.store t.store := by
  cases e with
  | create pid attrs internal =>
    obtain ⟨store, hstore, hstep⟩ := bind_eq_some_iff.mp hstep
    cases hstep
    have hmoves := step_moves hstore
    simp only [CreateActivity.step, ite_none_right_eq_some, some.injEq] at hstore
    obtain ⟨hpid, rfl⟩ := hstore
    exact ⟨⟨hcalls.create (hcalls.serialised.moves hmoves) hcalls.openUnderLock.start
      rfl hpid rfl, htold.of_eq rfl rfl rfl rfl rfl⟩, hmoves⟩
  | statement pid out =>
    obtain ⟨call, hcall, hstep⟩ := bind_eq_some_iff.mp hstep
    obtain ⟨store, hstore, hstep⟩ := bind_eq_some_iff.mp hstep
    have hmoves := step_moves hstore
    obtain ⟨call', act, hcall', hnext, rfl⟩ := statement_eq_some hstore
    cases hcall.symm.trans hcall'
    split at hstep
    · next hphase =>
      cases hstep
      exact ⟨tracked_commit hnext hcalls htold he hcall hphase, hmoves⟩
    · next hphase =>
      cases hstep
      exact ⟨tracked_statement hnext hcalls htold he hcall hphase, hmoves⟩
  | request target =>
    cases hstep
    refine ⟨⟨hcalls.of_changes _ fun j change hj _ => List.getElem?_append_of_eq_some hj _, ?_⟩, .idle⟩
    refine htold.of_eq rfl rfl rfl (List.filterMap_congr fun j hj => ?_) rfl
    obtain ⟨change, hchange, -⟩ := hcalls.waiting j hj
    rw [hchange, List.getElem?_append_of_eq_some hchange]
  | update i => exact tracked_update hcalls htold hstep
  | emit i pid =>
    obtain ⟨change, hchange, hstep⟩ := bind_eq_some_iff.mp hstep
    split at hstep
    · cases hstep
    · next hphase =>
      obtain ⟨store, hstore, hstep⟩ := bind_eq_some_iff.mp hstep
      cases hstep
      have hmoves := step_moves hstore
      simp only [CreateActivity.step, ite_none_right_eq_some, some.injEq] at hstore
      obtain ⟨hpid, rfl⟩ := hstore
      refine ⟨⟨?_, ?_⟩, hmoves⟩
      · exact hcalls.emit (hcalls.serialised.moves hmoves) hcalls.openUnderLock.start rfl
          hchange (Decidable.not_not.mp hphase) hpid rfl rfl rfl
      · refine htold.of_eq rfl rfl rfl ?_ rfl
        simp only [State.due, setChange_target hchange]
        rfl

end

end Steps

def finished : Phase → Bool
  | .done _ => true
  | _ => false

def State.Quiet (s : State) : Prop :=
  (∀ change ∈ s.changes, change.phase ≠ .requested ∧ change.phase ≠ .changed) ∧
    ∀ pid ∈ s.pids, ∀ call ∈ s.store.calls pid, finished call.phase = true

instance (s : State) : Decidable s.Quiet := inferInstanceAs (Decidable (_ ∧ _))

theorem Calls.pending_eq_nil {conversationId tenantId : Uuid} {s : State}
    (h : Calls conversationId tenantId s) (hquiet : s.Quiet) : s.pending = [] := by
  refine List.eq_nil_iff_forall_not_mem.mpr fun i hi => ?_
  obtain ⟨change, hchange, hphase⟩ := h.waiting i hi
  obtain hchanged | ⟨pid, call, -, hemitter, hcall, hdue⟩ := hphase
  · exact (hquiet.1 change (List.mem_of_getElem? hchange)).2 hchanged
  · obtain ⟨-, -, -, -, -, -, -, hpid⟩ := h.emitting pid i hemitter
    have hdone := hquiet.2 pid hpid call hcall
    cases hphase : call.phase <;> simp_all [finished, Due]

section Start
variable {store : CreateActivity.State} (hinitial : store.Initial)
include hinitial

theorem Calls.start (conversationId tenantId : Uuid) : Calls conversationId tenantId {store} := by
  refine ⟨hinitial.serialised, ?_, List.nodup_nil, by simp, by simp, ?_⟩
  · intro pid call hcall
    simp [hinitial.calls] at hcall
  · intro pid call hcall
    simp [hinitial.calls] at hcall

theorem Told.start {conversationId : Uuid} {cv : Conversation}
    (hcv : store.conversations conversationId = some cv) (hactive : cv.status = .active) :
    Told conversationId {store} := by
  refine ⟨by simp [State.committed, hinitial.log], by simp [State.events, State.due], ?_, ?_⟩
  · simp [State.events, State.due, statusOf, hcv, hactive]
  · simp [statusOf, hcv, hactive]

end Start

/-- Whenever no call is in progress, the lifecycle events alternate in the order of the numbers and
the last one names the current status; and while the conversation is closed, the event that closed it
is the last activity. -/
theorem lifecycle_events_tell_status (cfg : Config) (conversationId tenantId : Uuid)
    (store : CreateActivity.State) (cv : Conversation) (hinitial : store.Initial)
    (hcv : store.conversations conversationId = some cv) (hactive : cv.status = .active)
    (events : List Event) (t : State)
    (hrun : run (step cfg conversationId tenantId) {store} events = some t)
    (horderly : Along (step cfg conversationId tenantId) Orderly {store} events)
    (hquiet : t.Quiet) :
    ∃ cv', t.store.conversations conversationId = some cv' ∧
      (t.transcript.map Prod.fst).Pairwise (fun a b => a.seq < b.seq) ∧
      (ConversationStatus.active :: t.events).IsChain (· ≠ ·) ∧
      (ConversationStatus.active :: t.events).getLast? = some cv'.status ∧
      (cv'.status = .closed → ∃ a, t.transcript.getLast? = some (a, some .closed)) := by
  have hnone : store.committed conversationId = [] := by simp [State.committed, hinitial.log]
  have hcalls := Calls.start hinitial conversationId tenantId
  have htold := Told.start hinitial hcv hactive
  have hnumbered : Numbered conversationId cv.lastSeq store := ⟨cv, hcv, hnone ▸ GapFree.nil _ _⟩
  have hkeeps : ∀ {m e m'}, (Calls conversationId tenantId m ∧ Told conversationId m) ∧
      Numbered conversationId cv.lastSeq m.store → Orderly m e →
      step cfg conversationId tenantId m e = some m' →
      (Calls conversationId tenantId m' ∧ Told conversationId m') ∧
        Numbered conversationId cv.lastSeq m'.store := by
    intro m e m' hm he hstep
    obtain ⟨htracked, hmoves⟩ := tracked_step hm.1.1 hm.1.2 he hstep
    exact ⟨htracked, hm.2.moves hm.1.1.serialised hmoves⟩
  obtain ⟨⟨hcalls, htold⟩, cv', hcv', hgap⟩ :=
    run_invariant_along hkeeps ⟨⟨hcalls, htold⟩, hnumbered⟩ horderly hrun
  have hpending := hcalls.pending_eq_nil hquiet
  have hdue : t.due = [] := by rw [State.due, hpending, List.filterMap_nil]
  have hstatus : statusOf t.store conversationId = some cv'.status := by simp [statusOf, hcv']
  have halternate := htold.alternate
  have hcurrent := htold.current
  rw [hdue, List.append_nil] at halternate hcurrent
  refine ⟨cv', hcv', ?_, halternate, hcurrent.trans hstatus, fun hclosed => ?_⟩
  · rw [htold.committed]
    exact hgap.increasing
  · exact htold.final (hclosed ▸ hstatus) hpending

def statements (pid id : ℕ) : List Event := List.replicate 9 (.statement pid {id})

def messageThenClose : List Event :=
  let attrs : Attrs := { tenantId := some 1, conversationId := some 7, sender := some "user" }
  .create 0 attrs false :: statements 0 10 ++ [.request .closed, .update 0, .emit 0 1] ++
    statements 1 11

theorem lifecycle_events_tell_status_closed :
    ∃ t cv, run (step monthly 7 1) {store := newConversation} messageThenClose = some t ∧
      t.store.conversations 7 = some cv ∧ cv.status = .closed ∧ t.transcript.length = 2 ∧
      (ConversationStatus.active :: t.events).getLast? = some cv.status ∧
      ∃ a, t.transcript.getLast? = some (a, some .closed) := by
  obtain ⟨t, ht, hquiet, hlength, hclosed⟩ : ∃ t,
      run (step monthly 7 1) {store := newConversation} messageThenClose = some t ∧
      t.Quiet ∧ t.transcript.length = 2 ∧
        (t.store.conversations 7).map Conversation.status = some .closed := by decide +kernel
  obtain ⟨cv, hcv, -, -, hcurrent, hfinal⟩ :=
    lifecycle_events_tell_status monthly 7 1 newConversation {id := 7} newConversation_initial rfl rfl
      messageThenClose t ht (by decide +kernel) hquiet
  have hstatus : cv.status = .closed := by simpa [hcv] using hclosed
  exact ⟨t, cv, ht, hcv, hstatus, hlength, hcurrent, hfinal hstatus⟩

/-- The conversation is closed and reopened, and the event of the reopening is stored first: no call
is in progress, the conversation is active, and the last event says that it is closed. -/
theorem lifecycle_events_swapped :
    (run (step monthly 7 1) {store := newConversation}
      ([.request .closed, .update 0, .request .active, .update 1, .emit 1 0] ++ statements 0 10 ++
        [.emit 0 1] ++ statements 1 11)).any (fun t =>
          t.Quiet ∧ t.events = [.active, .closed] ∧
            (t.store.conversations 7).map Conversation.status = some .active) = true := by
  decide +kernel

end Converger.ConversationLifecycle
