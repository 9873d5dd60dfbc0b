import Converger.Admission
import Converger.GuardedRuns

/-!
# Runs of the admission server

Every call is answered, is to be handled, waits with a running timer, or was left by its process;
every holder and every waiting caller is monitored, or its exit has been reported; and a slot is given
back only by a release or an exit. So messages that come late find nothing to do.
-/
namespace Converger.Admission
open GuardedRuns KeyedLists List Option

variable {cfg : Config} {s t : State} {e : Event} {ref : ℕ} {caller : Caller} {queue : List ℕ}
  {owed : List Caller}

/-! ### Answers -/

/-- Where a call is: it has been answered, is to be handled, waits, or its process left. -/
def State.accounts (s : State) (caller : Caller) : ℕ :=
  (s.replies.map Prod.fst).count caller + s.mailbox.count (.acquire caller) +
    (s.waiting.map Prod.snd).count caller + s.left.count caller

/-- Every call is in one place, those in `owed` apart. -/
def Accounted (s : State) (owed : List Caller) : Prop :=
  ∀ caller, s.calls.count caller = s.accounts caller + owed.count caller

theorem Accounted.reply (h : Accounted s (caller :: owed)) (r : Reply) :
    Accounted (s.reply caller r) owed := by
  intro c
  have hc := h c
  simp only [State.accounts, State.reply, map_append, map_cons, map_nil,
    count_append, count_cons, count_nil] at hc ⊢
  omega

theorem Accounted.mailbox (h : Accounted s owed) {mailbox : List Message}
    (hsame : ∀ c, mailbox.count (.acquire c) = s.mailbox.count (.acquire c)) :
    Accounted {s with mailbox} owed := by
  intro c
  have hc := h c
  simp only [State.accounts] at hc ⊢
  rw [hsame]
  exact hc

theorem Accounted.monitor (h : Accounted s owed) (pid : ℕ) : Accounted (s.monitor pid) owed := by
  unfold State.monitor
  split
  · exact h.mailbox fun c => by simp
  · exact h

theorem Accounted.demonitor (h : Accounted s owed) (ref : ℕ) : Accounted (s.demonitor ref) owed :=
  h.mailbox fun c => count_filter (by simp)

theorem Accounted.stopWaiting (h : Accounted s owed) (hkeys : (s.waiting.map Prod.fst).Nodup)
    (hlookup : s.waiting.lookup ref = some caller) : Accounted (s.stopWaiting ref) (caller :: owed) := by
  intro c
  have hc := h c
  have hsplit := count_delete_add_taken Prod.snd c ref s.waiting
  rw [taken_of_lookup hkeys hlookup] at hsplit
  simp only [State.accounts, State.stopWaiting, map_cons, map_nil, count_cons, count_nil] at hc hsplit ⊢
  omega

theorem Accounted.grant (h : Accounted s []) (hkeys : (s.waiting.map Prod.fst).Nodup)
    (queue : List ℕ) : Accounted (grant cfg queue s) [] := by
  have hboth : Accounted (Admission.grant cfg queue s) [] ∧
      ((Admission.grant cfg queue s).waiting.map Prod.fst).Nodup := by
    apply grant_induction (P := fun s => Accounted s [] ∧ (s.waiting.map Prod.fst).Nodup) _ _ queue
      ⟨h, hkeys⟩
    · exact fun s queue hs => hs
    · rintro s ref caller ⟨hs, hkeys⟩ hlookup
      exact ⟨(hs.stopWaiting hkeys hlookup).reply (.ok ref), nodup_keys_delete hkeys ref⟩
  exact hboth.1

theorem Accounted.acquire (h : Accounted s [caller]) : Accounted (acquire cfg s caller) [] := by
  have hmonitor := h.monitor caller.pid
  simp only [Admission.acquire]
  generalize s.monitor caller.pid = t at hmonitor
  split
  · exact hmonitor.reply (.ok s.refs)
  · split
    · exact (hmonitor.demonitor s.refs).reply .overloaded
    · intro c
      have hc := hmonitor c
      simp only [State.accounts, map_append, map_cons, map_nil, count_append,
        count_cons, count_nil] at hc ⊢
      omega

theorem Accounted.leave (h : Accounted s []) (ref : ℕ) : Accounted (s.leave ref) [] := by
  intro c
  have hc := h c
  have hsplit := count_delete_add_taken Prod.snd c ref s.waiting
  simp only [State.accounts, State.leave, State.stopWaiting, State.cancelTimer,
    count_append] at hc hsplit ⊢
  omega

theorem Accounted.expire (h : Accounted s []) (hkeys : (s.waiting.map Prod.fst).Nodup) (ref : ℕ) :
    Accounted (expire s ref) [] := by
  unfold Admission.expire
  cases hlookup : s.waiting.lookup ref with
  | none => exact h
  | some caller => exact ((h.demonitor ref).stopWaiting hkeys hlookup).reply .overloaded

def State.take (s : State) (m : Message) : State := {s with mailbox := s.mailbox.erase m}

theorem Accounted.erase (h : Accounted s []) (m : Message)
    (hm : ∀ caller, m ≠ .acquire caller) : Accounted (s.take m) [] :=
  h.mailbox fun c => count_erase_of_ne (Ne.symm (hm c))

theorem acquire_beq (caller c : Caller) : (Message.acquire caller == .acquire c) = (caller == c) := by
  rw [Bool.eq_iff_iff, beq_iff_eq, beq_iff_eq, Message.acquire.injEq]

theorem Accounted.take (h : Accounted s []) (hm : .acquire caller ∈ s.mailbox) :
    Accounted (s.take (.acquire caller)) [caller] := by
  intro c
  have hc := h c
  have hpos := count_pos_iff.mpr hm
  simp only [State.accounts, State.take, count_nil, count_erase, count_cons, acquire_beq] at hc ⊢
  by_cases hcaller : caller = c
  · subst hcaller
    simp only [beq_self_eq_true, reduceIte]
    omega
  · simp only [beq_eq_false_iff_ne.mpr hcaller, Bool.false_eq_true, reduceIte]
    omega

/-! ### Monitors and timers -/

def Watched (s : State) (ref pid : ℕ) : Prop :=
  ((ref, pid) ∈ s.monitors ∧ pid ∉ s.exited) ∨ .down ref ∈ s.mailbox

def Timed (s : State) (ref : ℕ) : Prop := ref ∈ s.timers ∨ .expire ref ∈ s.mailbox

/-- Those who have a slot or wait are watched, and those who wait have a timer. -/
structure Signals (s : State) : Prop where
  active : ∀ a ∈ s.active, Watched s a.1 a.2
  waiting : ∀ w ∈ s.waiting, Watched s w.1 w.2.pid
  timed : ∀ w ∈ s.waiting, Timed s w.1

section Signals
variable {r pid : ℕ} {m : Message}

theorem Watched.erase (h : Watched s r pid) (m : Message) (hm : m ≠ .down r) :
    Watched (s.take m) r pid :=
  h.imp_right (mem_erase_of_ne (Ne.symm hm)).mpr

theorem Timed.erase (h : Timed s r) (m : Message) (hm : m ≠ .expire r) : Timed (s.take m) r :=
  h.imp_right (mem_erase_of_ne (Ne.symm hm)).mpr

theorem Watched.demonitor (h : Watched s r pid) (hne : r ≠ ref) : Watched (s.demonitor ref) r pid := by
  rcases h with ⟨hmonitor, hlive⟩ | hdown
  · exact .inl ⟨mem_delete.mpr ⟨hmonitor, hne⟩, hlive⟩
  · refine .inr (mem_filter.mpr ⟨hdown, decide_eq_true ?_⟩)
    exact fun heq => hne (Message.down.inj heq)

theorem Timed.demonitor (h : Timed s r) (ref : ℕ) : Timed (s.demonitor ref) r :=
  h.imp_right fun hmem => mem_filter.mpr ⟨hmem, decide_eq_true nofun⟩

theorem Watched.monitor (h : Watched s r pid) (pid' : ℕ) : Watched (s.monitor pid') r pid := by
  unfold State.monitor
  split
  · exact h.imp_right (mem_append_left _)
  · exact h.imp_left (And.imp_left (mem_append_left _))

theorem Timed.monitor (h : Timed s r) (pid : ℕ) : Timed (s.monitor pid) r := by
  unfold State.monitor
  split
  · exact h.imp_right (mem_append_left _)
  · exact h

theorem watched_monitor (s : State) (pid : ℕ) : Watched (s.monitor pid) s.refs pid := by
  unfold State.monitor
  split
  · exact .inr (mem_concat_self)
  · rename_i hlive
    exact .inl ⟨mem_concat_self, hlive⟩

theorem Timed.cancelTimer (h : Timed s r) (hne : r ≠ ref) : Timed (s.cancelTimer ref) r :=
  h.imp_left fun hmem => mem_filter.mpr ⟨hmem, decide_eq_true hne⟩

end Signals

theorem signals_init : Signals {} := by
  constructor <;> simp

theorem Slots.mem_admitted (h : Slots cfg s) {a : ℕ × ℕ} (ha : a ∈ s.active) : a.1 ∈ s.admitted := by
  have hpos : 0 < (s.active.map Prod.fst).count a.1 := count_pos_iff.mpr (mem_map_of_mem ha)
  have hplaces := h.places a.1
  exact count_pos_iff.mp (by omega)

theorem Slots.ne_of_admitted (h : Slots cfg s) (hr : ref ∈ s.admitted) {w : ℕ × Caller}
    (hw : w ∈ s.waiting) : w.1 ≠ ref :=
  Nat.ne_of_gt (h.before ref hr w hw)

section
variable (h : Signals s)
include h

theorem Signals.admitWaiting (hlookup : s.waiting.lookup ref = some caller) :
    Signals (s.admitWaiting ref caller) := by
  have hmem := mem_of_lookup hlookup
  constructor
  case active =>
    exact forall_mem_snoc h.active (h.waiting _ hmem)
  case waiting => exact fun w hw => h.waiting w (delete_subset ref _ hw)
  case timed =>
    intro w hw
    obtain ⟨hw, hne⟩ := mem_delete.mp hw
    exact (h.timed w hw).cancelTimer hne

theorem Signals.grant (queue : List ℕ) : Signals (grant cfg queue s) :=
  grant_induction (P := Signals) (fun _ _ hs => ⟨hs.active, hs.waiting, hs.timed⟩)
    (fun _ _ _ hs hlookup => hs.admitWaiting hlookup) queue h

theorem Signals.acquire (hslots : Slots cfg s) : Signals (acquire cfg
    (s.take (.acquire caller)) caller) := by
  have herase : Signals (s.take (.acquire caller)) :=
    ⟨fun a ha => (h.active a ha).erase (.acquire caller) nofun,
      fun w hw => (h.waiting w hw).erase (.acquire caller) nofun,
      fun w hw => (h.timed w hw).erase (.acquire caller) nofun⟩
  have hslots : Slots cfg (s.take (.acquire caller)) := hslots.frame rfl
  generalize s.take (.acquire caller) = s at herase hslots
  have hframe := slots_monitor s caller.pid
  have hnew := watched_monitor s caller.pid
  have hmonitor : Signals (s.monitor caller.pid) := by
    simp only [State.slots, Prod.mk.injEq] at hframe
    obtain ⟨hactive, -, hwaiting, -⟩ := hframe
    refine ⟨?_, ?_, ?_⟩
    · rw [hactive]
      exact fun a ha => (herase.active a ha).monitor _
    · rw [hwaiting]
      exact fun w hw => (herase.waiting w hw).monitor _
    · rw [hwaiting]
      exact fun w hw => (herase.timed w hw).monitor _
  simp only [Admission.acquire]
  generalize s.monitor caller.pid = t at hframe hnew hmonitor
  simp only [State.slots, Prod.mk.injEq] at hframe
  obtain ⟨hactive, -, hwaiting, -, -, -⟩ := hframe
  split
  · exact ⟨forall_mem_snoc hmonitor.active hnew, hmonitor.waiting, hmonitor.timed⟩
  · split
    · refine ⟨fun a ha => ?_, fun w hw => ?_, fun w hw => (hmonitor.timed w hw).demonitor _⟩
      · have ha : a ∈ t.active := ha
        have hlt := hslots.admitted _ (hslots.mem_admitted (hactive ▸ ha))
        exact (hmonitor.active a ha).demonitor (Nat.ne_of_lt hlt)
      · have hw : w ∈ t.waiting := hw
        have hlt := hslots.queued _ (hslots.waiting w (hwaiting ▸ hw))
        exact (hmonitor.waiting w hw).demonitor (Nat.ne_of_lt hlt)
    · refine ⟨hmonitor.active, fun w hw => ?_, fun w hw => ?_⟩
      · rcases mem_snoc.mp hw with hw | rfl
        · exact hmonitor.waiting w hw
        · exact hnew
      · rcases mem_snoc.mp hw with hw | rfl
        · exact (hmonitor.timed w hw).imp_left (mem_append_left _)
        · exact .inl (mem_concat_self)

theorem Signals.release (hslots : Slots cfg s) (href : ref ∈ s.admitted) :
    Signals (release cfg (s.take (.release ref)) ref) := by
  apply Signals.grant
  refine ⟨fun a ha => ?_, fun w hw => ?_, fun w hw => ?_⟩
  · obtain ⟨ha, hne⟩ := mem_delete.mp ha
    exact ((h.active a ha).erase (.release ref) nofun).demonitor hne
  · exact ((h.waiting w hw).erase (.release ref) nofun).demonitor (hslots.ne_of_admitted href hw)
  · exact ((h.timed w hw).erase (.release ref) nofun).demonitor ref

theorem Signals.down : Signals (down cfg (s.take (.down ref)) ref) := by
  apply Signals.grant
  refine ⟨fun a ha => ?_, fun w hw => ?_, fun w hw => ?_⟩
  · obtain ⟨ha, hne⟩ := mem_delete.mp ha
    exact (h.active a ha).erase (.down ref) fun heq => hne (Message.down.inj heq).symm
  · obtain ⟨hw, hne⟩ := mem_delete.mp hw
    exact (h.waiting w hw).erase (.down ref) fun heq => hne (Message.down.inj heq).symm
  · obtain ⟨hw, hne⟩ := mem_delete.mp hw
    exact ((h.timed w hw).erase (.down ref) nofun).cancelTimer hne

theorem Signals.expire (hslots : Slots cfg s) :
    Signals (expire (s.take (.expire ref)) ref) := by
  unfold Admission.expire
  have hactive : ∀ a ∈ s.active,
      Watched (s.take (.expire ref)) a.1 a.2 :=
    fun a ha => (h.active a ha).erase (.expire ref) nofun
  cases hlookup : (s.take (.expire ref)).waiting.lookup ref with
  | none =>
    refine ⟨hactive, fun w hw => (h.waiting w hw).erase (.expire ref) nofun, fun w hw => ?_⟩
    exact (h.timed w hw).erase (.expire ref) fun heq =>
      key_ne_of_lookup hlookup hw (Message.expire.inj heq).symm
  | some caller =>
    have hmem := mem_of_lookup hlookup
    refine ⟨fun a ha => ?_, fun w hw => ?_, fun w hw => ?_⟩
    · refine (hactive a ha).demonitor fun heq => ?_
      exact hslots.ne_of_admitted (hslots.mem_admitted ha) hmem heq.symm
    · obtain ⟨hw, hne⟩ := mem_delete.mp hw
      exact ((h.waiting w hw).erase (.expire ref) nofun).demonitor hne
    · obtain ⟨hw, hne⟩ := mem_delete.mp hw
      exact ((h.timed w hw).erase (.expire ref) fun heq => hne (Message.expire.inj heq).symm).demonitor ref

theorem Signals.send (m : Message) : Signals (s.send m) :=
  ⟨fun a ha => (h.active a ha).imp_right (mem_append_left _),
    fun w hw => (h.waiting w hw).imp_right (mem_append_left _),
    fun w hw => (h.timed w hw).imp_right (mem_append_left _)⟩

end

/-! ### Who left -/

def Exited (s : State) (ref : ℕ) : Prop := ∃ pid ∈ s.exited, s.owners[ref]? = some pid

/-- The refs stand for their processes, only processes that have exited are reported, and a slot is
given back by its holder, or by the exit of its holder. -/
structure Origins (s : State) : Prop where
  monitors : ∀ p ∈ s.monitors, s.owners[p.1]? = some p.2
  downs : ∀ ref, .down ref ∈ s.mailbox → Exited s ref
  waiting : ∀ w ∈ s.waiting, s.owners[w.1]? = some w.2.pid
  active : ∀ a ∈ s.active, s.owners[a.1]? = some a.2
  freed : ∀ ref ∈ s.freed, ref ∈ s.releases ∨ Exited s ref
  left : ∀ caller ∈ s.left, caller.pid ∈ s.exited
  released : ∀ ref, .release ref ∈ s.mailbox → ref ∈ s.releases
  admitted : ∀ ref ∈ s.releases, ref ∈ s.admitted
  pending : ∀ a ∈ s.active, a.1 ∈ s.releases → .release a.1 ∈ s.mailbox
  fresh : ∀ w ∈ s.waiting, w.1 ∉ s.releases

theorem origins_init : Origins {} := by
  constructor <;> simp

section
variable (h : Origins s)
include h

theorem Origins.admitWaiting (hlookup : s.waiting.lookup ref = some caller) :
    Origins (s.admitWaiting ref caller) := by
  have hmem := mem_of_lookup hlookup
  refine {h with waiting := ?_, active := ?_, admitted := ?_, pending := ?_, fresh := ?_}
  · exact fun w hw => h.waiting w (delete_subset ref _ hw)
  · exact forall_mem_snoc h.active (h.waiting _ hmem)
  · exact fun r hr => mem_append_left _ (h.admitted r hr)
  · exact forall_mem_snoc h.pending fun hreleased => absurd hreleased (h.fresh _ hmem)
  · exact fun w hw => h.fresh w (delete_subset ref _ hw)

theorem Origins.grant (queue : List ℕ) : Origins (grant cfg queue s) :=
  grant_induction (P := Origins) (fun _ _ hs => {hs with})
    (fun _ _ _ hs hlookup => hs.admitWaiting hlookup) queue h

theorem Origins.free (hreason : ref ∈ s.releases ∨ Exited s ref) : Origins (s.free ref) := by
  refine {h with active := ?_, freed := ?_, pending := ?_}
  · exact fun a ha => h.active a (delete_subset ref _ ha)
  · refine forall_mem_append.mpr ⟨h.freed, fun r hr => ?_⟩
    obtain ⟨a, ha, rfl⟩ := mem_map.mp hr
    rw [of_decide_eq_true (mem_filter.mp ha).2]
    exact hreason
  · exact fun a ha => h.pending a (delete_subset ref _ ha)

theorem Origins.demonitor (ref : ℕ) : Origins (s.demonitor ref) := by
  refine {h with monitors := ?_, downs := ?_, released := ?_, pending := ?_}
  · exact fun p hp => h.monitors p (delete_subset ref _ hp)
  · exact fun r hr => h.downs r (mem_filter.mp hr).1
  · exact fun r hr => h.released r (mem_filter.mp hr).1
  · intro a ha hreleased
    exact mem_filter.mpr ⟨h.pending a ha hreleased, decide_eq_true nofun⟩

theorem Origins.leave (hexited : Exited s ref) : Origins (s.leave ref) := by
  refine {h with waiting := ?_, left := ?_, fresh := ?_}
  · exact fun w hw => h.waiting w (delete_subset ref _ hw)
  · refine forall_mem_append.mpr ⟨h.left, fun caller hcaller => ?_⟩
    obtain ⟨w, hw, rfl⟩ := mem_map.mp hcaller
    obtain ⟨hw, href⟩ := mem_filter.mp hw
    obtain ⟨pid, hpid, howner⟩ := hexited
    have hown := h.waiting w hw
    rw [of_decide_eq_true href, howner] at hown
    exact some.inj hown ▸ hpid
  · exact fun w hw => h.fresh w (delete_subset ref _ hw)

theorem Origins.expire (ref : ℕ) : Origins (expire s ref) := by
  unfold Admission.expire
  cases s.waiting.lookup ref with
  | none => exact h
  | some caller =>
    have hdemonitor := h.demonitor ref
    refine {hdemonitor with waiting := ?_, fresh := ?_}
    · exact fun w hw => h.waiting w (delete_subset ref _ hw)
    · exact fun w hw => h.fresh w (delete_subset ref _ hw)

theorem Origins.erase (m : Message) (hm : ∀ a ∈ s.active, m ≠ .release a.1) : Origins (s.take m) := by
  refine {h with downs := ?_, released := ?_, pending := ?_}
  · exact fun r hr => h.downs r (mem_of_mem_erase hr)
  · exact fun r hr => h.released r (mem_of_mem_erase hr)
  · intro a ha hreleased
    exact (mem_erase_of_ne (Ne.symm (hm a ha))).mpr (h.pending a ha hreleased)

theorem Origins.release (hm : .release ref ∈ s.mailbox) :
    Origins (release cfg (s.take (.release ref)) ref) := by
  apply Origins.grant
  -- once the slot is free, nobody else waits for this message
  have hfree := h.free (.inl (h.released ref hm))
  refine (hfree.erase (.release ref) fun a ha heq => ?_).demonitor ref
  exact (mem_delete.mp ha).2 (Message.release.inj heq).symm

theorem Origins.send {m : Message} (hdown : ∀ r, .down r = m → Exited s r)
    (hrelease : ∀ r, .release r = m → r ∈ s.releases) : Origins (s.send m) := by
  refine {h with downs := fun r hr => ?_, released := fun r hr => ?_, pending := fun a ha hreleased => ?_}
  · exact (mem_snoc.mp hr).elim (h.downs r) (hdown r)
  · exact (mem_snoc.mp hr).elim (h.released r) (hrelease r)
  · exact mem_append_left _ (h.pending a ha hreleased)

end

theorem owners_monitor (s : State) (pid : ℕ) : (s.monitor pid).owners = s.owners ++ [pid] := by
  unfold State.monitor
  split <;> rfl

theorem owner_last (owners : List ℕ) (new : ℕ) : (owners ++ [new])[owners.length]? = some new := by
  rw [getElem?_append_right (Nat.le_refl _), Nat.sub_self]
  rfl

theorem Origins.monitor (h : Origins s) (pid : ℕ) : Origins (s.monitor pid) := by
  have hgrow : ∀ r, Exited s r → Exited {s with owners := s.owners ++ [pid]} r := by
    rintro r ⟨q, hq, howner⟩
    exact ⟨q, hq, getElem?_append_of_eq_some howner _⟩
  have hnext : Origins {s with owners := s.owners ++ [pid]} :=
    {h with
      monitors := fun p hp => getElem?_append_of_eq_some (h.monitors p hp) _
      downs := fun r hr => hgrow r (h.downs r hr)
      waiting := fun w hw => getElem?_append_of_eq_some (h.waiting w hw) _
      active := fun a ha => getElem?_append_of_eq_some (h.active a ha) _
      freed := fun r hr => (h.freed r hr).imp_right (hgrow r)}
  unfold State.monitor
  split
  · rename_i hexited
    refine hnext.send (fun r hr => ?_) fun _ => Message.noConfusion
    cases hr
    exact ⟨pid, hexited, owner_last s.owners pid⟩
  · exact {hnext with monitors := forall_mem_snoc hnext.monitors (owner_last s.owners pid)}

theorem Origins.acquire (h : Origins s) (hslots : Slots cfg s) (caller : Caller) :
    Origins (acquire cfg s caller) := by
  have hmonitor := h.monitor caller.pid
  have howner : (s.monitor caller.pid).owners[s.refs]? = some caller.pid := by
    rw [owners_monitor]
    exact owner_last s.owners caller.pid
  have hnew : s.refs ∉ (s.monitor caller.pid).releases := by
    have hsame : (s.monitor caller.pid).releases = s.releases := by
      unfold State.monitor
      split <;> rfl
    rw [hsame]
    intro hmem
    exact Nat.lt_irrefl _ (hslots.admitted _ (h.admitted _ hmem))
  simp only [Admission.acquire]
  generalize s.monitor caller.pid = t at hmonitor howner hnew
  split
  · refine {hmonitor with active := ?_, admitted := ?_, pending := ?_}
    · exact forall_mem_snoc hmonitor.active howner
    · exact fun r hr => mem_append_left _ (hmonitor.admitted r hr)
    · exact forall_mem_snoc hmonitor.pending fun hreleased => absurd hreleased hnew
  · split
    · exact {hmonitor.demonitor s.refs with}
    · refine {hmonitor with waiting := ?_, fresh := ?_}
      · exact forall_mem_snoc hmonitor.waiting howner
      · exact forall_mem_snoc hmonitor.fresh hnew

/-! ### Runs -/

structure Inv (cfg : Config) (s : State) : Prop where
  slots : Slots cfg s
  full : Full cfg s
  accounted : Accounted s []
  calls : s.calls.Nodup ∧ ∀ caller ∈ s.calls, caller.tag < s.calls.length
  signals : Signals s
  origins : Origins s

theorem inv_init (cfg : Config) : Inv cfg {} :=
  ⟨slots_init cfg, fun h => absurd rfl h, fun _ => rfl, by simp, signals_init, origins_init⟩

@[simp] theorem calls_grant (queue : List ℕ) (s : State) : (grant cfg queue s).calls = s.calls := by
  apply grant_induction (P := fun t => t.calls = s.calls) _ _ queue rfl
  · exact fun t queue ht => ht
  · exact fun t ref caller ht _ => ht

theorem calls_handle (s : State) (m : Message) : (handle cfg s m).calls = s.calls := by
  cases m with
  | acquire caller =>
    have hmonitor : (s.monitor caller.pid).calls = s.calls := by
      unfold State.monitor
      split <;> rfl
    simp only [handle, acquire]
    split
    · exact hmonitor
    · split <;> exact hmonitor
  | release ref | down ref => exact calls_grant _ _
  | expire ref =>
    simp only [handle, expire]
    cases s.waiting.lookup ref <;> rfl

def State.exit (s : State) (pid : ℕ) : State :=
  {s with
    exited := s.exited ++ [pid]
    monitors := s.monitors.filter (·.2 ≠ pid)
    mailbox := s.mailbox ++ (s.monitors.filter (·.2 = pid)).map (.down ·.1)}

section
variable (h : Inv cfg s)
include h

theorem Inv.handle {m : Message} (hm : m ∈ s.mailbox) : Inv cfg (handle cfg (s.take m) m) := by
  have hslots : Slots cfg (s.take m) := h.slots.frame rfl
  have hfull : Full cfg (s.take m) := h.full
  have hcalls : s.calls = (Admission.handle cfg (s.take m) m).calls := (calls_handle (s.take m) m).symm
  have hkept := h.calls
  rw [hcalls] at hkept
  cases m with
  | acquire caller =>
    obtain ⟨hs, hf⟩ := hslots.acquire hfull caller
    exact ⟨hs, hf, (h.accounted.take hm).acquire, hkept, h.signals.acquire h.slots,
      (h.origins.erase (.acquire caller) fun _ _ => nofun).acquire hslots caller⟩
  | release ref =>
    obtain ⟨hs, hf⟩ := hslots.release ref
    have href := h.origins.admitted _ (h.origins.released ref hm)
    refine ⟨hs, hf, ?_, hkept, h.signals.release h.slots href, h.origins.release hm⟩
    have hfree : Accounted (State.free (State.demonitor
        (s.take (.release ref)) ref) ref) [] :=
      (h.accounted.erase (.release ref) fun _ => nofun).demonitor ref
    exact hfree.grant h.slots.keys _
  | down ref =>
    obtain ⟨hs, hf⟩ := hslots.down ref
    have hexited := h.origins.downs ref hm
    have hfree : Accounted (State.free (State.leave
        (s.take (.down ref)) ref) ref) [] :=
      (h.accounted.erase (.down ref) fun _ => nofun).leave ref
    have horigins := (h.origins.erase (.down ref) fun _ _ => nofun).leave hexited
    exact ⟨hs, hf, hfree.grant (nodup_keys_delete h.slots.keys ref) _, hkept, h.signals.down,
      (horigins.free (.inr hexited)).grant _⟩
  | expire ref =>
    obtain ⟨hs, hf⟩ := hslots.expire hfull ref
    exact ⟨hs, hf, (h.accounted.erase (.expire ref) fun _ => nofun).expire h.slots.keys ref, hkept,
      h.signals.expire h.slots, (h.origins.erase (.expire ref) fun _ _ => nofun).expire ref⟩

theorem Inv.call (pid : ℕ) : Inv cfg {s.send (.acquire ⟨pid, s.calls.length⟩) with
      calls := s.calls ++ [⟨pid, s.calls.length⟩]} := by
  refine ⟨h.slots.frame rfl, h.full, fun c => ?_, ⟨?_, fun c hc => ?_⟩, ?_, ?_⟩
  · have hc := h.accounted c
    simp only [State.accounts, State.send, count_append, count_nil, count_cons, acquire_beq] at hc ⊢
    omega
  · exact h.calls.1.snoc fun hc => Nat.lt_irrefl _ (h.calls.2 _ hc)
  · rw [length_append]
    rcases mem_snoc.mp hc with hc | rfl
    · exact Nat.lt_add_right 1 (h.calls.2 c hc)
    · exact Nat.lt_succ_self _
  · exact {h.signals.send _ with}
  · have hsent : Origins (s.send (.acquire ⟨pid, s.calls.length⟩)) :=
      h.origins.send (fun _ => Message.noConfusion) fun _ => Message.noConfusion
    exact {hsent with}

theorem Inv.callRelease (href : ref ∈ s.admitted) :
    Inv cfg {s.send (.release ref) with releases := s.releases ++ [ref]} := by
  refine ⟨h.slots.frame rfl, h.full, h.accounted.mailbox fun c => by simp [State.send], h.calls, ?_, ?_⟩
  · exact {h.signals.send _ with}
  · have hold := h.origins
    refine { hold with downs := fun r hr => ?_, freed := fun r hr => ?_, released := fun r hr => ?_,
                       admitted := fun r hr => ?_, pending := fun a ha hr => ?_,
                       fresh := fun w hw hr => ?_}
    · rcases mem_snoc.mp hr with hr | hr
      · exact hold.downs r hr
      · cases hr
    · exact (hold.freed r hr).imp_left (mem_append_left _)
    · rcases mem_snoc.mp hr with hr | hr
      · exact mem_append_left _ (hold.released r hr)
      · rw [Message.release.inj hr]
        exact mem_concat_self
    · exact (mem_snoc.mp hr).elim (hold.admitted r) fun heq => heq ▸ href
    · rcases mem_snoc.mp hr with hr | hr
      · exact mem_append_left _ (hold.pending a ha hr)
      · rw [hr]
        exact mem_concat_self
    · exact (mem_snoc.mp hr).elim (hold.fresh w hw) (h.slots.ne_of_admitted href hw)

theorem Inv.exit (pid : ℕ) : Inv cfg (s.exit pid) := by
  have hsent : ∀ m ∈ s.mailbox ++ (s.monitors.filter (·.2 = pid)).map (Message.down ·.1),
      m ∈ s.mailbox ∨ ∃ r, (r, pid) ∈ s.monitors ∧ m = .down r := by
    intro m hm
    refine (mem_append.mp hm).imp_right fun hnew => ?_
    obtain ⟨p, hp, rfl⟩ := mem_map.mp hnew
    obtain ⟨hp, hpid⟩ := mem_filter.mp hp
    exact ⟨p.1, of_decide_eq_true hpid ▸ hp, rfl⟩
  have hwatched : ∀ r q, Watched s r q → Watched (s.exit pid) r q := by
    rintro r q (⟨hmonitor, hlive⟩ | hdown)
    · by_cases hq : q = pid
      · refine .inr (mem_append_right _ (mem_map.mpr ⟨(r, q), ?_, rfl⟩))
        exact mem_filter.mpr ⟨hmonitor, decide_eq_true hq⟩
      · refine .inl ⟨mem_filter.mpr ⟨hmonitor, decide_eq_true hq⟩, fun hexited => ?_⟩
        rcases mem_snoc.mp hexited with hexited | hexited
        · exact hlive hexited
        · exact hq hexited
    · exact .inr (mem_append_left _ hdown)
  have hexited : ∀ r, Exited s r → Exited (s.exit pid) r := by
    rintro r ⟨q, hq, howner⟩
    exact ⟨q, mem_append_left _ hq, howner⟩
  refine ⟨h.slots.frame rfl, h.full, h.accounted.mailbox fun c => ?_, h.calls, ?_, ?_⟩
  · have hnone : ((s.monitors.filter (·.2 = pid)).map (Message.down ·.1)).count (.acquire c) = 0 := by
      rw [List.count_eq_zero]
      intro hmem
      obtain ⟨p, -, hp⟩ := mem_map.mp hmem
      cases hp
    exact count_append.trans (congrArg _ hnone)
  · exact ⟨fun a ha => hwatched _ _ (h.signals.active a ha),
      fun w hw => hwatched _ _ (h.signals.waiting w hw),
      fun w hw => (h.signals.timed w hw).imp_right (mem_append_left _)⟩
  · have hold := h.origins
    refine { hold with monitors := ?_, downs := fun r hr => ?_, freed := fun r hr => ?_,
                       left := fun c hc => ?_, released := fun r hr => ?_,
                       pending := fun a ha hr => ?_}
    · exact fun p hp => hold.monitors p (mem_filter.mp hp).1
    · rcases hsent _ hr with hr | ⟨q, hq, heq⟩
      · exact hexited r (hold.downs r hr)
      · cases heq
        exact ⟨pid, mem_concat_self, hold.monitors _ hq⟩
    · exact (hold.freed r hr).imp_right (hexited r)
    · exact mem_append_left _ (hold.left c hc)
    · rcases hsent _ hr with hr | ⟨q, -, heq⟩
      · exact hold.released r hr
      · cases heq
    · exact mem_append_left _ (hold.pending a ha hr)

theorem Inv.fire (ref : ℕ) : Inv cfg ((s.cancelTimer ref).send (.expire ref)) := by
  refine ⟨h.slots.frame rfl, h.full, h.accounted.mailbox fun c => by
      simp [State.send, State.cancelTimer], h.calls,
    ⟨?_, ?_, fun w hw => ?_⟩, ?_⟩
  · exact (h.signals.send (.expire ref)).active
  · exact (h.signals.send (.expire ref)).waiting
  · by_cases href : w.1 = ref
    · rw [href]
      exact .inr (mem_concat_self)
    · exact ((h.signals.timed w hw).cancelTimer href).imp_right (mem_append_left _)
  · have hsent : Origins (s.send (.expire ref)) :=
      h.origins.send (fun _ => Message.noConfusion) fun _ => Message.noConfusion
    exact {hsent with}

theorem inv_of_step (hstep : step cfg s e = some t) : Inv cfg t := by
  cases e with
  | call pid =>
    obtain ⟨-, hstep⟩ := ite_none_left_eq_some.mp hstep
    cases hstep
    exact h.call pid
  | release ref =>
    obtain ⟨href, rfl⟩ := ite_some_none_eq_some.mp hstep
    exact h.callRelease href
  | exit pid =>
    obtain ⟨-, hstep⟩ := ite_none_left_eq_some.mp hstep
    cases hstep
    exact h.exit pid
  | fire ref =>
    obtain ⟨-, rfl⟩ := ite_some_none_eq_some.mp hstep
    exact h.fire ref
  | handle m =>
    obtain ⟨hm, rfl⟩ := ite_some_none_eq_some.mp hstep
    exact h.handle hm

/-! ### The discipline of admission -/

def State.answers (s : State) (caller : Caller) : ℕ := (s.replies.map Prod.fst).count caller

/-- The call has not been answered: it is still to be handled, or it waits and its timer runs, or its
process has exited. -/
def Unanswered (s : State) (caller : Caller) : Prop :=
  s.answers caller = 0 ∧ (.acquire caller ∈ s.mailbox ∨
    (∃ ref, (ref, caller) ∈ s.waiting ∧ Timed s ref) ∨ caller.pid ∈ s.exited)

/-- The slot of an admitted caller is in use, unless it was given back: once, by a release or by an
exit. A release or an exit that has not given it back yet is still to be handled. -/
structure FreedOnce (s : State) (ref : ℕ) : Prop where
  count : s.freed.count ref = if ref ∈ s.active.map Prod.fst then 0 else 1
  freed : ref ∈ s.freed → ref ∈ s.releases ∨ Exited s ref
  released : ref ∈ s.releases → ref ∈ s.freed ∨ .release ref ∈ s.mailbox
  exited : Exited s ref → ref ∈ s.freed ∨ .down ref ∈ s.mailbox

theorem Inv.answered (hcaller : caller ∈ s.calls) :
    s.answers caller = 1 ∨ Unanswered s caller := by
  have hone : s.calls.count caller = 1 := count_eq_one_of_mem h.calls.1 hcaller
  have haccount := h.accounted caller
  rw [hone] at haccount
  simp only [State.accounts, count_nil] at haccount
  unfold Unanswered State.answers
  by_cases hmail : .acquire caller ∈ s.mailbox
  · have hpos := count_pos_iff.mpr hmail
    exact .inr ⟨by omega, .inl hmail⟩
  · by_cases hwait : caller ∈ s.waiting.map Prod.snd
    · have hpos := count_pos_iff.mpr hwait
      obtain ⟨⟨ref, c⟩, hw, rfl⟩ := mem_map.mp hwait
      exact .inr ⟨by omega, .inr (.inl ⟨ref, hw, h.signals.timed _ hw⟩)⟩
    · by_cases hleft : caller ∈ s.left
      · have hpos := count_pos_iff.mpr hleft
        exact .inr ⟨by omega, .inr (.inr (h.origins.left caller hleft))⟩
      · have hmail0 := List.count_eq_zero.mpr hmail
        have hwait0 := List.count_eq_zero.mpr hwait
        have hleft0 := List.count_eq_zero.mpr hleft
        exact .inl (by omega)

theorem Inv.freedOnce (href : ref ∈ s.admitted) : FreedOnce s ref := by
  have hone : s.admitted.count ref = 1 := count_eq_one_of_mem (h.slots.order.imp Nat.ne_of_lt) href
  have hplaces := h.slots.places ref
  rw [hone] at hplaces
  have hcount : s.freed.count ref = if ref ∈ s.active.map Prod.fst then 0 else 1 := by
    split
    · rename_i hactive
      have hpos := count_pos_iff.mpr hactive
      omega
    · rename_i hactive
      have hzero := List.count_eq_zero.mpr hactive
      omega
  -- a slot that is in use has the message of its release, or of the exit of its holder, before it
  have hsplit : ref ∈ s.freed ∨ ∃ a ∈ s.active, a.1 = ref := by
    by_cases hactive : ref ∈ s.active.map Prod.fst
    · exact .inr (mem_map.mp hactive)
    · rw [if_neg hactive] at hcount
      exact .inl (count_pos_iff.mp (by omega))
  refine ⟨hcount, h.origins.freed ref, fun hreleased => ?_, fun hexited => ?_⟩
  · refine hsplit.imp_right ?_
    rintro ⟨a, ha, rfl⟩
    exact h.origins.pending a ha hreleased
  · refine hsplit.imp_right ?_
    rintro ⟨a, ha, rfl⟩
    obtain ⟨pid, hpid, howner⟩ := hexited
    rw [h.origins.active a ha] at howner
    cases howner
    exact (h.signals.active a ha).resolve_left fun hlive => hlive.2 hpid

theorem Inv.expired (hw : (ref, caller) ∈ s.waiting)
    (hstep : step cfg s (.handle (.expire ref)) = some t) : t.answers caller = 1 := by
  have hlookup : s.waiting.lookup ref = some caller := lookup_of_mem h.slots.keys hw
  have ht := inv_of_step h hstep
  obtain ⟨-, rfl⟩ := ite_some_none_eq_some.mp hstep
  have hcalls : caller ∈ s.calls := by
    have haccount := h.accounted caller
    have hpos : 0 < (s.waiting.map Prod.snd).count caller := count_pos_iff.mpr (mem_map.mpr ⟨_, hw, rfl⟩)
    simp only [State.accounts, count_nil] at haccount
    exact count_pos_iff.mp (by omega)
  have hkept : caller ∈ (Admission.handle cfg
      (s.take (.expire ref)) (.expire ref)).calls := by
    rw [calls_handle]
    exact hcalls
  refine (ht.answered hkept).resolve_right fun hnot => ?_
  have hzero := List.count_eq_zero.mp hnot.1
  apply hzero
  simp [Admission.handle, expire, hlookup, State.stopWaiting, State.reply]

end

/-- Slots are within the limit; somebody waits only while all are in use; callers are admitted in the
order they arrived in, among those who still wait; a call is answered once, unless its process exits
first, since the timer of a waiting caller answers it; and the slot of an admitted caller is given
back once, by its release or its exit. -/
theorem admission_discipline {es : List Event} (h : run (step cfg) {} es = some s) :
    s.active.length ≤ cfg.limit ∧
    (s.waiting ≠ [] → s.active.length = cfg.limit) ∧
    (s.admitted.Pairwise (· < ·) ∧ ∀ ref ∈ s.admitted, ∀ w ∈ s.waiting, ref < w.1) ∧
    (∀ caller ∈ s.calls, s.answers caller = 1 ∨ Unanswered s caller) ∧
    (∀ ref caller t, (ref, caller) ∈ s.waiting → step cfg s (.handle (.expire ref)) = some t →
      t.answers caller = 1) ∧
    ∀ ref ∈ s.admitted, FreedOnce s ref := by
  have hs : Inv cfg s := run_invariant inv_of_step (inv_init cfg) h
  exact ⟨hs.slots.limit, hs.full, ⟨hs.slots.order, hs.slots.before⟩, fun _ => hs.answered,
    fun _ _ _ => hs.expired, fun _ => hs.freedOnce⟩

def contended : List Event :=
  [.call 1, .handle (.acquire ⟨1, 0⟩), .call 2, .handle (.acquire ⟨2, 1⟩)]

theorem admission_discipline_contended : ∃ s,
    run (step ⟨1, 10⟩) {} (contended ++ [.release 0, .handle (.release 0)]) = some s ∧
    s.admitted = [0, 1] ∧ s.active.length ≤ 1 ∧ FreedOnce s 0 := by
  obtain ⟨s, hs, hadmitted⟩ : ∃ s,
      run (step ⟨1, 10⟩) {} (contended ++ [.release 0, .handle (.release 0)]) = some s ∧
      s.admitted = [0, 1] := by decide +kernel
  obtain ⟨hlimit, -, -, -, -, hfreed⟩ := admission_discipline hs
  exact ⟨s, hs, hadmitted, hlimit, hfreed 0 (by rw [hadmitted]; decide)⟩

/-- The second caller exits while it waits: its call is never answered. -/
theorem exited_waiter_unanswered : ∃ s,
    run (step ⟨1, 10⟩) {} (contended ++ [.exit 2, .handle (.down 1)]) = some s ∧
    ⟨2, 1⟩ ∈ s.calls ∧ s.answers ⟨2, 1⟩ = 0 ∧ s.mailbox = [] ∧ s.waiting = [] ∧ s.timers = [] := by
  decide +kernel

end Converger.Admission
