import Converger.ClientConversation
import Mathlib.Data.List.Perm.Basic

/-!
# The outbox of the client

The sends in flight follow from the moves on the wire, every promise is open or settled once, and a
message whose promise is open is in the outbox. An error for a discarded message leaves its
`clientId` in flight, since the client looks for the entry before it takes the `clientId` out.
-/
namespace Converger.ClientConversation
open GuardedRuns List

/-- The moves of a connection with the sends that are in flight after them: nothing takes off that is
in flight already, or while `max` are. -/
inductive Flown (max : ℕ) : List Move → List String → Prop where
  | nil : Flown max [] []
  | takeoff {wire : List Move} {up : List String} {clientId : String} (h : Flown max wire up)
      (hdown : clientId ∉ up) (hroom : up.length < max) :
      Flown max (wire ++ [.takeoff clientId]) (up ++ [clientId])
  | landing {wire : List Move} {up : List String} {clientId : String} (h : Flown max wire up)
      (hup : clientId ∈ up) : Flown max (wire ++ [.landing clientId]) (up.filter (· ≠ clientId))

theorem Flown.length_le {max : ℕ} {wire : List Move} {up : List String} (h : Flown max wire up) :
    up.length ≤ max := by
  induction h with
  | nil => exact Nat.zero_le max
  | takeoff h hdown hroom ih =>
    rw [length_append, length_singleton]
    omega
  | landing h hup ih => exact Nat.le_trans (length_filter_le _ _) ih

namespace Outbox

structure Sound (o : Outbox) : Prop where
  flown : Flown o.maxInFlight o.wire o.inFlight
  waiting : ∀ p ∈ o.waiting, p.1 ∈ o.ids
  promises : (o.settled ++ o.waiting.map Prod.snd).Perm (List.range o.promises)

def Expected (o : Outbox) : Prop := o.inFlight ⊆ o.unanswered

structure Quiet (o : Outbox) : Prop where
  inFlight : o.inFlight = []
  wire : o.wire = []
  unanswered : o.unanswered = []

variable {o : Outbox} {clientId other : String}

/-! ### The entries -/

theorem ids_touch (clientId : String) (entries : List Entry) :
    (touch clientId entries).map Entry.clientId = entries.map Entry.clientId := by
  induction entries with
  | nil => rfl
  | cons entry entries ih =>
    unfold touch
    split
    · rfl
    · simp only [map_cons, ih]

@[simp] theorem ids_transmit (o : Outbox) (clientId : String) : (o.transmit clientId).ids = o.ids :=
  ids_touch clientId o.entries

theorem mem_ids_remove (hne : other ≠ clientId) (h : other ∈ o.ids) : other ∈ (o.remove clientId).ids := by
  obtain ⟨entry, hentry, rfl⟩ := mem_map.mp h
  apply mem_map_of_mem
  exact (mem_eraseP_of_neg (by simpa using hne)).mpr hentry

@[simp] theorem ids_land (o : Outbox) (clientId : String) : (o.land clientId).ids = o.ids := by
  unfold land
  split <;> rfl

theorem mem_ids_settle (hne : other ≠ clientId) (h : other ∈ o.ids) : other ∈ (o.settle clientId).ids :=
  mem_ids_remove (o := {o.land clientId with
    retryAt := Function.update (o.land clientId).retryAt clientId none}) hne
    ((ids_land o clientId).symm ▸ h : other ∈ (o.land clientId).ids)

/-! ### The flush -/

/-- What the removal of a retry time and a transmission that is allowed keep, a flush keeps. -/
theorem flushLoop_keeps {P : Outbox → Prop} (hretry : ∀ (o : Outbox) clientId, P o →
      P {o with retryAt := Function.update o.retryAt clientId none})
    (htransmit : ∀ (o : Outbox) clientId, P o → clientId ∉ o.inFlight →
      o.inFlight.length < o.maxInFlight → P (o.transmit clientId))
    (now sends : ℕ) (entries : List Entry) (h : P o) : P (o.flushLoop now sends entries) := by
  induction entries generalizing o sends with
  | nil => exact h
  | cons entry entries ih =>
    unfold flushLoop
    split
    · exact h
    · rename_i hroom
      split
      · exact ih sends h
      · rename_i hdown
        split
        · exact ih sends h
        · cases sends with
          | zero => exact hretry o entry.clientId h
          | succ sends =>
            apply ih sends
            exact htransmit _ _ (hretry o entry.clientId h) hdown (Nat.not_le.mp hroom)

theorem ids_flushLoop (now sends : ℕ) (entries : List Entry) (o : Outbox) :
    (o.flushLoop now sends entries).ids = o.ids := by
  apply flushLoop_keeps (P := fun o' => o'.ids = o.ids)
  · intro o' clientId h
    exact h
  · intro o' clientId h _ _
    exact (ids_transmit o' clientId).trans h
  · rfl

theorem Sound.flushLoop (h : o.Sound) (now sends : ℕ) (entries : List Entry) :
    (o.flushLoop now sends entries).Sound := by
  apply flushLoop_keeps (P := Sound) _ _ now sends entries h
  · intro o clientId h
    exact ⟨h.flown, h.waiting, h.promises⟩
  · intro o clientId h hdown hroom
    refine ⟨h.flown.takeoff hdown hroom, fun p hp => ?_, h.promises⟩
    rw [ids_transmit]
    exact h.waiting p hp

theorem Expected.flushLoop (h : o.Expected) (now sends : ℕ) (entries : List Entry) :
    (o.flushLoop now sends entries).Expected := by
  apply flushLoop_keeps (P := Expected) _ _ now sends entries h
  · intro o clientId h
    exact h
  · intro o clientId h _ _
    exact append_subset.mpr ⟨List.Subset.trans h (subset_append_left _ _), subset_append_right _ _⟩

/-! ### The other changes -/

theorem Flown.land (h : Flown o.maxInFlight o.wire o.inFlight) (clientId : String) :
    Flown (o.land clientId).maxInFlight (o.land clientId).wire (o.land clientId).inFlight := by
  unfold Outbox.land
  split
  · rename_i hup
    exact h.landing hup
  · exact h

theorem land_frame (o : Outbox) (clientId : String) :
    (o.land clientId).entries = o.entries ∧ (o.land clientId).waiting = o.waiting ∧
      (o.land clientId).settled = o.settled ∧ (o.land clientId).promises = o.promises ∧
      (o.land clientId).unanswered = o.unanswered := by
  unfold land
  split <;> exact ⟨rfl, rfl, rfl, rfl, rfl⟩

theorem mem_inFlight_land : other ∈ (o.land clientId).inFlight ↔ other ∈ o.inFlight ∧ other ≠ clientId := by
  unfold land
  split
  · simp
  · rename_i hdown
    constructor
    · intro h
      refine ⟨h, ?_⟩
      rintro rfl
      exact hdown h
    · exact And.left

theorem promises_filter {n : ℕ} {settled : List ℕ} {waiting : List (String × ℕ)}
    (h : (settled ++ waiting.map Prod.snd).Perm (List.range n)) (clientId : String) :
    ((settled ++ (waiting.filter (·.1 = clientId)).map Prod.snd) ++
      (waiting.filter (·.1 ≠ clientId)).map Prod.snd).Perm (List.range n) := by
  rw [append_assoc, ← map_append]
  refine List.Perm.trans (List.Perm.append_left _ (List.Perm.map _ ?_)) h
  simpa using filter_append_perm (fun p : String × ℕ => decide (p.1 = clientId)) waiting

section
variable (clientId) (h : o.Sound)
include h

theorem Sound.settle : (o.settle clientId).Sound := by
  obtain ⟨hentries, hwaiting, hsettled, hpromises, -⟩ := land_frame o clientId
  refine ⟨Flown.land h.flown clientId, fun p hp => ?_, ?_⟩
  · obtain ⟨hp, hne⟩ := mem_filter.mp hp
    rw [hwaiting] at hp
    exact mem_ids_settle (by simpa using hne) (h.waiting p hp)
  · have hperm := promises_filter h.promises clientId
    rw [← hwaiting, ← hsettled, ← hpromises] at hperm
    exact hperm

theorem Sound.retryLater (time : ℕ) : (o.retryLater clientId time).Sound := by
  obtain ⟨hentries, hwaiting, hsettled, hpromises, -⟩ := land_frame o clientId
  refine ⟨Flown.land h.flown clientId, fun p hp => ?_, ?_⟩
  · exact (ids_land o clientId).symm ▸ h.waiting p (hwaiting ▸ hp)
  · have hperm := h.promises
    rw [← hwaiting, ← hsettled, ← hpromises] at hperm
    exact hperm

theorem Sound.rejectWaiting : o.rejectWaiting.Sound where
  flown := h.flown
  waiting p hp := by cases hp
  promises := by simpa [Outbox.rejectWaiting] using h.promises

theorem Sound.discard : o.discard.Sound where
  flown := h.flown
  waiting p hp := by cases hp
  promises := by simpa [Outbox.discard, Outbox.rejectWaiting] using h.promises

theorem Sound.load (stored : List Entry) : (o.load stored).Sound where
  flown := h.flown
  waiting p hp := by
    have hmem : p.1 ∈ (stored.filter (·.clientId ∉ o.ids)).map Entry.clientId ++ o.ids :=
      mem_append_right _ (h.waiting p hp)
    rwa [ids, ← map_append] at hmem
  promises := h.promises

theorem Sound.send (fatal : Bool) : (o.send fatal clientId).Sound := by
  unfold Outbox.send
  split
  · refine ⟨h.flown, h.waiting, ?_⟩
    simp only [range_succ, append_assoc]
    refine List.Perm.trans (List.Perm.append_left _ perm_append_comm) ?_
    rw [← append_assoc]
    exact h.promises.append_right _
  · refine ⟨h.flown, fun p hp => ?_, ?_⟩
    · simp only [ids, map_append, map_singleton]
      rcases mem_snoc.mp hp with hold | rfl
      · exact mem_append_left _ (h.waiting p hold)
      · exact mem_append_right _ (mem_singleton_self clientId)
    · simp only [map_append, map_singleton, range_succ, ← append_assoc]
      exact h.promises.append_right _

theorem Sound.disconnected : o.disconnected.Sound :=
  ⟨.nil, h.waiting, h.promises⟩

theorem Sound.answered : (o.answered clientId).Sound :=
  ⟨h.flown, h.waiting, h.promises⟩

end

theorem Expected.land (h : o.Expected) (clientId : String) : (o.land clientId).Expected := by
  intro other hother
  rw [(land_frame o clientId).2.2.2.2]
  exact h (mem_inFlight_land.mp hother).1

theorem Expected.answered_land (h : o.Expected) (clientId : String) :
    ((o.answered clientId).land clientId).Expected := by
  intro other hother
  rw [(land_frame (o.answered clientId) clientId).2.2.2.2]
  obtain ⟨hup, hne⟩ := mem_inFlight_land.mp hother
  exact (mem_erase_of_ne hne).mpr (h hup)

theorem Expected.answered (h : o.Expected) (hdown : clientId ∉ o.inFlight) :
    (o.answered clientId).Expected := by
  intro other hother
  have hne : other ≠ clientId := by
    rintro rfl
    exact hdown hother
  exact (mem_erase_of_ne hne).mpr (h hother)

/-! ### A connection that has not begun -/

section
variable (clientId) (h : o.Quiet)
include h

theorem Quiet.land : (o.land clientId).Quiet := by
  have hdown : clientId ∉ o.inFlight := by
    rw [h.inFlight]
    exact not_mem_nil
  rw [Outbox.land, if_neg hdown]
  exact h

theorem Quiet.answered : (o.answered clientId).Quiet :=
  ⟨h.inFlight, h.wire, by rw [Outbox.answered, h.unanswered]; rfl⟩

theorem Quiet.settle : (o.settle clientId).Quiet :=
  ⟨(h.land clientId).inFlight, (h.land clientId).wire, (h.land clientId).unanswered⟩

theorem Quiet.retryLater (time : ℕ) : (o.retryLater clientId time).Quiet :=
  ⟨(h.land clientId).inFlight, (h.land clientId).wire, (h.land clientId).unanswered⟩

theorem Quiet.send (fatal : Bool) : (o.send fatal clientId).Quiet := by
  unfold Outbox.send
  split <;> exact ⟨h.inFlight, h.wire, h.unanswered⟩

end

end Outbox

/-! ### What an event does to the outbox -/

variable {cfg : Config} {c d : Client} {e : Event} {o : Outbox} {clientId : String}

inductive Effect (c : Client) : Event → Outbox → Prop where
  | keep {e : Event} : Effect c e c.outbox
  | limit {conversationId : String} {limit head : Option ℕ} (max : ℕ) (htransport : c.transport)
      (hphase : c.phase ≠ .open) :
      Effect c (.welcome conversationId limit head) {c.outbox with maxInFlight := max}
  | send (clientId : String) (sends : ℕ) :
      Effect c (.send clientId sends) (c.outbox.send c.fatal clientId)
  | load (stored : List Entry) (sends : ℕ) :
      Effect c (.attached stored sends) (c.outbox.load stored)
  | reject {e : Event} : Effect c e c.outbox.rejectWaiting
  | discard : Effect c .discard c.outbox.discard
  | own {frame : Frame} {sends : ℕ} {clientId : String} (hown : c.ownTurn frame = some clientId) :
      Effect c (.frame frame sends) (c.outbox.settle clientId)
  | acked (clientId : String) (seq sends : ℕ) :
      Effect c (.ack clientId seq sends) ((c.outbox.answered clientId).settle clientId)
  | retried {frame : ErrorFrame} {sends : ℕ} {clientId : String} (time : ℕ)
      (hclient : frame.clientId = some clientId) :
      Effect c (.error frame sends) ((c.outbox.answered clientId).retryLater clientId time)
  | failed {frame : ErrorFrame} {sends : ℕ} {clientId : String}
      (hclient : frame.clientId = some clientId) (hretries : ¬ frame.retries) :
      Effect c (.error frame sends) ((c.outbox.answered clientId).settle clientId)
  | unknown {frame : ErrorFrame} {sends : ℕ} {clientId : String}
      (hclient : frame.clientId = some clientId) (hgone : clientId ∉ c.outbox.ids) :
      Effect c (.error frame sends) (c.outbox.answered clientId)
  | gone (gaveUp : Bool) : Effect c (.close gaveUp) c.outbox.disconnected
  | goneForGood : Effect c (.close true) c.outbox.disconnected.rejectWaiting

/-- The outbox of `d` is `o`, or `o` after a flush of an open connection. -/
def Flushed (o : Outbox) (d : Client) : Prop :=
  d.outbox = o ∨ d.phase = .open ∧ ∃ now sends, d.outbox = o.flushLoop now sends o.entries

def Client.control (c : Client) : Bool × Bool × Phase := (c.transport, c.stopped, c.phase)

/-- A handler of `c` ends with `d`, whose outbox may be flushed and whose connection is that of `c`. -/
def Handled (c : Client) (o : Outbox) (d : Client) : Prop := Flushed o d ∧ d.control = c.control

theorem handled_flush (c : Client) (sends : ℕ) : Handled c c.outbox (c.flush sends) := by
  unfold Client.flush
  split
  · rename_i hopen
    exact ⟨.inr ⟨hopen.1, _, _, rfl⟩, rfl⟩
  · exact ⟨.inl rfl, rfl⟩

theorem handled_endReplay (c : Client) (sends : ℕ) : Handled c c.outbox (c.endReplay sends) := by
  unfold Client.endReplay
  split
  · exact handled_flush {c with replaying := false} sends
  · exact ⟨.inl rfl, rfl⟩

theorem handled_onOtherError (c : Client) (frame : ErrorFrame) (sends : ℕ) :
    Handled c c.outbox (c.onOtherError frame sends) := by
  unfold Client.onOtherError
  split
  · exact handled_endReplay c sends
  · split
    · exact handled_endReplay {c with inbox := c.inbox.reset} sends
    · exact ⟨.inl rfl, rfl⟩
  · exact ⟨.inl rfl, rfl⟩

theorem effect_onError (c : Client) (frame : ErrorFrame) (sends : ℕ) :
    ∃ o, Effect c (.error frame sends) o ∧ Handled c o (c.onError frame sends) := by
  cases hclient : frame.clientId with
  | none =>
    simp only [Client.onError, hclient]
    exact ⟨_, .keep, handled_onOtherError c frame sends⟩
  | some clientId =>
    simp only [Client.onError, hclient]
    split
    · split
      · exact ⟨_, .retried _ hclient, .inl rfl, rfl⟩
      · rename_i hretries
        exact ⟨_, .failed hclient hretries, handled_flush {c with outbox := _} sends⟩
    · rename_i hgone
      exact ⟨_, .unknown hclient hgone, handled_onOtherError {c with outbox := _} frame sends⟩

theorem effect_onPersistent (c : Client) (frame : Frame) (id : Uuid) (sends : ℕ) :
    ∃ o, Effect c (.frame frame sends) o ∧ Handled c o (c.onPersistent frame id sends) := by
  have hreceive : Effect c (.frame frame sends) (c.receive frame id).outbox ∧
      (c.receive frame id).control = c.control := by
    simp only [Client.receive]
    split
    · exact ⟨.keep, rfl⟩
    · cases hown : c.ownTurn frame with
      | some clientId => exact ⟨.own hown, rfl⟩
      | none =>
        simp only
        split <;> exact ⟨.keep, rfl⟩
  refine ⟨_, hreceive.1, ?_⟩
  simp only [Client.onPersistent]
  split
  · obtain ⟨hflushed, hcontrol⟩ := handled_endReplay (c.receive frame id) sends
    exact ⟨hflushed, hcontrol.trans hreceive.2⟩
  · exact ⟨.inl rfl, hreceive.2⟩

inductive Control (c d : Client) : Prop where
  | same (h : d.control = c.control)
  | stopped (hstopped : d.stopped) (htransport : ¬ d.transport)
  | opened (hphase : d.phase = .open) (hstopped : d.stopped = c.stopped)
      (htransport : d.transport = c.transport)
  | idle (hbefore : ¬ c.stopped) (hafter : ¬ d.stopped) (hphase : c.phase ≠ .open)
  | closed (hquiet : d.outbox.Quiet) (htransport : ¬ d.transport)

/-- What the event does to the outbox, before a flush, and to the connection. -/
theorem effect_of_step (h : step cfg c e = some d) : ∃ o, Effect c e o ∧ Flushed o d ∧ Control c d := by
  have hhandled : ∀ {o}, Effect c e o ∧ Handled c o d → ∃ o, Effect c e o ∧ Flushed o d ∧ Control c d :=
    fun ⟨heffect, hflushed, hcontrol⟩ => ⟨_, heffect, hflushed, .same hcontrol⟩
  cases result_of_step h with
  | send clientId sends => exact hhandled ⟨.send clientId sends, handled_flush {c with outbox := _} sends⟩
  | discard => exact ⟨_, .discard, .inl rfl, .same rfl⟩
  | disconnect | gaveUp => exact ⟨_, .reject, .inl rfl, .stopped rfl Bool.false_ne_true⟩
  | connect hrunning hphase | refused hrunning hphase =>
    exact ⟨_, .keep, .inl rfl, .idle hrunning hrunning hphase⟩
  | replayTruncated headSeq | tick ms => exact ⟨_, .keep, .inl rfl, .same rfl⟩
  | welcome conversationId limit head htransport hphase =>
    exact ⟨_, .limit _ htransport hphase, .inl rfl, .opened rfl rfl rfl⟩
  | attached stored sends =>
    exact hhandled ⟨.load stored sends, handled_flush {c with outbox := _} sends⟩
  | frame frame sends hown =>
    obtain ⟨_, ho⟩ := effect_onPersistent c frame _ sends
    exact hhandled ho
  | ack clientId seq sends hown =>
    exact hhandled ⟨.acked clientId seq sends, handled_flush {c with outbox := _, inbox := _} sends⟩
  | error frame sends =>
    obtain ⟨_, ho⟩ := effect_onError c frame sends
    exact hhandled ho
  | close gaveUp =>
    cases gaveUp with
    | true => exact ⟨_, .goneForGood, .inl rfl, .stopped rfl Bool.false_ne_true⟩
    | false => exact ⟨_, .gone false, .inl rfl, .closed ⟨rfl, rfl, rfl⟩ Bool.false_ne_true⟩
  | replayTimer sends => exact hhandled ⟨.keep, handled_endReplay c sends⟩
  | retryTimer sends => exact hhandled ⟨.keep, handled_flush c sends⟩

/-! ### The connection -/

/-- A client with a transport is not stopped, and one that is not stopped has sent nothing on a
connection that is not open. -/
structure Client.Connected (c : Client) : Prop where
  running : c.transport → ¬ c.stopped
  quiet : ¬ c.stopped → c.phase ≠ .open → c.outbox.Quiet

theorem quiet_of_effect (h : Effect c e o) (hquiet : c.outbox.Quiet) : o.Quiet := by
  cases h with
  | keep => exact hquiet
  | limit | load | reject | discard => exact ⟨hquiet.inFlight, hquiet.wire, hquiet.unanswered⟩
  | send clientId sends => exact hquiet.send clientId c.fatal
  | own hown => exact hquiet.settle _
  | acked clientId seq sends => exact (hquiet.answered clientId).settle clientId
  | retried time hclient => exact (hquiet.answered _).retryLater _ time
  | failed hclient hretries => exact (hquiet.answered _).settle _
  | unknown hclient hgone => exact hquiet.answered _
  | gone | goneForGood => exact ⟨rfl, rfl, rfl⟩

theorem Client.Connected.of_step (hc : c.Connected) (h : step cfg c e = some d) : d.Connected := by
  obtain ⟨o, heffect, hflushed, hcontrol⟩ := effect_of_step h
  -- nothing is flushed while the connection is not open
  have hkept : c.outbox.Quiet → d.phase ≠ .open → d.outbox.Quiet := by
    intro hquiet hphase
    rcases hflushed with hsame | ⟨hopen, -⟩
    · rw [hsame]
      exact quiet_of_effect heffect hquiet
    · exact absurd hopen hphase
  cases hcontrol with
  | same hcontrol =>
    obtain ⟨htransport, hstopped, hphase⟩ : d.transport = c.transport ∧ d.stopped = c.stopped ∧
        d.phase = c.phase := by simpa [Client.control] using hcontrol
    refine ⟨fun ht => hstopped ▸ hc.running (htransport ▸ ht), fun hs hp => hkept ?_ hp⟩
    exact hc.quiet (hstopped ▸ hs) (hphase ▸ hp)
  | stopped hstopped htransport =>
    exact ⟨fun ht => absurd ht htransport, fun hs => absurd hstopped hs⟩
  | opened hphase hstopped htransport =>
    exact ⟨fun ht => hstopped ▸ hc.running (htransport ▸ ht), fun _ hp => absurd hphase hp⟩
  | idle hbefore hafter hphase => exact ⟨fun _ => hafter, fun _ => hkept (hc.quiet hbefore hphase)⟩
  | closed hquiet htransport => exact ⟨fun ht => absurd ht htransport, fun _ _ => hquiet⟩

theorem sound_of_effect (hc : c.Connected) (h : c.outbox.Sound) (heffect : Effect c e o) :
    o.Sound := by
  cases heffect with
  | keep => exact h
  | limit max htransport hphase =>
    -- the limit is about a connection on which nothing has been sent
    have hquiet := hc.quiet (hc.running htransport) hphase
    refine ⟨?_, h.waiting, h.promises⟩
    simp only [hquiet.inFlight, hquiet.wire]
    exact .nil
  | send clientId sends => exact h.send clientId c.fatal
  | load stored sends => exact h.load stored
  | reject => exact h.rejectWaiting
  | discard => exact h.discard
  | own hown => exact h.settle _
  | acked clientId seq sends => exact (h.answered clientId).settle clientId
  | retried time hclient => exact (h.answered _).retryLater _ time
  | failed hclient hretries => exact (h.answered _).settle _
  | unknown hclient hgone => exact h.answered _
  | gone gaveUp => exact h.disconnected
  | goneForGood => exact h.disconnected.rejectWaiting

theorem sound_of_step (hc : c.Connected) (hs : c.outbox.Sound) (h : step cfg c e = some d) :
    d.outbox.Sound := by
  obtain ⟨o, heffect, hflushed, -⟩ := effect_of_step h
  have ho := sound_of_effect hc hs heffect
  rcases hflushed with hsame | ⟨-, now, sends, hflush⟩
  · exact hsame ▸ ho
  · exact hflush ▸ ho.flushLoop now sends o.entries

/-! ### Leaving the outbox -/

/-- The event takes the message out of the outbox: its ack, its own frame, an error that is not
retried, or a discard. -/
def Leaves (c : Client) (clientId : String) : Event → Prop
  | .ack acked _ _ => acked = clientId
  | .frame frame _ => c.ownTurn frame = some clientId
  | .error frame _ => frame.clientId = some clientId ∧ ¬ frame.retries
  | .discard => True
  | _ => False

theorem leaves_of_effect (heffect : Effect c e o) (h : clientId ∈ c.outbox.ids)
    (hleft : clientId ∉ o.ids) : Leaves c clientId e := by
  by_contra hstays
  apply hleft
  cases heffect with
  | keep | limit | reject | unknown | gone | goneForGood => exact h
  | send sent sends =>
    simp only [Outbox.send]
    split
    · exact h
    · rw [Outbox.ids, map_append]
      exact mem_append_left _ h
  | load stored sends =>
    rw [Outbox.ids, Outbox.load, map_append]
    exact mem_append_right _ h
  | discard => exact absurd trivial hstays
  | @own frame sends other hown =>
    refine Outbox.mem_ids_settle ?_ h
    rintro rfl
    exact hstays hown
  | acked acked seq sends => exact Outbox.mem_ids_settle (Ne.symm hstays) h
  | @retried frame sends other time hclient =>
    exact (Outbox.ids_land (c.outbox.answered other) other).symm ▸ h
  | @failed frame sends other hclient hretries =>
    refine Outbox.mem_ids_settle (o := c.outbox.answered other) ?_ h
    rintro rfl
    exact hstays ⟨hclient, hretries⟩

theorem leaves_of_step (hstep : step cfg c e = some d) (h : clientId ∈ c.outbox.ids)
    (hleft : clientId ∉ d.outbox.ids) : Leaves c clientId e := by
  obtain ⟨o, heffect, hflushed, -⟩ := effect_of_step hstep
  apply leaves_of_effect heffect h
  rcases hflushed with hsame | ⟨-, now, sends, hflush⟩
  · exact hsame ▸ hleft
  · rwa [hflush, Outbox.ids_flushLoop] at hleft

/-! ### Answers -/

def KnownError (c : Client) : Event → Prop
  | .error frame _ => ∀ clientId ∈ frame.clientId,
    clientId ∈ c.outbox.inFlight → clientId ∈ c.outbox.ids
  | _ => True

instance (c : Client) (e : Event) : Decidable (KnownError c e) :=
  match e with
  | .error frame _ => inferInstanceAs (Decidable (∀ clientId ∈ frame.clientId,
      clientId ∈ c.outbox.inFlight → clientId ∈ c.outbox.ids))
  | .send _ _ | .discard | .disconnect | .connect | .refused _ | .welcome _ _ _ | .attached _ _
  | .frame _ _ | .ack _ _ _ | .replayTruncated _ | .close _ | .replayTimer _ | .retryTimer _
  | .tick _ => .isTrue trivial

theorem expected_of_effect (h : c.outbox.Expected) (hknown : KnownError c e)
    (heffect : Effect c e o) : o.Expected := by
  cases heffect with
  | keep | limit | load | reject | discard => exact h
  | send clientId sends =>
    simp only [Outbox.send]
    split <;> exact h
  | own hown => exact h.land _
  | acked clientId seq sends => exact h.answered_land clientId
  | retried time hclient | failed hclient hretries => exact h.answered_land _
  | unknown hclient hgone => exact h.answered fun hup => hgone (hknown _ hclient hup)
  | gone | goneForGood => exact List.Subset.refl _

theorem expected_of_step (h : c.outbox.Expected) (hknown : KnownError c e)
    (hstep : step cfg c e = some d) : d.outbox.Expected := by
  obtain ⟨o, heffect, hflushed, -⟩ := effect_of_step hstep
  have ho := expected_of_effect h hknown heffect
  rcases hflushed with hsame | ⟨-, now, sends, hflush⟩
  · exact hsame ▸ ho
  · exact hflush ▸ ho.flushLoop now sends o.entries

/-! ### Whole runs -/

def Outbox.SettledOnce (o : Outbox) : Prop :=
  ∀ promise < o.promises,
    o.settled.count promise = if promise ∈ o.waiting.map Prod.snd then 0 else 1

theorem Outbox.Sound.settledOnce (h : o.Sound) : o.SettledOnce := by
  intro promise hissued
  have hcount : o.settled.count promise + (o.waiting.map Prod.snd).count promise = 1 := by
    rw [← count_append, h.promises.count_eq]
    exact count_eq_one_of_mem nodup_range (mem_range.mpr hissued)
  split
  · rename_i hopen
    have hpos := count_pos_iff.mpr hopen
    omega
  · rename_i hclosed
    have hzero := List.count_eq_zero.mpr hclosed
    omega

structure Client.Sound (c : Client) : Prop where
  connected : c.Connected
  outbox : c.outbox.Sound

theorem sound_opened (conversationId : Option String) (watermark : ℕ) (stored : List Entry) :
    (opened conversationId watermark stored).Sound :=
  ⟨⟨fun h => absurd h Bool.false_ne_true, fun _ _ => ⟨rfl, rfl, rfl⟩⟩,
    .nil, fun _ hp => absurd hp not_mem_nil, List.Perm.refl _⟩

/-- A message leaves the outbox by its ack, its own frame, a final error or a discard; nothing takes
off that is in flight or beyond the limit; every promise is settled once, and not while its message
is in the outbox; and where no error is about a discarded send, nothing is in flight once every send
on the connection is answered. -/
theorem outbox_discipline {conversationId : Option String} {watermark : ℕ} {stored : List Entry}
    {es : List Event} (h : run (step cfg) (opened conversationId watermark stored) es = some c) :
    (∀ e d clientId, step cfg c e = some d → clientId ∈ c.outbox.ids → clientId ∉ d.outbox.ids →
      Leaves c clientId e) ∧
    Flown c.outbox.maxInFlight c.outbox.wire c.outbox.inFlight ∧
    c.outbox.inFlight.length ≤ c.outbox.maxInFlight ∧
    c.outbox.SettledOnce ∧ (∀ p ∈ c.outbox.waiting, p.1 ∈ c.outbox.ids) ∧
    (Along (step cfg) KnownError (opened conversationId watermark stored) es →
      c.outbox.unanswered = [] → c.outbox.inFlight = []) := by
  obtain ⟨-, hsound⟩ : c.Sound := run_invariant
    (fun hd hstep => ⟨hd.connected.of_step hstep, sound_of_step hd.connected hd.outbox hstep⟩)
    (sound_opened conversationId watermark stored) h
  refine ⟨fun e d clientId hstep => leaves_of_step hstep, hsound.flown, hsound.flown.length_le,
    hsound.settledOnce, hsound.waiting, fun hknown hanswered => ?_⟩
  have hexpected : c.outbox.Expected :=
    run_invariant_along expected_of_step (List.Subset.refl _) hknown h
  unfold Outbox.Expected at hexpected
  rw [hanswered] at hexpected
  exact subset_nil.mp hexpected

def quietServer : Config where
  log _ seq := seq
  own _ := true

def sent : List Event := [.connect, .welcome "c" none none, .send "m" 1]

def refusal : Event := .error { code := .other "invalid_message", clientId := some "m" } 0

theorem outbox_discipline_refused :
    ∃ c, run (step quietServer) (opened none 0 []) (sent ++ [refusal]) = some c ∧
      c.outbox.unanswered = [] ∧ c.outbox.inFlight = [] := by
  obtain ⟨c, hc, hanswered⟩ : ∃ c, run (step quietServer) (opened none 0 []) (sent ++ [refusal]) = some c ∧
      c.outbox.unanswered = [] := by decide +kernel
  exact ⟨c, hc, hanswered, (outbox_discipline hc).2.2.2.2.2 (by decide +kernel) hanswered⟩

/-- The message is discarded before the error for it arrives. -/
theorem discarded_send_stays_in_flight :
    ∃ c, run (step quietServer) (opened none 0 []) (sent ++ [.discard, refusal]) = some c ∧
      c.outbox.unanswered = [] ∧ c.outbox.inFlight = ["m"] := by
  decide +kernel

end Converger.ClientConversation
