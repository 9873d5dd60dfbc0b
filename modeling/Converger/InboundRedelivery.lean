import Converger.CreateActivityKeys
import Converger.Inbound

/-!
# Redelivered messages

A provider may deliver a message again at any time, also while the first delivery is being
processed. A key is unique within one conversation only, and the look-up for a message that
was received before sees the conversations of the channel itself. A message that was filed in
a conversation of another channel is met again where its references still lead there.
-/
namespace Converger.CreateActivity

variable {s : State} {rows : List Activity}

theorem Serialised.openConversation (hs : Serialised s) {c : Uuid}
    (hc : s.conversations c = none) (cv : Conversation) :
    Serialised {s with conversations := Function.update s.conversations c (some cv)} := by
  intro pid call hcall
  refine ⟨(hs pid call hcall).lock, fun d n hd => ?_⟩
  obtain ⟨dv, hdv, hn⟩ := (hs pid call hcall).claim d n hd
  have hdc : d ≠ c := by
    rintro rfl
    rw [hc] at hdv
    cases hdv
  exact ⟨dv, by simpa only [Function.update_of_ne hdc] using hdv, hn⟩

theorem KeyInvariant.openConversation (hs : KeyInvariant s)
    (conversations : Uuid → Option Conversation) :
    KeyInvariant {s with conversations := conversations} :=
  ⟨hs.unique, fun pid call hcall => (hs.known pid call hcall).of_tables rfl rfl⟩

theorem mem_applyStamp {stamp : Option Stamp} {b : Activity}
    (h : b ∈ applyStamp stamp rows) : ∃ x ∈ rows, b.id = x.id ∧
      b.conversationId = x.conversationId ∧ b.idempotencyKey = x.idempotencyKey := by
  cases stamp with
  | none => exact ⟨b, h, rfl, rfl, rfl⟩
  | some st =>
    obtain ⟨x, hx, rfl⟩ := List.mem_map.mp h
    exact ⟨x, hx, by simp⟩

end Converger.CreateActivity

namespace Converger.Inbound
open ActivityChangeset CreateActivity Text GuardedRuns List Option

/-- The conversation a processing has settled on and is creating its activity in. -/
def Phase.conversation : Phase → Option Uuid
  | .creating c => some c
  | _ => none

def Phase.answer : Phase → Option Activity
  | .done (.created a) | .done (.duplicate a) => some a
  | _ => none

def Phase.isLookup : Phase → Bool
  | .lookup => true
  | _ => false

def State.filed (s : State) (key : String) : List Activity :=
  s.store.log.filter fun a => a.idempotencyKey = some key

/-- The processing has made its look-up and may still store an activity. -/
def State.underWay (s : State) (pid : ℕ) (r : Receiving) : Bool :=
  match r.phase with
  | .lookup | .done _ => false
  | .creating _ => (s.store.calls pid).all fun call => call.phase.pending
  | _ => true

def State.busy (s : State) (key : String) : Bool :=
  s.receiving.zipIdx.any fun (r, pid) =>
    r.message.idempotencyKey = some key && s.underWay pid r

/-- The conversation belongs to another channel. -/
def abroad (ch : Channel) (s : State) (c : Uuid) : Bool :=
  (s.store.conversations c).any fun cv => cv.channelId ≠ ch.id

/-- The conversation a reference leads to, and whether it is active. The outer option is
`none` where the look-up raises. -/
def lead (ch : Channel) (s : State) (ref : Ref) : Option (Option (Uuid × Bool)) :=
  (refConversation s ch.id ref).toOption.map (·.map fun c => (c, isActive s c))

/-- The first active conversation that references lead to. -/
def leadsTo (ch : Channel) (s : State) : List Ref → Option Uuid
  | [] => none
  | ref :: rest =>
    match lead ch s ref with
    | none => none
    | some (some (c, true)) => some c
    | some _ => leadsTo ch s rest

/-- A reference of the message leads to a conversation of another channel. -/
def apart (ch : Channel) (message : Message) (s : State) : Bool :=
  (refs message).any fun ref => (lead ch s ref).join.any fun (c, _) => abroad ch s c

/-- Between the two states no reference of the message came to lead elsewhere, and no
conversation that one leads to was closed or reopened, unless they all stay in the channel. -/
def Undisturbed (ch : Channel) (message : Message) (s t : State) : Prop :=
  (∀ ref ∈ refs message, lead ch t ref = lead ch s ref) ∨
    apart ch message s = false ∧ apart ch message t = false

instance (ch : Channel) (message : Message) (s t : State) :
    Decidable (Undisturbed ch message s t) := inferInstanceAs (Decidable (_ ∨ _))

/-- A processing of the message is between its look-up and its store, or the message was
filed in a conversation of another channel. -/
def State.engaged (ch : Channel) (key : String) (s : State) : Bool :=
  s.busy key || (s.filed key).any fun a => abroad ch s a.conversationId

def Redelivers (key : String) (message : Message) : Event → Prop
  | .receive m => m.idempotencyKey = some key → m = message
  | _ => True

instance (key : String) (message : Message) : ∀ e, Decidable (Redelivers key message e)
  | .receive _ => inferInstanceAs (Decidable (_ → _))
  | .advance _ _ | .statement _ _ | .crash _ | .transition _ _ | .deliver _ => .isTrue trivial

/-- The look-up of a processing is not made while another processing of the message stands
between its look-up and its store. -/
def Alone (key : String) (s : State) : Event → Prop
  | .advance pid _ =>
    ∀ r ∈ s.receiving[pid]?, r.message.idempotencyKey = some key → r.phase.isLookup = true →
      s.busy key = false
  | _ => True

instance (key : String) (s : State) : ∀ e, Decidable (Alone key s e)
  | .advance _ _ => inferInstanceAs (Decidable (∀ _ ∈ _, _))
  | .receive _ | .statement _ _ | .crash _ | .transition _ _ | .deliver _ => .isTrue trivial

/-- What a message needs of the steps of a run to become one activity. -/
def Steady (cfg : CreateActivity.Config) (ch : Channel) (key : String) (message : Message)
    (s : State) (e : Event) : Prop :=
  Redelivers key message e ∧ Alone key s e ∧
    (s.engaged ch key = true → ∀ t ∈ step cfg ch s e, Undisturbed ch message s t)

instance (cfg : CreateActivity.Config) (ch : Channel) (key : String) (message : Message)
    (s : State) (e : Event) : Decidable (Steady cfg ch key message s e) :=
  inferInstanceAs (Decidable (_ ∧ _ ∧ _))

/-- The same processings and the same stored activities, perhaps a new conversation. -/
def Opens (ch : Channel) (s t : State) : Prop :=
  t.receiving = s.receiving ∧ (t.store = s.store ∨ ∃ c cv, s.store.conversations c = none ∧
    cv.id = c ∧ cv.channelId = ch.id ∧ t.store =
      { s.store with conversations := Function.update s.store.conversations c (some cv) })

theorem Opens.tables_eq {ch : Channel} {s t : State} (h : Opens ch s t) :
    t.store.activities = s.store.activities ∧ t.store.log = s.store.log ∧
      t.store.calls = s.store.calls := by
  rcases h.2 with hstore | ⟨c, cv, -, -, -, hstore⟩ <;> rw [hstore] <;> exact ⟨rfl, rfl, rfl⟩

theorem Opens.isSome {ch : Channel} {s t : State} (h : Opens ch s t) {c : Uuid}
    (hc : (s.store.conversations c).isSome = true) :
    (t.store.conversations c).isSome = true := by
  rcases h.2 with hstore | ⟨d, dv, -, -, -, hstore⟩ <;> rw [hstore]
  · exact hc
  · by_cases hcd : c = d
    · simp [hcd]
    · simpa [Function.update_of_ne hcd] using hc

theorem Opens.abroad_eq {ch : Channel} {s t : State} (h : Opens ch s t) (c : Uuid) :
    abroad ch t c = abroad ch s c := by
  rcases h.2 with hstore | ⟨d, dv, hd, -, hchannel, hstore⟩
  · rw [abroad, abroad, hstore]
  · by_cases hcd : c = d
    · subst hcd
      simp [abroad, hstore, hd, hchannel]
    · simp [abroad, hstore, Function.update_of_ne hcd]

theorem joins_tables (ch : Channel) (s : State) (message : Message) (id : Uuid) :
    (joins ch s message id).receiving = s.receiving ∧ (joins ch s message id).store = s.store := by
  unfold joins
  split
  · exact ⟨rfl, rfl⟩
  · split <;> exact ⟨rfl, rfl⟩

variable {inp : Input} {phase : Phase}

theorem opens_of_eq_some {ch : Channel} {s t : State} {message : Message}
    (h : opens ch s message inp = some t) :
    Opens ch s t ∧ abroad ch t inp.conversationId = false := by
  unfold opens at h
  split at h <;> cases h
  rename_i hfresh
  exact ⟨⟨rfl, .inr ⟨_, _, not_isSome_iff_eq_none.mp hfresh, rfl, rfl, rfl⟩⟩, by simp [abroad]⟩

/-- The search for the conversation of a message, reference by reference. -/
inductive Scans (ch : Channel) (s : State) : Phase → Phase → Prop
  | passes {ref : Ref} {rest : List Ref} (h : refConversation s ch.id ref = .ok none) :
      Scans ch s (.thread (ref :: rest)) (.thread rest)
  | finds {ref : Ref} {rest : List Ref} {c : Uuid}
      (h : refConversation s ch.id ref = .ok (some c)) :
      Scans ch s (.thread (ref :: rest)) (.candidate c rest)
  | skips {rest : List Ref} {c : Uuid} (h : isActive s c = false) :
      Scans ch s (.candidate c rest) (.thread rest)
  | sender : Scans ch s (.thread []) .participant
  | nobody : Scans ch s (.thread []) .newConversation

/-- Where the search may end: at an active conversation that a reference leads to, or at one
of the channel itself. -/
inductive Settles (ch : Channel) (s t : State) : Phase → Uuid → Prop
  | threaded {rest : List Ref} {c : Uuid} (h : isActive s c = true) :
      Settles ch s t (.candidate c rest) c
  | resolved {c : Uuid} (h : abroad ch t c = false) : Settles ch s t .participant c
  | opened {c : Uuid} (h : abroad ch t c = false) : Settles ch s t .newConversation c

inductive Advances (ch : Channel) (s : State) (pid : ℕ) (r : Receiving) : State → Prop
  | ends {result : Result} (hanswer : (Phase.done result).answer = none)
      (hidle : r.phase.conversation = none ∨ s.store.calls pid = none) :
      Advances ch s pid r (s.setPhase pid r (.done result))
  | begins (hphase : r.phase = .lookup)
      (hnone : getActivityByChannelIdempotencyKey s ch.id r.message.idempotencyKey = none) :
      Advances ch s pid r (s.setPhase pid r (.thread (refs r.message)))
  | scans {phase : Phase} (h : Scans ch s r.phase phase) :
      Advances ch s pid r (s.setPhase pid r phase)
  | duplicate {a : Activity} (hidle : r.phase.conversation = none)
      (hfound : getActivityByChannelIdempotencyKey s ch.id r.message.idempotencyKey = some a) :
      Advances ch s pid r (s.setPhase pid r (.done (.duplicate a)))
  | settle {c : Uuid} {u : State} (hsettles : Settles ch s u r.phase c) (hu : Opens ch s u) :
      Advances ch s pid r (u.setPhase pid r (.creating c))
  | call {c : Uuid} (content : ActivityChangeset.Attrs) (hphase : r.phase = .creating c)
      (hcall : s.store.calls pid = none) :
      Advances ch s pid r { s with store := { s.store with
        calls := Function.update s.store.calls pid
          (some { attrs := activityAttrs ch c r.message content }) } }
  | finish {call : Call} {result : CreateActivity.Result} (hcall : s.store.calls pid = some call)
      (hdone : call.phase = .done result) :
      Advances ch s pid r (s.setPhase pid r (.done (ofResult result)))

/-- A row is stored under its own id. -/
def Keyed (s : State) : Prop := ∀ c cv, s.store.conversations c = some cv → cv.id = c

theorem abroad_senderConversation {ch : Channel} {s : State} {message : Message} {now : ℕ}
    {cv : Conversation} (hs : Keyed s) (h : senderConversation ch s message now = some cv) :
    abroad ch s cv.id = false := by
  simp only [senderConversation, bind_eq_bind, bind_eq_some_iff] at h
  obtain ⟨externalId, -, participant, -, h⟩ := h
  have hmem := mem_filter.mp (argmax_mem (filter_eq_some_iff.mp h).1)
  obtain ⟨c, -, hc⟩ := mem_filterMap.mp hmem.1
  obtain rfl := hs c cv hc
  simp_all [abroad]

theorem advance_advances {ch : Channel} {s t : State} {pid : ℕ} {r : Receiving} (hs : Keyed s)
    (h : advance ch s pid r inp = some t) : Advances ch s pid r t := by
  obtain ⟨hreceiving, hstore⟩ := joins_tables ch s r.message inp.participantId
  have hjoins : Opens ch s (joins ch s r.message inp.participantId) := ⟨hreceiving, .inl hstore⟩
  revert h
  fun_cases advance ch s pid r inp with
  | case1 hp a hfound =>
    rintro ⟨⟩
    exact .duplicate (congrArg Phase.conversation hp) hfound
  | case2 hp hnone =>
    rintro ⟨⟩
    exact .begins hp hnone
  | case3 hp =>
    rintro ⟨⟩
    split
    · exact .scans (hp ▸ .sender)
    · exact .scans (hp ▸ .nobody)
  | case5 ref rest hp hnone =>
    rintro ⟨⟩
    exact .scans (hp ▸ .passes hnone)
  | case6 ref rest hp c hc =>
    rintro ⟨⟩
    exact .scans (hp ▸ .finds hc)
  | case7 c rest hp hactive =>
    rintro ⟨⟩
    exact .settle (hp ▸ .threaded hactive) hjoins
  | case8 c rest hp hactive =>
    rintro ⟨⟩
    exact .scans (hp ▸ .skips (by simpa using hactive))
  | case4 _ _ hp | case9 hp | case12 hp =>
    rintro ⟨⟩
    exact .ends rfl (.inl (congrArg Phase.conversation hp))
  | case10 hp hfails joined cv hcv =>
    rintro ⟨⟩
    have habroad : abroad ch joined cv.id = false := by
      simpa only [joined, abroad, hstore] using abroad_senderConversation hs hcv
    exact .settle (hp ▸ .resolved habroad) hjoins
  | case11 hp hfails joined hcv =>
    intro h
    obtain ⟨u, hu, rfl⟩ := map_eq_some_iff.mp h
    obtain ⟨⟨hrec, hopen⟩, habroad⟩ := opens_of_eq_some hu
    refine .settle (hp ▸ .resolved habroad) ⟨hrec.trans hreceiving, ?_⟩
    rw [← hstore]
    exact hopen
  | case13 hp hfails =>
    intro h
    obtain ⟨u, hu, rfl⟩ := map_eq_some_iff.mp h
    obtain ⟨hopen, habroad⟩ := opens_of_eq_some hu
    exact .settle (hp ▸ .opened habroad) hopen
  | case14 c hp =>
    intro h
    simp only [createActivity] at h
    split at h
    · split at h <;> cases h
      · exact .ends rfl (.inr ‹_›)
      · exact .call _ hp ‹_›
    · split at h <;> cases h
      exact .finish ‹_› ‹_›
  | case15 => nofun

/-- Every call was made by a processing, for the conversation it settled on. -/
def Owned (s : State) (pid : ℕ) (call : Call) : Prop :=
  ∃ r c, s.receiving[pid]? = some r ∧ call.attrs.conversationId = some c ∧
    call.attrs.idempotencyKey = r.message.idempotencyKey ∧
    (r.phase = .creating c ∨ ∃ result, call.phase = .done result)

structure Linked (s : State) : Prop where
  serialised : Serialised s.store
  keys : KeyInvariant s.store
  deleted : s.store.deleted = []
  keyed : Keyed s
  owned : ∀ pid call, s.store.calls pid = some call → Owned s pid call

section Links
variable {cfg : CreateActivity.Config} {ch : Channel} {s t u : State} {pid : ℕ} {r : Receiving}
  {e : Event}

theorem creating_ne {c : Uuid} (h : phase.conversation = none) : phase ≠ .creating c := by
  rintro rfl
  cases h

/-- The processing looks for the conversation of its message. -/
def Phase.scanning : Phase → Bool
  | .thread _ | .candidate _ _ | .participant | .newConversation => true
  | _ => false

theorem Scans.scanning {p : Phase} (h : Scans ch s p phase) : p.scanning = true := by
  cases h <;> rfl

theorem Scans.answer {p : Phase} (h : Scans ch s p phase) : phase.answer = none := by
  cases h <;> rfl

theorem Settles.scanning {p : Phase} {c : Uuid} (h : Settles ch s t p c) :
    p.scanning = true := by
  cases h <;> rfl

theorem conversation_of_scanning {p : Phase} (h : p.scanning = true) : p.conversation = none := by
  cases p <;> first | rfl | cases h

theorem underWay_of_scanning (h : r.phase.scanning = true) : s.underWay pid r = true := by
  obtain ⟨message, phase⟩ := r
  cases phase <;> first | rfl | cases h

variable (hs : Linked s)
include hs

theorem Linked.opens (h : Opens ch s u) : Linked u := by
  obtain ⟨hreceiving, hstore⟩ := h
  have howned : ∀ pid call, s.store.calls pid = some call → Owned u pid call := by
    intro pid call hcall
    obtain ⟨r, c, hr, hlink⟩ := hs.owned pid call hcall
    exact ⟨r, c, hreceiving ▸ hr, hlink⟩
  rcases hstore with hstore | ⟨c, cv, hc, hid, -, hstore⟩
  · refine ⟨hstore ▸ hs.serialised, hstore ▸ hs.keys, hstore ▸ hs.deleted, ?_, hstore ▸ howned⟩
    rw [Keyed, hstore]
    exact hs.keyed
  · refine ⟨?_, ?_, ?_, ?_, ?_⟩ <;> simp only [Keyed, hstore]
    · exact hs.serialised.openConversation hc cv
    · exact hs.keys.openConversation _
    · exact hs.deleted
    · intro d dv hd
      by_cases hdc : d = c
      · subst hdc
        obtain rfl : cv = dv := by simpa using hd
        exact hid
      · exact hs.keyed d dv (by simpa [Function.update_of_ne hdc] using hd)
    · exact howned

theorem Linked.setPhase (hr : s.receiving[pid]? = some r) (phase : Phase)
    (hdone : ∀ call c, s.store.calls pid = some call → r.phase = .creating c →
      ∃ result, call.phase = .done result) : Linked (s.setPhase pid r phase) := by
  refine ⟨hs.serialised, hs.keys, hs.deleted, hs.keyed, fun q call hcall => ?_⟩
  obtain ⟨r', c, hr', hconv, hkey, hlive⟩ := hs.owned q call hcall
  by_cases hqp : q = pid
  · subst hqp
    obtain rfl := some.inj (hr.symm.trans hr')
    have hlt : q < s.receiving.length := (List.getElem?_eq_some_iff.mp hr).1
    refine ⟨{ r with phase := phase }, c, by simp [State.setPhase, hlt], hconv, hkey, .inr ?_⟩
    rcases hlive with hphase | hdone'
    · exact hdone call c hcall hphase
    · exact hdone'
  · exact ⟨r', c, by simpa [State.setPhase, getElem?_set_ne (Ne.symm hqp)] using hr', hconv, hkey,
      hlive⟩

theorem Linked.advance (hr : s.receiving[pid]? = some r) (h : Advances ch s pid r t) :
    Linked t := by
  have hidle : r.phase.conversation = none → ∀ phase, Linked (s.setPhase pid r phase) :=
    fun hidle phase => hs.setPhase hr _ fun call c _ hphase => absurd hphase (creating_ne hidle)
  cases h with
  | ends hanswer hends =>
    rcases hends with hends | hnone
    · exact hidle hends _
    · refine hs.setPhase hr _ fun call c hcall _ => ?_
      rw [hnone] at hcall
      cases hcall
  | begins hphase => exact hidle (by rw [hphase]; rfl) _
  | scans hscans => exact hidle (conversation_of_scanning hscans.scanning) _
  | duplicate hphase => exact hidle hphase _
  | settle hsettles hu =>
    refine (hs.opens hu).setPhase (hu.1 ▸ hr) _ fun call c _ hphase => ?_
    exact absurd hphase (creating_ne (conversation_of_scanning hsettles.scanning))
  | @call c content hphase hcall =>
    have hstart : Moves { month := id } s.store _ :=
      .start (activityAttrs ch c r.message content) {} hcall
    exact ⟨hs.serialised.moves hstart, hs.keys.moves hs.serialised hstart, hs.deleted, hs.keyed,
      forall_calls_update.mpr ⟨⟨r, c, hr, rfl, rfl, .inl hphase⟩, fun q _ => hs.owned q⟩⟩
  | finish hcall hdone =>
    refine hs.setPhase hr _ fun call' c hcall' _ => ?_
    obtain rfl := some.inj (hcall.symm.trans hcall')
    exact ⟨_, hdone⟩

theorem Linked.continues {e : CreateActivity.Event} (he : e.isOngoing = true)
    {store : CreateActivity.State} (h : CreateActivity.step cfg s.store e = some store) :
    Linked { s with store := store } := by
  have hmoves := CreateActivity.step_moves h
  obtain ⟨-, hdeleted, hcalls, -⟩ := step_writes hs.keys he h
  refine ⟨hs.serialised.moves hmoves, hs.keys.moves hs.serialised hmoves,
    hdeleted.trans hs.deleted, fun c cv hcv => ?_, fun pid call' hcall' => ?_⟩
  · have hchannel := step_channels h c
    rw [show store.conversations c = some cv from hcv] at hchannel
    obtain ⟨dv, hdv, heq⟩ := map_eq_some_iff.mp hchannel.symm
    rw [← hs.keyed c dv hdv]
    exact (Prod.mk.inj heq).1.symm
  · obtain ⟨call, hcall, hattrs, hdone, -⟩ := hcalls pid call' hcall'
    obtain ⟨r, c, hr, hconv, hkey, hlive⟩ := hs.owned pid call hcall
    refine ⟨r, c, hr, hattrs ▸ hconv, hattrs ▸ hkey, hlive.imp id ?_⟩
    rintro ⟨result, hresult⟩
    exact hdone result hresult

end Links

/-! ### Where the references lead -/

section Leads
variable {ch : Channel} {message : Message} {s t : State} {c : Uuid} {ref : Ref} {l : List Ref}

theorem lead_of_ok {o : Option Uuid} (h : refConversation s ch.id ref = .ok o) :
    lead ch s ref = some (o.map fun c => (c, isActive s c)) := by
  rw [lead, h]
  rfl

theorem refConversation_of_lead {b : Bool} (h : lead ch s ref = some (some (c, b))) :
    refConversation s ch.id ref = .ok (some c) := by
  unfold lead at h
  cases hc : refConversation s ch.id ref with
  | error e => simp [hc, Except.toOption] at h
  | ok o =>
    cases o with
    | none => simp [hc, Except.toOption] at h
    | some d =>
      obtain ⟨rfl, -⟩ : d = c ∧ isActive s d = b := by simpa [hc, Except.toOption] using h
      rfl

theorem leadsTo_cons_none (h : refConversation s ch.id ref = .ok none) :
    leadsTo ch s (ref :: l) = leadsTo ch s l := by
  rw [leadsTo, lead_of_ok h]
  rfl

theorem leadsTo_cons_some (h : refConversation s ch.id ref = .ok (some c)) :
    leadsTo ch s (ref :: l) = if isActive s c then some c else leadsTo ch s l := by
  rw [leadsTo, lead_of_ok h]
  cases hactive : isActive s c <;> simp [hactive]

theorem apart_of_lead {b : Bool} (hmem : ref ∈ refs message)
    (h : lead ch s ref = some (some (c, b))) (hc : abroad ch s c = true) :
    apart ch message s = true :=
  List.any_eq_true.mpr ⟨ref, hmem, by simpa [h] using hc⟩

theorem apart_of_leadsTo (hl : l ⊆ refs message) (h : leadsTo ch s l = some c)
    (hc : abroad ch s c = true) : apart ch message s = true := by
  induction l with
  | nil => cases h
  | cons ref rest ih =>
    obtain ⟨href, hrest⟩ := cons_subset.mp hl
    rw [leadsTo] at h
    split at h
    · cases h
    · rename_i d hd
      cases some.inj h
      exact apart_of_lead href hd hc
    · exact ih hrest h

theorem leadsTo_congr (h : ∀ ref ∈ l, lead ch t ref = lead ch s ref) :
    leadsTo ch t l = leadsTo ch s l := by
  induction l with
  | nil => rfl
  | cons ref rest ih =>
    obtain ⟨href, hrest⟩ := forall_mem_cons.mp h
    rw [leadsTo, leadsTo, href, ih hrest]

section
variable (h : Undisturbed ch message s t)
include h

theorem Undisturbed.apart_eq (habroad : ∀ c, abroad ch t c = abroad ch s c) :
    apart ch message t = apart ch message s := by
  rcases h with h | ⟨hs, ht⟩
  · have habroad : abroad ch t = abroad ch s := funext habroad
    rw [apart, apart, habroad, Bool.eq_iff_iff, List.any_eq_true, List.any_eq_true]
    exact exists_congr fun ref => and_congr_right fun hmem => by rw [h ref hmem]
  · rw [hs, ht]

theorem Undisturbed.leads (hs : apart ch message s = true) :
    ∀ ref ∈ refs message, lead ch t ref = lead ch s ref := by
  refine h.resolve_right fun hnot => ?_
  rw [hs] at hnot
  cases hnot.1

theorem Undisturbed.leadsTo_eq (hs : apart ch message s = true) (hl : l ⊆ refs message) :
    leadsTo ch t l = leadsTo ch s l :=
  leadsTo_congr fun ref hmem => h.leads hs ref (hl hmem)

end

/-- How far the search of a processing has come. Where a reference leads to another channel,
the references passed over lead to no active conversation. -/
def Path (ch : Channel) (key : String) (message : Message) (s : State) : Phase → Prop
  | .thread rest => rest ⊆ refs message ∧
      (apart ch message s = true → leadsTo ch s (refs message) = leadsTo ch s rest)
  | .candidate c rest => rest ⊆ refs message ∧
      (apart ch message s = true → ∃ ref ∈ refs message,
        refConversation s ch.id ref = .ok (some c) ∧
          leadsTo ch s (refs message) = leadsTo ch s (ref :: rest)) ∧
      (apart ch message s = false → abroad ch s c = false)
  | .participant | .newConversation =>
    apart ch message s = true → leadsTo ch s (refs message) = none
  | .creating c => abroad ch s c = false ∧ s.filed key = [] ∨
      apart ch message s = true ∧ leadsTo ch s (refs message) = some c
  | .lookup | .done _ => True

theorem Path.transport {key : String} (h : Path ch key message s phase)
    (hund : Undisturbed ch message s t) (habroad : ∀ c, abroad ch t c = abroad ch s c)
    (hfiled : t.filed key = s.filed key) : Path ch key message t phase := by
  have hapart := hund.apart_eq habroad
  have hrefs : apart ch message s = true →
      leadsTo ch t (refs message) = leadsTo ch s (refs message) := fun hs =>
    hund.leadsTo_eq hs (Subset.refl _)
  cases phase with
  | lookup | done => trivial
  | thread rest =>
    obtain ⟨hrest, hleads⟩ := h
    refine ⟨hrest, fun ht => ?_⟩
    rw [hapart] at ht
    rw [hrefs ht, hleads ht, hund.leadsTo_eq ht hrest]
  | candidate c rest =>
    obtain ⟨hrest, hleads, hown⟩ := h
    refine ⟨hrest, fun ht => ?_, fun ht => ?_⟩
    · rw [hapart] at ht
      obtain ⟨ref, hmem, hconv, heq⟩ := hleads ht
      have hlead := (hund.leads ht ref hmem).trans (lead_of_ok hconv)
      refine ⟨ref, hmem, refConversation_of_lead hlead, ?_⟩
      rw [hrefs ht, heq, hund.leadsTo_eq ht (cons_subset.mpr ⟨hmem, hrest⟩)]
    · rw [habroad]
      exact hown (hapart ▸ ht)
  | participant | newConversation =>
    intro ht
    rw [hapart] at ht
    rw [hrefs ht, h ht]
  | creating c =>
    rcases h with ⟨hc, hempty⟩ | ⟨hs, hleads⟩
    · exact .inl ⟨(habroad c).trans hc, hfiled.trans hempty⟩
    · exact .inr ⟨hapart.trans hs, (hrefs hs).trans hleads⟩

theorem Path.scans {key : String} {p : Phase} (h : Path ch key message s p)
    (hscans : Scans ch s p phase) : Path ch key message s phase := by
  cases hscans with
  | passes hnone =>
    obtain ⟨hrest, hleads⟩ := h
    exact ⟨(cons_subset.mp hrest).2, fun hs => (hleads hs).trans (leadsTo_cons_none hnone)⟩
  | @finds ref rest c hc =>
    obtain ⟨hrest, hleads⟩ := h
    obtain ⟨hmem, hrest⟩ := cons_subset.mp hrest
    refine ⟨hrest, fun hs => ⟨ref, hmem, hc, hleads hs⟩, fun hs => ?_⟩
    rw [← Bool.not_eq_true]
    intro habroad
    rw [apart_of_lead hmem (lead_of_ok hc) habroad] at hs
    cases hs
  | @skips rest c hinactive =>
    obtain ⟨hrest, hleads, -⟩ := h
    refine ⟨hrest, fun hs => ?_⟩
    obtain ⟨ref, -, hc, heq⟩ := hleads hs
    rw [heq, leadsTo_cons_some hc, hinactive]
    rfl
  | sender | nobody => exact h.2

/-- The search ends in the channel itself, or where the references lead. -/
theorem Path.settles {key : String} {p : Phase} (h : Path ch key message s p)
    (hsettles : Settles ch s t p c) (habroad : ∀ c, abroad ch t c = abroad ch s c)
    (hfiled : ∀ a ∈ s.filed key, abroad ch s a.conversationId = true ∧
      leadsTo ch s (refs message) = some a.conversationId) :
    Path ch key message s (.creating c) := by
  have hempty : (apart ch message s = true → leadsTo ch s (refs message) = none) →
      s.filed key = [] := by
    intro hnone
    refine eq_nil_iff_forall_not_mem.mpr fun a ha => ?_
    obtain ⟨haway, hleads⟩ := hfiled a ha
    rw [hnone (apart_of_leadsTo (Subset.refl _) hleads haway)] at hleads
    cases hleads
  cases hsettles with
  | threaded hactive =>
    obtain ⟨-, hleads, hown⟩ := h
    cases hs : apart ch message s with
    | false => exact .inl ⟨hown hs, hempty (by simp [hs])⟩
    | true =>
      obtain ⟨ref, -, hc, heq⟩ := hleads hs
      refine .inr ⟨hs, ?_⟩
      rw [heq, leadsTo_cons_some hc, hactive]
      rfl
  | resolved hc | opened hc => exact .inl ⟨(habroad c).symm.trans hc, hempty h⟩

end Leads

/-! ### One activity -/

/-- The processing numbered `pid` is one of the message and stands between look-up and store. -/
def OnWay (key : String) (s : State) (pid : ℕ) (r : Receiving) : Prop :=
  s.receiving[pid]? = some r ∧ r.message.idempotencyKey = some key ∧ s.underWay pid r = true

structure Filing (ch : Channel) (key : String) (message : Message) (s : State) : Prop where
  -- The stored activities with the key are those created with it.
  stored : ∀ b ∈ s.store.activities, b.idempotencyKey = some key → ∃ a ∈ s.filed key, a.id = b.id
  kept : ∀ a ∈ s.filed key, ∃ b ∈ s.store.activities,
    b.conversationId = a.conversationId ∧ b.idempotencyKey = some key
  located : ∀ a ∈ s.filed key, (s.store.conversations a.conversationId).isSome = true
  single : (s.filed key).length ≤ 1
  answered : ∀ r ∈ s.receiving, r.message.idempotencyKey = some key → ∀ a ∈ r.phase.answer,
    ∃ b ∈ s.filed key, b.id = a.id
  redelivered : ∀ r ∈ s.receiving, r.message.idempotencyKey = some key → r.message = message
  -- The references lead to an activity that the look-up by channel does not see.
  leads : ∀ a ∈ s.filed key, abroad ch s a.conversationId = true →
    leadsTo ch s (refs message) = some a.conversationId
  alone : ∀ p r, OnWay key s p r → ∀ p' r', OnWay key s p' r' → p' = p
  path : ∀ p r, OnWay key s p r → Path ch key message s r.phase ∧
    ∀ a ∈ s.filed key, abroad ch s a.conversationId = true

section Files
variable {cfg : CreateActivity.Config} {ch : Channel} {key : String} {message : Message}
  {s t : State} {pid : ℕ} {r : Receiving} {e : Event}

theorem OnWay.engaged (h : OnWay key s pid r) : s.engaged ch key = true := by
  obtain ⟨hr, hk, hway⟩ := h
  refine Bool.or_eq_true_iff.mpr (.inl (List.any_eq_true.mpr ⟨(r, pid), ?_, by simp [hk, hway]⟩))
  exact mem_zipIdx_iff_getElem?.mpr hr

theorem onWay_of_busy_eq_false (h : s.busy key = false) : ¬ OnWay key s pid r := by
  rintro ⟨hr, hk, hway⟩
  have hnot := List.any_eq_false.mp h (r, pid) (mem_zipIdx_iff_getElem?.mpr hr)
  simp [hk, hway] at hnot

/-- The look-up by channel finds an activity with the key in a conversation of the channel. -/
theorem abroad_of_lookup_none (hf : Filing ch key message s)
    (h : getActivityByChannelIdempotencyKey s ch.id (some key) = none) {a : Activity}
    (ha : a ∈ s.filed key) : abroad ch s a.conversationId = true := by
  obtain ⟨b, hb, hconv, hkey⟩ := hf.kept a ha
  obtain ⟨cv, hcv⟩ := isSome_iff_exists.mp (hf.located a ha)
  have hnone := filter_eq_nil_iff.mp (argmin_eq_none.mp h) b hb
  simpa [hkey, hconv, hcv, abroad] using hnone

theorem getActivityByChannelIdempotencyKey_mem {channelId : Uuid} {k : String} {a : Activity}
    (h : getActivityByChannelIdempotencyKey s channelId (some k) = some a) :
    a ∈ s.store.activities ∧ a.idempotencyKey = some k := by
  have hmem := mem_filter.mp (argmin_mem h)
  refine ⟨hmem.1, ?_⟩
  simpa using (Bool.and_eq_true_iff.mp hmem.2).1

section
variable (hf : Filing ch key message s)
include hf

/-- A step that stores no activity with the key. Of the processings on their way, one is
looked at anew where the step moved it. -/
theorem Filing.quiet (hfiled : t.filed key = s.filed key)
    (hstored : ∀ b ∈ t.store.activities, b.idempotencyKey = some key →
      ∃ x ∈ s.store.activities, x.idempotencyKey = some key ∧ x.id = b.id)
    (hkept : ∀ x ∈ s.store.activities, x.idempotencyKey = some key →
      ∃ b ∈ t.store.activities, b.conversationId = x.conversationId ∧ b.idempotencyKey = some key)
    (habroad : ∀ c, abroad ch t c = abroad ch s c)
    (hlocated : ∀ c, (s.store.conversations c).isSome = true →
      (t.store.conversations c).isSome = true)
    (hund : s.engaged ch key = true → Undisturbed ch message s t)
    (hreceiving : ∀ r ∈ t.receiving, r ∈ s.receiving ∨
      (r.message.idempotencyKey = some key → r.message = message ∧
        ∀ a ∈ r.phase.answer, ∃ b ∈ s.filed key, b.id = a.id))
    (hway : ∀ p r, OnWay key t p r → OnWay key s p r ∨
      (∀ p' r', OnWay key t p' r' → p' = p) ∧ Path ch key message t r.phase ∧
        ∀ a ∈ s.filed key, abroad ch s a.conversationId = true) :
    Filing ch key message t := by
  refine ⟨fun b hb hbkey => ?_, fun a ha => ?_, fun a ha => ?_, hfiled ▸ hf.single,
    fun r hr hk a ha => ?_, fun r hr hk => ?_, fun a ha haway => ?_, fun p r hp p' r' hp' => ?_,
    fun p r hp => ?_⟩
  · obtain ⟨x, hx, hxkey, hid⟩ := hstored b hb hbkey
    obtain ⟨a, ha, hax⟩ := hf.stored x hx hxkey
    exact ⟨a, hfiled ▸ ha, hax.trans hid⟩
  · obtain ⟨x, hx, hconv, hxkey⟩ := hf.kept a (hfiled ▸ ha)
    obtain ⟨b, hb, hbconv, hbkey⟩ := hkept x hx hxkey
    exact ⟨b, hb, hbconv.trans hconv, hbkey⟩
  · exact hlocated _ (hf.located a (hfiled ▸ ha))
  · rw [hfiled]
    rcases hreceiving r hr with hr | hnew
    · exact hf.answered r hr hk a ha
    · exact (hnew hk).2 a ha
  · exact (hreceiving r hr).elim (fun hr => hf.redelivered r hr hk) fun hnew => (hnew hk).1
  · rw [hfiled] at ha
    rw [habroad] at haway
    have hengaged : s.engaged ch key = true :=
      Bool.or_eq_true_iff.mpr (.inr (List.any_eq_true.mpr ⟨a, ha, haway⟩))
    have hleads := hf.leads a ha haway
    rw [(hund hengaged).leadsTo_eq (apart_of_leadsTo (Subset.refl _) hleads haway) (Subset.refl _)]
    exact hleads
  · rcases hway p r hp with hps | ⟨honly, -⟩
    · rcases hway p' r' hp' with hps' | ⟨honly', -⟩
      · exact hf.alone p r hps p' r' hps'
      · exact (honly' p r hp).symm
    · exact honly p' r' hp'
  · simp only [hfiled, habroad]
    rcases hway p r hp with hps | ⟨-, hpath, haway⟩
    · obtain ⟨hpath, haway⟩ := hf.path p r hps
      exact ⟨hpath.transport (hund hps.engaged) habroad hfiled, haway⟩
    · exact ⟨hpath, haway⟩

/-- A processing that moved on, perhaps with a new conversation. -/
theorem Filing.setPhase {u : State} (hu : Opens ch s u) (hr : s.receiving[pid]? = some r)
    (hund : s.engaged ch key = true → Undisturbed ch message s (u.setPhase pid r phase))
    (hanswer : r.message.idempotencyKey = some key → ∀ a ∈ phase.answer,
      ∃ b ∈ s.filed key, b.id = a.id)
    (hway : OnWay key (u.setPhase pid r phase) pid { r with phase := phase } →
      (∀ p' r', OnWay key s p' r' → p' = pid) ∧
        Path ch key message (u.setPhase pid r phase) phase ∧
        ∀ a ∈ s.filed key, abroad ch s a.conversationId = true) :
    Filing ch key message (u.setPhase pid r phase) := by
  obtain ⟨hactivities, hlog, hcalls⟩ := hu.tables_eq
  have hset : (u.setPhase pid r phase).receiving = s.receiving.set pid { r with phase := phase } := by
    rw [← hu.1]
    rfl
  have hother : ∀ p r', OnWay key (u.setPhase pid r phase) p r' → p ≠ pid → OnWay key s p r' := by
    rintro p r' ⟨hp, hk, hunder⟩ hne
    rw [hset, getElem?_set_ne (Ne.symm hne)] at hp
    refine ⟨hp, hk, ?_⟩
    simpa only [State.underWay, State.setPhase, hcalls] using hunder
  refine hf.quiet (by rw [State.filed, State.filed]; exact congrArg _ hlog) (fun b hb hbkey => ?_)
    (fun x hx hxkey => ?_) hu.abroad_eq (fun _ => hu.isSome) hund
    (fun r' hr' => ?_) fun p r' hp => ?_
  · exact ⟨b, hactivities ▸ hb, hbkey, rfl⟩
  · exact ⟨x, hactivities ▸ hx, rfl, hxkey⟩
  · rw [hset] at hr'
    refine (mem_or_eq_of_mem_set hr').imp_right ?_
    rintro rfl hk
    exact ⟨hf.redelivered r (mem_of_getElem? hr) hk, hanswer hk⟩
  · by_cases hpid : p = pid
    · subst hpid
      have hlt : p < s.receiving.length := (List.getElem?_eq_some_iff.mp hr).1
      obtain rfl : { r with phase := phase } = r' := by
        simpa [hset, hlt] using hp.1
      obtain ⟨honly, hpath⟩ := hway hp
      refine .inr ⟨fun p' r' hp' => ?_, hpath⟩
      by_contra hne
      exact hne (honly p' r' (hother p' r' hp' hne))
    · exact .inl (hother p r' hp hpid)

/-- A call that returned an activity for the key returned the one that was created. -/
theorem Filing.answer (hs : Linked s) (hkey : blank key = false) {call : Call}
    {result : CreateActivity.Result} (hcall : s.store.calls pid = some call)
    (hdone : call.phase = .done result) (hattrs : call.attrs.idempotencyKey = some key)
    {a : Activity} (ha : a ∈ (Phase.done (ofResult result)).answer) :
    ∃ b ∈ s.filed key, b.id = a.id := by
  obtain ⟨r, c, -, hconv, -, -⟩ := hs.owned pid call hcall
  have hknown := hs.keys.known pid call hcall
  rw [hdone] at hknown
  cases result with
  | ok x =>
    obtain rfl : x = a := some.inj ha
    obtain ⟨⟨-, hx⟩, hkept⟩ := hknown c key hconv hattrs hkey
    rcases hkept with hdeleted | ⟨b, hb, hid, -, -, hbkey⟩
    · simp [hs.deleted] at hdeleted
    · obtain ⟨y, hy, hyid⟩ := hf.stored b hb (hbkey.trans hx)
      exact ⟨y, hy, hyid.trans hid⟩
  | conversationClosed | deliveryEnqueueFailed | invalid errors | raised => cases ha

theorem Filing.ends {result : Result} (hr : s.receiving[pid]? = some r)
    (hanswer : r.message.idempotencyKey = some key → ∀ a ∈ (Phase.done result).answer,
      ∃ b ∈ s.filed key, b.id = a.id) :
    Filing ch key message (s.setPhase pid r (.done result)) :=
  hf.setPhase ⟨rfl, .inl rfl⟩ hr (fun _ => .inl fun _ _ => rfl) hanswer fun hway => by
    cases hway.2.2

theorem Filing.advance (hs : Linked s) (hkey : blank key = false)
    (hr : s.receiving[pid]? = some r)
    (halone : r.message.idempotencyKey = some key → r.phase.isLookup = true → s.busy key = false)
    (hund : s.engaged ch key = true → Undisturbed ch message s t)
    (h : Advances ch s pid r t) : Filing ch key message t := by
  have hself : Opens ch s s := ⟨rfl, .inl rfl⟩
  have hsame : ∀ phase, Undisturbed ch message s (s.setPhase pid r phase) :=
    fun phase => .inl fun _ _ => rfl
  cases h with
  | ends hanswer _ => exact hf.ends hr (by simp [hanswer])
  | @duplicate a _ hfound =>
    refine hf.ends hr fun hk b hb => ?_
    obtain rfl : a = b := some.inj hb
    rw [hk] at hfound
    obtain ⟨hmem, hakey⟩ := getActivityByChannelIdempotencyKey_mem hfound
    exact hf.stored a hmem hakey
  | @finish call result hcall hdone =>
    refine hf.ends hr fun hk a ha => ?_
    obtain ⟨r', c, hr', -, hattrs, -⟩ := hs.owned pid call hcall
    obtain rfl := some.inj (hr.symm.trans hr')
    exact hf.answer hs hkey hcall hdone (hattrs.trans hk) ha
  | begins hphase hnone =>
    refine hf.setPhase hself hr (fun _ => hsame _) (by simp [Phase.answer]) fun hway => ?_
    have hk : r.message.idempotencyKey = some key := hway.2.1
    have hbusy := halone hk (by rw [hphase]; rfl)
    rw [hk] at hnone
    refine ⟨fun p' r' hp' => absurd hp' (onWay_of_busy_eq_false hbusy), ?_,
      fun a => abroad_of_lookup_none hf hnone⟩
    rw [hf.redelivered r (mem_of_getElem? hr) hk]
    exact ⟨Subset.refl _, fun _ => rfl⟩
  | @scans phase hscans =>
    refine hf.setPhase hself hr (fun _ => hsame _) (by simp [hscans.answer]) fun hway => ?_
    have hon : OnWay key s pid r := ⟨hr, hway.2.1, underWay_of_scanning hscans.scanning⟩
    obtain ⟨hpath, haway⟩ := hf.path pid r hon
    exact ⟨hf.alone pid r hon,
      (hpath.scans hscans).transport (hsame _) (fun _ => rfl) rfl, haway⟩
  | @settle c u hsettles hu =>
    refine hf.setPhase hu hr hund (by simp [Phase.answer]) fun hway => ?_
    have hon : OnWay key s pid r := ⟨hr, hway.2.1, underWay_of_scanning hsettles.scanning⟩
    obtain ⟨hpath, haway⟩ := hf.path pid r hon
    have habroad : ∀ c, abroad ch u c = abroad ch s c := hu.abroad_eq
    have hfiled : u.filed key = s.filed key := congrArg _ hu.tables_eq.2.1
    exact ⟨hf.alone pid r hon,
      (hpath.settles hsettles habroad fun a ha => ⟨haway a ha, hf.leads a ha (haway a ha)⟩).transport
        (hund hon.engaged) habroad hfiled, haway⟩
  | @call c content hphase hcall =>
    refine hf.quiet rfl (fun b hb hbkey => ⟨b, hb, hbkey, rfl⟩)
      (fun x hx hxkey => ⟨x, hx, rfl, hxkey⟩) (fun _ => rfl) (fun _ => id)
      (fun _ => .inl fun _ _ => rfl) (fun r' hr' => .inl hr') fun p r' hp => .inl ?_
    obtain ⟨hr', hk, hunder⟩ := hp
    refine ⟨hr', hk, ?_⟩
    by_cases hpid : p = pid
    · subst hpid
      obtain rfl := some.inj (hr.symm.trans hr')
      simp [State.underWay, hphase, hcall]
    · simpa [State.underWay, Function.update_of_ne hpid] using hunder

/-- The conversation a processing is about to write to has the message's activity, if there is one. -/
theorem Filing.filed_eq_nil {c : Uuid} (hon : OnWay key s pid r)
    (hphase : r.phase = .creating c) (hunused : withKey s.store.activities c key = []) :
    s.filed key = [] := by
  obtain ⟨hpath, haway⟩ := hf.path pid r hon
  rw [hphase] at hpath
  rcases hpath with ⟨-, hempty⟩ | ⟨-, hleads⟩
  · exact hempty
  · refine eq_nil_iff_forall_not_mem.mpr fun x hx => ?_
    obtain ⟨b, hb, hbconv, hbkey⟩ := hf.kept x hx
    have hsame : x.conversationId = c :=
      some.inj ((hf.leads x hx (haway x hx)).symm.trans hleads)
    have hmem : b ∈ withKey s.store.activities c key :=
      mem_withKey.mpr ⟨hb, hbconv.trans hsame, hbkey⟩
    rw [hunused] at hmem
    cases hmem

section Commit
variable {store : CreateActivity.State} {call : Call} {a : Activity} {stamp : Option Stamp}
  (hactivities : store.activities = applyStamp stamp s.store.activities ++ [a])
  (hlog : store.log = s.store.log ++ [a])
  (habroad : ∀ c, abroad ch { s with store := store } c = abroad ch s c)
  (hlocated : ∀ c, (s.store.conversations c).isSome = true →
    (store.conversations c).isSome = true)
  (hund : s.engaged ch key = true → Undisturbed ch message s { s with store := store })
  (hway : ∀ p r, OnWay key { s with store := store } p r → OnWay key s p r)
include hactivities hlog habroad hlocated hund hway

theorem Filing.commit_other (ha : a.idempotencyKey ≠ some key) :
    Filing ch key message { s with store := store } := by
  have hfiled : State.filed { s with store := store } key = s.filed key := by
    simp only [State.filed, hlog, filter_append]
    simp [ha]
  refine hf.quiet hfiled (fun b hb hbkey => ?_) (fun x hx hxkey => ?_) habroad hlocated hund
    (fun r' hr' => .inl hr') fun p r' hp => .inl (hway p r' hp)
  · rcases mem_snoc.mp (hactivities ▸ hb) with hb | rfl
    · obtain ⟨x, hx, hid, -, hxkey⟩ := mem_applyStamp hb
      exact ⟨x, hx, hxkey.symm.trans hbkey, hid.symm⟩
    · exact absurd hbkey ha
  · obtain ⟨b, hb, -, hbconv, -, hbkey⟩ := exists_mem_applyStamp stamp hx
    exact ⟨b, hactivities ▸ mem_append_left _ hb, hbconv, hbkey.trans hxkey⟩

/-- The key is unused in the conversation a call commits in. An activity with the key in
another one is where the references lead, and then the call commits there. -/
theorem Filing.commit (hs : Linked s) (hcall : s.store.calls pid = some call)
    (hpending : call.phase.pending = true)
    (hfrom : FromAttrs call.attrs a.conversationId a.idempotencyKey)
    (hunused : Unused s.store a.conversationId a.idempotencyKey)
    (hconversation : (store.conversations a.conversationId).isSome = true)
    (hstored : ∃ call', store.calls pid = some call' ∧ call'.phase.pending = false) :
    Filing ch key message { s with store := store } := by
  by_cases ha : a.idempotencyKey = some key
  swap
  · exact hf.commit_other hactivities hlog habroad hlocated hund hway ha
  obtain ⟨r, c, hr, hconv, hattrs, hphase⟩ := hs.owned pid call hcall
  have hphase : r.phase = .creating c := by
    refine hphase.resolve_right ?_
    rintro ⟨result, hdone⟩
    rw [hdone] at hpending
    cases hpending
  have hk : r.message.idempotencyKey = some key := by
    obtain ⟨k, hk, hcast⟩ := bind_eq_some_iff.mp (hfrom.2.symm.trans ha)
    rw [← hattrs, hk, (castText_eq_some.mp hcast).2]
  obtain rfl : a.conversationId = c := some.inj (hfrom.1.symm.trans hconv)
  have hon : OnWay key s pid r := ⟨hr, hk, by simp [State.underWay, hphase, hcall, hpending]⟩
  obtain ⟨hpath, haway⟩ := hf.path pid r hon
  rw [hphase] at hpath
  have hempty : s.filed key = [] := hf.filed_eq_nil hon hphase (hunused key ha)
  have hfiled : State.filed { s with store := store } key = [a] := by
    simp only [State.filed, hlog, filter_append] at hempty ⊢
    simp [hempty, ha]
  -- The call has stored its activity, so no processing of the message is on its way.
  have hnone : ∀ p r', ¬ OnWay key { s with store := store } p r' := by
    intro p r' hp
    obtain rfl := hf.alone pid r hon p r' (hway p r' hp)
    obtain ⟨hr', -, hunder⟩ := hp
    obtain rfl := some.inj (hr.symm.trans hr')
    obtain ⟨call', hcall', hstored⟩ := hstored
    simp [State.underWay, hphase, hcall', hstored] at hunder
  refine ⟨fun b hb hbkey => ?_, fun x hx => ?_, fun x hx => ?_, by rw [hfiled]; exact le_rfl,
    fun r' hr' hk' x hx => ?_, hf.redelivered, fun x hx hxaway => ?_,
    fun p r' hp => absurd hp (hnone p r'), fun p r' hp => absurd hp (hnone p r')⟩
  · refine ⟨a, hfiled ▸ mem_singleton_self a, ?_⟩
    rcases mem_snoc.mp (hactivities ▸ hb) with hb | rfl
    · obtain ⟨x, hx, -, -, hxkey⟩ := mem_applyStamp hb
      obtain ⟨y, hy, -⟩ := hf.stored x hx (hxkey.symm.trans hbkey)
      rw [hempty] at hy
      cases hy
    · rfl
  · rw [hfiled, mem_singleton] at hx
    rw [hx]
    exact ⟨a, hactivities ▸ mem_append_right _ (mem_singleton_self a), rfl, ha⟩
  · rw [hfiled, mem_singleton] at hx
    rw [hx]
    exact hconversation
  · obtain ⟨b, hb, -⟩ := hf.answered r' hr' hk' x hx
    rw [hempty] at hb
    cases hb
  · rw [hfiled, mem_singleton] at hx
    subst hx
    rw [habroad] at hxaway
    rcases hpath with ⟨hown, -⟩ | ⟨hapart, hleads⟩
    · rw [hown] at hxaway
      cases hxaway
    · rw [(hund hon.engaged).leadsTo_eq hapart (Subset.refl _)]
      exact hleads

end Commit

theorem Filing.continues (hs : Linked s) {e : CreateActivity.Event}
    (he : e.isOngoing = true) {store : CreateActivity.State}
    (h : CreateActivity.step cfg s.store e = some store)
    (hund : s.engaged ch key = true → Undisturbed ch message s { s with store := store }) :
    Filing ch key message { s with store := store } := by
  obtain ⟨hwrites, -, hcalls, hkept⟩ := step_writes hs.keys he h
  have habroad : ∀ c, abroad ch { s with store := store } c = abroad ch s c := by
    intro c
    have hchannel := step_channels h c
    cases hs : s.store.conversations c <;> cases ht : store.conversations c <;>
      simp_all [abroad]
  have hlocated : ∀ c, (s.store.conversations c).isSome = true →
      (store.conversations c).isSome = true := by
    intro c hc
    have hchannel := congrArg Option.isSome (step_channels h c)
    simpa using hchannel.trans (by simpa using hc)
  have hway : ∀ p r, OnWay key { s with store := store } p r → OnWay key s p r := by
    rintro p r ⟨hr, hk, hunder⟩
    refine ⟨hr, hk, ?_⟩
    obtain ⟨message, phase⟩ := r
    cases phase with
    | creating c =>
      refine (all_eq_true _ _).mpr fun call hcall => ?_
      obtain ⟨call', hcall'⟩ := isSome_iff_exists.mp (hkept p (by rw [hcall]; rfl))
      obtain ⟨call₀, hcall₀, -, -, hpending⟩ := hcalls p call' hcall'
      obtain rfl := some.inj (hcall.symm.trans hcall₀)
      exact hpending ((all_eq_true _ _).mp hunder call' hcall')
    | _ => exact hunder
  cases hwrites with
  | quiet hactivities hlog =>
    refine hf.quiet (by rw [State.filed, hlog, State.filed])
      (fun b hb hbkey => ⟨b, hactivities ▸ hb, hbkey, rfl⟩)
      (fun x hx hxkey => ⟨x, hactivities ▸ hx, rfl, hxkey⟩) habroad hlocated hund
      (fun r' hr' => .inl hr') fun p r' hp => .inl (hway p r' hp)
  | commit hcall hpending hfrom hunused hactivities hlog hconversation hstored =>
    exact hf.commit hactivities hlog habroad hlocated hund hway hs hcall hpending hfrom hunused
      hconversation hstored

end

theorem Filing.step (hkey : blank key = false) (hs : Linked s ∧ Filing ch key message s)
    (hsteady : Steady cfg ch key message s e) (h : step cfg ch s e = some t) :
    Linked t ∧ Filing ch key message t := by
  obtain ⟨hs, hf⟩ := hs
  obtain ⟨hredelivers, halone, hund⟩ := hsteady
  replace hund : s.engaged ch key = true → Undisturbed ch message s t := fun hengaged =>
    hund hengaged t h
  cases e with
  | receive m =>
    cases some.inj h
    refine ⟨⟨hs.serialised, hs.keys, hs.deleted, hs.keyed, fun pid call hcall => ?_⟩, ?_⟩
    · obtain ⟨r, c, hr, hlink⟩ := hs.owned pid call hcall
      exact ⟨r, c, getElem?_append_of_eq_some hr _, hlink⟩
    · refine hf.quiet rfl (fun b hb hbkey => ⟨b, hb, hbkey, rfl⟩)
        (fun x hx hxkey => ⟨x, hx, rfl, hxkey⟩) (fun _ => rfl) (fun _ => id) hund
        (fun r' hr' => ?_) fun p r' hp => .inl ?_
      · refine (mem_snoc.mp hr').imp_right ?_
        rintro rfl hk
        exact ⟨hredelivers hk, by simp [Phase.answer]⟩
      · obtain ⟨hr', hk, hunder⟩ := hp
        rw [getElem?_append] at hr'
        split at hr'
        · exact ⟨hr', hk, hunder⟩
        · rw [getElem?_singleton] at hr'
          split at hr' <;> cases hr'
          cases hunder
  | advance pid inp =>
    obtain ⟨r, hr, hadvance⟩ := bind_eq_some_iff.mp h
    have hadvances := advance_advances hs.keyed hadvance
    exact ⟨hs.advance hr hadvances, hf.advance hs hkey hr (halone r hr) hund hadvances⟩
  | crash pid =>
    simp only [Inbound.step] at h
    split at h
    · obtain ⟨store, hstore, rfl⟩ := map_eq_some_iff.mp h
      exact ⟨hs.continues rfl hstore, hf.continues hs rfl hstore hund⟩
    · rename_i hcall
      obtain ⟨r, hr, h⟩ := bind_eq_some_iff.mp h
      split at h <;> cases h
      have hends : Advances ch s pid r (s.setPhase pid r (.done .raised)) :=
        .ends rfl (.inr hcall)
      exact ⟨hs.advance hr hends, hf.ends hr (by simp [Phase.answer])⟩
  | statement pid out | transition c status =>
    obtain ⟨store, hstore, rfl⟩ := map_eq_some_iff.mp h
    exact ⟨hs.continues rfl hstore, hf.continues hs rfl hstore hund⟩
  | deliver delivery =>
    cases some.inj h
    exact ⟨⟨hs.serialised, hs.keys, hs.deleted, hs.keyed, hs.owned⟩,
      hf.quiet rfl (fun b hb hbkey => ⟨b, hb, hbkey, rfl⟩)
        (fun x hx hxkey => ⟨x, hx, rfl, hxkey⟩) (fun _ => rfl) (fun _ => id) hund
        (fun r' hr' => .inl hr') fun p r' hp => .inl hp⟩

end Files

/-- Nothing has been received yet, and keys are unique within each conversation. -/
structure State.Initial (s : State) : Prop where
  store : s.store.Initial
  unique : ∀ c k, (withKey s.store.activities c k).length ≤ 1
  deleted : s.store.deleted = []
  keyed : Keyed s
  receiving : s.receiving = []

/-- In a run in which the processings of a message do not overlap, and in which nothing changes
where its references lead once they lead to another channel, at most one activity is created
with a new key, and every processing of the message that returned an activity returned it. -/
theorem one_activity_per_message (cfg : CreateActivity.Config) (ch : Channel) {s t : State}
    (hs : s.Initial) (message : Message) {key : String} (hkey : blank key = false)
    (hnew : ∀ a ∈ s.store.activities, a.idempotencyKey ≠ some key) {es : List Event}
    (hes : Along (step cfg ch) (Steady cfg ch key message) s es)
    (h : run (step cfg ch) s es = some t) :
    (t.filed key).length ≤ 1 ∧
      ∀ r ∈ t.receiving, r.message.idempotencyKey = some key → ∀ a ∈ r.phase.answer,
        ∃ b ∈ t.filed key, b.id = a.id := by
  have hlinked : Linked s := by
    refine ⟨hs.store.serialised, ⟨hs.unique, fun pid call hcall => ?_⟩, hs.deleted, hs.keyed,
      fun pid call hcall => ?_⟩ <;> simp [hs.store.calls pid] at hcall
  have hfiled : s.filed key = [] := by simp [State.filed, hs.store.log]
  have hway : ∀ p r, ¬ OnWay key s p r := by
    rintro p r ⟨hr, -⟩
    simp [hs.receiving] at hr
  have hfiling : Filing ch key message s := by
    refine ⟨fun b hb hbkey => absurd hbkey (hnew b hb), ?_, ?_, ?_, ?_, ?_, ?_,
      fun p r hp => absurd hp (hway p r), fun p r hp => absurd hp (hway p r)⟩ <;>
      simp [hfiled, hs.receiving]
  have hend := run_invariant_along (Filing.step hkey) ⟨hlinked, hfiling⟩ hes h
  exact ⟨hend.2.single, hend.2.answered⟩

def email : Channel := {id := 4, tenantId := 1}

/-- Conversation 7 of another channel, with an activity that went out on the email channel. -/
def deliveredByEmail : State where
  store :=
    { conversations := fun c => if c = 7 then some {id := 7, channelId := 9, lastSeq := 1} else none
      activities := [{id := 20, conversationId := 7, seq := 1}]}
  conversationIds := [7]
  deliveries := [{ id := 30, activityId := 20, channelId := 4, providerMessageId := some "m0" }]

theorem deliveredByEmail_initial : deliveredByEmail.Initial :=
  by
  refine ⟨⟨fun _ => rfl, fun _ => rfl, rfl⟩, fun _ _ => by simp [withKey, deliveredByEmail], rfl,
    fun c cv h => ?_, rfl⟩
  simp only [deliveredByEmail, ite_none_right_eq_some, Option.some.injEq] at h
  obtain ⟨rfl, rfl⟩ := h
  rfl

def reply : Message where
  sender := some "ann"
  idempotencyKey := some "m1"
  threadRefs := ["m0"]
  externalId := some "ann"

def creates (pid id : ℕ) : List Event :=
  [.advance pid {}] ++ List.replicate 9 (.statement pid {id := id, now := 1}) ++ [.advance pid {}]

def firstReply : List Event :=
  [.receive reply, .advance 0 {}, .advance 0 {}, .advance 0 {participantId := 1}] ++ creates 0 21

theorem one_activity_per_message_reply :
    ∃ t, run (step monthly email) deliveredByEmail
        (firstReply ++ [.receive reply, .advance 1 {}, .advance 1 {}, .advance 1 {}, .advance 1 {},
          .statement 1 {}, .advance 1 {}]) = some t ∧
      (t.filed "m1").length ≤ 1 ∧
      ∀ r ∈ t.receiving, r.message.idempotencyKey = some "m1" → ∀ a ∈ r.phase.answer,
        ∃ b ∈ t.filed "m1", b.id = a.id := by
  have hrun : (run (step monthly email) deliveredByEmail
      (firstReply ++ [.receive reply, .advance 1 {}, .advance 1 {}, .advance 1 {}, .advance 1 {},
        .statement 1 {}, .advance 1 {}])).isSome = true := by
    decide +kernel
  obtain ⟨t, ht⟩ := isSome_iff_exists.mp hrun
  exact ⟨t, ht, one_activity_per_message monthly email deliveredByEmail_initial reply (by decide)
    (by decide) (by decide +kernel) ht⟩

/-- The reply is filed in the conversation of the other channel, where the look-up by channel
does not find it, and that conversation is closed before the message is delivered again. -/
theorem redelivery_creates_second :
    (run (step monthly email) deliveredByEmail
      (firstReply ++ [.transition 7 .closed, .receive reply, .advance 1 {}, .advance 1 {},
        .advance 1 {}, .advance 1 {}, .advance 1 {conversationId := 8}] ++ creates 1 22)).map
      (fun t => (t.filed "m1").map fun a => (a.id, a.conversationId)) = some [(21, 7), (22, 8)] := by
  decide +kernel

end Converger.Inbound
