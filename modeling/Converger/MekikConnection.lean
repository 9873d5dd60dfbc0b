import Converger.ClientKeys

/-!
# Upstream mekik connections

The connection process of one `mekik` channel in one conversation: its handshake, the frames it
stores, its watermark, which it records every second, and what is left of it after a crash. The
mekik server numbers the persistent frames of a conversation from 1. It resumes an asserted
conversation behind the watermark of the `hello`, or opens a new one.
-/
namespace Converger.MekikConnection
open ClientKeys GuardedRuns List Option

/-! ### The mekik server -/

inductive FrameType where
  | text | message | toolCall | genui | interrupt | interruptResolved | skill
  deriving DecidableEq, Repr

structure Frame where
  type : FrameType := .text
  fromUser : Bool := false
  deriving DecidableEq, Repr

def Frame.echo (frame : Frame) : Bool := frame.type = .text ∧ frame.fromUser

/-- The socket: the conversation the server has it on, and the number of the frame it sends next. -/
structure Link where
  conversation : String
  next : ℕ
  deriving DecidableEq, Repr

/-! ### The process -/

/-- The channel's configuration; `upstream` stands for its URL, token and meta. -/
structure Channel where
  botId : Option String := none
  upstream : ℕ := 0
  deriving DecidableEq, Repr

def Channel.sender (channel : Channel) : String :=
  match channel.botId with
  | some id => if id = "" then "mekik" else id
  | none => "mekik"

inductive Phase where
  | init | connecting | ready | backoff | authFailed
  deriving DecidableEq, Repr

structure Process where
  sender : String
  upstream : ℕ
  session : Option String := none
  userId : String
  watermark : ℕ := 0
  storedWatermark : ℕ := 0
  flushScheduled : Bool := false
  phase : Phase := .init
  link : Option Link := none
  deriving DecidableEq, Repr

/-- A row of `mekik_sessions`. -/
structure Session where
  mekikConversation : String
  mekikUser : String
  watermark : ℕ
  deriving DecidableEq, Repr

structure Stored where
  key : String
  sender : String
  frame : Frame
  origin : String × ℕ
  deriving DecidableEq, Repr

structure Config where
  conversationId : String
  defaultUser : String

/-- The server's conversations, the session and the activities in the database, the frames that were
refused (by validation, or by a closed conversation), and the process. -/
structure State where
  opened : List String := []
  server : String → List Frame := fun _ => []
  session : Option Session := none
  activities : List Stored := []
  refused : List (String × ℕ) := []
  process : Option Process := none

def Session.advance (row : Session) (conversation : String) (watermark : ℕ) : Session :=
  if row.mekikConversation = conversation ∧ row.watermark < watermark then {row with watermark}
  else row

/-- `handle_continue(:load)`. -/
def load (cfg : Config) (session : Option Session) (channel : Channel) : Process :=
  match session with
  | none =>
    {sender := channel.sender, upstream := channel.upstream, userId := cfg.defaultUser}
  | some row =>
    { sender := channel.sender, upstream := channel.upstream, userId := row.mekikUser
      session := some row.mekikConversation
      watermark := row.watermark, storedWatermark := row.watermark}

/-- `fail/2`, and with another phase `fail_auth/2`. -/
def Process.fail (p : Process) (phase : Phase := .backoff) : Process := {p with link := none, phase}

def Process.updateChannel (p : Process) (channel : Channel) : Process :=
  let p := {p with sender := channel.sender}
  if channel.upstream = p.upstream then p
  else {p with upstream := channel.upstream, link := none, phase := .connecting}

/-- `adopt/3`, with the session it records. -/
def adopt (session : Option Session) (p : Process) (conversation userId : String) :
    Option Session × Process :=
  if p.session = some conversation then
    if userId = p.userId then (session, p)
    else (some ⟨conversation, userId, p.watermark⟩, {p with userId})
  else
    (some ⟨conversation, userId, 0⟩,
      {p with session := some conversation, userId, watermark := 0, storedWatermark := 0})

def Process.advance (p : Process) (seq : ℕ) : Process :=
  {p with watermark := max p.watermark seq, flushScheduled := true}

def Process.record (p : Process) (session : Option Session) (watermark : ℕ) : Option Session :=
  match p.session with
  | some conversation => session.map (·.advance conversation watermark)
  | none => session

/-- `flush_watermark/1`, with the session it records. -/
def flushWatermark (session : Option Session) (p : Process) : Option Session × Process :=
  if p.session.isSome ∧ p.storedWatermark < p.watermark then
    (p.record session p.watermark, {p with storedWatermark := p.watermark})
  else (session, p)

def storeKey (cfg : Config) (sender conversation : String) (seq : ℕ) : String :=
  botClientKey sender cfg.conversationId ("mekik:" ++ conversation ++ ":" ++ toString seq)

/-- How storing an activity ends. An error can hide a commit whose answer was lost. -/
inductive Answer where
  | created | rejected | closed
  | error (committed : Bool)
  deriving DecidableEq, Repr

def store (cfg : Config) (s : State) (p : Process) (conversation : String) (frame : Frame) (seq : ℕ)
    (answer : Answer) : State :=
  let key := storeKey cfg p.sender conversation seq
  let activity := {key, sender := p.sender, frame, origin := (conversation, seq)}
  if s.activities.any (·.key = key) then {s with process := some (p.advance seq)}
  else
    match answer with
    | .created =>
      {s with activities := s.activities ++ [activity], process := some (p.advance seq)}
    | .rejected | .closed =>
      {s with refused := s.refused ++ [(conversation, seq)], process := some (p.advance seq)}
    | .error committed =>
      {s with
        activities := if committed then s.activities ++ [activity] else s.activities
        process := some p.fail}

/-- `handle_frame/3` for a persistent frame. -/
def handleFrame (cfg : Config) (s : State) (p : Process) (conversation : String) (frame : Frame)
    (seq : ℕ) (answer : Answer) : State :=
  if seq ≤ p.watermark then {s with process := some p}
  else if frame.echo then {s with process := some (p.advance seq)}
  else store cfg s p conversation frame seq answer

inductive Event where
  /-- The server stores a frame. -/
  | emit (conversation : String) (frame : Frame)
  /-- A process starts, with the channel as its supervisor or a delivery has it. -/
  | start (channel : Channel)
  /-- The socket is open and the `hello` sent; the server resumes, or opens a conversation. -/
  | connect (opens : Option String)
  | welcome (userId : String)
  /-- The next frame arrives. -/
  | frame (answer : Answer)
  /-- `send_frame/3` with the caller's channel. -/
  | send (channel : Channel)
  | flush
  /-- The connection is lost, or the credentials are refused. -/
  | lost (phase : Phase)
  /-- The process ends; `terminate/2` has recorded the watermark of some earlier state, or nothing. -/
  | exit (recorded : ℕ)
  deriving DecidableEq

def arriving (s : State) : Option (Process × Link × Frame) := do
  let p ← s.process
  let link ← p.link
  let frame ← (s.server link.conversation)[link.next - 1]?
  if p.phase = .ready then some (p, link, frame) else none

def connect (s : State) (p : Process) : Option String → Option State
  | none => p.session.map fun conversation =>
    {s with process := some {p with
        phase := .connecting, link := some ⟨conversation, p.watermark + 1⟩}}
  | some conversation =>
    if conversation ∈ s.opened then none
    else some {s with
      opened := s.opened ++ [conversation]
      process := some {p with phase := .connecting, link := some ⟨conversation, 1⟩}}

def step (cfg : Config) (s : State) : Event → Option State
  | .emit conversation frame =>
    if conversation ∈ s.opened then
      some { s with server :=
        Function.update s.server conversation (s.server conversation ++ [frame])}
    else none
  | .start channel =>
    if s.process = none then some {s with process := some (load cfg s.session channel)} else none
  | .connect opens => s.process.bind fun p => if p.phase = .ready then none else connect s p opens
  | .welcome userId => s.process.bind fun p => p.link.bind fun link =>
    if p.phase = .connecting then
      let (session, p) := adopt s.session p link.conversation userId
      some {s with session, process := some {p with phase := .ready}}
    else none
  | .frame answer => (arriving s).map fun (p, link, frame) =>
    handleFrame cfg s {p with link := some {link with next := link.next + 1}} link.conversation
      frame link.next answer
  | .send channel => s.process.map fun p => {s with process := some (p.updateChannel channel)}
  | .flush => s.process.bind fun p =>
    if p.flushScheduled then
      let (session, p) := flushWatermark s.session {p with flushScheduled := false}
      some {s with session, process := some p}
    else none
  | .lost phase => s.process.bind fun p =>
    if phase = .backoff ∨ phase = .authFailed then some {s with process := some (p.fail phase)}
    else none
  | .exit recorded => s.process.bind fun p =>
    if recorded ≤ p.watermark then
      some {s with session := p.record s.session recorded, process := none}
    else none

/-- Where a frame is handled, the activities under its key are those of the frame: the sender is
still the one they were stored with. -/
def Steady (cfg : Config) (s : State) : Event → Prop
  | .frame _ => ∀ x ∈ arriving s, ∀ activity ∈ s.activities,
    activity.key = storeKey cfg x.1.sender x.2.1.conversation x.2.1.next ↔
      activity.origin = (x.2.1.conversation, x.2.1.next)
  | _ => True

instance (cfg : Config) (s : State) (e : Event) : Decidable (Steady cfg s e) :=
  match e with
  | .frame _ => inferInstanceAs (Decidable (∀ x ∈ arriving s, ∀ activity ∈ s.activities,
      activity.key = storeKey cfg x.1.sender x.2.1.conversation x.2.1.next ↔
        activity.origin = (x.2.1.conversation, x.2.1.next)))
  | .emit _ _ | .start _ | .connect _ | .welcome _ | .send _ | .flush | .lost _ | .exit _ =>
    .isTrue trivial

variable {cfg : Config} {s t : State} {e : Event} {p : Process} {conversation sender : String}
  {w seq : ℕ} {session : Option Session} {opens : Option String}

/-! ### What a step does -/

inductive Effect (cfg : Config) (s : State) : Event → State → Prop where
  | emit (conversation : String) (frame : Frame) : Effect cfg s (.emit conversation frame)
      {s with server := Function.update s.server conversation (s.server conversation ++ [frame])}
  | start (channel : Channel) : Effect cfg s (.start channel)
      {s with process := some (load cfg s.session channel)}
  | connect {p : Process} {opens : Option String} {t : State} (hp : p ∈ s.process)
      (h : connect s p opens = some t) : Effect cfg s (.connect opens) t
  | welcome {p : Process} {link : Link} (userId : String) (hp : p ∈ s.process)
      (hlink : link ∈ p.link) : Effect cfg s (.welcome userId)
      {s with
        session := (adopt s.session p link.conversation userId).1
        process := some {(adopt s.session p link.conversation userId).2 with phase := .ready}}
  | frame {p : Process} {link : Link} {frame : Frame} (answer : Answer)
      (h : arriving s = some (p, link, frame)) : Effect cfg s (.frame answer)
      (handleFrame cfg s {p with link := some {link with next := link.next + 1}}
        link.conversation frame link.next answer)
  | send {p : Process} (channel : Channel) (hp : p ∈ s.process) : Effect cfg s (.send channel)
      {s with process := some (p.updateChannel channel)}
  | flush {p : Process} (hp : p ∈ s.process) : Effect cfg s .flush
      {s with
        session := (flushWatermark s.session {p with flushScheduled := false}).1
        process := some (flushWatermark s.session {p with flushScheduled := false}).2}
  | lost {p : Process} (phase : Phase) (hp : p ∈ s.process) : Effect cfg s (.lost phase)
      {s with process := some (p.fail phase)}
  | exit {p : Process} {recorded : ℕ} (hp : p ∈ s.process) (hle : recorded ≤ p.watermark) :
      Effect cfg s (.exit recorded) {s with session := p.record s.session recorded, process := none}

theorem effect_of_step (h : step cfg s e = some t) : Effect cfg s e t := by
  cases e with
  | emit conversation frame =>
    obtain ⟨-, rfl⟩ := ite_some_none_eq_some.mp h
    exact .emit conversation frame
  | start channel =>
    obtain ⟨-, rfl⟩ := ite_some_none_eq_some.mp h
    exact .start channel
  | connect opens =>
    obtain ⟨p, hp, hconnect⟩ := bind_eq_some_iff.mp h
    split at hconnect
    · cases hconnect
    · exact .connect hp hconnect
  | welcome userId =>
    obtain ⟨p, hp, hwelcome⟩ := bind_eq_some_iff.mp h
    obtain ⟨link, hlink, hwelcome⟩ := bind_eq_some_iff.mp hwelcome
    obtain ⟨-, rfl⟩ := ite_some_none_eq_some.mp hwelcome
    exact .welcome userId hp hlink
  | frame answer =>
    obtain ⟨⟨p, link, frame⟩, harriving, rfl⟩ := map_eq_some_iff.mp h
    exact .frame answer harriving
  | send channel =>
    obtain ⟨p, hp, rfl⟩ := map_eq_some_iff.mp h
    exact .send channel hp
  | flush =>
    obtain ⟨p, hp, hflush⟩ := bind_eq_some_iff.mp h
    obtain ⟨-, rfl⟩ := ite_some_none_eq_some.mp hflush
    exact .flush hp
  | lost phase =>
    obtain ⟨p, hp, hlost⟩ := bind_eq_some_iff.mp h
    obtain ⟨-, rfl⟩ := ite_some_none_eq_some.mp hlost
    exact .lost phase hp
  | exit recorded =>
    obtain ⟨p, hp, hexit⟩ := bind_eq_some_iff.mp h
    obtain ⟨hle, rfl⟩ := ite_some_none_eq_some.mp hexit
    exact .exit hp hle

/-! ### Frames behind the watermark -/

def Skipped (s : State) (conversation : String) (seq : ℕ) (frame : Frame) : Prop :=
  frame.echo ∨ (conversation, seq) ∈ s.refused

def Done (s : State) (conversation : String) (seq : ℕ) (frame : Frame) : Prop :=
  Skipped s conversation seq frame ∨ ∃ activity ∈ s.activities, activity.origin = (conversation, seq)

/-- The first `w` frames of the conversation exist and are stored or skipped. -/
def Passed (s : State) (conversation : String) (w : ℕ) : Prop :=
  ∀ i < w, ∃ frame, (s.server conversation)[i]? = some frame ∧
    (Skipped s conversation (i + 1) frame ∨ ∃ activity ∈ s.activities, activity.origin = (conversation, i + 1))

structure Extends (s t : State) : Prop where
  server : ∀ conversation, s.server conversation <+: t.server conversation
  refused : s.refused ⊆ t.refused
  activities : s.activities ⊆ t.activities
  opened : s.opened ⊆ t.opened

theorem Extends.of_eq (hserver : t.server = s.server) (hrefused : t.refused = s.refused)
    (hactivities : t.activities = s.activities) (hopened : t.opened = s.opened) : Extends s t :=
  ⟨fun _ => hserver ▸ prefix_rfl, hrefused ▸ List.Subset.refl _,
    hactivities ▸ List.Subset.refl _, hopened ▸ List.Subset.refl _⟩

theorem Passed.mono (h : Passed s conversation w) (hext : Extends s t) : Passed t conversation w := by
  intro i hi
  obtain ⟨frame, hframe, hdone⟩ := h i hi
  obtain ⟨rest, hrest⟩ := hext.server conversation
  refine ⟨frame, hrest ▸ getElem?_append_of_eq_some hframe rest, ?_⟩
  apply Or.imp _ _ hdone
  · exact Or.imp_right (@hext.refused _)
  · rintro ⟨activity, hmem, horigin⟩
    exact ⟨activity, hext.activities hmem, horigin⟩

theorem passed_zero : Passed s conversation 0 := fun _ hi => absurd hi (Nat.not_lt_zero _)

theorem Passed.of_le {w' : ℕ} (h : Passed s conversation w) (hle : w' ≤ w) :
    Passed s conversation w' := fun i hi => h i (Nat.lt_of_lt_of_le hi hle)

theorem Passed.succ {frame : Frame} (h : Passed s conversation w)
    (hframe : (s.server conversation)[w]? = some frame)
    (hdone : Done s conversation (w + 1) frame) : Passed s conversation (w + 1) := by
  intro i hi
  rcases Nat.lt_succ_iff_lt_or_eq.mp hi with hlt | rfl
  · exact h i hlt
  · exact ⟨frame, hframe, hdone⟩

/-! ### The invariant -/

/-- The process and its socket: the next frame is the one behind the watermark, or the first one of a
conversation that has just been opened. -/
structure Process.Sound (s : State) (p : Process) : Prop where
  passed : ∀ conversation ∈ p.session, conversation ∈ s.opened ∧ Passed s conversation p.watermark
  link : ∀ link ∈ p.link, link.conversation ∈ s.opened ∧
    (p.session = some link.conversation ∧ link.next = p.watermark + 1 ∨
      p.phase ≠ .ready ∧ p.session ≠ some link.conversation ∧ link.next = 1)

structure Inv (s : State) : Prop where
  once : (s.activities.map Stored.origin).Nodup
  session : ∀ row ∈ s.session,
    row.mekikConversation ∈ s.opened ∧ Passed s row.mekikConversation row.watermark
  process : ∀ p ∈ s.process, p.Sound s

def Recorded (s : State) (session : Option Session) : Prop :=
  ∀ row ∈ session, row.mekikConversation ∈ s.opened ∧ Passed s row.mekikConversation row.watermark

theorem inv_init : Inv {} := by
  constructor <;> simp

theorem Process.Sound.mono (h : p.Sound s) (hext : Extends s t) : p.Sound t where
  passed conversation hconversation :=
    (h.passed conversation hconversation).imp (@hext.opened _) fun hpassed => hpassed.mono hext
  link l hl := (h.link l hl).imp_left (@hext.opened _)

theorem sound_fail (hp : p.Sound s) (phase : Phase) : (p.fail phase).Sound s :=
  ⟨hp.passed, by simp [Process.fail]⟩

theorem sound_updateChannel (hp : p.Sound s) (channel : Channel) :
    (p.updateChannel channel).Sound s := by
  by_cases hsame : channel.upstream = p.upstream
  · simp only [Process.updateChannel, if_pos hsame]
    exact ⟨hp.passed, hp.link⟩
  · simp only [Process.updateChannel, if_neg hsame]
    exact ⟨hp.passed, by simp⟩

theorem sound_flush (hp : p.Sound s) : (flushWatermark s.session p).2.Sound s := by
  unfold flushWatermark
  split
  · exact ⟨hp.passed, hp.link⟩
  · exact hp

theorem sound_advance {link : Link} {frame : Frame} (hp : p.Sound s) (hext : Extends s t)
    (hsession : p.session = some link.conversation) (hnext : link.next = p.watermark + 1)
    (hframe : (t.server link.conversation)[p.watermark]? = some frame)
    (hdone : Done t link.conversation link.next frame) :
    ({p with link := some {link with next := link.next + 1}}.advance link.next).Sound t := by
  have hmax : max p.watermark link.next = p.watermark + 1 := by omega
  have hall : Passed t link.conversation (p.watermark + 1) := by
    rw [hnext] at hdone
    exact ((hp.passed _ hsession).2.mono hext).succ hframe hdone
  have hopened := hext.opened (hp.passed _ hsession).1
  refine ⟨fun conversation hconversation => ?_, fun l hl => ?_⟩
  · cases mem_unique hsession hconversation
    refine ⟨hopened, ?_⟩
    change Passed t link.conversation (max p.watermark link.next)
    rw [hmax]
    exact hall
  · cases mem_some_iff.mp hl
    refine ⟨hopened, .inl ⟨hsession, ?_⟩⟩
    simp only [Process.advance]
    omega

theorem arriving_eq_some {link : Link} {frame : Frame} (h : arriving s = some (p, link, frame)) :
    p ∈ s.process ∧ link ∈ p.link ∧ (s.server link.conversation)[link.next - 1]? = some frame ∧
      p.phase = .ready := by
  simp only [arriving, bind_eq_bind, bind_eq_some_iff] at h
  obtain ⟨q, hq, l, hl, f, hf, hphase⟩ := h
  split at hphase <;> cases hphase
  exact ⟨hq, hl, hf, by assumption⟩

theorem once_append {activities : List Stored} {activity : Stored}
    (honce : (activities.map Stored.origin).Nodup)
    (hfresh : activity.origin ∉ activities.map Stored.origin) :
    ((activities ++ [activity]).map Stored.origin).Nodup := by
  rw [map_append, map_singleton]
  exact honce.snoc hfresh

theorem extends_emit (s : State) (conversation : String) (frame : Frame) :
    Extends s {s with
      server := Function.update s.server conversation (s.server conversation ++ [frame])} := by
  refine ⟨fun c => ?_, List.Subset.refl _, List.Subset.refl _, List.Subset.refl _⟩
  by_cases hc : c = conversation
  · subst hc
    simp
  · simp [hc]

section Sound
variable (hs : Inv s)
include hs

theorem Inv.session_mono (hext : Extends s t) : Recorded t s.session :=
  fun row hrow => (hs.session row hrow).imp (@hext.opened _) fun hpassed => hpassed.mono hext

section
variable (hsession : Recorded s session)
include hsession

theorem Inv.update {process : Option Process} (hprocess : ∀ p ∈ process, p.Sound s) :
    Inv {s with session, process} :=
  ⟨hs.once, hsession, fun p hp => (hprocess p hp).mono (.of_eq rfl rfl rfl rfl)⟩

theorem Inv.put (hp : p.Sound s) : Inv {s with session, process := some p} :=
  hs.update hsession fun _ hq => mem_some_iff.mp hq ▸ hp

end

theorem session_record {recorded : ℕ} (hp : p.Sound s) (hle : recorded ≤ p.watermark) :
    Recorded s (p.record s.session recorded) := by
  intro row hrow
  unfold Process.record at hrow
  cases hsession : p.session with
  | none =>
    simp only [hsession] at hrow
    exact hs.session row hrow
  | some conversation =>
    simp only [hsession] at hrow
    obtain ⟨old, hold, rfl⟩ := map_eq_some_iff.mp hrow
    unfold Session.advance
    split
    · rename_i hsame
      obtain ⟨hopened, hpassed⟩ := hp.passed conversation hsession
      rw [← hsame.1] at hopened hpassed
      exact ⟨hopened, hpassed.of_le hle⟩
    · exact hs.session old hold

theorem sound_load (channel : Channel) : (load cfg s.session channel).Sound s := by
  unfold load
  cases hsession : s.session with
  | none => exact ⟨by simp, by simp⟩
  | some row =>
    refine ⟨?_, by simp⟩
    rintro conversation hconversation
    cases mem_some_iff.mp hconversation
    exact hs.session row hsession

theorem session_flush (hp : p.Sound s) :
    Recorded s (flushWatermark s.session p).1 := by
  unfold flushWatermark
  split
  · exact session_record hs hp (Nat.le_refl _)
  · exact hs.session

/-! ### The handshake -/

theorem Inv.connect (hp : p ∈ s.process) (h : connect s p opens = some t) : Inv t := by
  have hsound := hs.process p hp
  cases opens with
  | none =>
    obtain ⟨conversation, hsession, rfl⟩ := map_eq_some_iff.mp h
    refine hs.put hs.session ⟨hsound.passed, fun l hl => ?_⟩
    cases mem_some_iff.mp hl
    exact ⟨(hsound.passed conversation hsession).1, .inl ⟨hsession, rfl⟩⟩
  | some conversation =>
    obtain ⟨hnew, h⟩ := ite_none_left_eq_some.mp h
    cases h
    have hext : ∀ process, Extends s {s with opened := s.opened ++ [conversation], process} :=
      fun _ => ⟨fun _ => prefix_rfl, List.Subset.refl _, List.Subset.refl _, subset_append_left _ _⟩
    refine ⟨hs.once, hs.session_mono (hext _), fun q hq => ?_⟩
    cases mem_some_iff.mp hq
    refine ⟨(hsound.mono (hext _)).passed, fun l hl => ?_⟩
    cases mem_some_iff.mp hl
    refine ⟨mem_concat_self, .inr ⟨by simp, ?_, rfl⟩⟩
    -- the conversation of the session has been opened before
    exact fun hsession => hnew (hsound.passed conversation hsession).1

theorem Inv.welcome (hp : p ∈ s.process) {link : Link} (hlink : link ∈ p.link)
    (userId : String) :
    Inv {s with
      session := (adopt s.session p link.conversation userId).1
      process := some {(adopt s.session p link.conversation userId).2 with phase := .ready}} := by
  obtain ⟨hpassed, hsocket⟩ := hs.process p hp
  obtain ⟨hopened, hnext⟩ := hsocket link hlink
  by_cases hsame : p.session = some link.conversation
  · have hbehind : link.next = p.watermark + 1 := by
      rcases hnext with ⟨-, hbehind⟩ | ⟨-, hother, -⟩
      · exact hbehind
      · exact absurd hsame hother
    have hlinked : ∀ l ∈ p.link, l.conversation ∈ s.opened ∧
        (p.session = some l.conversation ∧ l.next = p.watermark + 1 ∨
          Phase.ready ≠ .ready ∧ p.session ≠ some l.conversation ∧ l.next = 1) := by
      intro l hl
      cases mem_unique hlink hl
      exact ⟨hopened, .inl ⟨hsame, hbehind⟩⟩
    by_cases huser : userId = p.userId
    · simp only [adopt, if_pos hsame, if_pos huser]
      exact hs.put hs.session ⟨hpassed, hlinked⟩
    · simp only [adopt, if_pos hsame, if_neg huser]
      refine hs.put (fun row hrow => ?_) ⟨hpassed, hlinked⟩
      cases mem_some_iff.mp hrow
      exact hpassed link.conversation hsame
  · have hfirst : link.next = 1 := by
      rcases hnext with ⟨hbehind, -⟩ | ⟨-, -, hfirst⟩
      · exact absurd hbehind hsame
      · exact hfirst
    simp only [adopt, if_neg hsame]
    refine hs.put (fun row hrow => ?_) ⟨fun conversation hconversation => ?_, fun l hl => ?_⟩
    · cases mem_some_iff.mp hrow
      exact ⟨hopened, passed_zero⟩
    · cases mem_some_iff.mp hconversation
      exact ⟨hopened, passed_zero⟩
    · cases mem_unique hlink hl
      exact ⟨hopened, .inl ⟨rfl, hfirst⟩⟩

/-! ### A frame -/

section Frame
variable {link : Link} {frame : Frame} {answer : Answer}

section
variable (hp : p ∈ s.process) (hext : Extends s t) (hrow : t.session = s.session)
  (honce : (t.activities.map Stored.origin).Nodup)
  (hsession : p.session = some link.conversation) (hnext : link.next = p.watermark + 1)
  (hframe : (s.server link.conversation)[p.watermark]? = some frame)
include hp hext hrow honce

theorem Inv.failed (hprocess : t.process = some ({p with link := some link}.fail)) : Inv t := by
  refine ⟨honce, hrow ▸ hs.session_mono hext, fun q hq => ?_⟩
  rw [hprocess] at hq
  cases mem_some_iff.mp hq
  exact ⟨((hs.process p hp).mono hext).passed, by simp [Process.fail]⟩

include hsession hnext hframe

theorem Inv.advanced (hprocess : t.process =
      some ({p with link := some {link with next := link.next + 1}}.advance link.next))
    (hdone : Done t link.conversation link.next frame) : Inv t := by
  refine ⟨honce, hrow ▸ hs.session_mono hext, fun q hq => ?_⟩
  rw [hprocess] at hq
  cases mem_some_iff.mp hq
  refine sound_advance (hs.process p hp) hext hsession hnext ?_ hdone
  obtain ⟨rest, hrest⟩ := hext.server link.conversation
  exact hrest ▸ getElem?_append_of_eq_some hframe rest

omit hext hrow honce

theorem Inv.store
    (hkeys : ∀ activity ∈ s.activities, activity.key = storeKey cfg p.sender link.conversation link.next ↔
        activity.origin = (link.conversation, link.next)) :
    Inv (store cfg s {p with link := some {link with next := link.next + 1}} link.conversation
      frame link.next answer) := by
  by_cases hknown : s.activities.any (·.key = storeKey cfg p.sender link.conversation link.next) = true
  · simp only [MekikConnection.store, if_pos hknown]
    obtain ⟨activity, hmem, hkey⟩ := List.any_eq_true.mp hknown
    refine hs.advanced hp (.of_eq rfl rfl rfl rfl) rfl hs.once hsession hnext hframe rfl ?_
    exact .inr ⟨activity, hmem, (hkeys activity hmem).mp (of_decide_eq_true hkey)⟩
  · have hfresh : (link.conversation, link.next) ∉ s.activities.map Stored.origin := by
      intro hmem
      obtain ⟨activity, hactivity, horigin⟩ := List.mem_map.mp hmem
      apply hknown
      exact List.any_eq_true.mpr
        ⟨activity, hactivity, decide_eq_true ((hkeys activity hactivity).mpr horigin)⟩
    simp only [MekikConnection.store, if_neg hknown]
    cases answer with
    | created =>
      refine hs.advanced hp ⟨fun _ => prefix_rfl, List.Subset.refl _, subset_append_left _ _,
        List.Subset.refl _⟩ rfl (once_append hs.once hfresh) hsession hnext hframe rfl ?_
      exact .inr ⟨_, mem_concat_self, rfl⟩
    | rejected | closed =>
      refine hs.advanced hp ⟨fun _ => prefix_rfl, subset_append_left _ _, List.Subset.refl _,
        List.Subset.refl _⟩ rfl hs.once hsession hnext hframe rfl ?_
      exact .inl (.inr (mem_concat_self))
    | error committed =>
      cases committed with
      | true =>
        exact hs.failed hp ⟨fun _ => prefix_rfl, List.Subset.refl _,
          subset_append_left _ _, List.Subset.refl _⟩ rfl (once_append hs.once hfresh) rfl
      | false => exact hs.failed hp (.of_eq rfl rfl rfl rfl) rfl hs.once rfl

end

theorem Inv.arrival (hsteady : Steady cfg s (.frame answer))
    (harriving : arriving s = some (p, link, frame)) :
    Inv (handleFrame cfg s {p with link := some {link with next := link.next + 1}}
      link.conversation frame link.next answer) := by
  obtain ⟨hp, hlink, hframe, hready⟩ := arriving_eq_some harriving
  obtain ⟨hsession, hnext⟩ : p.session = some link.conversation ∧ link.next = p.watermark + 1 := by
    rcases ((hs.process p hp).link link hlink).2 with hbehind | ⟨hphase, -⟩
    · exact hbehind
    · exact absurd hready hphase
  have hindex : link.next - 1 = p.watermark := by omega
  rw [hindex] at hframe
  have hnew : ¬ link.next ≤ p.watermark := by omega
  have hkeys := hsteady _ harriving
  simp only at hkeys
  simp only [handleFrame, if_neg hnew]
  by_cases hecho : frame.echo
  · rw [if_pos hecho]
    refine hs.advanced hp (.of_eq rfl rfl rfl rfl) rfl hs.once hsession hnext hframe rfl ?_
    exact .inl (.inl hecho)
  · rw [if_neg hecho]
    exact hs.store hp hsession hnext hframe hkeys

end Frame

theorem inv_of_step (hsteady : Steady cfg s e) (h : step cfg s e = some t) : Inv t := by
  cases effect_of_step h with
  | emit conversation frame =>
    have hext := extends_emit s conversation frame
    exact ⟨hs.once, hs.session_mono hext, fun p hp => (hs.process p hp).mono hext⟩
  | start channel => exact hs.put hs.session (sound_load hs channel)
  | connect hp hconnect => exact hs.connect hp hconnect
  | welcome userId hp hlink => exact hs.welcome hp hlink userId
  | frame answer harriving => exact hs.arrival hsteady harriving
  | send channel hp =>
    exact hs.put hs.session (sound_updateChannel (hs.process _ hp) channel)
  | @flush p hp =>
    have hsound : Process.Sound s {p with flushScheduled := false} :=
      ⟨(hs.process p hp).passed, (hs.process p hp).link⟩
    exact hs.put (session_flush hs hsound) (sound_flush hsound)
  | lost phase hp => exact hs.put hs.session (sound_fail (hs.process _ hp) phase)
  | exit hp hle => exact hs.update (session_record hs (hs.process _ hp) hle) (by simp)

end Sound

/-! ### A channel that keeps its bot -/

theorem storeKey_inj {conversation' : String} {seq' : ℕ} :
    storeKey cfg sender conversation seq = storeKey cfg sender conversation' seq' ↔
      (conversation, seq) = (conversation', seq') := by
  constructor
  · intro h
    have hlist : conversation.toList ++ ':' :: Nat.toDigits 10 seq =
        conversation'.toList ++ ':' :: Nat.toDigits 10 seq' := by
      simpa [storeKey, botClientKey, Nat.toList_repr] using congrArg String.toList h
    have hdigits : ∀ n : ℕ, ':' ∉ Nat.toDigits 10 n := fun n hmem =>
      absurd (Nat.isDigit_of_mem_toDigits (by decide) (by decide) hmem) (by decide)
    rcases append_colon_inj hlist with ⟨hname, hseq⟩ | ⟨x, -, hseq⟩ | ⟨x, -, hseq⟩
    · have hvalue := congrArg (Nat.ofDigitChars 10 · 0) hseq
      simp only [Nat.ofDigitChars_ten_toDigits] at hvalue
      rw [String.toList_injective hname, hvalue]
    · exact absurd (hseq ▸ by simp) (hdigits seq)
    · exact absurd (hseq ▸ by simp) (hdigits seq')
  · rintro ⟨⟩
    rfl

def Event.SentAs (sender : String) : Event → Prop
  | .start channel | .send channel => channel.sender = sender
  | _ => True

structure Filed (cfg : Config) (sender : String) (s : State) : Prop where
  keys : ∀ activity ∈ s.activities,
    activity.key = storeKey cfg sender activity.origin.1 activity.origin.2
  sender : ∀ p ∈ s.process, p.sender = sender

@[simp] theorem sender_load (cfg : Config) (session : Option Session) (channel : Channel) :
    (load cfg session channel).sender = channel.sender := by
  cases session <;> rfl

@[simp] theorem sender_updateChannel (p : Process) (channel : Channel) :
    (p.updateChannel channel).sender = channel.sender := by
  by_cases h : channel.upstream = p.upstream <;> simp [Process.updateChannel, h]

@[simp] theorem sender_adopt (session : Option Session) (p : Process) (conversation userId : String) :
    (adopt session p conversation userId).2.sender = p.sender := by
  unfold adopt
  split
  · split <;> rfl
  · rfl

@[simp] theorem sender_flushWatermark (session : Option Session) (p : Process) :
    (flushWatermark session p).2.sender = p.sender := by
  unfold flushWatermark
  split <;> rfl

section
variable (hs : Filed cfg sender s)
include hs

theorem Filed.update (hp : p.sender = sender) :
    Filed cfg sender {s with session, process := some p} where
  keys := hs.keys
  sender q hq := by
    rw [← mem_some_iff.mp hq]
    exact hp

theorem Filed.store {frame : Frame} {answer : Answer} (hp : p.sender = sender) :
    Filed cfg sender (store cfg s p conversation frame seq answer) := by
  have hkeys : ∀ activity ∈ s.activities ++ [{
      key := storeKey cfg p.sender conversation seq, sender := p.sender, frame
      origin := (conversation, seq)}],
      activity.key = storeKey cfg sender activity.origin.1 activity.origin.2 := by
    refine forall_mem_snoc hs.keys ?_
    rw [hp]
  have hprocess : ∀ q : Process, q.sender = p.sender → ∀ q' ∈ some q, q'.sender = sender := by
    intro q hq q' hq'
    rw [← mem_some_iff.mp hq', hq, hp]
  simp only [MekikConnection.store]
  split
  · exact ⟨hs.keys, hprocess _ rfl⟩
  · cases answer with
    | created => exact ⟨hkeys, hprocess _ rfl⟩
    | rejected | closed => exact ⟨hs.keys, hprocess _ rfl⟩
    | error committed =>
      cases committed with
      | true => exact ⟨hkeys, hprocess _ rfl⟩
      | false => exact ⟨hs.keys, hprocess _ rfl⟩

theorem Filed.connect (hp : p ∈ s.process) (h : connect s p opens = some t) : Filed cfg sender t := by
  cases opens with
  | none =>
    obtain ⟨conversation, -, rfl⟩ := map_eq_some_iff.mp h
    exact hs.update (hs.sender p hp)
  | some conversation =>
    obtain ⟨-, h⟩ := ite_none_left_eq_some.mp h
    cases h
    refine ⟨hs.keys, fun q hq => ?_⟩
    rw [← mem_some_iff.mp hq]
    exact hs.sender p hp

theorem filed_of_step (he : e.SentAs sender) (h : step cfg s e = some t) : Filed cfg sender t := by
  cases effect_of_step h with
  | emit conversation frame => exact ⟨hs.keys, hs.sender⟩
  | start channel => exact hs.update ((sender_load _ _ _).trans he)
  | connect hp hconnect => exact hs.connect hp hconnect
  | welcome userId hp hlink => exact hs.update ((sender_adopt _ _ _ _).trans (hs.sender _ hp))
  | frame answer harriving =>
    have hsender := hs.sender _ (arriving_eq_some harriving).1
    simp only [handleFrame]
    split
    · exact hs.update hsender
    · split
      · exact hs.update hsender
      · exact hs.store hsender
  | send channel hp => exact hs.update ((sender_updateChannel _ _).trans he)
  | @flush p hp => exact hs.update ((sender_flushWatermark _ _).trans (hs.sender p hp))
  | @lost p phase hp => exact hs.update (hs.sender p hp)
  | exit hp hle => exact ⟨hs.keys, by simp⟩

theorem steady_of_filed (e : Event) : Steady cfg s e := by
  cases e with
  | frame answer =>
    rintro ⟨p, link, frame⟩ harriving activity hactivity
    obtain ⟨hp, -⟩ := arriving_eq_some harriving
    rw [hs.keys activity hactivity, hs.sender p hp]
    exact storeKey_inj
  | _ => trivial

end

theorem along_steady_of_sentAs {es : List Event}
    (h : ∀ e ∈ es, e.SentAs sender) : Along (step cfg) (Steady cfg) {} es :=
  along_of_invariant (fun s _ _ (hs : Filed cfg sender s) he ht => filed_of_step hs he ht)
    (fun _ e hs _ => steady_of_filed hs e) ⟨by simp, by simp⟩ h

/-! ### Stored once -/

def storedTimes (s : State) (origin : String × ℕ) : ℕ :=
  (s.activities.map Stored.origin).count origin

def Settled (s : State) (conversation : String) (w : ℕ) : Prop :=
  ∀ seq, 1 ≤ seq → seq ≤ w → ∃ frame, (s.server conversation)[seq - 1]? = some frame ∧
    (Skipped s conversation seq frame ∨ storedTimes s (conversation, seq) = 1)

/-- The server has sent all frames of the conversation to a socket that is ready. -/
def CaughtUp (s : State) (p : Process) (conversation : String) : Prop :=
  p.phase = .ready ∧ ∃ link ∈ p.link, link.conversation = conversation ∧
    (s.server conversation).length < link.next

theorem Inv.settled (hs : Inv s) (h : Passed s conversation w) : Settled s conversation w := by
  intro seq hpos hle
  obtain ⟨frame, hframe, hdone⟩ := h (seq - 1) (by omega)
  rw [Nat.sub_add_cancel hpos] at hdone
  refine ⟨frame, hframe, hdone.imp_right ?_⟩
  rintro ⟨activity, hmem, horigin⟩
  apply count_eq_one_of_mem hs.once
  exact horigin ▸ List.mem_map_of_mem hmem

/-- Where the sender of a frame's activities does not change before its number is recorded, every
frame is stored at most once, every frame up to a watermark, in memory or recorded, is stored once or
skipped, and a connection that has caught up has all frames behind its watermark. -/
theorem frames_stored_once {es : List Event} (h : run (step cfg) {} es = some s)
    (hsteady : Along (step cfg) (Steady cfg) {} es) :
    (∀ origin, storedTimes s origin ≤ 1) ∧
    (∀ row ∈ s.session, Settled s row.mekikConversation row.watermark) ∧
    ∀ p ∈ s.process, ∀ conversation ∈ p.session, Settled s conversation p.watermark ∧
      (CaughtUp s p conversation → (s.server conversation).length = p.watermark) := by
  have hs : Inv s := run_invariant_along inv_of_step inv_init hsteady h
  refine ⟨fun origin => nodup_iff_count.mp hs.once origin, ?_, ?_⟩
  · intro row hrow
    exact hs.settled (hs.session row hrow).2
  · intro p hp conversation hconversation
    have hsound := hs.process p hp
    obtain ⟨-, hpassed⟩ := hsound.passed conversation hconversation
    refine ⟨hs.settled hpassed, ?_⟩
    rintro ⟨hready, link, hlink, rfl, hall⟩
    have hnext : link.next = p.watermark + 1 := by
      rcases (hsound.link link hlink).2 with hbehind | ⟨hphase, -⟩
      · exact hbehind.2
      · exact absurd hready hphase
    -- the frames up to the watermark exist
    have hle : p.watermark ≤ (s.server link.conversation).length := by
      by_contra hlt
      obtain ⟨frame, hframe, -⟩ := hpassed (s.server link.conversation).length (by omega)
      simp at hframe
    omega

def support : Config where
  conversationId := "c"
  defaultUser := "u"

/-- A frame is stored and the process killed before it records the watermark; the next one has the
frame again. -/
def killedBeforeFlush (channel : Channel) : List Event :=
  [.start {}, .connect (some "m"), .welcome "u", .emit "m" {}, .frame .created, .exit 0,
   .start channel, .connect none, .welcome "u", .frame .created]

theorem frames_stored_once_killed :
    ∃ s, run (step support) {} (killedBeforeFlush {}) = some s ∧ storedTimes s ("m", 1) = 1 ∧
      storedTimes s ("m", 1) ≤ 1 := by
  obtain ⟨s, hs, htimes⟩ : ∃ s, run (step support) {} (killedBeforeFlush {}) = some s ∧
      storedTimes s ("m", 1) = 1 := by decide +kernel
  exact ⟨s, hs, htimes, (frames_stored_once hs (by decide +kernel)).1 ("m", 1)⟩

/-- The channel's `bot_id` is changed before the next process starts. -/
theorem renamed_bot_stores_twice :
    ∃ s, run (step support) {} (killedBeforeFlush { botId := some "helper" }) = some s ∧
      storedTimes s ("m", 1) = 2 := by
  decide +kernel

end Converger.MekikConnection
