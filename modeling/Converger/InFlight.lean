import Converger.GuardedRuns
import Mathlib.Order.Nat

/-!
# Sends in flight

`ConvergerWeb.Protocol.InFlight`: the channel process counts the sends in its mailbox and decides
for them in advance, in the order they were sent in.
-/
namespace Converger.InFlight
open GuardedRuns List

def forwardedTypes : List String :=
  ["resume", "genui_event", "client_tools", "client_skills", "abort", "survey", "regenerate", "edit"]

def reservedTypes : List String :=
  ["welcome", "resume", "genui_event", "client_tools", "client_skills", "abort", "tool_call", "skill",
    "skills", "genui", "genui_components", "interrupt", "interrupt_resolved", "run", "error", "typing",
    "survey", "regenerate", "edit", "ack", "deliveryStatus", "presence", "conversationUpdate",
    "endOfConversation", "event", "heartbeat", "ping", "read", "sync", "auth", "tokenRefreshed",
    "replayTruncated", "subscribe", "unsubscribe", "subscribed", "unsubscribed", "message",
    "activity", "activitySet", "frame", "hello"]

def plainMessageType : List Char → Bool
  | [] => false
  | c :: cs => c.isLower && cs.length ≤ 63 &&
    cs.all fun d => d.isLower || d.isDigit || d = '_' || d = '-'

/-- The pattern of a message type. Its `$` also matches before a line break at the end. -/
def isMessageType (type : String) : Bool :=
  plainMessageType type.toList ||
    (type.toList.getLast? = some '\n' && plainMessageType type.toList.dropLast)

/-- `Send.kind/1` is `:text` or `:rich`. -/
def isMessage (type : String) : Bool :=
  type = "text" || (type ∉ reservedTypes && isMessageType type)

structure Window where
  accept : ℕ := 0
  reject : ℕ := 0
  deriving DecidableEq

inductive Decision where
  | accept | reject
  deriving DecidableEq

/-- A message in the mailbox: the event `frame`, with the `type` its payload has, or any other. -/
inductive Message where
  | frame (n : ℕ) (type : Option String)
  | other
  deriving DecidableEq

/-- `send_frame?/1`, on the payloads of `frame`. -/
def isSend : Message → Bool
  | .frame _ (some type) => isMessage type
  | _ => false

/-- `admit/3`. -/
def admits (window : Window) (max : ℕ) (mailbox : List Message) : Decision × Window :=
  if 0 < window.accept then (.accept, {window with accept := window.accept - 1})
  else if 0 < window.reject then (.reject, {window with reject := window.reject - 1})
  else
    let queued := if mailbox.length < max then 0 else mailbox.countP isSend
    let accept := min queued (max - 1)
    (.accept, {accept, reject := queued - accept})

/-- `sent` and `answers` are the history of a run. -/
structure State where
  mailbox : List Message := []
  window : Window := {}
  sent : List Message := []
  answers : List (Message × Decision) := []

/-- `do_handle_in/3` with what is left in the mailbox. -/
def doHandleIn (max : ℕ) (s : State) (m : Message) : State :=
  match m with
  | .frame _ (some type) =>
    if type ∈ forwardedTypes then s
    else if isMessage type then
      let (decision, window) := admits s.window max s.mailbox
      {s with window, answers := s.answers ++ [(m, decision)]}
    else s
  | _ => s

inductive Event where
  | arrive (m : Message)
  | handle

def step (max : ℕ) (s : State) : Event → Option State
  | .arrive m => some {s with mailbox := s.mailbox ++ [m], sent := s.sent ++ [m]}
  | .handle => match s.mailbox with
    | [] => none
    | m :: rest => some (doHandleIn max {s with mailbox := rest} m)

def State.sends (s : State) : List Message := s.mailbox.filter isSend

def Window.decisions (window : Window) : List Decision :=
  replicate window.accept .accept ++ replicate window.reject .reject

variable {max : ℕ} {s t : State} {e : Event} {ds : List Decision}

/-- A frame that goes to the bot is no send. -/
theorem doHandleIn_eq (s : State) (m : Message) : doHandleIn max s m =
    if isSend m then {s with
      window := (admits s.window max s.mailbox).2
      answers := s.answers ++ [(m, (admits s.window max s.mailbox).1)]} else s := by
  have hbot : ∀ type ∈ forwardedTypes, isMessage type = false := by decide +kernel
  unfold doHandleIn isSend
  split
  · rename_i n type
    split_ifs with hmem hsend
    · simp [hbot type hmem] at hsend
    all_goals rfl
  · rfl

/-- A step answers the first send of the mailbox, or leaves answers and window alone. -/
theorem step_cases (h : step max s e = some t) :
    (t.window = s.window ∧ t.answers = s.answers ∧
      ∃ new, t.sent = s.sent ++ new ∧ t.sends = s.sends ++ new.filter isSend) ∨
    ∃ m, s.sends = m :: t.sends ∧ t.sent = s.sent ∧ t.window = (admits s.window max t.mailbox).2 ∧
      t.answers = s.answers ++ [(m, (admits s.window max t.mailbox).1)] := by
  cases e with
  | arrive m =>
    cases h
    exact .inl ⟨rfl, rfl, [m], rfl, filter_append ..⟩
  | handle =>
    simp only [step] at h
    split at h <;> cases h
    rename_i m rest hmailbox
    rw [doHandleIn_eq]
    split_ifs with hsend
    · refine .inr ⟨m, ?_, rfl, rfl, rfl⟩
      rw [State.sends, hmailbox, filter_cons_of_pos hsend]
      rfl
    · refine .inl ⟨rfl, rfl, [], (append_nil _).symm, ?_⟩
      rw [State.sends, State.sends, hmailbox, filter_cons_of_neg hsend, filter_nil, append_nil]

/-- A window that is spent is counted again, unless the mailbox is short. -/
theorem admits_cases (window : Window) (t : State) :
    (admits window max t.mailbox = (.accept, {window with accept := window.accept - 1}) ∧ 0 < window.accept) ∨
    (admits window max t.mailbox = (.reject, {window with reject := window.reject - 1}) ∧
      window.accept = 0 ∧ 0 < window.reject) ∨
    window = {} ∧ ((admits window max t.mailbox = (.accept, {}) ∧ t.sends.length < max) ∨
      admits window max t.mailbox = (.accept, ⟨min t.sends.length (max - 1),
        t.sends.length - min t.sends.length (max - 1)⟩)) := by
  have hle : t.sends.length ≤ t.mailbox.length := length_filter_le _ _
  obtain ⟨accept, reject⟩ := window
  unfold admits
  rw [countP_eq_length_filter]
  by_cases haccept : 0 < accept
  · exact .inl ⟨if_pos haccept, haccept⟩
  · by_cases hreject : 0 < reject
    · exact .inr (.inl ⟨by rw [if_neg haccept, if_pos hreject], Nat.eq_zero_of_not_pos haccept, hreject⟩)
    · rw [if_neg haccept, if_neg hreject]
      refine .inr (.inr ⟨by rw [Window.mk.injEq]; omega, ?_⟩)
      by_cases hshort : t.mailbox.length < max
      · exact .inl ⟨by rw [if_pos hshort]; simp, by omega⟩
      · exact .inr (by rw [if_neg hshort]; rfl)

/-- What is decided for the first of `n` sends: what the window says, or, if no more than `max` are
to be decided for, that they are accepted. -/
def Decided (max n : ℕ) (window : Window) (ds : List Decision) : Prop :=
  ds.length ≤ n ∧ (ds = window.decisions ∨
    ∃ k, ds = replicate k .accept ∧ (k ≤ window.accept ∨ window = {} ∧ k ≤ max))

theorem decided_admits {window : Window} (h : Decided max (t.sends.length + 1) window ds) :
    ds = [] ∨ ∃ rest, ds = (admits window max t.mailbox).1 :: rest ∧
      Decided max t.sends.length (admits window max t.mailbox).2 rest := by
  have hcases := @admits_cases max window t
  obtain ⟨hle, hds | ⟨k, hds, hk⟩⟩ := h
  · obtain ⟨_ | accept, _ | reject⟩ := window
    all_goals
      simp only [Window.decisions, replicate_succ, replicate_zero, nil_append, cons_append] at hds
      grind [Decided, Window.decisions]
  · cases k with
    | zero => exact .inl hds
    | succ k => grind [Decided, Window.decisions]

theorem length_decisions (window : Window) : window.decisions.length = window.accept + window.reject := by
  simp only [Window.decisions, length_append, length_replicate]

/-- A new window accepts the send and decides for those behind it. -/
theorem decided_fresh (t : State) :
    (admits {} max t.mailbox).1 = .accept ∧ Decided max t.sends.length (admits {} max t.mailbox).2
      (Window.decisions ⟨min t.sends.length (max - 1), t.sends.length - min t.sends.length (max - 1)⟩) := by
  unfold Decided
  rw [length_decisions]
  rcases @admits_cases max {} t with ⟨-, hpos⟩ | ⟨-, -, hpos⟩ | ⟨-, ⟨hresult, hlt⟩ | hresult⟩
  · cases hpos
  · cases hpos
  · rw [hresult, Window.decisions, Nat.min_eq_left (by omega), Nat.sub_self]
    exact ⟨rfl, Nat.le_refl _, .inr ⟨_, append_nil _, .inr ⟨rfl, hlt.le⟩⟩⟩
  · rw [hresult]
    exact ⟨rfl, by dsimp only; omega, .inl rfl⟩

theorem decided_run {es : List Event} (hs : Decided max s.sends.length s.window ds)
    (h : run (step max) s es = some t) : ∃ new : List (Message × Decision),
      t.answers = s.answers ++ new ∧ (new.map Prod.snd).take ds.length = ds.take new.length := by
  induction es generalizing s ds with
  | nil =>
    cases h
    exact ⟨[], (append_nil _).symm, by simp⟩
  | cons e es ih =>
    obtain ⟨u, hu, ht⟩ := run_cons_eq_some.mp h
    rcases step_cases hu with ⟨hwindow, hanswers, new, -, hsends⟩ | ⟨m, hsends, -, hwindow, hanswers⟩
    · rw [← hanswers]
      refine ih ⟨?_, hwindow ▸ hs.2⟩ ht
      have hle := hs.1
      rw [hsends, length_append]
      omega
    · rw [hsends, length_cons] at hs
      have hrest : ∃ rest, Decided max u.sends.length u.window rest ∧
          (ds = [] ∨ ds = (admits s.window max u.mailbox).1 :: rest) := by
        rcases decided_admits hs with rfl | ⟨rest, rfl, hrest⟩
        · exact ⟨[], ⟨Nat.zero_le _, .inr ⟨0, rfl, .inl (Nat.zero_le _)⟩⟩, .inl rfl⟩
        · exact ⟨rest, hwindow ▸ hrest, .inr rfl⟩
      obtain ⟨rest, hrest, hds⟩ := hrest
      obtain ⟨new, hnew, htake⟩ := ih hrest ht
      refine ⟨(m, (admits s.window max u.mailbox).1) :: new, ?_, ?_⟩
      · rw [hnew, hanswers, append_assoc]
        rfl
      · rcases hds with rfl | rfl
        · simp
        · simpa using htake

structure Inv (s : State) : Prop where
  charged : s.window.accept + s.window.reject ≤ s.sends.length
  order : s.answers.map Prod.fst ++ s.sends = s.sent.filter isSend

theorem inv_of_step (hs : Inv s) (h : step max s e = some t) : Inv t := by
  obtain ⟨hcharged, horder⟩ := hs
  rcases step_cases h with ⟨hwindow, hanswers, new, hsent, hsends⟩ | ⟨m, hsends, hsent, hwindow, hanswers⟩
  · constructor <;> grind
  · have hcases := @admits_cases max s.window t
    constructor <;> grind

theorem accepted_of_step (hmax : 1 ≤ max) (hs : s.window.reject = 0 ∧ ∀ x ∈ s.answers, x.2 = .accept)
    (hle : s.sends.length ≤ max) (h : step max s e = some t) :
    t.window.reject = 0 ∧ ∀ x ∈ t.answers, x.2 = .accept := by
  rcases step_cases h with ⟨hwindow, hanswers, -⟩ | ⟨m, hsends, -, hwindow, hanswers⟩
  · grind
  · have hcases := @admits_cases max s.window t
    grind

/-- Sends are answered in the order they came in, and those of a client that waits for its answers are
accepted. A window is for sends that are in the mailbox, and what it says when it is counted is what
they are answered. -/
theorem sends_in_flight (max : ℕ) (hmax : 1 ≤ max) (es : List Event) (s : State)
    (h : run (step max) {} es = some s) :
    (Along (step max) (fun s _ => s.sends.length ≤ max) {} es → ∀ x ∈ s.answers, x.2 = .accept) ∧
    s.answers.map Prod.fst ++ s.sends = s.sent.filter isSend ∧
    s.window.accept + s.window.reject ≤ s.sends.length ∧
    ∀ m rest fs t, s.window = {} → s.mailbox = m :: rest → isSend m →
      run (step max) s (.handle :: fs) = some t →
      let q := (rest.filter isSend).length
      ∃ new : List (Message × Decision), t.answers = s.answers ++ (m, .accept) :: new ∧
        (new.map Prod.snd).take q =
          (Window.decisions ⟨min q (max - 1), q - min q (max - 1)⟩).take new.length := by
  have hinv : Inv s := run_invariant inv_of_step ⟨Nat.le_refl _, rfl⟩ h
  refine ⟨fun halong => ?_, hinv.order, hinv.charged, fun m rest fs t hwindow hmailbox hsend ht => ?_⟩
  · exact (run_invariant_along (accepted_of_step hmax) ⟨rfl, by simp⟩ halong h).2
  · obtain ⟨u, hu, ht⟩ := run_cons_eq_some.mp ht
    simp only [step, hmailbox, doHandleIn_eq, hsend, if_true, hwindow] at hu
    cases hu
    obtain ⟨haccept, hdecided⟩ := @decided_fresh max {s with mailbox := rest}
    obtain ⟨new, hnew, htake⟩ := decided_run hdecided ht
    refine ⟨new, by rw [hnew, haccept, append_assoc]; rfl, ?_⟩
    rwa [length_decisions, Nat.add_sub_cancel' (Nat.min_le_left _ _)] at htake

/-- Three sends for a limit of two: the last of them is refused, the one that comes later is not. -/
def burst : List Event :=
  [.arrive (.frame 1 (some "text")), .arrive (.frame 2 (some "text")), .arrive .other,
    .arrive (.frame 3 (some "text")), .handle, .arrive (.frame 4 (some "text")), .handle, .handle, .handle,
    .handle]

theorem sends_in_flight_burst : ∃ s, run (step 2) {} burst = some s ∧
    s.answers.map Prod.fst ++ s.sends = s.sent.filter isSend ∧
    s.answers.map Prod.snd = [.accept, .accept, .reject, .accept] := by
  obtain ⟨s, hs, hanswers⟩ : ∃ s, run (step 2) {} burst = some s ∧
      s.answers.map Prod.snd = [.accept, .accept, .reject, .accept] := by decide +kernel
  exact ⟨s, hs, (sends_in_flight 2 (by decide) burst s hs).2.1, hanswers⟩

end Converger.InFlight
