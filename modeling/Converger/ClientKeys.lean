import Converger.GuardedRuns

/-!
# Keys of client messages

A send with a `clientId` is stored under a key that joins the sender and the `clientId` with
a colon, and a later send under a stored key is answered as a duplicate. The colon is legal
in a `clientId` and in a sender, so two senders share keys where one of them is the other,
a colon and further characters of a `clientId`.
-/
namespace Converger.ClientKeys
open GuardedRuns List Option

/-! ## Client ids and keys -/

def clientIdChar (c : Char) : Bool := c.isAlphanum || c ∈ ['.', '_', ':', '~', '-']

def maxClientId : ℕ := 128

def plainClientId (cs : List Char) : Bool :=
  1 ≤ cs.length ∧ cs.length ≤ maxClientId ∧ cs.all clientIdChar

/-- The `$` of the pattern also matches before a line break at the end. -/
def accepted (cs : List Char) : Bool :=
  plainClientId cs || (cs.getLast? = some '\n' ∧ plainClientId cs.dropLast)

def isClientId (s : String) : Bool := accepted s.toList

def clientKey (sender clientId : String) : String := "ws:" ++ sender ++ ":" ++ clientId

/-- `BotRelay.client_key/3`. -/
def botClientKey (sender conversationId clientId : String) : String :=
  "bot:" ++ sender ++ ":" ++ conversationId ++ ":" ++ clientId

variable {cs x c : List Char} {n n' conversationId : String} {p q : Sender} {senders : Set Sender}

theorem plainClientId_iff :
    plainClientId cs = true ↔ 1 ≤ cs.length ∧ cs.length ≤ 128 ∧ ∀ c ∈ cs, clientIdChar c = true := by
  simp [plainClientId, maxClientId]

theorem accepted_iff :
    accepted cs = true ↔
      ∃ body, plainClientId body = true ∧ (cs = body ∨ cs = body ++ ['\n']) := by
  simp only [accepted, Bool.or_eq_true, decide_eq_true_eq]
  constructor
  · rintro (h | ⟨hlast, h⟩)
    · exact ⟨cs, h, .inl rfl⟩
    · exact ⟨cs.dropLast, h, .inr (dropLast_append_getLast? '\n' hlast).symm⟩
  · rintro ⟨body, h, rfl | rfl⟩
    · exact .inl h
    · exact .inr ⟨getLast?_concat, by rwa [dropLast_concat]⟩

/-! ## Where keys collide -/

/-- What may stand between the end of one sender and the colon after a longer one. -/
def Middle (x : List Char) : Prop := (∀ c ∈ x, clientIdChar c = true) ∧ x.length ≤ 126

/-- The longer text is the shorter one, a colon and characters of a `clientId`. -/
def Extends (n n' : String) : Prop := ∃ x, n'.toList = n.toList ++ ':' :: x ∧ Middle x

/-- A client id that ends in a shorter one after a colon has room for 126 characters in
front of the colon. -/
theorem middle_of_accepted (h : accepted (x ++ ':' :: c) = true) (hc : accepted c = true) : Middle x := by
  obtain ⟨body, hbody, hx⟩ := accepted_iff.mp h
  obtain ⟨short, hshort, hc⟩ := accepted_iff.mp hc
  obtain ⟨-, hlen, hall⟩ := plainClientId_iff.mp hbody
  obtain ⟨hpos, -, hshortAll⟩ := plainClientId_iff.mp hshort
  -- a line break ends both of them or none of them
  have hsame : body = x ++ ':' :: short := by
    rcases hx with rfl | hx <;> rcases hc with rfl | rfl
    · rfl
    · have hbreak := hall '\n' (by simp)
      exact absurd hbreak (by decide)
    · have hne : c ≠ [] := ne_nil_of_length_pos hpos
      have hlast := congrArg List.getLast? hx
      rw [getLast?_concat, getLast?_append_of_ne_nil _ (by simp),
        getLast?_cons_of_ne_nil hne] at hlast
      have hbreak := hshortAll '\n' (mem_of_getLast? hlast)
      exact absurd hbreak (by decide)
    · rw [← cons_append, ← append_assoc] at hx
      exact (append_cancel_right hx).symm
  rw [hsame] at hlen hall
  simp only [length_append, length_cons] at hlen
  exact ⟨fun c hc => hall c (mem_append_left _ hc), by omega⟩

theorem accepted_of_middle (h : Middle x) : accepted (x ++ ':' :: ['a']) = true := by
  refine accepted_iff.mpr ⟨_, plainClientId_iff.mpr ⟨by simp, ?_, ?_⟩, .inl rfl⟩
  · have hlen := h.2
    simp only [length_append, length_cons, length_nil]
    omega
  · refine forall_mem_append.mpr ⟨h.1, fun c hc => ?_⟩
    rcases mem_cons.mp hc with rfl | hc
    · decide
    · cases mem_singleton.mp hc
      decide

theorem append_colon_inj {n n' c' : List Char} (h : n ++ ':' :: c = n' ++ ':' :: c') :
    n = n' ∧ c = c' ∨ (∃ x, n' = n ++ ':' :: x ∧ c = x ++ ':' :: c') ∨
      ∃ x, n = n' ++ ':' :: x ∧ c' = x ++ ':' :: c := by
  have key : ∀ {m m' d d' a : List Char}, m' = m ++ a → ':' :: d = a ++ ':' :: d' →
      m = m' ∧ d = d' ∨ ∃ x, m' = m ++ ':' :: x ∧ d = x ++ ':' :: d' := by
    intro m m' d d' a hm hd
    cases a with
    | nil =>
      refine .inl ⟨?_, ?_⟩
      · rw [hm, append_nil]
      · exact (List.cons.inj hd).2
    | cons z x =>
      obtain ⟨rfl, hx⟩ := List.cons.inj hd
      exact .inr ⟨x, hm, hx⟩
  rcases append_eq_append_iff.mp h with ⟨a, hn, hc⟩ | ⟨a, hn, hc⟩
  · rcases key hn hc with heq | hx
    · exact .inl heq
    · exact .inr (.inl hx)
  · rcases key hn hc with ⟨heq, hcc⟩ | hx
    · exact .inl ⟨heq.symm, hcc.symm⟩
    · exact .inr (.inr hx)

theorem toList_joined (n c : String) : (n ++ ":" ++ c).toList = n.toList ++ ':' :: c.toList := by
  simp

theorem Extends.ne (h : Extends n n') : n ≠ n' := by
  obtain ⟨x, hx, -⟩ := h
  rintro rfl
  have hlen := congrArg List.length hx
  simp at hlen

theorem Extends.collision (h : Extends n n') :
    ∃ c, isClientId c = true ∧ isClientId "a" = true ∧ n ++ ":" ++ c = n' ++ ":" ++ "a" := by
  obtain ⟨x, hx, hmid⟩ := h
  refine ⟨String.ofList (x ++ ':' :: ['a']), ?_, by decide, ?_⟩
  · rw [isClientId, String.toList_ofList]
    exact accepted_of_middle hmid
  · rw [← String.toList_inj, toList_joined, toList_joined, hx]
    simp

/-- A text joined with a `clientId` determines both, exactly if none of the two texts
extends the other. -/
theorem joined_inj_iff (n n' : String) :
    (∀ c c', isClientId c = true → isClientId c' = true → n ++ ":" ++ c = n' ++ ":" ++ c' →
      n = n' ∧ c = c') ↔ ¬ Extends n n' ∧ ¬ Extends n' n := by
  constructor
  · intro h
    refine ⟨fun hext => ?_, fun hext => ?_⟩
    · obtain ⟨c, hc, ha, heq⟩ := hext.collision
      exact hext.ne (h c "a" hc ha heq).1
    · obtain ⟨c, hc, ha, heq⟩ := hext.collision
      exact hext.ne (h "a" c ha hc heq.symm).1.symm
  · rintro ⟨hn, hn'⟩ c c' hc hc' heq
    have hlist := congrArg String.toList heq
    rw [toList_joined, toList_joined] at hlist
    rcases append_colon_inj hlist with ⟨hname, hid⟩ | ⟨x, hx, hid⟩ | ⟨x, hx, hid⟩
    · exact ⟨String.toList_inj.mp hname, String.toList_inj.mp hid⟩
    · rw [isClientId, hid] at hc
      exact absurd ⟨x, hx, middle_of_accepted hc hc'⟩ hn
    · rw [isClientId, hid] at hc'
      exact absurd ⟨x, hx, middle_of_accepted hc' hc⟩ hn'

theorem extends_append_left (t n n' : String) : Extends (t ++ n) (t ++ n') ↔ Extends n n' := by
  simp [Extends]

/-! ## The sends of one conversation -/

inductive Sender
  | user (id : String)
  | agent (id : String)
  deriving DecidableEq

def Sender.name (conversationId : String) : Sender → String
  | .user id => "ws:" ++ id
  | .agent id => "bot:" ++ id ++ ":" ++ conversationId

def Sender.key (conversationId : String) : Sender → String → String
  | .user id, clientId => clientKey id clientId
  | .agent id, clientId => botClientKey id conversationId clientId

structure Message where
  sender : Sender
  idempotencyKey : Option String

/-- A send, with the random part of the key that a turn with `meta` gets in place of a
`clientId`. -/
structure Send where
  sender : Sender
  clientId : Option String
  metaKey : Option String := none

/-- The messages of a conversation and the sends that were answered as a duplicate. -/
structure State where
  messages : List Message := []
  duplicates : List (Send × Message) := []

/-- `persist` of a send: a stored message with the key is the answer, a `clientId` that is
none is refused. -/
def persist (conversationId : String) (s : State) (send : Send) : Option State :=
  if send.clientId.all isClientId then
    let key := send.clientId.map (send.sender.key conversationId)
    match key.bind fun k => s.messages.find? fun m => m.idempotencyKey = some k with
    | some existing => some {s with duplicates := s.duplicates ++ [(send, existing)]}
    | none =>
      let key := key.or (send.metaKey.map ("meta-" ++ ·))
      some {s with messages := s.messages ++ [⟨send.sender, key⟩]}
  else some s

theorem Sender.key_eq (conversationId : String) (p : Sender) (c : String) :
    p.key conversationId c = p.name conversationId ++ ":" ++ c := by
  cases p with
  | user id => rfl
  | agent id => rfl

theorem user_name_ne_agent (conversationId t t' s a : String) :
    (Sender.user s).name conversationId ++ t ≠ (Sender.agent a).name conversationId ++ t' := by
  intro h
  have hlist := congrArg String.toList h
  simp [Sender.name] at hlist

theorem Sender.name_inj (h : p.name conversationId = q.name conversationId) : p = q := by
  cases p with
  | user id =>
    cases q with
    | user id' => simpa [Sender.name] using h
    | agent id' => exact absurd (congrArg (· ++ "") h) (user_name_ne_agent _ _ _ _ _)
  | agent id =>
    cases q with
    | user id' => exact absurd (congrArg (· ++ "") h.symm) (user_name_ne_agent _ _ _ _ _)
    | agent id' =>
      have hlist := congrArg String.toList h
      have hid : id.toList = id'.toList := by simpa [Sender.name] using hlist
      rw [String.toList_inj.mp hid]

theorem meta_ne_key (conversationId t c : String) (p : Sender) :
    "meta-" ++ t ≠ p.key conversationId c := by
  intro h
  have hlist := congrArg String.toList h
  cases p with
  | user id => simp [Sender.key, clientKey] at hlist
  | agent id => simp [Sender.key, botClientKey] at hlist

/-- The key of a stored message is its sender's, with a `clientId`, or random. -/
def Keyed (conversationId : String) (m : Message) : Prop :=
  ∀ k, m.idempotencyKey = some k →
    (∃ t, k = "meta-" ++ t) ∨ ∃ c, isClientId c = true ∧ k = m.sender.key conversationId c

def Apart (conversationId : String) (senders : Set Sender) : Prop :=
  ∀ p ∈ senders, ∀ q ∈ senders, ¬ Extends (p.name conversationId) (q.name conversationId)

theorem Apart.sender_eq (h : Apart conversationId senders) (hp : p ∈ senders) (hq : q ∈ senders)
    {c c' : String} (hc : isClientId c = true) (hc' : isClientId c' = true)
    (heq : p.key conversationId c = q.key conversationId c') : p = q := by
  rw [Sender.key_eq, Sender.key_eq] at heq
  exact Sender.name_inj ((joined_inj_iff _ _).mpr ⟨h p hp q hq, h q hq p hp⟩ c c' hc hc' heq).1

/-- Every message is keyed by its own sender, and every duplicate was the sender's own. -/
structure OwnAnswers (conversationId : String) (senders : Set Sender) (s : State) : Prop where
  messages : ∀ m ∈ s.messages, m.sender ∈ senders ∧ Keyed conversationId m
  duplicates : ∀ d ∈ s.duplicates, d.2.sender = d.1.sender

theorem OwnAnswers.persist {s t : State} {send : Send} (hapart : Apart conversationId senders)
    (h : OwnAnswers conversationId senders s) (hsend : send.sender ∈ senders)
    (hstep : persist conversationId s send = some t) : OwnAnswers conversationId senders t := by
  simp only [ClientKeys.persist] at hstep
  split at hstep
  · rename_i hid
    split at hstep <;> cases hstep
    · rename_i existing hfound
      refine ⟨h.messages, forall_mem_snoc h.duplicates ?_⟩
      obtain ⟨k, hk, hfind⟩ := bind_eq_some_iff.mp hfound
      obtain ⟨c, hc, rfl⟩ := map_eq_some_iff.mp hk
      obtain ⟨hmem, hkeyed⟩ := h.messages existing (mem_of_find?_eq_some hfind)
      have hkey := find?_some hfind
      rcases hkeyed _ (of_decide_eq_true hkey) with ⟨t, ht⟩ | ⟨c', hc', heq⟩
      · exact absurd ht.symm (meta_ne_key _ _ _ _)
      · rw [hc] at hid
        exact (hapart.sender_eq hsend hmem hid hc' heq).symm
    · refine ⟨forall_mem_snoc h.messages ?_, h.duplicates⟩
      refine ⟨hsend, fun k hk => ?_⟩
      cases hc : send.clientId with
      | none =>
        simp only [hc, map_none, none_or, map_eq_some_iff] at hk
        obtain ⟨t, -, rfl⟩ := hk
        exact .inl ⟨t, rfl⟩
      | some c =>
        simp only [hc, map_some, some_or, Option.some.injEq] at hk
        rw [hc] at hid
        exact .inr ⟨c, hid, hk.symm⟩
  · cases hstep
    exact h

/-- Two senders whose keys overlap: the second is answered with the message of the first. -/
theorem cross_answer (h : Extends (p.name conversationId) (q.name conversationId)) :
    ∃ c t, run (persist conversationId) {} [⟨p, some c, none⟩, ⟨q, some "a", none⟩] = some t ∧
      ∃ d ∈ t.duplicates, d.2.sender = p ∧ d.1.sender = q := by
  obtain ⟨c, hc, ha, heq⟩ := h.collision
  rw [← Sender.key_eq, ← Sender.key_eq] at heq
  refine ⟨c, ⟨[⟨p, some (p.key conversationId c)⟩],
    [(⟨q, some "a", none⟩, ⟨p, some (p.key conversationId c)⟩)]⟩, ?_, _,
    mem_singleton_self _, rfl, rfl⟩
  simp [run, persist, hc, ha, heq]

/-- Keys tell the senders of a conversation apart exactly if no sender is another one, a colon
and further characters of a `clientId`; the keys of users and agents are always different.
Where keys tell the senders apart, and only there, no send is ever answered as the duplicate
of another sender's message. -/
theorem client_keys_apart_iff (conversationId : String) :
    (∀ s s', (∀ c c', isClientId c = true → isClientId c' = true →
      clientKey s c = clientKey s' c' → s = s' ∧ c = c') ↔ ¬ Extends s s' ∧ ¬ Extends s' s) ∧
    (∀ s c a c', clientKey s c ≠ botClientKey a conversationId c') ∧
    ∀ senders : Set Sender,
      (∀ sends t, (∀ send ∈ sends, send.sender ∈ senders) → run (persist conversationId) {} sends = some t →
        ∀ d ∈ t.duplicates, d.2.sender = d.1.sender) ↔ Apart conversationId senders := by
  refine ⟨fun s s' => ?_, fun s c a c' h => ?_, fun senders => ⟨fun h => ?_, fun hapart => ?_⟩⟩
  · have hiff := joined_inj_iff ("ws:" ++ s) ("ws:" ++ s')
    rw [extends_append_left, extends_append_left] at hiff
    rw [← hiff]
    simp only [clientKey, String.append_right_inj]
  · exact user_name_ne_agent conversationId (":" ++ c) (":" ++ c') s a (by
      simpa [Sender.name, clientKey, botClientKey, String.append_assoc] using h)
  · intro p hp q hq hext
    obtain ⟨c, t, hrun, d, hd, hsender, hasked⟩ := cross_answer hext
    have hown := h _ t (by simp [hp, hq]) hrun d hd
    rw [hsender, hasked] at hown
    exact hext.ne (congrArg (Sender.name conversationId) hown)
  · intro sends t hsends hrun
    have hstart : OwnAnswers conversationId senders {} := ⟨by simp, by simp⟩
    exact (run_invariant_forall (fun hs hsend => hs.persist hapart hsend) hstart hsends
      hrun).duplicates

theorem client_keys_apart_iff_pair :
    isClientId "1" = true ∧ clientKey "ann" "1" ≠ clientKey "bob" "1" := by
  have hann : ¬ Extends "ann" "bob" := by simp [Extends]
  have hbob : ¬ Extends "bob" "ann" := by simp [Extends]
  have hid : isClientId "1" = true := by decide
  refine ⟨hid, fun h => ?_⟩
  have hsame := ((client_keys_apart_iff "c1").1 "ann" "bob").mpr ⟨hann, hbob⟩ "1" "1" hid hid h
  exact absurd hsame.1 (by decide)

/-- The user `a:b` sends `c` and is told that the message of the user `a` is its duplicate. -/
theorem user_answered_with_other_users_message :
    isClientId "b:c" = true ∧ isClientId "c" = true ∧
      clientKey "a" "b:c" = clientKey "a:b" "c" ∧
      ∃ t, run (persist "c1") {}
        [⟨.user "a", some "b:c", none⟩, ⟨.user "a:b", some "c", none⟩] = some t ∧
        ∃ d ∈ t.duplicates, d.2.sender = .user "a" ∧ d.1.sender = .user "a:b" := by
  have hkey : clientKey "a" "b:c" = clientKey "a:b" "c" := by decide
  refine ⟨by decide, by decide, hkey, ⟨[⟨.user "a", some (clientKey "a" "b:c")⟩],
    [(⟨.user "a:b", some "c", none⟩, ⟨.user "a", some (clientKey "a" "b:c")⟩)]⟩, ?_, _,
    mem_singleton_self _, rfl, rfl⟩
  have hfirst : isClientId "b:c" = true := by decide
  have hsecond : isClientId "c" = true := by decide
  simp [run, persist, Sender.key, hfirst, hsecond, hkey]

end Converger.ClientKeys
