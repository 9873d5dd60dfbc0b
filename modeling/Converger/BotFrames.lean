import Converger.ActivityFrames

/-!
# Frames of a bot

A frame that a bot sends over a channel session is stored in one of two forms: its body as the
payload of a typed message, or the text and the attachments of a plain one in their own columns.
The first form gives every field back; the second one does where the casts of the columns change
nothing.
-/
namespace Converger.BotFrames
open ActivityChangeset ActivityFrames ClientMessages JsonValues KeyedLists MessagePayload Option Text

/-- `content_params/1` of a channel session. -/
def contentParams (type : String) (frame : Fields) : ClientParams :=
  match fromFrame type frame true, get frame "data" with
  | none, .obj data =>
    { text := get data "text", attachments := orElse (get data "attachments") (.arr [])}
  | none, _ => {text := .null}
  | some payload, _ => {messageType := .str type, payload := .obj payload}

def botParams (type : String) (frame : Fields) : Except SendError ClientParams :=
  match orElse (get frame "metadata") (.obj []) with
  | .obj metadata =>
    if type ∉ native ∧ isObject (get frame "data") = false then
      .error (badRequest ("a " ++ type ++ " frame needs a data object") none)
    else .ok {contentParams type frame with
      metadata := .obj metadata, replyToId := replyToOf frame}
  | _ => .error (badRequest "metadata must be an object" none)

/-! ### Attachments -/

/-- `Ecto.Type.cast(:integer, _)`. -/
def castInteger : Value → Option Value
  | .int n => some (.int n)
  | .str s =>
    match integerParse s.toList with
    | some (n, []) => some (.int n)
    | _ => none
  | _ => none

def wireKeys : List String :=
  ["contentType", "contentUrl", "name", "size", "thumbnailUrl", "channelData", "content"]

/-- A field of an attachment after its cast; `none` is `nil`. -/
def wireField (key : String) (v : Value) : Option Value :=
  match key with
  | "contentType" | "contentUrl" | "name" | "thumbnailUrl" => (castString v).map .str
  | "size" => castInteger v
  | "channelData" => (castMap v).map .obj
  | "content" =>
    match v with
    | .obj content => some (.obj content)
    | .arr content => some (.arr content)
    | _ => none
  | _ => none

/-- `ActivityAttachment.normalize/1` of an attachment that is valid: fields that are unknown or `nil`
are dropped. -/
def normalize : Value → Value
  | .obj attrs =>
    .obj (wireKeys.filterMap fun key => ((attrs.lookup key).bind (wireField key)).map (key, ·))
  | v => v

/-- The activity of the parameters; `id`, `seq` and `insertedAt` are given to the row. -/
def storedActivity (cfg : ClientMessages.Config) (system : SystemAttrs) (id : String)
    (seq insertedAt : ℕ) (params : ClientParams) : Except (List FieldError) Canonical :=
  (createClientActivity cfg params system).map fun stored =>
    { id, seq, insertedAt
      type := stored.changes.type
      sender := stored.changes.sender
      text := stored.changes.text
      attachments := (castArray params.attachments).map normalize
      metadata := stored.metadata
      idempotencyKey := stored.changes.idempotencyKey
      replyToId := castString params.replyToId
      messageType := stored.messageType
      payload := stored.payload }

/-- Equal as JSON: the order of the fields of an object does not count. -/
inductive Same : Value → Value → Prop
  | refl (v : Value) : Same v v
  | arr {xs ys : List Value} (h : List.Forall₂ Same xs ys) : Same (.arr xs) (.arr ys)
  | obj {a b : Fields} (hkeys : ∀ key, a.lookup key = none ↔ b.lookup key = none)
    (hvalues : ∀ key x y, a.lookup key = some x → b.lookup key = some y → Same x y) :
    Same (.obj a) (.obj b)

/-- An attachment in the form that is stored: every field is known and its cast changes nothing. -/
def Wire : Value → Prop
  | .obj attrs => ∀ key v, attrs.lookup key = some v → wireField key v = some v
  -- the changeset refuses what is no object
  | _ => True

/-- The columns keep the data of a plain frame: the text is empty or not blank, and the attachments,
if there are any, are a list in wire form that is not empty. -/
structure Kept (data : Fields) : Prop where
  text : ∀ s, data.lookup "text" = some (.str s) → s = "" ∨ blank s = false
  attachments : ∀ v, data.lookup "attachments" = some v →
    ∃ items ≠ [], v = .arr items ∧ ∀ item ∈ items, Wire item

theorem Same.eq_of_str {s : String} {v : Value} (h : Same (.str s) v) : v = .str s := by
  cases h
  rfl

theorem eq_of_wireField {key : String} {v w : Value} (h : wireField key v = some w) (hsame : Same v w) :
    w = v := by
  cases hsame with
  | refl => rfl
  | arr hitems =>
    unfold wireField at h
    split at h <;> simp_all [castString, castMap, castInteger]
  | obj hkeys hvalues =>
    unfold wireField at h
    split at h <;> simp_all [castString, castMap, castInteger]

theorem wireField_eq_none {key : String} (h : key ∉ wireKeys) (v : Value) : wireField key v = none := by
  simp only [wireKeys, List.mem_cons, List.not_mem_nil, or_false, not_or] at h
  unfold wireField
  split <;> simp_all

theorem lookup_normalize (attrs : Fields) (key : String) :
    (wireKeys.filterMap fun key => ((attrs.lookup key).bind (wireField key)).map (key, ·)).lookup key =
      (attrs.lookup key).bind (wireField key) := by
  have hlookup : ∀ keys : List String, keys.Nodup →
      (keys.filterMap fun key => ((attrs.lookup key).bind (wireField key)).map (key, ·)).lookup key =
        if key ∈ keys then (attrs.lookup key).bind (wireField key) else none := by
    intro keys hkeys
    induction keys with
    | nil => rfl
    | cons first rest ih =>
      obtain ⟨hfirst, hrest⟩ := List.nodup_cons.mp hkeys
      cases hvalue : (attrs.lookup first).bind (wireField first) with
      | none =>
        rw [List.filterMap_cons_none (by rw [hvalue]; rfl), ih hrest]
        by_cases heq : key = first
        · subst heq
          rw [if_neg hfirst, if_pos List.mem_cons_self, hvalue]
        · simp [heq]
      | some v =>
        rw [List.filterMap_cons_some (b := (first, v)) (by rw [hvalue]; rfl), List.lookup_cons]
        by_cases heq : key = first
        · subst heq
          simp [hvalue]
        · rw [beq_eq_false_iff_ne.mpr heq, ih hrest]
          simp [heq]
  rw [hlookup wireKeys (by decide)]
  split
  · rfl
  · rename_i hkey
    cases attrs.lookup key with
    | none => rfl
    | some v => rw [Option.bind_some, wireField_eq_none hkey]

theorem same_obj_iff {fields others : Fields} : Same (.obj fields) (.obj others) ↔
    (∀ key, fields.lookup key = none ↔ others.lookup key = none) ∧
      ∀ key x y, fields.lookup key = some x → others.lookup key = some y → Same x y := by
  constructor
  · intro h
    cases h with
    | refl => exact ⟨fun _ => Iff.rfl, fun key x y hx hy =>
        Option.some.inj (hx.symm.trans hy) ▸ .refl x⟩
    | obj hkeys hvalues => exact ⟨hkeys, hvalues⟩
  · rintro ⟨hkeys, hvalues⟩
    exact .obj hkeys hvalues

theorem same_normalize_iff {item : Value} : Same item (normalize item) ↔ Wire item := by
  cases item with
  | obj attrs =>
    simp only [normalize, Wire]
    constructor
    · intro hsame key v hv
      obtain ⟨hkeys, hvalues⟩ := same_obj_iff.mp hsame
      have hlookup := lookup_normalize attrs key
      rw [hv, Option.bind_some] at hlookup
      cases hw : wireField key v with
      | none =>
        rw [hw] at hlookup
        cases hv.symm.trans ((hkeys key).mpr hlookup)
      | some w =>
        rw [hw] at hlookup
        rw [eq_of_wireField hw (hvalues key v w hv hlookup)]
    · intro hwire
      have hlookup : ∀ key, attrs.lookup key = (attrs.lookup key).bind (wireField key) := by
        intro key
        cases hv : attrs.lookup key with
        | none => rfl
        | some v => exact (hwire key v hv).symm
      refine .obj (fun key => ?_) fun key x y hx hy => ?_
      · rw [lookup_normalize, ← hlookup]
      · rw [lookup_normalize, ← hlookup, hx] at hy
        exact Option.some.inj hy ▸ .refl x
  | null | bool b | int n | float q | str s | arr items => exact iff_of_true (.refl _) trivial

theorem same_items_iff {items : List Value} :
    Same (.arr items) (.arr (items.map normalize)) ↔ ∀ item ∈ items, Wire item := by
  constructor
  · intro h item hitem
    have hall : List.Forall₂ Same items (items.map normalize) := by
      generalize items.map normalize = others at h
      cases h with
      | refl => exact List.forall₂_same.mpr fun v _ => .refl v
      | arr h => exact h
    rw [List.forall₂_map_right_iff, List.forall₂_same] at hall
    exact same_normalize_iff.mp (hall item hitem)
  · intro h
    refine .arr (List.forall₂_map_right_iff.mpr (List.forall₂_same.mpr fun item hitem => ?_))
    exact same_normalize_iff.mpr (h item hitem)

variable {columns : Columns} {r : Role} {name : String}

section
variable {cfg : ClientMessages.Config} {system : SystemAttrs}
  {id type : String} {seq insertedAt : ℕ} {params : ClientParams} {c : Canonical}
  {frame payload data : Fields}

theorem of_botParams (h : botParams type frame = .ok params) :
    ∃ metadata replyToId, params = {contentParams type frame with metadata, replyToId} := by
  unfold botParams at h
  split at h
  · split_ifs at h
    cases h
    exact ⟨_, _, rfl⟩
  · cases h

theorem of_storedActivity (h : storedActivity cfg system id seq insertedAt params = .ok c)
    (htype : params.type = .str "message") :
    c.type = .message ∧ c.text = (castString params.text).bind castText ∧
      c.attachments = (castArray params.attachments).map normalize ∧
      c.messageType = castString params.messageType ∧ c.payload = castMap params.payload ∧
      (c.payload.isSome → c.messageType.isSome) := by
  unfold storedActivity createClientActivity at h
  cases hchangeset : changeset cfg.maxTextBytes (attrsOf cfg params system) false with
  | error errors =>
    rw [hchangeset] at h
    cases h
  | ok changes =>
    rw [hchangeset] at h
    cases h
    obtain ⟨hname, -, htext, -⟩ := content_of_changeset hchangeset
    have hcontent := contentErrors_of_changeset hchangeset
    simp only [attrsOf, htype] at hname
    refine ⟨(some.inj hname).symm, htext, rfl, rfl, rfl, ?_⟩
    intro hpayload
    have herrors := (List.append_eq_nil_iff.mp hcontent).2
    unfold messagePayloadErrors at herrors
    have hpresence := (List.append_eq_nil_iff.mp herrors).2
    obtain ⟨body, hbody⟩ := isSome_iff_exists.mp hpayload
    cases hcast : castString params.messageType with
    | some name => rfl
    | none =>
      rw [hcast, show castMap params.payload = some body from hbody] at hpresence
      cases hpresence

theorem lookup_typedMessage_body (hnative : type ∉ native) (hname : name ∉ envelope) :
    (typedMessage columns r type payload).lookup name =
      if name = "id" then some ((payload.lookup name).getD (.str columns.id))
      else payload.lookup name := by
  simp only [envelope, List.mem_cons, not_or] at hname
  simp [typedMessage, hnative, putEnvelope, toFrame, lookup_putMaybe, lookup_put, lookup_putNew,
    lookup_merge, lookup_base, hname]

theorem lookup_type_typedMessage (hnative : type ∉ native) :
    (typedMessage columns r type payload).lookup "type" = some (.str type) := by
  simp [typedMessage, hnative, putEnvelope, toFrame, lookup_putMaybe, lookup_put, lookup_putNew,
    lookup_merge, lookup_base]

theorem lookup_plainMessage (hname : name = "type" ∨ name ∉ envelope) :
    (putEnvelope columns r
        (merge (base columns r) [("type", .str "text"), ("data", .obj data)])).lookup name =
      if name = "type" then some (.str "text") else if name = "data" then some (.obj data)
      else if name = "id" then some (.str columns.id) else none := by
  simp only [envelope, List.mem_cons, not_or] at hname
  simp only [putEnvelope, lookup_putMaybe, lookup_put, lookup_merge, base, List.lookup_cons,
    List.lookup_nil, beq_eq_decide]
  grind

theorem lookup_textData (columns : Columns) (key : String) : (textData columns).lookup key =
    if key = "text" then some (.str (columns.text.getD ""))
    else if key = "attachments" ∧ columns.attachments ≠ [] then some (.arr columns.attachments)
    else none := by
  unfold textData
  by_cases hempty : columns.attachments = []
  · by_cases hkey : key = "text" <;> simp [hempty, hkey, List.lookup_cons, beq_eq_decide]
  · by_cases hkey : key = "text"
    · simp [hempty, hkey]
    · by_cases hlist : key = "attachments" <;>
        simp [hempty, hkey, hlist, List.lookup_cons, beq_eq_decide]

theorem of_isPlainData (h : isPlainData (.obj data) = true) :
    (∃ s, data.lookup "text" = some (.str s)) ∧
      ∀ key, key ≠ "text" → key ≠ "attachments" → data.lookup key = none := by
  obtain ⟨hkeys, hstring⟩ := (Bool.and_eq_true _ _).mp h
  obtain ⟨v, hv, hstr⟩ := (any_eq_true _ _).mp hstring
  refine ⟨?_, fun key htext hattachments => ?_⟩
  · cases v with
    | str s => exact ⟨s, hv⟩
    | _ => cases hstr
  · by_contra hsome
    obtain ⟨w, hw⟩ := ne_none_iff_exists'.mp hsome
    simpa [htext, hattachments] using List.all_eq_true.mp hkeys _ (mem_of_lookup hw)

/-- The data of a plain frame is rendered as it was received exactly if the columns keep it. -/
theorem same_textData_iff (hplain : isPlainData (.obj data) = true)
    (htext : columns.text = (castString (get data "text")).bind castText)
    (hattachments : columns.attachments =
      (castArray (orElse (get data "attachments") (.arr []))).map normalize) :
    Same (.obj data) (.obj (textData columns)) ↔ Kept data := by
  obtain ⟨⟨s, hv⟩, hother⟩ := of_isPlainData hplain
  have hshown : columns.text.getD "" = if blank s then "" else s := by
    rw [htext, ClientMessages.get, hv]
    cases hblank : blank s <;> simp [castString, castText, hblank]
  rw [same_obj_iff]
  constructor
  · rintro ⟨hnone, hvalues⟩
    refine ⟨fun s' hs' => ?_, fun v hlookup => ?_⟩
    · have htextSame := hvalues "text" _ _ hs' (by rw [lookup_textData, if_pos rfl])
      have heq := htextSame.eq_of_str
      rw [hshown] at heq
      obtain rfl : s = s' := by simpa [hv] using hs'
      cases hblank : blank s with
      | false => exact .inr rfl
      | true =>
        rw [hblank] at heq
        exact .inl (Value.str.inj heq).symm
    · have hshownList := mt (hnone "attachments").mpr (by rw [hlookup]; simp)
      rw [lookup_textData, if_neg (by decide)] at hshownList
      have hne : columns.attachments ≠ [] := by
        intro hempty
        simp [hempty] at hshownList
      have hlist := hvalues "attachments" v _ hlookup
        (by rw [lookup_textData, if_neg (by decide), if_pos ⟨rfl, hne⟩])
      rw [hattachments, ClientMessages.get, hlookup, getD_some] at hlist hne
      cases v with
      | arr items => exact ⟨items, by simpa [orElse, castArray] using hne, rfl, same_items_iff.mp hlist⟩
      | bool b => cases b <;> exact absurd rfl hne
      | null | int n | float q | str s | obj fields => exact absurd rfl hne
  · rintro ⟨hkept, hlist⟩
    have hdata : ∀ key, (data.lookup key = none ↔ (textData columns).lookup key = none) ∧
        ∀ x y, data.lookup key = some x → (textData columns).lookup key = some y → Same x y := by
      intro key
      rw [lookup_textData]
      by_cases hkey : key = "text"
      · subst hkey
        rw [if_pos rfl, hv, hshown]
        refine ⟨by simp, fun x y hx hy => ?_⟩
        cases hx
        cases hy
        rcases hkept s hv with rfl | hblank
        · exact .refl _
        · rw [hblank]
          exact .refl _
      · rw [if_neg hkey]
        by_cases hattach : key = "attachments"
        · subst hattach
          cases hlookup : data.lookup "attachments" with
          | none =>
            have hempty : columns.attachments = [] := by
              simp [hattachments, ClientMessages.get, hlookup, orElse, castArray]
            simp [hempty]
          | some v =>
            obtain ⟨items, hne, rfl, hwire⟩ := hlist v hlookup
            have hitems : columns.attachments = items.map normalize := by
              simp [hattachments, ClientMessages.get, hlookup, orElse, castArray]
            rw [hitems, if_pos ⟨rfl, by simpa using hne⟩]
            refine ⟨by simp, fun x y hx hy => ?_⟩
            cases hx
            cases hy
            exact same_items_iff.mpr hwire
        · rw [if_neg fun h => hattach h.1, hother key hkey hattach]
          simp
    exact ⟨fun key => (hdata key).1, fun key => (hdata key).2⟩

theorem lookup_bodyOf (hnative : type ∉ native) (hname : name ∉ envelope) :
    (bodyOf type frame true).lookup name = frame.lookup name := by
  rw [bodyOf, if_neg hnative, if_pos rfl, lookup_drop, if_neg hname]

/-- A frame without a payload is a text whose data is plain, and has nothing else of the bot's. -/
theorem of_fromFrame_eq_none (hnative : type ∉ native) (h : fromFrame type frame true = none) :
    type = "text" ∧ (∀ n ∉ envelope, n ≠ "data" → frame.lookup n = none) ∧
      ∃ data, frame.lookup "data" = some (.obj data) ∧ isPlainData (.obj data) = true := by
  have hplain : isPlain type (bodyOf type frame true) = true := by
    by_contra hnot
    rw [fromFrame, if_neg hnot] at h
    cases h
  simp only [isPlain, Bool.and_eq_true, decide_eq_true_eq] at hplain
  obtain ⟨⟨htype, hkeys⟩, hdata⟩ := hplain
  obtain ⟨v, hv, hplainData⟩ := (any_eq_true _ _).mp hdata
  rw [lookup_bodyOf hnative (by decide)] at hv
  refine ⟨htype, fun n hn hne => ?_, ?_⟩
  · rw [← lookup_bodyOf hnative hn]
    by_contra hsome
    obtain ⟨w, hw⟩ := ne_none_iff_exists'.mp hsome
    have hmem := List.mem_map_of_mem (f := Prod.fst) (mem_of_lookup hw)
    rw [hkeys, List.mem_singleton] at hmem
    exact hne hmem
  · cases v with
    | obj data => exact ⟨data, hv, hplainData⟩
    | _ => cases hplainData

/-- Every field of a bot's frame that is not the server's is rendered as it was received, and no
other field is, but an id, exactly if the frame is stored as a typed message or the columns of a
plain one keep its data. -/
theorem rendered_bot_frame_iff (cfg : ClientMessages.Config) (system : SystemAttrs) (id user : String)
    (seq insertedAt : ℕ) (type : String) (hnative : type ∉ native) (frame : Fields)
    (hframe : frame.lookup "type" = some (.str type)) (params : ClientParams)
    (hparams : botParams type frame = .ok params) (c : Canonical)
    (hstored : storedActivity cfg system id seq insertedAt params = .ok c) (live : Bool) :
    (∃ rendered, activity c (.user user) live = some rendered ∧
      rendered.lookup "type" = frame.lookup "type" ∧
      (∀ name ∉ envelope, ∀ v, frame.lookup name = some v →
        ∃ w, rendered.lookup name = some w ∧ Same v w) ∧
      ∀ name ∉ envelope, frame.lookup name = none → name ≠ "id" → rendered.lookup name = none) ↔
    (fromFrame type frame true = none →
      ∀ data, frame.lookup "data" = some (.obj data) → Kept data) := by
  obtain ⟨metadata, replyToId, rfl⟩ := of_botParams hparams
  have hcontent : (contentParams type frame).type = .str "message" := by
    unfold contentParams
    split <;> rfl
  obtain ⟨hmessage, htext, hattachments, hmessageType, hpayload, hboth⟩ :=
    of_storedActivity hstored hcontent
  have hrendered : activity c (.user user) live =
      some (typed c (role c.toColumns (.user user)) live) := rfl
  cases hfrom : fromFrame type frame true with
  | some payload =>
    refine iff_of_true ⟨_, hrendered, ?_⟩ nofun
    obtain ⟨-, hpayload'⟩ := ite_none_left_eq_some.mp hfrom
    simp only [contentParams, hfrom, castMap] at hmessageType hpayload
    obtain ⟨name, hname⟩ := isSome_iff_exists.mp (hboth (by rw [hpayload]; rfl))
    obtain rfl : name = type := by
      have hcast := hmessageType.symm.trans hname
      have heq := (castString_eq_some.mp hcast).1
      cases heq
      rfl
    obtain ⟨columns, _⟩ := c
    cases hpayload
    rw [typed_eq hmessage hname]
    cases hpayload'
    refine ⟨(lookup_type_typedMessage hnative).trans hframe.symm, ?_, ?_⟩
    · intro n hn v hv
      refine ⟨v, ?_, .refl v⟩
      rw [lookup_typedMessage_body hnative hn, lookup_bodyOf hnative hn, hv, getD_some, ite_self]
    · intro n hn hnone hid
      rw [lookup_typedMessage_body hnative hn, if_neg hid, lookup_bodyOf hnative hn, hnone]
  | none =>
    obtain ⟨rfl, honly, data, hv, hplainData⟩ := of_fromFrame_eq_none hnative hfrom
    have hget : ClientMessages.get frame "data" = .obj data := by rw [ClientMessages.get, hv]; rfl
    simp only [contentParams, hfrom, hget] at htext hattachments hmessageType
    have htyped : typed c (role c.toColumns (.user user)) live =
        putEnvelope c.toColumns (role c.toColumns (.user user))
          (merge (base c.toColumns (role c.toColumns (.user user)))
            [("type", .str "text"), ("data", .obj (textData c.toColumns))]) := by
      unfold typed
      simp only [hmessage, hmessageType, castString]
    have hkept : ((none : Option Fields) = none →
        ∀ data', frame.lookup "data" = some (.obj data') → Kept data') ↔
        Kept data := by
      rw [hv]
      simp
    rw [hkept, ← same_textData_iff hplainData htext hattachments, hrendered, htyped]
    constructor
    · rintro ⟨rendered, heq, -, hfields, -⟩
      cases heq
      obtain ⟨w, hw, hsame⟩ := hfields "data" (by decide) _ hv
      rw [lookup_plainMessage (.inr (by decide))] at hw
      exact Option.some.inj hw ▸ hsame
    · intro hsame
      refine ⟨_, rfl, (lookup_plainMessage (.inl rfl)).trans hframe.symm, ?_, ?_⟩
      · intro n hn v hv'
        by_cases hdata : n = "data"
        · subst hdata
          cases hv.symm.trans hv'
          exact ⟨_, lookup_plainMessage (.inr hn), hsame⟩
        · rw [honly n hn hdata] at hv'
          cases hv'
      · intro n hn hnone hid
        have hne : n ≠ "data" := by
          rintro rfl
          rw [hv] at hnone
          cases hnone
        rw [lookup_plainMessage (.inr hn), if_neg (by rintro rfl; exact hn (by decide)), if_neg hne,
          if_neg hid]

end

def bot : SystemAttrs := { sender := "bot", tenantId := 0, conversationId := 0}

def hello (attachments : List (String × Value)) : Fields :=
  [("type", .str "text"), ("data", .obj (("text", .str "hello") :: attachments))]

def Renders (frame rendered : Fields) : Prop :=
  ∃ params c, botParams "text" frame = .ok params ∧
    storedActivity roomy bot "m" 1 0 params = .ok c ∧ activity c (.user "u") true = some rendered

def picture : Value := .obj [("name", .str "a"), ("contentType", .str "image/png")]

theorem rendered_bot_frame_iff_hello :
    ∃ rendered, Renders (hello [("attachments", .arr [picture])]) rendered ∧
      rendered.lookup "type" = some (.str "text") := by
  have hpicture : Wire picture := by
    intro key v hv
    by_cases hname : key = "name"
    · subst hname
      cases hv
      rfl
    · by_cases htype : key = "contentType"
      · subst htype
        cases hv
        rfl
      · simp [List.lookup_cons, beq_eq_decide, hname, htype] at hv
  have hkept : Kept [("text", .str "hello"), ("attachments", .arr [picture])] := by
    refine ⟨fun s hs => ?_, fun v hv => ?_⟩
    · cases hs
      exact .inr (by decide)
    · cases hv
      exact ⟨_, by simp, rfl, by simpa using hpicture⟩
  obtain ⟨rendered, hrendered, htype, -⟩ := (rendered_bot_frame_iff roomy bot "m" "u" 1 0 "text"
    (by decide) (hello [("attachments", .arr [picture])]) rfl _ rfl _ rfl true).mpr
    fun _ data hdata => by
      cases hdata
      exact hkept
  exact ⟨rendered, ⟨_, _, rfl, rfl, hrendered⟩, htype⟩

/-- A list of attachments that is empty is not rendered, and a text of blanks is rendered empty. -/
theorem empty_attachments_lost :
    (∃ rendered, Renders (hello [("attachments", .arr [])]) rendered ∧
      rendered.lookup "data" = some (.obj [("text", .str "hello")])) ∧
    ∃ rendered, Renders [("type", .str "text"), ("data", .obj [("text", .str "  ")])] rendered ∧
      rendered.lookup "data" = some (.obj [("text", .str "")]) :=
  ⟨⟨_, ⟨_, _, rfl, rfl, rfl⟩, rfl⟩, ⟨_, ⟨_, _, rfl, rfl, rfl⟩, rfl⟩⟩

end Converger.BotFrames
