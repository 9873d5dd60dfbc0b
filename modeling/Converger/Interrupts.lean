import Converger.ClientMessages

/-!
# Open interrupts

Whether an interrupt is open is read off the transcript in three ways: by its id, for one stored
interrupt, and in the list that is announced to a client that connects. They differ on an id that is
not resolved and has no interrupt that is not deleted.
-/
namespace Converger.ClientMessages
open JsonSchema JsonValues KeyedLists MessagePayload ProtocolSchemas List Option

section
variable (asText : Value → Option String) (rows : List Row)

/-- `interrupt_open?/1`. -/
def activityOpen (row : Row) : Bool :=
  match row.messageType, row.payload.lookup "id" with
  | some "interrupt", some (.str id) => !resolvedAfter asText rows (some id) row.seq
  | _, _ => false

def latest (id : String) : Option Row :=
  ((ofType "interrupt" rows).filter fun row => idText asText row = some id).getLast?

/-- The interrupts that `open_interrupts/1` reads. -/
def unresolved : List Row :=
  (ofType "interrupt" rows).filter fun row =>
    !row.deleted && !resolvedAfter asText rows (idText asText row) row.seq

def Announced (id : String) : Prop :=
  ∃ view ∈ openInterrupts asText rows, get view "id" = .str id

end

section
variable {α : Type} {r : α → α → Bool} {xs kept : List α} {x : α}

theorem mem_of_mem_eraseDupsBy (h : x ∈ List.eraseDupsBy.loop r xs kept) : x ∈ xs ∨ x ∈ kept := by
  induction xs generalizing kept with
  | nil => exact .inr (mem_reverse.mp h)
  | cons y ys ih =>
    rw [List.eraseDupsBy.loop] at h
    split at h
    · exact (ih h).imp_left (mem_cons_of_mem y)
    · have hcases := ih h
      grind

theorem mem_eraseDupsBy_of_mem (h : x ∈ kept) : x ∈ List.eraseDupsBy.loop r xs kept := by
  induction xs generalizing kept with
  | nil => exact mem_reverse.mpr h
  | cons y ys ih =>
    rw [List.eraseDupsBy.loop]
    split
    · exact ih h
    · exact ih (mem_cons_of_mem y h)

theorem exists_mem_eraseDupsBy (hrefl : r x x = true) (h : x ∈ xs) :
    ∃ y ∈ List.eraseDupsBy.loop r xs kept, r x y = true := by
  induction xs generalizing kept with
  | nil => cases h
  | cons y ys ih =>
    rw [List.eraseDupsBy.loop]
    rcases mem_cons.mp h with rfl | hys
    · split
      · rename_i hany
        obtain ⟨z, hz, hxz⟩ := List.any_eq_true.mp hany
        exact ⟨z, mem_eraseDupsBy_of_mem hz, hxz⟩
      · exact ⟨x, mem_eraseDupsBy_of_mem mem_cons_self, hrefl⟩
    · split
      · exact ih hys
      · exact ih hys

end

section
variable {asText : Value → Option String} {rows : List Row} {row : Row} {id : String}
  {payload : Fields}

/-- An id is announced if an interrupt with it is read and has the form of one. -/
theorem announced_iff : Announced asText rows id ↔
    ∃ row ∈ unresolved asText rows, isPending row.payload = true ∧ get row.payload "id" = .str id := by
  have hview : ∀ payload : Fields,
      get (payload.filter (·.1 ∈ ["id", "data"])) "id" = get payload "id" := by
    intro payload
    rw [get, lookup_filter_key _ _ (by decide), get]
  constructor
  · rintro ⟨view, hmem, hid⟩
    obtain ⟨payload, hpayload, rfl⟩ := List.mem_map.mp hmem
    rw [hview] at hid
    rcases mem_of_mem_eraseDupsBy (mem_reverse.mp hpayload) with hread | hnil
    · obtain ⟨hread, hform⟩ := mem_filter.mp (mem_reverse.mp hread)
      obtain ⟨row, hrow, rfl⟩ := List.mem_map.mp hread
      exact ⟨row, hrow, hform, hid⟩
    · cases hnil
  · rintro ⟨row, hrow, hform, hid⟩
    have hread := mem_reverse.mpr (mem_filter.mpr ⟨List.mem_map_of_mem hrow, hform⟩)
    obtain ⟨other, hkept, heq⟩ := exists_mem_eraseDupsBy
      (r := fun p q => (get p "id").same (get q "id")) (by simp [hid, Value.same]) hread
    refine ⟨_, List.mem_map.mpr ⟨other, mem_reverse.mpr hkept, rfl⟩, ?_⟩
    rw [hview]
    simp only [hid] at heq
    generalize get other "id" = value at heq ⊢
    cases value with
    | str s => rw [of_decide_eq_true heq]
    | _ => cases heq

/-- The payload of a valid interrupt has a text as its id and an object as its data. -/
theorem isPending_of_validate (h : validate "interrupt" payload = true) :
    isPending payload = true := by
  have hlookup : ∀ name ∈ ["id", "data"],
      (validatedFrame "interrupt" payload).lookup name = payload.lookup name := by
    intro name hname
    have hne : name ≠ "type" ∧ name ≠ "seq" := by
      revert hname
      simp only [mem_cons, not_mem_nil, or_false]
      rintro (rfl | rfl) <;> decide
    rw [validatedFrame, lookup_put, if_neg hne.1, if_pos (by decide), lookup_put, if_neg hne.2]
  have hframe : (object ["type", "seq", "id", "data"] [("type", const "interrupt"), ("seq", seq),
      ("id", opaqueId), ("data", interruptData)]).valid
      (.obj (validatedFrame "interrupt" payload)) = true := h
  obtain ⟨id, hid⟩ := exists_of_object hframe "id" (by decide)
  obtain ⟨data, hdata⟩ := exists_of_object hframe "data" (by decide)
  have hstring := Schema.valid_of_property (valid_property_of_object hframe (.tail _ (.tail _ (.head _)))) hid
  have hobject := Schema.valid_of_property
    (valid_property_of_object hframe (.tail _ (.tail _ (.tail _ (.head _))))) hdata
  obtain ⟨text, rfl⟩ := Schema.eq_str_of_type (Schema.valid_allOf.mp hstring _ mem_cons_self)
  obtain ⟨fields, rfl⟩ := Schema.eq_obj_of_type (Schema.valid_allOf.mp hobject _ mem_cons_self)
  rw [hlookup _ (by decide)] at hid hdata
  simp [isPending, get, hid, hdata, isString, isObject]

/-- The id of a stored interrupt is a text, so that its text is the id itself. -/
theorem idText_eq_iff (htext : ∀ s, asText (.str s) = some s) (hform : isPending row.payload = true) :
    idText asText row = some id ↔ row.payload.lookup "id" = some (.str id) := by
  rw [isPending, Bool.and_eq_true] at hform
  cases hlookup : row.payload.lookup "id" with
  | none => simp [idText, hlookup]
  | some value =>
    cases value with
    | str s => simp [idText, hlookup, htext]
    | _ => simp [get, hlookup, isString] at hform

theorem resolvedAfter_iff {seq : ℕ} : resolvedAfter asText rows (some id) seq = true ↔
    ∃ s ∈ ofType "interrupt_resolved" rows, idText asText s = some id ∧ seq < s.seq := by
  simp only [resolvedAfter, List.any_eq_true, isSome_some, Bool.and_true, Bool.and_eq_true,
    decide_eq_true_eq]
  exact exists_congr fun s => and_congr_right fun _ => and_comm

/-- An interrupt with the id is not deleted, and no resolution of the id comes after it. -/
def Kept (asText : Value → Option String) (rows : List Row) (id : String) : Prop :=
  ∃ r ∈ ofType "interrupt" rows, idText asText r = some id ∧ r.deleted = false ∧
    ∀ s ∈ ofType "interrupt_resolved" rows, idText asText s = some id → s.seq ≤ r.seq

/-- A resolution of the id comes after every interrupt with it. -/
def Resolved (asText : Value → Option String) (rows : List Row) (id : String) : Prop :=
  ∃ s ∈ ofType "interrupt_resolved" rows, idText asText s = some id ∧ 0 < s.seq ∧
    ∀ r ∈ ofType "interrupt" rows, idText asText r = some id → r.seq < s.seq

theorem not_resolved_of_kept (h : Kept asText rows id) : ¬ Resolved asText rows id := by
  obtain ⟨r, hr, hid, -, hlast⟩ := h
  rintro ⟨s, hs, hsid, -, hafter⟩
  exact absurd (hafter r hr hid) (hlast s hs hsid).not_gt

theorem announced_iff_kept (htext : ∀ s, asText (.str s) = some s)
    (hvalid : ∀ r ∈ ofType "interrupt" rows, validate "interrupt" r.payload = true) :
    Announced asText rows id ↔ Kept asText rows id := by
  have hform : ∀ r ∈ ofType "interrupt" rows, isPending r.payload = true :=
    fun r hr => isPending_of_validate (hvalid r hr)
  have hunresolved : ∀ r, idText asText r = some id →
      ((!r.deleted && !resolvedAfter asText rows (idText asText r) r.seq) = true ↔
        r.deleted = false ∧
          ∀ s ∈ ofType "interrupt_resolved" rows, idText asText s = some id → s.seq ≤ r.seq) := by
    intro r hid
    rw [hid, Bool.and_eq_true, Bool.not_eq_true', Bool.not_eq_true',
      Bool.eq_false_iff (b := resolvedAfter _ _ _ _),
      Ne, resolvedAfter_iff]
    simp only [not_exists, not_and, not_lt]
  rw [announced_iff]
  constructor
  · rintro ⟨r, hr, hpending, hget⟩
    obtain ⟨hmem, hopen⟩ := mem_filter.mp hr
    have hid : idText asText r = some id := by
      rw [idText_eq_iff htext hpending]
      cases hlookup : r.payload.lookup "id" <;> simp_all [get]
    exact ⟨r, hmem, hid, (hunresolved r hid).mp hopen⟩
  · rintro ⟨r, hmem, hid, hkept⟩
    refine ⟨r, mem_filter.mpr ⟨hmem, (hunresolved r hid).mpr hkept⟩, hform r hmem, ?_⟩
    rw [get, (idText_eq_iff htext (hform r hmem)).mp hid, getD_some]

/-- No interrupt with the id has a greater number than the latest one. -/
theorem le_latest (hsorted : rows.Pairwise fun r s => r.seq < s.seq) {other : Row}
    (hlatest : latest asText rows id = some row) (hmem : other ∈ ofType "interrupt" rows)
    (hid : idText asText other = some id) : other.seq ≤ row.seq := by
  obtain ⟨before, heq⟩ := getLast?_eq_some_iff.mp hlatest
  have hpair : ((ofType "interrupt" rows).filter fun r => idText asText r = some id).Pairwise
      fun r s => r.seq < s.seq :=
    (hsorted.filter fun r => r.messageType = some "interrupt").filter _
  have hin : other ∈ (ofType "interrupt" rows).filter fun r => idText asText r = some id :=
    mem_filter.mpr ⟨hmem, decide_eq_true hid⟩
  rw [heq, pairwise_append] at hpair
  rw [heq, mem_append, mem_singleton] at hin
  rcases hin with hin | rfl
  · exact (hpair.2.2 _ hin _ mem_cons_self).le
  · exact le_rfl

theorem interruptOpen_eq :
    interruptOpen asText rows id =
      !resolvedAfter asText rows (some id) (((latest asText rows id).map Row.seq).getD 0) :=
  rfl

theorem interruptOpen_iff (hsorted : rows.Pairwise fun r s => r.seq < s.seq) :
    interruptOpen asText rows id = true ↔ ¬ Resolved asText rows id := by
  rw [interruptOpen_eq, Bool.not_eq_true', Bool.eq_false_iff, Ne, resolvedAfter_iff, not_iff_not]
  refine exists_congr fun s => and_congr_right fun _ => and_congr_right fun _ => ?_
  cases hlatest : latest asText rows id with
  | none =>
    have hnone : ∀ r ∈ ofType "interrupt" rows, idText asText r ≠ some id := by
      simpa [latest, getLast?_eq_none_iff, filter_eq_nil_iff] using hlatest
    exact ⟨fun h => ⟨h, fun r hr hid => absurd hid (hnone r hr)⟩, fun h => h.1⟩
  | some row =>
    obtain ⟨hstored, hid⟩ := mem_filter.mp (mem_of_getLast? hlatest)
    constructor
    · intro (h : row.seq < s.seq)
      exact ⟨by omega, fun r hr hrid => (le_latest hsorted hlatest hr hrid).trans_lt h⟩
    · exact fun h => h.2 row hstored (of_decide_eq_true hid)

theorem activityOpen_latest (htext : ∀ s, asText (.str s) = some s)
    (hvalid : ∀ r ∈ ofType "interrupt" rows, validate "interrupt" r.payload = true)
    (hlatest : latest asText rows id = some row) :
    activityOpen asText rows row = interruptOpen asText rows id := by
  obtain ⟨hstored, hid⟩ := mem_filter.mp (mem_of_getLast? hlatest)
  have hstr := (idText_eq_iff htext (isPending_of_validate (hvalid row hstored))).mp
    (of_decide_eq_true hid)
  have htype : row.messageType = some "interrupt" := of_decide_eq_true (mem_filter.mp hstored).2
  rw [interruptOpen_eq, hlatest]
  simp only [activityOpen, htype, hstr, map_some, getD_some]

/-- The three readings agree on an id exactly if a resolution comes after every interrupt with it,
or none after one that is not deleted. -/
theorem open_interrupts_agree_iff (asText : Value → Option String) (rows : List Row) (id : String)
    (htext : ∀ s, asText (.str s) = some s) (hsorted : rows.Pairwise fun r s => r.seq < s.seq)
    (hvalid : ∀ r ∈ ofType "interrupt" rows, validate "interrupt" r.payload = true) :
    ((Announced asText rows id ↔ interruptOpen asText rows id = true) ∧
      (interruptOpen asText rows id = true ↔
        ∃ row, latest asText rows id = some row ∧ activityOpen asText rows row = true)) ↔
    Resolved asText rows id ∨ Kept asText rows id := by
  rw [announced_iff_kept htext hvalid]
  constructor
  · rintro ⟨hannounced, -⟩
    rw [interruptOpen_iff hsorted] at hannounced
    exact or_iff_not_imp_left.mpr hannounced.mpr
  · intro h
    have hlisted : Kept asText rows id ↔ interruptOpen asText rows id = true := by
      rw [interruptOpen_iff hsorted]
      exact ⟨not_resolved_of_kept, h.resolve_left⟩
    refine ⟨hlisted, fun hopen => ?_, fun ⟨row, hlatest, hrow⟩ => ?_⟩
    · obtain ⟨r, hr, hid, -⟩ := hlisted.mpr hopen
      cases hlatest : latest asText rows id with
      | none =>
        rw [latest, getLast?_eq_none_iff, filter_eq_nil_iff] at hlatest
        exact absurd (decide_eq_true hid) (hlatest r hr)
      | some row =>
        exact ⟨row, rfl, (activityOpen_latest htext hvalid hlatest).trans hopen⟩
    · exact (activityOpen_latest htext hvalid hlatest).symm.trans hrow

def onlyText : Value → Option String
  | .str s => some s
  | _ => none

def asked (deleted : Bool) : Row where
  seq := 1
  messageType := some "interrupt"
  payload := [("id", .str "i"), ("data", .obj [("payload", .null)])]
  deleted := deleted

def answered : Row where
  seq := 2
  messageType := some "interrupt_resolved"
  payload := [("id", .str "i")]

theorem open_interrupts_agree_iff_answered :
    Announced onlyText [asked true, answered] "i" ↔
      interruptOpen onlyText [asked true, answered] "i" = true :=
  ((open_interrupts_agree_iff onlyText [asked true, answered] "i" (fun _ => rfl)
    (by simp [asked, answered]) (by decide +kernel)).mpr
    (.inl ⟨answered, by simp [ofType, asked, answered], rfl, by decide, by decide +kernel⟩)).1

/-- An id that was never stored is open, and so is an interrupt that was deleted; neither is
announced. -/
theorem deleted_interrupt_open :
    (interruptOpen onlyText [] "i" = true ∧ openInterrupts onlyText [] = []) ∧
      interruptOpen onlyText [asked true] "i" = true ∧
      activityOpen onlyText [asked true] (asked true) = true ∧
      openInterrupts onlyText [asked true] = [] := by
  decide +kernel

end

end Converger.ClientMessages
