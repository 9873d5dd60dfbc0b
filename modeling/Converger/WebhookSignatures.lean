import Converger.Watermarks
import Mathlib.Algebra.Group.Int.Defs

/-!
# Webhook signatures

The header `t=<unix seconds>,v1=<hex HMAC of "<t>.<raw body>">` (empty when missing), as the
server (`inbound_signature.ex`) and the Go and Python clients (`webhook.go`, `webhooks.py`)
verify it.
-/
namespace Converger.WebhookSignatures

open List Text

inductive Outcome where
  | ok | legacy | missing | noSecret | malformed | outOfTolerance | invalid
  deriving DecidableEq

/-- The text before and after the first `=`. -/
def cut (cs : List Char) : Option (List Char × List Char) :=
  if '=' ∈ cs then some (cs.takeWhile (· ≠ '='), (cs.dropWhile (· ≠ '=')).tail) else none

def pairs (parts : List (List Char)) : List (List Char × List Char) :=
  (parts.filter (· ≠ [])).filterMap fun part => cut (trim part)

def valueOf (key : List Char) (pair : List Char × List Char) : Option (List Char) :=
  if pair.1 = key then some pair.2 else none

def timestamp (parts : List (List Char)) : Option (List Char) :=
  (pairs parts).findSome? (valueOf ['t'])

def v1 (parts : List (List Char)) : List (List Char) := (pairs parts).filterMap (valueOf ['v', '1'])

def parse (value : List Char) : Option (Int × List (List Char)) :=
  let parts := value.splitOn ','
  ((timestamp parts).bind integerParse).bind fun (t, rest) =>
    if rest = [] ∧ v1 parts ≠ [] then some (t, v1 parts) else none

/-- The body of the client's loop. -/
def field (acc : Option (List Char) × List (List Char)) (part : List Char) :
    Option (List Char) × List (List Char) :=
  match cut (trim part) with
  | none => acc
  | some (k, v) =>
    if k = ['t'] ∧ acc.1 = none then (some v, acc.2)
    else if k = ['v', '1'] then (acc.1, acc.2 ++ [v]) else acc

/-- `[+-]?[0-9]+` -/
def intRe : List Char → Bool
  | '-' :: cs | '+' :: cs | cs => cs ≠ [] && cs.all Char.isDigit

def wrap64 (n : Int) : Int := n.bmod (2 ^ 64)

variable (hmac : String → List UInt8 → List Char) (body : List UInt8) (tolerance : ℕ) (now : Int)

def signatureHex (secret : String) (t : Int) : List Char :=
  hmac secret ((toString t ++ ".").toUTF8.toList ++ body)

def verify (value : List Char) (secret : String) : Outcome :=
  if value = [] then .missing
  else if secret = "" then .noSecret
  else if "sha256=".toList <+: value then
    if value = "sha256=".toList ++ hmac secret body then .legacy else .invalid
  else match parse value with
    | none => .malformed
    | some (t, v1) =>
      if tolerance < (now - t).natAbs then .outOfTolerance
      else if signatureHex hmac body secret t ∈ v1 then .ok else .invalid

def skew (t : Int) : Int :=
  let skew := wrap64 (now - t)
  if skew < 0 then wrap64 (-skew) else skew

def verifySignatureSecrets (value : List Char) (secrets : List String) : Outcome :=
  let keys := secrets.filter (· ≠ "")
  if value = [] then .missing
  else if keys = [] then .noSecret
  else match (value.splitOn ',').foldl field (none, []) with
    | (none, _) => .malformed
    | (some ts, v1) =>
      if ¬intRe ts ∨ v1 = [] then .malformed
      else match integerParse ts with
        | none => .malformed
        | some (t, _) =>
          if t < -2 ^ 63 ∨ 2 ^ 63 ≤ t then .malformed
          else if tolerance < skew now t then .outOfTolerance
          else if keys.any fun k => signatureHex hmac body k t ∈ v1 then .ok else .invalid

/-! ### Python -/

/-- What `str.strip` takes off: also the separators U+001C to U+001F. -/
def isStripped (c : Char) : Bool := isSpace c || (0x1C ≤ c.toNat && c.toNat ≤ 0x1F)

def strip (cs : List Char) : List Char :=
  ((cs.dropWhile isStripped).reverse.dropWhile isStripped).reverse

def fieldPython (acc : Option (List Char) × List (List Char)) (part : List Char) :
    Option (List Char) × List (List Char) :=
  match cut (strip part) with
  | none => acc
  | some (k, v) =>
    if k = ['t'] ∧ acc.1 = none then (some v, acc.2)
    else if k = ['v', '1'] then (acc.1, acc.2 ++ [v]) else acc

/-- The digits that `int` takes of a text. -/
def maxDigits : ℕ := 4300

/-- `int/1` of a text of digits with an optional sign; `none` is its `ValueError`. -/
def int (cs : List Char) : Option Int :=
  if maxDigits < (cs.filter Char.isDigit).length then none else (integerParse cs).map Prod.fst

/-- `verify_signature`; `none` is an exception that is not a `WebhookSignatureError`. -/
def verifySignature (value : List Char) (secrets : List String) : Option Outcome :=
  let keys := secrets.filter (· ≠ "")
  if value = [] then some .missing
  else if keys = [] then some .noSecret
  else match (value.splitOn ',').foldl fieldPython (none, []) with
    | (none, _) => some .malformed
    | (some ts, v1) =>
      if wholeLine intRe ts = false ∨ v1 = [] then some .malformed
      else (int ts).map fun t =>
        if tolerance < (now - t).natAbs then .outOfTolerance
        else if keys.any fun k => signatureHex hmac body k t ∈ v1 then .ok else .invalid

/-- `sign/3` of the server. -/
def sign (secret : String) (t : Int) : List Char :=
  "t=".toList ++ (toString t).toList ++ ",v1=".toList ++ signatureHex hmac body secret t

variable {hmac body tolerance now} {value : List Char} {secrets : List String}

/-- The loop finds what the server's two searches find. -/
theorem foldl_field (parts : List (List Char)) (acc : Option (List Char) × List (List Char)) :
    parts.foldl field acc = (acc.1.or (timestamp parts), acc.2 ++ v1 parts) := by
  induction parts generalizing acc with
  | nil => simp [timestamp, v1, pairs]
  | cons part parts ih =>
    rw [foldl_cons, ih]
    by_cases hpart : part = []
    · subst part
      simp [field, cut, trim, timestamp, v1, pairs]
    · have hpairs : pairs (part :: parts) = (cut (trim part)).toList ++ pairs parts := by
        cases h : cut (trim part) <;> simp [pairs, hpart, h]
      obtain ⟨_ | ts, vs⟩ := acc <;> fun_cases field <;> simp_all [timestamp, v1, valueOf]

theorem parseDigits_iff {cs : List Char} :
    (cs ≠ [] ∧ cs.all Char.isDigit) ↔ ∃ n, parseDigits cs = some (n, []) := by
  cases cs with
  | nil => simp [parseDigits]
  | cons c cs => cases hc : c.isDigit <;> simp [parseDigits, hc]

theorem intRe_iff {cs : List Char} : intRe cs ↔ ∃ t, integerParse cs = some (t, []) := by
  unfold intRe integerParse
  split <;> simp [← parseDigits_iff]

theorem inTolerance_iff {t : Int} (h0 : 0 ≤ now) (hnow : now + tolerance < 2 ^ 63) :
    (¬(t < -2 ^ 63 ∨ 2 ^ 63 ≤ t) ∧ ¬tolerance < skew now t) ↔ (now - t).natAbs ≤ tolerance ∨ t = now - 2 ^ 63 := by
  simp only [skew, wrap64, Int.bmod_def]
  omega

theorem parse_eq_some {t : Int} {vs : List (List Char)} : parse value = some (t, vs) ↔
    ∃ ts, timestamp (value.splitOn ',') = some ts ∧ integerParse ts = some (t, []) ∧
      v1 (value.splitOn ',') = vs ∧ vs ≠ [] := by
  simp only [parse, Option.bind_eq_some_iff]
  grind

theorem verify_eq_ok {secret : String} : verify hmac body tolerance now value secret = .ok ↔
    secret ≠ "" ∧ ¬"sha256=".toList <+: value ∧ ∃ t vs, parse value = some (t, vs) ∧
      (now - t).natAbs ≤ tolerance ∧ signatureHex hmac body secret t ∈ vs := by
  have hnil : parse [] = none := rfl
  fun_cases verify <;> grind

theorem client_eq_ok (h0 : 0 ≤ now) (hnow : now + tolerance < 2 ^ 63) :
    verifySignatureSecrets hmac body tolerance now value secrets = .ok ↔
    ∃ t vs, parse value = some (t, vs) ∧ ((now - t).natAbs ≤ tolerance ∨ t = now - 2 ^ 63) ∧
      ∃ s ∈ secrets, s ≠ "" ∧ signatureHex hmac body s t ∈ vs := by
  have hfold : _ = (timestamp _, v1 _) := foldl_field (value.splitOn ',') (none, [])
  constructor
  · fun_cases verifySignatureSecrets <;> rintro ⟨⟩
    rename_i ts vs hloop hre t rest hint hrange hskew hany
    obtain ⟨hre, hvs⟩ := not_or.mp hre
    obtain ⟨t, ht⟩ := intRe_iff.mp (not_not.mp hre)
    cases hint.symm.trans ht
    obtain ⟨hts, rfl⟩ := Prod.mk.inj (hloop.symm.trans hfold)
    obtain ⟨s, hs, hsig⟩ := any_eq_true.mp hany
    obtain ⟨hs, hne⟩ := mem_filter.mp hs
    exact ⟨t, _, parse_eq_some.mpr ⟨ts, hts.symm, hint, rfl, hvs⟩,
      (inTolerance_iff h0 hnow).mp ⟨hrange, hskew⟩, s, hs, of_decide_eq_true hne, of_decide_eq_true hsig⟩
  · rintro ⟨t, vs, hparse, htol, s, hs, hne, hsig⟩
    obtain ⟨ts, hts, hint, rfl, hvs⟩ := parse_eq_some.mp hparse
    obtain ⟨hrange, hskew⟩ := (inTolerance_iff h0 hnow).mpr htol
    have hv : value ≠ [] := by
      rintro rfl
      cases hparse
    have hkeys : s ∈ secrets.filter (· ≠ "") := by simp [hs, hne]
    have hre := intRe_iff.mpr ⟨t, hint⟩
    simp only [verifySignatureSecrets, if_neg hv, if_neg (ne_nil_of_mem hkeys), hfold, hts, hint,
      if_neg hrange, if_neg hskew]
    rw [if_neg (by simp [hre, hvs]), if_pos (any_eq_true.mpr ⟨s, hkeys, decide_eq_true hsig⟩)]

/-- The client accepts what the server accepts with one of the secrets, a timestamp 2^63 seconds
back, whose difference wraps to a negative number, and a value that starts like the old format. -/
theorem client_accepts_iff (h0 : 0 ≤ now) (hnow : now + tolerance < 2 ^ 63) :
    verifySignatureSecrets hmac body tolerance now value secrets = .ok ↔
    ∃ s ∈ secrets, verify hmac body tolerance now value s = .ok ∨ s ≠ "" ∧ ∃ t vs, parse value = some (t, vs) ∧
      signatureHex hmac body s t ∈ vs ∧ (t = now - 2 ^ 63 ∨
        (now - t).natAbs ≤ tolerance ∧ "sha256=".toList <+: value) := by
  rw [client_eq_ok h0 hnow]
  simp only [verify_eq_ok]
  grind

theorem client_accepts_rotated :
    verifySignatureSecrets (fun s _ => s.toList) [] 300 7 "v1=a, t=+5,v1=b".toList ["c", "b"] = .ok :=
  (client_accepts_iff (by decide) (by decide)).mpr ⟨"b", by decide, .inl (by decide +kernel)⟩

/-! ### The three implementations -/

/-- Visible ASCII characters, spaces and tabs. -/
def Plain (value : List Char) : Prop :=
  ∀ c ∈ value, c = '\t' ∨ (0x20 ≤ c.toNat ∧ c.toNat ≤ 0x7E)

theorem isStripped_eq {c : Char} (h : c = '\t' ∨ (0x20 ≤ c.toNat ∧ c.toNat ≤ 0x7E)) :
    isStripped c = isSpace c := by
  rcases h with rfl | h
  · rfl
  · have hnot : ¬ (0x1C ≤ c.toNat ∧ c.toNat ≤ 0x1F) := by omega
    simp [isStripped, hnot]

theorem dropWhile_isStripped {cs : List Char} (h : Plain cs) :
    cs.dropWhile isStripped = cs.dropWhile isSpace := by
  induction cs with
  | nil => rfl
  | cons c cs ih =>
    obtain ⟨hc, hcs⟩ := forall_mem_cons.mp h
    rw [dropWhile_cons, dropWhile_cons, isStripped_eq hc, ih hcs]

theorem strip_eq_trim {cs : List Char} (h : Plain cs) : strip cs = trim cs := by
  have hrest : Plain (cs.dropWhile isSpace).reverse := fun c hc =>
    h c ((dropWhile_sublist _).mem (mem_reverse.mp hc))
  rw [strip, trim, dropWhile_isStripped h, dropWhile_isStripped hrest]

theorem foldl_fieldPython (h : Plain value) :
    (value.splitOn ',').foldl fieldPython (none, []) =
      (timestamp (value.splitOn ','), v1 (value.splitOn ',')) := by
  have hfield : ∀ parts : List (List Char), (∀ part ∈ parts, Plain part) → ∀ acc,
      parts.foldl fieldPython acc = parts.foldl field acc := by
    intro parts hparts
    induction parts with
    | nil => exact fun _ => rfl
    | cons part parts ih =>
      obtain ⟨hpart, hparts⟩ := forall_mem_cons.mp hparts
      intro acc
      rw [foldl_cons, foldl_cons, ih hparts, fieldPython, strip_eq_trim hpart, field]
  rw [hfield _ (fun part hpart c hc => h c (mem_of_mem_splitOn hpart hc)), foldl_field]
  simp

theorem wholeLine_intRe {ts : List Char} (h : '\n' ∉ ts) : wholeLine intRe ts = intRe ts := by
  have hlast : ts.getLast? ≠ some '\n' := fun hlast => h (mem_of_getLast? hlast)
  simp [wholeLine, hlast]

theorem mem_of_timestamp {ts : List Char} (h : timestamp (value.splitOn ',') = some ts) :
    ∀ c ∈ ts, c ∈ value := by
  obtain ⟨pair, hpair, hts⟩ := exists_of_findSome?_eq_some h
  obtain ⟨part, hpart, hcut⟩ := mem_filterMap.mp hpair
  have hpair : pair.2 = ts := by
    unfold valueOf at hts
    exact (Option.ite_some_none_eq_some.mp hts).2
  have hsub : ∀ c ∈ pair.2, c ∈ part := by
    intro c hc
    unfold cut at hcut
    obtain ⟨-, rfl⟩ := Option.ite_some_none_eq_some.mp hcut
    have htrim := (dropWhile_sublist _).mem (mem_of_mem_tail hc)
    have hrest := (dropWhile_sublist _).mem (mem_reverse.mp htrim)
    exact (dropWhile_sublist _).mem (mem_reverse.mp hrest)
  intro c hc
  exact mem_of_mem_splitOn (mem_filter.mp hpart).1 (hsub c (hpair ▸ hc))

/-- The timestamp that is read has more digits than `int` takes. -/
def tooLong (value : List Char) : Bool :=
  (timestamp (value.splitOn ',')).any fun ts => maxDigits < (ts.filter Char.isDigit).length

theorem python_eq (h : Plain value) {secret : String} (hsecret : secret ≠ "") :
    verifySignature hmac body tolerance now value [secret] =
      match parse value with
      | none => some (if value = [] then .missing else .malformed)
      | some (t, vs) =>
        if tooLong value then none
        else some (if tolerance < (now - t).natAbs then .outOfTolerance
          else if signatureHex hmac body secret t ∈ vs then .ok else .invalid) := by
  have hkeys : [secret].filter (· ≠ "") = [secret] := by simp [hsecret]
  by_cases hvalue : value = []
  · subst hvalue
    rfl
  rw [verifySignature, hkeys, if_neg hvalue, if_neg (by simp), foldl_fieldPython h]
  cases hts : timestamp (value.splitOn ',') with
  | none => simp [parse, hts, hvalue]
  | some ts =>
    have hbreak : '\n' ∉ ts := fun hmem => by
      rcases h _ (mem_of_timestamp hts _ hmem) with heq | hrange
      · exact absurd heq (by decide)
      · exact absurd hrange (by decide)
    simp only [wholeLine_intRe hbreak]
    by_cases hre : intRe ts
    · obtain ⟨t, ht⟩ := intRe_iff.mp hre
      by_cases hvs : v1 (value.splitOn ',') = []
      · simp [parse, hts, ht, hvs, hvalue]
      · have hparse : parse value = some (t, v1 (value.splitOn ',')) :=
          parse_eq_some.mpr ⟨ts, hts, ht, rfl, hvs⟩
        rw [hparse, if_neg (by simp [hre, hvs])]
        simp only [int, ht, tooLong, hts, Option.any_some, decide_eq_true_eq, Option.map_some]
        split
        · rfl
        · simp
    · have hparse : parse value = none := by
        refine Option.eq_none_iff_forall_ne_some.mpr fun r hr => ?_
        obtain ⟨ts', hts', hint, -⟩ := parse_eq_some.mp hr
        cases hts.symm.trans hts'
        exact hre (intRe_iff.mpr ⟨_, hint⟩)
      simp [hparse, hre, hvalue]

/-- What the three make of a value: the timestamp is not too long, and no valid signature has one
2^63 seconds back or stands in tolerance in a value that starts like the old format. -/
structure Agreeable (hmac : String → List UInt8 → List Char) (body : List UInt8) (tolerance : ℕ)
    (now : Int) (value : List Char) (secret : String) : Prop where
  length : parse value ≠ none → tooLong value = false
  wraps : ∀ t vs, parse value = some (t, vs) → signatureHex hmac body secret t ∈ vs → t ≠ now - 2 ^ 63
  legacy : ∀ t vs, parse value = some (t, vs) → signatureHex hmac body secret t ∈ vs →
    (now - t).natAbs ≤ tolerance → ¬ "sha256=".toList <+: value

theorem agree_iff (h : Plain value) {secret : String} (hsecret : secret ≠ "") (h0 : 0 ≤ now)
    (hnow : now + tolerance < 2 ^ 63) :
    ((∃ outcome, verifySignature hmac body tolerance now value [secret] = some outcome) ∧
      (verifySignature hmac body tolerance now value [secret] = some .ok ↔
        verifySignatureSecrets hmac body tolerance now value [secret] = .ok) ∧
      (verifySignatureSecrets hmac body tolerance now value [secret] = .ok ↔
        verify hmac body tolerance now value secret = .ok)) ↔
      Agreeable hmac body tolerance now value secret := by
  rw [client_eq_ok h0 hnow, verify_eq_ok, python_eq h hsecret]
  cases hparse : parse value with
  | none =>
    refine iff_of_true ⟨⟨_, rfl⟩, ?_, by simp⟩ ⟨fun hne => absurd hparse hne, ?_, ?_⟩
    · by_cases hvalue : value = [] <;> simp [hvalue]
    · simp [hparse]
    · simp [hparse]
  | some r =>
    obtain ⟨t, vs⟩ := r
    have hagree : Agreeable hmac body tolerance now value secret ↔ tooLong value = false ∧
        (signatureHex hmac body secret t ∈ vs → t ≠ now - 2 ^ 63) ∧
        (signatureHex hmac body secret t ∈ vs → (now - t).natAbs ≤ tolerance →
          ¬ "sha256=".toList <+: value) := by
      constructor
      · rintro ⟨hlength, hwraps, hlegacy⟩
        exact ⟨hlength (by simp [hparse]), hwraps t vs hparse, hlegacy t vs hparse⟩
      · rintro ⟨hlength, hwraps, hlegacy⟩
        refine ⟨fun _ => hlength, ?_, ?_⟩ <;>
        · intro t' vs' hparse'
          cases hparse.symm.trans hparse'
          assumption
    rw [hagree]
    have hfar : t = now - 2 ^ 63 → ¬ (now - t).natAbs ≤ tolerance := by omega
    cases htoo : tooLong value with
    | true => simp
    | false =>
      by_cases hsig : signatureHex hmac body secret t ∈ vs
      · by_cases htol : (now - t).natAbs ≤ tolerance
        · have hne : t ≠ now - 9223372036854775808 := fun heq => hfar heq htol
          simp [hsig, htol, hsecret, hne, Nat.not_lt.mpr htol]
        · simp [hsig, htol, hsecret, Nat.lt_of_not_le htol]
      · by_cases htol : (now - t).natAbs ≤ tolerance
        · simp [hsig, Nat.not_lt.mpr htol]
        · simp [hsig, Nat.lt_of_not_le htol]

/-! ### What the server signs -/

theorem toString_int (t : Int) : (toString t).toList =
    (if t < 0 then ['-'] else []) ++ Nat.toDigits 10 t.natAbs := by
  cases t with
  | ofNat n =>
    rw [← Nat.toList_repr]
    rfl
  | negSucc n =>
    have htext : toString (Int.negSucc n) = "-" ++ Nat.repr (n + 1) := rfl
    rw [htext, String.toList_append, Nat.toList_repr, if_pos (Int.negSucc_lt_zero n)]
    rfl

theorem integerParse_toString (t : Int) : integerParse (toString t).toList = some (t, []) := by
  rw [toString_int]
  split
  · rename_i hneg
    have hparse := Watermarks.parseDigits_toDigits t.natAbs
    rw [singleton_append, integerParse, hparse]
    have hvalue : -(t.natAbs : Int) = t := by omega
    simp only [Option.map_some, hvalue]
  · rename_i hneg
    rw [nil_append, Watermarks.integerParse_toDigits]
    have hvalue : Int.ofNat t.natAbs = t := by
      rw [Int.ofNat_eq_natCast]
      omega
    rw [hvalue]

/-- Visible characters but the comma, so that a part is read as it is written. -/
def Solid (cs : List Char) : Prop := ∀ c ∈ cs, c ≠ ',' ∧ 0x20 < c.toNat ∧ c.toNat < 0x7F

theorem solid_toString (t : Int) : Solid (toString t).toList := by
  intro c hc
  rw [toString_int, mem_append] at hc
  rcases hc with hc | hc
  · split at hc
    · rw [mem_singleton.mp hc]
      decide
    · cases hc
  · have hdigit := Watermarks.isDigit_of_mem_toDigits c hc
    simp only [Char.isDigit, Bool.and_eq_true, decide_eq_true_eq] at hdigit
    have hlow : 48 ≤ c.toNat := hdigit.1
    have hhigh : c.toNat ≤ 57 := hdigit.2
    refine ⟨?_, by omega, by omega⟩
    rintro rfl
    exact absurd hlow (by decide)

theorem trim_of_solid {cs : List Char} (h : Solid cs) : trim cs = cs := by
  have hspace : ∀ c ∈ cs, isSpace c = false := by
    intro c hc
    obtain ⟨-, hlow, hhigh⟩ := h c hc
    simp only [isSpace, Bool.or_eq_false_iff, Bool.and_eq_false_iff, decide_eq_false_iff_not,
      beq_eq_false_iff_ne]
    omega
  have hdrop : ∀ l : List Char, (∀ c ∈ l, isSpace c = false) → l.dropWhile isSpace = l := by
    intro l hl
    cases l with
    | nil => rfl
    | cons c l => simp [hl c mem_cons_self]
  rw [trim, hdrop cs hspace, hdrop _ fun c hc => hspace c (mem_reverse.mp hc), reverse_reverse]

theorem pairs_sign {secret : String} {t : Int} (hsolid : Solid (signatureHex hmac body secret t)) :
    pairs ((sign hmac body secret t).splitOn ',') =
      [(['t'], (toString t).toList), (['v', '1'], signatureHex hmac body secret t)] := by
  have hfirst : Solid ('t' :: '=' :: (toString t).toList) :=
    forall_mem_cons.mpr ⟨by decide, forall_mem_cons.mpr ⟨by decide, solid_toString t⟩⟩
  have hsecond : Solid ('v' :: '1' :: '=' :: signatureHex hmac body secret t) :=
    forall_mem_cons.mpr ⟨by decide, forall_mem_cons.mpr ⟨by decide,
      forall_mem_cons.mpr ⟨by decide, hsolid⟩⟩⟩
  have hsign : sign hmac body secret t = ('t' :: '=' :: (toString t).toList) ++
      ',' :: ('v' :: '1' :: '=' :: signatureHex hmac body secret t) := by
    simp [sign]
  have hcut : cut (trim ('t' :: '=' :: (toString t).toList)) = some (['t'], (toString t).toList) := by
    rw [trim_of_solid hfirst]
    simp [cut]
  have hcut' : cut (trim ('v' :: '1' :: '=' :: signatureHex hmac body secret t)) =
      some (['v', '1'], signatureHex hmac body secret t) := by
    rw [trim_of_solid hsecond]
    simp [cut]
  rw [hsign, splitOn_append_cons_self, splitOn_eq_singleton fun hmem => (hfirst _ hmem).1 rfl,
    splitOn_eq_singleton fun hmem => (hsecond _ hmem).1 rfl, singleton_append, pairs,
    filter_eq_self.mpr (by simp)]
  simp only [filterMap_cons, hcut, hcut', filterMap_nil]

theorem timestamp_sign {secret : String} {t : Int}
    (hsolid : Solid (signatureHex hmac body secret t)) :
    timestamp ((sign hmac body secret t).splitOn ',') = some (toString t).toList := by
  rw [timestamp, pairs_sign hsolid]
  rfl

theorem parse_sign {secret : String} {t : Int} (hsolid : Solid (signatureHex hmac body secret t)) :
    parse (sign hmac body secret t) = some (t, [signatureHex hmac body secret t]) := by
  refine parse_eq_some.mpr ⟨_, timestamp_sign hsolid, integerParse_toString t, ?_, by simp⟩
  rw [v1, pairs_sign hsolid]
  rfl

theorem plain_of_all {cs : List Char}
    (h : cs.all (fun c => c = '\t' ∨ (0x20 ≤ c.toNat ∧ c.toNat ≤ 0x7E)) = true) : Plain cs :=
  fun c hc => of_decide_eq_true (all_eq_true.mp h c hc)

theorem plain_of_solid {cs : List Char} (h : Solid cs) : Plain cs :=
  fun c hc => .inr ⟨(h c hc).2.1.le, Nat.le_of_lt_succ (h c hc).2.2⟩

theorem plain_sign {secret : String} {t : Int} (hsolid : Solid (signatureHex hmac body secret t)) :
    Plain (sign hmac body secret t) := by
  have hletters : Plain ("t=".toList ++ ",v1=".toList) := plain_of_all (by decide +kernel)
  intro c hc
  simp only [sign, mem_append] at hc
  rcases hc with ((hc | hc) | hc) | hc
  · exact hletters c (mem_append_left _ hc)
  · exact plain_of_solid (solid_toString t) c hc
  · exact hletters c (mem_append_right _ hc)
  · exact plain_of_solid hsolid c hc

theorem tooLong_sign {secret : String} {t : Int} (hsolid : Solid (signatureHex hmac body secret t))
    (hsmall : t.natAbs < 10 ^ 20) : tooLong (sign hmac body secret t) = false := by
  have hdigits : (Nat.toDigits 10 t.natAbs).length ≤ 20 :=
    (Nat.length_toDigits_le_iff (by decide) (by decide)).mpr hsmall
  have hlength : (toString t).toList.length ≤ 21 := by
    rw [toString_int, length_append]
    split <;> simp <;> omega
  have hfilter := length_filter_le Char.isDigit (toString t).toList
  rw [tooLong, timestamp_sign hsolid, Option.any_some, decide_eq_false_iff_not, maxDigits]
  omega

/-- The three accept the same values and none of them raises exactly if the timestamp is not too long
for Python, no valid signature has one 2^63 seconds back, where the difference wraps in Go, and none
stands in a value that the server takes for the old format. What the server signs is accepted. -/
theorem signatures_agree_iff (hhex : ∀ secret bytes, Solid (hmac secret bytes)) (h : Plain value)
    {secret : String} (hsecret : secret ≠ "") (h0 : 0 ≤ now) (hnow : now + tolerance < 2 ^ 63) :
    ((∃ outcome, verifySignature hmac body tolerance now value [secret] = some outcome) ∧
      (verifySignature hmac body tolerance now value [secret] = some .ok ↔
        verifySignatureSecrets hmac body tolerance now value [secret] = .ok) ∧
      (verifySignatureSecrets hmac body tolerance now value [secret] = .ok ↔
        verify hmac body tolerance now value secret = .ok) ↔
      Agreeable hmac body tolerance now value secret) ∧
    ∀ t : Int, (now - t).natAbs ≤ tolerance →
      verifySignature hmac body tolerance now (sign hmac body secret t) [secret] = some .ok ∧
      verifySignatureSecrets hmac body tolerance now (sign hmac body secret t) [secret] = .ok ∧
      verify hmac body tolerance now (sign hmac body secret t) secret = .ok := by
  refine ⟨agree_iff h hsecret h0 hnow, fun t ht => ?_⟩
  have hparse := parse_sign (hhex secret _ : Solid (signatureHex hmac body secret t))
  have hshort := tooLong_sign (hhex secret _ : Solid (signatureHex hmac body secret t))
    (by omega)
  have hprefix : ¬ "sha256=".toList <+: sign hmac body secret t := by
    simp [sign, cons_prefix_cons]
  refine ⟨?_, ?_, ?_⟩
  · rw [python_eq (plain_sign (hhex secret _)) hsecret, hparse]
    simp [hshort, Nat.not_lt.mpr ht]
  · exact (client_eq_ok h0 hnow).mpr ⟨t, _, hparse, .inl ht, secret, by simp, hsecret, by simp⟩
  · exact verify_eq_ok.mpr ⟨hsecret, hprefix, t, _, hparse, ht, by simp⟩

/-- A code that writes the secret for the digest. -/
def echo (secret : String) (_ : List UInt8) : List Char :=
  secret.toList.filter fun c => c ≠ ',' ∧ 0x20 < c.toNat ∧ c.toNat < 0x7F

theorem signatures_agree_iff_signed :
    verify echo [] 300 7 (sign echo [] "s" 5) "s" = .ok ∧
      (verifySignature echo [] 300 7 "t=5, v1=x,v1=s".toList ["s"] = some .ok ↔
        verify echo [] 300 7 "t=5, v1=x,v1=s".toList "s" = .ok) := by
  have hhex : ∀ secret bytes, Solid (echo secret bytes) :=
    fun secret bytes c hc => of_decide_eq_true (mem_filter.mp hc).2
  have hplain : Plain "t=5, v1=x,v1=s".toList := plain_of_all (by decide +kernel)
  have hparse : parse "t=5, v1=x,v1=s".toList = some (5, ["x".toList, "s".toList]) := by
    decide +kernel
  obtain ⟨hiff, hsigned⟩ := @signatures_agree_iff echo [] 300 7 "t=5, v1=x,v1=s".toList hhex hplain
    "s" (by decide) (by decide) (by decide)
  have hagree : Agreeable echo [] 300 7 "t=5, v1=x,v1=s".toList "s" := by
    refine ⟨fun _ => by decide +kernel, ?_, ?_⟩ <;>
    · intro t vs h
      cases hparse.symm.trans h
      decide
  exact ⟨(hsigned 5 (by decide)).2.2, (hiff.mpr hagree).2.1.trans (hiff.mpr hagree).2.2⟩

/-- A value that starts like the old format, a timestamp 2^63 seconds back, and one with 4301
digits. -/
theorem signatures_differ :
    verifySignature echo [] 300 7 "sha256=,t=5,v1=s".toList ["s"] = some .ok ∧
    verifySignatureSecrets echo [] 300 7 "sha256=,t=5,v1=s".toList ["s"] = .ok ∧
    verify echo [] 300 7 "sha256=,t=5,v1=s".toList "s" = .invalid ∧
    verifySignatureSecrets echo [] 300 7 "t=-9223372036854775801,v1=s".toList ["s"] = .ok ∧
    verifySignature echo [] 300 7 "t=-9223372036854775801,v1=s".toList ["s"] =
      some .outOfTolerance ∧
    verifySignature echo [] 300 7
      ("t=".toList ++ replicate 4301 '0' ++ ",v1=s".toList) ["s"] = none := by
  decide +kernel

end Converger.WebhookSignatures
