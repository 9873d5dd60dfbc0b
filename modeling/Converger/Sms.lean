import Converger.Json
import Converger.Text

/-!
# Phone numbers of SMS channels

`Sms.normalize_e164/2` and `Sms.participant_id/2`: a number in whatever spelling becomes `+`
and 8 to 15 digits, and a participant is stored under that form where its sender has one.
-/
namespace Converger.Sms
open Text List

/-- The class `[\s\-.()\/]`; with the `u` option `\s` also matches U+180E. -/
def isSeparator (c : Char) : Bool :=
  isSpace c || c.toNat == 0x180E || c ∈ ['-', '.', '(', ')', '/']

/-- The pattern `\+[1-9]\d` with 7 to 14 digits after the first. -/
def isE164 : List Char → Bool
  | '+' :: d :: ds =>
    '1' ≤ d && d ≤ '9' && ds.all Char.isDigit && 7 ≤ ds.length && ds.length ≤ 14
  | _ => false

def national (rest : List Char) : Option Json → Option (List Char)
  | some (.str code) =>
    match code.toList.dropWhile (· = '+') with
    | [] => none
    | code => some ('+' :: code ++ rest)
  | _ => none

def candidate (defaultCountryCode : Option Json) : List Char → Option (List Char)
  | '+' :: rest => some ('+' :: rest)
  | '0' :: '0' :: rest => some ('+' :: rest)
  | '0' :: rest => national rest defaultCountryCode
  | rest => some ('+' :: rest)

def withoutSeparators (number : String) : List Char :=
  (trim number.toList).filter fun c => !isSeparator c

def normalizeE164 (number : Json) (defaultCountryCode : Option Json) : Option String :=
  match number with
  | .str number =>
    match candidate defaultCountryCode (withoutSeparators number) with
    | some cs => if isE164 cs then some (String.ofList cs) else none
    | none => none
  | _ => none

def participantId (sender : String) (defaultCountryCode : Option Json) : String :=
  match normalizeE164 (.str sender) defaultCountryCode with
  | some e164 => e164
  | none => String.ofList (trim sender.toList)

/-! ## Normal forms -/

variable {c : Char} {e164 : String} {code : Option Json} {number : Json}

end Converger.Sms
