import Mathlib.Data.Int.Notation
import Mathlib.Data.List.Basic

/-!
# JSON values

The values a request body or a `jsonb` column can hold, with the text Elixir's
`to_string/1` makes of them. `none` is a conversion that raises.
-/
namespace Converger

inductive Json where
  | null
  | bool (b : Bool)
  | int (n : ℤ)
  | float (text : String)
  | str (s : String)
  | arr (items : List Json)
  | obj (fields : List (String × Json))
  deriving Repr

namespace Json

def codepoint : ℤ → Option String
  | .ofNat n => if h : n.isValidChar then some (String.singleton (.ofNatAux n h)) else none
  | .negSucc _ => none

mutual

def chardata : Json → Option String
  | .int n => codepoint n
  | .str s => some s
  | .arr items => chardataList items
  | _ => none

def chardataList : List Json → Option String
  | [] => some ""
  | item :: items => do
    let s ← chardata item
    let t ← chardataList items
    return s ++ t

end

/-- `to_string/1`. A list is character data; a map has no text. -/
def toText : Json → Option String
  | .null => some ""
  | .bool b => some (if b then "true" else "false")
  | .int n => some (toString n)
  | .float text => some text
  | .str s => some s
  | .arr items => chardataList items
  | .obj _ => none

end Json

end Converger
