import Mathlib.Data.List.Basic

/-!
# URL-safe Base64

Three bytes make four characters, six bits each. Encoding leaves out the padding; decoding
takes a text with or without it. Bytes are numbers below 256.
-/
namespace Converger.Base64
open Option

def alphabet : List Char :=
  "ABCDEFGHIJKLMNOPQRSTUVWXYZabcdefghijklmnopqrstuvwxyz0123456789-_".toList

def digit (n : ℕ) : Char := alphabet.getD n 'A'

def value (c : Char) : Option ℕ := alphabet.idxOf? c

theorem value_digit {n : ℕ} (h : n < 64) : value (digit n) = some n := by
  have hall : ∀ i : Fin 64, value (digit i) = some i.val := by decide +kernel
  exact hall ⟨n, h⟩

theorem digit_ne_pad {n : ℕ} (h : n < 64) : digit n ≠ '=' := by
  have hall : ∀ i : Fin 64, digit i ≠ '=' := by decide +kernel
  exact hall ⟨n, h⟩

def encode : List ℕ → List Char
  | [] => []
  | [x] => [digit (x / 4), digit (x % 4 * 16)]
  | [x, y] => [digit (x / 4), digit (x % 4 * 16 + y / 16), digit (y % 16 * 4)]
  | x :: y :: z :: rest =>
    digit (x / 4) :: digit (x % 4 * 16 + y / 16) :: digit (y % 16 * 4 + z / 64) ::
      digit (z % 64) :: encode rest

def decodeTwo (a b : Char) : Option (List ℕ) := do
  let a ← value a
  let b ← value b
  return [a * 4 + b / 16]

def decodeThree (a b c : Char) : Option (List ℕ) := do
  let a ← value a
  let b ← value b
  let c ← value c
  return [a * 4 + b / 16, b % 16 * 16 + c / 4]

def decodeFour (a b c d : Char) : Option (List ℕ) := do
  let a ← value a
  let b ← value b
  let c ← value c
  let d ← value d
  return [a * 4 + b / 16, b % 16 * 16 + c / 4, c % 4 * 64 + d]

def decode : List Char → Option (List ℕ)
  | [] => some []
  | [_] => none
  | [a, b] => decodeTwo a b
  | [a, b, c] => decodeThree a b c
  | a :: b :: c :: d :: rest =>
    if rest = [] ∧ d = '=' then
      if c = '=' then decodeTwo a b else decodeThree a b c
    else do
      let bytes ← decodeFour a b c d
      let more ← decode rest
      return bytes ++ more

theorem decode_encode {bytes : List ℕ} (h : ∀ b ∈ bytes, b < 256) : decode (encode bytes) = some bytes := by
  fun_induction encode bytes with
  | case1 => rfl
  | case2 x =>
    have hx : x < 256 := h x (by simp)
    have h1 := @value_digit (x / 4) (by omega)
    have h2 := @value_digit (x % 4 * 16) (by omega)
    simp only [decode, decodeTwo, h1, h2, bind_eq_bind, bind_some, pure_def,
      some.injEq, List.cons.injEq, and_true]
    omega
  | case3 x y =>
    have hx : x < 256 := h x (by simp)
    have hy : y < 256 := h y (by simp)
    have h1 := @value_digit (x / 4) (by omega)
    have h2 := @value_digit (x % 4 * 16 + y / 16) (by omega)
    have h3 := @value_digit (y % 16 * 4) (by omega)
    simp only [decode, decodeThree, h1, h2, h3, bind_eq_bind, bind_some,
      pure_def, some.injEq, List.cons.injEq, and_true]
    omega
  | case4 x y z rest ih =>
    have hx : x < 256 := h x (by simp)
    have hy : y < 256 := h y (by simp)
    have hz : z < 256 := h z (by simp)
    have h1 := @value_digit (x / 4) (by omega)
    have h2 := @value_digit (x % 4 * 16 + y / 16) (by omega)
    have h3 := @value_digit (y % 16 * 4 + z / 64) (by omega)
    have h4 := @value_digit (z % 64) (by omega)
    have hpad := @digit_ne_pad (z % 64) (by omega)
    have hrest := ih fun b hb => h b (by simp [hb])
    simp only [decode, decodeFour, hpad, and_false, if_false, h1, h2, h3, h4, hrest,
      bind_eq_bind, bind_some, pure_def, some.injEq,
      List.cons_append, List.nil_append, List.cons.injEq, and_true]
    omega

end Converger.Base64
