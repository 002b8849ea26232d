import Mathlib.Data.List.Basic

namespace LibLitertLm.Base64

def digit (n : ℕ) : Char :=
  if n < 26 then Char.ofNat (n + 65)
  else if n < 52 then Char.ofNat (n + 71)
  else if n < 62 then Char.ofNat (n - 4)
  else if n = 62 then '+' else '/'

def value (c : Char) : Option ℕ :=
  if 'A' ≤ c ∧ c ≤ 'Z' then some (c.toNat - 65)
  else if 'a' ≤ c ∧ c ≤ 'z' then some (c.toNat - 71)
  else if '0' ≤ c ∧ c ≤ '9' then some (c.toNat + 4)
  else if c = '+' then some 62
  else if c = '/' then some 63
  else none

def encode : List UInt8 → List Char
  | [] => []
  | [a] => [digit (a.toNat / 4), digit (a.toNat % 4 * 16), '=', '=']
  | [a, b] => [digit (a.toNat / 4), digit (a.toNat % 4 * 16 + b.toNat / 16),
      digit (b.toNat % 16 * 4), '=']
  | a :: b :: c :: bytes =>
    digit (a.toNat / 4) :: digit (a.toNat % 4 * 16 + b.toNat / 16) ::
      digit (b.toNat % 16 * 4 + c.toNat / 64) :: digit (c.toNat % 64) :: encode bytes

def decode : List Char → Option (List UInt8)
  | [] => some []
  | w :: x :: y :: z :: text =>
    if z ≠ '=' then do
      let w ← value w
      let x ← value x
      let y ← value y
      let z ← value z
      let bytes ← decode text
      some (UInt8.ofNat (w * 4 + x / 16) :: UInt8.ofNat (x % 16 * 16 + y / 4) ::
        UInt8.ofNat (y % 4 * 64 + z) :: bytes)
    else if text ≠ [] then none
    else if y ≠ '=' then do
      let w ← value w
      let x ← value x
      let y ← value y
      some [UInt8.ofNat (w * 4 + x / 16), UInt8.ofNat (x % 16 * 16 + y / 4)]
    else do
      let w ← value w
      let x ← value x
      some [UInt8.ofNat (w * 4 + x / 16)]
  | _ => none

theorem value_digit {n : ℕ} (h : n < 64) : value (digit n) = some n := by
  have hall : ∀ n < 64, value (digit n) = some n := by decide
  exact hall n h

theorem digit_ne_pad {n : ℕ} (h : n < 64) : digit n ≠ '=' := by
  intro hpad
  have hvalue := value_digit h
  rw [hpad] at hvalue
  cases hvalue

theorem ofNat_eq {n : ℕ} (a : UInt8) (h : n = a.toNat) : UInt8.ofNat n = a := by
  rw [h, UInt8.ofNat_toNat]

theorem decode_three {a b c d : ℕ} {text : List Char} (ha : a < 64) (hb : b < 64) (hc : c < 64)
    (hd : d < 64) : decode (digit a :: digit b :: digit c :: digit d :: text) =
      (decode text).map fun bytes ↦ UInt8.ofNat (a * 4 + b / 16) ::
        UInt8.ofNat (b % 16 * 16 + c / 4) :: UInt8.ofNat (c % 4 * 64 + d) :: bytes := by
  rw [decode, if_pos (digit_ne_pad hd), value_digit ha, value_digit hb, value_digit hc,
    value_digit hd]
  cases decode text <;> rfl

theorem decode_two {a b c : ℕ} (ha : a < 64) (hb : b < 64) (hc : c < 64) :
    decode [digit a, digit b, digit c, '='] =
      some [UInt8.ofNat (a * 4 + b / 16), UInt8.ofNat (b % 16 * 16 + c / 4)] := by
  have hpad := digit_ne_pad hc
  simp [decode, hpad, value_digit ha, value_digit hb, value_digit hc, -UInt8.ofNat_add]

theorem decode_one {a b : ℕ} (ha : a < 64) (hb : b < 64) :
    decode [digit a, digit b, '=', '='] = some [UInt8.ofNat (a * 4 + b / 16)] := by
  simp [decode, value_digit ha, value_digit hb, -UInt8.ofNat_add]

theorem decode_encode (bytes : List UInt8) : decode (encode bytes) = some bytes := by
  induction bytes using encode.induct with
  | case1 => rfl
  | case2 a =>
    have ha := a.toNat_lt
    rw [encode, decode_one (by omega) (by omega), ofNat_eq a (by omega)]
  | case3 a b =>
    have ha := a.toNat_lt
    have hb := b.toNat_lt
    rw [encode, decode_two (by omega) (by omega) (by omega), ofNat_eq a (by omega),
      ofNat_eq b (by omega)]
  | case4 a b c bytes ih =>
    have ha := a.toNat_lt
    have hb := b.toNat_lt
    have hc := c.toNat_lt
    rw [encode, decode_three (by omega) (by omega) (by omega) (by omega), ih,
      ofNat_eq a (by omega), ofNat_eq b (by omega), ofNat_eq c (by omega), Option.map_some]

end LibLitertLm.Base64
