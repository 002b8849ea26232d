import LibLitertLm.Types.Value
import Mathlib.Tactic.Common

namespace LibLitertLm

def charBytes (c : Char) : List UInt8 :=
  let n := c.toNat
  if n < 0x80 then [UInt8.ofNat n]
  else if n < 0x800 then [UInt8.ofNat (0xC0 + n / 64), UInt8.ofNat (0x80 + n % 64)]
  else if n < 0x10000 then
    [UInt8.ofNat (0xE0 + n / 4096), UInt8.ofNat (0x80 + n / 64 % 64), UInt8.ofNat (0x80 + n % 64)]
  else
    [UInt8.ofNat (0xF0 + n / 262144), UInt8.ofNat (0x80 + n / 4096 % 64),
      UInt8.ofNat (0x80 + n / 64 % 64), UInt8.ofNat (0x80 + n % 64)]

def utf8Encode (text : List Char) : List UInt8 := text.flatMap charBytes

section RoundTrip

theorem toNat_ofNat {n : ℕ} (h : n < 256) : (UInt8.ofNat n).toNat = n := by
  simp only [UInt8.toNat_ofNat']
  exact Nat.mod_eq_of_lt h

theorem continuation_ofNat {n : ℕ} (h : n < 64) :
    continuation (UInt8.ofNat (0x80 + n)) = some n := by
  have hbyte : (UInt8.ofNat (0x80 + n)).toNat = 0x80 + n := toNat_ofNat (by omega)
  have hdifference : 0x80 + n - 0x80 = n := by omega
  rw [continuation, hbyte, if_pos (by simp; omega), hdifference]

theorem codePoint_toNat (c : Char) {min : ℕ} (h : min ≤ c.toNat) :
    codePoint c.toNat min = some c := by
  have hvalid : c.toNat.isValidChar := c.valid
  rw [codePoint, if_pos (by simp [h, hvalid]), Char.ofNat_toNat]

theorem toNat_lt (c : Char) : c.toNat < 0x110000 := by
  have hvalid : c.toNat.isValidChar := c.valid
  unfold Nat.isValidChar at hvalid
  omega

theorem utf8Chars_charBytes (c : Char) (rest : List UInt8) :
    utf8Chars (charBytes c ++ rest) = (utf8Chars rest).map (c :: ·) := by
  have hlt := toNat_lt c
  unfold charBytes
  by_cases h1 : c.toNat < 0x80
  · have hbyte : (UInt8.ofNat c.toNat).toNat = c.toNat := toNat_ofNat (by omega)
    rw [if_pos h1, List.singleton_append, utf8Chars.eq_def]
    simp only
    rw [hbyte, if_pos h1, Char.ofNat_toNat]
    cases utf8Chars rest <;> rfl
  rw [if_neg h1]
  by_cases h2 : c.toNat < 0x800
  · have hbyte : (UInt8.ofNat (0xC0 + c.toNat / 64)).toNat = 0xC0 + c.toNat / 64 :=
      toNat_ofNat (by omega)
    have hnumber : (0xC0 + c.toNat / 64 - 0xC0) * 64 + c.toNat % 64 = c.toNat := by omega
    rw [if_pos h2, List.cons_append, List.cons_append, List.nil_append, utf8Chars.eq_def]
    simp only
    rw [hbyte, if_neg (by omega), if_pos (by simp; omega),
      continuation_ofNat (Nat.mod_lt _ (by decide))]
    simp only [Option.bind_eq_bind, Option.bind_some]
    rw [hnumber, codePoint_toNat c (by omega)]
    cases utf8Chars rest <;> rfl
  rw [if_neg h2]
  by_cases h3 : c.toNat < 0x10000
  · have hbyte : (UInt8.ofNat (0xE0 + c.toNat / 4096)).toNat = 0xE0 + c.toNat / 4096 :=
      toNat_ofNat (by omega)
    have hnumber : ((0xE0 + c.toNat / 4096 - 0xE0) * 64 + c.toNat / 64 % 64) * 64 +
        c.toNat % 64 = c.toNat := by omega
    rw [if_pos h3, List.cons_append, List.cons_append, List.cons_append, List.nil_append,
      utf8Chars.eq_def]
    simp only
    rw [hbyte, if_neg (by omega), if_neg (by simp), if_pos (by simp; omega),
      continuation_ofNat (Nat.mod_lt _ (by decide)), continuation_ofNat (Nat.mod_lt _ (by decide))]
    simp only [Option.bind_eq_bind, Option.bind_some]
    rw [hnumber, codePoint_toNat c (by omega)]
    cases utf8Chars rest <;> rfl
  · have hbyte : (UInt8.ofNat (0xF0 + c.toNat / 262144)).toNat = 0xF0 + c.toNat / 262144 :=
      toNat_ofNat (by omega)
    have hnumber : (((0xF0 + c.toNat / 262144 - 0xF0) * 64 + c.toNat / 4096 % 64) * 64 +
        c.toNat / 64 % 64) * 64 + c.toNat % 64 = c.toNat := by omega
    rw [if_neg h3, List.cons_append, List.cons_append, List.cons_append, List.cons_append,
      List.nil_append, utf8Chars.eq_def]
    simp only
    rw [hbyte, if_neg (by omega), if_neg (by simp; omega), if_neg (by simp),
      if_pos (by simp; omega),
      continuation_ofNat (Nat.mod_lt _ (by decide)), continuation_ofNat (Nat.mod_lt _ (by decide)),
      continuation_ofNat (Nat.mod_lt _ (by decide))]
    simp only [Option.bind_eq_bind, Option.bind_some]
    rw [hnumber, codePoint_toNat c (by omega)]
    cases utf8Chars rest <;> rfl

theorem utf8Chars_append (text : List Char) (rest : List UInt8) :
    utf8Chars (utf8Encode text ++ rest) = (utf8Chars rest).map (text ++ ·) := by
  induction text with
  | nil =>
    cases h : utf8Chars rest <;> simp [utf8Encode, h]
  | cons c text ih =>
    rw [utf8Encode, List.flatMap_cons, List.append_assoc, utf8Chars_charBytes]
    rw [utf8Encode] at ih
    rw [ih, Option.map_map]
    rfl

theorem utf8Chars_encode (text : List Char) : utf8Chars (utf8Encode text) = some text := by
  have h := utf8Chars_append text []
  rw [List.append_nil] at h
  rw [h]
  simp [utf8Chars]

end RoundTrip

section Cut

theorem charBytes_length_pos (c : Char) : 0 < (charBytes c).length := by
  simp only [charBytes]
  split_ifs <;> simp

theorem utf8Encode_ne_nil {text : List Char} (h : text ≠ []) : utf8Encode text ≠ [] := by
  intro hnil
  cases text with
  | nil => exact h rfl
  | cons c text =>
    rw [utf8Encode, List.flatMap_cons, List.append_eq_nil_iff] at hnil
    have hpos := charBytes_length_pos c
    rw [hnil.1] at hpos
    cases hpos

theorem utf8Chars_take_charBytes (c : Char) {n : ℕ} (hpos : 0 < n) (h : n < (charBytes c).length) :
    utf8Chars ((charBytes c).take n) = none := by
  have hlt := toNat_lt c
  unfold charBytes at h ⊢
  by_cases h1 : c.toNat < 0x80
  · rw [if_pos h1, List.length_singleton] at h
    omega
  rw [if_neg h1] at h ⊢
  by_cases h2 : c.toNat < 0x800
  · have hbyte : (UInt8.ofNat (0xC0 + c.toNat / 64)).toNat = 0xC0 + c.toNat / 64 :=
      toNat_ofNat (by omega)
    rw [if_pos h2] at h ⊢
    obtain rfl : n = 1 := by
      simp only [List.length_cons, List.length_nil] at h
      omega
    rw [List.take_succ_cons, List.take_zero, utf8Chars.eq_def]
    simp only
    rw [hbyte, if_neg (by omega)]
  rw [if_neg h2] at h ⊢
  by_cases h3 : c.toNat < 0x10000
  · have hbyte : (UInt8.ofNat (0xE0 + c.toNat / 4096)).toNat = 0xE0 + c.toNat / 4096 :=
      toNat_ofNat (by omega)
    rw [if_pos h3] at h ⊢
    have hn : n = 1 ∨ n = 2 := by
      simp only [List.length_cons, List.length_nil] at h
      omega
    obtain rfl | rfl := hn
    · rw [List.take_succ_cons, List.take_zero, utf8Chars.eq_def]
      simp only
      rw [hbyte, if_neg (by omega)]
    · rw [List.take_succ_cons, List.take_succ_cons, List.take_zero, utf8Chars.eq_def]
      simp only
      rw [hbyte, if_neg (by omega), if_neg (by simp)]
  · have hbyte : (UInt8.ofNat (0xF0 + c.toNat / 262144)).toNat = 0xF0 + c.toNat / 262144 :=
      toNat_ofNat (by omega)
    rw [if_neg h3] at h ⊢
    have hn : n = 1 ∨ n = 2 ∨ n = 3 := by
      simp only [List.length_cons, List.length_nil] at h
      omega
    obtain rfl | rfl | rfl := hn
    · rw [List.take_succ_cons, List.take_zero, utf8Chars.eq_def]
      simp only
      rw [hbyte, if_neg (by omega)]
    · rw [List.take_succ_cons, List.take_succ_cons, List.take_zero, utf8Chars.eq_def]
      simp only
      rw [hbyte, if_neg (by omega), if_neg (by simp; omega)]
    · rw [List.take_succ_cons, List.take_succ_cons, List.take_succ_cons, List.take_zero,
        utf8Chars.eq_def]
      simp only
      rw [hbyte, if_neg (by omega), if_neg (by simp; omega), if_neg (by simp)]

/-- A text that is cut can be read when the cut falls between two of its characters. -/
theorem utf8Chars_take {text kept : List Char} {n : ℕ} (hn : n ≤ (utf8Encode text).length) :
    utf8Chars ((utf8Encode text).take n) = some kept ↔
      kept <+: text ∧ (utf8Encode kept).length = n := by
  constructor
  · intro h
    induction text generalizing n kept with
    | nil =>
      have hzero : n = 0 := by simpa [utf8Encode] using hn
      subst hzero
      simp only [List.take_zero, utf8Chars, Option.some.injEq] at h
      subst h
      exact ⟨List.prefix_rfl, rfl⟩
    | cons c text ih =>
      have hcons : utf8Encode (c :: text) = charBytes c ++ utf8Encode text := List.flatMap_cons
      rw [hcons] at h hn
      by_cases hlt : n < (charBytes c).length
      · rcases Nat.eq_zero_or_pos n with rfl | hpos
        · simp only [List.take_zero, utf8Chars, Option.some.injEq] at h
          subst h
          exact ⟨List.nil_prefix, rfl⟩
        · rw [List.take_append_of_le_length hlt.le, utf8Chars_take_charBytes c hpos hlt] at h
          cases h
      · rw [List.take_append, List.take_of_length_le (by omega), utf8Chars_charBytes] at h
        obtain ⟨rest, hrest, rfl⟩ := Option.map_eq_some_iff.mp h
        rw [List.length_append] at hn
        obtain ⟨hstart, hlength⟩ := ih (by omega) hrest
        refine ⟨List.cons_prefix_cons.mpr ⟨rfl, hstart⟩, ?_⟩
        rw [show utf8Encode (c :: rest) = charBytes c ++ utf8Encode rest from List.flatMap_cons,
          List.length_append, hlength]
        omega
  · intro h
    obtain ⟨⟨rest, rfl⟩, rfl⟩ := h
    rw [show utf8Encode (kept ++ rest) = utf8Encode kept ++ utf8Encode rest from
      List.flatMap_append, List.take_left, utf8Chars_encode]

end Cut

end LibLitertLm
