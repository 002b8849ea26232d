import LibLitertLm.Library.JsonText

namespace LibLitertLm.Utf16

open JsonText

def leads (u : UInt16) : Bool := isHigh (point u.toNat)

def trails (u : UInt16) : Bool := isLow (point u.toNat)

def join (a b : UInt16) : CodePoint :=
  point (0x10000 + (a.toNat - 0xD800) * 0x400 + (b.toNat - 0xDC00))

def points : List UInt16 → List CodePoint
  | [] => []
  | [a] => [point a.toNat]
  | a :: b :: rest =>
    if leads a && trails b then join a b :: points rest
    else point a.toNat :: points (b :: rest)

def unitsOf (c : CodePoint) : List UInt16 :=
  if c.val < 0x10000 then [UInt16.ofNat c.val]
  else [UInt16.ofNat (0xD800 + (c.val - 0x10000) / 0x400),
    UInt16.ofNat (0xDC00 + (c.val - 0x10000) % 0x400)]

def units (s : List CodePoint) : List UInt16 := s.flatMap unitsOf

theorem toNat_lt_units (u : UInt16) : u.toNat < 0x10000 := u.toNat_lt

theorem point_unit (u : UInt16) : (point u.toNat).val = u.toNat := by
  have h := toNat_lt_units u
  exact Nat.mod_eq_of_lt (by omega)

theorem leads_iff (u : UInt16) : leads u = true ↔ 0xD800 ≤ u.toNat ∧ u.toNat < 0xDC00 := by
  simp [leads, isHigh, point_unit]

theorem trails_iff (u : UInt16) : trails u = true ↔ 0xDC00 ≤ u.toNat ∧ u.toNat < 0xE000 := by
  simp [trails, isLow, point_unit]

theorem join_val {a b : UInt16} (ha : leads a = true) (hb : trails b = true) :
    (join a b).val = 0x10000 + (a.toNat - 0xD800) * 0x400 + (b.toNat - 0xDC00) := by
  rw [leads_iff] at ha
  rw [trails_iff] at hb
  exact Nat.mod_eq_of_lt (by omega)

theorem unitsOf_point (u : UInt16) : unitsOf (point u.toNat) = [u] := by
  rw [unitsOf, point_unit, if_pos (toNat_lt_units u), UInt16.ofNat_toNat]

theorem unitsOf_join {a b : UInt16} (ha : leads a = true) (hb : trails b = true) :
    unitsOf (join a b) = [a, b] := by
  have hval := join_val ha hb
  rw [leads_iff] at ha
  rw [trails_iff] at hb
  have hhigh : 0xD800 + ((join a b).val - 0x10000) / 0x400 = a.toNat := by omega
  have hlow : 0xDC00 + ((join a b).val - 0x10000) % 0x400 = b.toNat := by omega
  rw [unitsOf, if_neg (by omega), hhigh, hlow, UInt16.ofNat_toNat, UInt16.ofNat_toNat]

/-- No text is lost between code units and code points. -/
theorem units_points (s : List UInt16) : units (points s) = s := by
  induction s using points.induct with
  | case1 => rfl
  | case2 a =>
    rw [points, units, List.flatMap_singleton]
    exact unitsOf_point a
  | case3 a b rest h ih =>
    obtain ⟨ha, hb⟩ := Bool.and_eq_true_iff.mp h
    rw [units] at ih
    rw [points, if_pos h, units, List.flatMap_cons, unitsOf_join ha hb, ih]
    rfl
  | case4 a b rest h ih =>
    rw [units] at ih
    rw [points, if_neg h, units, List.flatMap_cons, unitsOf_point, ih]
    rfl

/-- Behind a surrogate of the first kind stands none of the second. -/
theorem head_points {b : UInt16} (hb : trails b = false) (rest : List UInt16) :
    ∀ c ∈ (points (b :: rest)).head?, isLow c = false := by
  intro c hc
  cases rest with
  | nil =>
    obtain rfl : point b.toNat = c := by simpa [points] using hc
    exact hb
  | cons d rest =>
    by_cases h : (leads b && trails d) = true
    · obtain ⟨hleads, htrails⟩ := Bool.and_eq_true_iff.mp h
      have hval := join_val hleads htrails
      obtain rfl : join b d = c := by simpa [points, h] using hc
      rw [isLow, hval]
      simp
      omega
    · obtain rfl : point b.toNat = c := by simpa [points, h] using hc
      exact hb

theorem unpaired_points (s : List UInt16) : Unpaired (points s) := by
  induction s using points.induct with
  | case1 => exact .nil
  | case2 a => exact .singleton _
  | case3 a b rest h ih =>
    obtain ⟨ha, hb⟩ := Bool.and_eq_true_iff.mp h
    have hval := join_val ha hb
    rw [points, if_pos h]
    refine List.isChain_cons.mpr ⟨fun c _ hpair ↦ ?_, ih⟩
    obtain ⟨hhigh, -⟩ := hpair
    rw [isHigh, hval] at hhigh
    simp at hhigh
    omega
  | case4 a b rest h ih =>
    rw [points, if_neg h]
    refine List.isChain_cons.mpr ⟨fun c hc hpair ↦ ?_, ih⟩
    obtain ⟨hhigh, hlow⟩ := hpair
    have hb : trails b = false := by
      by_contra htrails
      exact h (Bool.and_eq_true_iff.mpr ⟨hhigh, Bool.not_eq_false _ ▸ htrails⟩)
    rw [head_points hb rest c hc] at hlow
    cases hlow

end LibLitertLm.Utf16
