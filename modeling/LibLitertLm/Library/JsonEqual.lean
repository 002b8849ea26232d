import LibLitertLm.Library.JsonText

namespace LibLitertLm.JsonText

variable {F : Type} (floatEq : F → F ⊕ ℤ → Bool)

/-- The number that a value is to a comparison; a truth value is one. -/
def numeric : Value F → Option (F ⊕ ℤ)
  | .bool b => some (.inr (if b then 1 else 0))
  | .int n => some (.inr n)
  | .float x => some (.inl x)
  | _ => none

def sameNumber : F ⊕ ℤ → F ⊕ ℤ → Bool
  | .inl x, y => floatEq x y
  | .inr m, .inl y => floatEq y (.inr m)
  | .inr m, .inr n => m == n

mutual

/-- `==` of what the decoder returns. The order of the fields does not count. -/
def same : Value F → Value F → Bool
  | .null, w => match w with
    | .null => true
    | _ => false
  | .str s, w => match w with
    | .str t => s == t
    | _ => false
  | .arr vs, w => match w with
    | .arr ws => sameItems vs ws
    | _ => false
  | .obj fs, w => match w with
    | .obj gs => sameFields fs gs && gs.all fun g ↦ fs.any fun f ↦ f.1 == g.1
    | _ => false
  | .bool b, w => match numeric w with
    | some n => sameNumber floatEq (.inr (if b then 1 else 0)) n
    | none => false
  | .int m, w => match numeric w with
    | some n => sameNumber floatEq (.inr m) n
    | none => false
  | .float x, w => match numeric w with
    | some n => sameNumber floatEq (.inl x) n
    | none => false

def sameItems : List (Value F) → List (Value F) → Bool
  | [], ws => ws.isEmpty
  | v :: vs, ws => match ws with
    | w :: ws => same v w && sameItems vs ws
    | [] => false

def sameFields : List (List CodePoint × Value F) → List (List CodePoint × Value F) → Bool
  | [], _ => true
  | (key, v) :: fs, gs =>
    (match gs.lookup key with
      | some w => same v w
      | none => false) && sameFields fs gs

end

def get (fields : List (List CodePoint × Value F)) (key : List CodePoint) : Value F :=
  (fields.lookup key).getD .null

variable {floatEq} {v w : Value F} {fs gs : List (List CodePoint × Value F)}

theorem same_str {s : List CodePoint} : same floatEq v (.str s) = true ↔ v = .str s := by
  cases v <;> simp [same, numeric]

theorem sameItems_strs {vs : List (Value F)} {ss : List (List CodePoint)} :
    sameItems floatEq vs (ss.map .str) = true ↔ vs = ss.map .str := by
  induction vs generalizing ss with
  | nil => cases ss <;> simp [sameItems]
  | cons v vs ih =>
    cases ss with
    | nil => simp [sameItems]
    | cons s ss => simp [sameItems, same_str, ih]

/-- A list of strings is only equal to itself. -/
theorem same_strs {ss : List (List CodePoint)} :
    same floatEq v (.arr (ss.map .str)) = true ↔ v = .arr (ss.map .str) := by
  cases v with
  | arr vs => simp [same, sameItems_strs]
  | _ => simp [same, numeric]

theorem sameFields_lookup (h : sameFields floatEq fs gs = true) {key : List CodePoint}
    (hv : fs.lookup key = some v) : ∃ w, gs.lookup key = some w ∧ same floatEq v w = true := by
  induction fs with
  | nil => cases hv
  | cons f fs ih =>
    obtain ⟨k, u⟩ := f
    rw [sameFields, Bool.and_eq_true] at h
    rw [List.lookup_cons] at hv
    split at hv
    next hkey =>
      obtain rfl : key = k := by simpa using hkey
      obtain rfl := Option.some.inj hv
      have hhead := h.1
      split at hhead
      next w hw => exact ⟨w, hw, hhead⟩
      next => cases hhead
    next => exact ih h.2 hv

/-- Equal objects have equal values for every key. -/
theorem same_obj (h : same floatEq (.obj fs) (.obj gs) = true) (key : List CodePoint) :
    fs.lookup key = none ∧ gs.lookup key = none ∨
      ∃ v w, fs.lookup key = some v ∧ gs.lookup key = some w ∧ same floatEq v w = true := by
  rw [same, Bool.and_eq_true] at h
  obtain ⟨hfields, hall⟩ := h
  cases hfs : fs.lookup key with
  | some v =>
    obtain ⟨w, hw, hsame⟩ := sameFields_lookup hfields hfs
    exact .inr ⟨v, w, rfl, hw, hsame⟩
  | none =>
    refine .inl ⟨rfl, List.lookup_eq_none_iff.mpr fun g hg ↦ ?_⟩
    obtain ⟨f, hf, hkey⟩ := List.any_eq_true.mp (List.all_eq_true.mp hall g hg)
    have hnone := List.lookup_eq_none_iff.mp hfs f hf
    have hkey' : f.1 = g.1 := by simpa using hkey
    rwa [hkey'] at hnone

theorem same_obj_right (h : same floatEq v (.obj gs) = true) : ∃ fs, v = .obj fs := by
  cases v with
  | obj fs => exact ⟨fs, rfl⟩
  | _ => simp [same, numeric] at h

def strings (m : List (List CodePoint × List CodePoint)) : Value F :=
  .obj (m.map fun entry ↦ (entry.1, .str entry.2))

theorem lookup_strings (m : List (List CodePoint × List CodePoint)) (key : List CodePoint) :
    (m.map fun entry ↦ (entry.1, (.str entry.2 : Value F))).lookup key =
      (m.lookup key).map .str := by
  induction m with
  | nil => rfl
  | cons entry m ih =>
    rw [List.map_cons, List.lookup_cons, List.lookup_cons, ih]
    split <;> rfl

theorem same_strings {m : List (List CodePoint × List CodePoint)}
    (h : same floatEq v (strings m) = true) :
    ∃ fs, v = .obj fs ∧ ∀ key, fs.lookup key = (m.lookup key).map .str := by
  obtain ⟨fs, rfl⟩ := same_obj_right h
  refine ⟨fs, rfl, fun key ↦ ?_⟩
  have hm := lookup_strings (F := F) m key
  rcases same_obj h key with ⟨hfs, hgs⟩ | ⟨u, w, hfs, hgs, hsame⟩
  · rw [hfs, ← hm, hgs]
  · rw [hm, Option.map_eq_some_iff] at hgs
    obtain ⟨s, hs, rfl⟩ := hgs
    rw [hfs, hs, same_str.mp hsame]
    rfl

/-- Two maps of strings that are equal to one value are equal. -/
theorem same_strings_unique {m m' : List (List CodePoint × List CodePoint)}
    (h : same floatEq v (strings m) = true) (h' : same floatEq v (strings m') = true)
    (key : List CodePoint) : m.lookup key = m'.lookup key := by
  obtain ⟨fs, rfl, hfs⟩ := same_strings h
  obtain ⟨fs', heq, hfs'⟩ := same_strings h'
  obtain rfl := Value.obj.inj heq
  have hmap := (hfs key).symm.trans (hfs' key)
  exact Option.map_injective (fun s t hst ↦ Value.str.inj hst) hmap

theorem lookup_of_nodup {α β : Type} [BEq α] [LawfulBEq α] {l : List (α × β)}
    (h : (l.map Prod.fst).Nodup) {f : α × β} (hf : f ∈ l) : l.lookup f.1 = some f.2 := by
  induction l with
  | nil => cases hf
  | cons g l ih =>
    rw [List.map_cons, List.nodup_cons] at h
    rw [List.lookup_cons]
    rcases List.mem_cons.mp hf with rfl | hf
    · rw [beq_self_eq_true]
    · have hne : f.1 ≠ g.1 := by
        intro heq
        exact h.1 (heq ▸ List.mem_map_of_mem hf)
      rw [beq_eq_false_iff_ne.mpr hne]
      exact ih h.2 hf

theorem sameFields_of_lookup
    (h : ∀ f ∈ fs, gs.lookup f.1 = some f.2 ∧ same floatEq f.2 f.2 = true) :
    sameFields floatEq fs gs = true := by
  induction fs with
  | nil => rfl
  | cons f fs ih =>
    obtain ⟨key, v⟩ := f
    obtain ⟨hlookup, hsame⟩ := h (key, v) (by simp)
    rw [sameFields, hlookup, ih fun f hf ↦ h f (by simp [hf])]
    simpa using hsame

/-- A value is equal to itself if its numbers are. -/
theorem Proper.same_self (hfloat : ∀ x, floatEq x (.inl x) = true) (h : Proper v) :
    same floatEq v v = true := by
  induction h with
  | null => rfl
  | bool b => simp [same, numeric, sameNumber]
  | int n => simp [same, numeric, sameNumber]
  | float x => simp [same, numeric, sameNumber, hfloat]
  | str h => simp [same]
  | @arr items h ih =>
    rw [same]
    clear h
    induction items with
    | nil => rfl
    | cons v vs ihs =>
      rw [sameItems, ih v (by simp), ihs fun v hv ↦ ih v (by simp [hv])]
      rfl
  | @obj fields hdistinct hkeys hvalues ih =>
    rw [same, Bool.and_eq_true]
    constructor
    · exact sameFields_of_lookup fun f hf ↦ ⟨lookup_of_nodup hdistinct hf, ih f hf⟩
    · refine List.all_eq_true.mpr fun g hg ↦ ?_
      exact List.any_eq_true.mpr ⟨g, hg, beq_self_eq_true g.1⟩

end LibLitertLm.JsonText
