import LibLitertLm.Library.JsonText

namespace LibLitertLm.JsonText

/-- A character of ASCII that is not one of the first control characters. -/
def Plain (c : Char) : Prop := 0x20 ≤ c.toNat ∧ c.toNat < 0x80

instance (c : Char) : Decidable (Plain c) := inferInstanceAs (Decidable (_ ∧ _))

def Ascii (u : List Char) : Prop := ∀ c ∈ u, Plain c

theorem cut_append {u t p q : List Char} {b : Char} (h : u ++ t = p ++ b :: q) :
    (∃ r, u = p ++ b :: r) ∨ ∃ p', p = u ++ p' ∧ t = p' ++ b :: q := by
  rcases List.append_eq_append_iff.mp h with ⟨p', hp, ht⟩ | ⟨r, hu, hr⟩
  · exact .inr ⟨p', hp, ht⟩
  · cases r with
    | nil => exact .inr ⟨[], by simpa using hu.symm, by simpa using hr.symm⟩
    | cons c r =>
      obtain ⟨rfl, -⟩ := List.cons.inj hr
      exact .inl ⟨r, hu⟩

theorem Ascii.not_cut {u p q : List Char} {b : Char} (hu : Ascii u) (hb : 127 < b.toNat) :
    u ≠ p ++ b :: q := by
  intro h
  obtain ⟨-, hsmall⟩ := hu b (by simp [h])
  omega

/-- A character beyond ASCII stands behind the ASCII text that a text begins with. -/
theorem Ascii.cut {u t p q : List Char} {b : Char} (hu : Ascii u) (hb : 127 < b.toNat)
    (h : u ++ t = p ++ b :: q) : ∃ p', p = u ++ p' ∧ t = p' ++ b :: q := by
  rcases cut_append h with ⟨r, hr⟩ | hbeyond
  · exact absurd hr (hu.not_cut hb)
  · exact hbeyond

theorem Ascii.append {u t : List Char} (hu : Ascii u) (ht : Ascii t) : Ascii (u ++ t) := by
  intro c hc
  exact (List.mem_append.mp hc).elim (hu c) (ht c)

theorem ascii_singleton {c : Char} (h : Plain c) : Ascii [c] := by
  simpa [Ascii] using h

theorem plain_of_isDigit {c : Char} (h : c.isDigit = true) : Plain c := by
  simp only [Char.isDigit, Bool.and_eq_true, decide_eq_true_eq] at h
  have hge : 48 ≤ c.toNat := UInt32.le_iff_toNat_le.mp h.1
  have hle : c.toNat ≤ 57 := UInt32.le_iff_toNat_le.mp h.2
  exact ⟨by omega, by omega⟩

theorem ascii_toDigits (n : ℕ) : Ascii (Nat.toDigits 10 n) :=
  fun _ hc ↦ plain_of_isDigit (Nat.isDigit_of_mem_toDigits (by decide) (by decide) hc)

theorem ascii_digits (ds : List (Fin 10)) : Ascii (ds.map digit) := by
  intro c hc
  obtain ⟨d, -, rfl⟩ := List.mem_map.mp hc
  exact plain_of_isDigit (isDigit_digit d)

theorem ascii_text (l : Lexeme) : Ascii l.text := by
  have hsign : Ascii (sign l.negative) := by
    cases l.negative <;> simp [sign, Ascii, Plain]
  have hfraction : Ascii l.fractionText := by
    unfold Lexeme.fractionText
    split_ifs
    · simp [Ascii]
    · exact (show Ascii ['.'] from ascii_singleton (by decide)).append (ascii_digits _)
  have hexponent : Ascii l.exponentText := by
    unfold Lexeme.exponentText
    cases l.exponent with
    | none => simp [Ascii]
    | some x =>
      obtain ⟨negative, d, ds⟩ := x
      refine (show Ascii ['e', if negative then '-' else '+'] from ?_).append
        (ascii_digits (d :: ds))
      cases negative <;> simp [Ascii, Plain]
  exact ((hsign.append (ascii_toDigits _)).append hfraction).append hexponent

theorem ascii_hex (n : ℕ) : Ascii (hex n) := by
  have hdigit : ∀ d < 16, Plain (Nat.digitChar d) := by decide
  intro c hc
  simp only [hex, List.mem_cons, List.not_mem_nil, or_false] at hc
  rcases hc with rfl | rfl | rfl | rfl <;> exact hdigit _ (Nat.mod_lt _ (by decide))

theorem plain_letter {letter : Char} {n : ℕ} (h : unescaped.lookup letter = some n) :
    Plain letter := by
  have hmem : (letter, n) ∈ unescaped := by
    obtain ⟨l₁, l₂, heq, -⟩ := List.lookup_eq_some_iff.mp h
    simp [heq]
  have hall : ∀ x ∈ unescaped, Plain x.1 := by decide
  exact hall _ hmem

/-- A character beyond ASCII that a written string contains is a code point of it. -/
theorem flatMap_cut {s : List CodePoint} {p q : List Char} {b : Char} (hb : 127 < b.toNat)
    (h : s.flatMap escape ++ ['"'] = p ++ b :: q) :
    ∃ s₁ s₂, s = s₁ ++ ofChar b :: s₂ ∧ p = s₁.flatMap escape := by
  induction s generalizing p with
  | nil => exact absurd h (Ascii.not_cut (ascii_singleton (by decide)) hb)
  | cons c s ih =>
    rw [List.flatMap_cons, List.append_assoc] at h
    have hascii (hu : Ascii (escape c)) :
        ∃ s₁ s₂, c :: s = s₁ ++ ofChar b :: s₂ ∧ p = s₁.flatMap escape := by
      obtain ⟨p', rfl, h'⟩ := hu.cut hb h
      obtain ⟨s₁, s₂, rfl, rfl⟩ := ih h'
      exact ⟨c :: s₁, s₂, rfl, rfl⟩
    have hc := escaped c
    generalize he : escape c = e at hc h
    cases hc with
    | letter letter hu hletter =>
      refine hascii ?_
      rw [he]
      exact fun d hd ↦ by
        rcases List.mem_pair.mp hd with rfl | rfl
        · decide
        · exact plain_letter hletter
    | unit hsmall =>
      refine hascii ?_
      rw [he]
      exact (show Ascii ['\\', 'u'] by simp [Ascii, Plain]).append (ascii_hex _)
    | plain d hd =>
      cases p with
      | nil =>
        obtain rfl : d = b := (List.cons.inj h).1
        exact ⟨[], s, by rw [hd]; rfl, rfl⟩
      | cons d' p =>
        obtain ⟨rfl, h'⟩ := List.cons.inj h
        obtain ⟨s₁, s₂, rfl, rfl⟩ := ih h'
        exact ⟨c :: s₁, s₂, rfl, by rw [List.flatMap_cons, he]; rfl⟩

variable {F : Type} (floats : Floats F)

def Cut (v : Value F) : Prop :=
  ∀ length fuel p b q, 127 < b.toNat → encode floats v = p ++ b :: q → 2 * p.length ≤ fuel →
    ∃ e, scanOnce length floats.parse fuel p = .error e

variable {floats} {length fuel : ℕ} {first : Bool} {p q : List Char} {b : Char}

theorem skipBlanks_cut {t : List Char} (ht : ∀ c ∈ t.head?, isBlank c = false)
    (h : t = p ++ b :: q) : skipBlanks p = p := by
  cases p with
  | nil => rfl
  | cons c p =>
    refine skipBlanks_cons (ht c ?_) p
    simp [h]

theorem encodeItems_blank (v : Value F) (vs : List (Value F)) :
    ∀ c ∈ (encodeItems floats [] (v :: vs)).head?, isBlank c = false := by
  obtain ⟨c, u, hc, hblank, -⟩ := encode_head floats v
  intro d hd
  simp only [encodeItems, hc, List.nil_append, List.cons_append, List.head?_cons, Option.mem_def,
    Option.some.injEq] at hd
  rwa [← hd]

variable (length fuel first) in
theorem scanItems_cut {vs : List (Value F)} (hreads : ∀ v ∈ vs, Reads floats v)
    (hcuts : ∀ v ∈ vs, Cut floats v) (hb : 127 < b.toNat)
    (h : encodeItems floats [] vs = p ++ b :: q) (hfuel : 2 * p.length + 1 ≤ fuel) :
    ∃ e, scanItems length floats.parse fuel first p = .error e := by
  induction vs generalizing p fuel first with
  | nil => exact absurd h (Ascii.not_cut (ascii_singleton (by decide)) hb)
  | cons v vs ih =>
    obtain ⟨fuel, rfl⟩ : ∃ n, fuel = n + 1 := ⟨fuel - 1, by omega⟩
    have htext :
      encodeItems floats [] (v :: vs) = encode floats v ++ encodeItems floats [','] vs := by
      simp [encodeItems]
    rw [htext] at h
    have hwithin (r : List Char) (hv : encode floats v = p ++ b :: r) :
        ∃ e, scanItems length floats.parse (fuel + 1) first p = .error e := by
      obtain ⟨e, he⟩ := hcuts v (by simp) length fuel p b r hb hv (by omega)
      obtain ⟨c, u, hc, -, hbracket⟩ := encode_head floats v
      have hopen : (first && p.head? == some ']') = false := by
        cases p with
        | nil => simp
        | cons d p =>
          obtain rfl : c = d := by
            rw [hc] at hv
            exact (List.cons.inj hv).1
          simp [hbracket]
      rw [scanItems, hopen, he]
      exact ⟨e, rfl⟩
    have hbeyond (p' : List Char) (hp : p = encode floats v ++ p')
        (ht : encodeItems floats [','] vs = p' ++ b :: q) :
        ∃ e, scanItems length floats.parse (fuel + 1) first p = .error e := by
      subst hp
      cases vs with
      | nil => exact absurd ht (Ascii.not_cut (ascii_singleton (by decide)) hb)
      | cons v' vs =>
        have hcomma : encodeItems floats [','] (v' :: vs) =
            [','] ++ encodeItems floats [] (v' :: vs) := by simp [encodeItems]
        rw [hcomma] at ht
        obtain ⟨p₁, rfl, htail⟩ := (ascii_singleton (by decide)).cut hb ht
        simp only [List.length_append, List.length_cons, List.length_nil] at hfuel
        obtain ⟨e, he⟩ := ih fuel false (fun v hv ↦ hreads v (by simp [hv]))
          (fun v hv ↦ hcuts v (by simp [hv])) htail (by omega)
        rw [List.singleton_append, scanItems_next (hreads v (by simp)) (by omega),
          skipBlanks_cut (encodeItems_blank v' vs) htail, he]
        exact ⟨e, rfl⟩
    rcases cut_append h with ⟨r, hr⟩ | ⟨p', hp, ht⟩
    · exact hwithin r hr
    · exact hbeyond p' hp ht

theorem quote_cut {s : List CodePoint} (hb : 127 < b.toNat) (h : quote s = p ++ b :: q) :
    ∃ s₁ s₂, s = s₁ ++ ofChar b :: s₂ ∧ p = '"' :: s₁.flatMap escape := by
  have hquote : quote s = ['"'] ++ (s.flatMap escape ++ ['"']) := rfl
  rw [hquote] at h
  obtain ⟨p', rfl, h'⟩ := (ascii_singleton (by decide)).cut hb h
  obtain ⟨s₁, s₂, hs, rfl⟩ := flatMap_cut hb h'
  exact ⟨s₁, s₂, hs, rfl⟩

theorem encodeFields_text (key : List CodePoint) (v : Value F)
    (fields : List (List CodePoint × Value F)) :
    encodeFields floats [] ((key, v) :: fields) =
      quote key ++ ([':'] ++ (encode floats v ++ encodeFields floats [','] fields)) := by
  simp [encodeFields]

variable (length fuel first) in
theorem scanFields_cut {fields : List (List CodePoint × Value F)}
    (hkeys : ∀ f ∈ fields, Unpaired f.1) (hreads : ∀ f ∈ fields, Reads floats f.2)
    (hcuts : ∀ f ∈ fields, Cut floats f.2) (hb : 127 < b.toNat)
    (h : encodeFields floats [] fields = p ++ b :: q) (hfuel : 2 * p.length + 1 ≤ fuel) :
    ∃ e, scanFields length floats.parse fuel first p = .error e := by
  induction fields generalizing p fuel first with
  | nil => exact absurd h (Ascii.not_cut (ascii_singleton (by decide)) hb)
  | cons f fields ih =>
    obtain ⟨key, v⟩ := f
    have hkey : Unpaired key := hkeys (key, v) (by simp)
    have hv : Reads floats v := hreads (key, v) (by simp)
    obtain ⟨fuel, rfl⟩ : ∃ n, fuel = n + 1 := ⟨fuel - 1, by omega⟩
    rw [encodeFields_text] at h
    have hinKey (r : List Char) (hr : quote key = p ++ b :: r) :
        ∃ e, scanFields length floats.parse (fuel + 1) first p = .error e := by
      obtain ⟨s₁, s₂, rfl, rfl⟩ := quote_cut hb hr
      obtain ⟨e, he⟩ := scanString_open length (length - ('"' :: s₁.flatMap escape).length)
        (List.IsChain.left_of_append hkey)
      have hopen : (first && ('"' :: s₁.flatMap escape).head? == some '}') = false := by simp
      rw [scanFields, hopen, he]
      exact ⟨e, rfl⟩
    have hinValue (p' r : List Char) (hp : p = quote key ++ ':' :: p')
        (hr : encode floats v = p' ++ b :: r) :
        ∃ e, scanFields length floats.parse (fuel + 1) first p = .error e := by
      subst hp
      obtain ⟨c, u, hc, hblank, -⟩ := encode_head floats v
      have hhead : ∀ d ∈ (encode floats v).head?, isBlank d = false := by simp [hc, hblank]
      simp only [List.length_append, List.length_cons] at hfuel
      obtain ⟨e, he⟩ := hcuts (key, v) (by simp) length fuel p' b r hb hr (by omega)
      rw [scanFields_key hkey, skipBlanks_cut hhead hr, he]
      exact ⟨e, rfl⟩
    have hbeyond (p' : List Char) (hp : p = quote key ++ ':' :: (encode floats v ++ p'))
        (ht : encodeFields floats [','] fields = p' ++ b :: q) :
        ∃ e, scanFields length floats.parse (fuel + 1) first p = .error e := by
      subst hp
      cases fields with
      | nil => exact absurd ht (Ascii.not_cut (ascii_singleton (by decide)) hb)
      | cons f fields =>
        have hcomma : encodeFields floats [','] (f :: fields) =
            [','] ++ encodeFields floats [] (f :: fields) := by
          obtain ⟨key', v'⟩ := f
          simp [encodeFields]
        rw [hcomma] at ht
        obtain ⟨p₁, rfl, htail⟩ := (ascii_singleton (by decide)).cut hb ht
        simp only [List.length_append, List.length_cons, List.length_nil] at hfuel
        obtain ⟨e, he⟩ := ih fuel false (fun f hf ↦ hkeys f (by simp [hf]))
          (fun f hf ↦ hreads f (by simp [hf])) (fun f hf ↦ hcuts f (by simp [hf])) htail (by omega)
        have hhead : ∀ d ∈ (encodeFields floats [] (f :: fields)).head?, isBlank d = false := by
          obtain ⟨key', v'⟩ := f
          simp [encodeFields, quote, isBlank]
        rw [List.singleton_append, scanFields_next hkey hv (by omega),
          skipBlanks_cut hhead htail, he]
        exact ⟨e, rfl⟩
    rcases cut_append h with ⟨r, hr⟩ | ⟨p₁, rfl, h₁⟩
    · exact hinKey r hr
    obtain ⟨p₂, rfl, h₂⟩ := (ascii_singleton (by decide)).cut hb h₁
    rcases cut_append h₂ with ⟨r, hr⟩ | ⟨p₃, rfl, h₃⟩
    · exact hinValue p₂ r rfl hr
    · exact hbeyond p₃ rfl h₃

/-- A value whose text is cut off within a string is not read. -/
theorem Proper.cuts {v : Value F} (h : Proper v) : Cut floats v := by
  have hatom {v : Value F} (hascii : Ascii (encode floats v)) : Cut floats v :=
    fun length fuel p b q hb htext _ ↦ absurd htext (hascii.not_cut hb)
  induction h with
  | null => exact hatom (by simp [encode, Ascii, Plain])
  | bool b => exact hatom (by cases b <;> simp [encode, Ascii, Plain])
  | int n =>
    refine hatom ?_
    rw [encode_int]
    exact ascii_text _
  | float x => exact hatom (ascii_text _)
  | str h =>
    intro length fuel p b q hb htext hfuel
    obtain ⟨s₁, s₂, rfl, rfl⟩ := quote_cut hb htext
    cases fuel with
    | zero => exact ⟨_, rfl⟩
    | succ fuel =>
      obtain ⟨e, he⟩ := scanString_open length (length - ('"' :: s₁.flatMap escape).length)
        (List.IsChain.left_of_append h)
      rw [scanOnce, he]
      exact ⟨e, rfl⟩
  | @arr items h ih =>
    intro length fuel p b q hb htext hfuel
    have hbracket : encode floats (.arr items) = ['['] ++ encodeItems floats [] items := by
      simp [encode]
    rw [hbracket] at htext
    obtain ⟨p, rfl, htail⟩ := (ascii_singleton (by decide)).cut hb htext
    simp only [List.length_append, List.length_cons, List.length_nil] at hfuel
    obtain ⟨fuel, rfl⟩ : ∃ n, fuel = n + 1 := ⟨fuel - 1, by omega⟩
    have hblanks : skipBlanks p = p := by
      cases items with
      | nil => exact absurd htail (Ascii.not_cut (ascii_singleton (by decide)) hb)
      | cons v vs => exact skipBlanks_cut (encodeItems_blank v vs) htail
    obtain ⟨e, he⟩ :=
      scanItems_cut length fuel true (fun v hv ↦ (h v hv).reads) ih hb htail (by omega)
    rw [List.singleton_append, scanOnce, hblanks, he]
    exact ⟨e, rfl⟩
  | @obj fields hdistinct hkeys hvalues ih =>
    intro length fuel p b q hb htext hfuel
    have hbrace : encode floats (.obj fields) = ['\x7b'] ++ encodeFields floats [] fields := by
      simp [encode]
    rw [hbrace] at htext
    obtain ⟨p, rfl, htail⟩ := (ascii_singleton (by decide)).cut hb htext
    simp only [List.length_append, List.length_cons, List.length_nil] at hfuel
    obtain ⟨fuel, rfl⟩ : ∃ n, fuel = n + 1 := ⟨fuel - 1, by omega⟩
    have hhead : ∀ d ∈ (encodeFields floats [] fields).head?, isBlank d = false := by
      cases fields with
      | nil => simp [encodeFields, isBlank]
      | cons f fields =>
        obtain ⟨key, v⟩ := f
        simp [encodeFields, quote, isBlank]
    obtain ⟨e, he⟩ := scanFields_cut length fuel true hkeys (fun f hf ↦ (hvalues f hf).reads) ih hb
      htail (by omega)
    rw [List.singleton_append, scanOnce, skipBlanks_cut hhead htail, he]
    exact ⟨e, rfl⟩

mutual

def points : Value F → List CodePoint
  | .str s => s
  | .arr items => itemPoints items
  | .obj fields => fieldPoints fields
  | _ => []

def itemPoints : List (Value F) → List CodePoint
  | [] => []
  | v :: vs => points v ++ itemPoints vs

def fieldPoints : List (List CodePoint × Value F) → List CodePoint
  | [] => []
  | (key, v) :: fields => key ++ points v ++ fieldPoints fields

end

def Written (u : List Char) (s : List CodePoint) : Prop :=
  ∀ c ∈ u, Plain c ∨ 0x20 ≤ c.toNat ∧ ofChar c ∈ s

theorem Ascii.written {u : List Char} (h : Ascii u) (s : List CodePoint) : Written u s :=
  fun c hc ↦ .inl (h c hc)

theorem Written.append {u t : List Char} {s : List CodePoint} (hu : Written u s)
    (ht : Written t s) : Written (u ++ t) s := by
  intro c hc
  exact (List.mem_append.mp hc).elim (hu c) (ht c)

theorem Written.mono {u : List Char} {s s' : List CodePoint} (hu : Written u s) (h : s ⊆ s') :
    Written u s' :=
  fun c hc ↦ (hu c hc).imp_right fun hs ↦ ⟨hs.1, h hs.2⟩

theorem written_escape (p : CodePoint) : Written (escape p) [p] := by
  have hp := escaped p
  generalize escape p = e at hp
  cases hp with
  | letter letter hu hletter =>
    refine Ascii.written (fun c hc ↦ ?_) _
    rcases List.mem_pair.mp hc with rfl | rfl
    · decide
    · exact plain_letter hletter
  | unit h =>
    exact ((show Ascii ['\\', 'u'] by simp [Ascii, Plain]).append (ascii_hex _)).written _
  | plain d hd _ _ hcontrol =>
    intro c hc
    obtain rfl : c = d := by simpa using hc
    exact .inr ⟨by omega, by simp [hd]⟩

theorem written_quote (s : List CodePoint) : Written (quote s) s := by
  have hquote : Written ['"'] s := (ascii_singleton (by decide)).written s
  refine (hquote.append fun c hc ↦ ?_).append hquote
  obtain ⟨p, hp, hc⟩ := List.mem_flatMap.mp hc
  exact (written_escape p).mono (by simpa using hp) c hc

variable (floats) in
theorem Proper.written {v : Value F} (h : Proper v) : Written (encode floats v) (points v) := by
  have hsingle {c : Char} (hc : Plain c) (s : List CodePoint) : Written [c] s :=
    (ascii_singleton hc).written s
  induction h with
  | null => exact Ascii.written (by simp [encode, Ascii, Plain]) _
  | bool b => exact Ascii.written (by cases b <;> simp [encode, Ascii, Plain]) _
  | int n =>
    rw [encode_int]
    exact (ascii_text _).written _
  | float x => exact (ascii_text _).written _
  | str h => exact written_quote _
  | @arr items h ih =>
    have hitems (separator : List Char) (hseparator : Ascii separator) :
        Written (encodeItems floats separator items) (itemPoints items) := by
      clear h
      induction items generalizing separator with
      | nil => exact hsingle (by decide) _
      | cons v vs ihs =>
        have hv := ih v (by simp)
        have hvs := ihs (fun v hv ↦ ih v (by simp [hv])) [','] (ascii_singleton (by decide))
        refine ((hseparator.written _).append (hv.mono ?_)).append (hvs.mono ?_)
        · exact List.subset_append_left _ _
        · exact List.subset_append_right _ _
    exact (hsingle (by decide) _).append (hitems [] (by simp [Ascii]))
  | @obj fields hdistinct hkeys hvalues ih =>
    have hfields (separator : List Char) (hseparator : Ascii separator) :
        Written (encodeFields floats separator fields) (fieldPoints fields) := by
      clear hdistinct hkeys hvalues
      induction fields generalizing separator with
      | nil => exact hsingle (by decide) _
      | cons f fields ihs =>
        obtain ⟨key, v⟩ := f
        have hv := ih (key, v) (by simp)
        have hrest := ihs (fun f hf ↦ ih f (by simp [hf])) [','] (ascii_singleton (by decide))
        have hkey := (hseparator.written (fieldPoints ((key, v) :: fields))).append
          ((written_quote key).mono (by simp [fieldPoints]))
        have hcolon := (hsingle (c := ':') (by decide) (fieldPoints ((key, v) :: fields))).append
          (hv.mono (by simp [fieldPoints]))
        exact (hkey.append hcolon).append (hrest.mono (by simp [fieldPoints]))
    exact (hsingle (by decide) _).append (hfields [] (by simp [Ascii]))

variable (floats) in
theorem Proper.escapes {v : Value F} (h : Proper v) {p : CodePoint} (hp : p ∈ points v) :
    escape p ⊆ encode floats v := by
  have hstring {s : List CodePoint} (hs : p ∈ s) : escape p ⊆ quote s := by
    intro c hc
    have hmem : c ∈ s.flatMap escape := List.mem_flatMap.mpr ⟨p, hs, hc⟩
    simp [quote, hmem]
  induction h with
  | null | bool | int | float => simp [points] at hp
  | str h => exact hstring hp
  | @arr items h ih =>
    have hitems (separator : List Char) (hp : p ∈ itemPoints items) :
        escape p ⊆ encodeItems floats separator items := by
      clear h
      induction items generalizing separator with
      | nil => cases hp
      | cons v vs ihs =>
        rcases List.mem_append.mp hp with hp' | hp'
        · intro c hc
          have hmem := ih v (by simp) hp' hc
          simp [encodeItems, hmem]
        · intro c hc
          have hmem := ihs (fun v hv ↦ ih v (by simp [hv])) hp' [','] hp' hc
          simp [encodeItems, hmem]
    exact List.subset_cons_of_subset _ (hitems [] hp)
  | @obj fields hdistinct hkeys hvalues ih =>
    have hfields (separator : List Char) (hp : p ∈ fieldPoints fields) :
        escape p ⊆ encodeFields floats separator fields := by
      clear hdistinct hkeys hvalues
      induction fields generalizing separator with
      | nil => cases hp
      | cons f fields ihs =>
        obtain ⟨key, v⟩ := f
        intro c hc
        rcases List.mem_append.mp hp with hp' | hp'
        · rcases List.mem_append.mp hp' with hp' | hp'
          · have hmem := hstring hp' hc
            simp [encodeFields, hmem]
          · have hmem := ih (key, v) (by simp) hp' hc
            simp [encodeFields, hmem]
        · have hmem := ihs (fun f hf ↦ ih f (by simp [hf])) hp' [','] hp' hc
          simp [encodeFields, hmem]
    exact List.subset_cons_of_subset _ (hfields [] hp)

end LibLitertLm.JsonText
