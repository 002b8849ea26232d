import LibLitertLm.Tool.Symbols

namespace LibLitertLm.Tool

open Regex

/-- A call of `_lookup` as the generator writes it: any type arguments, any
white space, and either layout of the argument list. -/
structure Lookup (w : WordClass) where
  types : List Char
  quote : Char
  first : Char
  others : List Char
  afterName : List Char
  afterTypes : List Char
  afterParen : List Char
  afterSymbol : List Char
  comma : Option (List Char)
  types_plain : ∀ c ∈ types, isQuote c = false
  quote_quote : isQuote quote = true
  first_first : isFirst first = true
  others_word : ∀ c ∈ others, w.word c = true
  gaps_space : ∀ c ∈ afterName ++ afterTypes ++ afterParen ++ afterSymbol ++ comma.getD [],
    isSpace c = true

def opens : List Char → Bool
  | '>' :: rest =>
    match rest.dropWhile isSpace with
    | '(' :: rest => (rest.dropWhile isSpace).head?.any isQuote
    | _ => false
  | _ => false

structure Filler where
  text : List Char
  calm : ∀ v u, text = v ++ u → opens u = false

/-- A generated source: lookups, each behind some text that does not run into
the name `_lookup`, and a rest. -/
structure Source (w : WordClass) where
  entries : List ({f : Filler // ∀ c ∈ f.text.getLast?, w.word c = false} × Lookup w)
  rest : Filler

variable {w : WordClass}

def Lookup.symbol (l : Lookup w) : List Char := l.first :: l.others

def Lookup.arguments (l : Lookup w) : List Char :=
  l.afterTypes ++ '(' :: (l.afterParen ++ l.quote :: l.first :: (l.others ++ l.quote ::
    (l.afterSymbol ++ match l.comma with
      | none => [')']
      | some gap => ',' :: (gap ++ [')']))))

def Lookup.text (l : Lookup w) : List Char :=
  lookupName ++ (l.afterName ++ '<' :: (l.types ++ '>' :: l.arguments))

def entriesText :
    List ({f : Filler // ∀ c ∈ f.text.getLast?, w.word c = false} × Lookup w) → List Char
  | [] => []
  | (filler, l) :: entries => filler.1.text ++ (l.text ++ entriesText entries)

def Source.text (s : Source w) : List Char := entriesText s.entries ++ s.rest.text

def Source.lookups (s : Source w) : List (Lookup w) := s.entries.map Prod.snd

section Tail

variable {before u v a b k group rest : List Char}

theorem quote_not_space (c : Char) (h : isSpace c = true) : isQuote c = false := by
  by_contra hq
  simp only [isQuote, Bool.not_eq_false, Bool.or_eq_true, beq_iff_eq] at hq
  rcases hq with rfl | rfl <;> simp [isSpace] at h

theorem paren_not_space (c : Char) (h : isSpace c = true) : (c == '(') = false := by
  by_contra hq
  obtain rfl : c = '(' := by simpa using hq
  simp [isSpace] at h

theorem close_not_space (c : Char) (h : isSpace c = true) : (c == ')') = false := by
  by_contra hq
  obtain rfl : c = ')' := by simpa using hq
  simp [isSpace] at h

theorem less_not_space (c : Char) (h : isSpace c = true) : (c == '<') = false := by
  by_contra hq
  obtain rfl : c = '<' := by simpa using hq
  simp [isSpace] at h

theorem quote_not_word (c : Char) (h : w.word c = true) : isQuote c = false := by
  by_contra hq
  simp only [isQuote, Bool.not_eq_false, Bool.or_eq_true, beq_iff_eq] at hq
  rcases hq with rfl | rfl <;> rw [w.ascii _ (by decide)] at h <;> simp [Char.isAlphanum] at h

/-- A tail cannot begin where no quoted argument list opens. -/
theorem tail_of_opens (h : opens u = false) :
    ends w.word (lookupTail w) ⟨before, u, group⟩ = [] := by
  unfold lookupTail
  cases u with
  | nil => rfl
  | cons c u =>
    rw [ends_one_cons]
    split_ifs with hc
    · obtain rfl : c = '>' := by simpa using hc
      simp only [opens] at h
      rw [spaces, ends_many (fun _ c _ ↦ ends_one_eq_nil paren_not_space c)]
      cases hu : u.dropWhile isSpace with
      | nil => rfl
      | cons c u =>
        rw [ends_one_cons]
        split_ifs with hc
        · obtain rfl : c = '(' := by simpa using hc
          simp only [hu] at h
          rw [spaces, ends_many (fun _ c _ ↦ ends_one_eq_nil quote_not_space c)]
          cases hv : u.dropWhile isSpace with
          | nil => rfl
          | cons c v =>
            have hq : isQuote c = false := by simpa [hv] using h
            rw [ends_one_cons, hq]
            rfl
        · rfl
    · rfl

theorem ends_gap {r : Regex} {gap : List Char} {c : Char}
    (hr : ∀ e c rest, e.rest = c :: rest → isSpace c = true → ends w.word r e = [])
    (hgap : ∀ c ∈ gap, isSpace c = true) (hc : isSpace c = false) :
    ends w.word (spaces r) ⟨before, gap ++ c :: rest, group⟩ =
      ends w.word r ⟨gap.reverse ++ before, c :: rest, group⟩ := by
  rw [spaces, ends_many hr, List.takeWhile_append_of_pos hgap, List.dropWhile_append_of_pos hgap]
  simp [hc]

/-- The tail matches the end of a call exactly when there is no trailing comma. -/
theorem tail_arguments (l : Lookup w) :
    ends w.word (lookupTail w) ⟨before, '>' :: (l.arguments ++ k), group⟩ =
      if l.comma.isNone then [⟨('>' :: l.arguments).reverse ++ before, k, l.symbol⟩] else [] := by
  have hgaps := l.gaps_space
  simp only [List.forall_mem_append] at hgaps
  obtain ⟨⟨⟨⟨-, htypes⟩, hparen⟩, hsymbol⟩, hcomma⟩ := hgaps
  have hquote := l.quote_quote
  have hspace : isSpace l.quote = false := by
    by_contra hs
    rw [quote_not_space _ (by simpa using hs)] at hquote
    cases hquote
  have hword : w.word l.quote = false := by
    by_contra hs
    rw [quote_not_word (w := w) _ (by simpa using hs)] at hquote
    cases hquote
  unfold lookupTail Lookup.arguments
  rw [ends_one_cons, if_pos (by rfl), List.append_assoc, List.cons_append,
    ends_gap (fun _ c _ ↦ ends_one_eq_nil paren_not_space c) htypes rfl, ends_one_cons,
    if_pos (by rfl), List.append_assoc, List.cons_append,
    ends_gap (fun _ c _ ↦ ends_one_eq_nil quote_not_space c) hparen hspace, ends_one_cons,
    if_pos hquote, List.cons_append, ends_word (fun _ c _ ↦ ends_one_eq_nil quote_not_word c)
    l.first_first, List.append_assoc, List.takeWhile_append_of_pos l.others_word,
    List.dropWhile_append_of_pos l.others_word, List.cons_append]
  simp only [List.takeWhile_cons, List.dropWhile_cons, hword, Bool.false_eq_true, if_false,
    ends_one_cons, hquote, if_true, List.append_nil, List.append_assoc]
  cases hc : l.comma with
  | none =>
    simp only [List.singleton_append]
    rw [ends_gap (fun _ c _ ↦ ends_last_eq_nil close_not_space c) hsymbol rfl]
    simp [Lookup.symbol]
  | some gap =>
    simp only [List.cons_append]
    rw [ends_gap (fun _ c _ ↦ ends_last_eq_nil close_not_space c) hsymbol rfl]
    simp

theorem opens_plain (h : ∀ c ∈ u, isQuote c = false) : opens u = false := by
  unfold opens
  split
  next rest =>
    split
    next rest' hrest =>
      have hmem (c : Char) (hc : c ∈ rest'.dropWhile isSpace) : isQuote c = false := by
        refine h c (List.mem_cons_of_mem _ ?_)
        refine (List.dropWhile_suffix isSpace).mem ?_
        rw [hrest]
        exact List.mem_cons_of_mem _ ((List.dropWhile_suffix isSpace).mem hc)
      cases hv : rest'.dropWhile isSpace with
      | nil => rfl
      | cons c v => simpa using hmem c (by simp [hv])
    next => rfl
  next => rfl

theorem dropWhile_of_head {p : Char → Bool} (hk : ∀ c ∈ k.head?, p c = false) :
    k.dropWhile p = k := by
  cases k with
  | nil => rfl
  | cons c k => simp [hk c (by simp)]

theorem opens_append (hu : u ≠ []) (h : opens u = false)
    (hk : ∀ c ∈ k.head?, isSpace c = false ∧ c ≠ '(' ∧ isQuote c = false) :
    opens (u ++ k) = false := by
  have hdrop := dropWhile_of_head fun c hc ↦ (hk c hc).1
  obtain ⟨c, u, rfl⟩ := List.exists_cons_of_ne_nil hu
  by_cases hc : c = '>'
  · subst hc
    simp only [List.cons_append, opens, List.dropWhile_append] at h ⊢
    cases hu : u.dropWhile isSpace with
    | nil =>
      simp only [List.isEmpty_nil, if_true, hdrop]
      cases k with
      | nil => rfl
      | cons c k =>
        have hne : c ≠ '(' := (hk c (by simp)).2.1
        split
        next he => exact absurd (List.cons.inj he).1 hne
        next => rfl
    | cons c v =>
      simp only [hu, List.isEmpty_cons, Bool.false_eq_true, if_false, List.cons_append] at h ⊢
      by_cases hc : c = '('
      · subst hc
        simp only [List.dropWhile_append] at h ⊢
        cases hv : v.dropWhile isSpace with
        | nil =>
          simp only [List.isEmpty_nil, if_true, hdrop]
          cases k with
          | nil => rfl
          | cons c k => simpa using (hk c (by simp)).2.2
        | cons c v => simpa [hv] using h
      · split
        next he => exact absurd (List.cons.inj he).1 hc
        next => rfl
  · unfold opens
    split
    next he => exact absurd (List.cons.inj he).1 hc
    next => rfl

end Tail

section Scan

/-- No tail begins in `a` when `k` follows. -/
def Calm (w : WordClass) (a k : List Char) : Prop :=
  ∀ v u, a = v ++ u → u ≠ [] → ∀ before group,
    ends w.word (lookupTail w) ⟨before, u ++ k, group⟩ = []

variable {before u v a b k group rest : List Char} {e : Spot}

theorem Calm.append (ha : Calm w a (b ++ k)) (hb : Calm w b k) : Calm w (a ++ b) k := by
  intro v u h hu before group
  rcases List.append_eq_append_iff.mp h with ⟨c, rfl, rfl⟩ | ⟨c, rfl, rfl⟩
  · exact hb c u rfl hu before group
  · cases c with
    | nil => exact hb [] b rfl (by simpa using hu) before group
    | cons x c =>
      rw [List.append_assoc]
      exact ha v (x :: c) rfl (by simp) before group

theorem calm_of_opens (h : ∀ v u, a = v ++ u → opens u = false)
    (hk : ∀ c ∈ k.head?, isSpace c = false ∧ c ≠ '(' ∧ isQuote c = false) : Calm w a k := by
  intro v u hv hu before group
  exact tail_of_opens (opens_append hu (h v u hv) hk)

theorem calm_of_plain (h : ∀ c ∈ a, isQuote c = false)
    (hk : ∀ c ∈ k.head?, isSpace c = false ∧ c ≠ '(' ∧ isQuote c = false) : Calm w a k := by
  refine calm_of_opens (fun v u hv ↦ opens_plain fun c hc ↦ h c ?_) hk
  rw [hv]
  exact List.mem_append_right v hc

theorem calm_of_not_mem (h : '>' ∉ a) : Calm w a k := by
  intro v u hv hu before group
  obtain ⟨c, u, rfl⟩ := List.exists_cons_of_ne_nil hu
  have hc : (c == '>') = false := by
    by_contra hc
    obtain rfl : c = '>' := by simpa using hc
    exact h (by simp [hv])
  unfold lookupTail
  rw [List.cons_append, ends_one_cons, hc]
  rfl

theorem Calm.lazily (h : Calm w a k) :
    ends w.word (lazily (lookupTail w)) ⟨before, a ++ k, group⟩ =
      ends w.word (lazily (lookupTail w)) ⟨a.reverse ++ before, k, group⟩ :=
  ends_lazily fun v u hv hu ↦ h v u hv hu _ _

theorem Calm.of_append (h : Calm w (a ++ b) k) : Calm w b k :=
  fun v u hv ↦ h (a ++ v) u (by rw [hv, List.append_assoc])

/-- A head ends at one place at most, without passing a tail. -/
theorem head_cases (r : Regex) (before rest group : List Char) :
    ends w.word (lookupHead r) ⟨before, rest, group⟩ = [] ∨
      ∃ u v, rest = u ++ v ∧ '>' ∉ u ∧ ends w.word (lookupHead r) ⟨before, rest, group⟩ =
        ends w.word r ⟨u.reverse ++ before, v, group⟩ := by
  unfold lookupHead
  rw [ends_boundary]
  split_ifs
  · by_cases hp : lookupName <+: rest
    · obtain ⟨rest, rfl⟩ := hp
      rw [ends_lit, spaces, ends_many (fun _ c _ ↦ ends_one_eq_nil less_not_space c)]
      cases hd : rest.dropWhile isSpace with
      | nil => exact .inl rfl
      | cons c v =>
        rw [ends_one_cons]
        split_ifs with hc
        · obtain rfl : c = '<' := by simpa using hc
          refine .inr ⟨lookupName ++ rest.takeWhile isSpace ++ ['<'], v, ?_, ?_, by simp⟩
          · rw [List.append_assoc, List.append_assoc, List.singleton_append, ← hd,
              List.takeWhile_append_dropWhile]
          · simp only [List.mem_append, List.mem_singleton, not_or]
            refine ⟨⟨by decide, fun hm ↦ ?_⟩, by decide⟩
            have hspace := List.mem_takeWhile_imp hm
            simp [isSpace] at hspace
        · exact .inl rfl
    · exact .inl (ends_lit_eq_nil _ hp)
  · exact .inl rfl

def Lookup.upToTypes (l : Lookup w) : List Char :=
  lookupName ++ (l.afterName ++ '<' :: l.types)

theorem Lookup.text_eq (l : Lookup w) : l.text = l.upToTypes ++ '>' :: l.arguments := by
  simp only [Lookup.text, Lookup.upToTypes, List.append_assoc, List.cons_append]

theorem Lookup.calm_upToTypes (l : Lookup w) : Calm w l.upToTypes ('>' :: k) := by
  have hgaps := l.gaps_space
  simp only [List.forall_mem_append] at hgaps
  refine calm_of_plain ?_ (by simp [isSpace, isQuote])
  have hname : ∀ c ∈ lookupName, isQuote c = false := by simp [lookupName, isQuote]
  unfold Lookup.upToTypes
  intro c hc
  rcases List.mem_append.mp hc with hc | hc
  · exact hname c hc
  · rcases List.mem_append.mp hc with hc | hc
    · exact quote_not_space c (hgaps.1.1.1.1 c hc)
    · rcases List.mem_cons.mp hc with rfl | hc
      · rfl
      · exact l.types_plain c hc

theorem Lookup.calm_arguments (l : Lookup w) : Calm w l.arguments k := by
  refine calm_of_not_mem ?_
  have hgaps := l.gaps_space
  simp only [List.forall_mem_append] at hgaps
  obtain ⟨⟨⟨⟨-, htypes⟩, hparen⟩, hsymbol⟩, hcomma⟩ := hgaps
  have hspace {gap : List Char} (h : ∀ c ∈ gap, isSpace c = true) : '>' ∉ gap :=
    fun hm ↦ absurd (h _ hm) (by decide)
  have hothers : '>' ∉ l.others := by
    intro hm
    have := l.others_word _ hm
    rw [w.ascii _ (by decide)] at this
    simp [Char.isAlphanum] at this
  have hfirst : '>' ≠ l.first := by
    intro hm
    have := l.first_first
    simp [← hm, isFirst] at this
  have hquote : '>' ≠ l.quote := by
    intro hm
    have := l.quote_quote
    simp [← hm, isQuote] at this
  unfold Lookup.arguments
  cases hc : l.comma with
  | none => simp [hspace htypes, hspace hparen, hspace hsymbol, hothers, hfirst, hquote]
  | some gap =>
    have hgap : ∀ c ∈ gap, isSpace c = true := by simpa [hc] using hcomma
    simp [hspace htypes, hspace hparen, hspace hsymbol, hspace hgap, hothers, hfirst, hquote]

/-- A call with a trailing comma holds no tail. -/
theorem Lookup.calm_text (l : Lookup w) (hl : l.comma.isNone = false) : Calm w l.text k := by
  rw [l.text_eq]
  refine Calm.append l.calm_upToTypes ?_
  change Calm w (['>'] ++ l.arguments) k
  refine Calm.append ?_ l.calm_arguments
  intro v u hv hu before group
  obtain ⟨rfl, rfl⟩ : v = [] ∧ u = ['>'] := by
    rcases List.append_eq_singleton_iff.mp hv.symm with h | h
    · exact h
    · exact absurd h.2 hu
  rw [List.singleton_append, tail_arguments, hl]
  rfl

/-- From anywhere before a call without trailing comma, the next tail is its own. -/
theorem lazily_lookup {l : Lookup w} (hl : l.comma.isNone = true) (ha : Calm w a (l.text ++ rest)) :
    (ends w.word (lazily (lookupTail w)) ⟨before, a ++ (l.text ++ rest), group⟩).head? =
      some ⟨(a ++ l.text).reverse ++ before, rest, l.symbol⟩ := by
  rw [ha.lazily, l.text_eq, List.append_assoc, List.cons_append, l.calm_upToTypes.lazily,
    ends_lazily_cons, tail_arguments, hl]
  simp

theorem lookupHead_lookup (r : Regex) (l : Lookup w) (rest group : List Char)
    (hedge : before.head?.any w.word = false) :
    ∃ u v, l.text ++ rest = u ++ v ∧ '>' ∉ u ∧
      ends w.word (lookupHead r) ⟨before, l.text ++ rest, group⟩ =
        ends w.word r ⟨u.reverse ++ before, v, group⟩ := by
  have hgap : ∀ c ∈ l.afterName, isSpace c = true := by
    intro c hc
    exact l.gaps_space c (by simp [hc])
  have hname : (l.text ++ rest).head? = some '_' := by
    unfold Lookup.text
    rfl
  refine ⟨lookupName ++ (l.afterName ++ ['<']), l.types ++ '>' :: (l.arguments ++ rest),
    ?_, ?_, ?_⟩
  · simp only [Lookup.text, List.append_assoc, List.cons_append, List.nil_append]
  · have hm : '>' ∉ l.afterName := fun hm ↦ absurd (hgap _ hm) (by decide)
    simp only [List.mem_append, List.mem_singleton, not_or]
    exact ⟨by decide, hm, by decide⟩
  · have hword : w.word '_' = true := w.ascii _ (by decide)
    unfold lookupHead
    rw [ends_boundary]
    simp only [hedge, hname, Option.any_some, hword, Bool.false_bne, if_true]
    rw [Lookup.text, List.append_assoc, ends_lit, List.append_assoc, List.cons_append,
      ends_gap (fun _ c _ ↦ ends_one_eq_nil less_not_space c) hgap rfl, ends_one_cons,
      if_pos (by rfl)]
    simp only [List.reverse_append, List.append_assoc, List.cons_append, List.reverse_singleton,
      List.nil_append]

/-- Wherever a head matches before a call without trailing comma, the match
ends with that call. -/
theorem findall_of_head {l : Lookup w} (hl : l.comma.isNone = true)
    (ha : Calm w a (l.text ++ rest)) (huv : a ++ (l.text ++ rest) = u ++ v) (hu : '>' ∉ u)
    (hends : ends w.word (lookupPattern w) ⟨before, a ++ (l.text ++ rest), []⟩ =
      ends w.word (lazily (lookupTail w)) ⟨u.reverse ++ before, v, []⟩) :
    findall w.word (lookupPattern w) 0 before (a ++ (l.text ++ rest)) =
      l.symbol :: findall w.word (lookupPattern w) 0 ((a ++ l.text).reverse ++ before) rest := by
  have hmatch : (ends w.word (lookupPattern w) ⟨before, a ++ (l.text ++ rest), []⟩).head? =
      some ⟨(a ++ l.text).reverse ++ before, rest, l.symbol⟩ := by
    rw [hends, ← (calm_of_not_mem hu).lazily, ← huv]
    exact lazily_lookup hl ha
  refine findall_match hmatch ?_
  simp only [l.text_eq, List.length_append, List.length_cons]
  omega

/-- The scan skips calm text, whatever heads it holds, and picks the next call
without trailing comma. -/
theorem findall_lookup {l : Lookup w} (hl : l.comma.isNone = true)
    (ha : Calm w a (l.text ++ rest)) (hedge : (a.reverse ++ before).head?.any w.word = false) :
    findall w.word (lookupPattern w) 0 before (a ++ (l.text ++ rest)) =
      l.symbol :: findall w.word (lookupPattern w) 0 ((a ++ l.text).reverse ++ before) rest := by
  induction a generalizing before with
  | nil =>
    obtain ⟨u, v, huv, hu, hends⟩ :=
      lookupHead_lookup (lazily (lookupTail w)) l rest [] hedge
    exact findall_of_head hl ha huv hu hends
  | cons c a ih =>
    rcases head_cases (w := w) (lazily (lookupTail w)) before (c :: a ++ (l.text ++ rest)) [] with
      hends | ⟨u, v, huv, hu, hends⟩
    · have hstep : findall w.word (lookupPattern w) 0 before (c :: (a ++ (l.text ++ rest))) =
          findall w.word (lookupPattern w) 0 (c :: before) (a ++ (l.text ++ rest)) :=
        findall_step hends
      rw [List.cons_append, hstep, ih (Calm.of_append (a := [c]) ha) (by simpa using hedge)]
      simp
    · exact findall_of_head hl ha huv hu hends

theorem findall_calm (ha : Calm w a []) : findall w.word (lookupPattern w) 0 before a = [] := by
  induction a generalizing before with
  | nil => rfl
  | cons c a ih =>
    have hends : ends w.word (lookupPattern w) ⟨before, c :: a, []⟩ = [] := by
      rcases head_cases (w := w) (lazily (lookupTail w)) before (c :: a) [] with
        hends | ⟨u, v, huv, hu, hends⟩
      · exact hends
      · have hcalm : Calm w (c :: a) ([] ++ []) := ha
        rw [lookupPattern, hends, ← (calm_of_not_mem hu).lazily, ← huv, ← List.append_nil (c :: a),
          ← List.append_nil [], hcalm.lazily, List.append_nil, ends_lazily_nil]
        rfl
    rw [findall_step hends]
    exact ih (Calm.of_append (a := [c]) ha)

end Scan

def Lookup.found (l : Lookup w) : Option (List Char) :=
  if l.comma.isNone then some l.symbol else none

theorem Lookup.text_ends (l : Lookup w) : ∃ v, l.text = v ++ [')'] := by
  unfold Lookup.text Lookup.arguments
  cases l.comma with
  | none =>
    exact ⟨lookupName ++ (l.afterName ++ '<' :: (l.types ++ '>' :: (l.afterTypes ++ '(' ::
      (l.afterParen ++ l.quote :: l.first :: (l.others ++ l.quote :: l.afterSymbol))))), by simp⟩
  | some gap =>
    exact ⟨lookupName ++ (l.afterName ++ '<' :: (l.types ++ '>' :: (l.afterTypes ++ '(' ::
      (l.afterParen ++ l.quote :: l.first :: (l.others ++ l.quote :: (l.afterSymbol ++
        ',' :: gap)))))), by simp⟩

theorem Lookup.edge_text (l : Lookup w) (a before : List Char) :
    ((a ++ l.text).reverse ++ before).head?.any w.word = false := by
  obtain ⟨v, hv⟩ := l.text_ends
  have hparen : w.word ')' = false := w.ascii _ (by decide)
  simp [hv, hparen]

theorem edge_filler {f a before : List Char} (hf : ∀ c ∈ f.getLast?, w.word c = false)
    (hedge : (a.reverse ++ before).head?.any w.word = false) :
    ((a ++ f).reverse ++ before).head?.any w.word = false := by
  rcases List.eq_nil_or_concat f with rfl | ⟨v, c, rfl⟩
  · simpa using hedge
  · simpa using hf c (by simp)

/-- What the scan collects from generated text, whatever stands before it. -/
theorem findall_entries (rest : Filler)
    (entries : List ({f : Filler // ∀ c ∈ f.text.getLast?, w.word c = false} × Lookup w))
    (a before : List Char) (ha : Calm w a (entriesText entries ++ rest.text))
    (hedge : (a.reverse ++ before).head?.any w.word = false) :
    findall w.word (lookupPattern w) 0 before (a ++ (entriesText entries ++ rest.text)) =
      (entries.map Prod.snd).filterMap Lookup.found := by
  induction entries generalizing a before with
  | nil =>
    refine findall_calm (Calm.append ?_ ?_)
    · simpa [entriesText] using ha
    · exact calm_of_opens rest.calm (by simp)
  | cons entry entries ih =>
    obtain ⟨⟨filler, hfiller⟩, l⟩ := entry
    have hcalm : Calm w (a ++ filler.text) (l.text ++ (entriesText entries ++ rest.text)) := by
      refine Calm.append (by simpa [entriesText] using ha) (calm_of_opens filler.calm ?_)
      simp [Lookup.text, lookupName, isSpace, isQuote]
    have htext : a ++ (entriesText ((⟨filler, hfiller⟩, l) :: entries) ++ rest.text) =
        a ++ filler.text ++ (l.text ++ (entriesText entries ++ rest.text)) := by
      simp [entriesText]
    rw [htext]
    cases hl : l.comma.isNone with
    | true =>
      rw [findall_lookup hl hcalm (edge_filler hfiller hedge)]
      have hrest := ih [] ((a ++ filler.text ++ l.text).reverse ++ before)
        (fun v u hv hu ↦ absurd (List.append_eq_nil_iff.mp hv.symm).2 hu) (l.edge_text _ _)
      have hfound : l.found = some l.symbol := by simp [Lookup.found, hl]
      rw [List.nil_append] at hrest
      rw [hrest, List.map_cons, List.filterMap_cons_some hfound]
    | false =>
      have hrest := ih (a ++ filler.text ++ l.text) before
        (hcalm.append (l.calm_text hl)) (l.edge_text _ _)
      have hfound : l.found = none := by simp [Lookup.found, hl]
      rw [List.append_assoc (a ++ filler.text)] at hrest
      rw [hrest, List.map_cons, List.filterMap_cons_none hfound]

theorem findall_source (s : Source w) :
    findall w.word (lookupPattern w) 0 [] s.text = s.lookups.filterMap Lookup.found := by
  have h := findall_entries s.rest s.entries [] []
    (fun v u hv hu ↦ absurd (List.append_eq_nil_iff.mp hv.symm).2 hu) rfl
  rwa [List.nil_append] at h

end LibLitertLm.Tool
