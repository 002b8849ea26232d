import LibLitertLm.Tool.Lookups

namespace LibLitertLm.Tool

open Regex

variable {w : WordClass} {before rest gap group pre symbol after : List Char}

def BridgeName (w : WordClass) (symbol : List Char) : Prop :=
  ∃ name ∈ [litertName, bridgeName], ∃ c others,
    symbol = name ++ c :: others ∧ ∀ d ∈ c :: others, w.word d = true

/-- The text calls `symbol`, an identifier of its own, possibly after white space. -/
def Calls (w : WordClass) (text symbol : List Char) : Prop :=
  BridgeName w symbol ∧ ∃ before gap after, text = before ++ (symbol ++ (gap ++ '(' :: after)) ∧
    (∀ c ∈ before.getLast?, w.word c = false) ∧ ∀ c ∈ gap, isSpace c = true

theorem paren_not_word : w.word '(' = false := w.ascii _ (by decide)

theorem BridgeName.word (h : BridgeName w symbol) : ∀ c ∈ symbol, w.word c = true := by
  obtain ⟨name, hname, c, others, rfl, hothers⟩ := h
  have hchars : ∀ d ∈ name, d.toNat < 128 ∧ (d.isAlphanum || d == '_') = true := by
    simp only [List.mem_cons, List.not_mem_nil, or_false] at hname
    rcases hname with rfl | rfl <;> simp [litertName, bridgeName]
  intro d hd
  rcases List.mem_append.mp hd with hd | hd
  · rw [w.ascii d (hchars d hd).1, (hchars d hd).2]
  · exact hothers d hd

theorem BridgeName.ne_nil (h : BridgeName w symbol) : symbol ≠ [] := by
  obtain ⟨name, -, c, others, rfl, -⟩ := h
  simp

/-- After a name, a call goes on with white space and a parenthesis. -/
theorem word_eq_nil (e : Spot) (c : Char) (rest : List Char) (he : e.rest = c :: rest)
    (hc : w.word c = true) : ends w.word (spaces (one (· == '('))) e = [] := by
  obtain ⟨before, text, group⟩ := e
  obtain rfl : text = c :: rest := he
  have hspace : isSpace c = false := by
    by_contra hs
    rw [w.space c (by simpa using hs)] at hc
    cases hc
  have hparen : (c == '(') = false := by
    by_contra hp
    obtain rfl : c = '(' := by simpa using hp
    rw [paren_not_word] at hc
    cases hc
  rw [spaces, ends_many (fun _ c _ ↦ ends_last_eq_nil paren_not_space c)]
  simp [hspace, hparen]

/-- One alternative of the call pattern, without the boundary before it. -/
def namePattern (w : WordClass) (name : List Char) : Regex :=
  seq (Regex.group (lit name (seq (one w.word) (many true w.word)))) (spaces (one (· == '(')))

theorem ends_callPattern : ends w.word (callPattern w) ⟨before, rest, group⟩ =
    if before.head?.any w.word != rest.head?.any w.word then
      ends w.word (namePattern w litertName) ⟨before, rest, group⟩ ++
        ends w.word (namePattern w bridgeName) ⟨before, rest, group⟩
    else [] := by
  unfold callPattern namePattern
  rw [ends_boundary, ends_group_alt]

theorem ends_namePattern (name : List Char) {e : Spot}
    (he : e ∈ ends w.word (namePattern w name) ⟨before, rest, group⟩) :
    ∃ c others gap, (∀ d ∈ c :: others, w.word d = true) ∧ (∀ d ∈ gap, isSpace d = true) ∧
      rest = name ++ c :: others ++ (gap ++ '(' :: e.rest) ∧ e.group = name ++ c :: others := by
  unfold namePattern at he
  by_cases hp : name <+: rest
  · obtain ⟨rest, rfl⟩ := hp
    cases rest with
    | nil =>
      rw [ends_group, ends_lit] at he
      cases he
    | cons c rest =>
      cases hc : w.word c with
      | false =>
        rw [ends_group, ends_lit, ends_one_cons, hc] at he
        cases he
      | true =>
        rw [ends_named word_eq_nil name hc, spaces,
          ends_many (fun _ c _ ↦ ends_last_eq_nil paren_not_space c)] at he
        cases hd : (rest.dropWhile w.word).dropWhile isSpace with
        | nil => simp [hd] at he
        | cons d after =>
          rw [hd, ends_last_cons] at he
          split_ifs at he with hparen
          · obtain rfl : d = '(' := by simpa using hparen
            obtain rfl := List.mem_singleton.mp he
            refine ⟨c, rest.takeWhile w.word, (rest.dropWhile w.word).takeWhile isSpace, ?_, ?_,
              ?_, rfl⟩
            · simp only [List.forall_mem_cons]
              exact ⟨hc, fun d hd ↦ List.mem_takeWhile_imp hd⟩
            · exact fun d hd ↦ List.mem_takeWhile_imp hd
            · rw [← hd, List.takeWhile_append_dropWhile, List.append_assoc, List.cons_append,
                List.takeWhile_append_dropWhile]
          · cases he
  · rw [ends_group, ends_lit_eq_nil name hp] at he
    cases he

theorem BridgeName.head (h : BridgeName w symbol) (k : List Char) :
    (symbol ++ k).head?.any w.word = true := by
  obtain ⟨c, others, rfl⟩ := List.exists_cons_of_ne_nil h.ne_nil
  simpa using h.word c (by simp)

theorem call_shape {e : Spot} (he : e ∈ ends w.word (callPattern w) ⟨before, rest, group⟩) :
    BridgeName w e.group ∧ before.head?.any w.word = false ∧
      ∃ gap, (∀ c ∈ gap, isSpace c = true) ∧ rest = e.group ++ (gap ++ '(' :: e.rest) := by
  rw [ends_callPattern] at he
  split_ifs at he with hedge
  · have hname (name : List Char) (hn : name ∈ [litertName, bridgeName])
        (hm : e ∈ ends w.word (namePattern w name) ⟨before, rest, group⟩) :
        BridgeName w e.group ∧ before.head?.any w.word = false ∧
          ∃ gap, (∀ c ∈ gap, isSpace c = true) ∧ rest = e.group ++ (gap ++ '(' :: e.rest) := by
      obtain ⟨c, others, gap, hothers, hgap, rfl, hgroup⟩ := ends_namePattern name hm
      have hsymbol : BridgeName w e.group := ⟨name, hn, c, others, hgroup, hothers⟩
      rw [← hgroup, hsymbol.head] at hedge
      exact ⟨hsymbol, by simpa using hedge, gap, hgap, by rw [hgroup]⟩
    rcases List.mem_append.mp he with hm | hm
    · exact hname litertName (by simp) hm
    · exact hname bridgeName (by simp) hm
  · cases he

theorem calls_of_mem (h : symbol ∈ findall w.word (callPattern w) 0 [] rest) :
    Calls w rest symbol := by
  obtain ⟨u, v, e, rfl, he, rfl⟩ := mem_findall h
  obtain ⟨hsymbol, hedge, gap, hgap, rfl⟩ := call_shape (List.mem_of_head? he)
  refine ⟨hsymbol, u, gap, e.rest, rfl, ?_, hgap⟩
  intro c hc
  simpa [List.head?_reverse, Option.mem_def.mp hc] using hedge

theorem ends_namePattern_call (before group after name : List Char) {c : Char}
    {others : List Char}
    (hothers : ∀ d ∈ c :: others, w.word d = true) (hgap : ∀ d ∈ gap, isSpace d = true) :
    ends w.word (namePattern w name)
      ⟨before, name ++ c :: (others ++ (gap ++ '(' :: after)), group⟩ =
      [⟨(name ++ c :: (others ++ (gap ++ ['(']))).reverse ++ before, after,
        name ++ c :: others⟩] := by
  obtain ⟨hc, hothers⟩ := List.forall_mem_cons.mp hothers
  have hstop : ∀ d ∈ (gap ++ '(' :: after).head?, w.word d = false := by
    intro d hd
    cases gap with
    | nil =>
      obtain rfl : '(' = d := by simpa using hd
      exact paren_not_word
    | cons g gap =>
      obtain rfl : g = d := by simpa using hd
      exact w.space g (hgap g (by simp))
  have htake : (gap ++ '(' :: after).takeWhile w.word = [] := by
    cases hg : gap ++ '(' :: after with
    | nil => rfl
    | cons d k => simp [hstop d (by simp [hg])]
  unfold namePattern
  rw [ends_named word_eq_nil name hc, List.takeWhile_append_of_pos hothers,
    List.dropWhile_append_of_pos hothers, htake, dropWhile_of_head hstop,
    ends_gap (fun _ c _ ↦ ends_last_eq_nil paren_not_space c) hgap rfl]
  simp

theorem ends_call (after : List Char) (h : BridgeName w symbol) (hgap : ∀ c ∈ gap, isSpace c = true)
    (hedge : before.head?.any w.word = false) :
    ends w.word (callPattern w) ⟨before, symbol ++ (gap ++ '(' :: after), []⟩ =
      [⟨(symbol ++ (gap ++ ['('])).reverse ++ before, after, symbol⟩] := by
  rw [ends_callPattern, hedge, h.head]
  obtain ⟨name, hname, c, others, rfl, hothers⟩ := h
  have hmiss (name name' : List Char)
    (h : ¬ name' <+: name ++ c :: (others ++ (gap ++ '(' :: after))) :
      ends w.word (namePattern w name')
        ⟨before, name ++ c :: (others ++ (gap ++ '(' :: after)), []⟩ = [] := by
    rw [namePattern, ends_group, ends_lit_eq_nil name' h]
    rfl
  have hcall := ends_namePattern_call before [] after name hothers hgap
  rw [List.append_assoc, List.cons_append, List.append_assoc, List.cons_append]
  simp only [List.mem_cons, List.not_mem_nil, or_false] at hname
  rcases hname with rfl | rfl
  · rw [hcall, hmiss _ _ (by simp [litertName, bridgeName])]
    rfl
  · rw [hcall, hmiss _ _ (by simp [litertName, bridgeName])]
    rfl

/-- A match that starts before a call also ends before it. -/
theorem match_before_call {e : Spot} (hs : BridgeName w symbol) (hpre : pre ≠ [])
    (hedge : ∀ c ∈ pre.getLast?, w.word c = false)
    (he : e ∈ ends w.word (callPattern w) ⟨before, pre ++ (symbol ++ after), []⟩) :
    ∃ m k, pre = m ++ k ∧ m ≠ [] ∧ e.rest = k ++ (symbol ++ after) := by
  obtain ⟨hname, -, gap, hgap, htext⟩ := call_shape he
  have hsplit : pre ++ (symbol ++ after) = (e.group ++ (gap ++ ['('])) ++ e.rest := by
    simp [htext]
  rcases List.append_eq_append_iff.mp hsplit with ⟨m, hm, htail⟩ | ⟨k, hk, hrest⟩
  · cases m with
    | nil =>
      rw [List.append_nil] at hm
      exact ⟨pre, [], by simp, hpre, by simpa using htail.symm⟩
    | cons c m =>
      -- the call would begin inside the match, at a word character behind another one
      exfalso
      have hc : w.word c = true := by simpa [htail] using hs.head after
      rcases List.append_eq_append_iff.mp hm with ⟨n, hn, hgap'⟩ | ⟨n, hn, hgap'⟩
      · have hmem : c ∈ gap ++ ['('] := by simp [hgap']
        rcases List.mem_append.mp hmem with hmem | hmem
        · rw [w.space c (hgap c hmem)] at hc
          cases hc
        · obtain rfl := List.mem_singleton.mp hmem
          rw [paren_not_word] at hc
          cases hc
      · have hlast := List.getLast_mem hpre
        have hword := hname.word (pre.getLast hpre) (by rw [hn]; exact List.mem_append_left n hlast)
        rw [hedge _ (List.getLast?_eq_some_getLast hpre)] at hword
        cases hword
  · exact ⟨_, k, hk, by simp, hrest⟩

/-- Matches cannot overlap, so the scan finds every call. -/
theorem mem_of_call (hs : BridgeName w symbol) (hgap : ∀ c ∈ gap, isSpace c = true)
    (hedge : (pre.reverse ++ before).head?.any w.word = false) :
    symbol ∈ findall w.word (callPattern w) 0 before
      (pre ++ (symbol ++ (gap ++ '(' :: after))) := by
  induction hn : pre.length using Nat.strong_induction_on generalizing pre before with
  | _ n ih =>
    subst hn
    cases pre with
    | nil =>
      have hcall := ends_call after hs hgap (by simpa using hedge)
      rw [List.nil_append, findall_match (by rw [hcall, List.head?_cons])]
      · exact List.mem_cons_self
      · simp only [List.length_append, List.length_cons]
        omega
    | cons c pre =>
      rw [List.cons_append]
      cases he : (ends w.word (callPattern w)
          ⟨before, c :: (pre ++ (symbol ++ (gap ++ '(' :: after))), []⟩).head? with
      | none =>
        rw [findall_step (List.head?_eq_none_iff.mp he)]
        exact ih pre.length (by simp) (by simpa using hedge) rfl
      | some e =>
        have hlast : ∀ d ∈ (c :: pre).getLast?, w.word d = false := by
          intro d hd
          obtain ⟨v, hv⟩ := List.getLast?_eq_some_iff.mp hd
          simpa [hv] using hedge
        have hmem := List.mem_of_head? he
        obtain ⟨m, k, hpre, hm, hrest⟩ := match_before_call hs (by simp) hlast hmem
        obtain ⟨u, hu, hbefore⟩ := mem_ends hmem
        obtain rfl : m = u := by
          have htext : m ++ e.rest = u ++ e.rest := by
            rw [← hu, hrest, ← List.append_assoc, ← hpre, List.cons_append]
          exact List.append_cancel_right htext
        have hlen := congrArg List.length hpre
        have hpos := List.length_pos_iff.mpr hm
        simp only [List.length_append, List.length_cons] at hlen
        rw [findall_match he, hrest, hbefore]
        · refine List.mem_cons_of_mem _
            (ih k.length (by simp only [List.length_cons]; omega) ?_ rfl)
          simpa [hpre, ← List.append_assoc, ← List.reverse_append] using hedge
        · simp only [hrest, List.length_append, List.length_cons]
          omega

theorem mem_findall_call :
    symbol ∈ findall w.word (callPattern w) 0 [] rest ↔ Calls w rest symbol := by
  refine ⟨calls_of_mem, ?_⟩
  rintro ⟨hs, pre, gap, after, rfl, hedge, hgap⟩
  refine mem_of_call hs hgap ?_
  cases hlast : pre.getLast? with
  | none => simp [List.head?_reverse, hlast]
  | some c => simpa [List.head?_reverse, hlast] using hedge c hlast

def stripComments (w : WordClass) (source : List Char) : List Char :=
  remove w.word commentPattern 0 [] source

/-- Reading these sources yields a set that has the symbol of every lookup, and
a library that passes against it exports them all. -/
def Complete (w : WordClass) (sources : List (Source w))
    (bridgeSources : List (List Char)) : Prop :=
  ∃ required, requiredSymbols w (sources.map Source.text) bridgeSources = .ok required ∧
    (∀ l ∈ sources.flatMap Source.lookups, l.symbol ∈ required) ∧
    ∀ nm, verifySymbols nm required = .ok () → ∃ stdout, nm = some stdout ∧
      ∀ l ∈ sources.flatMap Source.lookups, l.symbol ∈ exportedSymbols stdout

theorem verifySymbols_ok {nm : Option (List Char)} {required : List (List Char)}
    (h : verifySymbols nm required = .ok ()) :
    ∃ stdout, nm = some stdout ∧ ∀ symbol ∈ required, symbol ∈ exportedSymbols stdout := by
  cases nm with
  | none => cases h
  | some stdout =>
    refine ⟨stdout, rfl, fun symbol hs ↦ ?_⟩
    simp only [verifySymbols] at h
    split at h
    next he => exact by simpa using List.filter_eq_nil_iff.mp he symbol hs
    next => cases h

/-- The symbols read from the bindings are those of the calls without trailing comma. -/
theorem findall_sources (sources : List (Source w)) :
    (sources.map Source.text).flatMap (findall w.word (lookupPattern w) 0 []) =
      (sources.flatMap Source.lookups).filterMap Lookup.found := by
  simp only [List.flatMap_map, findall_source, List.filterMap_flatMap]

theorem mem_found {lookups : List (Lookup w)} :
    symbol ∈ lookups.filterMap Lookup.found ↔ ∃ l ∈ lookups, l.comma = none ∧
      l.symbol = symbol := by
  simp [Lookup.found]

/-- The contract covers every lookup exactly when some call has no trailing
comma, and each one that has names a symbol that is also looked up without, or
called by a bridge source. -/
theorem requiredSymbols_complete (w : WordClass) (sources : List (Source w))
    (bridgeSources : List (List Char)) :
    Complete w sources bridgeSources ↔
      (∃ l ∈ sources.flatMap Source.lookups, l.comma = none) ∧
      ∀ l ∈ sources.flatMap Source.lookups, l.comma ≠ none →
        (∃ l' ∈ sources.flatMap Source.lookups, l'.comma = none ∧ l'.symbol = l.symbol) ∨
        ∃ source ∈ bridgeSources, Calls w (stripComments w source) l.symbol := by
  unfold Complete requiredSymbols
  simp only [findall_sources]
  generalize sources.flatMap Source.lookups = lookups
  have hcalls (symbol : List Char) : symbol ∈ bridgeSources.flatMap (fun source ↦
      findall w.word (callPattern w) 0 [] (remove w.word commentPattern 0 [] source)) ↔
        ∃ source ∈ bridgeSources, Calls w (stripComments w source) symbol := by
    simp only [List.mem_flatMap, mem_findall_call, stripComments]
  constructor
  · rintro ⟨required, hreq, hall, -⟩
    split_ifs at hreq with hempty
    obtain rfl := Except.ok.inj hreq
    refine ⟨?_, fun l hl hcomma ↦ ?_⟩
    · obtain ⟨symbol, hs⟩ := List.exists_mem_of_ne_nil (lookups.filterMap Lookup.found)
        fun he ↦ hempty (by rw [he]; rfl)
      obtain ⟨l, hl, hnone, -⟩ := mem_found.mp hs
      exact ⟨l, hl, hnone⟩
    · exact (List.mem_append.mp (hall l hl)).imp mem_found.mp (hcalls _).mp
  · rintro ⟨⟨l₀, hl₀, hnone⟩, hcovered⟩
    have hne : (lookups.filterMap Lookup.found).isEmpty = false := by
      rw [List.isEmpty_eq_false_iff]
      exact List.ne_nil_of_mem (mem_found.mpr ⟨l₀, hl₀, hnone, rfl⟩)
    have hall : ∀ l ∈ lookups, l.symbol ∈ lookups.filterMap Lookup.found ++
        bridgeSources.flatMap (fun source ↦
          findall w.word (callPattern w) 0 [] (remove w.word commentPattern 0 [] source)) := by
      intro l hl
      by_cases hcomma : l.comma = none
      · exact List.mem_append_left _ (mem_found.mpr ⟨l, hl, hcomma, rfl⟩)
      · exact List.mem_append.mpr ((hcovered l hl hcomma).imp mem_found.mpr (hcalls _).mpr)
    refine ⟨_, by rw [hne]; rfl, hall, fun nm hnm ↦ ?_⟩
    obtain ⟨stdout, rfl, hexported⟩ := verifySymbols_ok hnm
    exact ⟨stdout, rfl, fun l hl ↦ hexported _ (hall l hl)⟩

theorem alphanum_not_space (c : Char) (h : isSpace c = true) :
    (c.isAlphanum || c == '_') = false := by
  have hrange : c.isAlphanum = (decide (c.val ≥ 'A'.val ∧ c.val ≤ 'Z'.val) ||
      (c.val ≥ 'a'.val && c.val ≤ 'z'.val) || (c.val ≥ '0'.val && c.val ≤ '9'.val)) := rfl
  by_contra hc
  simp only [Bool.not_eq_false, Bool.or_eq_true, beq_iff_eq] at hc
  rcases hc with hc | rfl
  · simp [hrange, UInt32.le_iff_toNat_le] at hc
    simp [isSpace] at h
    omega
  · simp [isSpace] at h

def asciiWord : WordClass where
  word c := c.isAlphanum || c == '_'
  ascii _ _ := rfl
  space := alphanum_not_space

def plainLookup (first : Char) (h : isFirst first = true) (comma : Option (List Char))
    (hcomma : ∀ c ∈ comma.getD [], isSpace c = true) : Lookup asciiWord where
  types := ['T']
  quote := '\''
  first := first
  others := []
  afterName := []
  afterTypes := []
  afterParen := []
  afterSymbol := []
  comma := comma
  types_plain := by simp [isQuote]
  quote_quote := rfl
  first_first := h
  others_word := by simp
  gaps_space := by simpa using hcomma

def emptyFiller : Filler := ⟨[], fun v u h ↦ by
  obtain ⟨-, rfl⟩ := List.append_eq_nil_iff.mp h.symm
  rfl⟩

/-- Of the lookups of `a` and of `b`, written with a trailing comma, only the
first is in the contract. -/
theorem requiredSymbols_incomplete : ¬ Complete asciiWord
    [⟨[(⟨emptyFiller, by simp [emptyFiller]⟩, plainLookup 'a' rfl none (by simp)),
      (⟨emptyFiller, by simp [emptyFiller]⟩,
        plainLookup 'b' rfl (some ['\n']) (by simp [isSpace]))],
      emptyFiller⟩] [] := by
  rintro ⟨required, hreq, hall, -⟩
  unfold requiredSymbols at hreq
  rw [findall_sources] at hreq
  obtain rfl := Except.ok.inj hreq
  exact absurd
    (hall (plainLookup 'b' rfl (some ['\n']) (by simp [isSpace])) (by simp [Source.lookups]))
    (by decide)

end LibLitertLm.Tool
