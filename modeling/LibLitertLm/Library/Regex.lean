import Mathlib.Data.List.TakeWhile
import Mathlib.Tactic.Common

namespace LibLitertLm

inductive Regex
  | one (p : Char → Bool)
  | boundary
  | many (greedy : Bool) (p : Char → Bool)
  | seq (r t : Regex)
  | alt (r t : Regex)
  | group (r : Regex)

namespace Regex

/-- A place in a text: the characters before it, nearest first, the ones after
it, and what the group has captured. -/
structure Spot where
  before : List Char
  rest : List Char
  group : List Char := []
deriving DecidableEq

def lit (l : List Char) (r : Regex) : Regex := l.foldr (fun c ↦ seq (one (· == c))) r

/-- `.*?`, where `.` matches newlines as well. -/
def lazily (r : Regex) : Regex := seq (many false fun _ ↦ true) r

variable (word : Char → Bool)

/-- The places at which `many` can stop, nearest first. -/
def stops (p : Char → Bool) (group : List Char) : List Char → List Char → List Spot
  | before, [] => [⟨before, [], group⟩]
  | before, c :: rest =>
    ⟨before, c :: rest, group⟩ :: if p c then stops p group (c :: before) rest else []

/-- The places a match can end at, in the order in which backtracking tries them. -/
def ends : Regex → Spot → List Spot
  | one p, s =>
    match s.rest with
    | [] => []
    | c :: rest => if p c then [⟨c :: s.before, rest, s.group⟩] else []
  | boundary, s => if s.before.head?.any word != s.rest.head?.any word then [s] else []
  | many greedy p, s =>
    if greedy then (stops p s.group s.before s.rest).reverse
    else stops p s.group s.before s.rest
  | seq r t, s => (ends r s).flatMap (ends t)
  | alt r t, s => ends r s ++ ends t s
  | group r, s =>
    (ends r s).map fun e ↦ { e with group := s.rest.take (s.rest.length - e.rest.length) }

/-- The group of every match, scanning from left to right without overlaps, for
an expression that does not match the empty text. -/
def findall (r : Regex) : ℕ → List Char → List Char → List (List Char)
  | _, _, [] => []
  | skip + 1, before, c :: rest => findall r skip (c :: before) rest
  | 0, before, c :: rest =>
    match (ends word r ⟨before, c :: rest, []⟩).head? with
    | some e => e.group :: findall r (rest.length - e.rest.length) (c :: before) rest
    | none => findall r 0 (c :: before) rest

/-- The groups of the matches of `^r`, where `^` and, if asked for, a `$` at the
end stand for the ends of lines. -/
def findallLines (r : Regex) (whole : Bool) : ℕ → List Char → List Char → List (List Char)
  | _, _, [] => []
  | skip + 1, before, c :: rest => findallLines r whole skip (c :: before) rest
  | 0, before, c :: rest =>
    let begins := before.head?.all (· == '\n')
    let ends := (ends word r ⟨before, c :: rest, []⟩).find? fun e ↦
      begins && (!whole || e.rest.head?.all (· == '\n'))
    match ends with
    | some e => e.group :: findallLines r whole (rest.length - e.rest.length) (c :: before) rest
    | none => findallLines r whole 0 (c :: before) rest

def fullmatch (r : Regex) (text : List Char) : Bool :=
  (ends word r ⟨[], text, []⟩).any fun e ↦ e.rest.isEmpty

def times (p : Char → Bool) : ℕ → Regex
  | 0 => many true fun _ ↦ false
  | n + 1 => seq (one p) (times p n)

def remove (r : Regex) : ℕ → List Char → List Char → List Char
  | _, _, [] => []
  | skip + 1, before, c :: rest => remove r skip (c :: before) rest
  | 0, before, c :: rest =>
    match (ends word r ⟨before, c :: rest, []⟩).head? with
    | some e => remove r (rest.length - e.rest.length) (c :: before) rest
    | none => c :: remove r 0 (c :: before) rest

/-- Some place in the text begins a match, for an expression that does not look
at the words around it. -/
def hasMatch (r : Regex) (text : List Char) : Bool :=
  text.tails.any fun rest ↦ !(ends (fun _ ↦ false) r ⟨[], rest, []⟩).isEmpty

variable {word} {p q : Char → Bool} {r t : Regex} {s e : Spot} {before rest u group : List Char}

theorem mem_stops (h : e ∈ stops p group before rest) :
    ∃ u, rest = u ++ e.rest ∧ e.before = u.reverse ++ before := by
  induction rest generalizing before with
  | nil =>
    obtain rfl : e = ⟨before, [], group⟩ := by simpa [stops] using h
    exact ⟨[], rfl, rfl⟩
  | cons c rest ih =>
    rcases List.mem_cons.mp h with rfl | h
    · exact ⟨[], rfl, rfl⟩
    · split_ifs at h
      · obtain ⟨u, hrest, hbefore⟩ := ih h
        exact ⟨c :: u, by rw [hrest, List.cons_append], by simp [hbefore]⟩
      · cases h

/-- A match only moves forward in the text. -/
theorem mem_ends (h : e ∈ ends word r s) :
    ∃ u, s.rest = u ++ e.rest ∧ e.before = u.reverse ++ s.before := by
  induction r generalizing s e with
  | one p =>
    unfold ends at h
    split at h
    · cases h
    · split_ifs at h
      · obtain rfl := List.mem_singleton.mp h
        exact ⟨[_], by assumption, rfl⟩
      · cases h
  | boundary =>
    unfold ends at h
    split_ifs at h
    · obtain rfl := List.mem_singleton.mp h
      exact ⟨[], rfl, rfl⟩
    · cases h
  | many greedy p =>
    unfold ends at h
    split_ifs at h
    · exact mem_stops (List.mem_reverse.mp h)
    · exact mem_stops h
  | seq r t ihr iht =>
    obtain ⟨m, hm, he⟩ := List.mem_flatMap.mp h
    obtain ⟨u, hu, hu'⟩ := ihr hm
    obtain ⟨v, hv, hv'⟩ := iht he
    exact ⟨u ++ v, by rw [hu, hv, List.append_assoc], by simp [hu', hv']⟩
  | alt r t ihr iht => exact (List.mem_append.mp h).elim ihr iht
  | group r ih =>
    obtain ⟨m, hm, rfl⟩ := List.mem_map.mp h
    obtain ⟨u, hu, hbefore⟩ := ih hm
    exact ⟨u, hu, hbefore⟩

theorem mem_ends_seq : e ∈ ends word (seq r t) s ↔ ∃ d ∈ ends word r s, e ∈ ends word t d := by
  simp [ends]

theorem mem_ends_one : e ∈ ends word (one p) s ↔
    ∃ c rest, s.rest = c :: rest ∧ p c = true ∧ e = ⟨c :: s.before, rest, s.group⟩ := by
  obtain ⟨before, text, group⟩ := s
  cases text with
  | nil => simp [ends]
  | cons c rest =>
    by_cases hc : p c = true
    · simp [ends, hc]
    · simp [ends, hc]

theorem all_stops (h : e ∈ stops p group before rest) :
    ∃ u, rest = u ++ e.rest ∧ ∀ c ∈ u, p c = true := by
  induction rest generalizing before with
  | nil =>
    obtain rfl : e = ⟨before, [], group⟩ := by simpa [stops] using h
    exact ⟨[], rfl, by simp⟩
  | cons c rest ih =>
    rcases List.mem_cons.mp h with rfl | h
    · exact ⟨[], rfl, by simp⟩
    · split_ifs at h with hc
      · obtain ⟨u, hrest, hu⟩ := ih h
        refine ⟨c :: u, by rw [hrest, List.cons_append], ?_⟩
        exact List.forall_mem_cons.mpr ⟨hc, hu⟩
      · cases h

theorem mem_ends_many {greedy : Bool} (h : e ∈ ends word (many greedy p) s) :
    ∃ u, s.rest = u ++ e.rest ∧ ∀ c ∈ u, p c = true := by
  refine @all_stops _ _ s.before _ s.group ?_
  cases greedy with
  | true => exact List.mem_reverse.mp h
  | false => exact h

/-- `p+` takes characters that satisfy `p`. -/
theorem mem_ends_some (h : e ∈ ends word (seq (one p) (seq (many true p) t)) s) :
    ∃ u d, s.rest = u ++ d.rest ∧ (∀ c ∈ u, p c = true) ∧ e ∈ ends word t d := by
  obtain ⟨d₁, h₁, h⟩ := mem_ends_seq.mp h
  obtain ⟨c, rest, hs, hc, rfl⟩ := mem_ends_one.mp h₁
  obtain ⟨d₂, h₂, h⟩ := mem_ends_seq.mp h
  obtain ⟨u, hrest, hu⟩ := mem_ends_many h₂
  refine ⟨c :: u, d₂, ?_, List.forall_mem_cons.mpr ⟨hc, hu⟩, h⟩
  rw [hs, List.cons_append]
  exact congrArg (c :: ·) hrest

@[simp] theorem ends_one_cons (c : Char) :
    ends word (seq (one p) t) ⟨before, c :: rest, group⟩ =
      if p c then ends word t ⟨c :: before, rest, group⟩ else [] := by
  simp only [ends]
  split_ifs <;> simp

@[simp] theorem ends_one_nil : ends word (seq (one p) t) ⟨before, [], group⟩ = [] := rfl

@[simp] theorem ends_last_cons (c : Char) :
    ends word (one p) ⟨before, c :: rest, group⟩ =
      if p c then [⟨c :: before, rest, group⟩] else [] := rfl

@[simp] theorem ends_last_nil : ends word (one p) ⟨before, [], group⟩ = [] := rfl

theorem ends_boundary : ends word (seq boundary t) s =
    if s.before.head?.any word != s.rest.head?.any word then ends word t s else [] := by
  simp only [ends]
  split_ifs <;> simp

theorem ends_group : ends word (seq (.group r) t) s = (ends word r s).flatMap fun e ↦
    ends word t { e with group := s.rest.take (s.rest.length - e.rest.length) } := by
  simp [ends, List.flatMap_map]

theorem ends_group_alt {r' : Regex} : ends word (seq (.group (alt r r')) t) s =
    ends word (seq (.group r) t) s ++ ends word (seq (.group r') t) s := by
  rw [ends_group, ends_group, ends_group, ends, List.flatMap_append]

theorem ends_lit (l : List Char) :
    ends word (lit l t) ⟨before, l ++ rest, group⟩ =
      ends word t ⟨l.reverse ++ before, rest, group⟩ := by
  unfold lit
  induction l generalizing before with
  | nil => rfl
  | cons c l ih => simp [ih]

theorem ends_lit_eq_nil (l : List Char) (h : ¬ l <+: rest) :
    ends word (lit l t) ⟨before, rest, group⟩ = [] := by
  unfold lit
  induction l generalizing before rest with
  | nil => exact absurd (List.nil_prefix) h
  | cons c l ih =>
    cases rest with
    | nil => rfl
    | cons d rest =>
      rw [List.foldr_cons, ends_one_cons]
      split_ifs with hd
      · obtain rfl : d = c := by simpa using hd
        exact ih fun hl ↦ h (List.cons_prefix_cons.mpr ⟨rfl, hl⟩)
      · rfl

theorem mem_ends_lit {l : List Char} (h : e ∈ ends word (lit l t) s) :
    ∃ d, s.rest = l ++ d.rest ∧ e ∈ ends word t d := by
  obtain ⟨before, text, group⟩ := s
  by_cases hprefix : l <+: text
  · obtain ⟨rest, rfl⟩ := hprefix
    rw [ends_lit] at h
    exact ⟨_, rfl, h⟩
  · rw [ends_lit_eq_nil l hprefix] at h
    cases h

/-- Continuations that cannot begin with one more character of a greedy
repetition see its longest match only. -/
theorem stops_flatMap {k : Spot → List Spot}
    (hk : ∀ e c rest, e.rest = c :: rest → p c = true → k e = []) :
    (stops p group before rest).reverse.flatMap k =
      k ⟨(rest.takeWhile p).reverse ++ before, rest.dropWhile p, group⟩ := by
  induction rest generalizing before with
  | nil => simp [stops]
  | cons c rest ih =>
    cases hc : p c with
    | false => simp [stops, hc]
    | true => simp [stops, hc, ih, hk ⟨before, c :: rest, group⟩ c rest rfl hc]

theorem ends_many (ht : ∀ e c rest, e.rest = c :: rest → p c = true → ends word t e = []) :
    ends word (seq (many true p) t) ⟨before, rest, group⟩ =
      ends word t ⟨(rest.takeWhile p).reverse ++ before, rest.dropWhile p, group⟩ := by
  simpa [ends] using stops_flatMap ht

theorem ends_one_eq_nil (hpq : ∀ c, p c = true → q c = false) (c : Char) (hs : s.rest = c :: rest)
    (hc : p c = true) : ends word (seq (one q) t) s = [] := by
  obtain ⟨before, text, group⟩ := s
  obtain rfl : text = c :: rest := hs
  simp [hpq c hc]

theorem ends_last_eq_nil (hpq : ∀ c, p c = true → q c = false) (c : Char) (hs : s.rest = c :: rest)
    (hc : p c = true) : ends word (one q) s = [] := by
  obtain ⟨before, text, group⟩ := s
  obtain rfl : text = c :: rest := hs
  simp [hpq c hc]

/-- A captured name and the word it begins are matched whole when what follows
cannot begin with one more of the word's characters. -/
theorem ends_named (ht : ∀ e c rest, e.rest = c :: rest → p c = true → ends word t e = [])
    (name : List Char) {c : Char} (hc : q c = true) :
    ends word (seq (.group (lit name (seq (one q) (many true p)))) t)
        ⟨before, name ++ c :: rest, group⟩ =
      ends word t ⟨(rest.takeWhile p).reverse ++ c :: (name.reverse ++ before),
        rest.dropWhile p, name ++ c :: rest.takeWhile p⟩ := by
  have hlen : (rest.takeWhile p).length + (rest.dropWhile p).length = rest.length := by
    rw [← List.length_append, List.takeWhile_append_dropWhile]
  have htake : (name ++ c :: rest).take
      ((name ++ c :: rest).length - (rest.dropWhile p).length) =
        name ++ c :: rest.takeWhile p := by
    have hsub : (name ++ c :: rest).length - (rest.dropWhile p).length =
        name.length + ((rest.takeWhile p).length + 1) := by
      simp only [List.length_append, List.length_cons]
      omega
    rw [hsub, List.take_length_add_append, List.take_succ_cons,
      ← List.prefix_iff_eq_take.mp (List.takeWhile_prefix p)]
  have hstops : (stops p group (c :: (name.reverse ++ before)) rest).reverse.flatMap
      (fun e ↦ ends word t { e with
        group := (name ++ c :: rest).take ((name ++ c :: rest).length - e.rest.length) }) = _ :=
    stops_flatMap fun e d r he hd ↦ ht _ d r he hd
  rw [ends_group, ends_lit]
  simp only [ends_one_cons, hc, if_true]
  simpa only [ends, if_true, htake] using hstops

theorem ends_word (ht : ∀ e c rest, e.rest = c :: rest → p c = true → ends word t e = [])
    {c : Char} (hc : q c = true) :
    ends word (seq (.group (seq (one q) (many true p))) t) ⟨before, c :: rest, group⟩ =
      ends word t ⟨(rest.takeWhile p).reverse ++ c :: before, rest.dropWhile p,
        c :: rest.takeWhile p⟩ :=
  ends_named ht [] hc

theorem ends_lazily_nil :
    ends word (lazily t) ⟨before, [], group⟩ = ends word t ⟨before, [], group⟩ := by
  simp [lazily, ends, stops]

theorem ends_lazily_cons (c : Char) :
    ends word (lazily t) ⟨before, c :: rest, group⟩ =
      ends word t ⟨before, c :: rest, group⟩ ++
        ends word (lazily t) ⟨c :: before, rest, group⟩ := by
  simp [lazily, ends, stops]

/-- A lazy repetition runs past places at which what follows does not match. -/
theorem ends_lazily (ht : ∀ v w, u = v ++ w → w ≠ [] →
      ends word t ⟨v.reverse ++ before, w ++ rest, group⟩ = []) :
    ends word (lazily t) ⟨before, u ++ rest, group⟩ =
      ends word (lazily t) ⟨u.reverse ++ before, rest, group⟩ := by
  induction u generalizing before with
  | nil => rfl
  | cons c u ih =>
    have hc := ht [] (c :: u) rfl (by simp)
    rw [List.cons_append, ends_lazily_cons]
    simp only [List.reverse_nil, List.nil_append, List.cons_append] at hc
    rw [hc, List.nil_append, ih]
    · simp
    · intro v w hu hw
      simpa using ht (c :: v) w (by rw [hu, List.cons_append]) hw

theorem findall_skip (r : Regex) (u before rest : List Char) :
    findall word r u.length before (u ++ rest) = findall word r 0 (u.reverse ++ before) rest := by
  induction u generalizing before with
  | nil => rfl
  | cons c u ih => simp [findall, ih]

/-- Every text found is the group of a match somewhere. -/
theorem mem_findall {r : Regex} {x : List Char} {n : ℕ} (h : x ∈ findall word r n before rest) :
    ∃ u v e, rest = u ++ v ∧ (ends word r ⟨u.reverse ++ before, v, []⟩).head? = some e ∧
      x = e.group := by
  induction rest generalizing n before with
  | nil => simp [findall] at h
  | cons c rest ih =>
    have hlater {n : ℕ} (h : x ∈ findall word r n (c :: before) rest) :
        ∃ u v e, c :: rest = u ++ v ∧
          (ends word r ⟨u.reverse ++ before, v, []⟩).head? = some e ∧ x = e.group := by
      obtain ⟨u, v, e, rfl, he, hx⟩ := ih h
      exact ⟨c :: u, v, e, rfl, by simpa using he, hx⟩
    cases n with
    | succ n => exact hlater h
    | zero =>
      unfold findall at h
      split at h
      next e he =>
        rcases List.mem_cons.mp h with rfl | h
        · exact ⟨[], c :: rest, e, rfl, he, rfl⟩
        · exact hlater h
      next => exact hlater h

theorem remove_skip (r : Regex) (u before rest : List Char) :
    remove word r u.length before (u ++ rest) = remove word r 0 (u.reverse ++ before) rest := by
  induction u generalizing before with
  | nil => rfl
  | cons c u ih => simp [remove, ih]

theorem remove_step {c : Char} (h : ends word r ⟨before, c :: rest, []⟩ = []) :
    remove word r 0 before (c :: rest) = c :: remove word r 0 (c :: before) rest := by
  simp [remove, h]

theorem remove_match (h : (ends word r ⟨before, rest, []⟩).head? = some e)
    (hlt : e.rest.length < rest.length) :
    remove word r 0 before rest = remove word r 0 e.before e.rest := by
  obtain ⟨u, hu, hbefore⟩ := mem_ends (List.mem_of_head? h)
  simp only at hu hbefore
  cases u with
  | nil => simp [hu] at hlt
  | cons c u =>
    subst hu
    have hlen : (u ++ e.rest).length - e.rest.length = u.length := by simp
    rw [List.cons_append] at h ⊢
    simp only [remove, h, hlen, remove_skip, hbefore, List.reverse_cons, List.append_assoc,
      List.singleton_append]

theorem findall_step {c : Char} (h : ends word r ⟨before, c :: rest, []⟩ = []) :
    findall word r 0 before (c :: rest) = findall word r 0 (c :: before) rest := by
  simp [findall, h]

theorem findall_match (h : (ends word r ⟨before, rest, []⟩).head? = some e)
    (hlt : e.rest.length < rest.length) :
    findall word r 0 before rest = e.group :: findall word r 0 e.before e.rest := by
  obtain ⟨u, hu, hbefore⟩ := mem_ends (List.mem_of_head? h)
  simp only at hu hbefore
  cases u with
  | nil => simp [hu] at hlt
  | cons c u =>
    subst hu
    have hlen : (u ++ e.rest).length - e.rest.length = u.length := by simp
    rw [List.cons_append] at h ⊢
    simp only [findall, h, hlen, findall_skip, hbefore, List.reverse_cons, List.append_assoc,
      List.singleton_append]

end Regex

end LibLitertLm
