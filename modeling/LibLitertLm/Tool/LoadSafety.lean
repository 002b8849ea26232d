import LibLitertLm.Tool.Elf
import Mathlib.Data.Nat.ModEq
import Mathlib.Data.List.Infix

namespace LibLitertLm.Tool

section Checked

variable {α β : Type} {x : Except Failure α} {f : α → Except Failure β}

def Checked (x : Except Failure α) : Prop :=
  ∀ e, x = .error e → ∃ message, e = .verification message

theorem Checked.ok (a : α) : Checked (.ok a) := by
  intro e h
  cases h

theorem Checked.refuse (p : Prop) [Decidable p] (message : String) :
    Checked (refuse p message) := by
  intro e h
  unfold Tool.refuse at h
  split_ifs at h
  cases h
  exact ⟨message, rfl⟩

theorem Checked.bind (hx : Checked x) (hf : ∀ a, x = .ok a → Checked (f a)) :
    Checked (x >>= f) := by
  intro e h
  cases x with
  | error e' =>
    cases h
    exact hx e rfl
  | ok a => exact hf a rfl e h

theorem Checked.foldlM {f : β → α → Except Failure β} {as : List α}
    (hf : ∀ b, ∀ a ∈ as, Checked (f b a)) (b : β) : Checked (as.foldlM f b) := by
  induction as generalizing b with
  | nil => exact .ok b
  | cons a as ih =>
    rw [List.foldlM_cons]
    apply Checked.bind (hf b a (by simp))
    intro b' _
    exact ih (fun b a ha ↦ hf b a (by simp [ha])) b'

theorem Checked.cases (hx : Checked x) :
    (∃ message, x = .error (.verification message)) ∨ ∃ a, x = .ok a := by
  cases x with
  | error e =>
    obtain ⟨message, rfl⟩ := hx e rfl
    exact .inl ⟨message, rfl⟩
  | ok a => exact .inr ⟨a, rfl⟩

theorem ok_of_toOption {a : α} (h : x.toOption = some a) : x = .ok a := by
  cases x with
  | error e => cases h
  | ok a' => exact congrArg Except.ok (Option.some.inj h)

end Checked

structure ByteString where
  data : Bytes
  fits : data.length < 2 ^ 63

def numberAt (data : Bytes) (offset size : ℕ) : ℕ := littleEndian (slice data offset size)

def headerOf (data : Bytes) : ElfHeader where
  kind := numberAt data 16 2
  machine := numberAt data 18 2
  version := numberAt data 20 4
  phoff := numberAt data 32 8
  ehsize := numberAt data 52 2
  phentsize := numberAt data 54 2
  phnum := numberAt data 56 2

def segmentAt (data : Bytes) (offset : ℕ) : Segment where
  kind := numberAt data offset 4
  offset := numberAt data (offset + 8) 8
  address := numberAt data (offset + 16) 8
  fileSize := numberAt data (offset + 32) 8
  memorySize := numberAt data (offset + 40) 8
  alignment := numberAt data (offset + 48) 8

def segments (data : Bytes) : List Segment :=
  (List.range (headerOf data).phnum).map fun index ↦
    segmentAt data ((headerOf data).phoff + index * 56)

section Fields

variable {data : Bytes} {header : ElfHeader} {index offset : ℕ}

theorem littleEndian_lt (data : Bytes) : littleEndian data < 256 ^ data.length := by
  induction data with
  | nil => simp [littleEndian]
  | cons b data ih =>
    have hb := b.toNat_lt
    rw [littleEndian, List.length_cons, Nat.pow_succ]
    omega

theorem numberAt_lt (data : Bytes) (offset size : ℕ) : numberAt data offset size < 256 ^ size := by
  refine (littleEndian_lt _).trans_le (Nat.pow_le_pow_right (by omega) ?_)
  simp [slice]

theorem readHeader_eq (h : 64 ≤ data.length) : readHeader data = .ok (headerOf data) := by
  have hread : ¬ data.length < 64 := by omega
  simp [readHeader, unpackFrom, hread, splitFields, bind, Except.bind, headerOf, numberAt, slice]

theorem readSegment_eq (hfits : data.length < 2 ^ 63) (hsize : header.phentsize = 56)
    (h : header.phoff + index * 56 + 56 ≤ data.length) :
    readSegment data header index = .ok (segmentAt data (header.phoff + index * 56)) := by
  have hbig : ¬ 2 ^ 63 ≤ header.phoff + index * 56 := by omega
  have hread : ¬ data.length < header.phoff + index * 56 + 56 := by omega
  have hread' : ¬ data.length < header.phoff + index * 56 + [4, 4, 8, 8, 8, 8, 8, 8].sum := hread
  rw [readSegment, hsize, unpackFrom, if_neg hbig, if_neg hread']
  simp [splitFields, bind, Except.bind, segmentAt, numberAt, slice, Nat.add_assoc]

end Fields

structure SharedObject (data : Bytes) : Prop where
  header : 64 ≤ data.length
  ident : data.take 7 = magic
  kind : (headerOf data).kind = 3
  machine : (headerOf data).machine = 183
  version : (headerOf data).version = 1
  ehsize : (headerOf data).ehsize = 64

structure HasTable (data : Bytes) : Prop where
  phentsize : (headerOf data).phentsize = 56
  phnum : (headerOf data).phnum < 65535
  start : 64 ≤ (headerOf data).phoff
  stop : (headerOf data).phoff + 56 * (headerOf data).phnum ≤ data.length

/-- What a loader needs of a segment, whatever the size of its pages. -/
structure LoadSafe (data : Bytes) (segment : Segment) : Prop where
  alignment : segment.alignment.isPowerOfTwo
  file : segment.offset + segment.fileSize ≤ data.length
  memory : segment.fileSize ≤ segment.memorySize
  congruent : ∀ k, 2 ^ k ≤ segment.alignment → segment.offset ≡ segment.address [MOD 2 ^ k]

def loadSegments (data : Bytes) : List Segment :=
  (segments data).filter fun segment ↦ segment.kind = 1

section Loading

variable {data : Bytes} {label : String} {header : ElfHeader} {index loads loads' : ℕ}
  {segment : Segment}

theorem congruent_iff (h : segment.alignment.isPowerOfTwo) :
    segment.offset % segment.alignment = segment.address % segment.alignment ↔
      ∀ k, 2 ^ k ≤ segment.alignment → segment.offset ≡ segment.address [MOD 2 ^ k] := by
  obtain ⟨n, hn⟩ := h
  rw [hn]
  constructor
  · intro hmod k hk
    have hkn : k ≤ n := (Nat.pow_le_pow_iff_right (by omega)).mp hk
    exact Nat.ModEq.of_dvd (Nat.pow_dvd_pow 2 hkn) hmod
  · intro hmod
    exact hmod n le_rfl

theorem alignment_ne_zero (h : pageSize ≤ segment.alignment) : segment.alignment ≠ 0 := by
  unfold pageSize at h
  omega

theorem isPowerOfTwo_iff (h : pageSize ≤ segment.alignment) :
    segment.alignment &&& (segment.alignment - 1) = 0 ↔ segment.alignment.isPowerOfTwo :=
  Nat.and_sub_one_eq_zero_iff_isPowerOfTwo (alignment_ne_zero h)

theorem modulo_eq {a b : ℕ} (h : b ≠ 0) : modulo a b = .ok (a % b) := if_neg h

theorem modulo_checked {a b : ℕ} (h : b ≠ 0) : Checked (modulo a b) := by
  rw [modulo_eq h]
  exact .ok _

/-- The checks of one segment never divide by zero: a small alignment is refused first. -/
theorem verifySegment_checked (hread : readSegment data header index = .ok segment) :
    Checked (verifySegment data label header loads index) := by
  rw [verifySegment, hread]
  change Checked (if _ then _ else _)
  split_ifs with hkind
  · exact .ok loads
  · refine Checked.bind (.refuse _ _) fun _ hrefuse ↦ ?_
    have hpage : pageSize ≤ segment.alignment :=
      not_lt.mp fun hlt ↦ refuse_ok.mp hrefuse (.inl hlt)
    have hpos := alignment_ne_zero hpage
    refine Checked.bind (modulo_checked hpos) fun _ _ ↦ ?_
    refine Checked.bind (modulo_checked hpos) fun _ _ ↦ ?_
    refine Checked.bind (.refuse _ _) fun _ _ ↦ ?_
    exact Checked.bind (.refuse _ _) fun _ _ ↦ .ok _

theorem verifySegment_ok (hread : readSegment data header index = .ok segment) :
    verifySegment data label header loads index = .ok loads' ↔
      segment.kind ≠ 1 ∧ loads' = loads ∨
      segment.kind = 1 ∧ (LoadSafe data segment ∧ pageSize ≤ segment.alignment) ∧
        loads' = loads + 1 := by
  rw [verifySegment, bind_ok]
  simp only [hread, Except.ok.injEq, exists_eq_left']
  split_ifs with hkind
  · simp [hkind, eq_comm]
  · rw [not_not] at hkind
    simp only [bind_ok, refuse_ok, exists_const, hkind, ne_eq, not_true_eq_false, false_and,
      true_and, false_or, not_or, not_lt, not_not]
    constructor
    · rintro ⟨⟨hpage, hpower⟩, offset, hoffset, address, haddress, hsame, ⟨hmemory, hfile⟩, hloads⟩
      have hpos := alignment_ne_zero hpage
      rw [modulo_eq hpos] at hoffset haddress
      have hpower' := (isPowerOfTwo_iff hpage).mp hpower
      have hmod : segment.offset % segment.alignment = segment.address % segment.alignment :=
        (Except.ok.inj hoffset).trans (hsame.trans (Except.ok.inj haddress).symm)
      exact ⟨⟨⟨hpower', hfile, hmemory, (congruent_iff hpower').mp hmod⟩, hpage⟩,
        (Except.ok.inj hloads).symm⟩
    · rintro ⟨⟨hsafe, hpage⟩, rfl⟩
      have hpos := alignment_ne_zero hpage
      refine ⟨⟨hpage, (isPowerOfTwo_iff hpage).mpr hsafe.alignment⟩, _, modulo_eq hpos, _,
        modulo_eq hpos, (congruent_iff hsafe.alignment).mpr hsafe.congruent,
        ⟨hsafe.memory, hsafe.file⟩, rfl⟩

end Loading

section Acceptance

variable {data : Bytes} {label : String} {loads : ℕ}

theorem foldlM_count {step : ℕ → ℕ → Except Failure ℕ} {p q : ℕ → Prop} [DecidablePred p]
    {indices : List ℕ} (hstep : ∀ index ∈ indices, ∀ n n', step n index = .ok n' ↔
      ¬ p index ∧ n' = n ∨ p index ∧ q index ∧ n' = n + 1) (n n' : ℕ) :
    indices.foldlM step n = .ok n' ↔
      (∀ index ∈ indices, p index → q index) ∧ n' = n + indices.countP (p ·) := by
  induction indices generalizing n with
  | nil => simp [pure, Except.pure, eq_comm]
  | cons index indices ih =>
    have htail := ih fun i hi ↦ hstep i (List.mem_cons_of_mem _ hi)
    rw [List.foldlM_cons, bind_ok, List.forall_mem_cons]
    simp only [hstep index List.mem_cons_self, htail]
    by_cases hp : p index
    · rw [List.countP_cons_of_pos (by simpa using hp)]
      simp only [hp, not_true_eq_false, false_and, true_and, false_or, true_implies]
      constructor
      · rintro ⟨_, ⟨hq, rfl⟩, hall, rfl⟩
        exact ⟨⟨hq, hall⟩, by omega⟩
      · rintro ⟨⟨hq, hall⟩, rfl⟩
        exact ⟨n + 1, ⟨hq, rfl⟩, hall, by omega⟩
    · rw [List.countP_cons_of_neg (by simpa using hp)]
      simp [hp]

theorem readSegment_of_table (hfits : data.length < 2 ^ 63) (htable : HasTable data) {index : ℕ}
    (hindex : index < (headerOf data).phnum) :
    readSegment data (headerOf data) index =
      .ok (segmentAt data ((headerOf data).phoff + index * 56)) := by
  have hstop := htable.stop
  exact readSegment_eq hfits htable.phentsize (by omega)

theorem forall_loadSegments {q : Segment → Prop} : (∀ s ∈ loadSegments data, q s) ↔
    ∀ index ∈ List.range (headerOf data).phnum,
      (segmentAt data ((headerOf data).phoff + index * 56)).kind = 1 →
      q (segmentAt data ((headerOf data).phoff + index * 56)) := by
  simp only [loadSegments, segments, List.mem_filter, List.mem_map, decide_eq_true_eq]
  constructor
  · intro h index hindex hkind
    exact h _ ⟨⟨index, hindex, rfl⟩, hkind⟩
  · rintro h _ ⟨⟨index, hindex, rfl⟩, hkind⟩
    exact h index hindex hkind

theorem length_loadSegments : (loadSegments data).length = (List.range (headerOf data).phnum).countP
    fun index ↦ (segmentAt data ((headerOf data).phoff + index * 56)).kind = 1 := by
  rw [loadSegments, segments, ← List.countP_eq_length_filter, List.countP_map]
  rfl

theorem foldlM_range (hfits : data.length < 2 ^ 63) (htable : HasTable data) :
    (List.range (headerOf data).phnum).foldlM (verifySegment data label (headerOf data)) 0 =
        .ok loads ↔
      (∀ s ∈ loadSegments data, LoadSafe data s ∧ pageSize ≤ s.alignment) ∧
        loads = (loadSegments data).length := by
  rw [forall_loadSegments, length_loadSegments, ← Nat.zero_add (List.countP _ _)]
  refine foldlM_count ?_ 0 loads
  intro index hindex n n'
  exact verifySegment_ok (readSegment_of_table hfits htable (List.mem_range.mp hindex))

/-- What `verify_elf` accepts, and what it counts. -/
theorem verifyElf_ok (hfits : data.length < 2 ^ 63) :
    verifyElf data label = .ok loads ↔ SharedObject data ∧ HasTable data ∧
      (∀ s ∈ loadSegments data, LoadSafe data s ∧ pageSize ≤ s.alignment) ∧
      loads = (loadSegments data).length ∧ 0 < loads := by
  simp only [verifyElf, bind_ok, refuse_ok, not_or, not_lt, not_not, exists_const]
  constructor
  · rintro ⟨⟨hlength, hident⟩, header, hheader, ⟨hkind, hmachine, hversion⟩,
      ⟨hehsize, hphentsize, hphnum⟩, ⟨hstart, hstop⟩, loads', hloop, hzero, hloads⟩
    rw [readHeader_eq hlength] at hheader
    obtain rfl := Except.ok.inj hheader
    obtain rfl := Except.ok.inj hloads
    have hcount : (headerOf data).phnum < 65535 := by
      have hbound := numberAt_lt data 56 2
      change (headerOf data).phnum < 65536 at hbound
      omega
    have htable : HasTable data := ⟨hphentsize, hcount, hstart, by rwa [hphentsize] at hstop⟩
    have hloop := (foldlM_range hfits htable).mp hloop
    exact ⟨⟨hlength, hident, hkind, hmachine, hversion, hehsize⟩, htable, hloop.1, hloop.2,
      Nat.pos_of_ne_zero hzero⟩
  · rintro ⟨hobject, htable, hall, hloads, hpos⟩
    refine ⟨⟨hobject.header, hobject.ident⟩, _, readHeader_eq hobject.header,
      ⟨hobject.kind, hobject.machine, hobject.version⟩, ⟨hobject.ehsize, htable.phentsize, ?_⟩,
      ⟨htable.start, ?_⟩, loads, (foldlM_range hfits htable).mpr ⟨hall, hloads⟩, by omega, rfl⟩
    · have hphnum := htable.phnum
      omega
    · rw [htable.phentsize]
      exact htable.stop

/-- Every read of the file is in bounds, because the table of program headers is. -/
theorem verifyElf_checked (label : String) (hfits : data.length < 2 ^ 63) :
    Checked (verifyElf data label) := by
  refine Checked.bind (.refuse _ _) fun _ hmagic ↦ ?_
  have hlength : 64 ≤ data.length := not_lt.mp fun hlt ↦ refuse_ok.mp hmagic (.inl hlt)
  rw [readHeader_eq hlength]
  refine Checked.bind (.ok _) fun header hheader ↦ ?_
  obtain rfl := Except.ok.inj hheader
  refine Checked.bind (.refuse _ _) fun _ _ ↦ ?_
  refine Checked.bind (.refuse _ _) fun _ htable ↦ ?_
  refine Checked.bind (.refuse _ _) fun _ hbounds ↦ ?_
  simp only [refuse_ok, not_or, not_not, not_lt] at htable hbounds
  refine Checked.bind (.foldlM (fun loads index hindex ↦ ?_) 0) fun loads _ ↦ ?_
  · rw [List.mem_range] at hindex
    have hstop := hbounds.2
    rw [htable.2.1] at hstop
    exact verifySegment_checked (readSegment_eq hfits htable.2.1 (by omega))
  · exact Checked.bind (.refuse _ _) fun _ _ ↦ .ok _

end Acceptance

/-- `verify_elf` raises a `VerificationError` or counts at least one segment. What it accepts can
be loaded with any size of pages, and it accepts every such file. -/
theorem verifyElf_total_loadSafe (file : ByteString) (label : String) :
    ((∃ message, verifyElf file.data label = .error (.verification message)) ∨
      ∃ loads, 0 < loads ∧ verifyElf file.data label = .ok loads) ∧
    (∀ loads, verifyElf file.data label = .ok loads → SharedObject file.data ∧
      ∀ s ∈ loadSegments file.data, LoadSafe file.data s ∧
        s.offset ≡ s.address [MOD 4096] ∧ s.offset ≡ s.address [MOD 16384]) ∧
    (SharedObject file.data → HasTable file.data → loadSegments file.data ≠ [] →
      (∀ s ∈ loadSegments file.data, LoadSafe file.data s ∧ 16384 ≤ s.alignment) →
      ∃ loads, verifyElf file.data label = .ok loads) := by
  refine ⟨?_, ?_, ?_⟩
  · rcases (verifyElf_checked label file.fits).cases with herror | ⟨loads, hok⟩
    · exact .inl herror
    · exact .inr ⟨loads, ((verifyElf_ok file.fits).mp hok).2.2.2.2, hok⟩
  · intro loads hok
    obtain ⟨hobject, -, hall, -, -⟩ := (verifyElf_ok file.fits).mp hok
    refine ⟨hobject, fun s hs ↦ ?_⟩
    obtain ⟨hsafe, hpage⟩ := hall s hs
    unfold pageSize at hpage
    exact ⟨hsafe, hsafe.congruent 12 (by omega), hsafe.congruent 14 (by omega)⟩
  · intro hobject htable hsome hall
    have hpos := List.length_pos_of_ne_nil hsome
    exact ⟨_, (verifyElf_ok file.fits).mpr ⟨hobject, htable, hall, rfl, hpos⟩⟩

theorem Scenario.image_loads : SharedObject image ∧ ∀ s ∈ loadSegments image,
    LoadSafe image s ∧ s.offset ≡ s.address [MOD 4096] ∧ s.offset ≡ s.address [MOD 16384] :=
  (verifyElf_total_loadSafe ⟨image, by decide +kernel⟩ "lib.so").2.1 1
    (ok_of_toOption (by decide +kernel))

end LibLitertLm.Tool
