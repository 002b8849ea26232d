import LibLitertLm.Tool.LoadSafety

namespace LibLitertLm.Tool

structure Image extends ByteString where
  accepted : ∃ label loads, verifyElf data label = .ok loads

def Agree (data data' : Bytes) (start stop : ℕ) : Prop :=
  ∀ i, start ≤ i → i < stop → data[i]? = data'[i]?

section Agreement

variable {data data' : Bytes} {start stop offset size k n : ℕ}

theorem getElem?_slice (i : ℕ) :
    (slice data offset size)[i]? = if i < size then data[offset + i]? else none := by
  rw [slice, List.getElem?_take]
  split_ifs
  · rw [List.getElem?_drop]
  · rfl

theorem Agree.slice_eq (h : Agree data data' start stop) (hstart : start ≤ offset)
    (hstop : offset + size ≤ stop) : slice data offset size = slice data' offset size := by
  apply List.ext_getElem?
  intro i
  rw [getElem?_slice, getElem?_slice]
  split_ifs with hi
  · exact h (offset + i) (by omega) (by omega)
  · rfl

variable (offset size) in
theorem Agree.numberAt_eq (h : Agree data data' start stop) (hstart : start ≤ offset)
    (hstop : offset + size ≤ stop) : numberAt data offset size = numberAt data' offset size :=
  congrArg littleEndian (h.slice_eq hstart hstop)

theorem Agree.of_slice (h : slice data start size = slice data' start size) :
    Agree data data' start (start + size) := by
  intro i hstart hstop
  have hi := congrArg (fun bytes : Bytes ↦ bytes[i - start]?) h
  simp only [getElem?_slice] at hi
  rw [if_pos (by omega), if_pos (by omega), Nat.add_sub_cancel' hstart] at hi
  exact hi

/-- A range that is not empty ends inside both files or in neither. -/
theorem Agree.stop_le (h : Agree data data' start stop) (hsome : start < stop)
    (hstop : stop ≤ data.length) : stop ≤ data'.length := by
  by_contra hlong
  have hlast := h (stop - 1) (by omega) (by omega)
  rw [List.getElem?_eq_getElem (by omega), List.getElem?_eq_none (by omega)] at hlast
  cases hlast

end Agreement

section Notes

variable {data data' : Bytes} {start stop offset fuel fuel' : ℕ}

def valueOffsetAt (data : Bytes) (offset : ℕ) : ℕ := offset + 12 + align (numberAt data offset 4)

def nextOffsetAt (data : Bytes) (offset : ℕ) : ℕ :=
  valueOffsetAt data offset + align (numberAt data (offset + 4) 4)

def nameAt (data : Bytes) (offset : ℕ) : Bytes :=
  (slice data (offset + 12) (numberAt data offset 4)).rdropWhile (· == 0)

def valueAt (data : Bytes) (offset : ℕ) : Bytes :=
  slice data (valueOffsetAt data offset) (numberAt data (offset + 4) 4)

def IsBuildId (data : Bytes) (offset : ℕ) : Prop :=
  nameAt data offset = gnuName ∧ numberAt data (offset + 8) 4 = 3 ∧ numberAt data (offset + 4) 4 ≠ 0

instance : Decidable (IsBuildId data offset) := inferInstanceAs (Decidable (_ ∧ _))

theorem le_align (n : ℕ) : n ≤ align n := by
  unfold align
  omega

variable (data offset) in
theorem nextOffsetAt_ge : offset + 12 ≤ nextOffsetAt data offset := by
  unfold nextOffsetAt valueOffsetAt
  omega

theorem unpackFrom_note (hfits : offset < 2 ^ 63) (h : offset + 12 ≤ data.length) :
    unpackFrom [4, 4, 4] data offset =
      .ok [numberAt data offset 4, numberAt data (offset + 4) 4, numberAt data (offset + 8) 4] := by
  have hbig : ¬ 2 ^ 63 ≤ offset := by omega
  have hread : ¬ data.length < offset + [4, 4, 4].sum := by
    change ¬ data.length < offset + 12
    omega
  rw [unpackFrom, if_neg hbig, if_neg hread]
  simp [splitFields, numberAt, slice]

/-- One turn of the loop over the notes. -/
theorem findBuildId_succ (hfits : stop < 2 ^ 63) (hstop : stop ≤ data.length)
    (h : offset + 12 ≤ stop) : findBuildId data stop (fuel + 1) offset =
      (refuse (stop < nextOffsetAt data offset) "truncated ELF note" >>= fun _ ↦
        if IsBuildId data offset then .ok (some (.buildId (hexDigits (valueAt data offset))))
        else findBuildId data stop fuel (nextOffsetAt data offset)) := by
  rw [findBuildId, if_pos h, unpackFrom_note (by omega) (by omega)]
  rfl

theorem findBuildId_stop (h : stop < offset + 12) :
    findBuildId data stop (fuel + 1) offset = .ok none := by
  rw [findBuildId, if_neg (by omega)]

/-- The loop ends before its fuel, and reads inside of the segment only. -/
theorem findBuildId_checked (hfits : stop < 2 ^ 63) (hstop : stop ≤ data.length)
    (hoffset : offset ≤ stop) (hfuel : stop < offset + fuel) :
    Checked (findBuildId data stop fuel offset) := by
  induction fuel generalizing offset with
  | zero => omega
  | succ fuel ih =>
    by_cases hnote : offset + 12 ≤ stop
    · rw [findBuildId_succ hfits hstop hnote]
      refine Checked.bind (.refuse _ _) fun _ hnext ↦ ?_
      have hnext := not_lt.mp (refuse_ok.mp hnext)
      have hge := nextOffsetAt_ge data offset
      split_ifs
      · exact .ok _
      · exact ih hnext (by omega)
    · rw [findBuildId_stop (by omega)]
      exact .ok none

/-- The numbers of a note are in its first twelve bytes. -/
theorem Agree.note (h : Agree data data' start stop) (hstart : start ≤ offset)
    (hnote : offset + 12 ≤ stop) : numberAt data offset 4 = numberAt data' offset 4 ∧
      numberAt data (offset + 4) 4 = numberAt data' (offset + 4) 4 ∧
      numberAt data (offset + 8) 4 = numberAt data' (offset + 8) 4 :=
  ⟨h.numberAt_eq offset 4 hstart (by omega), h.numberAt_eq (offset + 4) 4 (by omega) (by omega),
    h.numberAt_eq (offset + 8) 4 (by omega) (by omega)⟩

theorem Agree.nextOffsetAt_eq (h : Agree data data' start stop) (hstart : start ≤ offset)
    (hnote : offset + 12 ≤ stop) : valueOffsetAt data offset = valueOffsetAt data' offset ∧
      nextOffsetAt data offset = nextOffsetAt data' offset := by
  obtain ⟨hname, hvalue, -⟩ := h.note hstart hnote
  have hvalueOffset : valueOffsetAt data offset = valueOffsetAt data' offset := by
    rw [valueOffsetAt, valueOffsetAt, hname]
  exact ⟨hvalueOffset, by rw [nextOffsetAt, nextOffsetAt, hvalueOffset, hvalue]⟩

theorem Agree.buildId (h : Agree data data' start stop) (hstart : start ≤ offset)
    (hnext : nextOffsetAt data offset ≤ stop) : valueAt data offset = valueAt data' offset ∧
      (IsBuildId data offset ↔ IsBuildId data' offset) := by
  have hnote := (nextOffsetAt_ge data offset).trans hnext
  obtain ⟨hname, hvalue, hkind⟩ := h.note hstart hnote
  have hnameSize := le_align (numberAt data offset 4)
  have hvalueSize := le_align (numberAt data (offset + 4) 4)
  unfold nextOffsetAt valueOffsetAt at hnext
  have hnameAt : nameAt data offset = nameAt data' offset := by
    rw [nameAt, nameAt, ← hname, h.slice_eq (by omega) (by omega)]
  have hvalueAt : valueAt data offset = valueAt data' offset := by
    rw [valueAt, valueAt, ← hvalue, ← (h.nextOffsetAt_eq hstart hnote).1]
    unfold valueOffsetAt
    exact h.slice_eq (by omega) (by omega)
  exact ⟨hvalueAt, by rw [IsBuildId, IsBuildId, hnameAt, hkind, hvalue]⟩

/-- The loop depends on the bytes of the segment only. -/
theorem findBuildId_congr (hagree : Agree data data' start stop) (hfits : stop < 2 ^ 63)
    (hstop : stop ≤ data.length) (hstop' : stop ≤ data'.length) (hstart : start ≤ offset)
    (hoffset : offset ≤ stop) (hfuel : stop < offset + fuel) (hfuel' : stop < offset + fuel') :
    findBuildId data stop fuel offset = findBuildId data' stop fuel' offset := by
  induction fuel generalizing offset fuel' with
  | zero => omega
  | succ fuel ih =>
    cases fuel' with
    | zero => omega
    | succ fuel' =>
      by_cases hnote : offset + 12 ≤ stop
      · rw [findBuildId_succ hfits hstop hnote, findBuildId_succ hfits hstop' hnote,
          ← (hagree.nextOffsetAt_eq hstart hnote).2]
        by_cases hnext : stop < nextOffsetAt data offset
        · rw [refuse, if_pos hnext]
          rfl
        · rw [not_lt] at hnext
          have hge := nextOffsetAt_ge data offset
          obtain ⟨hvalue, hbuild⟩ := hagree.buildId hstart hnext
          have hfuel' : stop < nextOffsetAt data offset + fuel' := by omega
          rw [hvalue, ih (by omega) hnext (by omega) hfuel']
          simp only [hbuild]
      · rw [findBuildId_stop (by omega), findBuildId_stop (by omega)]

/-- What the loop returns is a build id. -/
theorem findBuildId_some (hfits : stop < 2 ^ 63) (hstop : stop ≤ data.length)
    {identity : Identity} (h : findBuildId data stop fuel offset = .ok (some identity)) :
    ∃ id, identity = .buildId id := by
  induction fuel generalizing offset with
  | zero => cases h
  | succ fuel ih =>
    by_cases hnote : offset + 12 ≤ stop
    · rw [findBuildId_succ hfits hstop hnote, bind_ok] at h
      obtain ⟨_, -, h⟩ := h
      split_ifs at h
      · cases h
        exact ⟨_, rfl⟩
      · exact ih h
    · rw [findBuildId_stop (by omega)] at h
      cases h

end Notes

def SameRange (data data' : Bytes) (segment : Segment) : Prop :=
  Agree data data' segment.offset (segment.offset + segment.fileSize)

/-- An empty range begins inside both files or in neither. -/
def SameEnd (data data' : Bytes) (segment : Segment) : Prop :=
  segment.fileSize = 0 → (segment.offset ≤ data.length ↔ segment.offset ≤ data'.length)

section Segments

variable {data data' : Bytes} {header header' : ElfHeader} {segment : ℕ → Segment}
  {indices : List ℕ} {identity : Identity}

theorem findNotes_cons {index : ℕ}
    (hread : readSegment data header index = .ok (segment index)) :
    findNotes data header (index :: indices) =
      if (segment index).kind ≠ 4 then findNotes data header indices
      else (refuse (data.length < (segment index).offset + (segment index).fileSize)
          "truncated ELF note segment" >>= fun _ ↦
        findBuildId data ((segment index).offset + (segment index).fileSize) (data.length + 1)
            (segment index).offset >>= fun found ↦
          match found with
          | some identity => .ok (some identity)
          | none => findNotes data header indices) := by
  rw [findNotes, hread]
  rfl

theorem findNotes_checked (hfits : data.length < 2 ^ 63)
    (hread : ∀ index ∈ indices, readSegment data header index = .ok (segment index)) :
    Checked (findNotes data header indices) := by
  induction indices with
  | nil => exact .ok none
  | cons index indices ih =>
    have htail := ih fun i hi ↦ hread i (List.mem_cons_of_mem _ hi)
    rw [findNotes_cons (hread index List.mem_cons_self)]
    split_ifs
    · exact htail
    · refine Checked.bind (.refuse _ _) fun _ hrange ↦ ?_
      have hstop := not_lt.mp (refuse_ok.mp hrange)
      refine Checked.bind (findBuildId_checked (by omega) hstop (by omega) (by omega)) ?_
      intro found _
      cases found with
      | none => exact htail
      | some identity => exact .ok _

theorem findNotes_some (hfits : data.length < 2 ^ 63)
    (hread : ∀ index ∈ indices, readSegment data header index = .ok (segment index))
    (h : findNotes data header indices = .ok (some identity)) : ∃ id, identity = .buildId id := by
  induction indices with
  | nil => cases h
  | cons index indices ih =>
    have htail := ih fun i hi ↦ hread i (List.mem_cons_of_mem _ hi)
    rw [findNotes_cons (hread index List.mem_cons_self)] at h
    split_ifs at h
    · exact htail h
    · simp only [bind_ok, refuse_ok, not_lt] at h
      obtain ⟨-, hstop, found, hfound, h⟩ := h
      cases found with
      | none => exact htail h
      | some identity' =>
        cases h
        exact findBuildId_some (by omega) hstop hfound

/-- The segments that were looked at before the build id was found lie inside both files. -/
theorem findNotes_transfer (hfits : data.length < 2 ^ 63)
    (hread : ∀ index ∈ indices, readSegment data header index = .ok (segment index))
    (hread' : ∀ index ∈ indices, readSegment data' header' index = .ok (segment index))
    (hsame : ∀ index ∈ indices, (segment index).kind = 4 →
      SameRange data data' (segment index) ∧ SameEnd data data' (segment index))
    (h : findNotes data header indices = .ok (some identity)) :
    findNotes data' header' indices = .ok (some identity) := by
  induction indices with
  | nil => cases h
  | cons index indices ih =>
    have htail := ih (fun i hi ↦ hread i (List.mem_cons_of_mem _ hi))
      (fun i hi ↦ hread' i (List.mem_cons_of_mem _ hi))
      (fun i hi ↦ hsame i (List.mem_cons_of_mem _ hi))
    rw [findNotes_cons (hread index List.mem_cons_self)] at h
    rw [findNotes_cons (hread' index List.mem_cons_self)]
    split_ifs at h ⊢ with hkind
    · exact htail h
    · simp only [bind_ok, refuse_ok, not_lt] at h ⊢
      obtain ⟨_, hstop, found, hfound, h⟩ := h
      obtain ⟨hrange, hend⟩ := hsame index List.mem_cons_self (not_not.mp hkind)
      have hstop' : (segment index).offset + (segment index).fileSize ≤ data'.length := by
        by_cases hempty : (segment index).fileSize = 0
        · rw [hempty, Nat.add_zero] at hstop ⊢
          exact (hend hempty).mp hstop
        · exact hrange.stop_le (by omega) hstop
      have hfuel : (segment index).offset + (segment index).fileSize <
          (segment index).offset + (data.length + 1) := by omega
      have hfuel' : (segment index).offset + (segment index).fileSize <
          (segment index).offset + (data'.length + 1) := by omega
      have hcongr := findBuildId_congr hrange (by omega) hstop hstop' le_rfl (by omega) hfuel hfuel'
      refine ⟨(), hstop', found, hcongr.symm.trans hfound, ?_⟩
      cases found with
      | none => exact htail h
      | some identity' => exact h

end Segments

structure SameTable (data data' : Bytes) : Prop where
  phoff : (headerOf data).phoff = (headerOf data').phoff
  phnum : (headerOf data).phnum = (headerOf data').phnum
  entries : slice data (headerOf data).phoff (56 * (headerOf data).phnum) =
    slice data' (headerOf data').phoff (56 * (headerOf data').phnum)

section Images

variable {image image' : Image} {sha256 : Bytes → List Char} {id : List Char}

theorem Image.table (image : Image) : SharedObject image.data ∧ HasTable image.data := by
  obtain ⟨label, loads, hok⟩ := image.accepted
  obtain ⟨hobject, htable, -⟩ := (verifyElf_ok image.fits).mp hok
  exact ⟨hobject, htable⟩

theorem Image.readHeader_eq (image : Image) : readHeader image.data = .ok (headerOf image.data) :=
  Tool.readHeader_eq image.table.1.header

def Image.segment (image : Image) (index : ℕ) : Segment :=
  segmentAt image.data ((headerOf image.data).phoff + index * 56)

theorem Image.readSegment_eq (image : Image) :
    ∀ index ∈ List.range (headerOf image.data).phnum,
      readSegment image.data (headerOf image.data) index = .ok (image.segment index) := by
  intro index hindex
  exact readSegment_of_table image.fits image.table.2 (List.mem_range.mp hindex)

theorem Image.mem_segments {index : ℕ} (hindex : index < (headerOf image.data).phnum) :
    image.segment index ∈ segments image.data :=
  List.mem_map_of_mem (List.mem_range.mpr hindex)

theorem SameTable.segment_eq (h : SameTable image.data image'.data) {index : ℕ}
    (hindex : index < (headerOf image.data).phnum) :
    image.segment index = image'.segment index := by
  have hagree : Agree image.data image'.data (headerOf image.data).phoff
      ((headerOf image.data).phoff + 56 * (headerOf image.data).phnum) := by
    apply Agree.of_slice
    rw [h.entries, h.phoff, h.phnum]
  unfold Image.segment segmentAt
  rw [← h.phoff]
  congr 1 <;> exact hagree.numberAt_eq _ _ (by omega) (by omega)

theorem binaryIdentity_eq (sha256 : Bytes → List Char) (image : Image) :
    binaryIdentity sha256 image.data =
      (findNotes image.data (headerOf image.data) (List.range (headerOf image.data).phnum) >>=
        fun found ↦
          match found with
          | some identity => .ok identity
          | none => .ok (.sha256 (sha256 image.data))) := by
  rw [binaryIdentity, image.readHeader_eq]
  rfl

theorem binaryIdentity_checked (sha256 : Bytes → List Char) (image : Image) :
    Checked (binaryIdentity sha256 image.data) := by
  rw [binaryIdentity_eq]
  refine Checked.bind (findNotes_checked image.fits image.readSegment_eq) fun found _ ↦ ?_
  cases found with
  | none => exact .ok _
  | some identity => exact .ok identity

theorem binaryIdentity_buildId : binaryIdentity sha256 image.data = .ok (.buildId id) ↔
    findNotes image.data (headerOf image.data) (List.range (headerOf image.data).phnum) =
      .ok (some (.buildId id)) := by
  rw [binaryIdentity_eq, bind_ok]
  constructor
  · rintro ⟨found, hfound, h⟩
    cases found with
    | none => cases h
    | some identity =>
      cases h
      exact hfound
  · intro hfound
    exact ⟨_, hfound, rfl⟩

theorem binaryIdentity_sha256 {digest : List Char}
    (h : binaryIdentity sha256 image.data = .ok (.sha256 digest)) :
    digest = sha256 image.data := by
  rw [binaryIdentity_eq, bind_ok] at h
  obtain ⟨found, hfound, h⟩ := h
  cases found with
  | none =>
    cases h
    rfl
  | some identity =>
    obtain ⟨id, rfl⟩ := findNotes_some image.fits image.readSegment_eq hfound
    cases h

theorem binaryIdentity_transfer (htable : SameTable image.data image'.data)
    (hsame : ∀ s ∈ segments image.data, s.kind = 4 →
      SameRange image.data image'.data s ∧ SameEnd image.data image'.data s)
    (h : binaryIdentity sha256 image.data = .ok (.buildId id)) :
    binaryIdentity sha256 image'.data = .ok (.buildId id) := by
  rw [binaryIdentity_buildId] at h ⊢
  rw [← htable.phnum]
  refine findNotes_transfer image.fits image.readSegment_eq ?_ ?_ h
  · intro index hindex
    rw [htable.segment_eq (List.mem_range.mp hindex)]
    rw [htable.phnum] at hindex
    exact image'.readSegment_eq index hindex
  · intro index hindex
    exact hsame _ (Image.mem_segments (List.mem_range.mp hindex))

theorem SameTable.symm {data data' : Bytes} (h : SameTable data data') : SameTable data' data :=
  ⟨h.phoff.symm, h.phnum.symm, h.entries.symm⟩

theorem SameTable.segments_eq (h : SameTable image.data image'.data) :
    segments image.data = segments image'.data := by
  unfold segments
  rw [← h.phnum]
  apply List.map_congr_left
  intro index hindex
  exact h.segment_eq (List.mem_range.mp hindex)

theorem binaryIdentity_iff (htable : SameTable image.data image'.data)
    (hsame : ∀ s ∈ segments image.data, s.kind = 4 →
      SameRange image.data image'.data s ∧ SameEnd image.data image'.data s) :
    binaryIdentity sha256 image.data = .ok (.buildId id) ↔
      binaryIdentity sha256 image'.data = .ok (.buildId id) := by
  constructor
  · exact binaryIdentity_transfer htable hsame
  · apply binaryIdentity_transfer htable.symm
    intro s hs hkind
    rw [← htable.segments_eq] at hs
    obtain ⟨hrange, hend⟩ := hsame s hs hkind
    exact ⟨fun i hstart hstop ↦ (hrange i hstart hstop).symm, fun hempty ↦ (hend hempty).symm⟩

end Images

/-- The identity of an accepted image is found or refused. A build id depends on the program
headers and the notes only, and without one the identity is the hash of everything. -/
theorem binaryIdentity_robust (sha256 : Bytes → List Char) (image image' : Image) :
    ((∃ identity, binaryIdentity sha256 image.data = .ok identity) ∨
      ∃ message, binaryIdentity sha256 image.data = .error (.verification message)) ∧
    (SameTable image.data image'.data →
      (∀ s ∈ segments image.data, s.kind = 4 →
        SameRange image.data image'.data s ∧ SameEnd image.data image'.data s) →
      ∀ id, binaryIdentity sha256 image.data = .ok (.buildId id) ↔
        binaryIdentity sha256 image'.data = .ok (.buildId id)) ∧
    (∀ identity, (∀ id, identity ≠ .buildId id) →
      binaryIdentity sha256 image.data = .ok identity →
      binaryIdentity sha256 image'.data = .ok identity →
        sha256 image.data = sha256 image'.data) := by
  refine ⟨?_, fun htable hsame id ↦ binaryIdentity_iff htable hsame, ?_⟩
  · exact (binaryIdentity_checked sha256 image).cases.symm
  · intro identity hnot h h'
    cases identity with
    | buildId id => exact absurd rfl (hnot id)
    | sha256 digest => exact (binaryIdentity_sha256 h).symm.trans (binaryIdentity_sha256 h')

namespace Scenario

def program (kind offset fileSize alignment : ℕ) : Bytes :=
  field 4 kind ++ field 4 0 ++ field 8 offset ++ field 16 0 ++ field 8 fileSize ++
    field 8 fileSize ++ field 8 alignment

def noted (first : ℕ) : Bytes :=
  magic ++ field 9 0 ++ field 2 3 ++ field 2 183 ++ field 4 1 ++ field 8 0 ++ field 8 64 ++
    field 12 0 ++ field 2 64 ++ field 2 56 ++ field 2 3 ++ field 6 0 ++
    program 1 0 0 pageSize ++ program 4 first 0 4 ++ program 4 232 20 4 ++
    field 4 4 ++ field 4 4 ++ field 4 3 ++ gnuName ++ [0] ++ field 4 0x04030201

def stripped (first : ℕ) (accepted : (verifyElf (noted first) "lib.so").toOption = some 1)
    (fits : (noted first).length < 2 ^ 63) : Image :=
  ⟨⟨noted first, fits⟩, "lib.so", 1, ok_of_toOption accepted⟩

def unstripped (first : ℕ)
    (accepted : (verifyElf (noted first ++ field 48 0) "lib.so").toOption = some 1)
    (fits : (noted first ++ field 48 0).length < 2 ^ 63) : Image :=
  ⟨⟨noted first ++ field 48 0, fits⟩, "lib.so", 1, ok_of_toOption accepted⟩

def inside : Image := stripped 232 (by decide +kernel) (by decide +kernel)

def inside' : Image := unstripped 232 (by decide +kernel) (by decide +kernel)

def outside : Image := stripped 300 (by decide +kernel) (by decide +kernel)

def outside' : Image := unstripped 300 (by decide +kernel) (by decide +kernel)

theorem stripped_keeps_id :
    binaryIdentity hexDigits inside.data = .ok (.buildId "01020304".toList) := by
  have htable : SameTable inside'.data inside.data :=
    ⟨by decide +kernel, by decide +kernel, by decide +kernel⟩
  have hslice : ∀ s ∈ segments inside'.data, s.kind = 4 →
      slice inside'.data s.offset s.fileSize = slice inside.data s.offset s.fileSize ∧
        s.offset ≤ inside'.data.length ∧ s.offset ≤ inside.data.length := by decide +kernel
  refine ((binaryIdentity_robust hexDigits inside' inside).2.1 htable ?_ _).mp
    (ok_of_toOption (by decide +kernel))
  intro s hs hkind
  obtain ⟨hsame, hinside', hinside⟩ := hslice s hs hkind
  exact ⟨.of_slice hsame, fun _ ↦ ⟨fun _ ↦ hinside, fun _ ↦ hinside'⟩⟩

/-- An empty segment of notes behind the end of a file is refused, so the same bytes in every
range of notes are not enough. -/
theorem empty_notes_decide : ¬ ∀ (sha256 : Bytes → List Char) (image image' : Image),
    SameTable image.data image'.data →
    (∀ s ∈ segments image.data, s.kind = 4 → SameRange image.data image'.data s) →
    ∀ id, binaryIdentity sha256 image.data = .ok (.buildId id) →
      binaryIdentity sha256 image'.data = .ok (.buildId id) := by
  intro hall
  have htable : SameTable outside'.data outside.data :=
    ⟨by decide +kernel, by decide +kernel, by decide +kernel⟩
  have hslice : ∀ s ∈ segments outside'.data, s.kind = 4 →
      slice outside'.data s.offset s.fileSize = slice outside.data s.offset s.fileSize := by
    decide +kernel
  have hid : binaryIdentity hexDigits outside'.data = .ok (.buildId "01020304".toList) :=
    ok_of_toOption (by decide +kernel)
  have hrefused : (binaryIdentity hexDigits outside.data).toOption = none := by decide +kernel
  rw [hall hexDigits outside' outside htable (fun s hs hkind ↦ .of_slice (hslice s hs hkind)) _
    hid] at hrefused
  cases hrefused

end Scenario

end LibLitertLm.Tool
