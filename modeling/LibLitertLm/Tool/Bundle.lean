import LibLitertLm.Tool.Provenance

namespace LibLitertLm.Tool

open JsonText Regex Splice

/-- An entry of the central directory of an archive; `data` is what reading it gives. -/
structure ZipEntry where
  filename : List Char
  compressType : ℕ
  headerOffset : ℕ
  data : Except Failure Bytes

structure Archive where
  path : List Char
  infolist : Except Failure (List ZipEntry)
  raw : Bytes

def baseName (text : List Char) : Name := (text.reverse.takeWhile (· ≠ '/')).reverse

/-- The Kelvin sign is the only other character of which a letter of the two
suffixes is the lower case. -/
def lower (c : Char) : Char := if c.toNat = 0x212a then 'k' else c.toLower

def lowerSuffix (text : List Char) : List Char :=
  let name := baseName text
  let extension := (name.reverse.takeWhile (· ≠ '.')).reverse
  if extension = [] ∨ name.length ≤ extension.length + 1 then [] else ('.' :: extension).map lower

def Archive.isApk (archive : Archive) : Bool := lowerSuffix archive.path == chars ".apk"

def Archive.directory (archive : Archive) : List Char :=
  if archive.isApk then chars "lib/arm64-v8a/" else chars "base/lib/arm64-v8a/"

/-- The symbol reader: what it prints for a library, or nothing when it fails. -/
abbrev SymbolReader := Bytes → Option (List Char)

def libraryPattern : Regex :=
  seq (one (· != '/')) (seq (many true (· != '/')) (lit (chars ".s") (one (· == 'o'))))

def entryPattern (isApk : Bool) : Regex :=
  if isApk then lit (chars "lib/arm64-v8a/") libraryPattern
  else seq (one (· != '/')) (seq (many true (· != '/'))
    (lit (chars "/lib/arm64-v8a/") libraryPattern))

def zipStored : ℕ := 0

def localSignature : Bytes := [0x50, 0x4b, 3, 4]

section Archives

variable {F : Type} (host : Host F)

def checkSymbols (reader : SymbolReader) (required : List (List Char)) (data : Bytes) :
    Except Failure Unit :=
  match verifySymbols (reader data) required with
  | .ok () => .ok ()
  | .error error => .error (.symbols error)

def checkSource (bundle : Directory) (expected : List (Name × Path)) (label : String) (name : Name)
    (data : Bytes) : Except Failure Unit :=
  match expected.lookup name with
  | none => .ok ()
  | some source => do
    let path := bundle.path ++ "/" ++ String.ofList source.text
    let sourceData ← bundle.read source
    let _ ← verifyElf sourceData path
    let identity ← binaryIdentity host.sha256 data
    let sourceIdentity ← binaryIdentity host.sha256 sourceData
    refuse (identity ≠ sourceIdentity) (label ++ ": native binary identity mismatch with " ++ path)

def checkAlignment (raw : Bytes) (label : String) (entry : ZipEntry) : Except Failure Unit := do
  let header := slice raw entry.headerOffset 30
  refuse (header.length ≠ 30 ∨ header.take 4 ≠ localSignature)
    (label ++ ": invalid ZIP local header")
  match ← unpackFrom [2, 2] header 26 with
  | [nameSize, extraSize] =>
    let dataOffset := entry.headerOffset + 30 + nameSize + extraSize
    refuse (dataOffset % pageSize ≠ 0)
      (label ++ ": ZIP alignment " ++ toString dataOffset ++ " is not 16 KiB")
  | _ => .error .value

def verifyEntry (archive : Archive) (bundle : Directory) (expected : List (Name × Path))
    (reader : SymbolReader) (required : List (List Char)) (entry : ZipEntry) :
    Except Failure Unit := do
  let path := String.ofList archive.path
  let filename := String.ofList entry.filename
  refuse (fullmatch host.word.word (entryPattern archive.isApk) entry.filename = false)
    (path ++ ": unexpected native library path/ABI: " ++ filename)
  let label := path ++ "!" ++ filename
  let data ← entry.data
  let _ ← verifyElf data label
  let name := baseName entry.filename
  checkSource host bundle expected label name data
  (if archive.isApk ∧ entry.compressType = zipStored then checkAlignment archive.raw label entry
    else .ok ())
  if name = mainLibrary then checkSymbols reader required data else .ok ()

def isLibrary (entry : ZipEntry) : Bool := (chars ".so").isSuffixOf entry.filename

def verifyArchive (archive : Archive) (bundle : Directory) (expected : List (Name × Path))
    (reader : SymbolReader) (required : List (List Char)) : Except Failure ℕ := do
  let path := String.ofList archive.path
  let infolist ← archive.infolist
  let entries := infolist.filter isLibrary
  refuse (entries = []) (path ++ ": No shared libraries in archive")
  let names := entries.map ZipEntry.filename
  refuse (¬ names.Nodup) (path ++ ": duplicate native ZIP entries")
  let missing := (expected.map fun library ↦ archive.directory ++ library.1).filter (· ∉ names)
  refuse (missing ≠ []) (path ++ ": missing bundled libraries: " ++
    String.ofList (List.intercalate (chars ", ") (missing.insertionSort (· ≤ ·))))
  entries.forM (verifyEntry host archive bundle expected reader required)
  .ok entries.length

def verifyLibrary (directory : Directory) (reader : SymbolReader) (required : List (List Char))
    (library : Path) : Except Failure Unit := do
  let data ← directory.read library
  let _ ← verifyElf data (directory.path ++ "/" ++ String.ofList library.text)
  if library.name = mainLibrary then checkSymbols reader required data else .ok ()

def verifyDirectory (directory : Directory) (reader : SymbolReader) (required : List (List Char)) :
    Except Failure ℕ := do
  let libraries ← bundleLibraries directory
  libraries.forM (verifyLibrary directory reader required)
  .ok libraries.length

inductive Artifact
  | directory (d : Directory)
  | file (archive : Archive)

/-- The arguments of the tool, with the files that they lead to; `reader` is
`args.nm or find_nm()`. -/
structure Arguments where
  root : Directory
  artifact : Artifact
  bundleDir : Directory
  bindings : List (Except Failure Bytes)
  bridgeSource : Option (List (Except Failure Bytes))
  reader : Except Failure SymbolReader
  requireProvenance : Bool
  writeProvenance : Option Build

def readTexts (files : List (Except Failure Bytes)) : Except Failure (List (List Char)) :=
  files.mapM fun file ↦ file >>= host.text

def requiredOf (args : Arguments) : Except Failure (List (List Char)) := do
  let root := args.root
  let bindings := if args.bindings.isEmpty then
      (sort (root.glob [chars "lib", chars "src", chars "bindings"] (chars ".dart"))).map root.read
    else args.bindings
  let bridges := args.bridgeSource.getD
    ((sort (root.glob [chars "native"] (chars ".cc")) ++
      sort (root.glob [chars "native"] (chars ".h"))).map root.read)
  let bindings ← readTexts host bindings
  let bridges ← readTexts host bridges
  match requiredSymbols host.word bindings bridges with
  | .ok required => .ok required
  | .error error => .error (.symbols error)

def Arguments.provenanceDirectory (args : Arguments) : Directory :=
  match args.artifact with
  | .directory d => d
  | .file _ => args.bundleDir

def verifyArtifact (args : Arguments) (reader : SymbolReader) (required : List (List Char)) :
    Except Failure ℕ :=
  match args.artifact with
  | .directory d => verifyDirectory d reader required
  | .file archive =>
    if lowerSuffix archive.path = chars ".apk" ∨ lowerSuffix archive.path = chars ".aab" then do
      let libraries ← bundleLibraries args.bundleDir
      let expected := libraries.map fun library ↦ (library.name, library)
      verifyArchive host archive args.bundleDir expected reader required
    else .error (.verification
      (String.ofList archive.path ++ ": expected a bundle directory, APK, or AAB"))

def recordProvenance (args : Arguments) : Except Failure (Option Directory) :=
  match args.writeProvenance with
  | none => .ok none
  | some build =>
    match args.artifact with
    | .directory d => do
      let written ← writeProvenance host args.root d build
      .ok (some written)
    | .file _ => .error (.verification
        "Provenance can only be recorded for a built native directory")

def runTool (args : Arguments) : Except Failure (Option Directory) := do
  let required ← requiredOf host args
  let reader ← args.reader
  (if args.requireProvenance then verifyProvenance host args.root args.provenanceDirectory
    else .ok ())
  let _ ← verifyArtifact host args reader required
  recordProvenance host args

def exitCode : Except Failure (Option Directory) → Except Failure ℕ
  | .ok _ => .ok 0
  | .error .other => .error .other
  | .error _ => .ok 1

def main (args : Arguments) : Except Failure ℕ := exitCode (runTool host args)

end Archives

section Entries

variable {F : Type} {host : Host F} {archive : Archive} {bundle : Directory}
  {expected : List (Name × Path)} {reader : SymbolReader} {required : List (List Char)}
  {entry : ZipEntry} {label : String} {data : Bytes}

def Aligned (raw : Bytes) (entry : ZipEntry) : Prop :=
  ∃ nameSize extraSize, (slice raw entry.headerOffset 30).take 4 = localSignature ∧
    unpackFrom [2, 2] (slice raw entry.headerOffset 30) 26 = .ok [nameSize, extraSize] ∧
    pageSize ∣ entry.headerOffset + 30 + nameSize + extraSize

theorem checkAlignment_ok {raw : Bytes} (h : checkAlignment raw label entry = .ok ()) :
    Aligned raw entry := by
  simp only [checkAlignment, bind_ok, refuse_ok, exists_and_left, exists_const] at h
  obtain ⟨hheader, sizes, hsizes, h⟩ := h
  split at h
  next nameSize extraSize =>
    rw [not_or, not_not, not_not] at hheader
    exact ⟨nameSize, extraSize, hheader.2, hsizes,
      Nat.dvd_of_mod_eq_zero (not_not.mp (refuse_ok.mp h))⟩
  next => cases h

def Exports (reader : SymbolReader) (required : List (List Char)) (data : Bytes) : Prop :=
  ∃ stdout, reader data = some stdout ∧ ∀ symbol ∈ required, symbol ∈ exportedSymbols stdout

theorem checkSymbols_ok (h : checkSymbols reader required data = .ok ()) :
    Exports reader required data := by
  unfold checkSymbols at h
  split at h
  next hsymbols => exact verifySymbols_ok hsymbols
  next => cases h

def Identical (host : Host F) (data source : Bytes) : Prop :=
  ∃ identity, binaryIdentity host.sha256 data = .ok identity ∧
    binaryIdentity host.sha256 source = .ok identity

theorem checkSource_ok {name : Name} {source : Path}
    (h : checkSource host bundle expected label name data = .ok ())
    (hsource : expected.lookup name = some source) :
    ∃ sourceData, bundle.read source = .ok sourceData ∧ Identical host data sourceData := by
  rw [checkSource, hsource] at h
  simp only [bind_ok, refuse_ok] at h
  obtain ⟨sourceData, hread, loads, -, identity, hidentity, identity', hidentity', hsame⟩ := h
  rw [← not_not.mp hsame] at hidentity'
  exact ⟨sourceData, hread, identity, hidentity, hidentity'⟩

structure Passes (host : Host F) (archive : Archive) (bundle : Directory)
    (expected : List (Name × Path)) (reader : SymbolReader) (required : List (List Char))
    (entry : ZipEntry) (data : Bytes) : Prop where
  matched : fullmatch host.word.word (entryPattern archive.isApk) entry.filename = true
  read : entry.data = .ok data
  elf : ∃ label loads, verifyElf data label = .ok loads
  source : ∀ source, expected.lookup (baseName entry.filename) = some source →
    ∃ sourceData, bundle.read source = .ok sourceData ∧ Identical host data sourceData
  aligned : archive.isApk = true → entry.compressType = zipStored → Aligned archive.raw entry
  symbols : baseName entry.filename = mainLibrary → Exports reader required data

theorem verifyEntry_ok
    (h : verifyEntry host archive bundle expected reader required entry = .ok ()) :
    ∃ data, Passes host archive bundle expected reader required entry data := by
  simp only [verifyEntry, bind_ok, refuse_ok, exists_and_left, exists_const, Bool.not_eq_false] at h
  obtain ⟨hmatched, data, hdata, loads, helf, _, hsource, _, haligned, hsymbols⟩ := h
  refine ⟨data, hmatched, hdata, ⟨_, loads, helf⟩, fun source ↦ checkSource_ok hsource, ?_, ?_⟩
  · intro hapk hstored
    rw [if_pos ⟨hapk, hstored⟩] at haligned
    exact checkAlignment_ok haligned
  · intro hmain
    rw [if_pos hmain] at hsymbols
    exact checkSymbols_ok hsymbols

theorem forM_ok {α : Type} {f : α → Except Failure Unit} {as : List α} (h : as.forM f = .ok ()) :
    ∀ a ∈ as, f a = .ok () := by
  induction as with
  | nil => simp
  | cons a as ih =>
    have hcons : (f a >>= fun _ ↦ as.forM f) = .ok () := h
    obtain ⟨⟨⟩, ha, has⟩ := bind_ok.mp hcons
    exact List.forall_mem_cons.mpr ⟨ha, ih has⟩

/-- A path that one of the patterns matches is one of a library for the processor. -/
theorem exists_folder {isApk : Bool} {filename : List Char}
    (h : fullmatch host.word.word (entryPattern isApk) filename = true) :
    ∃ folder base, filename = folder ++ (chars "lib/arm64-v8a/" ++ base) ∧ '/' ∉ base ∧
      (isApk = true → folder = []) := by
  have hlibrary {e d : Spot} (he : e ∈ ends host.word.word libraryPattern d)
      (hempty : e.rest = []) : '/' ∉ d.rest := by
    obtain ⟨u, d₁, hrest, hu, he⟩ := mem_ends_some he
    obtain ⟨d₂, hd₁, he⟩ := mem_ends_lit he
    obtain ⟨c, rest, hd₂, hc, rfl⟩ := mem_ends_one.mp he
    obtain rfl : rest = [] := hempty
    obtain rfl : c = 'o' := by simpa using hc
    rw [hrest, hd₁, hd₂]
    intro hslash
    rcases List.mem_append.mp hslash with hslash | hslash
    · simpa using hu '/' hslash
    · revert hslash
      decide
  obtain ⟨e, he, hempty⟩ := List.any_eq_true.mp h
  rw [List.isEmpty_iff] at hempty
  cases isApk with
  | true =>
    obtain ⟨d, hfilename, he⟩ := mem_ends_lit he
    exact ⟨[], d.rest, hfilename, hlibrary he hempty, fun _ ↦ rfl⟩
  | false =>
    obtain ⟨u, d₁, hfilename, -, he⟩ := mem_ends_some he
    obtain ⟨d₂, hd₁, he⟩ := mem_ends_lit he
    refine ⟨u ++ ['/'], d₂.rest, ?_, hlibrary he hempty, fun h ↦ by cases h⟩
    rw [List.append_assoc]
    exact hfilename.trans (congrArg (u ++ ·) hd₁)

end Entries

section Gate

variable {F : Type} {host : Host F} {args : Arguments} {archive : Archive} {bundle : Directory}
  {expected : List (Name × Path)} {reader : SymbolReader} {required : List (List Char)} {count : ℕ}

theorem filter_eq_singleton {entries : List ZipEntry} {filename : List Char}
    (h : (entries.map ZipEntry.filename).Nodup)
    (hmem : filename ∈ entries.map ZipEntry.filename) :
    ∃ entry, entry.filename = filename ∧ entries.filter (·.filename == filename) = [entry] := by
  induction entries with
  | nil => cases hmem
  | cons entry entries ih =>
    rw [List.map_cons, List.nodup_cons] at h
    rcases List.mem_cons.mp hmem with rfl | hmem
    · refine ⟨entry, rfl, ?_⟩
      have hrest : entries.filter (·.filename == entry.filename) = [] := by
        refine List.filter_eq_nil_iff.mpr fun e he heq ↦ h.1 ?_
        rw [← eq_of_beq heq]
        exact List.mem_map_of_mem he
      rw [List.filter_cons_of_pos (by simp), hrest]
    · have hne : (entry.filename == filename) = false := by
        refine beq_eq_false_iff_ne.mpr ?_
        rintro rfl
        exact h.1 hmem
      rw [List.filter_cons_of_neg (by simp [hne])]
      exact ih h.2 hmem

theorem verifyArchive_ok
    (h : verifyArchive host archive bundle expected reader required = .ok count) :
    ∃ infolist, archive.infolist = .ok infolist ∧
      ((infolist.filter isLibrary).map ZipEntry.filename).Nodup ∧
      (∀ library ∈ expected, archive.directory ++ library.1 ∈
        (infolist.filter isLibrary).map ZipEntry.filename) ∧
      ∀ entry ∈ infolist.filter isLibrary,
        ∃ data, Passes host archive bundle expected reader required entry data := by
  simp only [verifyArchive, bind_ok, refuse_ok, exists_and_left, exists_const, not_not] at h
  obtain ⟨infolist, hinfolist, -, hnodup, hmissing, _, hloop, -⟩ := h
  refine ⟨infolist, hinfolist, hnodup, fun library hlibrary ↦ ?_, fun entry hentry ↦ ?_⟩
  · have hnone := List.filter_eq_nil_iff.mp hmissing _ (List.mem_map_of_mem hlibrary)
    exact not_not.mp
      (by simpa only [decide_not, Bool.not_eq_true', decide_eq_false_iff_not] using hnone)
  · exact verifyEntry_ok (forM_ok hloop entry hentry)

theorem baseName_append (folder : List Char) {name : Name} (h : '/' ∉ name) :
    baseName (folder ++ '/' :: name) = name := by
  have hname : ∀ c ∈ name.reverse, (decide (c ≠ '/')) = true := by
    intro c hc
    refine decide_eq_true ?_
    rintro rfl
    exact h (List.mem_reverse.mp hc)
  rw [baseName, List.reverse_append, List.reverse_cons, List.append_assoc,
    List.takeWhile_append_of_pos hname]
  simp

theorem baseName_directory {name : Name} (h : '/' ∉ name) :
    baseName (archive.directory ++ name) = name := by
  unfold Archive.directory
  split_ifs
  · exact baseName_append (chars "lib/arm64-v8a") h
  · exact baseName_append (chars "base/lib/arm64-v8a") h

structure Gate (host : Host F) (args : Arguments) (archive : Archive)
    (required : List (List Char)) (reader : SymbolReader) (libraries : List Path) : Prop where
  symbols : requiredOf host args = .ok required
  tool : args.reader = .ok reader
  provenance : args.requireProvenance = true →
    verifyProvenance host args.root args.bundleDir = .ok ()
  bundled : bundleLibraries args.bundleDir = .ok libraries
  verified : ∃ count, verifyArchive host archive args.bundleDir
    (libraries.map fun library ↦ (library.name, library)) reader required = .ok count

theorem main_zero (h : main host args = .ok 0) (hfile : args.artifact = .file archive) :
    ∃ required reader libraries, Gate host args archive required reader libraries := by
  have hrun : ∃ bundle, runTool host args = .ok bundle := by
    unfold main exitCode at h
    split at h
    next bundle hrun => exact ⟨bundle, hrun⟩
    next => cases h
    next => cases h
  obtain ⟨bundle, hrun⟩ := hrun
  simp only [runTool, bind_ok] at hrun
  obtain ⟨required, hrequired, reader, hreader, _, hprovenance, count, hartifact, -⟩ := hrun
  rw [verifyArtifact, hfile] at hartifact
  dsimp only at hartifact
  split_ifs at hartifact
  · simp only [bind_ok] at hartifact
    obtain ⟨libraries, hlibraries, hverified⟩ := hartifact
    refine ⟨required, reader, libraries, hrequired, hreader, fun hrequire ↦ ?_, hlibraries, count,
      hverified⟩
    rw [if_pos hrequire, Arguments.provenanceDirectory, hfile] at hprovenance
    exact hprovenance

theorem main_eq_zero (hrequired : requiredOf host args = .ok required)
    (hreader : args.reader = .ok reader)
    (hprovenance : verifyProvenance host args.root args.provenanceDirectory = .ok ())
    (hartifact : verifyArtifact host args reader required = .ok count)
    (hwrite : args.writeProvenance = none) : main host args = .ok 0 := by
  have hrun : runTool host args = .ok none := by
    simp only [runTool, bind_ok]
    refine ⟨required, hrequired, reader, hreader, (), ?_, count, hartifact, ?_⟩
    · split_ifs
      · exact hprovenance
      · rfl
    · rw [recordProvenance, hwrite]
  exact congrArg exitCode hrun

def Records (host : Host F) (bundle : Directory)
    (recorded : List (List CodePoint × Value F)) : Prop :=
  ∃ data text fields, bundle.read manifestPath = .ok data ∧ host.text data = .ok text ∧
    host.load text = .ok (.obj fields) ∧
      JsonText.get fields (str (chars "libraries")) = .obj recorded

/-- An entry is a release library of the bundle, up to what a strip removes. -/
def Ships (host : Host F) (bundle : Directory) (recorded : List (List CodePoint × Value F))
    (required : List (List Char)) (reader : SymbolReader) (name : Name) (entry : ZipEntry) : Prop :=
  ∃ data path source, entry.data = .ok data ∧ (∃ label loads, verifyElf data label = .ok loads) ∧
    path ∈ bundle.rglob (chars ".so") ∧ path.name = name ∧ bundle.read path = .ok source ∧
    recorded.lookup (str name) = some (jsonString (host.sha256 source)) ∧
    Identical host data source ∧ (name = mainLibrary → Exports reader required data)

def Placed (archive : Archive) (entry : ZipEntry) : Prop :=
  ∃ data folder base, entry.data = .ok data ∧ (∃ label loads, verifyElf data label = .ok loads) ∧
    entry.filename = folder ++ (chars "lib/arm64-v8a/" ++ base) ∧ '/' ∉ base ∧
    (archive.isApk = true → folder = []) ∧
    (archive.isApk = true → entry.compressType = zipStored → Aligned archive.raw entry)

theorem Passes.placed {entry : ZipEntry} {data : Bytes}
    (h : Passes host archive bundle expected reader required entry data) :
      Placed archive entry := by
  obtain ⟨folder, base, hfilename, hbase, hfolder⟩ := exists_folder h.matched
  exact ⟨data, folder, base, h.read, h.elf, hfilename, hbase, hfolder, h.aligned⟩

theorem releaseLibraries_plain : ∀ name ∈ releaseLibraries, '/' ∉ name ∧ chars ".so" <:+ name := by
  decide +kernel

theorem Gate.ships {libraries : List Path} (h : Gate host args archive required reader libraries)
    (hprovenance : args.requireProvenance = true) :
    ∃ recorded, Records host args.bundleDir recorded ∧ ∀ name ∈ releaseLibraries,
      ∃ path ∈ args.bundleDir.rglob (chars ".so"), path.name = name ∧
        (libraries.map fun library ↦ (library.name, library)).lookup name = some path ∧
        ∃ source, args.bundleDir.read path = .ok source ∧
          recorded.lookup (str name) = some (jsonString (host.sha256 source)) := by
  obtain ⟨-, data, text, fields, hdata, htext, hload, hcheck⟩ :=
    verifyProvenance_ok_iff.mp (h.provenance hprovenance)
  obtain ⟨commit, actual, contracts, overrides, targets, haccepts⟩ :=
    checkManifest_ok_iff.mp hcheck
  obtain ⟨libraries', hbundled, hhashes⟩ := libraryHashes_ok haccepts.hashed
  obtain rfl : libraries = libraries' := Except.ok.inj (h.bundled.symm.trans hbundled)
  obtain ⟨hlibraries, hnodup⟩ := bundleLibraries_ok hbundled
  have hagrees := haccepts.agrees
  simp only [expectedFields, List.forall_mem_cons, differs, Bool.not_eq_false] at hagrees
  obtain ⟨recorded, hrecorded, hlookup⟩ := same_strings hagrees.2.2.2.1
  refine ⟨recorded, ⟨data, text, fields, hdata, htext, hload, hrecorded⟩, fun name hname ↦ ?_⟩
  obtain ⟨path, hpath, rfl⟩ := exists_of_mem_hashes hhashes (haccepts.complete name hname)
  obtain ⟨source, hread, hhash⟩ := lookup_hashes hhashes hnodup hpath
  have hexpected : ((libraries.map fun library ↦ (library.name, library)).map Prod.fst).Nodup := by
    rw [List.map_map]
    exact hnodup
  refine ⟨path, ?_, rfl, lookup_of_nodup (f := (path.name, path)) hexpected ?_, source, hread, ?_⟩
  · rw [hlibraries, mem_sort] at hpath
    exact hpath
  · exact List.mem_map_of_mem hpath
  · rw [hlookup, lookup_str, hhash]
    rfl

/-- When `main` returns zero for an archive and provenance is required, every release
library is in it exactly once, with the identity of the recorded file of the bundle,
and every library of the archive is in its place. -/
theorem main_zero_ships (hzero : main host args = .ok 0)
    (hprovenance : args.requireProvenance = true)
    (hfile : args.artifact = .file archive) :
    ∃ infolist required reader recorded, archive.infolist = .ok infolist ∧
      requiredOf host args = .ok required ∧ args.reader = .ok reader ∧
      Records host args.bundleDir recorded ∧
      (∀ name ∈ releaseLibraries, ∃ entry,
        infolist.filter (·.filename == archive.directory ++ name) = [entry] ∧
        Ships host args.bundleDir recorded required reader name entry) ∧
      ∀ entry ∈ infolist, isLibrary entry = true → Placed archive entry := by
  obtain ⟨required, reader, libraries, hgate⟩ := main_zero hzero hfile
  obtain ⟨recorded, hrecorded, hships⟩ := hgate.ships hprovenance
  obtain ⟨count, hverified⟩ := hgate.verified
  obtain ⟨infolist, hinfolist, hnodup, hexpected, hpasses⟩ := verifyArchive_ok hverified
  refine ⟨infolist, required, reader, recorded, hinfolist, hgate.symbols, hgate.tool, hrecorded,
    fun name hname ↦ ?_, fun entry hentry hlibrary ↦ ?_⟩
  · obtain ⟨path, hpath, hpathName, hlookup, source, hread, hhash⟩ := hships name hname
    obtain ⟨hplain, hsuffix⟩ := releaseLibraries_plain name hname
    have hmem : archive.directory ++ name ∈ (infolist.filter isLibrary).map ZipEntry.filename := by
      obtain ⟨before, behind, heq, -⟩ := List.lookup_eq_some_iff.mp hlookup
      exact hexpected (name, path) (by simp [heq])
    obtain ⟨entry, hfilename, hfilter⟩ := filter_eq_singleton hnodup hmem
    have hentry : entry ∈ infolist.filter isLibrary := by
      have hself : entry ∈ [entry] := List.mem_singleton_self entry
      rw [← hfilter] at hself
      exact (List.mem_filter.mp hself).1
    obtain ⟨data, hpass⟩ := hpasses entry hentry
    have hbase : baseName entry.filename = name := by
      rw [hfilename]
      exact baseName_directory hplain
    obtain ⟨source', hread', hidentical⟩ := hpass.source path (by rw [hbase]; exact hlookup)
    rw [hread] at hread'
    obtain rfl := Except.ok.inj hread'
    refine ⟨entry, ?_, data, path, source, hpass.read, hpass.elf, hpath, hpathName, hread, hhash,
      hidentical, fun hmain ↦ hpass.symbols (hbase.trans hmain)⟩
    rw [← hfilter, List.filter_filter]
    refine List.filter_congr fun e _ ↦ ?_
    cases he : e.filename == archive.directory ++ name with
    | false => rfl
    | true =>
      have hlibrary : isLibrary e = true := by
        rw [isLibrary, eq_of_beq he]
        exact List.isSuffixOf_iff_suffix.mpr (hsuffix.trans (List.suffix_append _ _))
      rw [hlibrary]
      rfl
  · obtain ⟨data, hpass⟩ := hpasses entry (List.mem_filter.mpr ⟨hentry, hlibrary⟩)
    exact hpass.placed

end Gate

namespace Scenario

theorem exists_of_isOk {α : Type} {x : Except Failure α} (h : x.isOk = true) : ∃ a, x = .ok a := by
  cases x with
  | error e => cases h
  | ok a => exact ⟨a, rfl⟩

def orBundled : Except Failure Directory → Directory
  | .ok bundle => bundle
  | .error _ => bundled

@[irreducible] def recordedBundle : Directory :=
    orBundled (writeProvenance host repository bundled built)

theorem recordedBundle_verified : verifyProvenance host repository recordedBundle = .ok () := by
  obtain ⟨bundle, hwrite, hverify⟩ := built_accepted
  have heq : recordedBundle = bundle := by
    unfold recordedBundle
    exact congrArg orBundled hwrite
  rw [heq]
  exact hverify

def localHeader (filename : List Char) : Bytes :=
  let extra := 16384 - 30 - filename.length
  localSignature ++ List.replicate 22 0 ++ [byte (filename.length % 256),
    byte (filename.length / 256),
    byte (extra % 256), byte (extra / 256)] ++ ascii filename ++ List.replicate extra 0

def app : Archive where
  path := chars "/app.apk"
  infolist := .ok (releaseLibraries.map fun name ↦
    ⟨chars "lib/arm64-v8a/" ++ name, if name = mainLibrary then zipStored else 8, 0, .ok image⟩)
  raw := localHeader (chars "lib/arm64-v8a/" ++ mainLibrary) ++ image

def arguments : Arguments where
  root := repository
  artifact := .file app
  bundleDir := recordedBundle
  bindings := [.ok (ascii (chars "_lookup<T>('litert_lm_x')"))]
  bridgeSource := some []
  reader := .ok fun _ ↦ some (chars "0000000000001000 T litert_lm_x")
  requireProvenance := true
  writeProvenance := none

theorem arguments_zero : main host arguments = .ok 0 := by
  have hok : (requiredOf host arguments >>= verifyArtifact host arguments
      fun _ ↦ some (chars "0000000000001000 T litert_lm_x")).isOk = true := by decide +kernel
  obtain ⟨count, hcount⟩ := exists_of_isOk hok
  obtain ⟨required, hrequired, hartifact⟩ := bind_ok.mp hcount
  exact main_eq_zero hrequired rfl recordedBundle_verified hartifact rfl

/-- The gate on that application: its main library exports what the bindings look up. -/
theorem app_ships : ∃ infolist required reader recorded, app.infolist = .ok infolist ∧
    requiredOf host arguments = .ok required ∧ arguments.reader = .ok reader ∧
    Records host arguments.bundleDir recorded ∧
    (∀ name ∈ releaseLibraries, ∃ entry,
      infolist.filter (·.filename == app.directory ++ name) = [entry] ∧
      Ships host arguments.bundleDir recorded required reader name entry) ∧
    ∀ entry ∈ infolist, isLibrary entry = true → Placed app entry :=
  main_zero_ships arguments_zero rfl rfl

end Scenario

end LibLitertLm.Tool
