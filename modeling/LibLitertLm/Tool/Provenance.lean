import LibLitertLm.Library.JsonEqual
import LibLitertLm.Library.Splice
import LibLitertLm.Tool.Elf
import LibLitertLm.Tool.Reports
import LibLitertLm.Tool.SymbolContract
import Mathlib.Data.Char
import Mathlib.Data.List.Lex
import Mathlib.Data.List.Sort

namespace LibLitertLm.Tool

open JsonText Regex Splice

abbrev Name := List Char

abbrev Path := List Name

def Path.name (path : Path) : Name := path.getLast?.getD []

def Path.text (path : Path) : List Char := List.intercalate ['/'] path

structure Directory where
  path : String
  entries : List (Path × Option Bytes)
  distinct : (entries.map Prod.fst).Nodup

namespace Directory

variable (d : Directory)

def read (path : Path) : Except Failure Bytes :=
  match d.entries.lookup path with
  | some (some data) => .ok data
  | _ => .error .os

def isFile (path : Path) : Bool := (d.entries.lookup path).join.isSome

def glob (directory : Path) (suffix : Name) : List Path :=
  (d.entries.map Prod.fst).filter fun path ↦
    path.dropLast == directory && path.getLast?.any (suffix.isSuffixOf ·)

def rglob (suffix : Name) : List Path :=
  (d.entries.map Prod.fst).filter fun path ↦ path.getLast?.any (suffix.isSuffixOf ·)

def put (path : Path) (data : Bytes) : List (Path × Option Bytes) :=
  if path ∈ d.entries.map Prod.fst then
    d.entries.map fun entry ↦ if entry.1 = path then (path, some data) else entry
  else d.entries ++ [(path, some data)]

theorem map_put (path : Path) (data : Bytes) : (d.put path data).map Prod.fst =
    if path ∈ d.entries.map Prod.fst then d.entries.map Prod.fst
    else d.entries.map Prod.fst ++ [path] := by
  unfold put
  split_ifs
  · rw [List.map_map]
    refine List.map_congr_left fun entry _ ↦ ?_
    rw [Function.comp_apply]
    split_ifs with hentry
    · exact hentry.symm
    · rfl
  · simp

theorem distinct_put (path : Path) (data : Bytes) : ((d.put path data).map Prod.fst).Nodup := by
  rw [map_put]
  split_ifs with hpath
  · exact d.distinct
  · exact List.nodup_append.mpr ⟨d.distinct, List.nodup_singleton path, by
      rintro a ha b hb rfl
      exact hpath (List.mem_singleton.mp hb ▸ ha)⟩

def write (path : Path) (data : Bytes) : Except Failure Directory :=
  match d.entries.lookup path with
  | some none => .error .os
  | _ => .ok ⟨d.path, d.put path data, d.distinct_put path data⟩

end Directory

/-- What the tool uses of its host. -/
structure Host (F : Type) where
  word : WordClass
  sha256 : Bytes → List Char
  text : Bytes → Except Failure (List Char)
  load : List Char → Except Failure (Value F)
  dump : Value F → Bytes
  floatEq : F → F ⊕ ℤ → Bool

def sort (paths : List Path) : List Path := paths.insertionSort (· ≤ ·)

def strip (text : List Char) : List Char := (text.dropWhile isSpace).rdropWhile isSpace

def mainLibrary : Name := chars "liblitert_lm_c.so"
def runtimeTag : List Char := chars "v0.18.1"
def bazelVersion : List Char := chars "7.6.1"
def ndkVersion : List Char := chars "28.2.13676358"

def buildFlags : List (List Char) :=
  [chars "--config=android_arm64", chars "--config=public_cache",
    chars "--define=litert_link_capi_so=false", chars "--define=resolve_symbols_in_exec=false"]

def upstreamDependencies : List (List Char × List Char) :=
  [(chars "litert", chars "ca21dc99de51c76bdcc572afeea1dd937d3c9e5c"),
    (chars "tensorflow", chars "a1179d3c224967bd979950b823d5ce2a7e8f4c94")]

def releaseLibraries : List Name :=
  [mainLibrary, chars "libGemmaModelConstraintProvider.so",
    chars "libLiteRtDispatch_GoogleTensor.so", chars "libLiteRtDispatch_MediaTek.so",
    chars "libLiteRtDispatch_Qualcomm.so", chars "libLiteRtGpuAccelerator.so",
    chars "libLiteRtOpenClAccelerator.so", chars "libLiteRtTopKOpenClSampler.so",
    chars "libLiteRtTopKWebGpuSampler.so", chars "libLiteRtWebGpuAccelerator.so",
    chars "libwebgpu_dawn.so"]

def npuTargets : List (List Char) :=
  [chars "google_tensor", chars "qualcomm", chars "mediatek"].map fun vendor ↦
    chars "@litert//litert/vendors/" ++ vendor ++ chars "/dispatch:dispatch_api_so"

def mainTarget : List Char := chars "//c:" ++ mainLibrary

def scriptPath : Path := [chars "tool", chars "build_litert_lm_android.sh"]

def contractDirectory : Path := [chars "third_party", chars "litert_lm", chars "c"]

def manifestPath : Path := [chars "native-build.json"]

section Hashes

variable {F : Type} (host : Host F)

def fileHash (d : Directory) (path : Path) : Except Failure (List Char) := do
  let data ← d.read path
  .ok (host.sha256 data)

/-- The hashes of some files, under a name for each: the last of a name counts. -/
def hashes (d : Directory) (name : Path → List Char) :
    List Path → Except Failure (List (List Char × List Char))
  | [] => .ok []
  | path :: paths => do
    let hash ← fileHash host d path
    let rest ← hashes d name paths
    .ok (if name path ∈ rest.map Prod.fst then rest else (name path, hash) :: rest)

def contractFiles (root : Directory) : Except Failure (List (List Char × List Char)) :=
  let files := [scriptPath, [chars "ffigen.yaml"]] ++ root.glob [chars "native"] (chars ".cc") ++
    root.glob [chars "native"] (chars ".h") ++
    root.glob [chars "lib", chars "src", chars "bindings"] (chars ".dart") ++
    root.glob contractDirectory (chars ".h")
  hashes host root Path.text (sort files)

def readText (d : Directory) (path : Path) : Except Failure (List Char) := do
  let data ← d.read path
  host.text data

def isHexDigit (c : Char) : Bool := c.isDigit || ('a' ≤ c && c ≤ 'f')

def commitPattern : Regex := lit (chars "LITERT_LM_COMMIT:-") (.group (times isHexDigit 40))

def pinnedCommit (root : Directory) : Except Failure (List Char) := do
  let source ← readText host root scriptPath
  match (findall host.word.word commitPattern 0 [] source).head? with
  | some commit => .ok commit
  | none => .error (.verification "Cannot determine pinned LiteRT-LM commit")

def versionPattern (name : List Char) : Regex :=
  lit (name ++ chars "_VERSION=\"")
    (seq (.group (seq (one (· != '"')) (many true (· != '"')))) (one (· == '"')))

def checksumPattern (name : List Char) : Regex :=
  lit (name ++ chars "_SHA256=\"") (seq (.group (times isHexDigit 64)) (one (· == '"')))

def dependencyOverride (source name : List Char) : Except Failure (List Char × List Char) :=
  let upper := name.map Char.toUpper
  match (findall host.word.word (versionPattern upper) 0 [] source).head?,
    (findall host.word.word (checksumPattern upper) 0 [] source).head? with
  | some version, some checksum => .ok (version, checksum)
  | _, _ => .error (.verification
      ("Cannot determine pinned " ++ String.ofList name ++ " build override"))

def dependencyOverrides (root : Directory) :
    Except Failure ((List Char × List Char) × List Char × List Char) := do
  let source ← readText host root scriptPath
  let rulesCc ← dependencyOverride host source (chars "rules_cc")
  let bazelSkylib ← dependencyOverride host source (chars "bazel_skylib")
  .ok (rulesCc, bazelSkylib)

def bundleLibraries (bundle : Directory) : Except Failure (List Path) := do
  let libraries := sort (bundle.rglob (chars ".so"))
  refuse (libraries = []) ("No shared libraries found in " ++ bundle.path)
  let names := libraries.map Path.name
  refuse (¬ names.Nodup) (bundle.path ++ ": duplicate native library names")
  refuse (mainLibrary ∉ names) (bundle.path ++ ": missing " ++ String.ofList mainLibrary)
  .ok libraries

def libraryHashes (bundle : Directory) : Except Failure (List (List Char × List Char)) := do
  let libraries ← bundleLibraries bundle
  hashes host bundle Path.name libraries

end Hashes

section Manifest

variable {F : Type} (host : Host F)

def str (text : List Char) : List CodePoint := text.map ofChar

def jsonString (text : List Char) : Value F := .str (str text)

def jsonStrings (texts : List (List Char)) : Value F := .arr ((texts.map str).map .str)

def jsonMap (m : List (List Char × List Char)) : Value F :=
  strings (m.map fun entry ↦ (str entry.1, str entry.2))

def pinJson (pin : List Char × List Char) : Value F :=
  jsonMap [(chars "version", pin.1), (chars "sha256", pin.2)]

def overridesJson (overrides : (List Char × List Char) × List Char × List Char) : Value F :=
  .obj [(str (chars "rules_cc"), pinJson overrides.1),
    (str (chars "bazel_skylib"), pinJson overrides.2)]

def dependenciesJson (dependencies : List (List Char × Option (List Char))) : Value F :=
  .obj (dependencies.map fun dependency ↦
    (str dependency.1, (dependency.2.map jsonString).getD .null))

def toolchainJson (ndk : List Char) : Value F :=
  jsonMap [(chars "bazel", bazelVersion), (chars "ndk", ndk)]

structure Build where
  source : Directory
  head : Except Failure (List Char)
  accelerators : List Char
  ndkHome : Option Directory
  bazel : Option (Except Failure (List Char))
  buildFlags : List (List Char)
  buildTargets : List (List Char)

def revisionPattern : Regex :=
  lit (chars "Pkg") (seq (one (· != '\n')) (lit (chars "Revision") (spaces (seq (one (· == '='))
    (spaces (seq (.group (seq (one (!isSpace ·)) (many true (!isSpace ·))))
      (many true isSpace)))))))

/-- `^([A-Z_]+)_REF\s*=\s*"([0-9a-f]{40})"`, of which a match has two groups. -/
def refPattern (first second : Regex → Regex) : Regex :=
  let isUpper (c : Char) : Bool := ('A' ≤ c && c ≤ 'Z') || c == '_'
  seq (first (seq (one isUpper) (many true isUpper)))
    (lit (chars "_REF") (spaces (seq (one (· == '='))
    (spaces (seq (one (· == '"')) (seq (second (times isHexDigit 40)) (one (· == '"'))))))))

def workspaceRefs (workspace : List Char) : List (List Char × List Char) :=
  (findallLines host.word.word (refPattern .group id) false 0 [] workspace).zip
    (findallLines host.word.word (refPattern id .group) false 0 [] workspace)

def dependencies (workspace : List Char) : List (List Char × Option (List Char)) :=
  upstreamDependencies.map fun dependency ↦
    (dependency.1, (workspaceRefs host workspace).reverse.lookup (dependency.1.map Char.toUpper))

def checkBuilt (root source : Directory) (contract : Path) : Except Failure Unit := do
  let message := root.path ++ "/" ++ String.ofList contract.text ++
    ": built source differs from current ABI contract; rebuild"
  let built : Path := [chars "c", contract.name]
  refuse (source.isFile built = false) message
  let hash ← fileHash host source built
  let current ← fileHash host root contract
  refuse (hash ≠ current) message

def split (separator : Char) (text : List Char) : List (List Char) := text.splitOn separator

def manifest (commit ndk : List Char) (build : Build)
    (dependencies : List (List Char × Option (List Char)))
    (overrides : (List Char × List Char) × List Char × List Char) (workspaceHash : List Char)
    (libraries contracts : List (List Char × List Char)) : List (List CodePoint × Value F) :=
  [(str (chars "schema_version"), .int 1),
    (str (chars "litert_lm_commit"), jsonString commit),
    (str (chars "litert_lm_tag"), jsonString runtimeTag),
    (str (chars "bridge_abi"), .int 1),
    (str (chars "toolchain"), toolchainJson ndk),
    (str (chars "upstream_dependencies"), dependenciesJson dependencies),
    (str (chars "build_flags"), jsonStrings build.buildFlags),
    (str (chars "build_targets"), jsonStrings build.buildTargets),
    (str (chars "abi"), jsonString (chars "arm64-v8a")),
    (str (chars "accelerators"), jsonStrings (split ',' build.accelerators)),
    (str (chars "dependency_overrides"), overridesJson overrides),
    (str (chars "patched_workspace_sha256"), jsonString workspaceHash),
    (str (chars "libraries"), jsonMap libraries),
    (str (chars "contract_files"), jsonMap contracts)]

def writeProvenance (root bundle : Directory) (build : Build) : Except Failure Directory := do
  let head ← build.head
  let commit := strip head
  let pinned ← pinnedCommit host root
  refuse (commit ≠ pinned)
    ("Native source commit " ++ String.ofList commit ++ " differs from pinned commit")
  let paths := root.glob [chars "native"] (chars ".cc") ++
    root.glob [chars "native"] (chars ".h") ++ root.glob contractDirectory (chars ".h")
  let _ ← paths.mapM (checkBuilt host root build.source)
  match build.ndkHome, build.bazel with
  | some ndkHome, some bazel =>
    refuse (build.buildFlags = [] ∨ build.buildTargets = [])
      "Writing provenance requires actual NDK/Bazel, build flags and targets"
    let properties ← readText host ndkHome [chars "source.properties"]
    let revision := (findallLines host.word.word revisionPattern true 0 [] properties).head?
    let ndk := revision.getD (chars "unavailable")
    let stdout ← bazel
    refuse (revision ≠ some ndkVersion ∨ strip stdout ≠ chars "bazel " ++ bazelVersion)
      ("Actual NDK/Bazel version differs from the pinned toolchain: NDK=" ++
        String.ofList ndk ++ ", Bazel='" ++
        String.ofList (strip stdout) ++ "'; expected NDK=" ++ String.ofList ndkVersion ++
        ", Bazel=" ++ String.ofList bazelVersion)
    let workspace ← readText host build.source [chars "WORKSPACE"]
    refuse (dependencies host workspace ≠
          upstreamDependencies.map (fun dependency ↦ (dependency.1, some dependency.2)) ∨
        build.buildFlags ≠ buildFlags)
      "Actual dependency revisions/build flags differ from the pinned build"
    let overrides ← dependencyOverrides host root
    let workspaceHash ← fileHash host build.source [chars "WORKSPACE"]
    let libraries ← libraryHashes host bundle
    let contracts ← contractFiles host root
    bundle.write manifestPath (host.dump (.obj (manifest commit ndk build
      (dependencies host workspace) overrides workspaceHash libraries contracts)))
  | _, _ => .error (.verification
      "Writing provenance requires actual NDK/Bazel, build flags and targets")

def differs (fields : List (List CodePoint × Value F)) (key : List Char) (expected : Value F) :
    Prop := same host.floatEq (get fields (str key)) expected = false

instance (fields : List (List CodePoint × Value F)) (key : List Char) (expected : Value F) :
    Decidable (differs host fields key expected) := by
  unfold differs
  infer_instance

def checkManifest (root bundle : Directory) (path : String)
    (fields : List (List CodePoint × Value F)) : Except Failure Unit := do
  refuse (differs host fields (chars "schema_version") (.int 1))
    (path ++ ": invalid native build provenance schema")
  let commit ← pinnedCommit host root
  refuse (differs host fields (chars "litert_lm_commit") (jsonString commit))
    (path ++ ": native source commit does not match pinned commit")
  refuse (differs host fields (chars "abi") (jsonString (chars "arm64-v8a")))
    (path ++ ": provenance ABI must be arm64-v8a")
  let actual ← libraryHashes host bundle
  refuse (differs host fields (chars "libraries") (jsonMap actual))
    (path ++ ": native library inventory/hash mismatch; rebuild the bundle")
  let contracts ← contractFiles host root
  refuse (differs host fields (chars "contract_files") (jsonMap contracts))
    (path ++ ": native ABI contract hash mismatch; rebuild the bundle")
  refuse (differs host fields (chars "litert_lm_tag") (jsonString runtimeTag) ∨
      differs host fields (chars "bridge_abi") (.int 1))
    (path ++ ": runtime tag/bridge ABI mismatch")
  refuse (differs host fields (chars "toolchain") (toolchainJson ndkVersion))
    (path ++ ": missing or incompatible toolchain provenance")
  refuse (differs host fields (chars "upstream_dependencies") (jsonMap upstreamDependencies))
    (path ++ ": upstream dependency revision mismatch")
  refuse (differs host fields (chars "build_flags") (jsonStrings buildFlags))
    (path ++ ": native build flags mismatch")
  match (fields.lookup (str (chars "build_targets"))).getD (.arr []) with
  | .arr targets =>
    let lists (target : List Char) : Bool :=
      targets.any fun v ↦ same host.floatEq v (jsonString target)
    refuse (lists mainTarget = false) (path ++ ": missing native build targets")
    refuse (differs host fields (chars "accelerators") (jsonStrings [chars "vulkan", chars "npu"]))
      (path ++ ": release accelerators must be vulkan,npu")
    refuse (npuTargets.all lists = false) (path ++ ": missing release NPU build targets")
    let missing := releaseLibraries.filter fun name ↦ name ∉ actual.map Prod.fst
    refuse (missing ≠ []) (path ++ ": incomplete release inventory: " ++
      String.ofList (List.intercalate (chars ", ") (missing.insertionSort (· ≤ ·))))
    let overrides ← dependencyOverrides host root
    refuse (differs host fields (chars "dependency_overrides") (overridesJson overrides))
      (path ++ ": compatibility override mismatch")
  | _ => .error (.verification (path ++ ": missing native build targets"))

def verifyProvenance (root bundle : Directory) : Except Failure Unit := do
  let path := bundle.path ++ "/native-build.json"
  refuse (bundle.isFile manifestPath = false)
    (bundle.path ++ ": missing native build provenance (native-build.json)")
  let source ← readText host bundle manifestPath
  match ← host.load source with
  | .obj fields => checkManifest host root bundle path fields
  | _ => .error (.verification (path ++ ": invalid native build provenance schema"))

end Manifest

section Checked

variable {F : Type} (host : Host F)

def expectedFields (commit : List Char) (actual contracts : List (List Char × List Char))
    (overrides : (List Char × List Char) × List Char × List Char) :
    List (List Char × Value F) :=
  [(chars "schema_version", .int 1), (chars "litert_lm_commit", jsonString commit),
    (chars "abi", jsonString (chars "arm64-v8a")), (chars "libraries", jsonMap actual),
    (chars "contract_files", jsonMap contracts), (chars "litert_lm_tag", jsonString runtimeTag),
    (chars "bridge_abi", .int 1), (chars "toolchain", toolchainJson ndkVersion),
    (chars "upstream_dependencies", jsonMap upstreamDependencies),
    (chars "build_flags", jsonStrings buildFlags),
    (chars "accelerators", jsonStrings [chars "vulkan", chars "npu"]),
    (chars "dependency_overrides", overridesJson overrides)]

structure Accepts (root bundle : Directory) (fields : List (List CodePoint × Value F))
    (commit : List Char) (actual contracts : List (List Char × List Char))
    (overrides : (List Char × List Char) × List Char × List Char) (targets : List (Value F)) :
    Prop where
  pinned : pinnedCommit host root = .ok commit
  hashed : libraryHashes host bundle = .ok actual
  contract : contractFiles host root = .ok contracts
  overridden : dependencyOverrides host root = .ok overrides
  agrees : ∀ field ∈ expectedFields commit actual contracts overrides,
    ¬ differs host fields field.1 field.2
  built : (fields.lookup (str (chars "build_targets"))).getD (.arr []) = .arr targets
  listed : ∀ target ∈ mainTarget :: npuTargets,
    (targets.any fun v ↦ same host.floatEq v (jsonString target)) = true
  complete : ∀ name ∈ releaseLibraries, name ∈ actual.map Prod.fst

variable {host} {root bundle : Directory} {path : String}
  {fields : List (List CodePoint × Value F)}

theorem checkManifest_ok_iff : checkManifest host root bundle path fields = .ok () ↔
    ∃ commit actual contracts overrides targets,
      Accepts host root bundle fields commit actual contracts overrides targets := by
  constructor
  · intro h
    simp only [checkManifest, bind_ok, refuse_ok, exists_and_left, exists_const] at h
    obtain ⟨hschema, commit, hcommit, hcommit', habi, actual, hactual, hactual', contracts,
      hcontracts, hcontracts', htag, htoolchain, hupstream, hflags, h⟩ := h
    split at h
    next targets htargets =>
      simp only [bind_ok, refuse_ok, exists_and_left, exists_const] at h
      obtain ⟨hmain, haccelerators, hnpu, hmissing, overrides, hoverrides, hoverrides'⟩ := h
      rw [not_or] at htag
      refine ⟨commit, actual, contracts, overrides, targets, hcommit, hactual, hcontracts,
        hoverrides, ?_, htargets, ?_, ?_⟩
      · simp only [expectedFields, List.forall_mem_cons]
        exact ⟨hschema, hcommit', habi, hactual', hcontracts', htag.1, htag.2, htoolchain,
          hupstream, hflags, haccelerators, hoverrides', by simp⟩
      · rw [List.forall_mem_cons]
        exact ⟨by simpa using hmain, by simpa using hnpu⟩
      · intro name hname
        simpa using List.filter_eq_nil_iff.mp (not_not.mp hmissing) name hname
    next => cases h
  · rintro ⟨commit, actual, contracts, overrides, targets, h⟩
    have hagrees := h.agrees
    simp only [expectedFields, List.forall_mem_cons] at hagrees
    obtain ⟨hschema, hcommit, habi, hlibraries, hcontracts, htag, hbridge, htoolchain, hupstream,
      hflags, haccelerators, hoverrides, -⟩ := hagrees
    have hlisted := List.forall_mem_cons.mp h.listed
    simp only [checkManifest, bind_ok, refuse_ok, exists_and_left, exists_const]
    refine ⟨hschema, commit, h.pinned, hcommit, habi, actual, h.hashed, hlibraries, contracts,
      h.contract, hcontracts, not_or.mpr ⟨htag, hbridge⟩, htoolchain, hupstream, hflags, ?_⟩
    rw [h.built]
    simp only [bind_ok, refuse_ok, exists_and_left, exists_const]
    refine ⟨by simpa using hlisted.1, haccelerators, by simpa using hlisted.2, ?_, overrides,
      h.overridden, hoverrides⟩
    rw [not_not]
    refine List.filter_eq_nil_iff.mpr fun name hname ↦ ?_
    simpa using h.complete name hname

end Checked

section Strings

variable {F : Type}

theorem str_injective : Function.Injective str := List.map_injective_iff.mpr ofChar_injective

theorem lookup_str (m : List (List Char × List Char)) (name : List Char) :
    (m.map fun entry ↦ (str entry.1, str entry.2)).lookup (str name) =
      (m.lookup name).map str := by
  induction m with
  | nil => rfl
  | cons entry m ih =>
    rw [List.map_cons, List.lookup_cons, List.lookup_cons, ih]
    by_cases hname : name = entry.1
    · rw [hname, beq_self_eq_true, beq_self_eq_true]
      rfl
    · have hstr : str name ≠ str entry.1 := fun h ↦ hname (str_injective h)
      rw [beq_eq_false_iff_ne.mpr hname, beq_eq_false_iff_ne.mpr hstr]

theorem proper_jsonString (text : List Char) : Proper (jsonString text : Value F) :=
  .str (unpaired_map_ofChar text)

theorem proper_jsonStrings (texts : List (List Char)) : Proper (jsonStrings texts : Value F) := by
  refine .arr fun v hv ↦ ?_
  obtain ⟨s, hs, rfl⟩ := List.mem_map.mp hv
  obtain ⟨text, -, rfl⟩ := List.mem_map.mp hs
  exact proper_jsonString text

theorem proper_jsonMap {m : List (List Char × List Char)} (h : (m.map Prod.fst).Nodup) :
    Proper (jsonMap m : Value F) := by
  have hkeys : ((m.map fun entry ↦ (str entry.1, str entry.2)).map fun entry ↦
      (entry.1, (.str entry.2 : Value F))).map Prod.fst = (m.map Prod.fst).map str := by
    simp [Function.comp_def]
  refine .obj ?_ ?_ ?_
  · rw [hkeys]
    exact h.map str_injective
  · intro f hf
    obtain ⟨entry, hentry, rfl⟩ := List.mem_map.mp hf
    obtain ⟨e, -, rfl⟩ := List.mem_map.mp hentry
    exact unpaired_map_ofChar e.1
  · intro f hf
    obtain ⟨entry, hentry, rfl⟩ := List.mem_map.mp hf
    obtain ⟨e, -, rfl⟩ := List.mem_map.mp hentry
    exact proper_jsonString e.2

/-- Two dictionaries that a field is equal to are the same. -/
theorem jsonMap_unique {floatEq : F → F ⊕ ℤ → Bool} {v : Value F}
    {m m' : List (List Char × List Char)} (h : same floatEq v (jsonMap m) = true)
    (h' : same floatEq v (jsonMap m') = true) (name : List Char) :
      m.lookup name = m'.lookup name := by
  have hstr := same_strings_unique h h' (str name)
  rw [lookup_str, lookup_str] at hstr
  exact Option.map_injective str_injective hstr

end Strings

section Files

variable {F : Type} {host : Host F} {d d' : Directory} {name : Path → List Char}
  {paths : List Path} {m : List (List Char × List Char)}

theorem hashes_congr (h : ∀ path ∈ paths, d'.read path = d.read path) :
    hashes host d' name paths = hashes host d name paths := by
  induction paths with
  | nil => rfl
  | cons path paths ih =>
    rw [hashes, hashes, fileHash, fileHash, h path (by simp), ih fun q hq ↦ h q (by simp [hq])]

theorem hashes_nodup (h : hashes host d name paths = .ok m) : (m.map Prod.fst).Nodup := by
  induction paths generalizing m with
  | nil =>
    obtain rfl := Except.ok.inj h
    exact List.nodup_nil
  | cons path paths ih =>
    simp only [hashes, bind_ok] at h
    obtain ⟨hash, -, rest, hrest, hm⟩ := h
    obtain rfl := Except.ok.inj hm
    split_ifs with hname
    · exact ih hrest
    · exact List.nodup_cons.mpr ⟨hname, ih hrest⟩

/-- Every file has its hash. -/
theorem mem_hashes (h : hashes host d name paths = .ok m) {path : Path} (hpath : path ∈ paths) :
    name path ∈ m.map Prod.fst := by
  induction paths generalizing m with
  | nil => cases hpath
  | cons q paths ih =>
    simp only [hashes, bind_ok] at h
    obtain ⟨hash, -, rest, hrest, hm⟩ := h
    obtain rfl := Except.ok.inj hm
    have hmem : name path = name q ∨ name path ∈ rest.map Prod.fst := by
      rcases List.mem_cons.mp hpath with rfl | hpath
      · exact .inl rfl
      · exact .inr (ih hrest hpath)
    split_ifs with hname
    · rcases hmem with heq | hmem
      · rwa [heq]
      · exact hmem
    · exact List.mem_cons.mpr hmem

theorem exists_of_mem_hashes (h : hashes host d name paths = .ok m) {x : List Char}
    (hx : x ∈ m.map Prod.fst) : ∃ path ∈ paths, name path = x := by
  induction paths generalizing m with
  | nil =>
    obtain rfl := Except.ok.inj h
    cases hx
  | cons q paths ih =>
    simp only [hashes, bind_ok] at h
    obtain ⟨hash, -, rest, hrest, hm⟩ := h
    obtain rfl := Except.ok.inj hm
    have hcases : x = name q ∨ x ∈ rest.map Prod.fst := by
      split_ifs at hx
      · exact .inr hx
      · exact List.mem_cons.mp hx
    rcases hcases with rfl | hx
    · exact ⟨q, by simp, rfl⟩
    · obtain ⟨path, hpath, hname⟩ := ih hrest hx
      exact ⟨path, List.mem_cons_of_mem q hpath, hname⟩

/-- The hash of a file stands under its name, if no other file has the name. -/
theorem lookup_hashes (h : hashes host d name paths = .ok m) (hnodup : (paths.map name).Nodup)
    {path : Path} (hpath : path ∈ paths) :
    ∃ data, d.read path = .ok data ∧ m.lookup (name path) = some (host.sha256 data) := by
  induction paths generalizing m with
  | nil => cases hpath
  | cons q paths ih =>
    rw [List.map_cons, List.nodup_cons] at hnodup
    simp only [hashes, fileHash, bind_ok] at h
    obtain ⟨hash, ⟨data, hdata, hhash⟩, rest, hrest, hm⟩ := h
    have hfresh : name q ∉ rest.map Prod.fst := by
      intro hmem
      obtain ⟨path', hpath', hname⟩ := exists_of_mem_hashes hrest hmem
      exact hnodup.1 (hname ▸ List.mem_map_of_mem hpath')
    rw [if_neg hfresh] at hm
    obtain rfl := Except.ok.inj hm
    obtain rfl := Except.ok.inj hhash
    rcases List.mem_cons.mp hpath with rfl | hpath
    · exact ⟨data, hdata, by rw [List.lookup_cons, beq_self_eq_true]⟩
    · have hne : name path ≠ name q := fun heq ↦ hnodup.1 (heq ▸ List.mem_map_of_mem hpath)
      rw [List.lookup_cons, beq_eq_false_iff_ne.mpr hne]
      exact ih hrest hnodup.2 hpath

theorem libraryHashes_ok (h : libraryHashes host d = .ok m) :
    ∃ libraries, bundleLibraries d = .ok libraries ∧ hashes host d Path.name libraries = .ok m := by
  simpa only [libraryHashes, bind_ok] using h

theorem bundleLibraries_ok (h : bundleLibraries d = .ok paths) :
    paths = sort (d.rglob (chars ".so")) ∧ (paths.map Path.name).Nodup := by
  simp only [bundleLibraries, bind_ok, refuse_ok, exists_and_left, exists_const] at h
  obtain ⟨-, hnodup, -, hpaths⟩ := h
  obtain rfl := Except.ok.inj hpaths
  exact ⟨rfl, not_not.mp hnodup⟩

theorem mem_sort {path : Path} : path ∈ sort paths ↔ path ∈ paths := List.mem_insertionSort _

theorem contractFiles_nodup {root : Directory} (h : contractFiles host root = .ok m) :
    (m.map Prod.fst).Nodup := hashes_nodup h

end Files

namespace Directory

variable {d d' : Directory} {path q : Path} {data : Bytes}

theorem lookup_put_self : (d.put path data).lookup path = some (some data) := by
  unfold put
  split_ifs with hpath
  · generalize d.entries = entries at hpath ⊢
    induction entries with
    | nil => cases hpath
    | cons entry entries ih =>
      rw [List.map_cons, List.lookup_cons]
      by_cases hentry : entry.1 = path
      · rw [if_pos hentry, beq_self_eq_true]
      · have hrest : path ∈ entries.map Prod.fst := by
          rcases List.mem_cons.mp hpath with heq | hrest
          · exact absurd heq.symm hentry
          · exact hrest
        rw [if_neg hentry, beq_eq_false_iff_ne.mpr (Ne.symm hentry)]
        exact ih hrest
  · rw [List.lookup_append, List.lookup_eq_none_iff.mpr, Option.none_or]
    · simp
    · intro entry hentry
      have hne : path ≠ entry.1 := by
        rintro rfl
        exact hpath (List.mem_map_of_mem hentry)
      simpa using hne

theorem lookup_put_of_ne (hq : q ≠ path) : (d.put path data).lookup q = d.entries.lookup q := by
  unfold put
  split_ifs with hpath
  · clear hpath
    induction d.entries with
    | nil => rfl
    | cons entry entries ih =>
      rw [List.map_cons, List.lookup_cons, List.lookup_cons, ih]
      by_cases hentry : entry.1 = path
      · rw [if_pos hentry, hentry, beq_eq_false_iff_ne.mpr hq]
      · rw [if_neg hentry]
  · rw [List.lookup_append]
    have hlast : List.lookup q [(path, some data)] = none := by
      rw [List.lookup_cons, beq_eq_false_iff_ne.mpr hq]
      rfl
    rw [hlast, Option.or_none]

theorem write_ok (h : d.write path data = .ok d') :
    d'.path = d.path ∧ d'.entries = d.put path data := by
  unfold write at h
  split at h
  · cases h
  · obtain rfl := Except.ok.inj h
    exact ⟨rfl, rfl⟩

theorem read_write (h : d.write path data = .ok d') : d'.read path = .ok data := by
  rw [read, (write_ok h).2, lookup_put_self]

theorem isFile_write (h : d.write path data = .ok d') : d'.isFile path = true := by
  rw [isFile, (write_ok h).2, lookup_put_self]
  rfl

theorem read_write_of_ne (h : d.write path data = .ok d') (hq : q ≠ path) :
    d'.read q = d.read q := by
  rw [read, read, (write_ok h).2, lookup_put_of_ne hq]

/-- A file of another kind is not among those of a suffix. -/
theorem rglob_write (h : d.write path data = .ok d') {suffix : Name}
    (hsuffix : path.getLast?.any (suffix.isSuffixOf ·) = false) :
    d'.rglob suffix = d.rglob suffix := by
  rw [rglob, rglob, (write_ok h).2, map_put]
  split_ifs
  · rfl
  · simp [List.filter_append, hsuffix]

end Directory

section Agreement

variable {F : Type} (host : Host F)

def RoundTrips (v : Value F) : Prop :=
  ∃ text v', host.text (host.dump v) = .ok text ∧ host.load text = .ok v' ∧
    same host.floatEq v' v = true

def pinnedDependencies : List (List Char × Option (List Char)) :=
  upstreamDependencies.map fun dependency ↦ (dependency.1, some dependency.2)

structure Recorded (root bundle bundle' : Directory) (build : Build) (commit : List Char)
    (overrides : (List Char × List Char) × List Char × List Char) (workspaceHash : List Char)
    (actual contracts : List (List Char × List Char)) : Prop where
  pinned : pinnedCommit host root = .ok commit
  overridden : dependencyOverrides host root = .ok overrides
  hashed : libraryHashes host bundle = .ok actual
  contract : contractFiles host root = .ok contracts
  flags : build.buildFlags = buildFlags
  written : bundle.write manifestPath (host.dump (.obj (manifest commit ndkVersion build
    pinnedDependencies overrides workspaceHash actual contracts))) = .ok bundle'

variable {host} {root bundle bundle' : Directory} {build : Build}

theorem writeProvenance_ok (h : writeProvenance host root bundle build = .ok bundle') :
    ∃ commit overrides workspaceHash actual contracts,
      Recorded host root bundle bundle' build commit overrides workspaceHash actual contracts := by
  simp only [writeProvenance, bind_ok, refuse_ok, exists_and_left, exists_const] at h
  obtain ⟨head, -, commit, hcommit, hpinned, -, -, h⟩ := h
  split at h
  next ndkHome bazel _ _ =>
    simp only [bind_ok, refuse_ok, exists_and_left, exists_const] at h
    obtain ⟨-, properties, -, stdout, -, hrevision, workspace, -, hflags, overrides, hoverrides,
      workspaceHash, -, actual, hactual, contracts, hcontracts, hwrite⟩ := h
    rw [not_or, not_not, not_not] at hrevision hflags
    rw [hrevision.1, hflags.1, not_not.mp hpinned] at hwrite
    exact ⟨commit, overrides, workspaceHash, actual, contracts, hcommit, hoverrides, hactual,
      hcontracts, hflags.2, hwrite⟩
  next => cases h

variable {commit workspaceHash : List Char} {actual contracts : List (List Char × List Char)}
  {overrides : (List Char × List Char) × List Char × List Char}

def manifestKeys : List (List CodePoint) :=
  [chars "schema_version", chars "litert_lm_commit", chars "litert_lm_tag", chars "bridge_abi",
    chars "toolchain", chars "upstream_dependencies", chars "build_flags", chars "build_targets",
    chars "abi", chars "accelerators", chars "dependency_overrides",
    chars "patched_workspace_sha256", chars "libraries", chars "contract_files"].map str

theorem manifestKeys_nodup : manifestKeys.Nodup := by decide +kernel

theorem proper_pinJson (pin : List Char × List Char) : Proper (pinJson pin : Value F) :=
  proper_jsonMap (by simp [chars])

theorem proper_manifest (hactual : (actual.map Prod.fst).Nodup)
    (hcontracts : (contracts.map Prod.fst).Nodup) :
    Proper (.obj (manifest commit ndkVersion build pinnedDependencies overrides workspaceHash
      actual contracts) : Value F) := by
  have hkeys : (manifest commit ndkVersion build pinnedDependencies overrides workspaceHash
      actual contracts : List (List CodePoint × Value F)).map Prod.fst = manifestKeys := rfl
  refine .obj (hkeys ▸ manifestKeys_nodup) ?_ ?_
  · intro f hf
    have hmem : f.1 ∈ manifestKeys := hkeys ▸ List.mem_map_of_mem hf
    obtain ⟨key, -, hkey⟩ := List.mem_map.mp hmem
    rw [← hkey]
    exact unpaired_map_ofChar key
  · simp only [manifest, List.forall_mem_cons]
    refine ⟨.int 1, proper_jsonString _, proper_jsonString _, .int 1, proper_jsonMap ?_, ?_,
      proper_jsonStrings _, proper_jsonStrings _, proper_jsonString _, proper_jsonStrings _, ?_,
      proper_jsonString _, proper_jsonMap hactual, proper_jsonMap hcontracts, by simp⟩
    · simp [chars]
    · exact proper_jsonMap (m := upstreamDependencies) (by simp [upstreamDependencies, chars])
    · refine .obj (by simp [str, chars]) ?_ ?_
      · simp [unpaired_map_ofChar, str]
      · simp [proper_pinJson]

variable (workspaceHash) in
theorem lookup_manifest (hflags : build.buildFlags = buildFlags)
    (haccelerators : build.accelerators = chars "vulkan,npu") :
    ∀ field ∈ (expectedFields commit actual contracts overrides : List (List Char × Value F)),
      (manifest commit ndkVersion build pinnedDependencies overrides workspaceHash actual
        contracts).lookup (str field.1) = some field.2 := by
  have hsplit : split ',' build.accelerators = [chars "vulkan", chars "npu"] := by
    rw [haccelerators]
    decide
  simp only [manifest, hflags, hsplit, expectedFields, List.forall_mem_cons]
  exact ⟨rfl, rfl, rfl, rfl, rfl, rfl, rfl, rfl, rfl, rfl, rfl, rfl, by simp⟩

theorem lookup_targets : (manifest commit ndkVersion build pinnedDependencies overrides
      workspaceHash actual contracts : List (List CodePoint × Value F)).lookup
        (str (chars "build_targets")) = some (jsonStrings build.buildTargets) := rfl

structure Unchanged (host : Host F) (root bundle root' bundle' : Directory) : Prop where
  libraries : ∃ m m', libraryHashes host bundle = .ok m ∧ libraryHashes host bundle' = .ok m' ∧
    ∀ name, m'.lookup name = m.lookup name
  contracts : ∃ m m', contractFiles host root = .ok m ∧ contractFiles host root' = .ok m' ∧
    ∀ name, m'.lookup name = m.lookup name
  commit : pinnedCommit host root' = pinnedCommit host root
  overrides : dependencyOverrides host root' = dependencyOverrides host root

theorem verifyProvenance_ok_iff : verifyProvenance host root bundle = .ok () ↔
    bundle.isFile manifestPath = true ∧ ∃ data text fields, bundle.read manifestPath = .ok data ∧
      host.text data = .ok text ∧ host.load text = .ok (.obj fields) ∧
      checkManifest host root bundle (bundle.path ++ "/native-build.json") fields = .ok () := by
  simp only [verifyProvenance, readText, bind_ok, refuse_ok, exists_and_left, exists_const,
    Bool.not_eq_false]
  constructor
  · rintro ⟨hfile, text, ⟨data, hdata, htext⟩, v, hv, h⟩
    split at h
    next fields => exact ⟨hfile, data, hdata, text, htext, fields, hv, h⟩
    next => cases h
  · rintro ⟨hfile, data, hdata, text, htext, fields, hv, h⟩
    exact ⟨hfile, text, ⟨data, hdata, htext⟩, .obj fields, hv, h⟩

theorem pinJson_unique {floatEq : F → F ⊕ ℤ → Bool} {v : Value F} {pin pin' : List Char × List Char}
    (h : same floatEq v (pinJson pin) = true) (h' : same floatEq v (pinJson pin') = true) :
    pin = pin' := by
  have hversion := jsonMap_unique h h' (chars "version")
  have hchecksum := jsonMap_unique h h' (chars "sha256")
  exact Prod.ext (Option.some.inj hversion) (Option.some.inj hchecksum)

theorem same_lookup {floatEq : F → F ⊕ ℤ → Bool} {fs gs : List (List CodePoint × Value F)}
    {w : Value F} (key : List CodePoint) (h : same floatEq (.obj fs) (.obj gs) = true)
    (hw : gs.lookup key = some w) : same floatEq (get fs key) w = true := by
  rcases same_obj h key with ⟨-, hnone⟩ | ⟨u, w', hu, hw', hsame⟩
  · rw [hnone] at hw
    cases hw
  · rw [hw'] at hw
    obtain rfl := Option.some.inj hw
    rw [JsonText.get, hu]
    exact hsame

theorem overridesJson_unique {floatEq : F → F ⊕ ℤ → Bool} {v : Value F}
    {o o' : (List Char × List Char) × List Char × List Char}
    (h : same floatEq v (overridesJson o) = true) (h' : same floatEq v (overridesJson o') = true) :
    o = o' := by
  obtain ⟨fs, rfl⟩ := same_obj_right h
  have hrules := pinJson_unique (same_lookup (str (chars "rules_cc")) h rfl) (same_lookup _ h' rfl)
  have hskylib := pinJson_unique (same_lookup (str (chars "bazel_skylib")) h rfl)
    (same_lookup _ h' rfl)
  exact Prod.ext hrules hskylib

theorem libraryHashes_write {data : Bytes}
    (hwritten : bundle.write manifestPath data = .ok bundle') :
    libraryHashes host bundle' = libraryHashes host bundle := by
  have hglob : bundle'.rglob (chars ".so") = bundle.rglob (chars ".so") :=
    Directory.rglob_write hwritten (by decide)
  have hlibraries : bundleLibraries bundle' = bundleLibraries bundle := by
    rw [bundleLibraries, bundleLibraries, hglob, (Directory.write_ok hwritten).1]
  rw [libraryHashes, libraryHashes, hlibraries]
  cases h : bundleLibraries bundle with
  | error e => rfl
  | ok libraries =>
    refine hashes_congr fun path hpath ↦ Directory.read_write_of_ne hwritten ?_
    rw [(bundleLibraries_ok h).1, mem_sort] at hpath
    rintro rfl
    have hsuffix := (List.mem_filter.mp hpath).2
    revert hsuffix
    decide

theorem checkManifest_written {fields : List (List CodePoint × Value F)} {path : String}
    (h : Recorded host root bundle bundle' build commit overrides workspaceHash actual contracts)
    (hsame : same host.floatEq (.obj fields) (.obj (manifest commit ndkVersion build
      pinnedDependencies overrides workspaceHash actual contracts)) = true)
    (haccelerators : build.accelerators = chars "vulkan,npu")
    (htargets : ∀ target ∈ mainTarget :: npuTargets, target ∈ build.buildTargets)
    (hlibraries : ∀ name ∈ releaseLibraries, name ∈ (bundle.rglob (chars ".so")).map Path.name) :
    checkManifest host root bundle' path fields = .ok () := by
  have hhashed : libraryHashes host bundle' = .ok actual :=
    (libraryHashes_write h.written).trans h.hashed
  have hbuilt : get fields (str (chars "build_targets")) =
      .arr ((build.buildTargets.map str).map .str) :=
    same_strs.mp (same_lookup _ hsame lookup_targets)
  refine checkManifest_ok_iff.mpr ⟨commit, actual, contracts, overrides,
    (build.buildTargets.map str).map .str, h.pinned, hhashed, h.contract, h.overridden,
      ?_, ?_, ?_, ?_⟩
  · intro field hfield
    have hlookup := lookup_manifest workspaceHash h.flags haccelerators field hfield
    simpa [differs] using same_lookup _ hsame hlookup
  · rw [JsonText.get] at hbuilt
    cases hlookup : fields.lookup (str (chars "build_targets")) with
    | none =>
      rw [hlookup] at hbuilt
      cases hbuilt
    | some v =>
      rw [hlookup] at hbuilt
      exact hbuilt
  · intro target htarget
    refine List.any_eq_true.mpr ⟨.str (str target), ?_, same_str.mpr rfl⟩
    exact List.mem_map_of_mem (List.mem_map_of_mem (htargets target htarget))
  · intro name hname
    obtain ⟨libraries, hbundle, hhashes⟩ := libraryHashes_ok h.hashed
    obtain ⟨path, hpath, rfl⟩ := List.mem_map.mp (hlibraries name hname)
    rw [← mem_sort, ← (bundleLibraries_ok hbundle).1] at hpath
    exact mem_hashes hhashes hpath

/-- What passes the check of a manifest is what the manifest records. -/
theorem unchanged_of_checkManifest {fields : List (List CodePoint × Value F)} {path : String}
    {root' bundle₂ : Directory}
    (h : Recorded host root bundle bundle' build commit overrides workspaceHash actual contracts)
    (hsame : same host.floatEq (.obj fields) (.obj (manifest commit ndkVersion build
      pinnedDependencies overrides workspaceHash actual contracts)) = true)
    (hcheck : checkManifest host root' bundle₂ path fields = .ok ()) :
    Unchanged host root bundle root' bundle₂ := by
  obtain ⟨commit', actual', contracts', overrides', targets, haccepts⟩ :=
    checkManifest_ok_iff.mp hcheck
  have hagrees := haccepts.agrees
  simp only [expectedFields, List.forall_mem_cons, differs, Bool.not_eq_false] at hagrees
  obtain ⟨-, hcommit, -, hactual, hcontracts, -, -, -, -, -, -, hoverrides, -⟩ := hagrees
  have hcommit' : commit = commit' := by
    have hwritten := same_str.mp (same_lookup (str (chars "litert_lm_commit")) hsame rfl)
    exact str_injective (Value.str.inj (hwritten.symm.trans (same_str.mp hcommit)))
  have hoverrides' : overrides = overrides' :=
    overridesJson_unique (same_lookup (str (chars "dependency_overrides")) hsame rfl) hoverrides
  refine ⟨⟨actual, actual', h.hashed, haccepts.hashed, fun name ↦ ?_⟩,
    ⟨contracts, contracts', h.contract, haccepts.contract, fun name ↦ ?_⟩, ?_, ?_⟩
  · exact jsonMap_unique hactual (same_lookup _ hsame rfl) name
  · exact jsonMap_unique hcontracts (same_lookup _ hsame rfl) name
  · rw [h.pinned, haccepts.pinned, hcommit']
  · rw [h.overridden, haccepts.overridden, hoverrides']

/-- What `write_provenance` records is what `verify_provenance` checks: the bundle
passes as it was written, and a later state passes against that manifest only with
the same libraries, contract files, commit and overrides. -/
theorem provenance_agreement (hwrite : writeProvenance host root bundle build = .ok bundle')
    (hjson : ∀ v, bundle.write manifestPath (host.dump v) = .ok bundle' → Proper v →
      RoundTrips host v) :
    (build.accelerators = chars "vulkan,npu" →
      (∀ target ∈ mainTarget :: npuTargets, target ∈ build.buildTargets) →
      (∀ name ∈ releaseLibraries, name ∈ (bundle.rglob (chars ".so")).map Path.name) →
      verifyProvenance host root bundle' = .ok ()) ∧
    ∀ root' bundle₂, bundle₂.read manifestPath = bundle'.read manifestPath →
      verifyProvenance host root' bundle₂ = .ok () → Unchanged host root bundle root' bundle₂ := by
  obtain ⟨commit, overrides, workspaceHash, actual, contracts, hrecorded⟩ :=
    writeProvenance_ok hwrite
  obtain ⟨libraries, -, hhashes⟩ := libraryHashes_ok hrecorded.hashed
  obtain ⟨text, v, htext, hload, hsame⟩ := hjson _ hrecorded.written
    (proper_manifest (hashes_nodup hhashes) (contractFiles_nodup hrecorded.contract))
  obtain ⟨fields, rfl⟩ := same_obj_right hsame
  have hread := Directory.read_write hrecorded.written
  constructor
  · intro haccelerators htargets hlibraries
    refine verifyProvenance_ok_iff.mpr ⟨Directory.isFile_write hrecorded.written, _, text, fields,
      hread, htext, hload, ?_⟩
    exact checkManifest_written hrecorded hsame haccelerators htargets hlibraries
  · intro root' bundle₂ hmanifest hverify
    obtain ⟨-, data, text', fields', hdata, htext', hload', hcheck⟩ :=
      verifyProvenance_ok_iff.mp hverify
    rw [hmanifest, hread] at hdata
    obtain rfl := Except.ok.inj hdata
    rw [htext] at htext'
    obtain rfl := Except.ok.inj htext'
    rw [hload] at hload'
    obtain rfl := Value.obj.inj (Except.ok.inj hload')
    exact unchanged_of_checkManifest hrecorded hsame hcheck

end Agreement

namespace Scenario

def charBytes (c : Char) : Bytes :=
  if c.toNat < 128 then [byte c.toNat]
  else [255, byte (c.toNat / 65536), byte (c.toNat / 256), byte c.toNat]

def byteChars : Bytes → List Char
  | [] => []
  | 255 :: x :: y :: z :: rest =>
    Char.ofNat (x.toNat * 65536 + y.toNat * 256 + z.toNat) :: byteChars rest
  | b :: rest => Char.ofNat b.toNat :: byteChars rest

theorem byteChars_charBytes (text : List Char) : byteChars (text.flatMap charBytes) = text := by
  induction text with
  | nil => rfl
  | cons c text ih =>
    have hvalid : c.toNat.isValidChar := c.valid
    unfold Nat.isValidChar at hvalid
    rw [List.flatMap_cons, charBytes]
    split_ifs with hascii
    · have hbyte : byte c.toNat ≠ 255 := by
        intro h
        have hnat := congrArg UInt8.toNat h
        simp [byte] at hnat
        omega
      have htoNat : (byte c.toNat).toNat = c.toNat := by
        simp [byte]
        omega
      rw [List.singleton_append, byteChars, htoNat, ih, Char.ofNat_toNat]
      intro x y z rest h
      exact absurd h hbyte
    · have hnumber : (byte (c.toNat / 65536)).toNat * 65536 + (byte (c.toNat / 256)).toNat * 256 +
          (byte c.toNat).toNat = c.toNat := by
        simp [byte]
        omega
      simp only [List.cons_append, List.nil_append, byteChars, hnumber, ih, Char.ofNat_toNat]

/-- Texts are bytes one to one, and the hash of a file is the file. -/
def host : Host ℤ where
  word := asciiWord
  sha256 := hexDigits
  text data := .ok (byteChars data)
  load text :=
    match rawDecode tenths.parse text with
    | .ok (v, _) => .ok v
    | .error _ => .error .value
  dump v := (encode tenths v).flatMap charBytes
  floatEq x y :=
    match y with
    | .inl y => x == y
    | .inr n => x == 10 * n

theorem host_roundTrips {v : Value ℤ} (hv : Proper v) : RoundTrips host v := by
  refine ⟨encode tenths v, v, ?_, ?_, ?_⟩
  · exact congrArg Except.ok (byteChars_charBytes _)
  · have hreads : Reads tenths v := hv.reads
    have hread := hreads (encode tenths v).length (2 * (encode tenths v).length + 2) [] (by omega)
      (by simp [Ends])
    rw [List.append_nil] at hread
    simp only [host, rawDecode, hread]
  · exact hv.same_self fun x ↦ beq_self_eq_true x

def ascii (text : List Char) : Bytes := text.flatMap charBytes

def script : List Char :=
  chars "LITERT_LM_COMMIT:-bda624851d74be34d4e1f7fac1fc4155939539c7\n" ++
  chars "RULES_CC_VERSION=\"0.2.25\"\n" ++
  chars "RULES_CC_SHA256=\"bd7124a844d0403b4b353bcea34d6c8b2ba88dc26881c26c9ee668da89b71846\"\n" ++
  chars "BAZEL_SKYLIB_VERSION=\"1.9.0\"\n" ++
  chars "BAZEL_SKYLIB_SHA256=\"3b5b49006181f5f8ff626ef8ddceaa95e9bb8ad294f7b5d7b11ea9f7ddaf8c59\"\n"

def repository : Directory where
  path := "/repository"
  entries := [(scriptPath, some (ascii script)), ([chars "ffigen.yaml"], some [])]
  distinct := by decide

def bundled : Directory where
  path := "/bundle"
  entries := releaseLibraries.map fun name ↦ ([name], some image)
  distinct := by decide +kernel

def workspaceText : List Char :=
  chars "LITERT_REF = \"ca21dc99de51c76bdcc572afeea1dd937d3c9e5c\"\n" ++
  chars "TENSORFLOW_REF = \"a1179d3c224967bd979950b823d5ce2a7e8f4c94\"\n"

def built : Build where
  source := ⟨"/source", [([chars "WORKSPACE"], some (ascii workspaceText))], by decide⟩
  head := .ok (chars "bda624851d74be34d4e1f7fac1fc4155939539c7\n")
  accelerators := chars "vulkan,npu"
  ndkHome := some ⟨"/ndk", [([chars "source.properties"],
    some (ascii (chars "Pkg.Revision = 28.2.13676358\n")))], by decide⟩
  bazel := some (.ok (chars "bazel 7.6.1\n"))
  buildFlags := buildFlags
  buildTargets := mainTarget :: npuTargets

theorem built_accepted : ∃ bundle, writeProvenance host repository bundled built = .ok bundle ∧
    verifyProvenance host repository bundle = .ok () := by
  have hok : (writeProvenance host repository bundled built).isOk = true := by decide +kernel
  cases hwrite : writeProvenance host repository bundled built with
  | error e =>
    rw [hwrite] at hok
    cases hok
  | ok bundle =>
    have hagrees := provenance_agreement hwrite fun v _ hv ↦ host_roundTrips hv
    exact ⟨bundle, rfl, hagrees.1 rfl (fun _ h ↦ h) (by decide +kernel)⟩

end Scenario

end LibLitertLm.Tool
