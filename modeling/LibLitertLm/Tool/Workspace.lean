import LibLitertLm.Library.Code
import LibLitertLm.Library.Splice

namespace LibLitertLm.Tool.Workspace

open Splice

def rulesCcVersion : List Char := chars "0.2.25"

def rulesCcSha256 : List Char :=
  chars "bd7124a844d0403b4b353bcea34d6c8b2ba88dc26881c26c9ee668da89b71846"

def bazelSkylibVersion : List Char := chars "1.9.0"

def bazelSkylibSha256 : List Char :=
  chars "3b5b49006181f5f8ff626ef8ddceaa95e9bb8ad294f7b5d7b11ea9f7ddaf8c59"

/-- A Python program on the `WORKSPACE` file; `sys.exit` with a text fails. -/
abbrev Script := Code (List Char) String

def universal : List Char → List Char
  | [] => []
  | c :: rest =>
    if c = '\r' then
      if rest.head? = some '\n' then universal rest else '\n' :: universal rest
    else c :: universal rest

def readText : Script (List Char) := fun file ↦ (.ok (universal file), file)

def writeText (source : List Char) : Script Unit := fun _ ↦ (.ok (), source)

def anchor : List Char :=
  chars "load(\"@bazel_tools//tools/build_defs/repo:http.bzl\", \"http_archive\")\n"

section Skylib

def skylibMarker : List Char :=
  chars "# lib_litert_lm: Skylib required by the pinned TensorFlow workspace.\n"

variable (version checksum : List Char)

def skylibArchive : List Char :=
  chars "http_archive(\n    name = \"bazel_skylib\",\n    sha256 = \"" ++ checksum ++
  chars "\",\n    urls = [\n        \"https://mirror.bazel.build/github.com/bazelbuild/" ++
  chars "bazel-skylib/releases/download/" ++ version ++ chars "/bazel-skylib-" ++ version ++
  chars ".tar.gz\",\n        \"https://github.com/bazelbuild/" ++
  chars "bazel-skylib/releases/download/" ++ version ++ chars "/bazel-skylib-" ++ version ++
  chars ".tar.gz\",\n    ],\n)\n"

def skylibDeclaration : List Char := '\n' :: (skylibMarker ++ skylibArchive version checksum)

def patchBazelSkylibArchive : Script Unit := do
  let source ← readText
  let declaration := skylibDeclaration version checksum
  if skylibMarker <:+: source then
    if ¬ declaration <:+: source then
      throw "Cached Skylib patch differs from the pinned archive; inspect before rebuilding"
    else pure ()
  else if count anchor 0 source ≠ 1 ∨ chars "name = \"bazel_skylib\"" <:+: source then
    throw "Unexpected upstream Skylib declaration; inspect before patching"
  else writeText (replaceFirst anchor (anchor ++ declaration) source)

end Skylib

section RulesCc

def rulesCcMarker : List Char :=
  chars "# lib_litert_lm: rules_cc required by the pinned TensorFlow workspace.\n"

variable (version checksum : List Char)

def rulesCcArchive : List Char :=
  chars "http_archive(\n    name = \"rules_cc\",\n    sha256 = \"" ++ checksum ++
  chars "\",\n    strip_prefix = \"rules_cc-" ++ version ++
  chars "\",\n    urls = [\n        \"https://mirror.bazel.build/github.com/bazelbuild/" ++
  chars "rules_cc/releases/download/" ++ version ++ chars "/rules_cc-" ++ version ++
  chars ".tar.gz\",\n        \"https://github.com/bazelbuild/" ++
  chars "rules_cc/releases/download/" ++ version ++ chars "/rules_cc-" ++ version ++
  chars ".tar.gz\",\n    ],\n)\n"

def rulesCcDeclaration : List Char := '\n' :: (rulesCcMarker ++ rulesCcArchive version checksum)

/-- The first half of `patch_rules_cc_archive`: with the marker there, nothing is looked at. -/
def predeclare (source : List Char) : Script (List Char) :=
  if ¬ rulesCcMarker <:+: source then
    if count anchor 0 source ≠ 1 ∨ chars "name = \"rules_cc\"" <:+: source then
      throw "Unexpected upstream rules_cc declaration; inspect before patching"
    else
      pure (replaceFirst anchor (anchor ++ rulesCcDeclaration version checksum) source)
  else pure source

def proxyMarker : List Char :=
  chars "# lib_litert_lm: initialize C++ compatibility before dependent loads.\n"

def proxyAnchor : List Char := chars "tf_workspace3()\n"

def bootstrap : List Char :=
  chars "\nload(\"@bazel_features//:deps.bzl\", \"bazel_features_deps\")\n" ++
  chars "bazel_features_deps()\n" ++
  chars "load(\"@rules_cc//cc:extensions.bzl\", \"compatibility_proxy_repo\")\n" ++
  chars "compatibility_proxy_repo()\n"

def initializeProxy (source : List Char) : Script (List Char) :=
  if ¬ proxyMarker <:+: source then
    if count proxyAnchor 0 source ≠ 1 then
      throw "Unexpected TensorFlow bootstrap; inspect before patching"
    else pure (replaceFirst proxyAnchor (proxyAnchor ++ '\n' :: (proxyMarker ++ bootstrap)) source)
  else pure source

def patchRulesCcArchive : Script Unit := do
  let source ← readText
  let source ← predeclare version checksum source
  let source ← initializeProxy source
  writeText source

end RulesCc

def patchSkylib : Script Unit := patchBazelSkylibArchive bazelSkylibVersion bazelSkylibSha256

def patchRulesCc : Script Unit := patchRulesCcArchive rulesCcVersion rulesCcSha256

def patchWorkspace : Script Unit := do
  patchSkylib
  patchRulesCc

/-- The declaration that the provenance records as the one of the build. -/
def pinnedSkylib : List Char := skylibArchive bazelSkylibVersion bazelSkylibSha256

def pinnedRulesCc : List Char := rulesCcArchive rulesCcVersion rulesCcSha256

def Declares (file : List Char) : Prop := pinnedSkylib <:+: file ∧ pinnedRulesCc <:+: file

/-- The file does not have the marker of an earlier patch with another archive behind it. -/
def Undrifted (file : List Char) : Prop :=
  rulesCcMarker <:+: universal file → pinnedRulesCc <:+: universal file

instance (file : List Char) : Decidable (Undrifted file) := by
  unfold Undrifted
  infer_instance

section Lines

variable {text : List Char}

theorem universal_not_return : ∀ c ∈ universal text, c ≠ '\r' := by
  induction text with
  | nil => simp [universal]
  | cons c rest ih =>
    rw [universal]
    split_ifs with hreturn
    · exact ih
    · simpa using ih
    · simpa [hreturn] using ih

theorem universal_eq_self (h : ∀ c ∈ text, c ≠ '\r') : universal text = text := by
  induction text with
  | nil => rfl
  | cons c rest ih =>
    rw [universal, if_neg (h c (by simp)), ih fun d hd ↦ h d (by simp [hd])]

end Lines

section Patches

variable {version checksum file file' source source' : List Char} {e : String}

theorem patchBazelSkylibArchive_error
    (h : patchBazelSkylibArchive version checksum file = (.error e, file')) : file' = file := by
  simp only [patchBazelSkylibArchive, bind, readText] at h
  split_ifs at h
  · cases h
  · exact (Prod.mk.inj h).2.symm
  · exact (Prod.mk.inj h).2.symm
  · cases h

theorem patchBazelSkylibArchive_ok
    (h : patchBazelSkylibArchive version checksum file = (.ok (), file')) :
    skylibDeclaration version checksum <:+: universal file ∧ file' = file ∨
      Inserted anchor (skylibDeclaration version checksum) (universal file) file' := by
  simp only [patchBazelSkylibArchive, bind, readText] at h
  split_ifs at h with hmarker hdeclared hunexpected
  · exact .inl ⟨hdeclared, (Prod.mk.inj h).2.symm⟩
  · cases h
  · cases h
  · obtain rfl := (Prod.mk.inj h).2
    have hcount : count anchor 0 (universal file) = 1 := by
      by_contra hne
      exact hunexpected (.inl hne)
    exact .inr (inserted_of_count (by decide) (by omega) _)

theorem patchBazelSkylibArchive_again
    (h : skylibDeclaration version checksum <:+: universal file) :
    patchBazelSkylibArchive version checksum file = (.ok (), file) := by
  have hmarker : skylibMarker <:+: universal file := by
    refine List.IsInfix.trans ?_ h
    exact ⟨['\n'], skylibArchive version checksum, rfl⟩
  simp only [patchBazelSkylibArchive, bind, readText]
  rw [if_pos hmarker, if_neg (not_not.mpr h)]
  rfl

theorem predeclare_ok (h : predeclare version checksum source file = (.ok source', file')) :
    file' = file ∧ (rulesCcMarker <:+: source ∧ source' = source ∨
      ¬ rulesCcMarker <:+: source ∧
        Inserted anchor (rulesCcDeclaration version checksum) source source') := by
  rw [predeclare] at h
  split_ifs at h with hmarker hunexpected
  · obtain ⟨hsource, hfile⟩ := Prod.mk.inj h
    exact ⟨hfile.symm, .inl ⟨hmarker, (Except.ok.inj hsource).symm⟩⟩
  · cases h
  · obtain ⟨hsource, hfile⟩ := Prod.mk.inj h
    obtain rfl := Except.ok.inj hsource
    have hcount : count anchor 0 source = 1 := by
      by_contra hne
      exact hunexpected (.inl hne)
    exact ⟨hfile.symm, .inr ⟨hmarker, inserted_of_count (by decide) (by omega) _⟩⟩

def proxied : List Char := '\n' :: (proxyMarker ++ bootstrap)

theorem initializeProxy_ok (h : initializeProxy source file = (.ok source', file')) :
    file' = file ∧ (proxyMarker <:+: source ∧ source' = source ∨
      Inserted proxyAnchor proxied source source') := by
  rw [initializeProxy] at h
  split_ifs at h with hmarker hunexpected
  · obtain ⟨hsource, hfile⟩ := Prod.mk.inj h
    exact ⟨hfile.symm, .inl ⟨hmarker, (Except.ok.inj hsource).symm⟩⟩
  · cases h
  · obtain ⟨hsource, hfile⟩ := Prod.mk.inj h
    obtain rfl := Except.ok.inj hsource
    exact ⟨hfile.symm, .inr (inserted_of_count (by decide) (by omega) _)⟩

variable (version checksum file source) in
/-- Neither half writes the file. -/
theorem predeclare_file : (predeclare version checksum source file).2 = file := by
  rw [predeclare]
  split_ifs <;> rfl

variable (file source) in
theorem initializeProxy_file : (initializeProxy source file).2 = file := by
  rw [initializeProxy]
  split_ifs <;> rfl

theorem patchRulesCcArchive_error
    (h : patchRulesCcArchive version checksum file = (.error e, file')) : file' = file := by
  have hfirst := predeclare_file version checksum file (universal file)
  simp only [patchRulesCcArchive, bind, readText] at h
  rcases hpredeclare : predeclare version checksum (universal file) file with ⟨e' | source, t⟩
  · rw [hpredeclare] at h hfirst
    exact (Prod.mk.inj h).2.symm.trans hfirst
  · have hsecond := initializeProxy_file t source
    rw [hpredeclare] at h hfirst
    rcases hproxy : initializeProxy source t with ⟨e' | source', t'⟩
    · rw [hproxy] at hsecond
      simp only [hproxy] at h
      exact ((Prod.mk.inj h).2.symm.trans hsecond).trans hfirst
    · simp only [hproxy] at h
      cases h

theorem patchRulesCcArchive_ok
    (h : patchRulesCcArchive version checksum file = (.ok (), file')) :
    ∃ source, (rulesCcMarker <:+: universal file ∧ source = universal file ∨
        ¬ rulesCcMarker <:+: universal file ∧
          Inserted anchor (rulesCcDeclaration version checksum) (universal file) source) ∧
      (proxyMarker <:+: source ∧ file' = source ∨ Inserted proxyAnchor proxied source file') := by
  simp only [patchRulesCcArchive, bind, readText] at h
  rcases hpredeclare : predeclare version checksum (universal file) file with ⟨e' | source, t⟩
  · rw [hpredeclare] at h
    cases h
  · rw [hpredeclare] at h
    rcases hproxy : initializeProxy source t with ⟨e' | source', t'⟩
    · simp only [hproxy] at h
      cases h
    · simp only [hproxy] at h
      obtain rfl := (Prod.mk.inj h).2
      exact ⟨source, (predeclare_ok hpredeclare).2, (initializeProxy_ok hproxy).2⟩

/-- A file with both markers is written as it was read. -/
theorem patchRulesCcArchive_again (hmarker : rulesCcMarker <:+: universal file)
    (hproxy : proxyMarker <:+: universal file) :
    patchRulesCcArchive version checksum file = (.ok (), universal file) := by
  have hfirst : predeclare version checksum (universal file) = pure (universal file) := by
    rw [predeclare, if_neg (not_not.mpr hmarker)]
  have hsecond : initializeProxy (universal file) = pure (universal file) := by
    rw [initializeProxy, if_neg (not_not.mpr hproxy)]
  simp only [patchRulesCcArchive, bind, readText, hfirst]
  simp only [pure, hsecond]
  rfl

end Patches

section Words

def declaredSkylib : List Char := skylibDeclaration bazelSkylibVersion bazelSkylibSha256

def declaredRulesCc : List Char := rulesCcDeclaration rulesCcVersion rulesCcSha256

theorem anchor_last : anchor.getLast? = some '\n' := rfl

theorem skylib_survives : Survives anchor declaredRulesCc declaredSkylib ∧
    Survives proxyAnchor proxied declaredSkylib :=
  ⟨survives_of_cuts anchor_last (by decide +kernel),
    survives_of_cuts (c := '\n') rfl (by decide +kernel)⟩

theorem rulesCc_survives : Survives anchor declaredSkylib pinnedRulesCc ∧
    Survives proxyAnchor proxied pinnedRulesCc :=
  ⟨survives_of_cuts anchor_last (by decide +kernel),
    survives_of_cuts (c := '\n') rfl (by decide +kernel)⟩

theorem rulesCc_foreign : Foreign anchor declaredSkylib pinnedRulesCc ∧
    Foreign proxyAnchor proxied pinnedRulesCc :=
  ⟨foreign_of_cuts anchor_last rfl (by decide +kernel) (by decide +kernel),
    foreign_of_cuts (c := '\n') rfl rfl (by decide +kernel) (by decide +kernel)⟩

theorem rulesCcMarker_survives : Survives anchor declaredSkylib rulesCcMarker ∧
    Survives proxyAnchor proxied rulesCcMarker :=
  ⟨survives_of_cuts anchor_last (by decide +kernel),
    survives_of_cuts (c := '\n') rfl (by decide +kernel)⟩

theorem rulesCcMarker_foreign : Foreign anchor declaredSkylib rulesCcMarker :=
  foreign_of_cuts anchor_last rfl (by decide +kernel) (by decide +kernel)

theorem not_return_of_all {text : List Char} (h : text.all (· != '\r') = true) :
    ∀ c ∈ text, c ≠ '\r' := by
  intro c hc
  exact bne_iff_ne.mp (List.all_eq_true.mp h c hc)

theorem inserted_not_return : ∀ c ∈ declaredRulesCc ++ proxied, c ≠ '\r' :=
  not_return_of_all (by decide +kernel)

end Words

section Composition

variable {file file' : List Char}

/-- The first patch leaves a file that declares Skylib, and says nothing about Rules CC. -/
theorem patchSkylib_ok (h : patchSkylib file = (.ok (), file')) :
    declaredSkylib <:+: universal file' ∧
      (rulesCcMarker <:+: universal file' ↔ rulesCcMarker <:+: universal file) ∧
      (pinnedRulesCc <:+: universal file' ↔ pinnedRulesCc <:+: universal file) := by
  rcases patchBazelSkylibArchive_ok h with ⟨hdeclared, rfl⟩ | hinserted
  · exact ⟨hdeclared, .rfl, .rfl⟩
  · have hreturn : ∀ c ∈ file', c ≠ '\r' := by
      intro c hc
      rcases hinserted.mem hc with hc | hc
      · exact universal_not_return c hc
      · have hall : declaredSkylib.all (· != '\r') = true := by decide +kernel
        exact not_return_of_all hall c hc
    rw [universal_eq_self hreturn]
    refine ⟨hinserted.infix_self, ?_, ?_⟩
    · constructor
      · exact hinserted.infix_of_foreign rulesCcMarker_foreign
      · exact hinserted.infix_of_survives rulesCcMarker_survives.1
    · constructor
      · exact hinserted.infix_of_foreign rulesCc_foreign.1
      · exact hinserted.infix_of_survives rulesCc_survives.1

/-- The second patch keeps the declaration of Skylib, and declares Rules CC if its
marker is new. -/
theorem patchRulesCc_ok (h : patchRulesCc file = (.ok (), file'))
    (hskylib : declaredSkylib <:+: universal file) :
    universal file' = file' ∧ declaredSkylib <:+: file' ∧ rulesCcMarker <:+: file' ∧
      proxyMarker <:+: file' ∧ (pinnedRulesCc <:+: file' ↔ Undrifted file) := by
  obtain ⟨source, hpredeclare, hproxy⟩ := patchRulesCcArchive_ok h
  have hsource : (∀ c ∈ source, c ≠ '\r') ∧ declaredSkylib <:+: source ∧
      rulesCcMarker <:+: source ∧ (pinnedRulesCc <:+: source ↔ Undrifted file) := by
    rcases hpredeclare with ⟨hmarker, rfl⟩ | ⟨hmarker, hinserted⟩
    · exact ⟨universal_not_return, hskylib, hmarker, by simp [Undrifted, hmarker]⟩
    · have hdeclared : declaredRulesCc <:+: source := hinserted.infix_self
      refine ⟨?_, hinserted.infix_of_survives skylib_survives.1 hskylib, ?_, ?_⟩
      · intro c hc
        rcases hinserted.mem hc with hc | hc
        · exact universal_not_return c hc
        · exact inserted_not_return c (List.mem_append_left _ hc)
      · exact List.IsInfix.trans ⟨['\n'], pinnedRulesCc, rfl⟩ hdeclared
      · have hpinned : pinnedRulesCc <:+: source :=
          List.IsInfix.trans ⟨'\n' :: rulesCcMarker, [], by rw [List.append_nil]; rfl⟩ hdeclared
        simp [Undrifted, hmarker, hpinned]
  obtain ⟨hreturn, hskylib, hmarker, hpinned⟩ := hsource
  rcases hproxy with ⟨hproxy, rfl⟩ | hinserted
  · exact ⟨universal_eq_self hreturn, hskylib, hmarker, hproxy, hpinned⟩
  · have hreturn' : ∀ c ∈ file', c ≠ '\r' := by
      intro c hc
      rcases hinserted.mem hc with hc | hc
      · exact hreturn c hc
      · exact inserted_not_return c (List.mem_append_right _ hc)
    refine ⟨universal_eq_self hreturn', hinserted.infix_of_survives skylib_survives.2 hskylib,
      hinserted.infix_of_survives rulesCcMarker_survives.2 hmarker, ?_, ?_⟩
    · exact List.IsInfix.trans ⟨['\n'], bootstrap, rfl⟩ hinserted.infix_self
    · rw [← hpinned]
      constructor
      · exact hinserted.infix_of_foreign rulesCc_foreign.2
      · exact hinserted.infix_of_survives rulesCc_survives.2

theorem patchWorkspace_ok (h : patchWorkspace file = (.ok (), file')) :
    ∃ t, patchSkylib file = (.ok (), t) ∧ patchRulesCc t = (.ok (), file') := by
  simp only [patchWorkspace, bind] at h
  rcases hskylib : patchSkylib file with ⟨e | ⟨⟩, t⟩
  · rw [hskylib] at h
    cases h
  · rw [hskylib] at h
    exact ⟨t, rfl, h⟩

/-- A patch that fails leaves the file as it is. Where both succeed, they do nothing
the next time, the file declares the pinned Skylib, and it declares the pinned Rules
CC exactly if it did not have the marker of an earlier patch without it. -/
theorem patchWorkspace_declares_iff (file : List Char) :
    (∀ e file', patchSkylib file = (.error e, file') → file' = file) ∧
    (∀ e file', patchRulesCc file = (.error e, file') → file' = file) ∧
    ∀ file', patchWorkspace file = (.ok (), file') →
      (Declares file' ∧ patchWorkspace file' = (.ok (), file') ↔ Undrifted file) := by
  refine ⟨fun e file' ↦ patchBazelSkylibArchive_error, fun e file' ↦ patchRulesCcArchive_error,
    fun file' h ↦ ?_⟩
  obtain ⟨t, hfirst, hsecond⟩ := patchWorkspace_ok h
  obtain ⟨hskylib, hmarker, hpinned⟩ := patchSkylib_ok hfirst
  obtain ⟨hreturn, hskylib', hmarker', hproxy', hrules⟩ := patchRulesCc_ok hsecond hskylib
  have hundrifted : Undrifted t ↔ Undrifted file := by
    rw [Undrifted, Undrifted, hmarker, hpinned]
  have hdeclares : pinnedSkylib <:+: file' :=
    List.IsInfix.trans ⟨'\n' :: skylibMarker, [], by rw [List.append_nil]; rfl⟩ hskylib'
  have hagain : patchWorkspace file' = (.ok (), file') := by
    rw [← hreturn] at hskylib' hmarker' hproxy'
    have hone : patchSkylib file' = (.ok (), file') := patchBazelSkylibArchive_again hskylib'
    have htwo : patchRulesCc file' = (.ok (), universal file') :=
      patchRulesCcArchive_again hmarker' hproxy'
    simp only [patchWorkspace, bind, hone, htwo, hreturn]
  rw [← hundrifted, ← hrules]
  constructor
  · intro hclaim
    exact hclaim.1.2
  · intro hfile
    exact ⟨⟨hdeclares, hfile⟩, hagain⟩

end Composition

namespace Scenario

def upstream : List Char := anchor ++ proxyAnchor

def cached : List Char := (patchRulesCcArchive (chars "0.2.17") rulesCcSha256 upstream).2

theorem upstream_declares : Declares (patchWorkspace upstream).2 :=
  (((patchWorkspace_declares_iff upstream).2.2 _ (by decide +kernel)).mpr (by decide +kernel)).1

/-- Both patches succeed on the cached file, and the pinned Rules CC is not in it. -/
theorem cached_accepted :
    patchWorkspace cached = (.ok (), (patchWorkspace cached).2) ∧
      ¬ Declares (patchWorkspace cached).2 := by
  unfold Declares
  constructor <;> decide +kernel

end Scenario

end LibLitertLm.Tool.Workspace
