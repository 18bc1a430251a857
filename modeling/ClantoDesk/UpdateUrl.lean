import ClantoDesk.ConfinedPaths
import ClantoDesk.Replacement

/-!
The URL from which an update is downloaded, src/updater.rs and src/clanto/linux_update.rs: it is
made from the URL of the release by replacing text, and then accepted only if the URL library reads
it as a file of a release of the configured repository. The library is a parameter; what is relied
on is how it reads plain path segments, as its documentation says.
-/
namespace ClantoDesk.UpdateUrl

open Text FileSystem ConfinedPaths Replacement

/-! ### Brands and assets -/

def isNameChar (c : Char) : Bool :=
  decide (97 ≤ c.toNat ∧ c.toNat ≤ 122) || decide (48 ≤ c.toNat ∧ c.toNat ≤ 57) || c == '-'

/-- The part of the brand that the names of a release depend on. -/
structure Brand where
  branded : Bool
  repo : Str
  filePrefix : Str
  repo_ne_nil : repo ≠ []
  repo_chars : repo.all isNameChar = true
  prefix_ne_nil : filePrefix ≠ []
  prefix_chars : filePrefix.all isNameChar = true

namespace Brand

def owner (b : Brand) : Str := if b.branded then "clantodesk".toList else "clanto".toList

end Brand

inductive Arch where
  | x86_64
  | aarch64

def Arch.text : Arch → Str
  | .x86_64 => "x86_64".toList
  | .aarch64 => "aarch64".toList

inductive Kind where
  | deb
  | rpm
  | rpmSuse

def PACKAGE : Str := "clantodesk".toList

/-- `asset_name` of the Linux service. -/
def assetName (kind : Kind) (version : Str) (arch : Arch) : Str :=
  match kind with
  | .deb => PACKAGE ++ '-' :: version ++ '-' :: arch.text ++ ".deb".toList
  | .rpm => PACKAGE ++ '-' :: version ++ '-' :: arch.text ++ ".rpm".toList
  | .rpmSuse => PACKAGE ++ '-' :: version ++ '-' :: arch.text ++ "-suse.rpm".toList

inductive Target where
  | windows (arch : Arch) (updateMsi : Bool)
  | windowsSciter
  | macos (arch : Arch)
  | linux (kind : Kind) (arch : Arch)

namespace Target

def fileName (b : Brand) (version : Str) : Target → Str
  | .windows arch updateMsi =>
    b.filePrefix ++ '-' :: version ++ '-' :: arch.text ++ '.' ::
      if updateMsi then "msi".toList else "exe".toList
  | .windowsSciter => b.filePrefix ++ '-' :: version ++ "-x86-sciter.exe".toList
  | .macos arch => b.filePrefix ++ '-' :: version ++ '-' :: arch.text ++ ".dmg".toList
  | .linux kind arch => assetName kind version arch

def downloadUrl (b : Brand) (target : Target) (updateUrl : Str) : Str :=
  let baseUrl := replaceAll "tag".toList "download".toList updateUrl
  let version := (baseUrl.splitOn '/').getLast?.getD []
  baseUrl ++ '/' :: target.fileName b version

end Target

/-! ### The check -/

/-- What the accessors of a parsed URL return. -/
structure Url where
  scheme : Str
  username : Str
  password : Option Str
  hostStr : Option Str
  port : Option ℕ
  pathSegments : Option (List Str)
  query : Option Str
  fragment : Option Str

namespace Url

/-- The text of a URL with a host and a path and nothing else. -/
def plain (scheme host : Str) (segments : List Str) : Url :=
  ⟨scheme, [], none, some host, none, some segments, none, none⟩

def plainText (scheme host : Str) (segments : List Str) : Str :=
  scheme ++ "://".toList ++ host ++ (segments.map fun s => '/' :: s).flatten

end Url

inductive Component where
  | rootDir
  | curDir
  | parentDir
  | normal (name : Str)

def component (name : Str) : Component :=
  if name = ['.'] then .curDir else if name = ['.', '.'] then .parentDir else .normal name

/-- `Path::components`, for paths that only slashes divide. -/
def pathComponents (path : Str) : List Component :=
  match path.splitOn '/' with
  | [] => []
  | first :: rest =>
    (if first ≠ [] then [component first] else if rest ≠ [] then [.rootDir] else []) ++
      (rest.filter fun name => !name.isEmpty && name ≠ ['.']).map component

def isPlainUpdateFilename (filename : Str) : Bool :=
  if filename = [] ∨ '/' ∈ filename ∨ '\\' ∈ filename ∨ ':' ∈ filename then false
  else
    match pathComponents filename with
    | [.normal name] => name == filename
    | _ => false

def githubPrefix : Str := "https://github.com/".toList

variable (parse : Str → Option Url)

def getUpdateDownloadFileFromUrl (b : Brand) (tempDir : Path) (url : Str) : Option Path :=
  match parse url with
  | none => none
  | some parsed =>
    if !githubPrefix.isPrefixOf url ∨ parsed.scheme ≠ "https".toList ∨
        parsed.hostStr ≠ some "github.com".toList ∨ parsed.username ≠ [] ∨
        parsed.password.isSome ∨ parsed.port.isSome ∨ parsed.query.isSome ∨
        parsed.fragment.isSome then none
    else
      match parsed.pathSegments with
      | some (owner :: repo :: releases :: download :: tag :: filename :: more) =>
        if owner ≠ b.owner ∨ repo ≠ b.repo ∨ releases ≠ "releases".toList ∨
            download ≠ "download".toList ∨ tag = [] ∨ more ≠ [] ∨
            !isPlainUpdateFilename filename then none
        else some (join tempDir filename)
      | _ => none

/-! ### What the URL library is relied on for -/

def dotSegments : List Str :=
  [".", "..", "%2e", "%2E", ".%2e", ".%2E", "%2e.", "%2E.", "%2e%2e", "%2e%2E", "%2E%2e",
    "%2E%2E"].map String.toList

def delimiters : List Char := ['/', '\\', '?', '#', '\t', '\n', '\r']

structure IsSegment (s : Str) : Prop where
  ne_nil : s ≠ []
  not_dots : s ∉ dotSegments
  chars : ∀ c ∈ s, c ∉ delimiters

def isHexDigit (c : Char) : Bool :=
  decide (48 ≤ c.toNat ∧ c.toNat ≤ 57) || decide (65 ≤ c.toNat ∧ c.toNat ≤ 70)

/-- A path of the host is read segment by segment, each character as it is or percent-encoded, as
long as white space does not end it. -/
structure ReadsPaths (encode : Char → Str) : Prop where
  encode_name : ∀ c, isNameChar c = true → encode c = [c]
  encode_ne_nil : ∀ c, encode c ≠ []
  encode_chars : ∀ c, ∀ d ∈ encode c, d = c ∨ d = '%' ∨ isHexDigit d = true
  parse_path : ∀ segments : List Str, (∀ s ∈ segments, IsSegment s) →
    (∃ init last, segments.getLast? = some (init ++ [last]) ∧ 32 < last.toNat) →
    parse (Url.plainText "https".toList "github.com".toList segments) =
      some (Url.plain "https".toList "github.com".toList
        (segments.map fun s => s.flatMap encode))

/-! ### The URL that is made -/

def releaseUrl (b : Brand) (tag : Str) : Str :=
  Url.plainText "https".toList "github.com".toList
    [b.owner, b.repo, "releases".toList, "tag".toList, tag]

def assetUrl (b : Brand) (tag filename : Str) : Str :=
  Url.plainText "https".toList "github.com".toList
    [b.owner, b.repo, "releases".toList, "download".toList, tag, filename]

/-- A tag that can be a part of a URL and of a file name, and that the replacement leaves alone. -/
structure PlainTag (tag : Str) : Prop where
  segment : IsSegment tag
  no_colon : ':' ∉ tag
  no_tag : ¬ "tag".toList <:+: tag

variable (c : Char) (encode : Char → Str) (b : Brand) (tempDir : Path) (target : Target)
  (s name tag : Str)

theorem replaceAll_segments (text : Str) (segments : List Str) :
    replaceAll "tag".toList "download".toList
        (text ++ (segments.map fun s => '/' :: s).flatten) =
      replaceAll "tag".toList "download".toList text ++
        ((segments.map (replaceAll "tag".toList "download".toList)).map fun s =>
          '/' :: s).flatten := by
  induction segments generalizing text with
  | nil => simp
  | cons s segments ih =>
    have hslash := replaceAll_append_cons "tag".toList "download".toList '/' text
      (s ++ (segments.map fun s => '/' :: s).flatten) (by decide) (by decide)
    simp only [List.map_cons, List.flatten_cons, List.cons_append]
    rw [hslash, ih s]

theorem not_tag_owner : ¬ "tag".toList <:+: b.owner := by
  unfold Brand.owner
  split
  · decide
  · decide

theorem replaceAll_releaseUrl (hrepo : ¬ "tag".toList <:+: b.repo) (htag : PlainTag tag) :
    replaceAll "tag".toList "download".toList (releaseUrl b tag) =
      Url.plainText "https".toList "github.com".toList
        [b.owner, b.repo, "releases".toList, "download".toList, tag] := by
  have hhost : replaceAll "tag".toList "download".toList
      ("https".toList ++ "://".toList ++ "github.com".toList) =
      "https".toList ++ "://".toList ++ "github.com".toList := by
    decide
  have hreleases : replaceAll "tag".toList "download".toList "releases".toList =
      "releases".toList := by
    decide
  have hdownload : replaceAll "tag".toList "download".toList "tag".toList =
      "download".toList := by
    decide
  unfold releaseUrl Url.plainText
  rw [replaceAll_segments, hhost]
  simp only [List.map_cons, List.map_nil, hreleases, hdownload,
    replaceAll_of_not_infix _ _ _ (not_tag_owner b), replaceAll_of_not_infix _ _ _ hrepo,
    replaceAll_of_not_infix _ _ _ htag.no_tag]

theorem getLast_splitOn (front last : Str) (hlast : '/' ∉ last) :
    ((front ++ '/' :: last).splitOn '/').getLast?.getD [] = last := by
  rw [List.splitOn_append_cons_self, List.splitOn_eq_singleton hlast]
  simp

theorem downloadUrl_releaseUrl (hrepo : ¬ "tag".toList <:+: b.repo) (htag : PlainTag tag) :
    target.downloadUrl b (releaseUrl b tag) = assetUrl b tag (target.fileName b tag) := by
  have hslash : '/' ∉ tag := fun hmem => htag.segment.chars '/' hmem (by decide)
  have hlast : ((Url.plainText "https".toList "github.com".toList
      [b.owner, b.repo, "releases".toList, "download".toList, tag]).splitOn '/').getLast?.getD [] =
      tag := by
    have hfront := getLast_splitOn (Url.plainText "https".toList "github.com".toList
      [b.owner, b.repo, "releases".toList, "download".toList]) tag hslash
    simpa [Url.plainText] using hfront
  unfold Target.downloadUrl
  simp only [replaceAll_releaseUrl b tag hrepo htag, hlast]
  simp [assetUrl, Url.plainText]

/-! ### File names -/

theorem pathComponents_of_no_slash (hne : name ≠ []) (hslash : '/' ∉ name) :
    pathComponents name = [component name] := by
  rw [pathComponents, List.splitOn_eq_singleton hslash]
  simp [hne]

theorem isPlainUpdateFilename_iff :
    isPlainUpdateFilename name = true ↔
      name ≠ [] ∧ '/' ∉ name ∧ '\\' ∉ name ∧ ':' ∉ name ∧ name ≠ ['.'] ∧ name ≠ ['.', '.'] := by
  unfold isPlainUpdateFilename
  split
  · rename_i hbad
    refine iff_of_false (by simp) ?_
    rintro ⟨hne, hslash, hback, hcolon, -⟩
    rcases hbad with h | h | h | h
    · exact hne h
    · exact hslash h
    · exact hback h
    · exact hcolon h
  · rename_i hgood
    push Not at hgood
    obtain ⟨hne, hslash, hback, hcolon⟩ := hgood
    rw [pathComponents_of_no_slash name hne hslash, component]
    by_cases hdot : name = ['.']
    · simp [hdot]
    · by_cases hdots : name = ['.', '.']
      · simp [hdots]
      · simp [hdot, hdots, hne, hslash, hback, hcolon]

def isFileChar (c : Char) : Bool := !delimiters.contains c && c != ':'

theorem isFileChar_iff : isFileChar c = true ↔ c ∉ delimiters ∧ c ≠ ':' := by
  simp [isFileChar]

theorem isFileChar_of_name (h : isNameChar c = true) : isFileChar c = true := by
  rw [isFileChar_iff]
  refine ⟨?_, ?_⟩
  · intro hmem
    simp only [delimiters, List.mem_cons, List.not_mem_nil, or_false] at hmem
    rcases hmem with rfl | rfl | rfl | rfl | rfl | rfl | rfl
    all_goals exact absurd h (by decide)
  · rintro rfl
    exact absurd h (by decide)

theorem isFileChar_of_tag (h : PlainTag tag) : ∀ c ∈ tag, isFileChar c = true := by
  intro c hc
  rw [isFileChar_iff]
  refine ⟨h.segment.chars c hc, ?_⟩
  rintro rfl
  exact h.no_colon hc

def named (front version back : Str) : Str := front ++ '-' :: version ++ back

def nameEnds : List Str :=
  ["-x86_64.exe", "-x86_64.msi", "-aarch64.exe", "-aarch64.msi", "-x86-sciter.exe", "-x86_64.dmg",
    "-aarch64.dmg", "-x86_64.deb", "-aarch64.deb", "-x86_64.rpm", "-aarch64.rpm",
    "-x86_64-suse.rpm", "-aarch64-suse.rpm"].map String.toList

theorem nameEnds_chars : ∀ back ∈ nameEnds, ∀ c ∈ back, isFileChar c = true := by
  have hends : nameEnds.all (fun back => back.all isFileChar) = true := by decide
  intro back hback
  exact List.all_eq_true.mp (List.all_eq_true.mp hends back hback)

theorem nameEnds_last : ∀ back ∈ nameEnds, ∃ last, back.getLast? = some last ∧ 32 < last.toNat := by
  have hends : ∀ back ∈ nameEnds, 32 < (back.getLast?.getD ' ').toNat := by decide
  intro back hback
  have hlast := hends back hback
  cases heq : back.getLast? with
  | none => simp [heq] at hlast
  | some last => exact ⟨last, rfl, by simpa [heq] using hlast⟩

theorem fileName_eq (version : Str) (target : Target) :
    ∃ front back, target.fileName b version = named front version back ∧ back ∈ nameEnds ∧
      ∀ c ∈ front, isNameChar c = true := by
  have hpackage : ∀ c ∈ PACKAGE, isNameChar c = true :=
    List.all_eq_true.mp (by decide)
  cases target with
  | windows arch updateMsi =>
    refine ⟨b.filePrefix, '-' :: arch.text ++ '.' ::
      (if updateMsi then "msi".toList else "exe".toList), ?_, ?_,
        List.all_eq_true.mp b.prefix_chars⟩
    · simp [Target.fileName, named]
    · cases arch
      all_goals cases updateMsi
      all_goals decide
  | windowsSciter => exact ⟨b.filePrefix, _, rfl, by decide, List.all_eq_true.mp b.prefix_chars⟩
  | macos arch =>
    refine ⟨b.filePrefix, '-' :: arch.text ++ ".dmg".toList, ?_, ?_,
      List.all_eq_true.mp b.prefix_chars⟩
    · simp [Target.fileName, named]
    · cases arch
      all_goals decide
  | linux kind arch =>
    cases kind with
    | deb =>
      refine ⟨PACKAGE, '-' :: arch.text ++ ".deb".toList, ?_, ?_, hpackage⟩
      · simp [Target.fileName, assetName, named]
      · cases arch
        all_goals decide
    | rpm =>
      refine ⟨PACKAGE, '-' :: arch.text ++ ".rpm".toList, ?_, ?_, hpackage⟩
      · simp [Target.fileName, assetName, named]
      · cases arch
        all_goals decide
    | rpmSuse =>
      refine ⟨PACKAGE, '-' :: arch.text ++ "-suse.rpm".toList, ?_, ?_, hpackage⟩
      · simp [Target.fileName, assetName, named]
      · cases arch
        all_goals decide

/-- The name of an asset of a plain tag: its characters, a dash among them, and its end. -/
theorem fileName_spec (htag : PlainTag tag) :
    (∀ c ∈ target.fileName b tag, isFileChar c = true) ∧ '-' ∈ target.fileName b tag ∧
      ∃ init last, target.fileName b tag = init ++ [last] ∧ 32 < last.toNat := by
  obtain ⟨front, back, hname, hback, hfront⟩ := fileName_eq b tag target
  rw [hname]
  refine ⟨?_, ?_, ?_⟩
  · intro c hc
    simp only [named, List.mem_append, List.mem_cons] at hc
    rcases hc with (hc | rfl | hc) | hc
    · exact isFileChar_of_name c (hfront c hc)
    · exact isFileChar_of_name '-' (by decide)
    · exact isFileChar_of_tag tag htag c hc
    · exact nameEnds_chars back hback c hc
  · simp [named]
  · obtain ⟨last, hlast, hvisible⟩ := nameEnds_last back hback
    obtain ⟨init, rfl⟩ := List.getLast?_eq_some_iff.mp hlast
    exact ⟨front ++ '-' :: tag ++ init, last, by simp [named], hvisible⟩

theorem dotSegments_no_dash : ∀ s ∈ dotSegments, '-' ∉ s := by decide

theorem dotSegments_mark : ∀ s ∈ dotSegments, '.' ∈ s ∨ '%' ∈ s := by decide

theorem isSegment_of_name (hne : s ≠ []) (hchars : ∀ c ∈ s, isNameChar c = true) : IsSegment s := by
  refine ⟨hne, ?_, fun c hc =>
    ((isFileChar_iff c).mp (isFileChar_of_name c (hchars c hc))).1⟩
  intro hdots
  rcases dotSegments_mark s hdots with hdot | hpercent
  · exact absurd (hchars '.' hdot) (by decide)
  · exact absurd (hchars '%' hpercent) (by decide)

theorem isSegment_fileName (htag : PlainTag tag) : IsSegment (target.fileName b tag) := by
  obtain ⟨hchars, hdash, -⟩ := fileName_spec b target tag htag
  refine ⟨List.ne_nil_of_mem hdash, ?_, fun c hc => ((isFileChar_iff c).mp (hchars c hc)).1⟩
  exact fun hdots => dotSegments_no_dash _ hdots hdash

/-! ### What is accepted -/

theorem accepted_iff (url : Str) (path : Path) :
    getUpdateDownloadFileFromUrl parse b tempDir url = some path ↔
      githubPrefix <+: url ∧ ∃ tag filename,
        parse url = some (Url.plain "https".toList "github.com".toList
          [b.owner, b.repo, "releases".toList, "download".toList, tag, filename]) ∧
        tag ≠ [] ∧ isPlainUpdateFilename filename = true ∧ path = join tempDir filename := by
  constructor
  · intro h
    unfold getUpdateDownloadFileFromUrl at h
    split at h
    · cases h
    · rename_i parsed hparse
      split at h
      · cases h
      · rename_i hgood
        push Not at hgood
        obtain ⟨hstart, hscheme, hhost, huser, hpassword, hport, hquery, hfragment⟩ := hgood
        split at h
        · rename_i owner repo releases download tag filename more hsegments
          split at h
          · cases h
          · rename_i hnames
            push Not at hnames
            obtain ⟨rfl, rfl, rfl, rfl, htag, rfl, hplain⟩ := hnames
            refine ⟨List.isPrefixOf_iff_prefix.mp (by simpa using hstart), tag, filename, ?_, htag,
              by simpa using hplain, (Option.some.inj h).symm⟩
            rw [hparse, Option.some.injEq]
            obtain ⟨scheme, username, password, hostStr, port, pathSegments, query, fragment⟩ :=
              parsed
            simp only [Option.not_isSome_iff_eq_none] at hpassword hport hquery hfragment
            simp only [Url.plain, Url.mk.injEq]
            exact ⟨hscheme, huser, hpassword, hhost, hport, hsegments, hquery, hfragment⟩
        · cases h
  · rintro ⟨hstart, tag, filename, hparse, htag, hplain, rfl⟩
    have hstarts := List.isPrefixOf_iff_prefix.mpr hstart
    unfold getUpdateDownloadFileFromUrl
    rw [hparse]
    simp [Url.plain, hstarts, htag, hplain]

theorem flatMap_encode_name (h : ReadsPaths parse encode) (s : Str)
    (hs : ∀ c ∈ s, isNameChar c = true) : s.flatMap encode = s := by
  induction s with
  | nil => rfl
  | cons c s ih =>
    obtain ⟨hc, hs⟩ := List.forall_mem_cons.mp hs
    rw [List.flatMap_cons, h.encode_name c hc, ih hs]
    rfl

theorem isPlain_encoded (h : ReadsPaths parse encode) (name : Str)
    (hchars : ∀ c ∈ name, isFileChar c = true) (hdash : '-' ∈ name) :
    isPlainUpdateFilename (name.flatMap encode) = true := by
  have hencoded : '-' ∈ name.flatMap encode := by
    rw [List.mem_flatMap]
    exact ⟨'-', hdash, by simp [h.encode_name '-' (by decide)]⟩
  have hnone : ∀ d, isFileChar d = false → d ≠ '%' → isHexDigit d = false →
      d ∉ name.flatMap encode := by
    intro d hfile hpercent hhex hmem
    obtain ⟨c, hc, hd⟩ := List.mem_flatMap.mp hmem
    rcases h.encode_chars c d hd with rfl | heq | heq
    · exact absurd (hchars d hc) (by simp [hfile])
    · exact hpercent heq
    · exact absurd heq (by simp [hhex])
  rw [isPlainUpdateFilename_iff]
  refine ⟨List.ne_nil_of_mem hencoded, ?_, ?_, ?_, ?_, ?_⟩
  · exact hnone '/' (by decide) (by decide) (by decide)
  · exact hnone '\\' (by decide) (by decide) (by decide)
  · exact hnone ':' (by decide) (by decide) (by decide)
  · intro heq
    rw [heq] at hencoded
    exact absurd hencoded (by decide)
  · intro heq
    rw [heq] at hencoded
    exact absurd hencoded (by decide)

theorem owner_chars : b.owner ≠ [] ∧ ∀ c ∈ b.owner, isNameChar c = true := by
  unfold Brand.owner
  split
  · exact ⟨by decide, List.all_eq_true.mp (by decide)⟩
  · exact ⟨by decide, List.all_eq_true.mp (by decide)⟩

theorem githubPrefix_eq :
    githubPrefix = "https".toList ++ "://".toList ++ "github.com".toList ++ ['/'] := by
  decide

theorem assetUrl_eq (filename : Str) :
    assetUrl b tag filename = githubPrefix ++ b.owner ++ ([b.repo, "releases".toList,
      "download".toList, tag, filename].map fun s => '/' :: s).flatten := by
  rw [githubPrefix_eq, assetUrl, Url.plainText, List.map_cons, List.flatten_cons]
  simp only [List.append_assoc, List.cons_append, List.nil_append]

theorem assetUrl_accepted (h : ReadsPaths parse encode) (b : Brand)
    (tempDir : Path) (target : Target) (tag : Str) (htag : PlainTag tag) :
    getUpdateDownloadFileFromUrl parse b tempDir (assetUrl b tag (target.fileName b tag)) =
      some (join tempDir ((target.fileName b tag).flatMap encode)) := by
  obtain ⟨hchars, hdash, init, last, hlast, hvisible⟩ := fileName_spec b target tag htag
  obtain ⟨hownerNe, howner⟩ := owner_chars b
  have hreleases : ∀ c ∈ "releases".toList, isNameChar c = true :=
    List.all_eq_true.mp (by decide)
  have hdownload : ∀ c ∈ "download".toList, isNameChar c = true :=
    List.all_eq_true.mp (by decide)
  have hread := h.parse_path
    [b.owner, b.repo, "releases".toList, "download".toList, tag, target.fileName b tag] (by
      intro s hs
      simp only [List.mem_cons, List.not_mem_nil, or_false] at hs
      rcases hs with rfl | rfl | rfl | rfl | rfl | rfl
      · exact isSegment_of_name _ hownerNe howner
      · exact isSegment_of_name _ b.repo_ne_nil (List.all_eq_true.mp b.repo_chars)
      · exact isSegment_of_name _ (by decide) hreleases
      · exact isSegment_of_name _ (by decide) hdownload
      · exact htag.segment
      · exact isSegment_fileName b target tag htag) ⟨init, last, by simp [hlast], hvisible⟩
  simp only [List.map_cons, List.map_nil, flatMap_encode_name parse encode h _ howner,
    flatMap_encode_name parse encode h _ (List.all_eq_true.mp b.repo_chars),
    flatMap_encode_name parse encode h _ hreleases,
    flatMap_encode_name parse encode h _ hdownload] at hread
  have hstart : githubPrefix <+: assetUrl b tag (target.fileName b tag) := by
    rw [assetUrl_eq, List.append_assoc]
    exact List.prefix_append githubPrefix _
  rw [accepted_iff]
  refine ⟨hstart, tag.flatMap encode, (target.fileName b tag).flatMap encode, hread, ?_,
    isPlain_encoded parse encode h _ hchars hdash, rfl⟩
  cases htagText : tag with
  | nil => exact absurd htagText htag.segment.ne_nil
  | cons c tag =>
    rw [List.flatMap_cons]
    exact List.append_ne_nil_of_left_ne_nil (h.encode_ne_nil c) _

theorem join_plain (h : isPlainUpdateFilename name = true) :
    components (join tempDir name) = components tempDir ++ [name] ∧
      FileSystem.fileName (join tempDir name) = some name := by
  obtain ⟨hne, hslash, -, -, hdot, hdots⟩ := (isPlainUpdateFilename_iff name).mp h
  have hrelative : isAbsolute name = false := by
    unfold isAbsolute
    simp only [decide_eq_false_iff_not]
    exact fun hhead => hslash (List.mem_of_head? hhead)
  have hsingle : components name = [name] := by
    unfold components
    rw [List.splitOn_eq_singleton hslash]
    simp [hne, hdot]
  have hjoined := (join_spec tempDir name hrelative).2
  rw [hsingle] at hjoined
  refine ⟨hjoined, ?_⟩
  rw [FileSystem.fileName, hjoined, List.getLast?_concat]
  simp [hdots]

/-- For every plain tag the download URL is that of an asset of the same release and is accepted.
Every URL that is accepted is read as a file of a release of the repository, and the path is that of
the file's name in the directory for downloads. -/
theorem update_urls (encode : Char → Str) (h : ReadsPaths parse encode) (b : Brand)
    (tempDir : Path) :
    (∀ (target : Target) (tag : Str), ¬ "tag".toList <:+: b.repo → PlainTag tag →
      target.downloadUrl b (releaseUrl b tag) = assetUrl b tag (target.fileName b tag) ∧
      getUpdateDownloadFileFromUrl parse b tempDir (target.downloadUrl b (releaseUrl b tag)) =
        some (join tempDir ((target.fileName b tag).flatMap encode))) ∧
    ∀ (url : Str) (path : Path), getUpdateDownloadFileFromUrl parse b tempDir url = some path →
      githubPrefix <+: url ∧ ∃ tag filename,
        parse url = some (Url.plain "https".toList "github.com".toList
          [b.owner, b.repo, "releases".toList, "download".toList, tag, filename]) ∧
        tag ≠ [] ∧
        (filename ≠ [] ∧ '/' ∉ filename ∧ '\\' ∉ filename ∧ ':' ∉ filename ∧
          filename ≠ ['.'] ∧ filename ≠ ['.', '.']) ∧
        path = join tempDir filename ∧ components path = components tempDir ++ [filename] ∧
        FileSystem.fileName path = some filename := by
  refine ⟨fun target tag hrepo htag => ?_, fun url path haccepted => ?_⟩
  · have hurl := downloadUrl_releaseUrl b target tag hrepo htag
    refine ⟨hurl, ?_⟩
    rw [hurl]
    exact assetUrl_accepted parse encode h b tempDir target tag htag
  · obtain ⟨hstart, tag, filename, hparse, htag, hplain, rfl⟩ :=
      (accepted_iff parse b tempDir url path).mp haccepted
    exact ⟨hstart, tag, filename, hparse, htag, (isPlainUpdateFilename_iff filename).mp hplain,
      rfl, join_plain tempDir filename hplain⟩

/-! ### A reader of paths -/

def hexDigit (n : ℕ) : Char := Char.ofNat (if n < 10 then 48 + n else 55 + n)

def percentEncoded (byte : UInt8) : Str :=
  ['%', hexDigit (byte.toNat / 16), hexDigit (byte.toNat % 16)]

def pathEncode (c : Char) : Str :=
  if c.toNat ≤ 32 ∨ 127 ≤ c.toNat ∨ c ∈ ['"', '#', '<', '>', '?', '{', '}', Char.ofNat 96] then
    (String.utf8EncodeChar c).flatMap percentEncoded
  else [c]

def pushSegment (path : List Str) (s : Str) : List Str :=
  if s = ['.', '.'] then path.dropLast
  else if s = ['.'] then path
  else path ++ [s.flatMap pathEncode]

def readPath (url : Str) : Option Url :=
  if githubPrefix.isPrefixOf url then
    some (Url.plain "https".toList "github.com".toList
      (((url.drop githubPrefix.length).splitOn '/').foldl pushSegment []))
  else none

theorem isHexDigit_hexDigit (n : ℕ) (h : n < 16) : isHexDigit (hexDigit n) = true := by
  have hall : ∀ k : Fin 16, isHexDigit (hexDigit k.val) = true := by
    decide
  exact hall ⟨n, h⟩

theorem mem_percentEncoded (byte : UInt8) (d : Char) (h : d ∈ percentEncoded byte) :
    d = '%' ∨ isHexDigit d = true := by
  have hbyte := byte.toNat_lt
  simp only [percentEncoded, List.mem_cons, List.not_mem_nil, or_false] at h
  rcases h with rfl | rfl | rfl
  · exact Or.inl rfl
  · exact Or.inr (isHexDigit_hexDigit _ (by omega))
  · exact Or.inr (isHexDigit_hexDigit _ (by omega))

theorem pathEncode_name (h : isNameChar c = true) : pathEncode c = [c] := by
  have hspecial : ∀ d ∈ ['"', '#', '<', '>', '?', '{', '}', Char.ofNat 96],
      (!isNameChar d) = true :=
    List.all_eq_true.mp (by decide)
  have hdash : '-'.toNat = 45 := by decide
  have hbounds : 32 < c.toNat ∧ c.toNat < 127 := by
    simp only [isNameChar, Bool.or_eq_true, decide_eq_true_eq, beq_iff_eq] at h
    rcases h with (h | h) | rfl
    · omega
    · omega
    · omega
  rw [pathEncode, if_neg]
  rintro (hlow | hhigh | hmem)
  · omega
  · omega
  · exact absurd h (by simpa using hspecial c hmem)

theorem foldl_pushSegment (segments path : List Str) (h : ∀ s ∈ segments, IsSegment s) :
    segments.foldl pushSegment path = path ++ segments.map fun s => s.flatMap pathEncode := by
  induction segments generalizing path with
  | nil => simp
  | cons s segments ih =>
    obtain ⟨hs, hsegments⟩ := List.forall_mem_cons.mp h
    have hdot : s ≠ ['.'] := by
      rintro rfl
      exact hs.not_dots (by decide)
    have hdots : s ≠ ['.', '.'] := by
      rintro rfl
      exact hs.not_dots (by decide)
    rw [List.foldl_cons, ih _ hsegments, pushSegment, if_neg hdots, if_neg hdot, List.map_cons,
      List.append_assoc, List.singleton_append]

theorem splitOn_segments (segments : List Str) (hs : '/' ∉ s) (h : ∀ t ∈ segments, '/' ∉ t) :
    (s ++ (segments.map fun t => '/' :: t).flatten).splitOn '/' = s :: segments := by
  induction segments generalizing s with
  | nil => simpa using List.splitOn_eq_singleton hs
  | cons t segments ih =>
    obtain ⟨ht, hsegments⟩ := List.forall_mem_cons.mp h
    rw [List.map_cons, List.flatten_cons, List.cons_append,
      List.splitOn_append_cons_self_of_not_mem hs, ih t ht hsegments]

theorem readPath_reads : ReadsPaths readPath pathEncode := by
  refine ⟨pathEncode_name, ?_, ?_, ?_⟩
  · intro c
    unfold pathEncode
    split
    · intro hnil
      cases hbytes : String.utf8EncodeChar c with
      | nil => exact String.utf8EncodeChar_ne_nil hbytes
      | cons byte bytes =>
        rw [hbytes, List.flatMap_cons] at hnil
        exact absurd (List.append_eq_nil_iff.mp hnil).1 (List.cons_ne_nil _ _)
    · exact List.cons_ne_nil _ _
  · intro c d hd
    unfold pathEncode at hd
    split at hd
    · obtain ⟨byte, -, hbyte⟩ := List.mem_flatMap.mp hd
      exact Or.inr (mem_percentEncoded byte d hbyte)
    · exact Or.inl (List.mem_singleton.mp hd)
  · rintro segments hsegments ⟨init, last, hlast, -⟩
    cases segments with
    | nil => simp at hlast
    | cons s segments =>
      have hslash : ∀ t ∈ s :: segments, '/' ∉ t := by
        intro t ht hmem
        exact (hsegments t ht).chars '/' hmem (by decide)
      obtain ⟨hs, hrest⟩ := List.forall_mem_cons.mp hslash
      have htext : Url.plainText "https".toList "github.com".toList (s :: segments) =
          githubPrefix ++ (s ++ (segments.map fun t => '/' :: t).flatten) := by
        rw [githubPrefix_eq, Url.plainText, List.map_cons, List.flatten_cons, List.cons_append,
          List.append_assoc _ ['/'], List.singleton_append]
      rw [htext, readPath, if_pos (List.isPrefixOf_iff_prefix.mpr (List.prefix_append _ _)),
        List.drop_left, splitOn_segments s segments hs hrest, foldl_pushSegment _ _ hsegments,
        List.nil_append]

def clanto : Brand :=
  ⟨false, "clantodesk-client".toList, "clantodesk".toList, by decide,
    by decide, by decide, by decide⟩

/-- A tag with a slash gives a URL that is refused, and a URL that leads through another repository
is accepted. -/
theorem update_urls_literal :
    getUpdateDownloadFileFromUrl readPath clanto "/tmp".toList
        (Target.downloadUrl clanto (.linux .deb .x86_64) (releaseUrl clanto "v1/2".toList)) = none ∧
      (getUpdateDownloadFileFromUrl readPath clanto "/tmp".toList
        ("https://github.com/x/../clanto/clantodesk-client/releases/".toList ++
          "download/1/f.exe".toList)).isSome = true ∧
      ∀ tag filename, assetUrl clanto tag filename ≠
        "https://github.com/x/../clanto/clantodesk-client/releases/".toList ++
          "download/1/f.exe".toList := by
  refine ⟨by decide, by decide, ?_⟩
  intro tag filename heq
  have hstart : githubPrefix ++ clanto.owner <+: assetUrl clanto tag filename := by
    rw [assetUrl_eq]
    exact List.prefix_append _ _
  rw [heq] at hstart
  exact absurd hstart (by decide)

theorem update_urls_first :
    getUpdateDownloadFileFromUrl readPath clanto "/tmp".toList
        (Target.downloadUrl clanto (.windows .x86_64 false) (releaseUrl clanto "1.5.0".toList)) =
      some "/tmp/clantodesk-1.5.0-x86_64.exe".toList := by
  have htag : PlainTag "1.5.0".toList := by
    have hchars : "1.5.0".toList.all isFileChar = true := by decide
    refine ⟨⟨by decide, by decide, fun c hc => ?_⟩, by decide, by decide⟩
    exact ((isFileChar_iff c).mp (List.all_eq_true.mp hchars c hc)).1
  have hurls := update_urls readPath pathEncode readPath_reads clanto "/tmp".toList
  rw [(hurls.1 (.windows .x86_64 false) "1.5.0".toList (by decide) htag).2]
  decide

end ClantoDesk.UpdateUrl
