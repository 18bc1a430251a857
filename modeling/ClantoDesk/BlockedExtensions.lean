import ClantoDesk.ConnectionManager
import ClantoDesk.FileTree
import ClantoDesk.Text

/-!
The list of blocked file extensions of the host, src/clanto/file_scan.rs, and the file actions of a
controller that pass it on their way to the connection manager, src/server/connection.rs. The list
is compared with the names in a request; what names appear on the disk follows from the
paths, the names of files in transfer, the quarantine and later renames. The audit
events of a refusal are left out, and so are actions that only read.
-/
namespace ClantoDesk.BlockedExtensions

open FileSystem TransferJob FileScan ConnectionManager
open TenantKeys (Bytes)
open Text (Str trim eqIgnoreAsciiCase)
open UnicodeCase (forall_mem_of_all)

def isSeparator (c : Char) : Bool := c == '/' || c == '\\'

def lastPart (name : Str) : Str := ((name.splitOnP isSeparator).getLast?).getD name

def trimEnd (name : Str) : Str := name.rdropWhile fun c => c == '.' || c == ' '

/-- The part after the last `sep`. -/
def afterLast (sep : Char) (s : Str) : Option Str :=
  if sep ∈ s then some (s.rtakeWhile fun c => c != sep) else none

def normalizedExtension (name : Str) : Option Str :=
  match afterLast '.' (trimEnd (lastPart name)) with
  | some extension => if extension.isEmpty then none else some (extension.map Char.toLower)
  | none => none

def extensionBlocked (name configured : Str) : Bool :=
  match normalizedExtension name with
  | none => false
  | some extension =>
    (configured.splitOn ',').any fun candidate =>
      eqIgnoreAsciiCase (trimEnd ((trim candidate).dropWhile fun c => c == '.')) extension

def incomingName (path entryName : Path) : Path := if entryName.isEmpty then path else entryName

inductive FileDirection
  | both | toHost | fromHost | none

def fileDirectionFrom (value : Str) : FileDirection :=
  let value := (trim value).map Char.toLower
  if value = "to-host".toList then .toHost
  else if value = "from-host".toList then .fromHost
  else if value = "none".toList then .none
  else .both

inductive TransferDirection
  | toHost | fromHost

def directionAllowed : FileDirection → TransferDirection → Bool
  | .both, _ => true
  | .toHost, .toHost => true
  | .fromHost, .fromHost => true
  | _, _ => false

inductive JobType
  | generic | printer
  deriving DecidableEq

structure ReceivedEntry where
  name : Path
  size : UInt64
  modifiedTime : UInt64

inductive FileAction
  | send (path : Path) (id fileNum : Int32) (fileType : JobType)
  | receive (path : Path) (id fileNum : Int32) (files : List ReceivedEntry) (totalSize : UInt64)
  | removeDir (path : Path) (id : Int32) (recursive : Bool)
  | removeFile (path : Path) (id fileNum : Int32)
  | create (path : Path) (id : Int32)
  | cancel (id : Int32)
  | sendConfirm (id fileNum : Int32) (answer : Option Confirm)
  | rename (path newName : Path) (id : Int32)
  | read

structure PolicyRejection where
  id : Int32
  fileNum : Int32
  message : String

def blockedDirectionMessage : String := "Trasferimento file bloccato dalla policy dell'host"

def blockedExtensionMessage : String := "File bloccato per estensione non consentita"

def rejectFileAction (direction configured : Str) (action : FileAction) : Option PolicyRejection :=
  let policy := fileDirectionFrom direction
  match action with
  | .send _ id fileNum fileType =>
    if fileType = .generic ∧ directionAllowed policy .fromHost = false then
      some ⟨id, fileNum, blockedDirectionMessage⟩
    else none
  | .receive path id fileNum files _ =>
    if directionAllowed policy .toHost = false then some ⟨id, fileNum, blockedDirectionMessage⟩
    else if files.any (fun entry => extensionBlocked (incomingName path entry.name) configured) ||
        (files.isEmpty && extensionBlocked path configured) then
      some ⟨id, fileNum, blockedExtensionMessage⟩
    else none
  | _ => none

/-- What of the session decides about a file action: whether it is one for files, whether the
printer may be used, whether the listing of a directory is put off, whether files go to the host
only, the jobs that read files for the controller, and the version of the controller. -/
structure Session where
  fileTransfer : Bool
  remotePrinter : Bool
  delayedReadDir : Bool
  oneWay : Bool
  readJobs : List Int32
  overwriteDetection : Bool
  connId : Int32

inductive Handled
  | ignored
  | refused (id : Int32) (text : String) (fileNum : Int32)
  | served
  | forwarded (message : Message)

def oneWayJob : FileAction → Option Int32
  | .send _ id _ _ => some id
  | .removeFile _ id _ => some id
  | .rename _ _ id => some id
  | .create _ id => some id
  | .removeDir _ id _ => some id
  | _ => none

def forwardAction (session : Session) : FileAction → Handled
  | .receive path id fileNum files totalSize =>
    .forwarded (.newWrite path id fileNum (files.map fun f => ⟨f.name, f.modifiedTime⟩)
      session.overwriteDetection totalSize session.connId)
  | .removeDir path id recursive => .forwarded (.removeDir path id recursive)
  | .removeFile path id fileNum => .forwarded (.removeFile path id fileNum)
  | .create path id => .forwarded (.createDir path id)
  | .cancel id => .forwarded (.cancelWrite id)
  | .sendConfirm id fileNum answer =>
    if id ∈ session.readJobs then .served else .forwarded (.sendConfirm id fileNum answer)
  | .rename path newName id => .forwarded (.rename path newName id)
  | .send _ _ _ _ => .served
  | .read => .served

/-- The branch for a file action in `on_message`. -/
def onFileAction (direction configured : Str) (session : Session) (action : FileAction) : Handled :=
  let prints : Bool :=
    match action with
    | .send _ _ _ .printer => session.remotePrinter
    | _ => false
  if !session.fileTransfer && !prints then .ignored
  else
    match rejectFileAction direction configured action with
    | some rejection => .refused rejection.id rejection.message rejection.fileNum
    | none =>
      if session.delayedReadDir then .ignored
      else
        match if session.oneWay then oneWayJob action else none with
        | some id => .refused id "one-way-file-transfer-tip" 0
        | none => forwardAction session action

inductive FileResponse
  | block (block : Block)
  | done (id fileNum : Int32)
  | digest (id fileNum : Int32) (fileSize lastModified : UInt64) (isResume : Bool)
  | error (id fileNum : Int32) (error : String)

def onFileResponse : FileResponse → Message
  | .block block => .writeBlock block
  | .done id fileNum => .writeDone id fileNum
  | .digest id fileNum fileSize lastModified isResume =>
    .checkDigest id fileNum fileSize lastModified true isResume
  | .error id fileNum error => .writeError id fileNum error

inductive Event
  | action (session : Session) (action : FileAction)
  | response (response : FileResponse)
  | close

def Event.message (direction configured : Str) : Event → Option Message
  | .action session wanted =>
    match onFileAction direction configured session wanted with
    | .forwarded message => some message
    | _ => none
  | .response answer => some (onFileResponse answer)
  | .close => some .close

def step (lib : Libraries) (mode : ScanMode) (direction configured : Str) (s : Manager)
    (event : ScanEnv × Event) : Option Manager :=
  match event.2.message direction configured with
  | some message => some (handleFs lib mode event.1 message s)
  | none => some s

def lastName (p : Location) : Name := p.getLast?.getD []

section Names

/-- What follows the last place where `p` holds. -/
theorem getLast?_splitOnP (p : Char → Bool) (s : Str) :
    (s.splitOnP p).getLast? = some (s.rtakeWhile fun c => !p c) := by
  have hsplit : s.rdropWhile (fun c => !p c) ++ s.rtakeWhile (fun c => !p c) = s :=
    List.rdropWhile_append_rtakeWhile
  have hnone : ∀ c ∈ s.rtakeWhile fun c => !p c, p c = false := by
    intro c hc
    simpa using List.mem_rtakeWhile_imp hc
  have hsingle : (s.rtakeWhile fun c => !p c).splitOnP p = [s.rtakeWhile fun c => !p c] :=
    List.splitOnP_eq_singleton (by simpa using hnone)
  rcases List.eq_nil_or_concat (s.rdropWhile fun c => !p c) with hnil | ⟨before, c, hbefore⟩
  · rw [hnil, List.nil_append] at hsplit
    rw [hsplit] at hsingle
    rw [hsingle, hsplit]
    rfl
  · have hlast := List.rdropWhile_last_not (fun c => !p c) s (by rw [hbefore]; simp)
    have hc : p c = true := by simpa [hbefore] using hlast
    rw [hbefore, List.concat_eq_append, List.append_assoc, List.singleton_append] at hsplit
    rw [← hsplit, List.splitOnP_append_cons _ _ hc, hsplit, hsingle]
    simp

theorem lastPart_eq (name : Str) : lastPart name = name.rtakeWhile fun c => !isSeparator c := by
  rw [lastPart, getLast?_splitOnP]
  rfl

theorem lastSegment_eq (path : Path) : lastSegment path = path.rtakeWhile fun c => !(c == '/') := by
  rw [lastSegment, List.getLastD_eq_getLast?, List.splitOn, getLast?_splitOnP]
  rfl

theorem rtakeWhile_append_of_pos (p : Char → Bool) (s t : Str) (ht : ∀ c ∈ t, p c = true) :
    (s ++ t).rtakeWhile p = s.rtakeWhile p ++ t := by
  rw [List.rtakeWhile, List.rtakeWhile, List.reverse_append,
    List.takeWhile_append_of_pos (by simpa),
    List.reverse_append, List.reverse_reverse]

theorem normalizedExtension_lastSegment (path : Path) :
    normalizedExtension (lastSegment path) = normalizedExtension path := by
  have hpart : lastPart (lastSegment path) = lastPart path := by
    rw [lastPart_eq, lastPart_eq, lastSegment_eq, List.rtakeWhile, List.rtakeWhile, List.rtakeWhile,
      List.reverse_reverse, List.takeWhile_takeWhile]
    congr 2
    funext c
    cases hslash : c == '/' <;> simp [isSeparator, hslash, beq_eq_decide]
  rw [normalizedExtension, normalizedExtension, hpart]

theorem afterLast_append (before after : Str) (hafter : '.' ∈ after) :
    afterLast '.' (before ++ after) = afterLast '.' after := by
  have hsplit : after.rdropWhile (fun c => c != '.') ++ after.rtakeWhile (fun c => c != '.') =
      after :=
    List.rdropWhile_append_rtakeWhile
  have hrest : ∀ s : Str, (s ++ after).rtakeWhile (fun c => c != '.') =
      after.rtakeWhile fun c => c != '.' := by
    intro s
    rcases List.eq_nil_or_concat (after.rdropWhile fun c => c != '.') with hnil | ⟨x, c, hx⟩
    · rw [hnil, List.nil_append, List.rtakeWhile_eq_self_iff] at hsplit
      exact absurd (hsplit '.' hafter) (by simp)
    · have hlast := List.rdropWhile_last_not (fun c => c != '.') after (by rw [hx]; simp)
      rw [hx, List.concat_eq_append] at hsplit
      have hdot : ¬ (c != '.') = true := by simpa [hx] using hlast
      conv_lhs => rw [← hsplit]
      rw [← List.append_assoc, ← List.append_assoc, rtakeWhile_append_of_pos _ _ _ ?_,
        List.rtakeWhile_concat_neg (fun c => c != '.') _ _ hdot, List.nil_append]
      intro y hy
      exact List.mem_rtakeWhile_imp (p := fun c => c != '.') hy
  rw [afterLast, afterLast, if_pos (List.mem_append_right _ hafter), if_pos hafter, hrest before]

theorem trimEnd_append_nil (s t : Str) (ht : trimEnd t = []) : trimEnd (s ++ t) = trimEnd s := by
  rw [trimEnd, List.rdropWhile_eq_nil_iff] at ht
  rw [trimEnd, trimEnd, List.rdropWhile, List.rdropWhile, List.reverse_append,
    List.dropWhile_append_of_pos (by simpa using ht)]

theorem trimEnd_append (s t : Str) (ht : trimEnd t ≠ []) : trimEnd (s ++ t) = s ++ trimEnd t := by
  rw [trimEnd, List.rdropWhile] at ht
  rw [trimEnd, trimEnd, List.rdropWhile, List.rdropWhile, List.reverse_append,
    List.dropWhile_append,
    if_neg (by simpa using ht), List.reverse_append, List.reverse_reverse]

theorem normalizedExtension_append (name extension : Str) (hne : extension ≠ [])
    (hplain : ∀ c ∈ extension, c ≠ '.' ∧ c ≠ ' ' ∧ isSeparator c = false) :
    normalizedExtension (name ++ '.' :: extension) = some (extension.map Char.toLower) := by
  have hparts : lastPart (name ++ '.' :: extension) = lastPart name ++ '.' :: extension := by
    rw [lastPart_eq, lastPart_eq]
    refine rtakeWhile_append_of_pos _ _ _ ?_
    intro c hc
    rcases List.mem_cons.mp hc with rfl | hmem
    · rfl
    · simp [(hplain c hmem).2.2]
  have htrim : trimEnd (lastPart name ++ '.' :: extension) = lastPart name ++ '.' :: extension := by
    rw [trimEnd, List.rdropWhile_eq_self_iff]
    intro hnil
    rw [List.getLast_append_of_ne_nil _ (by simp), List.getLast_cons hne]
    obtain ⟨hdot, hblank, -⟩ := hplain _ (List.getLast_mem hne)
    simp [hdot, hblank]
  have hself : afterLast '.' ('.' :: extension) = some extension := by
    have hall : ∀ c ∈ extension, (c != '.') = true := fun c hc => by simp [(hplain c hc).1]
    rw [afterLast, if_pos List.mem_cons_self]
    have hsuffix := rtakeWhile_append_of_pos (fun c => c != '.') ['.'] extension hall
    rw [List.singleton_append] at hsuffix
    rw [hsuffix]
    rfl
  rw [normalizedExtension, hparts, htrim, afterLast_append _ _ List.mem_cons_self, hself]
  simp [hne]

/-- Text without dots before a name does not change its extension. -/
theorem normalizedExtension_prepend (before name : Str) (c : Char) (hc : c ≠ '.' ∧ c ≠ ' ')
    (hbefore : ∀ x ∈ before ++ [c], x ≠ '.' ∧ isSeparator x = false)
    (hname : ∀ x ∈ name, isSeparator x = false) :
    normalizedExtension (before ++ c :: name) = normalizedExtension name := by
  have hwhole : ∀ s : Str, (∀ x ∈ s, isSeparator x = false) → lastPart s = s := by
    intro s hs
    rw [lastPart_eq, List.rtakeWhile_eq_self_iff]
    intro x hx
    simp [hs x hx]
  have hall : ∀ x ∈ before ++ c :: name, isSeparator x = false := by
    intro x hx
    rw [← List.singleton_append, ← List.append_assoc] at hx
    rcases List.mem_append.mp hx with hleft | hright
    · exact (hbefore x hleft).2
    · exact hname x hright
  have hnodot : '.' ∉ before ++ [c] := fun hmem => (hbefore '.' hmem).1 rfl
  have htrim : trimEnd (before ++ [c]) = before ++ [c] := by
    rw [trimEnd, List.rdropWhile_concat_neg]
    simp [hc.1, hc.2]
  have hafter : afterLast '.' (trimEnd (before ++ [c] ++ name)) = afterLast '.' (trimEnd name) := by
    by_cases hnil : trimEnd name = []
    · rw [trimEnd_append_nil _ _ hnil, htrim, hnil, afterLast, if_neg hnodot]
      rfl
    · rw [trimEnd_append _ _ hnil]
      by_cases hdot : '.' ∈ trimEnd name
      · exact afterLast_append _ _ hdot
      · rw [afterLast, afterLast, if_neg hdot, if_neg]
        exact fun hmem => (List.mem_append.mp hmem).elim hnodot hdot
  rw [← List.singleton_append, ← List.append_assoc] at hall ⊢
  rw [normalizedExtension, normalizedExtension, hwhole _ hall, hwhole _ hname, hafter]

end Names

theorem extensionBlocked_congr {a b : Str} (h : normalizedExtension a = normalizedExtension b)
    (configured : Str) : extensionBlocked a configured = extensionBlocked b configured := by
  rw [extensionBlocked, extensionBlocked, h]

theorem extensionBlocked_incomingName (path name : Path) (configured : Str) :
    extensionBlocked (incomingName path name) configured =
      extensionBlocked (lastSegment (joinName path name)) configured := by
  refine extensionBlocked_congr ?_ configured
  unfold incomingName joinName
  split
  · exact (normalizedExtension_lastSegment path).symm
  · rw [lastSegment_join, normalizedExtension_lastSegment]

theorem extensionBlocked_suffix (name : Path) {suffix : Path}
    (hsuffix : suffix = downloadSuffix ∨ suffix = digestSuffix) (configured : Str) :
    extensionBlocked (name ++ suffix) configured = extensionBlocked suffix configured := by
  refine extensionBlocked_congr ?_ configured
  rcases hsuffix with rfl | rfl
  · have hplain : ∀ c ∈ "download".toList, c ≠ '.' ∧ c ≠ ' ' ∧ isSeparator c = false :=
      forall_mem_of_all _ _ (by decide)
    exact (normalizedExtension_append name _ (by decide) hplain).trans
      (normalizedExtension_append [] _ (by decide) hplain).symm
  · have hplain : ∀ c ∈ "digest".toList, c ≠ '.' ∧ c ≠ ' ' ∧ isSeparator c = false :=
      forall_mem_of_all _ _ (by decide)
    exact (normalizedExtension_append name _ (by decide) hplain).trans
      (normalizedExtension_append [] _ (by decide) hplain).symm

/-- The hash is written in letters and digits. -/
def HashText (lib : Libraries) : Prop := ∀ data, ∀ c ∈ lib.sha256 data, c.isAlphanum = true

def IsHash (lib : Libraries) (sha256 : List Char) : Prop :=
  sha256 = [] ∨ ∃ data, sha256 = lib.sha256 data

def quarantineName (timestamp : ℕ) (sha256 : List Char) (name : Path) : Name :=
  (toString timestamp).toList ++ '-' :: (if sha256.isEmpty then "sha256-unavailable".toList else
    sha256) ++
    '-' :: safeQuarantineBasename name

theorem safeQuarantineBasename_char (name : Path) :
    ∀ c ∈ safeQuarantineBasename name, isSeparator c = false := by
  intro c hc
  unfold safeQuarantineBasename at hc
  simp only at hc
  split at hc
  · have hfixed : ∀ c ∈ "file".toList, isSeparator c = false :=
      forall_mem_of_all _ _ (by decide)
    exact hfixed c hc
  · obtain ⟨x, -, rfl⟩ := List.mem_map.mp (List.mem_of_mem_take hc)
    split
    · rename_i hplain
      cases hsep : isSeparator x with
      | false => rfl
      | true =>
        rw [isSeparator, Bool.or_eq_true, beq_iff_eq, beq_iff_eq] at hsep
        rcases hsep with rfl | rfl <;> cases hplain
    · decide

theorem plain_of_alphanum {c : Char} (h : c.isAlphanum = true) :
    c ≠ '.' ∧ isSeparator c = false := by
  constructor
  · rintro rfl
    cases h
  · cases hsep : isSeparator c with
    | false => rfl
    | true =>
      rw [isSeparator, Bool.or_eq_true, beq_iff_eq, beq_iff_eq] at hsep
      rcases hsep with rfl | rfl <;> cases h

theorem quarantineName_before (timestamp : ℕ) {lib : Libraries} (hlib : HashText lib)
    {sha256 : List Char} (hsha : IsHash lib sha256) :
    ∀ c ∈ (toString timestamp).toList ++
        '-' :: (if sha256.isEmpty then "sha256-unavailable".toList else sha256),
      c ≠ '.' ∧ isSeparator c = false := by
  intro c hc
  rcases List.mem_append.mp hc with htime | hrest
  · have hdigits : c ∈ Nat.toDigits 10 timestamp := by simpa [toString, Nat.repr] using htime
    have hdigit := Nat.isDigit_of_mem_toDigits (by omega) (by omega) hdigits
    exact plain_of_alphanum (by simp [Char.isAlphanum, hdigit])
  · rcases List.mem_cons.mp hrest with rfl | hhash
    · decide
    · split at hhash
      · have hfixed : ∀ c ∈ "sha256-unavailable".toList, c ≠ '.' ∧ isSeparator c = false :=
          forall_mem_of_all _ _ (by decide)
        exact hfixed c hhash
      · rename_i hsome
        rcases hsha with rfl | ⟨data, rfl⟩
        · exact absurd rfl hsome
        · exact plain_of_alphanum (hlib data c hhash)

section Quarantine

variable {lib : Libraries} (hlib : HashText lib) {sha256 : List Char} (hsha : IsHash lib sha256)

include hlib hsha

theorem extensionBlocked_quarantineName (timestamp : ℕ) (name : Path) (configured : Str) :
    extensionBlocked (quarantineName timestamp sha256 name) configured =
      extensionBlocked (safeQuarantineBasename name) configured := by
  refine extensionBlocked_congr ?_ configured
  refine normalizedExtension_prepend _ _ '-' (by decide) ?_ (safeQuarantineBasename_char name)
  intro c hc
  rcases List.mem_append.mp hc with hbefore | hdash
  · exact quarantineName_before timestamp hlib hsha c hbefore
  · obtain rfl := List.mem_singleton.mp hdash
    decide

theorem quarantineName_slash (timestamp : ℕ) (name : Path) :
    '/' ∉ quarantineName timestamp sha256 name := by
  intro hslash
  rcases List.mem_append.mp hslash with hbefore | hname
  · exact absurd (quarantineName_before timestamp hlib hsha '/' hbefore).2 (by decide)
  · rcases List.mem_cons.mp hname with heq | hbase
    · exact absurd heq (by decide)
    · exact absurd (safeQuarantineBasename_char name '/' hbase) (by decide)

theorem lastSegment_quarantinePath (env : ScanEnv) (download : CompletedDownload) :
    lastSegment (quarantinePath lib env download sha256) =
      quarantineName env.timestamp sha256 download.name := by
  have hpath : quarantinePath lib env download sha256 =
      join lib.quarantineDir (quarantineName env.timestamp sha256 download.name) := rfl
  rw [hpath, lastSegment_join, lastSegment_eq, List.rtakeWhile_eq_self_iff]
  intro c hc
  have hne : c ≠ '/' := by
    rintro rfl
    exact quarantineName_slash hlib hsha env.timestamp download.name hc
  simpa using hne

end Quarantine

/-- The name is one that the transfer gives to files of its own. -/
def Reserved (lib : Libraries) (name : Name) : Prop :=
  downloadSuffix <:+ name ∨ digestSuffix <:+ name ∨
    ∃ timestamp sha256 base, IsHash lib sha256 ∧ name = quarantineName timestamp sha256 base

def EntryOld (lib : Libraries) (configured : Str) (initial : Disk File) (p : Location) :
    Node File → Prop
  | .dir => True
  | .link _ => ¬ Reserved lib (lastName p)
  | .file inode _ => extensionBlocked (lastName p) configured = true →
      ∃ q f, initial.get q = some (.file inode f) ∧ lastName q = lastName p

theorem lastName_concat (r : Location) (name : Name) : lastName (r ++ [name]) = name := by
  rw [lastName, List.getLast?_concat]
  rfl

theorem lastName_append (p rest : Location) (hrest : rest ≠ []) :
    lastName (p ++ rest) = lastName rest := by
  rw [lastName, lastName, List.getLast?_append_of_ne_nil p hrest]

/-- The names that a job gives to files do not have a blocked extension, nor would they in the
quarantine. -/
structure EntryAccepted (mode : ScanMode) (configured : Str) (base name : Path) : Prop where
  final : extensionBlocked (lastSegment (joinName base name)) configured = false
  quarantined : mode = .block → extensionBlocked (safeQuarantineBasename
    (if name.isEmpty then (fileName (joinName base name)).getD [] else name)) configured = false

def JobAccepted (mode : ScanMode) (configured : Str) (job : Job) : Prop :=
  ∀ entry ∈ job.files, EntryAccepted mode configured job.base entry.name

section Disks

variable {lib : Libraries} {configured : Str} {initial : Disk File} {d : Disk File} {env : Env}

theorem EntryOld.of_unblocked {p : Location} {inode : ℕ} {f : File}
    (h : extensionBlocked (lastName p) configured = false) :
    EntryOld lib configured initial p (.file inode f) := by
  intro hblocked
  rw [h] at hblocked
  cases hblocked

/-- Nothing about a file but where it stands matters. -/
theorem EntryOld.content {p : Location} {inode : ℕ} {f : File} (g : File)
    (h : EntryOld lib configured initial p (.file inode f)) :
    EntryOld lib configured initial p (.file inode g) := h

variable (hd : d.Each (EntryOld lib configured initial))

include hd

theorem resolve_own {path suffix : Path} {follow : Bool} {q : Location}
    (hsuffix : suffix = downloadSuffix ∨ suffix = digestSuffix)
    (hq : d.resolve env.os.cwd follow (path ++ suffix) = .at q) :
    ∃ r c, q = r ++ [c ++ suffix] := by
  have hslash : '/' ∉ suffix := by rcases hsuffix with rfl | rfl <;> decide
  have hlong : 2 < suffix.length := by rcases hsuffix with rfl | rfl <;> decide
  refine d.resolve_suffix suffix hslash hlong ?_ env.os.cwd follow path q hq
  intro p c target hget
  have hlink := hd _ _ (d.mem_of_get _ _ (by simp) hget)
  refine hlink ?_
  rw [lastName_concat]
  rcases hsuffix with rfl | rfl
  · exact Or.inl (List.suffix_append _ _)
  · exact Or.inr (Or.inl (List.suffix_append _ _))

theorem each_create_own (hown : extensionBlocked downloadSuffix configured = false ∧
      extensionBlocked digestSuffix configured = false) {path suffix : Path}
    (hsuffix : suffix = downloadSuffix ∨ suffix = digestSuffix) {content : File} {t : Disk File}
    {inode : ℕ} (hcreate : d.create env.os (path ++ suffix) content = some (t, inode)) :
    t.Each (EntryOld lib configured initial) := by
  refine hd.create hcreate ?_
  intro p j hp
  obtain ⟨r, c, rfl⟩ := resolve_own hd hsuffix hp
  refine EntryOld.of_unblocked ?_
  rw [lastName_concat, extensionBlocked_suffix c hsuffix]
  rcases hsuffix with rfl | rfl
  · exact hown.1
  · exact hown.2

/-- A rename, if the entry it moves may have the new name. -/
theorem each_rename {src dst : Path} {t : Disk File} (hrename : d.rename env.os src dst = some t)
    (hmoved : ∀ p r node, d.resolve env.os.cwd false src = .at p → d.get p = some node →
      node ≠ .dir → EntryOld lib configured initial (r ++ [lastSegment dst]) node) :
    t.Each (EntryOld lib configured initial) := by
  refine hd.rename hrename ?_ ?_
  · intro p q rest node hroot hp _ hdir hmem
    by_cases hrest : rest = []
    · subst hrest
      rw [List.append_nil] at hmem ⊢
      obtain rfl := Option.some.inj ((d.get_of_mem p node hroot hmem).symm.trans hdir)
      exact trivial
    · have hold := hd _ _ hmem
      unfold EntryOld at hold ⊢
      rw [lastName_append p rest hrest] at hold
      rw [lastName_append q rest hrest]
      exact hold
  · intro p q node hp hq hends hnode hget
    obtain ⟨r, rfl⟩ := d.resolve_last hends (fun hfollow => by cases hfollow) hq
    exact hmoved p r node hp hget hnode

theorem each_moved {path dst : Path} {t : Disk File}
    (hdst : extensionBlocked (lastSegment dst) configured = false)
    (hrename : d.rename env.os (path ++ downloadSuffix) dst = some t) :
    t.Each (EntryOld lib configured initial) := by
  refine each_rename hd hrename ?_
  intro p r node hp hget hnode
  cases node with
  | dir => exact absurd rfl hnode
  | link target =>
    obtain ⟨r', c, rfl⟩ := resolve_own hd (Or.inl rfl) hp
    refine absurd ?_ (hd _ _ (d.mem_of_get _ _ (by simp) hget))
    rw [lastName_concat]
    exact Or.inl (List.suffix_append _ _)
  | file inode f =>
    refine EntryOld.of_unblocked ?_
    rwa [lastName_concat]

end Disks

section Worlds

variable {lib : Libraries} {configured : Str} {initial : Disk File} {mode : ScanMode} {env : Env}
  {job : Job} {w : World}

theorem JobAccepted.entryPath (h : JobAccepted mode configured job) {d : Disk File} {path : Path}
    (hpath : job.entryPath env d = some path) :
    extensionBlocked (lastSegment path) configured = false := by
  obtain ⟨entry, hentry, rfl⟩ := entryPath_eq hpath
  exact (h entry (List.mem_of_getElem? hentry)).final

variable (hw : w.disk.Each (EntryOld lib configured initial))

include hw

theorem each_setFileMtime (path : Path) (seconds : UInt64) :
    (w.setFileMtime env path seconds).disk.Each (EntryOld lib configured initial) := by
  unfold World.setFileMtime
  split
  · exact hw.update _ _ fun p f hmem => hw p (.file _ f) hmem
  · exact hw

variable (env) in
theorem each_modifyTime (hjob : JobAccepted mode configured job) :
    (modifyTime env job w).disk.Each (EntryOld lib configured initial) := by
  unfold modifyTime
  split
  · rename_i entry path _ hpath
    refine each_setFileMtime ?_ path _
    have hremoved : (w.removeFile env (path ++ digestSuffix)).disk.Each
        (EntryOld lib configured initial) := hw.removeFile _
    unfold World.rename World.put
    cases hrename : (w.removeFile env (path ++ digestSuffix)).disk.rename env.os
        (path ++ downloadSuffix) path with
    | none => exact hremoved
    | some t => exact each_moved hremoved (hjob.entryPath hpath) hrename
  · exact hw

theorem each_openDownload (codecs : Codecs) (name : Path)
    (hown : extensionBlocked downloadSuffix configured = false ∧
      extensionBlocked digestSuffix configured = false) :
    (openDownload env codecs job w name).1.disk.Each (EntryOld lib configured initial) := by
  unfold openDownload
  split
  · exact hw
  · rename_i path _
    have hparents := hw.createParents (fun _ => trivial) env.os path
    simp only
    split
    · exact hparents
    · generalize hcleared : (if env.pathExists (w.put (w.disk.createParents env.os path)).disk
        (path ++ digestSuffix) = true then _ else _) = w'
      have hw' : w'.disk.Each (EntryOld lib configured initial) := by
        rw [← hcleared]
        split
        · exact hparents.removeFile _
        · exact hparents
      split
      · exact hw'
      · rename_i d inode hcreate
        have hd := each_create_own hw' hown (Or.inl rfl) hcreate
        generalize (⟨codecs.digestJson job.digest.size job.digest.modified, env.now, .host⟩ :
          File) =
          digest
        cases hwritten : (w'.put d).disk.create env.os (path ++ digestSuffix) digest with
        | none => exact hd
        | some written => exact each_create_own hd hown (Or.inr rfl) hwritten

variable (env job) in
theorem each_writeAll (closed : String) (data : Bytes) :
    (writeAll env closed data job w).1.disk.Each (EntryOld lib configured initial) := by
  unfold writeAll
  split
  · exact hw
  · exact hw
  · exact hw.update _ _ fun p f hmem => hw p (.file _ f) hmem

theorem each_write (codecs : Codecs) (block : Block) (hjob : JobAccepted mode configured job)
    (hown : extensionBlocked downloadSuffix configured = false ∧
      extensionBlocked digestSuffix configured = false) :
    (write env codecs block job w).1.disk.Each (EntryOld lib configured initial) := by
  unfold write
  split
  · exact hw
  · split
    · exact hw
    · rename_i entry hentry
      simp only
      generalize hopened : (if toIndex block.fileNum ≠ toIndex job.fileNum ∨ job.dataStream = none
        then _ else _) = opened
      have hbegun : opened.1.disk.Each (EntryOld lib configured initial) := by
        rw [← hopened]
        split
        · have hmodified := each_modifyTime env hw hjob
          split
          · exact hmodified
          · exact each_openDownload hmodified codecs entry.name hown
        · exact hw
      obtain ⟨w', job', error⟩ := opened
      cases error with
      | some text => exact hbegun
      | none =>
        have hwritten := each_writeAll env job' hbegun
          (if block.compressed then "data stream is None" else "file is None")
          (if block.compressed then codecs.decompress block.data else block.data)
        simp only
        split
        · rename_i heq
          rw [heq] at hwritten
          exact hwritten
        · rename_i heq
          rw [heq] at hwritten
          exact hwritten

end Worlds

section Scan

variable {lib : Libraries} {configured : Str} {initial : Disk File} {mode : ScanMode}
  {env : ScanEnv}
  {job : Job} {w : World}

variable (lib env w) in
theorem boundedScanPipeline_hash (path name : Path) :
    IsHash lib (boundedScanPipeline lib env path name w).2.1 := by
  unfold boundedScanPipeline
  split
  · exact Or.inl rfl
  · rename_i inode f _
    simp only
    split
    · exact Or.inr ⟨f.data, rfl⟩
    · split <;> exact Or.inr ⟨f.data, rfl⟩

theorem endsInName_quarantinePath (hlib : HashText lib) {sha256 : List Char}
    (hsha : IsHash lib sha256) (download : CompletedDownload) :
    endsInName false (quarantinePath lib env download sha256) = true := by
  rw [endsInName_iff, lastSegment_quarantinePath hlib hsha]
  have hdash : '-' ∈ quarantineName env.timestamp sha256 download.name :=
    List.mem_append_right _ List.mem_cons_self
  refine ⟨?_, ?_, ?_⟩
  all_goals
    intro heq
    rw [heq] at hdash
    revert hdash
    decide

theorem each_create_reserved {d t : Disk File} {os : Os} {path : Path} {content : File} {inode : ℕ}
    (hd : d.Each (EntryOld lib configured initial)) (hends : endsInName false path = true)
    (hname : extensionBlocked (lastSegment path) configured = false)
    (hreserved : Reserved lib (lastSegment path))
    (hcreate : d.create os path content = some (t, inode)) :
    t.Each (EntryOld lib configured initial) := by
  refine hd.create hcreate ?_
  intro p j hp
  have hlinks : ∀ r target, d.get (r ++ [lastSegment path]) ≠ some (.link target) := by
    intro r target hget
    refine hd _ _ (d.mem_of_get _ _ (by simp) hget) ?_
    rwa [lastName_concat]
  obtain ⟨r, rfl⟩ := d.resolve_last hends (fun _ => hlinks) hp
  refine EntryOld.of_unblocked ?_
  rwa [lastName_concat]

theorem each_quarantine (hw : w.disk.Each (EntryOld lib configured initial)) (hlib : HashText lib)
    {sha256 : List Char} (hsha : IsHash lib sha256) (download : CompletedDownload)
    (hpath : download.downloadPath = download.finalPath ++ downloadSuffix)
    (hname : extensionBlocked (safeQuarantineBasename download.name) configured = false) :
    (quarantine lib env download sha256 w).1.disk.Each (EntryOld lib configured initial) := by
  have hparents := hw.createParents (fun _ => trivial) env.os
    (quarantinePath lib env download sha256)
  have hsegment := lastSegment_quarantinePath hlib hsha env download
  have hdst : extensionBlocked (lastSegment (quarantinePath lib env download sha256)) configured =
      false := by
    rw [hsegment, extensionBlocked_quarantineName hlib hsha, hname]
  unfold quarantine
  simp only [World.put_disk]
  split
  · rw [World.put_disk]
    exact hparents
  · rw [hpath]
    split
    · rename_i d hrename
      have hmarked : (markQuarantined env.toEnv (download.finalPath ++ downloadSuffix)
          (w.disk.createParents env.os (quarantinePath lib env download sha256))).Each
            (EntryOld lib configured initial) := by
        unfold markQuarantined
        split
        · exact hparents.update _ _ fun p f hmem => hparents p (.file _ f) hmem
        · exact hparents
      have hmoved := each_moved hmarked hdst hrename
      simp only [World.removeFile_disk, World.put_disk]
      exact hmoved.removeFile _
    · split
      · rw [World.put_disk]
        exact hparents
      · split
        · rw [World.put_disk]
          exact hparents
        · rename_i d inode hcreate
          have hcopied : d.Each (EntryOld lib configured initial) := by
            refine each_create_reserved hparents (endsInName_quarantinePath hlib hsha download) hdst
              ?_ hcreate
            rw [hsegment]
            exact Or.inr (Or.inr ⟨_, _, _, hsha, rfl⟩)
          split
          · rw [World.put_disk]
            exact hcopied
          · rename_i e hremove
            have hremoved : ((d.removeFile env.os (download.finalPath ++ downloadSuffix)).getD
                d).Each
                (EntryOld lib configured initial) := hcopied.removeFile _
            rw [show d.removeFile env.os (download.finalPath ++ downloadSuffix) =
              some e from hremove]
              at hremoved
            simp only [World.removeFile_disk, World.put_disk]
            exact Disk.Each.removeFile hremoved _

theorem currentDownload_name {d : Disk File} {download : CompletedDownload}
    (h : currentDownload env.toEnv d job = .ok (some download)) :
    ∃ entry ∈ job.files, download.name = if entry.name.isEmpty then
      (fileName (joinName job.base entry.name)).getD [] else entry.name := by
  unfold currentDownload at h
  split at h
  · rename_i stream entry _ hentry
    refine ⟨entry, List.mem_of_getElem? hentry, ?_⟩
    cases hpath : joinValidatedPath env.toEnv d job.base entry.name with
    | error text =>
      rw [hpath] at h
      cases h
    | ok path =>
      rw [hpath] at h
      obtain rfl := joinValidatedPath_ok hpath
      obtain rfl := Option.some.inj (Except.ok.inj h)
      rfl
  · cases h

variable (env) in
theorem each_finishCompletedDownload (r : JobRegistry) (next : Option Int32)
    (hw : w.disk.Each (EntryOld lib configured initial)) (hlib : HashText lib)
    (hmode : scanModeFor r (jobOwner job) = .block → mode = .block)
    (hjob : JobAccepted mode configured job) :
    (finishCompletedDownload lib env r next job w).1.disk.Each (EntryOld lib configured initial) ∧
      (finishCompletedDownload lib env r next job w).2.1.base = job.base ∧
      (finishCompletedDownload lib env r next job w).2.1.files = job.files := by
  unfold finishCompletedDownload
  simp only
  split
  · exact ⟨hw, rfl, rfl⟩
  · split
    · exact ⟨hw, rfl, rfl⟩
    · exact ⟨hw, rfl, rfl⟩
    · rename_i download hdownload
      obtain ⟨-, -, hpath⟩ := currentDownload_ok hdownload
      obtain ⟨entry, hentry, hname⟩ := currentDownload_name hdownload
      split
      · rename_i job' text hdrop
        obtain ⟨rfl, -⟩ := Prod.mk.inj hdrop
        exact ⟨hw, rfl, rfl⟩
      · rename_i job' hdrop
        obtain ⟨rfl, -⟩ := Prod.mk.inj hdrop
        have hdisk := boundedScanPipeline_disk lib env w
          download.downloadPath download.name
        have hsha := boundedScanPipeline_hash lib env w
          download.downloadPath download.name
        generalize boundedScanPipeline lib env download.downloadPath download.name w = scan at *
        obtain ⟨w', sha256, kind⟩ := scan
        simp only at hdisk hsha ⊢
        rw [← hdisk] at hw
        split
        · exact ⟨each_modifyTime _ hw hjob, rfl, rfl⟩
        · rename_i hdecision
          refine ⟨each_quarantine hw hlib hsha download hpath ?_, rfl, rfl⟩
          rw [hname]
          refine (hjob entry hentry).quarantined (hmode ?_)
          unfold scanDecision at hdecision
          split at hdecision
          · rename_i hblock
            exact hblock.1
          · cases hdecision

end Scan

section Jobs

variable {lib : Libraries} {mode : ScanMode} {configured : Str} {initial : Disk File} {s : Manager}

/-- The disk is as it should be, the jobs have been let through and are scanned as the host is set
to. -/
structure Inv (lib : Libraries) (mode : ScanMode) (configured : Str) (initial : Disk File)
    (s : Manager) : Prop where
  entries : s.world.disk.Each (EntryOld lib configured initial)
  accepted : ∀ job ∈ s.writeJobs, JobAccepted mode configured job
  modes : ∀ j ∈ s.registry.jobs, j.2.mode = mode

theorem JobAccepted.of_same {job job' : Job} (h : JobAccepted mode configured job)
    (hsame : SameRequest job job') : JobAccepted mode configured job' := by
  intro entry hentry
  rw [hsame.files] at hentry
  rw [hsame.base]
  exact h entry hentry

theorem mem_releaseScanJob (job : Job) (r : JobRegistry) :
    ∀ j ∈ (releaseScanJob job r).jobs, j ∈ r.jobs := by
  intro j hj
  unfold releaseScanJob at hj
  simp only at hj
  split at hj
  · exact hj
  · exact (List.mem_filter.mp hj).1

theorem mem_releaseScanJobs (jobs : List Job) (r : JobRegistry) :
    ∀ j ∈ (releaseScanJobs jobs r).jobs, j ∈ r.jobs := by
  induction jobs generalizing r with
  | nil => exact fun j hj => hj
  | cons job jobs ih => exact fun j hj => mem_releaseScanJob job r j (ih _ j hj)

theorem Inv.send (h : Inv lib mode configured initial s) (reply : Reply) :
    Inv lib mode configured initial (s.send reply) := ⟨h.entries, h.accepted, h.modes⟩

theorem Inv.withWorld (h : Inv lib mode configured initial s) {w : World}
    (hw : w.disk.Each (EntryOld lib configured initial)) :
    Inv lib mode configured initial { s with world := w } := ⟨hw, h.accepted, h.modes⟩

theorem Inv.setJob (h : Inv lib mode configured initial s) (id : Int32) {job : Job}
    (hjob : JobAccepted mode configured job) :
    Inv lib mode configured initial (s.setJob id job) := by
  unfold Manager.setJob
  split
  · refine ⟨h.entries, ?_, h.modes⟩
    intro other hother
    rcases List.mem_or_eq_of_mem_set hother with hold | rfl
    · exact h.accepted other hold
    · exact hjob
  · exact h

theorem Inv.removeJob (h : Inv lib mode configured initial s) (id : Int32) (job : Job) :
    Inv lib mode configured initial (s.removeJob id job) := by
  unfold Manager.removeJob
  split
  · exact ⟨h.entries, fun other hother => h.accepted other (List.mem_of_mem_eraseIdx hother),
      fun j hj => h.modes j (mem_releaseScanJob job s.registry j hj)⟩
  · exact h

theorem Inv.job (h : Inv lib mode configured initial s) {id : Int32} {job : Job}
    (hjob : s.getJob id = some job) : JobAccepted mode configured job := by
  obtain ⟨i, -, hget⟩ := getJob_eq hjob
  exact h.accepted job (List.mem_of_getElem? hget)

theorem Inv.mode_of_block (h : Inv lib mode configured initial s) (owner : JobOwner)
    (hblock : scanModeFor s.registry owner = .block) : mode = .block := by
  unfold scanModeFor JobRegistry.get at hblock
  cases hfind : s.registry.jobs.find? fun j => j.1 = owner with
  | none =>
    rw [hfind] at hblock
    cases hblock
  | some j =>
    rw [hfind] at hblock
    rw [← h.modes j (List.mem_of_find?_eq_some hfind)]
    exact hblock

theorem registerScanJob_modes {env : Env} {d : Disk File} {job : Job} {r r' : JobRegistry}
    (hregister : registerScanJob env mode d job r = .ok r')
    (hmodes : ∀ j ∈ r.jobs, j.2.mode = mode) :
    ∀ j ∈ r'.jobs, j.2.mode = mode := by
  unfold registerScanJob at hregister
  simp only at hregister
  split at hregister
  · obtain rfl := Except.ok.inj hregister
    exact hmodes
  · split at hregister
    · cases hregister
    · split at hregister
      · cases hregister
      · obtain rfl := Except.ok.inj hregister
        intro j hj
        rcases List.mem_cons.mp hj with rfl | hold
        · rfl
        · exact hmodes j hold

theorem inv_newWrite (h : Inv lib mode configured initial s) (env : Env) (path : Path)
    (id fileNum : Int32) (files : List FileEntry) (overwriteDetection : Bool) (totalSize : UInt64)
    (connId : Int32) (haccepted : ∀ entry ∈ files, EntryAccepted mode configured path entry.name) :
    Inv lib mode configured initial
      (newWrite env mode path id fileNum files overwriteDetection totalSize connId s) := by
  unfold newWrite
  split
  · exact h.send _
  · rename_i job hset
    obtain ⟨rfl, -⟩ := setFiles_eq hset
    simp only
    split
    · exact h.send _
    · rename_i registry hregister
      refine ⟨h.entries, ?_, registerScanJob_modes hregister h.modes⟩
      intro other hother
      rcases List.mem_append.mp hother with hold | hnew
      · exact h.accepted other hold
      · obtain rfl := List.mem_singleton.mp hnew
        exact haccepted

theorem inv_cancelWrite (h : Inv lib mode configured initial s) (env : Env) (id : Int32) :
    Inv lib mode configured initial (cancelWrite env id s) := by
  unfold cancelWrite
  split
  · exact h
  · rename_i job _
    have hremoved := h.removeJob id job
    refine hremoved.withWorld ?_
    unfold removeDownloadFile
    split
    · rename_i path _
      have hdownload : ((s.removeJob id job).world.removeFile env
          (path ++ downloadSuffix)).disk.Each
          (EntryOld lib configured initial) := hremoved.entries.removeFile _
      rw [World.removeFile_disk]
      exact hdownload.removeFile _
    · exact hremoved.entries

theorem inv_writeDone (h : Inv lib mode configured initial s) (hlib : HashText lib) (env : ScanEnv)
    (id fileNum : Int32) : Inv lib mode configured initial (writeDone lib env id fileNum s) := by
  unfold writeDone
  split
  · exact h
  · rename_i job hjob
    have haccepted := h.job hjob
    have hremoved := h.removeJob id job
    simp only
    split
    · exact (hremoved.withWorld (each_modifyTime env.toEnv h.entries haccepted)).send _
    · have hfinish := each_finishCompletedDownload env s.registry none h.entries hlib
        (h.mode_of_block (jobOwner job)) haccepted
      split
      · rename_i w job' scanned heq
        rw [heq] at hfinish
        obtain ⟨hw, hbase, hfiles⟩ := hfinish
        have haccepted' : JobAccepted mode configured job' := by
          intro entry hentry
          rw [hfiles] at hentry
          rw [hbase]
          exact haccepted entry hentry
        refine Inv.send (hremoved.withWorld ?_) _
        split
        · exact hw
        · exact each_modifyTime env.toEnv hw haccepted'
      · rename_i w job' text heq
        rw [heq] at hfinish
        exact (hremoved.withWorld hfinish.1).send _

theorem inv_writeError (h : Inv lib mode configured initial s) (id fileNum : Int32) (err : String) :
    Inv lib mode configured initial (writeError id fileNum err s) := by
  unfold writeError
  split
  · exact h
  · exact (h.removeJob id _).send _

theorem inv_writeBlock (h : Inv lib mode configured initial s) (hlib : HashText lib)
    (hown : extensionBlocked downloadSuffix configured = false ∧
      extensionBlocked digestSuffix configured = false) (env : ScanEnv) (block : Block) :
    Inv lib mode configured initial (writeBlock lib env block s) := by
  have hwritten : ∀ (job : Job) (w : World), w.disk.Each (EntryOld lib configured initial) →
      JobAccepted mode configured job →
      (write env.toEnv lib.toCodecs block job w).1.disk.Each (EntryOld lib configured initial) ∧
        JobAccepted mode configured (write env.toEnv lib.toCodecs block job w).2.1 :=
    fun job w hw haccepted => ⟨each_write hw lib.toCodecs block haccepted hown,
      haccepted.of_same (sameRequest_write _ _ _ _ _)⟩
  unfold writeBlock
  split
  · exact h
  · rename_i job hjob
    have haccepted := h.job hjob
    split
    · obtain ⟨hw, hjob'⟩ := hwritten job s.world h.entries haccepted
      split
      · rename_i heq
        rw [heq] at hw hjob'
        exact (h.withWorld hw).setJob _ hjob'
      · rename_i heq
        rw [heq] at hw hjob'
        exact ((h.withWorld hw).setJob _ hjob').send _
    · have hfinish := each_finishCompletedDownload env s.registry (some block.fileNum)
        h.entries hlib (h.mode_of_block (jobOwner job)) haccepted
      split
      · rename_i heq
        rw [heq] at hfinish
        exact ((h.withWorld hfinish.1).removeJob _ _).send _
      · rename_i w job' _ heq
        rw [heq] at hfinish
        obtain ⟨hw, hbase, hfiles⟩ := hfinish
        have haccepted' : JobAccepted mode configured job' := by
          intro entry hentry
          rw [hfiles] at hentry
          rw [hbase]
          exact haccepted entry hentry
        obtain ⟨hw', hjob''⟩ := hwritten job' w hw haccepted'
        split
        · rename_i heq'
          rw [heq'] at hw' hjob''
          exact (h.withWorld hw').setJob _ hjob''
        · rename_i heq'
          rw [heq'] at hw'
          exact ((h.withWorld hw').removeJob _ _).send _

theorem inv_checkDigest (h : Inv lib mode configured initial s) (env : Env) (id fileNum : Int32)
    (fileSize lastModified : UInt64) (isUpload isResume : Bool) :
    Inv lib mode configured initial
      (checkDigest lib env id fileNum fileSize lastModified isUpload isResume s) := by
  unfold checkDigest
  split
  · exact h
  · rename_i job hjob
    split
    · exact h
    · simp only
      split
      · exact h.send _
      · have hset : Inv lib mode configured initial
            (s.setJob id (job.setDigest fileSize lastModified)) :=
          h.setJob id ((h.job hjob).of_same ⟨rfl, rfl, rfl⟩)
        split <;> exact hset.send _

theorem inv_sendConfirm (h : Inv lib mode configured initial s) (env : Env) (id fileNum : Int32)
    (answer : Option Confirm) :
    Inv lib mode configured initial (sendConfirm env id fileNum answer s) := by
  unfold sendConfirm
  split
  · exact h
  · rename_i job hjob
    exact h.setJob id ((h.job hjob).of_same (sameRequest_confirm env _ fileNum answer job))

theorem Inv.handled (h : Inv lib mode configured initial s) (id fileNum : Int32)
    {result : World × Option String} (hw : result.1.disk.Each (EntryOld lib configured initial)) :
    Inv lib mode configured initial (handleResult s id fileNum result) := by
  unfold handleResult
  simp only
  split
  · exact (h.withWorld hw).send _
  · exact (h.withWorld hw).send _

end Jobs

section Actions

variable {lib : Libraries} {configured : Str} {initial : Disk File} {w : World}
  (hw : w.disk.Each (EntryOld lib configured initial))

/-- A file keeps its last name or gets one with an extension that is not blocked, and a link gets
no name that the transfer uses. -/
def RenameAllowed (lib : Libraries) (configured : Str) (env : Env) (d : Disk File)
    (path newName : Path) : Prop :=
  ∀ p node, d.resolve env.os.cwd false path = .at p → d.get p = some node →
    match node with
    | .dir => True
    | .link _ => ¬ Reserved lib (lastSegment newName)
    | .file _ _ => extensionBlocked newName configured = true → lastName p = lastSegment newName

include hw

theorem each_renameFile (env : Env) (path newName : Path)
    (hallowed : RenameAllowed lib configured env w.disk path newName) :
    (renameFile env path newName w).1.disk.Each (EntryOld lib configured initial) := by
  rcases renameFile_cases env path newName w with hsame | ⟨target, d, htarget, hrename, hmoved⟩
  · rwa [hsame]
  obtain ⟨dir, -, rfl⟩ := Option.map_eq_some_iff.mp htarget
  have hd : d.Each (EntryOld lib configured initial) := by
    refine each_rename hw hrename ?_
    intro p r node hp hget hnode
    have hmay := hallowed p node hp hget
    rw [lastSegment_join]
    cases node with
    | dir => exact absurd rfl hnode
    | link target =>
      unfold EntryOld
      rw [lastName_concat]
      exact hmay
    | file inode f =>
      intro hblocked
      rw [lastName_concat] at hblocked ⊢
      have hname := hmay (by
        rw [← hblocked]
        exact extensionBlocked_congr (normalizedExtension_lastSegment newName).symm _)
      rw [← hname] at hblocked ⊢
      exact hw p _ (w.disk.mem_of_get_file p inode f hget) hblocked
  rw [hmoved]
  exact hd.map _ fun p inode f hmem => (hd p (.file inode f) hmem).content _

theorem each_removeDir (env : Env) (path : Path) (recursive : Bool) :
    (removeDir env path recursive w).1.disk.Each (EntryOld lib configured initial) := by
  unfold removeDir
  split
  · split
    · split
      · exact (hw.clearBelow _ _).removeDir path
      · exact hw
    · exact hw
  · exact hw.removeDir path

theorem each_removeFile (env : Env) (path : Path) :
    (ConnectionManager.removeFile env path w).1.disk.Each (EntryOld lib configured initial) := by
  unfold ConnectionManager.removeFile
  split
  · exact hw
  · exact hw.removeFile path

theorem each_createDir (env : Env) (path : Path) :
    (createDir env path w).1.disk.Each (EntryOld lib configured initial) := by
  unfold createDir
  split
  · exact hw
  · exact hw.createDirAll (fun _ => trivial) env.os path

end Actions

theorem forwarded_eq {direction configured : Str} {session : Session} {action : FileAction}
    {message : Message}
    (h : (Event.action session action).message direction configured = some message) :
    rejectFileAction direction configured action = none ∧
      forwardAction session action = .forwarded message := by
  unfold Event.message at h
  simp only at h
  split at h
  · rename_i forwarded heq
    obtain rfl := Option.some.inj h
    unfold onFileAction at heq
    simp only at heq
    generalize (!session.fileTransfer && !_) = ignored at heq
    cases ignored with
    | true => cases heq
    | false =>
      rw [if_neg (by decide)] at heq
      split at heq
      · cases heq
      · rename_i hpass
        split at heq
        · cases heq
        · split at heq
          · cases heq
          · exact ⟨hpass, heq⟩
  · cases h

/-- What a request keeps to: in block mode no name of a file has a blocked extension in the
quarantine, and a rename gives no file a new name with a blocked extension. -/
def Guarded (lib : Libraries) (mode : ScanMode) (configured : Str) (s : Manager)
    (event : ScanEnv × Event) : Prop :=
  match event.2 with
  | .action _ (.receive path _ _ files _) =>
    mode = .block → ∀ entry ∈ files, extensionBlocked (safeQuarantineBasename
      (if entry.name.isEmpty then (fileName path).getD [] else entry.name)) configured = false
  | .action _ (.rename path newName _) =>
    RenameAllowed lib configured event.1.toEnv s.world.disk path newName
  | _ => True

/-- The names in a request that was let through. -/
theorem accepted_of_rejectFileAction {direction configured : Str} {mode : ScanMode} {path : Path}
    {id fileNum : Int32} {files : List ReceivedEntry} {totalSize : UInt64}
    (hpass : rejectFileAction direction configured (.receive path id fileNum files totalSize) =
    none)
    (hguard : mode = .block → ∀ entry ∈ files, extensionBlocked (safeQuarantineBasename
      (if entry.name.isEmpty then (fileName path).getD [] else entry.name)) configured = false) :
    ∀ entry ∈ files.map (fun f => (⟨f.name, f.modifiedTime⟩ : FileEntry)),
      EntryAccepted mode configured path entry.name := by
  intro entry hentry
  obtain ⟨received, hreceived, rfl⟩ := List.mem_map.mp hentry
  have hnames : files.any (fun entry => extensionBlocked (incomingName path entry.name)
      configured) =
      false := by
    unfold rejectFileAction at hpass
    simp only at hpass
    split at hpass
    · cases hpass
    · split at hpass
      · cases hpass
      · rename_i hnone
        rw [Bool.not_eq_true, Bool.or_eq_false_iff] at hnone
        exact hnone.1
  refine ⟨?_, ?_⟩
  · rw [← extensionBlocked_incomingName]
    simpa using List.any_eq_false.mp hnames received hreceived
  · intro hmode
    have hquarantine := hguard hmode received hreceived
    by_cases hempty : received.name.isEmpty = true
    · simp only [hempty, if_true] at hquarantine ⊢
      rwa [joinName, if_pos hempty]
    · simp only [hempty] at hquarantine ⊢
      exact hquarantine

theorem inv_step (lib : Libraries) (mode : ScanMode) (direction configured : Str)
    (initial : Disk File) (hlib : HashText lib)
    (hown : extensionBlocked downloadSuffix configured = false ∧
      extensionBlocked digestSuffix configured = false)
    (s t : Manager) (event : ScanEnv × Event) (hguard : Guarded lib mode configured s event)
    (h : Inv lib mode configured initial s)
    (hstep : step lib mode direction configured s event = some t) :
    Inv lib mode configured initial t := by
  obtain ⟨env, event⟩ := event
  unfold step at hstep
  simp only at hstep
  split at hstep
  · rename_i message hmessage
    obtain rfl := Option.some.inj hstep
    cases event with
    | close =>
      obtain rfl := Option.some.inj hmessage
      refine ⟨h.entries, ?_, fun j hj => h.modes j (mem_releaseScanJobs _ _ j hj)⟩
      intro job hjob
      cases hjob
    | response response =>
      obtain rfl := Option.some.inj hmessage
      cases response with
      | block block => exact inv_writeBlock h hlib hown env block
      | done id fileNum => exact inv_writeDone h hlib env id fileNum
      | digest id fileNum fileSize lastModified isResume =>
        exact inv_checkDigest h env.toEnv id fileNum fileSize lastModified true isResume
      | error id fileNum error => exact inv_writeError h id fileNum error
    | action session wanted =>
      obtain ⟨hpass, hforward⟩ := forwarded_eq hmessage
      cases wanted with
      | send path id fileNum fileType => cases hforward
      | receive path id fileNum files totalSize =>
        obtain rfl := Handled.forwarded.inj hforward
        exact inv_newWrite h env.toEnv path id fileNum _ _ _ _
          (accepted_of_rejectFileAction hpass hguard)
      | removeDir path id recursive =>
        obtain rfl := Handled.forwarded.inj hforward
        exact h.handled id 0 (each_removeDir h.entries env.toEnv path recursive)
      | removeFile path id fileNum =>
        obtain rfl := Handled.forwarded.inj hforward
        exact h.handled id fileNum (each_removeFile h.entries env.toEnv path)
      | create path id =>
        obtain rfl := Handled.forwarded.inj hforward
        exact h.handled id 0 (each_createDir h.entries env.toEnv path)
      | cancel id =>
        obtain rfl := Handled.forwarded.inj hforward
        exact inv_cancelWrite h env.toEnv id
      | sendConfirm id fileNum answer =>
        unfold forwardAction at hforward
        simp only at hforward
        split at hforward
        · cases hforward
        · obtain rfl := Handled.forwarded.inj hforward
          exact inv_sendConfirm h env.toEnv id fileNum answer
      | rename path newName id =>
        obtain rfl := Handled.forwarded.inj hforward
        exact h.handled id 0 (each_renameFile h.entries env.toEnv path newName hguard)
      | read => cases hforward
  · obtain rfl := Option.some.inj hstep
    exact h

/-- In every run of file actions that meet the guard, each file with a blocked extension was on
the disk at the start, under the same last name. The list has neither of the extensions
that the transfer uses, and no link at the start has a name that the transfer uses. -/
theorem blocked_files_old (lib : Libraries) (hlib : HashText lib) (mode : ScanMode)
    (direction configured : Str)
    (hown : extensionBlocked downloadSuffix configured = false ∧
      extensionBlocked digestSuffix configured = false) (disk : Disk File)
    (hlinks : ∀ p target, (p, .link target) ∈ disk.entries → ¬ Reserved lib (lastName p))
    (events : List (ScanEnv × Event)) (s : Manager)
    (hmeets : Runs.Meets (Guarded lib mode configured) (step lib mode direction configured)
      (start disk) events)
    (hexec : Runs.exec (step lib mode direction configured) (start disk) events = some s)
    (p : Location) (inode : ℕ) (f : File) (hfile : s.world.disk.get p = some (.file inode f))
    (hblocked : extensionBlocked (lastName p) configured = true) :
    ∃ q g, disk.get q = some (.file inode g) ∧ lastName q = lastName p := by
  have hentries : disk.Each (EntryOld lib configured disk) := by
    intro q node hmem
    cases node with
    | dir => exact trivial
    | link target => exact hlinks q target hmem
    | file j g =>
      intro hname
      have hroot : q ≠ [] := by
        rintro rfl
        cases hname
      exact ⟨q, g, disk.get_of_mem q _ hroot hmem, rfl⟩
  have hstart : Inv lib mode configured disk (start disk) := by
    refine ⟨hentries, ?_, ?_⟩
    · intro job hjob
      cases hjob
    · intro j hj
      cases hj
  have hend := Runs.invariant_of_meets (Guarded lib mode configured)
    (step lib mode direction configured) (Inv lib mode configured disk)
    (fun s event t hguard h hstep =>
      inv_step lib mode direction configured disk hlib hown s t event hguard h hstep)
    (start disk) s events hstart hmeets hexec
  exact hend.entries p _ (s.world.disk.mem_of_get_file p inode f hfile) hblocked

def passes (direction configured : Str) : Event → Bool
  | .action _ action => (rejectFileAction direction configured action).isNone
  | _ => true

def blockedFiles (configured : Str) (d : Disk File) : List Location :=
  (d.entries.filter fun e => e.2.inode?.isSome && extensionBlocked (lastName e.1) configured).map
    fun e => e.1

def NothingBlocked (lib : Libraries) (mode : ScanMode) (direction configured : Str)
    (disk : Disk File) : Prop :=
  ∀ (events : List (ScanEnv × Event)) (s : Manager),
    (∀ event ∈ events, passes direction configured event.2 = true) →
    Runs.exec (step lib mode direction configured) (start disk) events = some s →
    blockedFiles configured s.world.disk ⊆ blockedFiles configured disk

theorem sampleLibraries_hashText : HashText sampleLibraries := by
  intro data c hc
  have hzero : c ∈ ['0'] := hc
  obtain rfl := List.mem_singleton.mp hzero
  decide

def sampleSession : Session := ⟨true, false, false, false, [], false, 1⟩

def sampleReceive (env : ScanEnv) (names : List Path) : List (ScanEnv × Event) :=
  [(env, .action sampleSession (.receive "/".toList 1 0 (names.map fun name => ⟨name, 1, 0⟩) 1)),
    (env, .response (.block ⟨1, Int32.ofNat (names.length - 1), [66], false⟩)),
    (env, .response (.done 1 0))]

def sampleRename (newName : Path) : ScanEnv × Event :=
  (sampleEnv, .action sampleSession (.rename "/a.txt".toList newName 2))

theorem blocked_files_old_sample :
    ((Runs.exec (step sampleLibraries .block [] "exe".toList) (start emptyDisk)
        (sampleReceive sampleEnv ["a.txt".toList] ++ [sampleRename "b.txt".toList])).map
      fun s => s.world.disk.entries.map fun e => e.1) = some [["b.txt".toList]] ∧
    ∀ s, Runs.exec (step sampleLibraries .block [] "exe".toList) (start emptyDisk)
        (sampleReceive sampleEnv ["a.txt".toList] ++ [sampleRename "b.txt".toList]) = some s →
      ∀ p inode f, s.world.disk.get p = some (.file inode f) →
        extensionBlocked (lastName p) "exe".toList = true →
        ∃ q g, emptyDisk.get q = some (.file inode g) ∧ lastName q = lastName p := by
  refine ⟨by decide, fun s hexec => ?_⟩
  refine blocked_files_old sampleLibraries sampleLibraries_hashText .block [] "exe".toList
    (by decide) emptyDisk (fun p target hmem => by cases hmem) _ s ?_ hexec
  refine ⟨fun _ => by decide, fun s₁ h₁ => ⟨trivial, fun s₂ h₂ => ⟨trivial, fun s₃ h₃ => ⟨?_, ?_⟩⟩⟩⟩
  · intro p node _ hget
    have hfiles : (Runs.exec (step sampleLibraries .block [] "exe".toList) (start emptyDisk)
        (sampleReceive sampleEnv ["a.txt".toList])).map
          (fun s => s.world.disk.entries.all fun e => e.2.inode?.isSome) = some true := by
      decide
    have hexec₃ : Runs.exec (step sampleLibraries .block [] "exe".toList) (start emptyDisk)
        (sampleReceive sampleEnv ["a.txt".toList]) = some s₃ := by
      refine (Runs.exec_cons _ _ _ _ _).mpr ⟨s₁, h₁, ?_⟩
      refine (Runs.exec_cons _ _ _ _ _).mpr ⟨s₂, h₂, ?_⟩
      exact (Runs.exec_cons _ _ _ _ _).mpr ⟨s₃, h₃, rfl⟩
    rw [hexec₃] at hfiles
    cases node with
    | dir => exact trivial
    | file inode f => exact fun hblocked => by cases hblocked
    | link target =>
      have hroot : p ≠ [] := by
        rintro rfl
        cases hget
      have hmem := s₃.world.disk.mem_of_get p _ hroot hget
      exact absurd (List.all_eq_true.mp (Option.some.inj hfiles) _ hmem) (by simp [Node.inode?])
  · exact fun _ _ => trivial

def silentEnv : ScanEnv := { sampleEnv with engine := fun _ _ => none }

def linkDisk : Disk File :=
  ⟨[(["a.txt.download".toList], .link "/x.exe".toList)], 0, by decide, by decide, by
    intro e he i hi
    obtain rfl := List.mem_singleton.mp he
    cases hi⟩

theorem not_nothingBlocked {lib : Libraries} {mode : ScanMode} {direction configured : Str}
    {disk : Disk File} (events : List (ScanEnv × Event)) (p : Location)
    (hpass : events.all (fun event => passes direction configured event.2) = true)
    (hrun : (Runs.exec (step lib mode direction configured) (start disk) events).map
      (fun s => blockedFiles configured s.world.disk) = some [p])
    (hnew : p ∉ blockedFiles configured disk) :
    ¬ NothingBlocked lib mode direction configured disk := by
  intro hnothing
  obtain ⟨s, hexec, hfiles⟩ := Option.map_eq_some_iff.mp hrun
  have hold := hnothing events s (List.all_eq_true.mp hpass) hexec
  rw [hfiles] at hold
  exact hnew (hold List.mem_cons_self)

/-- A file with a blocked extension comes from a rename, from the name of a file in transfer, from
a name that is cut for the quarantine, and through a link at the place of a download. -/
theorem blocked_files_appear :
    ¬ NothingBlocked sampleLibraries .off [] "exe".toList emptyDisk ∧
      ¬ NothingBlocked sampleLibraries .off [] "download".toList emptyDisk ∧
      ¬ NothingBlocked sampleLibraries .block [] "exe".toList emptyDisk ∧
      ¬ NothingBlocked sampleLibraries .off [] "exe".toList linkDisk := by
  refine ⟨?_, ?_, ?_, ?_⟩
  · exact not_nothingBlocked (sampleReceive sampleEnv ["a.txt".toList] ++
      [sampleRename "a.exe".toList])
      ["a.exe".toList] (by decide) (by decide) (by decide)
  · exact not_nothingBlocked ((sampleReceive sampleEnv ["a.txt".toList]).take 2)
      ["a.txt.download".toList] (by decide) (by decide) (by decide)
  · exact not_nothingBlocked (sampleReceive silentEnv [List.replicate 116 'a' ++ ".exec".toList])
      ["q".toList, "0-0-".toList ++ List.replicate 116 'a' ++ ".exe".toList]
      (by decide) (by decide) (by decide)
  · exact not_nothingBlocked (sampleReceive sampleEnv ["b.txt".toList, "a.txt".toList])
      ["x.exe".toList]
      (by decide) (by decide) (by decide)

example : extensionBlocked "report.pdf.exe".toList "exe,dll".toList = true := by decide
example : extensionBlocked "A.EXE".toList "exe,dll".toList = true := by decide
example : extensionBlocked "a.exe.".toList "exe,dll".toList = true := by decide
example : extensionBlocked "a.exe ".toList "exe,dll".toList = true := by decide
example : extensionBlocked "report.exe.pdf".toList "exe,dll".toList = false := by decide
example : extensionBlocked "cartella.txt\\nota.txt".toList "txt".toList = true := by decide

end ClantoDesk.BlockedExtensions
