import ClantoDesk.FileSystem
import ClantoDesk.TenantKeys
import Mathlib.Algebra.Order.Ring.Int

/-!
The write jobs of a file transfer, libs/base/src/fs.rs. A job receives files one after
the other: blocks go to a file with the suffix `.download` next to the final name, and the file
gets its final name when the next one begins or the job ends. A file `.digest` beside it
remembers what was announced, so that a transfer can be resumed. The world is the disk and the trace
of what was scanned and of what appeared under final names.
-/
namespace ClantoDesk.TransferJob

open FileSystem
open TenantKeys (Bytes)

inductive Origin
  | host | received | quarantined
  deriving DecidableEq

/-- A file with the time of its last change in nanoseconds. -/
structure File where
  data : Bytes
  mtime : ℤ
  origin : Origin
  deriving DecidableEq

inductive ScanOutcomeKind
  | clean | malware | unavailable
  deriving DecidableEq

inductive Act
  | scanned (data : Bytes) (kind : ScanOutcomeKind)
  | placed (p : Location) (data : Bytes)
  deriving DecidableEq

def downloadSuffix : Path := ".download".toList

def digestSuffix : Path := ".digest".toList

def isFinal (p : Location) : Bool :=
  match p.getLast? with
  | some name => !decide (downloadSuffix <:+ name)
  | none => true

def holds (d : Disk File) (p : Location) (data : Bytes) : Bool :=
  match d.get p with
  | some (.file _ f) => decide (f.origin = .received ∧ f.data = data)
  | _ => false

def placements (old new : Disk File) : List Act :=
  new.entries.filterMap fun e =>
    match e.2 with
    | .file _ f =>
      if f.origin = .received ∧ isFinal e.1 = true ∧ holds old e.1 f.data = false then
        some (.placed e.1 f.data)
      else none
    | _ => none

structure World where
  disk : Disk File
  trace : List Act

def World.put (w : World) (d : Disk File) : World := ⟨d, w.trace ++ placements w.disk d⟩

@[simp] theorem World.put_disk (w : World) (d : Disk File) : (w.put d).disk = d := rfl

/-- What is not part of this code: decompression and the text of a digest. -/
structure Codecs where
  decompress : Bytes → Bytes
  digestJson : UInt64 → UInt64 → Bytes
  parseDigest : Bytes → Option (UInt64 × UInt64)

/-- What one message meets: the system, the clock in nanoseconds, the text of a system error,
whether pending writes go through and after how many bytes a write fails. -/
structure Env where
  os : Os
  now : ℤ
  osError : String
  flushed : Bool
  writeLimit : Option ℕ

def Env.pathExists (env : Env) (d : Disk File) (path : Path) : Bool :=
  (d.node env.os.cwd true path).isSome

structure FileEntry where
  name : Path
  modifiedTime : UInt64
  deriving DecidableEq

structure FileDigest where
  size : UInt64
  modified : UInt64
  deriving DecidableEq

inductive Stream
  | reader
  | writer (inode : ℕ) (pos : ℕ)
  deriving DecidableEq

/-- A job of the kind and source that the connection manager uses: generic, to a path. -/
structure Job where
  id : Int32
  base : Path
  fileNum : Int32
  files : List FileEntry
  connId : Int32
  dataStream : Option Stream
  totalSize : UInt64
  finishedSize : ℕ
  transferred : ℕ
  enableOverwriteDetection : Bool
  fileConfirmed : Bool
  fileSkipped : Bool
  fileIsWaiting : Bool
  digest : FileDigest
  deriving DecidableEq

structure Block where
  id : Int32
  fileNum : Int32
  data : Bytes
  compressed : Bool

def toIndex (n : Int32) : ℕ := (n.toInt % 2 ^ 64).toNat

def Job.newWrite (id : Int32) (base : Path) (fileNum : Int32) (enableOverwriteDetection : Bool) :
    Job :=
  { id := id
    base := base
    fileNum := fileNum
    files := []
    connId := 0
    dataStream := none
    totalSize := 0
    finishedSize := 0
    transferred := 0
    enableOverwriteDetection := enableOverwriteDetection
    fileConfirmed := false
    fileSkipped := false
    fileIsWaiting := false
    digest := ⟨0, 0⟩ }

def validateFileNameNoTraversal (name : Path) : Except String Unit :=
  if '\x00' ∈ name then .error "file name contains null bytes"
  else if ['.', '.'] ∈ name.splitOn '/' then .error "path traversal detected in file name"
  else if isAbsolute name then .error "absolute path detected in file name"
  else .ok ()

def validateTransferFileNames (files : List FileEntry) : Except String Unit :=
  if files.map FileEntry.name = [[]] then .ok ()
  else
    files.forM fun file =>
      if file.name.isEmpty then .error "empty file name in multi-file transfer"
      else validateFileNameNoTraversal file.name

/-- The names below `current`, none of them a link. -/
def checkComponents (env : Env) (d : Disk File) : Path → List Name → Except String Unit
  | _, [] => .ok ()
  | current, name :: rest =>
    if name = ['.', '.'] then .error "invalid file name component"
    else
      let current := join current name
      let failed := "failed to validate path component '" ++ String.ofList current ++
        "': " ++ env.osError
      match d.resolve env.os.cwd false current with
      | .at p =>
        if !env.os.allows .stat p then .error failed
        else
          match d.get p with
          | some (.link _) => .error "symlink path component is not allowed"
          | _ => checkComponents env d current rest
      | .missing => checkComponents env d current rest
      | .invalid => .error failed

def validateNoSymlinkComponents (env : Env) (d : Disk File) (base name : Path) :
    Except String Unit :=
  if isAbsolute name then .error "invalid file name component"
  else checkComponents env d base (components name)

/-- `TransferJob::join`. -/
def joinName (base name : Path) : Path := if name.isEmpty then base else join base name

def joinValidatedPath (env : Env) (d : Disk File) (base name : Path) : Except String Path := do
  validateFileNameNoTraversal name
  validateNoSymlinkComponents env d base name
  pure (joinName base name)

namespace Job

def setFiles (env : Env) (d : Disk File) (files : List FileEntry) (job : Job) :
    Except String Job := do
  validateTransferFileNames files
  files.forM fun file => validateNoSymlinkComponents env d job.base file.name
  pure { job with files := files, totalSize := 0 }

def setDigest (size modified : UInt64) (job : Job) : Job := { job with digest := ⟨size, modified⟩ }

def entry (job : Job) : Option FileEntry := job.files[toIndex job.fileNum]?

def entryPath (env : Env) (d : Disk File) (job : Job) : Option Path :=
  match job.entry with
  | none => none
  | some entry => (joinValidatedPath env d job.base entry.name).toOption

end Job

theorem forM_ok {γ : Type} (f : γ → Except String Unit) (l : List γ) (h : l.forM f = .ok ()) :
    ∀ x ∈ l, f x = .ok () := by
  induction l with
  | nil => simp
  | cons y l ih =>
    change (f y >>= fun _ => l.forM f) = .ok () at h
    cases hy : f y with
    | error text =>
      rw [hy] at h
      cases h
    | ok _ =>
      rw [hy] at h
      intro x hx
      rcases List.mem_cons.mp hx with rfl | hrest
      · exact hy
      · exact ih h x hrest

variable {w : World} {env : Env} {trace : List Act} {d : Disk File} {job : Job} {path : Path}

theorem setFiles_eq {entries : List FileEntry} {fresh job : Job}
    (h : fresh.setFiles env d entries = .ok job) :
    job = { fresh with files := entries, totalSize := 0 } ∧
      ∀ entry ∈ entries, entry.name ≠ [] → validateFileNameNoTraversal entry.name = .ok () := by
  unfold Job.setFiles at h
  cases hnames : validateTransferFileNames entries with
  | error text =>
    rw [hnames] at h
    cases h
  | ok _ =>
    rw [hnames] at h
    cases hlinks : entries.forM fun file => validateNoSymlinkComponents env d fresh.base
      file.name with
    | error text =>
      simp only [hlinks, bind, Except.bind] at h
      cases h
    | ok _ =>
      simp only [hlinks, bind, Except.bind, pure, Except.pure] at h
      refine ⟨(Except.ok.inj h).symm, ?_⟩
      intro entry hentry hne
      unfold validateTransferFileNames at hnames
      split at hnames
      · rename_i hsingle
        have hname : entry.name ∈ entries.map FileEntry.name := List.mem_map_of_mem hentry
        rw [hsingle] at hname
        exact absurd (List.mem_singleton.mp hname) hne
      · have hchecked := forM_ok _ entries hnames entry hentry
        split at hchecked
        · cases hchecked
        · exact hchecked

def World.removeFile (env : Env) (path : Path) (w : World) : World :=
  w.put ((w.disk.removeFile env.os path).getD w.disk)

@[simp] theorem World.removeFile_disk (w : World) (env : Env) (path : Path) :
    (w.removeFile env path).disk = (w.disk.removeFile env.os path).getD w.disk := rfl

def World.rename (env : Env) (src dst : Path) (w : World) : World :=
  w.put ((w.disk.rename env.os src dst).getD w.disk)

def World.setFileMtime (env : Env) (path : Path) (seconds : UInt64) (w : World) : World :=
  match w.disk.openFile env.os path with
  | some (inode, _) =>
    w.put (w.disk.update inode fun f => { f with mtime := seconds.toInt64.toInt * 10 ^ 9 })
  | none => w

def modifyTime (env : Env) (job : Job) (w : World) : World :=
  match job.entry, job.entryPath env w.disk with
  | some entry, some path =>
    ((w.removeFile env (path ++ digestSuffix)).rename env (path ++ downloadSuffix)
      path).setFileMtime
      env path entry.modifiedTime
  | _, _ => w

structure CompletedDownload where
  downloadPath : Path
  finalPath : Path
  name : Path

def currentDownload (env : Env) (d : Disk File) (job : Job) :
    Except String (Option CompletedDownload) :=
  match job.dataStream, job.entry with
  | some _, some entry => do
    let finalPath ← joinValidatedPath env d job.base entry.name
    let name := if entry.name.isEmpty then (fileName finalPath).getD [] else entry.name
    pure (some ⟨finalPath ++ downloadSuffix, finalPath, name⟩)
  | _, _ => .ok none

def downloadPaths (env : Env) (d : Disk File) (job : Job) : Except String (List Path) := do
  let paths ← job.files.mapM fun entry => do
    let path ← joinValidatedPath env d job.base entry.name
    pure [path, path ++ downloadSuffix]
  pure paths.flatten

def Job.closeStream (job : Job) : Job := { job with dataStream := none }

def dropCurrentDownloadWriter (env : Env) (job : Job) : Job × Option String :=
  (job.closeStream, if job.dataStream.isSome && !env.flushed then some env.osError else none)

def removeDownloadFile (env : Env) (job : Job) (w : World) : World :=
  match job.entryPath env w.disk with
  | some path => (w.removeFile env (path ++ downloadSuffix)).removeFile env (path ++ digestSuffix)
  | none => w

def overwrite (old : Bytes) (pos : ℕ) (data : Bytes) : Bytes :=
  (old.take pos ++ List.replicate (pos - old.length) 0) ++ data ++ old.drop (pos + data.length)

theorem overwrite_end (old data : Bytes) : overwrite old old.length data = old ++ data := by
  simp [overwrite]

def File.receive (now : ℤ) (pos : ℕ) (data : Bytes) (f : File) : File :=
  { data := overwrite f.data pos data
    mtime := now
    origin := if f.origin = .quarantined then .quarantined else .received }

def writeAll (env : Env) (closed : String) (data : Bytes) (job : Job) (w : World) :
    World × Job × Option String :=
  match job.dataStream with
  | none => (w, job, some closed)
  | some .reader => (w, job, if env.writeLimit.isSome then some env.osError else none)
  | some (.writer inode pos) =>
    let part := data.take (env.writeLimit.getD data.length)
    (w.put (w.disk.update inode (File.receive env.now pos part)),
      { job with dataStream := some (.writer inode (pos + part.length)) },
      if part.length < data.length then some env.osError else none)

def openDownload (env : Env) (codecs : Codecs) (job : Job) (w : World) (name : Path) :
    World × Job × Option String :=
  match joinValidatedPath env w.disk job.base name with
  | .error text => (w, job, some text)
  | .ok path =>
    let w := w.put (w.disk.createParents env.os path)
    let digestPath := path ++ digestSuffix
    if env.pathExists w.disk digestPath && (w.disk.removeFile env.os digestPath).isNone then
      (w, job, some env.osError)
    else
      let w := if env.pathExists w.disk digestPath then w.removeFile env digestPath else w
      match w.disk.create env.os (path ++ downloadSuffix) ⟨[], env.now, .received⟩ with
      | none => (w, job, some env.osError)
      | some (d, inode) =>
        let w := w.put d
        let digest : File := ⟨codecs.digestJson job.digest.size job.digest.modified, env.now, .host⟩
        let w := w.put (((w.disk.create env.os digestPath digest).map fun r => r.1).getD w.disk)
        (w, { job with dataStream := some (.writer inode 0) }, none)

def write (env : Env) (codecs : Codecs) (block : Block) (job : Job) (w : World) :
    World × Job × Option String :=
  if block.id ≠ job.id then (w, job, some "Wrong id")
  else
    match job.files[toIndex block.fileNum]? with
    | none => (w, job, some "Wrong file number")
    | some entry =>
      let opened :=
        if toIndex block.fileNum ≠ toIndex job.fileNum ∨ job.dataStream = none then
          let w := modifyTime env job w
          if job.dataStream.isSome && !env.flushed then (w, job, some env.osError)
          else openDownload env codecs { job with fileNum := block.fileNum } w entry.name
        else (w, job, none)
      match opened with
      | (w, job, some text) => (w, job, some text)
      | (w, job, none) =>
        let data := if block.compressed then codecs.decompress block.data else block.data
        let closed := if block.compressed then "data stream is None" else "file is None"
        match writeAll env closed data job w with
        | (w, job, some text) => (w, job, some text)
        | (w, job, none) =>
          (w, { job with
            finishedSize := job.finishedSize + data.length
            transferred := job.transferred + block.data.length }, none)

def Job.setFileConfirmed (confirmed : Bool) (job : Job) : Job :=
  { job with fileConfirmed := confirmed, fileSkipped := false }

def Job.setFileSkipped (job : Job) : Job :=
  { job with
    dataStream := none
    fileConfirmed := false
    fileIsWaiting := false
    fileNum := job.fileNum + 1
    fileSkipped := true }

def setStreamOffset (env : Env) (d : Disk File) (offset : ℕ) (job : Job) : Job :=
  match job.entryPath env d with
  | none => job
  | some path =>
    let reopened (stream : Stream) : Job :=
      { job with
        dataStream := some stream
        transferred := job.transferred + offset
        finishedSize := job.finishedSize + offset }
    if env.pathExists d (path ++ downloadSuffix) && env.pathExists d (path ++ digestSuffix) then
      match d.openFile env.os (path ++ downloadSuffix) with
      | some (inode, _) => reopened (.writer inode offset)
      | none => job
    else
      match d.resolve env.os.cwd true path with
      | .at p => if (d.get p).isSome && env.os.allows .open p then reopened .reader else job
      | _ => job

inductive Confirm
  | skip (skip : Bool)
  | offsetBlk (offset : UInt32)
  deriving DecidableEq

def confirm (env : Env) (d : Disk File) (fileNum : Int32) (answer : Option Confirm) (job : Job) :
    Job :=
  if job.fileNum ≠ fileNum then job
  else
    match answer with
    | some (.skip true) => job.setFileSkipped
    | some (.skip false) => job.setFileConfirmed true
    | some (.offsetBlk offset) =>
      if 0 < offset then setStreamOffset env d offset.toNat (job.setFileConfirmed true)
      else job.setFileConfirmed true
    | none => job

structure FileTransferDigest where
  id : Int32
  fileNum : Int32
  lastModified : UInt64
  fileSize : UInt64
  isUpload : Bool
  isIdentical : Bool
  transferredSize : ℕ
  deriving DecidableEq

inductive DigestCheckResult
  | isSame
  | needConfirm (digest : FileTransferDigest)
  | noSuchFile

def resumable (env : Env) (codecs : Codecs) (d : Disk File) (path : Path)
    (digest : FileTransferDigest) : Option DigestCheckResult := do
  let (_, known) ← d.openFile env.os (path ++ digestSuffix)
  let (size, modified) ← codecs.parseDigest known.data
  if modified = digest.lastModified ∧ size = digest.fileSize then
    match d.node env.os.cwd true (path ++ downloadSuffix) with
    | some (.file _ part) =>
      if 0 < part.data.length then
        some (.needConfirm { digest with
          isUpload := false, isIdentical := true, transferredSize := part.data.length })
      else none
    | _ => none
  else none

def isWriteNeedConfirmation (env : Env) (codecs : Codecs) (d : Disk File) (isResume : Bool)
    (path : Path) (digest : FileTransferDigest) : Except String DigestCheckResult :=
  match if isResume then resumable env codecs d path digest else none with
  | some result => .ok result
  | none =>
    match d.node env.os.cwd true path with
    | some (.file _ f) =>
      if f.mtime < 0 then .error env.osError
      else
        let seconds := UInt64.ofNat (f.mtime / 10 ^ 9).toNat
        let size := UInt64.ofNat f.data.length
        .ok (.needConfirm { digest with
          isUpload := false
          lastModified := seconds
          fileSize := size
          isIdentical := decide (f.mtime = digest.lastModified.toNat * 10 ^ 9 ∧
            digest.fileSize = size)
          transferredSize := 0 })
    | _ => .ok .noSuchFile

def Clean (trace : List Act) (data : Bytes) : Prop := .scanned data .clean ∈ trace

/-- Every content that was placed at a final location had been found clean before. -/
def Vetted (acts : List Act) : Prop :=
  ∀ (i : ℕ) (p : Location) (data : Bytes), acts[i]? = some (.placed p data) →
    ∃ j < i, acts[j]? = some (.scanned data .clean)

def EntryOk (trace : List Act) (p : Location) : Node File → Prop
  | .dir => True
  | .link _ => isFinal p = true
  | .file _ f => f.origin = .received → isFinal p = true → Clean trace f.data

structure Sound (w : World) : Prop where
  vetted : Vetted w.trace
  entries : w.disk.Each (EntryOk w.trace)

theorem Clean.append {data : Bytes} (h : Clean trace data) (acts : List Act) :
    Clean (trace ++ acts) data := List.mem_append_left acts h

theorem EntryOk.append {p : Location} {node : Node File}
    (h : EntryOk trace p node) (acts : List Act) : EntryOk (trace ++ acts) p node := by
  cases node with
  | dir => exact trivial
  | link target => exact h
  | file inode f => exact fun horigin hfinal => (h horigin hfinal).append acts

theorem vetted_append (trace acts : List Act) (h : Vetted trace)
    (hacts : ∀ p data, .placed p data ∈ acts → Clean trace data) : Vetted (trace ++ acts) := by
  intro i p data hplaced
  rw [List.getElem?_append] at hplaced
  split at hplaced
  · rename_i hi
    obtain ⟨j, hj, hscan⟩ := h i p data hplaced
    exact ⟨j, hj, by rw [List.getElem?_append_left (by omega), hscan]⟩
  · rename_i hi
    obtain ⟨j, hlt, hscan⟩ := List.getElem_of_mem (hacts p data (List.mem_of_getElem? hplaced))
    refine ⟨j, by omega, ?_⟩
    rw [List.getElem?_append_left hlt, List.getElem?_eq_getElem hlt, hscan]

theorem Sound.put (h : Sound w) (d : Disk File) (hd : d.Each (EntryOk w.trace)) :
    Sound (w.put d) := by
  refine ⟨vetted_append _ _ h.vetted ?_, fun p node hmem => (hd p node hmem).append _⟩
  intro p data hplaced
  obtain ⟨⟨q, node⟩, hmem, hsome⟩ := List.mem_filterMap.mp hplaced
  cases node with
  | dir => cases hsome
  | link target => cases hsome
  | file inode f =>
    simp only at hsome
    split at hsome
    · rename_i hcond
      obtain ⟨rfl, rfl⟩ := Act.placed.inj (Option.some.inj hsome)
      exact hd q _ hmem hcond.1 hcond.2.1
    · cases hsome

theorem isFinal_download (r : Location) (c : Path) :
    isFinal (r ++ [c ++ downloadSuffix]) = false := by
  simp [isFinal]

/-- Only the last name of a location tells whether it is final. -/
theorem isFinal_append (p q rest : Location) (hrest : rest ≠ []) :
    isFinal (p ++ rest) = isFinal (q ++ rest) := by
  unfold isFinal
  rw [List.getLast?_append_of_ne_nil p hrest, List.getLast?_append_of_ne_nil q hrest]

section Downloads

variable {trace : List Act} {d : Disk File} (hd : d.Each (EntryOk trace)) (env : Env)

include hd

theorem download_resolve (follow : Bool) (path : Path) (p : Location)
    (hresolve : d.resolve env.os.cwd follow (path ++ downloadSuffix) = .at p) :
    isFinal p = false := by
  have hlinks : ∀ p c target, d.get (p ++ [c ++ downloadSuffix]) ≠ some (.link target) := by
    intro p c target hget
    have hok := hd _ _ (d.mem_of_get _ _ (by simp) hget)
    exact absurd (hok.symm.trans (isFinal_download p c)) (by decide)
  obtain ⟨r, c, rfl⟩ := d.resolve_suffix downloadSuffix (by decide) (by decide) hlinks env.os.cwd
    follow path p hresolve
  exact isFinal_download r c

theorem ne_root_of_download (follow : Bool) (path : Path) (p : Location)
    (hresolve : d.resolve env.os.cwd follow (path ++ downloadSuffix) = .at p) : p ≠ [] := by
  rintro rfl
  exact absurd (download_resolve hd env follow path [] hresolve) (by decide)

theorem download_not_link (path : Path) (p : Location)
    (hresolve : d.resolve env.os.cwd false (path ++ downloadSuffix) = .at p) (target : Path) :
    d.get p ≠ some (.link target) := by
  intro hget
  have hroot := ne_root_of_download hd env false path p hresolve
  have hok := hd p _ (d.mem_of_get p _ hroot hget)
  exact absurd (hok.symm.trans (download_resolve hd env false path p hresolve)) (by decide)

end Downloads

def Cleared (env : Env) (trace : List Act) (d : Disk File) (path : Path) : Prop :=
  ∀ p inode f, d.resolve env.os.cwd false path = .at p → d.get p = some (.file inode f) →
    f.origin = .received → Clean trace f.data

def Settled (env : Env) (trace : List Act) (d : Disk File) (path : Path) : Prop :=
  ∀ p node, d.resolve env.os.cwd false path = .at p → d.get p = some node →
    ∃ inode f, node = .file inode f ∧ (f.origin = .received → Clean trace f.data)

theorem Settled.cleared (h : Settled env trace d path) : Cleared env trace d path := by
  intro p inode f hresolve hget horigin
  obtain ⟨inode', f', heq, hclean⟩ := h p _ hresolve hget
  obtain ⟨-, rfl⟩ := Node.file.inj heq
  exact hclean horigin

/-- The disk `d` comes from `e` without new directories, links or files to be cleared. -/
structure Shrinks (trace : List Act) (d e : Disk File) : Prop where
  within : d.Within e
  files : ∀ p inode f, d.get p = some (.file inode f) →
    (f.origin = .received → Clean trace f.data) ∨
      ∃ j g, e.get p = some (.file j g) ∧ g.origin = f.origin ∧ g.data = f.data

section Shrinks

variable {trace : List Act} {d e : Disk File}

theorem Shrinks.refl (trace : List Act) (d : Disk File) : Shrinks trace d d :=
  ⟨⟨fun _ h => h, fun _ _ h => h⟩, fun _ inode f hget => Or.inr ⟨inode, f, hget, rfl, rfl⟩⟩

theorem Shrinks.of_entries (hwithin : d.Within e) (h : ∀ p inode f, (p, .file inode f) ∈ d.entries →
      (f.origin = .received → Clean trace f.data) ∨
        ∃ j g, (p, .file j g) ∈ e.entries ∧ g.origin = f.origin ∧ g.data = f.data) :
    Shrinks trace d e := by
  refine ⟨hwithin, ?_⟩
  intro p inode f hget
  have hroot := d.ne_root_of_file p inode f hget
  rcases h p inode f (d.mem_of_get_file p inode f hget) with hclean | ⟨j, g, hmem, hsame⟩
  · exact Or.inl hclean
  · exact Or.inr ⟨j, g, e.get_of_mem p _ hroot hmem, hsame⟩

theorem shrinks_erase (trace : List Act) (d : Disk File) (p : Location) :
    Shrinks trace (d.erase p) d := by
  refine .of_entries (d.erase_within p) ?_
  intro q inode f hmem
  exact Or.inr ⟨inode, f, ((d.mem_erase p _).mp hmem).1, rfl, rfl⟩

theorem shrinks_removeFile (trace : List Act) (env : Env) (d : Disk File) (path : Path) :
    Shrinks trace ((d.removeFile env.os path).getD d) d := by
  cases hremove : d.removeFile env.os path with
  | none => exact Shrinks.refl trace d
  | some t =>
    obtain ⟨p, -, -, rfl⟩ := Disk.removeFile_eq hremove
    exact shrinks_erase trace d p

theorem shrinks_moveLeaf (p q : Location) (inode : ℕ) (f : File)
    (hget : d.get p = some (.file inode f)) (hclean : f.origin = .received → Clean trace f.data) :
    Shrinks trace (d.moveLeaf p q) d := by
  refine .of_entries (d.moveLeaf_within p q inode f hget) ?_
  intro r j g hmem
  obtain ⟨old, hold, -, heq⟩ := (d.mem_relocate _ _ _ _).mp hmem
  by_cases hsrc : old = p
  · subst hsrc
    have hnode := d.get_of_mem old _ (d.ne_root_of_file old inode f hget) hold
    obtain ⟨-, rfl⟩ := Node.file.inj (Option.some.inj (hnode.symm.trans hget))
    exact Or.inl hclean
  · have hsame : r = old := by simpa [leafPlace, hsrc] using heq
    exact Or.inr ⟨j, g, hsame ▸ hold, rfl, rfl⟩

theorem shrinks_update (trace : List Act) (d : Disk File) (inode : ℕ) (mtime : ℤ) :
    Shrinks trace (d.update inode fun f => { f with mtime := mtime }) d := by
  refine .of_entries (d.map_within _) ?_
  intro p j g hmem
  obtain ⟨f, hnode, rfl⟩ := (d.mem_map_file _ p j g).mp hmem
  refine Or.inr ⟨j, f, hnode, ?_⟩
  split <;> exact ⟨rfl, rfl⟩

theorem Cleared.of_shrinks {env : Env} {path : Path} (h : Cleared env trace e path)
    (hshrinks : Shrinks trace d e) : Cleared env trace d path := by
  intro p inode f hresolve hget horigin
  rcases hshrinks.files p inode f hget with hclean | ⟨j, g, hold, hsame, hdata⟩
  · exact hclean horigin
  · have hpath := d.resolve_within e hshrinks.within env.os.cwd false path p hresolve
      (Or.inl ⟨j, g, hold⟩)
    exact hdata ▸ h p j g hpath hold (hsame.trans horigin)

theorem Settled.of_shrinks {env : Env} {path : Path} (h : Settled env trace e path)
    (hshrinks : Shrinks trace d e) : Settled env trace d path := by
  intro p node hresolve hget
  cases node with
  | dir =>
    have hpath := d.resolve_within e hshrinks.within env.os.cwd false path p hresolve
      (Or.inr ⟨_, hget, rfl⟩)
    obtain ⟨inode, f, heq, -⟩ := h p _ hpath (hshrinks.within.1 p hget)
    cases heq
  | link target =>
    have hpath := d.resolve_within e hshrinks.within env.os.cwd false path p hresolve
      (Or.inr ⟨_, hget, rfl⟩)
    obtain ⟨inode, f, heq, -⟩ := h p _ hpath (hshrinks.within.2 p target hget)
    cases heq
  | file inode f =>
    rcases hshrinks.files p inode f hget with hclean | ⟨j, g, hold, hsame, hdata⟩
    · exact ⟨inode, f, rfl, hclean⟩
    · have hpath := d.resolve_within e hshrinks.within env.os.cwd false path p hresolve
        (Or.inl ⟨j, g, hold⟩)
      obtain ⟨j', g', heq, hclean⟩ := h p _ hpath hold
      obtain ⟨-, rfl⟩ := Node.file.inj heq
      exact ⟨inode, f, rfl, fun horigin => hdata ▸ hclean (hsame.trans horigin)⟩

end Shrinks

theorem Cleared.append
    (h : Cleared env trace d path) (acts : List Act) : Cleared env (trace ++ acts) d path :=
  fun p inode f hresolve hget horigin => (h p inode f hresolve hget horigin).append acts

theorem Settled.append
    (h : Settled env trace d path) (acts : List Act) : Settled env (trace ++ acts) d path := by
  intro p node hresolve hget
  obtain ⟨inode, f, heq, hclean⟩ := h p node hresolve hget
  exact ⟨inode, f, heq, fun horigin => (hclean horigin).append acts⟩

theorem each_deliver {t : Disk File} (hd : d.Each (EntryOk trace)) (env : Env)
    (path dst : Path) (hcleared : Cleared env trace d (path ++ downloadSuffix))
    (hrename : d.rename env.os (path ++ downloadSuffix) dst = some t) :
    t.Each (EntryOk trace) := by
  refine hd.rename hrename ?_ ?_
  · intro p q rest node hroot hp _ hdir hmem
    by_cases hrest : rest = []
    · subst hrest
      rw [List.append_nil] at hmem ⊢
      obtain rfl := Option.some.inj ((d.get_of_mem p node hroot hmem).symm.trans hdir)
      exact trivial
    · -- below a directory the names stay, and with them what is final
      have hok := hd _ _ hmem
      cases node with
      | dir => exact trivial
      | link target => exact (isFinal_append p q rest hrest).symm.trans hok
      | file inode f =>
        intro horigin hfinal
        exact hok horigin ((isFinal_append p q rest hrest).trans hfinal)
  · intro p q node hp _ _ hnode hget
    cases node with
    | dir => exact absurd rfl hnode
    | link target => exact absurd hget (download_not_link hd env path p hp target)
    | file inode f => exact fun horigin _ => hcleared p inode f hp hget horigin

theorem Sound.removeFile (h : Sound w) (env : Env) (path : Path) :
    Sound (w.removeFile env path) := h.put _ (h.entries.removeFile path)

/-- A change of the time of a file keeps the entries in order. -/
theorem Sound.setFileMtime (h : Sound w) (env : Env) (path : Path) (seconds : UInt64) :
    Sound (w.setFileMtime env path seconds) := by
  unfold World.setFileMtime
  split
  · refine h.put _ (h.entries.update _ _ ?_)
    intro p f hmem
    exact h.entries p (.file _ f) hmem
  · exact h

theorem Settled.setFileMtime
    (h : Settled env w.trace w.disk path) (target : Path) (seconds : UInt64) :
    Settled env (w.setFileMtime env target seconds).trace (w.setFileMtime env target seconds).disk
      path := by
  unfold World.setFileMtime
  split
  · exact (h.of_shrinks (shrinks_update w.trace w.disk _ _)).append _
  · exact h

theorem Sound.deliver (h : Sound w) (env : Env) (path dst : Path)
    (hcleared : Cleared env w.trace w.disk (path ++ downloadSuffix)) :
    Sound (w.rename env (path ++ downloadSuffix) dst) := by
  refine h.put _ ?_
  cases hrename : w.disk.rename env.os (path ++ downloadSuffix) dst with
  | none => exact h.entries
  | some t => exact each_deliver h.entries env path dst hcleared hrename

theorem Settled.deliver (dst : Path) (h : Settled env w.trace w.disk path) :
    Settled env (w.rename env path dst).trace (w.rename env path dst).disk path := by
  refine (h.of_shrinks (show Shrinks _ ((w.disk.rename env.os path dst).getD
    w.disk) _ from ?_)).append _
  cases hrename : w.disk.rename env.os path dst with
  | none => exact Shrinks.refl _ _
  | some t =>
    rcases Disk.rename_eq hrename with rfl | ⟨p, q, node, hp, -, hget, -, -, -, -, rfl⟩
    · exact Shrinks.refl _ _
    · obtain ⟨inode, f, rfl, hclean⟩ := h p node hp hget
      exact shrinks_moveLeaf p q inode f hget hclean

theorem joinValidatedPath_ok {base name path : Path}
    (h : joinValidatedPath env d base name = .ok path) : path = joinName base name := by
  unfold joinValidatedPath at h
  cases hname : validateFileNameNoTraversal name with
  | error text => simp [hname, bind, Except.bind] at h
  | ok _ =>
    cases hlinks : validateNoSymlinkComponents env d base name with
    | error text => simp [hname, hlinks, bind, Except.bind] at h
    | ok _ =>
      simp only [hname, hlinks, bind, Except.bind, pure, Except.pure] at h
      exact (Except.ok.inj h).symm

/-- The final path of a file does not depend on the disk. -/
theorem entryPath_eq (h : job.entryPath env d = some path) :
    ∃ entry, job.entry = some entry ∧ path = joinName job.base entry.name := by
  unfold Job.entryPath at h
  split at h
  · cases h
  · rename_i entry hentry
    refine ⟨entry, hentry, ?_⟩
    cases hpath : joinValidatedPath env d job.base entry.name with
    | error text =>
      rw [hpath] at h
      cases h
    | ok joined =>
      rw [hpath] at h
      exact (Option.some.inj h).symm.trans (joinValidatedPath_ok hpath)

theorem Sound.modifyTime (h : Sound w) (env : Env) (job : Job)
    (hcleared : ∀ path, job.entryPath env w.disk = some path →
      Cleared env w.trace w.disk (path ++ downloadSuffix)) : Sound (modifyTime env job w) := by
  unfold TransferJob.modifyTime
  split
  · rename_i entry path hentry hpath
    refine Sound.setFileMtime ?_ env path _
    refine (h.removeFile env _).deliver env path path ?_
    exact ((hcleared path hpath).of_shrinks (shrinks_removeFile _ env w.disk _)).append _
  · exact h

theorem Settled.modifyTime (h : ∀ path, job.entryPath env w.disk = some path →
      Settled env w.trace w.disk (path ++ downloadSuffix)) :
    ∀ path, job.entryPath env (modifyTime env job w).disk = some path →
      Settled env (modifyTime env job w).trace (modifyTime env job w).disk
        (path ++ downloadSuffix) := by
  intro path' hpath'
  unfold TransferJob.modifyTime at hpath' ⊢
  split at hpath'
  · rename_i entry path hentry hpath
    have hsame : path' = path := by
      obtain ⟨entry₁, hentry₁, rfl⟩ := entryPath_eq hpath'
      obtain ⟨entry₂, hentry₂, rfl⟩ := entryPath_eq hpath
      rw [Option.some.inj (hentry₁.symm.trans hentry₂)]
    subst hsame
    refine Settled.setFileMtime (Settled.deliver _ ?_) _ _
    exact ((h path' hpath).of_shrinks (shrinks_removeFile _ env w.disk _)).append _
  · exact h path' hpath'

def InTransfer (d : Disk File) (job : Job) : Prop :=
  ∀ inode pos, job.dataStream = some (.writer inode pos) → ∀ p f,
    (p, .file inode f) ∈ d.entries → isFinal p = true → f.origin = .quarantined

theorem Sound.writeAll (h : Sound w) (env : Env) (closed : String) (data : Bytes)
    (job : Job) (hstream : InTransfer w.disk job) :
    Sound (writeAll env closed data job w).1 := by
  unfold TransferJob.writeAll
  split
  · exact h
  · exact h
  · rename_i inode pos hjob
    refine h.put _ (h.entries.update inode _ ?_)
    intro p f hmem horigin hfinal
    have hquarantined := hstream inode pos hjob p f hmem hfinal
    simp [File.receive, hquarantined] at horigin

/-- The download is opened at a location that is not final, and stays there when the digest is
written. -/
theorem inTransfer_created {t u : Disk File} (hd : d.Each (EntryOk trace))
    (env : Env) (path : Path) (content : File) (inode : ℕ) (job : Job)
    (hcreate : d.create env.os (path ++ downloadSuffix) content = some (t, inode))
    (hplace : ∀ p i f, (p, .file i f) ∈ u.entries → i < t.next → ∃ f', (p, .file i f') ∈ t.entries)
    (hjob : job.dataStream = some (.writer inode 0)) : InTransfer u job := by
  obtain ⟨q, hq, hmem⟩ := Disk.create_mem hcreate
  intro i pos hstream p f hentry hfinal
  rw [hjob] at hstream
  obtain ⟨rfl, -⟩ := Stream.writer.inj (Option.some.inj hstream)
  obtain ⟨f', hold⟩ := hplace p inode f hentry (t.fresh _ hmem inode rfl)
  obtain ⟨rfl, -⟩ := t.file_unique p q inode f' content hold hmem
  rw [download_resolve hd env true path p hq] at hfinal
  cases hfinal

theorem Sound.openDownload (h : Sound w) (env : Env) (codecs : Codecs) (job : Job) (name : Path) :
    Sound (openDownload env codecs job w name).1 ∧
      ((openDownload env codecs job w name).2.2 = none →
        InTransfer (openDownload env codecs job w name).1.disk
          (openDownload env codecs job w name).2.1) := by
  unfold TransferJob.openDownload
  split
  · exact ⟨h, fun hnone => by cases hnone⟩
  · rename_i path hpath
    have hparents := h.put _ (h.entries.createParents (fun _ => trivial) env.os path)
    simp only
    split
    · exact ⟨hparents, fun hnone => by cases hnone⟩
    · generalize hw : (if env.pathExists (w.put (w.disk.createParents env.os path)).disk
        (path ++ digestSuffix) = true then _ else _) = w'
      have hw' : Sound w' := by
        rw [← hw]
        split
        · exact hparents.removeFile env _
        · exact hparents
      split
      · exact ⟨hw', fun hnone => by cases hnone⟩
      · rename_i d inode hcreate
        have hdownload := hw'.put d (hw'.entries.create hcreate fun p j hp _ hfinal => by
          rw [download_resolve hw'.entries env true path p hp] at hfinal
          cases hfinal)
        generalize hdigest : (⟨codecs.digestJson job.digest.size job.digest.modified, env.now,
          .host⟩ : File) = digest
        have horigin : digest.origin = .host := by rw [← hdigest]
        cases hwritten : (w'.put d).disk.create env.os (path ++ digestSuffix) digest with
        | none =>
          refine ⟨hdownload.put _ hdownload.entries, fun _ => ?_⟩
          exact inTransfer_created hw'.entries env path _ inode _ hcreate
            (fun p i f hmem _ => ⟨f, hmem⟩) rfl
        | some written =>
          obtain ⟨u, j⟩ := written
          refine ⟨hdownload.put u (hdownload.entries.create hwritten ?_), fun _ => ?_⟩
          · intro p j _ hreceived
            rw [horigin] at hreceived
            cases hreceived
          · exact inTransfer_created hw'.entries env path _ inode _ hcreate
              (fun p i f hmem hold => Disk.create_place hwritten hmem hold) rfl

/-- A block is written into a file in transfer. The job either opens a new download, and what it
leaves behind is cleared, or goes on with the one it has open. -/
theorem Sound.write (h : Sound w) (env : Env) (codecs : Codecs) (block : Block) (job : Job)
    (hleaves : toIndex block.fileNum ≠ toIndex job.fileNum ∨ job.dataStream = none →
      ∀ path, job.entryPath env w.disk = some path →
        Cleared env w.trace w.disk (path ++ downloadSuffix))
    (hgoesOn : toIndex block.fileNum = toIndex job.fileNum → InTransfer w.disk job) :
    Sound (write env codecs block job w).1 := by
  unfold TransferJob.write
  split
  · exact h
  · split
    · exact h
    · rename_i entry hentry
      simp only
      generalize hopened : (if toIndex block.fileNum ≠ toIndex job.fileNum ∨ job.dataStream = none
        then _ else _) = opened
      have hsound : Sound opened.1 ∧ (opened.2.2 = none → InTransfer opened.1.disk opened.2.1) := by
        rw [← hopened]
        split
        · rename_i hreopens
          have hmodified := h.modifyTime env job (hleaves hreopens)
          split
          · exact ⟨hmodified, fun hnone => by cases hnone⟩
          · exact hmodified.openDownload env codecs _ _
        · rename_i hsame
          rw [not_or, not_not] at hsame
          exact ⟨h, fun _ => hgoesOn hsame.1⟩
      obtain ⟨w', job', error⟩ := opened
      cases error with
      | some text => exact hsound.1
      | none =>
        have hwritten := hsound.1.writeAll env
          (if block.compressed then "data stream is None" else "file is None")
          (if block.compressed then codecs.decompress block.data else block.data) job'
          (hsound.2 rfl)
        simp only
        split
        · rename_i w'' job'' text heq
          rw [heq] at hwritten
          exact hwritten
        · rename_i w'' job'' heq
          rw [heq] at hwritten
          exact hwritten

end ClantoDesk.TransferJob
