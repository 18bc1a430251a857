import ClantoDesk.FileScan
import ClantoDesk.Runs

/-!
The file messages of a controller in the connection manager of the host,
src/ui_cm_interface.rs, with antimalware checking. A controller can begin, continue, end and
cancel write jobs, rename and remove entries and create directories, in any order. A file that
a job delivers is scanned before it gets its final name, but a job also delivers what
an earlier job left behind, and a rename delivers anything.
-/
namespace ClantoDesk.ConnectionManager

open FileSystem TransferJob FileScan
open TenantKeys (Bytes)

inductive Message
  | removeDir (path : Path) (id : Int32) (recursive : Bool)
  | removeFile (path : Path) (id fileNum : Int32)
  | createDir (path : Path) (id : Int32)
  | newWrite (path : Path) (id fileNum : Int32) (files : List FileEntry)
      (overwriteDetection : Bool) (totalSize : UInt64) (connId : Int32)
  | cancelWrite (id : Int32)
  | writeDone (id fileNum : Int32)
  | writeError (id fileNum : Int32) (err : String)
  | writeBlock (block : Block)
  | checkDigest (id fileNum : Int32) (fileSize lastModified : UInt64) (isUpload isResume : Bool)
  | sendConfirm (id fileNum : Int32) (answer : Option Confirm)
  | rename (path : Path) (newName : Path) (id : Int32)
  | close

inductive Reply
  | done (id fileNum : Int32)
  | error (id : Int32) (text : String) (fileNum : Int32)
  | confirm (id fileNum : Int32) (answer : Confirm)
  | digest (digest : FileTransferDigest)
  deriving DecidableEq

structure Manager where
  world : World
  writeJobs : List Job
  registry : JobRegistry
  sent : List Reply

def start (disk : Disk File) : Manager := ⟨⟨disk, []⟩, [], ⟨[], []⟩, []⟩

namespace Manager

def send (s : Manager) (reply : Reply) : Manager := { s with sent := s.sent ++ [reply] }

def position (s : Manager) (id : Int32) : Option ℕ := s.writeJobs.findIdx? fun job => job.id = id

def getJob (s : Manager) (id : Int32) : Option Job := (s.position id).bind fun i => s.writeJobs[i]?

def setJob (s : Manager) (id : Int32) (job : Job) : Manager :=
  match s.position id with
  | some i => { s with writeJobs := s.writeJobs.set i job }
  | none => s

def removeJob (s : Manager) (id : Int32) (job : Job) : Manager :=
  match s.position id with
  | some i =>
    { s with
      writeJobs := s.writeJobs.eraseIdx i
      registry := releaseScanJob job s.registry }
  | none => s

end Manager

def validateFsPathArgument (path : Path) (argName : String) : Except String Unit :=
  if path.isEmpty then .error (argName ++ " cannot be empty")
  else if '\x00' ∈ path then .error (argName ++ " contains null bytes")
  else .ok ()

def stood (old : Disk File) (p : Location) (inode : ℕ) : Bool :=
  old.entries.any fun e => decide (e.1 = p ∧ e.2.inode? = some inode)

def releaseMoved (old new : Disk File) : Disk File :=
  new.map fun p inode f =>
    if f.origin = .quarantined ∧ stood old p inode = false then
      { f with origin := .received } else f

def renameTarget (path newName : Path) : Option Path :=
    (parent path).map fun dir => join dir newName

def renameFile (env : Env) (path newName : Path) (w : World) : World × Option String :=
  match validateFsPathArgument path "path" with
  | .error text => (w, some text)
  | .ok _ =>
    if newName.isEmpty then (w, some "new file name cannot be empty")
    else
      match validateFileNameNoTraversal newName with
      | .error text => (w, some text)
      | .ok _ =>
        if !env.pathExists w.disk path then (w,
          some ("\"" ++ String.ofList path ++ "\" not exists"))
        else
          match renameTarget path newName with
          | none =>
            (w, some ("Parent directoy of \"" ++ String.ofList path ++ "\" not exists"))
          | some target =>
            match w.disk.rename env.os path target with
            | some d => (w.put (releaseMoved w.disk d), none)
            | none => (w, some env.osError)

def removeFile (env : Env) (path : Path) (w : World) : World × Option String :=
  match validateFsPathArgument path "file path" with
  | .error text => (w, some text)
  | .ok _ =>
    (w.removeFile env path,
      if (w.disk.removeFile env.os path).isSome then none else some env.osError)

def createDir (env : Env) (path : Path) (w : World) : World × Option String :=
  match validateFsPathArgument path "directory path" with
  | .error text => (w, some text)
  | .ok _ =>
    let d := w.disk.createDirAll env.os path
    (w.put d,
      match d.node env.os.cwd true path with
      | some .dir => none
      | _ => some env.osError)

def removeDir (env : Env) (path : Path) (recursive : Bool) (w : World) : World × Option String :=
  if recursive then
    match w.disk.resolve env.os.cwd true path with
    | .at p =>
      if w.disk.get p = some .dir then
        let d := clearBelow env.os (w.disk.entries.length + 1) w.disk p
        (w.put ((d.removeDir env.os path).getD d), none)
      else (w, some env.osError)
    | _ => (w, some env.osError)
  else
    (w.put ((w.disk.removeDir env.os path).getD w.disk),
      if (w.disk.removeDir env.os path).isSome then none else some env.osError)

/-- `handle_result`. -/
def handleResult (s : Manager) (id fileNum : Int32) (result : World × Option String) : Manager :=
  let s := { s with world := result.1 }
  match result.2 with
  | some text => s.send (.error id text fileNum)
  | none => s.send (.done id fileNum)

def newWrite (env : Env) (mode : ScanMode) (path : Path) (id fileNum : Int32)
    (files : List FileEntry) (overwriteDetection : Bool) (totalSize : UInt64) (connId : Int32)
    (s : Manager) : Manager :=
  match (Job.newWrite id path fileNum overwriteDetection).setFiles env s.world.disk files with
  | .error text => s.send (.error id text fileNum)
  | .ok job =>
    let job := { job with totalSize := totalSize, connId := connId }
    match registerScanJob env mode s.world.disk job s.registry with
    | .error text => s.send (.error id text fileNum)
    | .ok registry => { s with registry := registry, writeJobs := s.writeJobs ++ [job] }

def cancelWrite (env : Env) (id : Int32) (s : Manager) : Manager :=
  match s.getJob id with
  | none => s
  | some job =>
    let s := s.removeJob id job
    { s with world := removeDownloadFile env job s.world }

def writeDone (lib : Libraries) (env : ScanEnv) (id fileNum : Int32) (s : Manager) : Manager :=
  match s.getJob id with
  | none => s
  | some job =>
    let removed := s.removeJob id job
    if !isScanEnabledForJob s.registry job then
      { removed with world := modifyTime env.toEnv job s.world }.send (.done id fileNum)
    else
      match finishCompletedDownload lib env s.registry none job s.world with
      | (w, job, .ok scanned) =>
        let w := if scanned then w else modifyTime env.toEnv job w
        { removed with world := w }.send (.done id fileNum)
      | (w, _, .error text) => { removed with world := w }.send (.error id text fileNum)

def writeError (id fileNum : Int32) (err : String) (s : Manager) : Manager :=
  match s.getJob id with
  | none => s
  | some job => (s.removeJob id job).send (.error job.id err fileNum)

def writeBlock (lib : Libraries) (env : ScanEnv) (block : Block) (s : Manager) : Manager :=
  match s.getJob block.id with
  | none => s
  | some job =>
    if !isScanEnabledForJob s.registry job then
      match write env.toEnv lib.toCodecs block job s.world with
      | (w, job, none) => { s with world := w }.setJob block.id job
      | (w, job, some text) =>
        ({ s with world := w }.setJob block.id job).send (.error block.id text block.fileNum)
    else
      match finishCompletedDownload lib env s.registry (some block.fileNum) job s.world with
      | (w, _, .error text) =>
        ({ s with world := w }.removeJob block.id job).send (.error block.id text job.fileNum)
      | (w, job, .ok _) =>
        match write env.toEnv lib.toCodecs block job w with
        | (w, job, none) => { s with world := w }.setJob block.id job
        | (w, job, some text) =>
          ({ s with world := w }.removeJob block.id job).send (.error block.id text block.fileNum)

def checkDigest (lib : Libraries) (env : Env) (id fileNum : Int32)
    (fileSize lastModified : UInt64) (isUpload isResume : Bool) (s : Manager) : Manager :=
  match s.getJob id with
  | none => s
  | some job =>
    match job.files[toIndex fileNum]? with
    | none => s
    | some file =>
      let digest : FileTransferDigest := ⟨id, fileNum, lastModified, fileSize, false, false, 0⟩
      match isWriteNeedConfirmation env lib.toCodecs s.world.disk isResume
          (joinName job.base file.name) digest with
      | .error text => s.send (.error id text fileNum)
      | .ok result =>
        let s := s.setJob id (job.setDigest fileSize lastModified)
        match result with
        | .isSame => s.send (.confirm id fileNum (.skip true))
        | .needConfirm digest => s.send (.digest { digest with isUpload := isUpload })
        | .noSuchFile => s.send (.confirm id fileNum (.offsetBlk 0))

def sendConfirm (env : Env) (id fileNum : Int32) (answer : Option Confirm) (s : Manager) :
    Manager :=
  match s.getJob id with
  | none => s
  | some job => s.setJob id (confirm env s.world.disk fileNum answer job)

def handleFs (lib : Libraries) (mode : ScanMode) (env : ScanEnv) (message : Message)
    (s : Manager) : Manager :=
  match message with
  | .removeDir path id recursive => handleResult s id 0 (removeDir env.toEnv path recursive s.world)
  | .removeFile path id fileNum => handleResult s id fileNum (removeFile env.toEnv path s.world)
  | .createDir path id => handleResult s id 0 (createDir env.toEnv path s.world)
  | .newWrite path id fileNum files overwriteDetection totalSize connId =>
    newWrite env.toEnv mode path id fileNum files overwriteDetection totalSize connId s
  | .cancelWrite id => cancelWrite env.toEnv id s
  | .writeDone id fileNum => writeDone lib env id fileNum s
  | .writeError id fileNum err => writeError id fileNum err s
  | .writeBlock block => writeBlock lib env block s
  | .checkDigest id fileNum fileSize lastModified isUpload isResume =>
    checkDigest lib env.toEnv id fileNum fileSize lastModified isUpload isResume s
  | .sendConfirm id fileNum answer => sendConfirm env.toEnv id fileNum answer s
  | .rename path newName id => handleResult s id 0 (renameFile env.toEnv path newName s.world)
  | .close =>
    -- the jobs end with the connection, and their downloads stay where they are
    { s with registry := releaseScanJobs s.writeJobs s.registry, writeJobs := [] }

def step (lib : Libraries) (mode : ScanMode) (s : Manager) (event : ScanEnv × Message) :
    Option Manager := some (handleFs lib mode event.1 event.2 s)

def LeftoverCleared (env : Env) (w : World) (job : Job) : Prop :=
  job.dataStream = none → ∀ path, job.entryPath env w.disk = some path →
    Cleared env w.trace w.disk (path ++ downloadSuffix)

/-- The entry may move to the location: a file of a controller only with a name of a file in
transfer or if it was found clean, a link only with a final name. -/
def MayMove (trace : List Act) (p : Location) : Node File → Prop
  | .dir => True
  | .link _ => isFinal p = true
  | .file _ f => f.origin ≠ .host → isFinal p = true → Clean trace f.data

def RenameHarmless (env : Env) (w : World) (path newName : Path) : Prop :=
  ∀ target p q, renameTarget path newName = some target →
    w.disk.resolve env.os.cwd false path = .at p → w.disk.resolve env.os.cwd false target = .at q →
    p ≠ q → ∀ rest node, (p ++ rest, node) ∈ w.disk.entries → MayMove w.trace (q ++ rest) node

/-- The message delivers nothing that was not scanned: no leftover of an earlier job, nothing by a
rename and nothing into a file that has a final name already. -/
def Guarded (s : Manager) (event : ScanEnv × Message) : Prop :=
  match event.2 with
  | .writeBlock block =>
    ∀ job, s.getJob block.id = some job →
      LeftoverCleared event.1.toEnv s.world job ∧
        (toIndex block.fileNum = toIndex job.fileNum → InTransfer s.world.disk job)
  | .writeDone id _ =>
    ∀ job, s.getJob id = some job → LeftoverCleared event.1.toEnv s.world job
  | .rename path newName _ => RenameHarmless event.1.toEnv s.world path newName
  | _ => True

structure Inv (s : Manager) : Prop where
  sound : Sound s.world
  owners : (s.writeJobs.map jobOwner).Nodup
  registered : ∀ job ∈ s.writeJobs, scanModeFor s.registry (jobOwner job) = .block

theorem getJob_eq {s : Manager} {id : Int32} {job : Job} (h : s.getJob id = some job) :
    ∃ i, s.position id = some i ∧ s.writeJobs[i]? = some job :=
  Option.bind_eq_some_iff.mp h

theorem Inv.send {s : Manager} (h : Inv s) (reply : Reply) : Inv (s.send reply) :=
  ⟨h.sound, h.owners, h.registered⟩

theorem Inv.withWorld {s : Manager} (h : Inv s) (w : World) (hw : Sound w) :
    Inv { s with world := w } := ⟨hw, h.owners, h.registered⟩

theorem Inv.setJob {s : Manager} (h : Inv s) {id : Int32} {job : Job}
    (hjob : s.getJob id = some job) (job' : Job) (howner : jobOwner job' = jobOwner job) :
    Inv (s.setJob id job') := by
  obtain ⟨i, hi, hget⟩ := getJob_eq hjob
  obtain ⟨hlt, rfl⟩ := List.getElem?_eq_some_iff.mp hget
  simp only [Manager.setJob, hi]
  refine ⟨h.sound, ?_, ?_⟩
  · rw [List.map_set, howner]
    have hsame : (s.writeJobs.map jobOwner).set i (jobOwner s.writeJobs[i]) =
        s.writeJobs.map jobOwner := by
      rw [← List.getElem_map jobOwner (h := by simpa using hlt), List.set_getElem_self]
    rw [hsame]
    exact h.owners
  · intro other hother
    rcases List.mem_or_eq_of_mem_set hother with hold | rfl
    · exact h.registered other hold
    · rw [howner]
      exact h.registered _ (List.getElem_mem hlt)

variable (lib : Libraries) (env : Env) (path : Path)

theorem scanModeFor_release (job : Job) (r : JobRegistry) (owner : JobOwner)
    (hne : owner ≠ jobOwner job) :
    scanModeFor (releaseScanJob job r) owner = scanModeFor r owner := by
  have hget : (releaseScanJob job r).get owner = r.get owner := by
    unfold releaseScanJob
    simp only
    split
    · rfl
    · simp only [JobRegistry.get, List.find?_filter]
      congr 2
      funext j
      by_cases hj : j.1 = owner
      · simp [hj, hne]
      · simp [hj]
  simp only [scanModeFor, hget]

theorem Inv.removeJob {s : Manager} (h : Inv s) {id : Int32} {job : Job}
    (hjob : s.getJob id = some job) (job' : Job) (howner : jobOwner job' = jobOwner job) :
    Inv (s.removeJob id job') := by
  obtain ⟨i, hi, hget⟩ := getJob_eq hjob
  obtain ⟨hlt, rfl⟩ := List.getElem?_eq_some_iff.mp hget
  simp only [Manager.removeJob, hi]
  refine ⟨h.sound, h.owners.sublist ((List.eraseIdx_sublist _ _).map _), ?_⟩
  intro other hother
  obtain ⟨k, hk, hne, rfl⟩ := List.mem_eraseIdx_iff_getElem.mp hother
  rw [scanModeFor_release]
  · exact h.registered _ (List.getElem_mem hk)
  · rw [howner]
    intro heq
    have hk' : k < (s.writeJobs.map jobOwner).length := by simpa using hk
    have hi' : i < (s.writeJobs.map jobOwner).length := by simpa using hlt
    have hmap : (s.writeJobs.map jobOwner)[k] = (s.writeJobs.map jobOwner)[i] := by simpa using heq
    exact hne (h.owners.getElem_inj_iff.mp hmap)

theorem registerScanJob_block {env : Env} {d : Disk File} {job : Job} {r r' : JobRegistry}
    (h : registerScanJob env .block d job r = .ok r') :
    scanModeFor r (jobOwner job) = .off ∧ scanModeFor r' (jobOwner job) = .block ∧
      ∀ owner, owner ≠ jobOwner job → scanModeFor r' owner = scanModeFor r owner := by
  unfold registerScanJob at h
  simp only [reduceCtorEq, if_false] at h
  split at h
  · cases h
  · split at h
    · cases h
    · rename_i hfree
      obtain rfl := Except.ok.inj h
      have hnone : r.get (jobOwner job) = none := by
        rw [not_or, not_or] at hfree
        simpa using hfree.2.1
      refine ⟨by simp only [scanModeFor, hnone], by simp [scanModeFor, JobRegistry.get], ?_⟩
      intro owner hne
      have hget : ∀ keys reservations, JobRegistry.get
          ⟨(jobOwner job, ⟨.block, keys⟩) :: r.jobs, reservations⟩ owner = r.get owner := by
        intro keys reservations
        simp [JobRegistry.get, Ne.symm hne]
      simp only [scanModeFor, hget]

theorem Inv.addJob {s : Manager} (h : Inv s) {env : Env} {job : Job} {registry : JobRegistry}
    (hregister : registerScanJob env .block s.world.disk job s.registry = .ok registry) :
    Inv { s with registry := registry, writeJobs := s.writeJobs ++ [job] } := by
  obtain ⟨hoff, hblock, hothers⟩ := registerScanJob_block hregister
  have hfresh : ∀ other ∈ s.writeJobs, jobOwner other ≠ jobOwner job := by
    intro other hother heq
    have hregistered := h.registered other hother
    rw [heq, hoff] at hregistered
    cases hregistered
  refine ⟨h.sound, ?_, ?_⟩
  · rw [List.map_append, List.nodup_append]
    refine ⟨h.owners, List.nodup_singleton _, ?_⟩
    intro a ha b hb
    obtain ⟨other, hother, rfl⟩ := List.mem_map.mp ha
    obtain rfl := List.mem_singleton.mp hb
    exact hfresh other hother
  · intro other hother
    rcases List.mem_append.mp hother with hold | hnew
    · rw [hothers _ (hfresh other hold)]
      exact h.registered other hold
    · obtain rfl := List.mem_singleton.mp hnew
      exact hblock

theorem inv_newWrite (id fileNum : Int32) (files : List FileEntry)
    (overwriteDetection : Bool) (totalSize : UInt64) (connId : Int32) (s : Manager) (h : Inv s) :
    Inv (newWrite env .block path id fileNum files overwriteDetection totalSize connId s) := by
  unfold newWrite
  split
  · exact h.send _
  · simp only
    split
    · exact h.send _
    · rename_i registry hregister
      exact h.addJob hregister

structure SameRequest (job job' : Job) : Prop where
  owner : jobOwner job' = jobOwner job
  base : job'.base = job.base
  files : job'.files = job.files

theorem SameRequest.refl (job : Job) : SameRequest job job := ⟨rfl, rfl, rfl⟩

theorem SameRequest.trans {a b c : Job} (h : SameRequest a b) (h' : SameRequest b c) :
    SameRequest a c :=
  ⟨h'.owner.trans h.owner, h'.base.trans h.base, h'.files.trans h.files⟩

theorem sameRequest_writeAll (closed : String) (data : Bytes) (job : Job) (w : World) :
    SameRequest job (writeAll env closed data job w).2.1 := by
  unfold writeAll
  split <;> exact ⟨rfl, rfl, rfl⟩

theorem sameRequest_openDownload (codecs : Codecs) (job : Job) (w : World) (name : Path) :
    SameRequest job (openDownload env codecs job w name).2.1 := by
  unfold openDownload
  split
  · exact .refl job
  · simp only
    split
    · exact .refl job
    · split <;> exact ⟨rfl, rfl, rfl⟩

theorem sameRequest_write (codecs : Codecs) (block : Block) (job : Job) (w : World) :
    SameRequest job (write env codecs block job w).2.1 := by
  unfold write
  split
  · exact .refl job
  · split
    · exact .refl job
    · simp only
      generalize hopened : (if toIndex block.fileNum ≠ toIndex job.fileNum ∨ job.dataStream = none
        then _ else _) = opened
      have hsame : SameRequest job opened.2.1 := by
        rw [← hopened]
        split
        · split
          · exact .refl job
          · have hnumber : SameRequest job { job with fileNum := block.fileNum } := ⟨rfl, rfl, rfl⟩
            exact hnumber.trans (sameRequest_openDownload _ _ _ _ _)
        · exact .refl job
      obtain ⟨w', job', error⟩ := opened
      cases error with
      | some text => exact hsame
      | none =>
        have hwritten := sameRequest_writeAll env
          (if block.compressed then "data stream is None" else "file is None")
          (if block.compressed then codecs.decompress block.data else block.data) job' w'
        simp only
        split
        · rename_i w'' job'' text heq
          rw [heq] at hwritten
          exact hsame.trans hwritten
        · rename_i w'' job'' heq
          rw [heq] at hwritten
          exact (hsame.trans hwritten).trans ⟨rfl, rfl, rfl⟩

theorem sameRequest_confirm (d : Disk File) (fileNum : Int32) (answer : Option Confirm)
    (job : Job) : SameRequest job (confirm env d fileNum answer job) := by
  have hoffset : ∀ offset job, SameRequest job (setStreamOffset env d offset job) := by
    intro offset job
    unfold setStreamOffset
    split
    · exact .refl job
    · simp only
      split
      · split <;> exact ⟨rfl, rfl, rfl⟩
      · split
        · split <;> exact ⟨rfl, rfl, rfl⟩
        · exact .refl job
  unfold confirm
  split
  · exact .refl job
  · split
    · exact ⟨rfl, rfl, rfl⟩
    · exact ⟨rfl, rfl, rfl⟩
    · split
      · have hconfirmed : SameRequest job (job.setFileConfirmed true) := ⟨rfl, rfl, rfl⟩
        exact hconfirmed.trans (hoffset _ _)
      · exact ⟨rfl, rfl, rfl⟩
    · exact .refl job

theorem Inv.scanEnabled {s : Manager} (h : Inv s) {id : Int32} {job : Job}
    (hjob : s.getJob id = some job) :
    scanModeFor s.registry (jobOwner job) = .block ∧ isScanEnabledForJob s.registry job = true := by
  obtain ⟨i, -, hget⟩ := getJob_eq hjob
  have hblock := h.registered job (List.mem_of_getElem? hget)
  exact ⟨hblock, by simp [isScanEnabledForJob, hblock]⟩

theorem inv_cancelWrite (id : Int32) (s : Manager) (h : Inv s) : Inv (cancelWrite env id s) := by
  unfold cancelWrite
  split
  · exact h
  · rename_i job hjob
    have hremoved := h.removeJob hjob job rfl
    refine hremoved.withWorld _ ?_
    unfold removeDownloadFile
    split
    · exact (hremoved.sound.removeFile env _).removeFile env _
    · exact hremoved.sound

theorem inv_writeDone (env : ScanEnv) (id fileNum : Int32) (s : Manager) (h : Inv s)
    (hguard : ∀ job, s.getJob id = some job → LeftoverCleared env.toEnv s.world job) :
    Inv (writeDone lib env id fileNum s) := by
  unfold writeDone
  split
  · exact h
  · rename_i job hjob
    obtain ⟨hblock, henabled⟩ := h.scanEnabled hjob
    have hremoved := h.removeJob hjob job rfl
    have hfinish := finishCompletedDownload_finish lib env s.registry none job s.world
        h.sound hblock
    simp only [henabled, Bool.not_true, Bool.false_eq_true, if_false]
    generalize finishCompletedDownload lib env s.registry none job s.world = result at hfinish
    cases hfinish with
    | unchanged hopen =>
      refine (hremoved.withWorld _ ?_).send _
      refine h.sound.modifyTime env.toEnv job ?_
      intro path hpath
      rcases hopen with hstream | hnext | hentry
      · exact hguard job hjob hstream path hpath
      · cases hnext
      · obtain ⟨entry, hsome, -⟩ := entryPath_eq hpath
        rw [hentry] at hsome
        cases hsome
    | failed w' job' text hsound howner => exact (hremoved.withWorld _ hsound).send _
    | delivered w' hsound hsettled => exact (hremoved.withWorld _ hsound).send _

theorem inv_writeError (id fileNum : Int32) (err : String) (s : Manager) (h : Inv s) :
    Inv (writeError id fileNum err s) := by
  unfold writeError
  split
  · exact h
  · rename_i job hjob
    exact (h.removeJob hjob job rfl).send _

theorem Inv.written {s : Manager} (h : Inv s) {id : Int32} {job : Job}
    (hjob : s.getJob id = some job) (w : World) (job' : Job) (hsound : Sound w)
    (howner : jobOwner job' = jobOwner job) :
    Inv ({ s with world := w }.setJob id job') ∧
      ∀ reply, Inv (({ s with world := w }.removeJob id job').send reply) := by
  have hworld := h.withWorld w hsound
  exact ⟨hworld.setJob hjob job' howner, fun reply =>
    (hworld.removeJob hjob job' howner).send reply⟩

theorem inv_writeBlock (env : ScanEnv) (block : Block) (s : Manager) (h : Inv s)
    (hguard : ∀ job, s.getJob block.id = some job → LeftoverCleared env.toEnv s.world job ∧
      (toIndex block.fileNum = toIndex job.fileNum → InTransfer s.world.disk job)) :
    Inv (writeBlock lib env block s) := by
  unfold writeBlock
  split
  · exact h
  · rename_i job hjob
    obtain ⟨hblock, henabled⟩ := h.scanEnabled hjob
    obtain ⟨hleftover, hintransfer⟩ := hguard job hjob
    have hfinish := finishCompletedDownload_finish lib env s.registry (some block.fileNum) job
      s.world h.sound hblock
    simp only [henabled, Bool.not_true, Bool.false_eq_true, if_false]
    generalize finishCompletedDownload lib env s.registry (some block.fileNum) job s.world = result
      at hfinish
    have written_of_write : ∀ {j : Job} {w : World},
        Sound (write env.toEnv lib.toCodecs block j w).1 →
        jobOwner (write env.toEnv lib.toCodecs block j w).2.1 = jobOwner job →
        Inv (match write env.toEnv lib.toCodecs block j w with
          | (w, job, none) => { s with world := w }.setJob block.id job
          | (w, job, some text) =>
            ({ s with world := w }.removeJob block.id job).send
              (.error block.id text block.fileNum)) := by
      intro j w hsound howner
      obtain ⟨hgoes, hends⟩ := h.written hjob _ _ hsound howner
      split
      · rename_i heq
        rw [heq] at hgoes
        exact hgoes
      · rename_i heq
        rw [heq] at hends
        exact hends _
    cases hfinish with
    | unchanged hopen =>
      have hsound := h.sound.write env.toEnv lib.toCodecs block job (by
        intro hreopens path hpath
        rcases hopen with hstream | hnext | hentry
        · exact hleftover hstream path hpath
        · rcases hreopens with hother | hstream
          · exact absurd (congrArg toIndex (Option.some.inj hnext)) hother
          · exact hleftover hstream path hpath
        · obtain ⟨entry, hsome, -⟩ := entryPath_eq hpath
          rw [hentry] at hsome
          cases hsome) hintransfer
      exact written_of_write hsound (sameRequest_write _ _ _ _ _).owner
    | failed w' job' text hsound howner =>
      exact ((h.withWorld w' hsound).removeJob hjob job rfl).send _
    | delivered w' hsound hsettled =>
      have hwritten := hsound.write env.toEnv lib.toCodecs block job.closeStream
        (fun _ path hpath => (hsettled path hpath).cleared)
        (fun _ inode pos hstream => by cases hstream)
      exact written_of_write hwritten (sameRequest_write _ _ _ _ _).owner

theorem inv_checkDigest (id fileNum : Int32)
    (fileSize lastModified : UInt64) (isUpload isResume : Bool) (s : Manager) (h : Inv s) :
    Inv (checkDigest lib env id fileNum fileSize lastModified isUpload isResume s) := by
  unfold checkDigest
  split
  · exact h
  · rename_i job hjob
    split
    · exact h
    · simp only
      split
      · exact h.send _
      · have hset := h.setJob hjob (job.setDigest fileSize lastModified) rfl
        split <;> exact hset.send _

theorem inv_sendConfirm (id fileNum : Int32) (answer : Option Confirm) (s : Manager)
    (h : Inv s) : Inv (sendConfirm env id fileNum answer s) := by
  unfold sendConfirm
  split
  · exact h
  · rename_i job hjob
    exact h.setJob hjob _ (sameRequest_confirm env _ fileNum answer job).owner

theorem inv_handleResult (s : Manager) (id fileNum : Int32) (result : World × Option String)
    (h : Inv s) (hsound : Sound result.1) : Inv (handleResult s id fileNum result) := by
  unfold handleResult
  simp only
  split
  · exact (h.withWorld _ hsound).send _
  · exact (h.withWorld _ hsound).send _

theorem sound_removeFile (w : World) (h : Sound w) : Sound (removeFile env path w).1 := by
  unfold removeFile
  split
  · exact h
  · exact h.removeFile env path

theorem sound_createDir (w : World) (h : Sound w) : Sound (createDir env path w).1 := by
  unfold createDir
  split
  · exact h
  · exact h.put _ (h.entries.createDirAll (fun _ => trivial) env.os path)

theorem sound_removeDir (recursive : Bool) (w : World) (h : Sound w) :
    Sound (removeDir env path recursive w).1 := by
  unfold removeDir
  split
  · split
    · split
      · exact h.put _ ((h.entries.clearBelow _ _).removeDir path)
      · exact h
    · exact h
  · exact h.put _ (h.entries.removeDir path)

theorem each_releaseMoved {env : Env} {path target : Path} {w : World} {d : Disk File}
    (h : Sound w) (hrename : w.disk.rename env.os path target = some d)
    (hmoved : ∀ p q, w.disk.resolve env.os.cwd false path = .at p →
      w.disk.resolve env.os.cwd false target = .at q → p ≠ q →
      ∀ rest node, (p ++ rest, node) ∈ w.disk.entries → MayMove w.trace (q ++ rest) node) :
    (releaseMoved w.disk d).Each (EntryOk w.trace) := by
  intro r node hmem
  obtain ⟨old, hold, rfl⟩ := (d.mem_map _ r node).mp hmem
  rcases Disk.mem_rename hrename hold with hstays | ⟨p, q, rest, hp, hq, hne, rfl, hentry⟩
  · have hok := h.entries r old hstays
    cases old with
    | dir => exact trivial
    | link t => exact hok
    | file inode f =>
      have hstood : stood w.disk r inode = true :=
        List.any_eq_true.mpr ⟨_, hstays, by simp [Node.inode?]⟩
      simpa [Node.map, hstood] using hok
  · have hmay := hmoved p q hp hq hne rest old hentry
    cases old with
    | dir => exact trivial
    | link t => exact hmay
    | file inode f =>
      simp only [Node.map]
      split
      · rename_i hquarantined
        exact fun _ => hmay (by simp [hquarantined.1])
      · exact fun horigin => hmay (by simp [horigin])

theorem renameFile_cases (newName : Path) (w : World) :
    (renameFile env path newName w).1 = w ∨
      ∃ target d, renameTarget path newName = some target ∧
        w.disk.rename env.os path target = some d ∧
        (renameFile env path newName w).1 = w.put (releaseMoved w.disk d) := by
  unfold renameFile
  split
  · exact Or.inl rfl
  split
  · exact Or.inl rfl
  split
  · exact Or.inl rfl
  split
  · exact Or.inl rfl
  split
  · exact Or.inl rfl
  rename_i target htarget
  split
  · rename_i d hrename
    exact Or.inr ⟨target, d, htarget, hrename, rfl⟩
  · exact Or.inl rfl

theorem sound_renameFile (newName : Path) (w : World) (h : Sound w)
    (hguard : RenameHarmless env w path newName) : Sound (renameFile env path newName w).1 := by
  rcases renameFile_cases env path newName w with hsame | ⟨target, d, htarget, hrename, hmoved⟩
  · rwa [hsame]
  · rw [hmoved]
    exact h.put _ (each_releaseMoved h hrename (hguard target · · htarget))

theorem inv_step (s t : Manager) (event : ScanEnv × Message)
    (hguard : Guarded s event) (h : Inv s) (hstep : step lib .block s event = some t) : Inv t := by
  obtain rfl := Option.some.inj hstep
  obtain ⟨env, message⟩ := event
  cases message with
  | removeDir path id recursive =>
    exact inv_handleResult s id 0 _ h (sound_removeDir env.toEnv path recursive s.world h.sound)
  | removeFile path id fileNum =>
    exact inv_handleResult s id fileNum _ h (sound_removeFile env.toEnv path s.world h.sound)
  | createDir path id =>
    exact inv_handleResult s id 0 _ h (sound_createDir env.toEnv path s.world h.sound)
  | newWrite path id fileNum files overwriteDetection totalSize connId =>
    exact inv_newWrite env.toEnv path id fileNum files overwriteDetection totalSize connId s h
  | cancelWrite id => exact inv_cancelWrite env.toEnv id s h
  | writeDone id fileNum => exact inv_writeDone lib env id fileNum s h hguard
  | writeError id fileNum err => exact inv_writeError id fileNum err s h
  | writeBlock block => exact inv_writeBlock lib env block s h hguard
  | checkDigest id fileNum fileSize lastModified isUpload isResume =>
    exact inv_checkDigest lib env.toEnv id fileNum fileSize lastModified isUpload isResume s h
  | sendConfirm id fileNum answer => exact inv_sendConfirm env.toEnv id fileNum answer s h
  | rename path newName id =>
    exact inv_handleResult s id 0 _ h (sound_renameFile env.toEnv path newName s.world
      h.sound hguard)
  | close => exact ⟨h.sound, List.nodup_nil, fun job hjob => by cases hjob⟩

/-- In every run whose messages all meet the guard, each content that got a final name had been
found clean before. At the start no received file has a final name, and no link the name of a
file in transfer. -/
theorem placed_contents_vetted (lib : Libraries) (disk : Disk File) (hdisk : disk.Each (EntryOk []))
    (events : List (ScanEnv × Message)) (s : Manager)
    (hmeets : Runs.Meets Guarded (step lib .block) (start disk) events)
    (hexec : Runs.exec (step lib .block) (start disk) events = some s) : Vetted s.world.trace := by
  have hnone : Vetted [] := by
    intro i p data hplaced
    cases hplaced
  have hstart : Inv (start disk) :=
    ⟨⟨hnone, hdisk⟩, List.nodup_nil, fun job hjob => by cases hjob⟩
  exact (Runs.invariant_of_meets Guarded (step lib .block) Inv
    (fun s event t hguard h hstep => inv_step lib s t event hguard h hstep) (start disk) s events
    hstart hmeets hexec).sound.vetted

def emptyDisk : Disk File := Disk.empty

def sampleLibraries : Libraries :=
  ⟨⟨id, fun _ _ => [], fun _ => none⟩, fun _ => "0".toList, "/q".toList⟩

def sampleEnv : ScanEnv :=
  ⟨⟨⟨[], fun _ _ => true⟩, 0, "error", true, none⟩, true, fun _ _ => some .clean, 1000,
    0, true, true⟩

def sampleNewWrite : ScanEnv × Message :=
  (sampleEnv, .newWrite "/".toList 1 0 [⟨"f".toList, 0⟩] false 1 1)

def sampleWriteBlock (data : Bytes) : ScanEnv × Message :=
    (sampleEnv, .writeBlock ⟨1, 0, data, false⟩)

def sampleJob : Job :=
  { Job.newWrite 1 "/".toList 0 false with
    files := [⟨"f".toList, 0⟩]
    totalSize := 1
    connId := 1 }

def sampleTransfer : List (ScanEnv × Message) :=
  [sampleNewWrite, sampleWriteBlock [66], (sampleEnv, .writeDone 1 0)]

def traceAfter (events : List (ScanEnv × Message)) : Option (List Act) :=
  (Runs.exec (step sampleLibraries .block) (start emptyDisk) events).map fun s => s.world.trace

theorem cleared_of_absent {env : Env} {d : Disk File} {path : Path} (trace : List Act)
    (h : d.node env.os.cwd false path = none) : Cleared env trace d path := by
  intro p inode f hresolve hget
  simp only [Disk.node, hresolve, hget] at h
  cases h

/-- The run meets the guard: nothing stands at the place of the download when it begins, and the
download is open when the job ends. -/
theorem sampleTransfer_meets :
    Runs.Meets Guarded (step sampleLibraries .block) (start emptyDisk) sampleTransfer := by
  refine ⟨trivial, fun s₁ h₁ => ⟨?_, fun s₂ h₂ => ⟨?_, fun _ _ => trivial⟩⟩⟩
  · intro job hjob
    obtain rfl := Option.some.inj h₁
    have hget : (handleFs sampleLibraries .block sampleEnv sampleNewWrite.2
        (start emptyDisk)).getJob 1 = some sampleJob := by decide
    obtain rfl : sampleJob = job := Option.some.inj (hget.symm.trans hjob)
    refine ⟨fun _ path hpath => cleared_of_absent _ ?_, fun _ inode pos hstream => by cases hstream⟩
    have hentry : sampleJob.entryPath sampleEnv.toEnv emptyDisk =
        some "/f".toList := by decide
    obtain rfl := Option.some.inj (hentry.symm.trans hpath)
    decide
  · intro job hjob hstream
    obtain rfl := Option.some.inj h₁
    obtain rfl := Option.some.inj h₂
    have hopen : ((handleFs sampleLibraries .block (sampleWriteBlock [66]).1
        (sampleWriteBlock [66]).2
        (handleFs sampleLibraries .block sampleNewWrite.1 sampleNewWrite.2
          (start emptyDisk))).getJob 1).all (fun job => job.dataStream.isSome) = true := by
      decide
    rw [hjob, Option.all_some, hstream] at hopen
    cases hopen

/-- A clean file gets its final name after the scan. -/
theorem placed_contents_vetted_sample :
    traceAfter sampleTransfer = some [.scanned [66] .clean, .placed [['f']] [66]] ∧
      ∀ s, Runs.exec (step sampleLibraries .block) (start emptyDisk) sampleTransfer = some s →
        Vetted s.world.trace :=
  ⟨by decide, fun s hexec => placed_contents_vetted sampleLibraries emptyDisk
    (fun p node hmem => by cases hmem) sampleTransfer s sampleTransfer_meets hexec⟩

/-- A job ends early and leaves its download. The first block of the next job gives the
download the final name, and nothing was scanned. -/
theorem leftover_placed_unscanned :
    ∃ s, Runs.exec (step sampleLibraries .block) (start emptyDisk)
        [sampleNewWrite, sampleWriteBlock [66], (sampleEnv, .writeError 1 0 ""), sampleNewWrite,
          sampleWriteBlock [67]] = some s ∧ ¬ Vetted s.world.trace := by
  have htrace : traceAfter [sampleNewWrite, sampleWriteBlock [66],
      (sampleEnv, .writeError 1 0 ""), sampleNewWrite, sampleWriteBlock [67]] =
        some [.placed [['f']] [66]] := by decide
  obtain ⟨s, hs, htrace⟩ := Option.map_eq_some_iff.mp htrace
  refine ⟨s, hs, ?_⟩
  intro hvetted
  obtain ⟨j, hj, -⟩ := hvetted 0 [['f']] [66] (by rw [htrace]; rfl)
  exact absurd hj (Nat.not_lt_zero j)

end ClantoDesk.ConnectionManager
