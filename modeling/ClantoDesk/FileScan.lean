import ClantoDesk.TransferJob

/-!
The antimalware check of received files, src/clanto/file_scan.rs. A job is registered with the
mode in force and reserves the paths it writes. When a download is complete it is closed and
scanned, and then gets its final name or goes to the quarantine. The engine, the time it may
take and the hash are inputs. The reports of the outcome are left out.
-/
namespace ClantoDesk.FileScan

open FileSystem TransferJob
open TenantKeys (Bytes)

def blockedScanMessage : String := "File bloccato dal controllo antimalware"

def quarantineBasenameMax : ℕ := 120

inductive ScanMode
  | off | warn | block
  deriving DecidableEq

inductive ScanDecision
  | deliver | quarantine

/-- The hash and the folder of the quarantine, with what the transfer needs. -/
structure Libraries extends Codecs where
  sha256 : Bytes → List Char
  quarantineDir : Path

/-- What one message meets besides the system: whether the file can be prepared in time, the
answer of the engine if there is one, the size limit, the clock in milliseconds and whether the
permissions of the quarantine and of a file in it can be set. -/
structure ScanEnv extends Env where
  prepared : Bool
  engine : Path → Bytes → Option ScanOutcomeKind
  maxScanBytes : ℕ
  timestamp : ℕ
  dirSecured : Bool
  fileSecured : Bool

structure JobOwner where
  connId : Int32
  jobId : Int32
  deriving DecidableEq

structure RegisteredJob where
  mode : ScanMode
  reservedPaths : List Location

structure JobRegistry where
  jobs : List (JobOwner × RegisteredJob)
  reservations : List (Location × JobOwner)

def JobRegistry.get (r : JobRegistry) (owner : JobOwner) : Option RegisteredJob :=
  (r.jobs.find? fun j => j.1 = owner).map fun j => j.2

def JobRegistry.reservedBy (r : JobRegistry) (key : Location) : Option JobOwner :=
  (r.reservations.find? fun k => k.1 = key).map fun k => k.2

def jobOwner (job : Job) : JobOwner := ⟨job.connId, job.id⟩

def normalizePath (cwd : Location) (path : Path) : Location :=
  (components path).foldl (fun p c => if c = ['.', '.'] then p.dropLast else p ++ [c])
    (if isAbsolute path then [] else cwd)

def scanModeFor (r : JobRegistry) (owner : JobOwner) : ScanMode :=
  match r.get owner with
  | some job => job.mode
  | none => .off

def isScanEnabledForJob (r : JobRegistry) (job : Job) : Bool := scanModeFor r (jobOwner job) ≠ .off

def registerScanJob (env : Env) (mode : ScanMode) (d : Disk File) (job : Job) (r : JobRegistry) :
    Except String JobRegistry :=
  let owner := jobOwner job
  if mode = .off then .ok r
  else
    match downloadPaths env d job with
    | .error _ => .error blockedScanMessage
    | .ok paths =>
      let keys := paths.map (normalizePath env.os.cwd)
      if ¬ keys.Nodup ∨ (r.get owner).isSome ∨
          (keys.any fun key => (r.reservedBy key).any fun other => other ≠ owner) then
        .error blockedScanMessage
      else
        .ok
          { jobs := (owner, ⟨mode, keys⟩) :: r.jobs
            reservations :=
              keys.map (fun key => (key, owner)) ++ r.reservations.filter fun k => k.1 ∉ keys }

def releaseScanJob (job : Job) (r : JobRegistry) : JobRegistry :=
  let owner := jobOwner job
  match r.get owner with
  | none => r
  | some registered =>
    { jobs := r.jobs.filter fun j => j.1 ≠ owner
      reservations := r.reservations.filter fun k =>
        ¬ (k.1 ∈ registered.reservedPaths ∧ k.2 = owner) }

def releaseScanJobs (jobs : List Job) (r : JobRegistry) : JobRegistry :=
  jobs.foldl (fun r job => releaseScanJob job r) r

def scanDecision (mode : ScanMode) (outcome : ScanOutcomeKind) : ScanDecision :=
  if mode = .block ∧ (outcome = .malware ∨ outcome = .unavailable) then .quarantine else .deliver

def boundedScanPipeline (lib : Libraries) (env : ScanEnv) (path name : Path) (w : World) :
    World × List Char × ScanOutcomeKind :=
  match if env.prepared then w.disk.openFile env.os path else none with
  | none => (w, [], .unavailable)
  | some (_, f) =>
    let sha256 := lib.sha256 f.data
    if env.maxScanBytes < f.data.length then (w, sha256, .unavailable)
    else
      match env.engine name f.data with
      | none => (w, sha256, .unavailable)
      | some kind => (⟨w.disk, w.trace ++ [.scanned f.data kind]⟩, sha256, kind)

def auditBasename (name : Path) : Path :=
  ((name.splitOnP fun c => c == '/' || c == '\\').reverse.find? fun c => !c.isEmpty).getD []

def safeQuarantineBasename (name : Path) : Path :=
  let safe := ((auditBasename name).map fun c =>
    if c.isAlphanum || c == '.' || c == '-' || c == '_' then c else '_').take quarantineBasenameMax
  if safe.isEmpty then "file".toList else safe

def quarantinePath (lib : Libraries) (env : ScanEnv) (download : CompletedDownload)
    (sha256 : List Char) : Path :=
  let sha256 := if sha256.isEmpty then "sha256-unavailable".toList else sha256
  join lib.quarantineDir ((toString env.timestamp).toList ++ '-' :: sha256 ++
    '-' :: safeQuarantineBasename download.name)

def File.quarantine (f : File) : File := { f with origin := .quarantined }

def markQuarantined (env : Env) (path : Path) (d : Disk File) : Disk File :=
  match d.node env.os.cwd false path with
  | some (.file inode _) => d.update inode File.quarantine
  | _ => d

/-- Moves the download to the quarantine, by a copy if it cannot be renamed; says whether all
of it succeeded. -/
def quarantine (lib : Libraries) (env : ScanEnv) (download : CompletedDownload)
    (sha256 : List Char) (w : World) : World × Bool :=
  let destination := quarantinePath lib env download sha256
  let w := w.put (w.disk.createParents env.os destination)
  if !env.dirSecured then (w, false)
  else
    let digestPath := download.finalPath ++ digestSuffix
    let marked := markQuarantined env.toEnv download.downloadPath w.disk
    match marked.rename env.os download.downloadPath destination with
    | some d => ((w.put d).removeFile env.toEnv digestPath, env.fileSecured)
    | none =>
      match w.disk.openFile env.os download.downloadPath with
      | none => (w, false)
      | some (_, f) =>
        match w.disk.create env.os destination (File.quarantine f) with
        | none => (w, false)
        | some (d, _) =>
          let w := w.put d
          match w.disk.removeFile env.os download.downloadPath with
          | none => (w, false)
          | some d => ((w.put d).removeFile env.toEnv digestPath, env.fileSecured)

/-- Scans the download a job has open, if another file begins or the job ends. Says whether
the download was scanned and has its final name. -/
def finishCompletedDownload (lib : Libraries) (env : ScanEnv) (r : JobRegistry)
    (next : Option Int32) (job : Job) (w : World) : World × Job × Except String Bool :=
  let mode := scanModeFor r (jobOwner job)
  if mode = .off ∨ next = some job.fileNum then (w, job, .ok false)
  else
    match currentDownload env.toEnv w.disk job with
    | .error text => (w, job, .error text)
    | .ok none => (w, job, .ok false)
    | .ok (some download) =>
      match dropCurrentDownloadWriter env.toEnv job with
      | (job, some text) => (w, job, .error text)
      | (job, none) =>
        let (w, sha256, kind) := boundedScanPipeline lib env download.downloadPath download.name w
        match scanDecision mode kind with
        | .deliver => (modifyTime env.toEnv job w, job, .ok true)
        | .quarantine =>
          let (w, moved) := quarantine lib env download sha256 w
          (w, job, .error (if moved then blockedScanMessage
            else blockedScanMessage ++ ": errore durante la quarantena"))

theorem Sound.scanned {w : World} (h : Sound w) (data : Bytes) (kind : ScanOutcomeKind) :
    Sound ⟨w.disk, w.trace ++ [.scanned data kind]⟩ := by
  refine ⟨vetted_append _ _ h.vetted ?_, fun p node hmem => (h.entries p node hmem).append _⟩
  intro p placed hmem
  simp at hmem

variable (lib : Libraries) (env : ScanEnv)

/-- The scan changes no file, and a clean outcome is about what the path leads to. -/
theorem boundedScanPipeline_disk (w : World) (path name : Path) :
    (boundedScanPipeline lib env path name w).1.disk = w.disk := by
  unfold boundedScanPipeline
  split
  · rfl
  · simp only
    split
    · rfl
    · split <;> rfl

theorem boundedScanPipeline_spec (path name : Path) (w : World) (h : Sound w) :
    (boundedScanPipeline lib env path name w).1.disk = w.disk ∧
      Sound (boundedScanPipeline lib env path name w).1 ∧
      ((boundedScanPipeline lib env path name w).2.2 = .clean →
        ∃ inode f, w.disk.openFile env.os path = some (inode, f) ∧
          Clean (boundedScanPipeline lib env path name w).1.trace f.data) := by
  have hnever : ∀ p : Prop, ScanOutcomeKind.unavailable = .clean → p := by
    intro p hfalse
    cases hfalse
  unfold boundedScanPipeline
  split
  · exact ⟨rfl, h, hnever _⟩
  · rename_i inode f hopen
    simp only
    split
    · exact ⟨rfl, h, hnever _⟩
    · split
      · exact ⟨rfl, h, hnever _⟩
      · rename_i kind hengine
        refine ⟨rfl, Sound.scanned h f.data kind, ?_⟩
        rintro rfl
        split at hopen
        · exact ⟨inode, f, hopen, List.mem_append_right _ List.mem_cons_self⟩
        · cases hopen

/-- A download that was found clean may get its final name. -/
theorem settled_of_clean {trace : List Act} {d : Disk File} (hd : d.Each (EntryOk trace))
    (env : Env)
    (path : Path) (inode : ℕ) (f : File)
    (hopen : d.openFile env.os (path ++ downloadSuffix) = some (inode, f))
    (hclean : Clean trace f.data) : Settled env trace d (path ++ downloadSuffix) := by
  obtain ⟨q, hq, hget⟩ := Disk.openFile_eq hopen
  intro p node hp hnode
  have hfollow := d.resolve_follow env.os.cwd _ p hp (download_not_link hd env path p hp)
  obtain rfl := Found.at.inj (hfollow.symm.trans hq)
  exact ⟨inode, f, Option.some.inj (hnode.symm.trans hget), fun _ => hclean⟩

theorem each_markQuarantined {trace : List Act} {d : Disk File} (hd : d.Each (EntryOk trace))
    (env : Env) (path : Path) : (markQuarantined env path d).Each (EntryOk trace) := by
  unfold markQuarantined
  split
  · refine hd.update _ _ ?_
    intro p f _ hreceived
    cases hreceived
  · exact hd

theorem cleared_markQuarantined (trace : List Act) (d : Disk File) (env : Env) (path : Path) :
    Cleared env trace (markQuarantined env path d) path := by
  intro p inode f hp hget hreceived
  have hnode : ∀ node, d.resolve env.os.cwd false path = .at p → d.get p = some node →
      d.node env.os.cwd false path = some node := by
    intro node hresolve hsome
    simp only [Disk.node, hresolve, hsome]
  by_cases hmarked : ∃ inode' f', d.node env.os.cwd false path = some (.file inode' f')
  · obtain ⟨inode', f', hfile⟩ := hmarked
    have heq : markQuarantined env path d = d.update inode' File.quarantine := by
      simp only [markQuarantined, hfile]
    rw [heq] at hp hget
    obtain ⟨old, hold, rfl⟩ := (d.mem_map_file _ p inode f).mp
      (Disk.mem_of_get_file _ p inode f hget)
    have hplace := d.get_of_mem p _ (Disk.ne_root_of_file _ p inode _ hget) hold
    have hpath := Disk.resolve_within _ d (d.map_within _) env.os.cwd false path p hp
      (Or.inl ⟨inode, old, hplace⟩)
    obtain ⟨rfl, -⟩ := Node.file.inj (Option.some.inj ((hnode _ hpath hplace).symm.trans hfile))
    rw [if_pos rfl] at hreceived
    cases hreceived
  · have heq : markQuarantined env path d = d := by
      unfold markQuarantined
      split
      · rename_i inode' f' hfile
        exact absurd ⟨inode', f', hfile⟩ hmarked
      · rfl
    rw [heq] at hp hget
    exact absurd ⟨inode, f, hnode _ hp hget⟩ hmarked

theorem sound_quarantine (download : CompletedDownload)
    (sha256 : List Char) (w : World) (h : Sound w)
    (hpath : download.downloadPath = download.finalPath ++ downloadSuffix) :
    Sound (quarantine lib env download sha256 w).1 := by
  have hparents := h.put _ (h.entries.createParents (fun _ => trivial) env.os
    (quarantinePath lib env download sha256))
  unfold quarantine
  simp only
  split
  · exact hparents
  · split
    · rename_i d hrename
      refine (hparents.put d ?_).removeFile env.toEnv _
      have hcleared := cleared_markQuarantined
        (w.put (w.disk.createParents env.os (quarantinePath lib env download sha256))).trace
        (w.put (w.disk.createParents env.os (quarantinePath lib env download sha256))).disk
        env.toEnv download.downloadPath
      rw [hpath] at hcleared hrename
      exact each_deliver (each_markQuarantined hparents.entries env.toEnv _) env.toEnv
        download.finalPath _ hcleared hrename
    · split
      · exact hparents
      · split
        · exact hparents
        · rename_i d _ hcreate
          have hcopied := hparents.put d (hparents.entries.create hcreate fun p j _ hreceived => by
            cases hreceived)
          split
          · exact hcopied
          · rename_i d' hremove
            have hremoved := hcopied.put d' (by
              obtain ⟨p, -, -, rfl⟩ := Disk.removeFile_eq hremove
              exact hcopied.entries.erase p)
            exact hremoved.removeFile env.toEnv _

theorem currentDownload_ok {env : Env} {d : Disk File} {job : Job} {download : CompletedDownload}
    (h : currentDownload env d job = .ok (some download)) :
    job.dataStream ≠ none ∧ job.entryPath env d = some download.finalPath ∧
      download.downloadPath = download.finalPath ++ downloadSuffix := by
  unfold currentDownload at h
  split at h
  · rename_i stream entry hstream hentry
    cases hpath : joinValidatedPath env d job.base entry.name with
    | error text =>
      rw [hpath] at h
      cases h
    | ok path =>
      rw [hpath] at h
      obtain rfl := Option.some.inj (Except.ok.inj h)
      refine ⟨by simp [hstream], ?_, rfl⟩
      simp only [Job.entryPath, hentry, hpath, Except.toOption]
  · cases h

theorem currentDownload_none {env : Env} {d : Disk File} {job : Job}
    (h : currentDownload env d job = .ok none) : job.dataStream = none ∨ job.entry = none := by
  unfold currentDownload at h
  split at h
  · rename_i stream entry hstream hentry
    cases hpath : joinValidatedPath env d job.base entry.name with
    | error text =>
      rw [hpath] at h
      cases h
    | ok path =>
      rw [hpath] at h
      cases h
  · rename_i hnot
    cases hstream : job.dataStream with
    | none => exact Or.inl rfl
    | some stream =>
      cases hentry : job.entry with
      | none => exact Or.inr rfl
      | some entry => exact absurd hentry (hnot stream entry hstream)

inductive Finish (env : Env) (next : Option Int32) (job : Job) (w : World) :
    World × Job × Except String Bool → Prop
  | unchanged (hopen : job.dataStream = none ∨ next = some job.fileNum ∨ job.entry = none) :
      Finish env next job w (w, job, .ok false)
  | failed (w' : World) (job' : Job) (text : String) (hsound : Sound w')
      (howner : jobOwner job' = jobOwner job) : Finish env next job w (w', job', .error text)
  | delivered (w' : World) (hsound : Sound w')
      (hsettled : ∀ path, job.closeStream.entryPath env w'.disk = some path →
        Settled env w'.trace w'.disk (path ++ downloadSuffix)) :
      Finish env next job w (w', job.closeStream, .ok true)

theorem scanDecision_deliver (kind : ScanOutcomeKind) (h : scanDecision .block kind = .deliver) :
    kind = .clean := by
  cases kind with
  | clean => rfl
  | malware => cases h
  | unavailable => cases h

/-- In block mode a download is only delivered when it was found clean. -/
theorem finishCompletedDownload_finish (r : JobRegistry)
    (next : Option Int32) (job : Job) (w : World) (h : Sound w)
    (hmode : scanModeFor r (jobOwner job) = .block) :
    Finish env.toEnv next job w (finishCompletedDownload lib env r next job w) := by
  unfold finishCompletedDownload
  simp only [hmode]
  split
  · rename_i hskip
    refine .unchanged ?_
    rcases hskip with hoff | hnext
    · cases hoff
    · exact Or.inr (Or.inl hnext)
  · split
    · rename_i text hdownload
      exact .failed w job text h rfl
    · rename_i hdownload
      rcases currentDownload_none hdownload with hstream | hentry
      · exact .unchanged (Or.inl hstream)
      · exact .unchanged (Or.inr (Or.inr hentry))
    · rename_i download hdownload
      obtain ⟨-, hentryPath, hpath⟩ := currentDownload_ok hdownload
      obtain ⟨entry, hentry, hfinal⟩ := entryPath_eq hentryPath
      split
      · rename_i job' text hdrop
        obtain ⟨rfl, -⟩ := Prod.mk.inj hdrop
        exact .failed w _ text h rfl
      · rename_i job' hdrop
        obtain ⟨rfl, -⟩ := Prod.mk.inj hdrop
        obtain ⟨hdisk, hsound, hclean⟩ :=
          boundedScanPipeline_spec lib env download.downloadPath download.name w h
        generalize boundedScanPipeline lib env download.downloadPath download.name w = scan at *
        obtain ⟨w', sha256, kind⟩ := scan
        simp only at hdisk hsound hclean ⊢
        split
        · rename_i hdecision
          obtain ⟨inode, f, hopen, hscanned⟩ := hclean (scanDecision_deliver kind hdecision)
          have hsettled : ∀ path, job.closeStream.entryPath env.toEnv w'.disk = some path →
              Settled env.toEnv w'.trace w'.disk (path ++ downloadSuffix) := by
            intro path hentryPath
            obtain ⟨entry', hentry', rfl⟩ := entryPath_eq hentryPath
            obtain rfl := Option.some.inj (hentry.symm.trans hentry')
            rw [hpath, hfinal, ← hdisk] at hopen
            exact settled_of_clean hsound.entries env.toEnv _ inode f hopen hscanned
          exact .delivered _
            (hsound.modifyTime env.toEnv _ fun path hp => (hsettled path hp).cleared)
            (Settled.modifyTime hsettled)
        · exact .failed _ _ _ (sound_quarantine lib env download sha256 w' hsound hpath) rfl

end ClantoDesk.FileScan
