import ClantoDesk.FileTree
import ClantoDesk.Traced
import ClantoDesk.TransferJob

/-!
The paths a write job passes to the system, libs/base/src/fs.rs. The names of the files come from
the peer; the destination of the job, its base, does not. The operations of a job are repeated here
with the paths they use, and give the same results. A checked name leads from the base down, and an
empty one, which only a transfer of one file may have, is the base itself.
-/
namespace ClantoDesk.ConfinedPaths

open FileSystem TransferJob Traced

/-! ### The operations with the paths they use -/

/-- `symlink_metadata` of every name on the way. -/
def checkComponents (env : Env) (d : Disk File) :
    Path → List Name → Traced Path (Except String Unit)
  | _, [] => pure (.ok ())
  | current, name :: rest =>
    if name = ['.', '.'] then pure (.error "invalid file name component")
    else do
      let current := join current name
      let failed := "failed to validate path component '" ++ String.ofList current ++
        "': " ++ env.osError
      use current
      match d.resolve env.os.cwd false current with
      | .at p =>
        if !env.os.allows .stat p then pure (.error failed)
        else
          match d.get p with
          | some (.link _) => pure (.error "symlink path component is not allowed")
          | _ => checkComponents env d current rest
      | .missing => checkComponents env d current rest
      | .invalid => pure (.error failed)

def validateNoSymlinkComponents (env : Env) (d : Disk File) (base name : Path) :
    Traced Path (Except String Unit) :=
  if isAbsolute name then pure (.error "invalid file name component")
  else checkComponents env d base (components name)

def joinValidatedPath (env : Env) (d : Disk File) (base name : Path) :
    Traced Path (Except String Path) :=
  match validateFileNameNoTraversal name with
  | .error text => pure (.error text)
  | .ok () => do
    match ← validateNoSymlinkComponents env d base name with
    | .error text => pure (.error text)
    | .ok () => pure (.ok (joinName base name))

def checkFiles (env : Env) (d : Disk File) (base : Path) :
    List FileEntry → Traced Path (Except String Unit)
  | [] => pure (.ok ())
  | file :: rest => do
    match ← validateNoSymlinkComponents env d base file.name with
    | .error text => pure (.error text)
    | .ok () => checkFiles env d base rest

def setFiles (env : Env) (d : Disk File) (files : List FileEntry) (job : Job) :
    Traced Path (Except String Job) :=
  match validateTransferFileNames files with
  | .error text => pure (.error text)
  | .ok () => do
    match ← checkFiles env d job.base files with
    | .error text => pure (.error text)
    | .ok () => pure (.ok { job with files := files, totalSize := 0 })

def removeFile (env : Env) (path : Path) (w : World) : Traced Path World := do
  use path
  pure (w.removeFile env path)

def rename (env : Env) (src dst : Path) (w : World) : Traced Path World := do
  use src
  use dst
  pure (w.rename env src dst)

def setFileMtime (env : Env) (path : Path) (seconds : UInt64) (w : World) : Traced Path World := do
  use path
  pure (w.setFileMtime env path seconds)

def modifyTime (env : Env) (job : Job) (w : World) : Traced Path World :=
  match job.entry with
  | none => pure w
  | some entry => do
    match ← joinValidatedPath env w.disk job.base entry.name with
    | .error _ => pure w
    | .ok path => do
      let w ← removeFile env (path ++ digestSuffix) w
      let w ← rename env (path ++ downloadSuffix) path w
      setFileMtime env path entry.modifiedTime w

def currentDownload (env : Env) (d : Disk File) (job : Job) :
    Traced Path (Except String (Option CompletedDownload)) :=
  match job.dataStream, job.entry with
  | some _, some entry => do
    match ← joinValidatedPath env d job.base entry.name with
    | .error text => pure (.error text)
    | .ok finalPath =>
      let name := if entry.name.isEmpty then (fileName finalPath).getD [] else entry.name
      pure (.ok (some ⟨finalPath ++ downloadSuffix, finalPath, name⟩))
  | _, _ => pure (.ok none)

def entryPaths (env : Env) (d : Disk File) (base : Path) :
    List FileEntry → Traced Path (Except String (List Path))
  | [] => pure (.ok [])
  | entry :: rest => do
    match ← joinValidatedPath env d base entry.name with
    | .error text => pure (.error text)
    | .ok path =>
      match ← entryPaths env d base rest with
      | .error text => pure (.error text)
      | .ok paths => pure (.ok (path :: (path ++ downloadSuffix) :: paths))

def downloadPaths (env : Env) (d : Disk File)
    (job : Job) : Traced Path (Except String (List Path)) :=
  entryPaths env d job.base job.files

def removeDownloadFile (env : Env) (job : Job) (w : World) : Traced Path World :=
  match job.entry with
  | none => pure w
  | some entry => do
    match ← joinValidatedPath env w.disk job.base entry.name with
    | .error _ => pure w
    | .ok path => do
      let w ← removeFile env (path ++ downloadSuffix) w
      removeFile env (path ++ digestSuffix) w

/-- `create_dir_all` of the parent. -/
def createParents (env : Env) (path : Path) (w : World) : Traced Path World :=
  let w := w.put (w.disk.createParents env.os path)
  match parent path with
  | some dir => do
    use dir
    pure w
  | none => pure w

def openDownload (env : Env) (codecs : Codecs) (job : Job) (w : World) (name : Path) :
    Traced Path (World × Job × Option String) := do
  match ← joinValidatedPath env w.disk job.base name with
  | .error text => pure (w, job, some text)
  | .ok path => do
    let w ← createParents env path w
    let digestPath := path ++ digestSuffix
    use digestPath
    if env.pathExists w.disk digestPath && (w.disk.removeFile env.os digestPath).isNone then
      pure (w, job, some env.osError)
    else do
      let w := if env.pathExists w.disk digestPath then w.removeFile env digestPath else w
      use (path ++ downloadSuffix)
      match w.disk.create env.os (path ++ downloadSuffix) ⟨[], env.now, .received⟩ with
      | none => pure (w, job, some env.osError)
      | some (d, inode) => do
        let w := w.put d
        let digest : File := ⟨codecs.digestJson job.digest.size job.digest.modified, env.now, .host⟩
        use digestPath
        let w := w.put (((w.disk.create env.os digestPath digest).map fun r => r.1).getD w.disk)
        pure (w, { job with dataStream := some (.writer inode 0) }, none)

/-- The part of `write` that goes on to another file. -/
def nextFile (env : Env) (codecs : Codecs) (block : Block) (job : Job) (w : World) (name : Path) :
    Traced Path (World × Job × Option String) :=
  if toIndex block.fileNum ≠ toIndex job.fileNum ∨ job.dataStream = none then do
    let w ← modifyTime env job w
    if job.dataStream.isSome && !env.flushed then pure (w, job, some env.osError)
    else openDownload env codecs { job with fileNum := block.fileNum } w name
  else pure (w, job, none)

def write (env : Env) (codecs : Codecs) (block : Block) (job : Job) (w : World) :
    Traced Path (World × Job × Option String) :=
  if block.id ≠ job.id then pure (w, job, some "Wrong id")
  else
    match job.files[toIndex block.fileNum]? with
    | none => pure (w, job, some "Wrong file number")
    | some entry => do
      match ← nextFile env codecs block job w entry.name with
      | (w, job, some text) => pure (w, job, some text)
      | (w, job, none) =>
        let data := if block.compressed then codecs.decompress block.data else block.data
        let closed := if block.compressed then "data stream is None" else "file is None"
        match writeAll env closed data job w with
        | (w, job, some text) => pure (w, job, some text)
        | (w, job, none) =>
          pure (w, { job with
            finishedSize := job.finishedSize + data.length
            transferred := job.transferred + block.data.length }, none)

/-! ### The results are the same -/

variable (P : Path → Prop) (env : Env) (codecs : Codecs) (block : Block) (d : Disk File)
  (base name path : Path) (files : List FileEntry) (job : Job) (w : World)

theorem checkComponents_value (current : Path) (names : List Name) :
    (checkComponents env d current names).value =
      TransferJob.checkComponents env d current names := by
  induction names generalizing current with
  | nil => rfl
  | cons name rest ih =>
    rw [checkComponents, TransferJob.checkComponents]
    split
    · rfl
    · simp only [value_bind]
      cases d.resolve env.os.cwd false (join current name) with
      | «at» p =>
        cases hallowed : env.os.allows .stat p with
        | false => simp [hallowed]
        | true =>
          simp only [hallowed, Bool.not_true, Bool.false_eq_true, if_false]
          cases d.get p with
          | none => exact ih _
          | some node =>
            cases node with
            | dir => exact ih _
            | link target => rfl
            | file inode content => exact ih _
      | missing => exact ih _
      | invalid => rfl

theorem validateNoSymlinkComponents_value :
    (validateNoSymlinkComponents env d base name).value =
      TransferJob.validateNoSymlinkComponents env d base name := by
  unfold validateNoSymlinkComponents TransferJob.validateNoSymlinkComponents
  split
  · rfl
  · exact checkComponents_value env d base (components name)

theorem joinValidatedPath_value :
    (joinValidatedPath env d base name).value =
      TransferJob.joinValidatedPath env d base name := by
  unfold joinValidatedPath TransferJob.joinValidatedPath
  cases validateFileNameNoTraversal name with
  | error text => rfl
  | ok _ =>
    simp only [validateNoSymlinkComponents_value, bind, Except.bind]
    cases TransferJob.validateNoSymlinkComponents env d base name <;> rfl

theorem checkFiles_value :
    (checkFiles env d base files).value =
      files.forM fun file => TransferJob.validateNoSymlinkComponents env d base file.name := by
  induction files with
  | nil => rfl
  | cons file rest ih =>
    rw [checkFiles, value_bind, validateNoSymlinkComponents_value]
    change _ = (TransferJob.validateNoSymlinkComponents env d base file.name >>= fun _ =>
      rest.forM fun file => TransferJob.validateNoSymlinkComponents env d base file.name)
    cases TransferJob.validateNoSymlinkComponents env d base file.name with
    | error text => rfl
    | ok _ => exact ih

theorem setFiles_value : (setFiles env d files job).value = job.setFiles env d files := by
  unfold setFiles Job.setFiles
  cases validateTransferFileNames files with
  | error text => rfl
  | ok _ =>
    simp only [checkFiles_value, bind, Except.bind]
    cases files.forM fun file => TransferJob.validateNoSymlinkComponents env d job.base file.name
    <;> rfl

theorem modifyTime_value : (modifyTime env job w).value = TransferJob.modifyTime env job w := by
  unfold modifyTime TransferJob.modifyTime Job.entryPath
  cases job.entry with
  | none => rfl
  | some entry =>
    simp only [value_bind, joinValidatedPath_value]
    cases TransferJob.joinValidatedPath env w.disk job.base entry.name <;> rfl

theorem currentDownload_value :
    (currentDownload env d job).value = TransferJob.currentDownload env d job := by
  unfold currentDownload TransferJob.currentDownload
  cases job.dataStream with
  | none => rfl
  | some stream =>
    cases job.entry with
    | none => rfl
    | some entry =>
      simp only [joinValidatedPath_value, bind, Except.bind]
      cases TransferJob.joinValidatedPath env d job.base entry.name <;> rfl

theorem entryPaths_value :
    (entryPaths env d base files).value = (do
      let paths ← files.mapM fun entry => do
        let path ← TransferJob.joinValidatedPath env d base entry.name
        pure [path, path ++ downloadSuffix]
      pure paths.flatten : Except String (List Path)) := by
  induction files with
  | nil => rfl
  | cons entry rest ih =>
    rw [entryPaths, value_bind, joinValidatedPath_value, List.mapM_cons]
    cases TransferJob.joinValidatedPath env d base entry.name with
    | error text => rfl
    | ok path =>
      simp only [ih, bind, Except.bind, pure, Except.pure]
      cases List.mapM (m := Except String) _ rest <;> rfl

theorem removeDownloadFile_value :
    (removeDownloadFile env job w).value = TransferJob.removeDownloadFile env job w := by
  unfold removeDownloadFile TransferJob.removeDownloadFile Job.entryPath
  cases job.entry with
  | none => rfl
  | some entry =>
    simp only [value_bind, joinValidatedPath_value]
    cases TransferJob.joinValidatedPath env w.disk job.base entry.name <;> rfl

theorem createParents_value :
    (createParents env path w).value = w.put (w.disk.createParents env.os path) := by
  unfold createParents
  cases parent path <;> rfl

theorem openDownload_value (name : Path) :
    (openDownload env codecs job w name).value =
      TransferJob.openDownload env codecs job w name := by
  unfold openDownload TransferJob.openDownload
  rw [value_bind, joinValidatedPath_value]
  cases TransferJob.joinValidatedPath env w.disk job.base name with
  | error text => rfl
  | ok path =>
    simp only [value_bind, createParents_value]
    split
    · rfl
    · rw [value_bind]
      generalize Disk.create env.os _ (path ++ downloadSuffix) _ = created
      cases created <;> rfl

theorem nextFile_value (name : Path) : (nextFile env codecs block job w name).value =
      if toIndex block.fileNum ≠ toIndex job.fileNum ∨ job.dataStream = none then
        let w := TransferJob.modifyTime env job w
        if job.dataStream.isSome && !env.flushed then (w, job, some env.osError)
        else TransferJob.openDownload env codecs { job with fileNum := block.fileNum } w name
      else (w, job, none) := by
  unfold nextFile
  split
  · simp only [value_bind, modifyTime_value]
    split
    · rfl
    · exact openDownload_value env codecs _ _ name
  · rfl

theorem write_value :
    (write env codecs block job w).value = TransferJob.write env codecs block job w := by
  unfold write TransferJob.write
  split
  · rfl
  · cases job.files[toIndex block.fileNum]? with
    | none => rfl
    | some entry =>
      simp only [value_bind, nextFile_value]
      generalize (if toIndex block.fileNum ≠ toIndex job.fileNum ∨ job.dataStream = none then _
        else _) = opened
      obtain ⟨w', job', failed⟩ := opened
      cases failed with
      | some text => rfl
      | none =>
        simp only
        generalize writeAll _ _ _ _ _ = written
        obtain ⟨w'', job'', failed⟩ := written
        cases failed <;> rfl

/-! ### The paths -/

def Accepted (name : Path) : Prop := validateFileNameNoTraversal name = .ok ()

/-- A path that the check or the use of a file name under the base touches. -/
inductive Touched (base name : Path) : Path → Prop
  | component (names : List Name) : names ≠ [] → names <+: components name →
      ['.', '.'] ∉ names → Touched base name (names.foldl join base)
  | final : Accepted name → Touched base name (joinName base name)
  | suffixed (suffix : Path) : Accepted name → suffix = downloadSuffix ∨ suffix = digestSuffix →
      Touched base name (joinName base name ++ suffix)
  | parent (dir : Path) : Accepted name → parent (joinName base name) = some dir →
      Touched base name dir

theorem checkComponents_uses
    (pre rest : List Name) (hnames : pre ++ rest = components name) (hdots : ['.', '.'] ∉ pre) :
    Uses (Touched base name) (checkComponents env d (pre.foldl join base) rest) := by
  induction rest generalizing pre with
  | nil => exact uses_pure _ _
  | cons c rest ih =>
    have hlast : (pre ++ [c]).foldl join base = join (pre.foldl join base) c := by
      rw [List.foldl_append]
      rfl
    have hmore : pre ++ [c] ++ rest = components name := by
      rw [List.append_assoc]
      exact hnames
    rw [checkComponents]
    split
    · exact uses_pure _ _
    · rename_i hc
      have hpre : ['.', '.'] ∉ pre ++ [c] := by
        rw [List.mem_append, List.mem_singleton, not_or]
        exact ⟨hdots, fun heq => hc heq.symm⟩
      have hgoesOn := ih (pre ++ [c]) hmore hpre
      rw [hlast] at hgoesOn
      refine uses_bind _ _ _ (uses_use _ _ ?_) ?_
      · rw [← hlast]
        exact .component (pre ++ [c]) (by simp) ⟨rest, hmore⟩ hpre
      · split
        · split
          · exact uses_pure _ _
          · split
            · exact uses_pure _ _
            · exact hgoesOn
        · exact hgoesOn
        · exact uses_pure _ _

theorem validateNoSymlinkComponents_uses :
    Uses (Touched base name) (validateNoSymlinkComponents env d base name) := by
  unfold validateNoSymlinkComponents
  split
  · exact uses_pure _ _
  · exact checkComponents_uses env d base name [] (components name) rfl List.not_mem_nil

theorem joinValidatedPath_uses : Uses (Touched base name) (joinValidatedPath env d base name) := by
  unfold joinValidatedPath
  split
  · exact uses_pure _ _
  · refine uses_bind _ _ _ (validateNoSymlinkComponents_uses env d base name) ?_
    split
    · exact uses_pure _ _
    · exact uses_pure _ _

theorem accepted_of_join (h : (joinValidatedPath env d base name).value = .ok path) :
    Accepted name ∧ path = joinName base name := by
  rw [joinValidatedPath_value] at h
  refine ⟨?_, joinValidatedPath_ok h⟩
  unfold TransferJob.joinValidatedPath at h
  cases hname : validateFileNameNoTraversal name with
  | error text =>
    rw [hname] at h
    cases h
  | ok _ => exact hname

theorem checkComponents_no_link (current : Path) (names : List Name)
    (h : TransferJob.checkComponents env d current names = .ok ()) (pre : List Name)
    (hne : pre ≠ [])
    (hpre : pre <+: names) (target : Path) :
    d.node env.os.cwd false (pre.foldl join current) ≠ some (.link target) := by
  induction names generalizing current pre with
  | nil => exact absurd (List.prefix_nil.mp hpre) hne
  | cons c rest ih =>
    obtain ⟨tail, htail⟩ := hpre
    cases pre with
    | nil => exact absurd rfl hne
    | cons x pre =>
      obtain ⟨rfl, hrest⟩ := List.cons.inj htail
      rw [TransferJob.checkComponents] at h
      split at h
      · cases h
      · have hgoesOn : (∀ target, d.node env.os.cwd false (join current x) ≠ some (.link target)) ∧
            TransferJob.checkComponents env d (join current x) rest = .ok () := by
          simp only [Disk.node] at h ⊢
          cases hfound : d.resolve env.os.cwd false (join current x) with
          | «at» p =>
            rw [hfound] at h
            simp only at h ⊢
            split at h
            · cases h
            · split at h
              · cases h
              · rename_i hnode
                exact ⟨fun target heq => hnode target heq, h⟩
          | missing =>
            rw [hfound] at h
            exact ⟨fun target heq => (by cases heq), h⟩
          | invalid =>
            rw [hfound] at h
            cases h
        by_cases hpre : pre = []
        · subst hpre
          exact hgoesOn.1 target
        · exact ih (join current x) hgoesOn.2 pre hpre ⟨tail, hrest⟩

theorem joinValidatedPath_no_link
    (h : TransferJob.joinValidatedPath env d base name = .ok path) (names : List Name)
    (hne : names ≠ []) (hnames : names <+: components name) (target : Path) :
    d.node env.os.cwd false (names.foldl join base) ≠ some (.link target) := by
  have hchecked : TransferJob.validateNoSymlinkComponents env d base name = .ok () := by
    unfold TransferJob.joinValidatedPath at h
    cases hname : validateFileNameNoTraversal name with
    | error text =>
      rw [hname] at h
      cases h
    | ok _ =>
      cases hlinks : TransferJob.validateNoSymlinkComponents env d base name with
      | error text =>
        rw [hname, hlinks] at h
        cases h
      | ok _ => rfl
  unfold TransferJob.validateNoSymlinkComponents at hchecked
  split at hchecked
  · cases hchecked
  · exact checkComponents_no_link env d base (components name) hchecked names hne hnames target

theorem uses_joined {α : Type} (env : Env) (d : Disk File) (base name : Path) (P : Path → Prop)
    (f : Except String Path → Traced Path α) (hP : ∀ p, Touched base name p → P p)
    (herror : ∀ text, Uses P (f (.error text)))
    (hok : Accepted name → Uses P (f (.ok (joinName base name)))) :
    Uses P (joinValidatedPath env d base name >>= f) := by
  refine uses_bind _ _ _ ((joinValidatedPath_uses env d base name).mono _ _ _ hP) ?_
  cases hpath : (joinValidatedPath env d base name).value with
  | error text => exact herror text
  | ok path =>
    obtain ⟨hname, rfl⟩ := accepted_of_join env d base name path hpath
    exact hok hname

def TouchedBy (base : Path) (files : List FileEntry) (path : Path) : Prop :=
  ∃ file ∈ files, Touched base file.name path

theorem checkFiles_uses : Uses (TouchedBy base files) (checkFiles env d base files) := by
  induction files with
  | nil => exact uses_pure _ _
  | cons file rest ih =>
    rw [checkFiles]
    refine uses_bind _ _ _ ?_ ?_
    · exact (validateNoSymlinkComponents_uses env d base file.name).mono _ _ _
        fun p hp => ⟨file, List.mem_cons_self .., hp⟩
    · split
      · exact uses_pure _ _
      · exact ih.mono _ _ _ fun p ⟨other, hmem, hp⟩ => ⟨other, List.mem_cons_of_mem _ hmem, hp⟩

theorem setFiles_uses : Uses (TouchedBy job.base files) (setFiles env d files job) := by
  unfold setFiles
  split
  · exact uses_pure _ _
  · refine uses_bind _ _ _ (checkFiles_uses env d job.base files) ?_
    split
    · exact uses_pure _ _
    · exact uses_pure _ _

theorem touchedBy_of_entry (entry : FileEntry) (hentry : job.entry = some entry)
    (p : Path) (h : Touched job.base entry.name p) : TouchedBy job.base job.files p :=
  ⟨entry, List.mem_of_getElem? hentry, h⟩

theorem removeFile_uses (h : P path) : Uses P (removeFile env path w) :=
  uses_bind _ _ _ (uses_use _ _ h) (uses_pure _ _)

theorem rename_uses (src dst : Path) (w : World) (hsrc : P src)
    (hdst : P dst) : Uses P (rename env src dst w) :=
  uses_bind _ _ _ (uses_use _ _ hsrc) (uses_bind _ _ _ (uses_use _ _ hdst) (uses_pure _ _))

theorem setFileMtime_uses (seconds : UInt64) (w : World)
    (h : P path) : Uses P (setFileMtime env path seconds w) :=
  uses_bind _ _ _ (uses_use _ _ h) (uses_pure _ _)

theorem modifyTime_uses : Uses (TouchedBy job.base job.files) (modifyTime env job w) := by
  unfold modifyTime
  cases hentry : job.entry with
  | none => exact uses_pure _ _
  | some entry =>
    have hby := touchedBy_of_entry job entry hentry
    refine uses_joined env w.disk job.base entry.name _ _ hby (fun _ => uses_pure _ _) ?_
    intro hname
    have hfinal := hby _ (.final hname)
    have hdownload := hby _ (.suffixed downloadSuffix hname (Or.inl rfl))
    have hdigest := hby _ (.suffixed digestSuffix hname (Or.inr rfl))
    refine uses_bind _ _ _ (removeFile_uses _ env _ w hdigest) ?_
    refine uses_bind _ _ _ (rename_uses _ env _ _ _ hdownload hfinal) ?_
    exact setFileMtime_uses _ env _ _ _ hfinal

theorem removeDownloadFile_uses :
    Uses (TouchedBy job.base job.files) (removeDownloadFile env job w) := by
  unfold removeDownloadFile
  cases hentry : job.entry with
  | none => exact uses_pure _ _
  | some entry =>
    have hby := touchedBy_of_entry job entry hentry
    refine uses_joined env w.disk job.base entry.name _ _ hby (fun _ => uses_pure _ _) ?_
    intro hname
    refine uses_bind _ _ _ (removeFile_uses _ env _ w ?_) (removeFile_uses _ env _ _ ?_)
    · exact hby _ (.suffixed downloadSuffix hname (Or.inl rfl))
    · exact hby _ (.suffixed digestSuffix hname (Or.inr rfl))

theorem currentDownload_uses : Uses (TouchedBy job.base job.files) (currentDownload env d job) := by
  unfold currentDownload
  cases job.dataStream with
  | none => exact uses_pure _ _
  | some stream =>
    cases hentry : job.entry with
    | none => exact uses_pure _ _
    | some entry =>
      have hby := touchedBy_of_entry job entry hentry
      exact uses_joined env d job.base entry.name _ _ hby (fun _ => uses_pure _ _)
        fun _ => uses_pure _ _

theorem currentDownload_paths (done : CompletedDownload)
    (h : TransferJob.currentDownload env d job = .ok (some done)) :
    TouchedBy job.base job.files done.finalPath ∧
      TouchedBy job.base job.files done.downloadPath := by
  rw [← currentDownload_value] at h
  unfold currentDownload at h
  cases hstream : job.dataStream with
  | none =>
    rw [hstream] at h
    cases h
  | some stream =>
    cases hentry : job.entry with
    | none =>
      rw [hstream, hentry] at h
      cases h
    | some entry =>
      simp only [hstream, hentry, value_bind] at h
      cases hpath : (joinValidatedPath env d job.base entry.name).value with
      | error text =>
        rw [hpath] at h
        cases h
      | ok path =>
        obtain ⟨hname, rfl⟩ := accepted_of_join env d job.base entry.name path hpath
        rw [hpath] at h
        obtain rfl := Option.some.inj (Except.ok.inj h)
        have hby := touchedBy_of_entry job entry hentry
        exact ⟨hby _ (.final hname), hby _ (.suffixed downloadSuffix hname (Or.inl rfl))⟩

theorem entryPaths_uses : Uses (TouchedBy base files) (entryPaths env d base files) := by
  induction files with
  | nil => exact uses_pure _ _
  | cons entry rest ih =>
    rw [entryPaths]
    refine uses_joined env d base entry.name _ _ ?_ (fun _ => uses_pure _ _) ?_
    · exact fun p hp => ⟨entry, List.mem_cons_self .., hp⟩
    · intro _
      refine uses_bind _ _ _ (ih.mono _ _ _ ?_) ?_
      · exact fun p ⟨other, hmem, hp⟩ => ⟨other, List.mem_cons_of_mem _ hmem, hp⟩
      · split
        · exact uses_pure _ _
        · exact uses_pure _ _

theorem entryPaths_paths (paths : List Path) (h : (entryPaths env d base files).value = .ok paths) :
    ∀ p ∈ paths, TouchedBy base files p := by
  induction files generalizing paths with
  | nil =>
    rw [← Except.ok.inj h]
    exact fun p hp => absurd hp List.not_mem_nil
  | cons entry rest ih =>
    rw [entryPaths, value_bind] at h
    cases hpath : (joinValidatedPath env d base entry.name).value with
    | error text =>
      rw [hpath] at h
      cases h
    | ok path =>
      obtain ⟨hname, rfl⟩ := accepted_of_join env d base entry.name path hpath
      rw [hpath] at h
      simp only [value_bind] at h
      cases hmore : (entryPaths env d base rest).value with
      | error text =>
        rw [hmore] at h
        cases h
      | ok more =>
        rw [hmore] at h
        obtain rfl := Except.ok.inj h
        intro p hp
        rcases List.mem_cons.mp hp with rfl | hp
        · exact ⟨entry, List.mem_cons_self .., .final hname⟩
        rcases List.mem_cons.mp hp with rfl | hp
        · exact ⟨entry, List.mem_cons_self .., .suffixed downloadSuffix hname (Or.inl rfl)⟩
        · obtain ⟨other, hmem, hother⟩ := ih more hmore p hp
          exact ⟨other, List.mem_cons_of_mem _ hmem, hother⟩

theorem createParents_uses
    (h : ∀ dir, parent path = some dir → P dir) : Uses P (createParents env path w) := by
  unfold createParents
  cases hparent : parent path with
  | none => exact uses_pure _ _
  | some dir => exact uses_bind _ _ _ (uses_use _ _ (h dir hparent)) (uses_pure _ _)

theorem openDownload_uses (name : Path) :
    Uses (Touched job.base name) (openDownload env codecs job w name) := by
  unfold openDownload
  refine uses_joined env w.disk job.base name _ _ (fun _ hp => hp) (fun _ => uses_pure _ _) ?_
  intro hname
  have hdownload : Touched job.base name _ := .suffixed downloadSuffix hname (Or.inl rfl)
  have hdigest : Touched job.base name _ := .suffixed digestSuffix hname (Or.inr rfl)
  refine uses_bind _ _ _ (createParents_uses _ env _ w fun dir hdir => .parent dir hname hdir) ?_
  refine uses_bind _ _ _ (uses_use _ _ hdigest) ?_
  split
  · exact uses_pure _ _
  refine uses_bind _ _ _ (uses_use _ _ hdownload) ?_
  split
  · exact uses_pure _ _
  · exact uses_bind _ _ _ (uses_use _ _ hdigest) (uses_pure _ _)

theorem nextFile_uses (entry : FileEntry) (hentry : entry ∈ job.files) :
    Uses (TouchedBy job.base job.files) (nextFile env codecs block job w entry.name) := by
  unfold nextFile
  split
  · refine uses_bind _ _ _ (modifyTime_uses env job w) ?_
    split
    · exact uses_pure _ _
    · exact (openDownload_uses env codecs { job with fileNum := block.fileNum } _ entry.name).mono
        _ _ _ fun p hp => ⟨entry, hentry, hp⟩
  · exact uses_pure _ _

theorem write_uses : Uses (TouchedBy job.base job.files) (write env codecs block job w) := by
  unfold write
  split
  · exact uses_pure _ _
  · split
    · exact uses_pure _ _
    · rename_i entry hentry
      refine uses_bind _ _ _
        (nextFile_uses env codecs block job w entry (List.mem_of_getElem? hentry)) ?_
      split
      · exact uses_pure _ _
      · simp only
        generalize writeAll _ _ _ _ _ = written
        obtain ⟨w', job', failed⟩ := written
        cases failed with
        | some text => exact uses_pure _ _
        | none => exact uses_pure _ _

/-! ### Where the paths lead -/

/-- The path leads from the base down along the names. -/
structure Inside (base path : Path) (names : List Name) : Prop where
  absolute : isAbsolute path = isAbsolute base
  components : components path = components base ++ names
  dots : ['.', '.'] ∉ names

theorem accepted_iff : Accepted name ↔
    '\x00' ∉ name ∧ ['.', '.'] ∉ name.splitOn '/' ∧ isAbsolute name = false := by
  unfold Accepted validateFileNameNoTraversal
  by_cases hnull : '\x00' ∈ name
  · simp [hnull]
  by_cases hdots : ['.', '.'] ∈ name.splitOn '/'
  · simp [hnull, hdots]
  cases habsolute : isAbsolute name with
  | false => simp [hnull, hdots]
  | true => simp [hnull, hdots]

theorem dots_not_mem_components (h : Accepted name) : ['.', '.'] ∉ components name :=
  fun hmem => ((accepted_iff name).mp h).2.1 (List.mem_filter.mp hmem).1

theorem join_spec (hname : isAbsolute name = false) :
    isAbsolute (join base name) = isAbsolute base ∧
      components (join base name) = components base ++ components name := by
  by_cases hbase : base = []
  · subst hbase
    have hjoin : join [] name = name := by
      unfold join
      rw [if_pos (by simp)]
    rw [hjoin]
    exact ⟨hname, rfl⟩
  · have hbelow := (below_self base hbase).join name hname
    exact ⟨hbelow.absolute, hbelow.components⟩

theorem inside_joinName (h : Accepted name) :
    Inside base (joinName base name) (components name) := by
  have hdots := dots_not_mem_components name h
  unfold joinName
  split
  · rename_i hempty
    rw [List.isEmpty_iff.mp hempty]
    exact ⟨rfl, (List.append_nil _).symm, List.not_mem_nil⟩
  · obtain ⟨habsolute, hcomponents⟩ := join_spec base name ((accepted_iff name).mp h).2.2
    exact ⟨habsolute, hcomponents, hdots⟩

theorem inside_suffixed (suffix : Path) (h : Accepted name) (hname : name ≠ [])
    (hslash : '/' ∉ suffix) (hlong : 2 < suffix.length) :
    ∃ names, names ≠ [] ∧ Inside base (joinName base name ++ suffix) names := by
  have habsolute := ((accepted_iff name).mp h).2.2
  have hhead : isAbsolute (name ++ suffix) = false := by
    cases name with
    | nil => exact absurd rfl hname
    | cons c name => exact habsolute
  have hpath : joinName base name ++ suffix = join base (name ++ suffix) := by
    rw [joinName, if_neg (by simpa using hname), join_append base name suffix hname]
  obtain ⟨hsame, hcomponents⟩ := join_spec base (name ++ suffix) hhead
  rw [hpath]
  refine ⟨components (name ++ suffix), ?_, hsame, hcomponents, ?_⟩
  · rw [components_append name suffix hslash (by omega)]
    simp
  · exact dots_not_mem_append name suffix hslash hlong (dots_not_mem_components name h)

theorem inside_foldl (names : List Name) (path : Path)
    (h : ∀ c ∈ names, c ∈ components path) (hdots : ['.', '.'] ∉ names) :
    Inside base (names.foldl join base) names := by
  induction names using List.reverseRecOn with
  | nil => exact ⟨rfl, (List.append_nil _).symm, hdots⟩
  | append_singleton names c ih =>
    have hfront := ih (fun x hx => h x (List.mem_append_left _ hx))
      fun hmem => hdots (List.mem_append_left _ hmem)
    obtain ⟨hsingle, habsolute⟩ :=
      components_of_mem path c (h c (List.mem_append_right _ (List.mem_singleton_self c)))
    obtain ⟨hsame, hcomponents⟩ := join_spec (names.foldl join base) c habsolute
    rw [List.foldl_append, List.foldl_cons, List.foldl_nil]
    refine ⟨hsame.trans hfront.absolute, ?_, hdots⟩
    rw [hcomponents, hfront.components, hsingle, List.append_assoc]

theorem inside_parent (dir : Path) (h : Accepted name) (hne : components name ≠ [])
    (hdir : parent (joinName base name) = some dir) :
    Inside base dir (components name).dropLast := by
  have hinside := inside_joinName base name h
  obtain ⟨habsolute, hcomponents⟩ := parent_eq_some _ dir hdir
  refine ⟨habsolute.trans hinside.absolute, ?_, ?_⟩
  · rw [hcomponents, hinside.components, List.dropLast_append_of_ne_nil hne]
  · exact fun hmem => hinside.dots (List.dropLast_subset _ hmem)

/-- Where a touched path leads: below the base, to the base itself when the name has no component,
next to the base with a suffix when the name is empty, or to the parent of the file. -/
theorem touched_inside (h : Touched base name path) :
    (∃ names, names ≠ [] ∧ Inside base path names) ∨
      (components name = [] ∧ path = joinName base name) ∨
      (name = [] ∧ (path = base ++ downloadSuffix ∨ path = base ++ digestSuffix)) ∨
      (parent (joinName base name) = some path ∧
        (components name ≠ [] → Inside base path (components name).dropLast)) := by
  cases h with
  | component names hne hprefix hdots =>
    exact Or.inl ⟨names, hne, inside_foldl base names name (fun c hc => hprefix.subset hc) hdots⟩
  | final hname =>
    by_cases hnil : components name = []
    · exact Or.inr (Or.inl ⟨hnil, rfl⟩)
    · exact Or.inl ⟨_, hnil, inside_joinName base name hname⟩
  | suffixed suffix hname hsuffix =>
    by_cases hnil : name = []
    · subst hnil
      refine Or.inr (Or.inr (Or.inl ⟨rfl, ?_⟩))
      exact hsuffix.imp (fun h => by rw [h]; rfl) fun h => by rw [h]; rfl
    · have hplain : '/' ∉ suffix ∧ 2 < suffix.length := by
        rcases hsuffix with rfl | rfl
        · decide
        · decide
      exact Or.inl (inside_suffixed base name suffix hname hnil hplain.1 hplain.2)
  | parent dir hname hdir =>
    exact Or.inr (Or.inr (Or.inr ⟨hdir, fun hne => inside_parent base name path hname hne hdir⟩))

/-- An accepted name leads from the base down and over no link, and every path an operation of a job
uses or answers with is one of its files or belongs to the check of its name. -/
theorem paths_confined (env : Env) (codecs : Codecs) :
    (∀ d base name path, TransferJob.joinValidatedPath env d base name = .ok path →
      Inside base path (components name) ∧
        ∀ names, names ≠ [] → names <+: components name → ∀ target,
          d.node env.os.cwd false (names.foldl join base) ≠ some (.link target)) ∧
    (∀ d files job, (setFiles env d files job).value = job.setFiles env d files ∧
      Uses (TouchedBy job.base files) (setFiles env d files job)) ∧
    (∀ job w, (modifyTime env job w).value = TransferJob.modifyTime env job w ∧
      Uses (TouchedBy job.base job.files) (modifyTime env job w)) ∧
    (∀ job w, (removeDownloadFile env job w).value = TransferJob.removeDownloadFile env job w ∧
      Uses (TouchedBy job.base job.files) (removeDownloadFile env job w)) ∧
    (∀ block job w, (write env codecs block job w).value = TransferJob.write env codecs
      block job w ∧
      Uses (TouchedBy job.base job.files) (write env codecs block job w)) ∧
    (∀ d job, (currentDownload env d job).value = TransferJob.currentDownload env d job ∧
      Uses (TouchedBy job.base job.files) (currentDownload env d job) ∧
      ∀ done, TransferJob.currentDownload env d job = .ok (some done) →
        TouchedBy job.base job.files done.finalPath ∧
          TouchedBy job.base job.files done.downloadPath) ∧
    (∀ d job, (downloadPaths env d job).value = TransferJob.downloadPaths env d job ∧
      Uses (TouchedBy job.base job.files) (downloadPaths env d job) ∧
      ∀ paths, TransferJob.downloadPaths env d job = .ok paths →
        ∀ p ∈ paths, TouchedBy job.base job.files p) ∧
    ∀ base name path, Touched base name path →
      (∃ names, names ≠ [] ∧ Inside base path names) ∨
        (components name = [] ∧ path = joinName base name) ∨
        (name = [] ∧ (path = base ++ downloadSuffix ∨ path = base ++ digestSuffix)) ∨
        (parent (joinName base name) = some path ∧
          (components name ≠ [] → Inside base path (components name).dropLast)) := by
  refine ⟨?_, ?_, ?_, ?_, ?_, ?_, ?_, touched_inside⟩
  · intro d base name path h
    have hvalue : (joinValidatedPath env d base name).value = .ok path :=
      (joinValidatedPath_value env d base name).trans h
    obtain ⟨hname, rfl⟩ := accepted_of_join env d base name path hvalue
    exact ⟨inside_joinName base name hname, joinValidatedPath_no_link env d base name _ h⟩
  · exact fun d files job => ⟨setFiles_value env d files job, setFiles_uses env d files job⟩
  · exact fun job w => ⟨modifyTime_value env job w, modifyTime_uses env job w⟩
  · exact fun job w => ⟨removeDownloadFile_value env job w, removeDownloadFile_uses env job w⟩
  · exact fun block job w => ⟨write_value env codecs block job w, write_uses env codecs block job w⟩
  · exact fun d job => ⟨currentDownload_value env d job, currentDownload_uses env d job,
      currentDownload_paths env d job⟩
  · intro d job
    have hvalue : (downloadPaths env d job).value = TransferJob.downloadPaths env d job :=
      entryPaths_value env d job.base job.files
    refine ⟨hvalue, entryPaths_uses env d job.base job.files, fun paths hpaths => ?_⟩
    exact entryPaths_paths env d job.base job.files paths (hvalue.trans hpaths)

/-! ### What is not below the base -/

def plainEnv : Env := ⟨⟨[], fun _ _ => true⟩, 0, "error", true, none⟩

def plainCodecs : Codecs := ⟨id, fun _ _ => [], fun _ => none⟩

def plainJob (name : Path) : Job :=
  { Job.newWrite 1 "/b".toList 0 false with files := [⟨name, 0⟩] }

def Proper (base path : Path) : Prop :=
  components base <+: components path ∧ components path ≠ components base ∧
    ['.', '.'] ∉ components path

/-- The empty name is the base, and the parent of a file directly in the base is the base as
well. -/
theorem base_touched :
    (¬ ∀ (env : Env) (d : Disk File) (base name path : Path),
        (∀ p target, d.get p ≠ some (.link target)) →
        TransferJob.joinValidatedPath env d base name = .ok path → Proper base path) ∧
      ¬ ∀ (env : Env) (codecs : Codecs) (block : Block) (job : Job) (w : World),
        Uses (fun p => ∃ q, Proper job.base q ∧
          (p = q ∨ p = q ++ downloadSuffix ∨ p = q ++ digestSuffix))
          (write env codecs block job w) := by
  constructor
  · intro h
    have hempty : ∀ p target, (Disk.empty : Disk File).get p ≠ some (.link target) := by
      intro p target
      unfold Disk.get
      split <;> simp [Disk.empty]
    exact (h plainEnv Disk.empty "/b".toList [] "/b".toList hempty (by decide)).2.1 rfl
  · intro h
    have hmem : "/b".toList ∈ (write plainEnv plainCodecs ⟨1, 0, [], false⟩ (plainJob "f".toList)
        ⟨Disk.empty, []⟩).trace := by
      decide
    obtain ⟨q, hproper, hq⟩ := h plainEnv plainCodecs ⟨1, 0, [], false⟩ (plainJob "f".toList)
      ⟨Disk.empty, []⟩ _ hmem
    have hlong : ∀ suffix : Path, 2 < suffix.length → "/b".toList ≠ q ++ suffix := by
      intro suffix hsuffix heq
      have hlength := congrArg List.length heq
      have htwo : "/b".toList.length = 2 := by decide
      rw [List.length_append] at hlength
      omega
    rcases hq with hq | hq | hq
    · exact hproper.2.1 (congrArg components hq.symm)
    · exact hlong downloadSuffix (by decide) hq
    · exact hlong digestSuffix (by decide) hq

end ClantoDesk.ConfinedPaths
