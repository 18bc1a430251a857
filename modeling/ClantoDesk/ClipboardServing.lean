import ClantoDesk.BufferedFile
import ClantoDesk.ClipboardFiles
import ClantoDesk.Runs
import Mathlib.Data.List.Nodup

/-!
The files on this side's clipboard, served to the peers. A copy builds the list aside and then
replaces the current one; a list that some connection was sent is retired, at most four of
them, and keeps serving the connections it was sent to. A request names a list by its id. Each
file has one handle for all streams, opened when it is first read, with the offset it stands
at; it is closed at the listed end of the file, and opened again by its path. Programs on this
side replace, remove and write files at any time. Calls on the lists exclude each other.
-/
namespace ClantoDesk.ClipboardServing

open LittleEndian Text ClipboardFiles BufferedFile

def BLOCK_SIZE : ℕ := 4 * 1024 * 1024
def MAX_RANGE_READ : ℕ := 16 * 1024 * 1024
def MAX_RETIRED_CLIP_FILES : ℕ := 4

inductive CliprdrError
  | invalidRequest (description : String)
  | fileError (path : Str)
  deriving DecidableEq

/-- An opening of a file: the inode its path led to, and the version that had. -/
structure Opening where
  inode : ℕ
  version : ℕ

/-- `LocalFile`: what is listed, and the state of its handle. The openings, latest first, are
kept for the statements only. -/
structure ServedFile where
  path : Str
  file : LocalFile
  handle : Option Handle
  offset : ℕ
  openings : List Opening

def ServedFile.name (f : ServedFile) : Str :=
  (f.path.dropWhile (· == '/')).map fun c => if c = '/' then '\\' else c

structure FileSig where
  size : UInt64
  mtime : Option ℤ
  isDir : Bool
  deriving DecidableEq

structure ClipFiles where
  files : List Str
  sigs : List FileSig
  fileList : List ServedFile
  filesPdu : Bytes
  id : Int32
  servedTo : List Int32

def emptyClipFiles : ClipFiles := ⟨[], [], [], [], 0, []⟩

/-- What the operating system refuses during one request. -/
structure Faults where
  opening : Bool
  reading : Bool
  stat : Bool
  preloading : Bool

def ServedFile.load (f : ServedFile) (inode : ℕ) (i : Inode) : ServedFile :=
  { f with
    handle := some (openHandle (BLOCK_SIZE * 2) inode i)
    openings := ⟨inode, i.earlier.length⟩ :: f.openings }

def loadHandle (w : World Str) (fails : Bool) (f : ServedFile) : Except CliprdrError ServedFile :=
  if f.file.isDir = false ∧ f.handle = none then
    if fails then .error (.fileError f.path)
    else match w.lookup f.path with
      | none => .error (.fileError f.path)
      | some (inode, i) => .ok (f.load inode i)
  else .ok f

/-- `invalidate_handle`, and the closing of a file read to its end. -/
def ServedFile.close (f : ServedFile) : ServedFile := { f with handle := none, offset := 0 }

def ServedFile.advance (f : ServedFile) (h : Handle) (offset : ℕ) : ServedFile :=
  { f with handle := some h, offset := offset }

def readAt (w : World Str) (fails : Bool) (h : Handle) (n : ℕ) : Option (Bytes × Handle) :=
  if fails then none else match w.inodes[h.inode]? with
    | none => none
    | some i => h.readExact (BLOCK_SIZE * 2) i n

def readExactAt (w : World Str) (faults : Faults) (f : ServedFile) (n offset : ℕ) :
    ServedFile × Except CliprdrError Bytes :=
  match loadHandle w faults.opening f with
  | .error e => (f, .error e)
  | .ok f => match f.handle with
    | none => (f, .error (.fileError f.path))
    | some h =>
      match readAt w faults.reading (if offset ≠ f.offset then h.seek offset else h) n with
      | none => (f.close, .error (.fileError f.path))
      | some (data, h) =>
        (if f.file.size.toNat ≤ offset + n then f.close else f.advance h (offset + n), .ok data)

inductive FileContentsRequest
  | size (streamId : Int32) (fileIdx : ℕ)
  | range (streamId : Int32) (fileIdx offset length : ℕ)

def ClipFiles.withFiles (c : ClipFiles) (fileList : List ServedFile) : ClipFiles :=
  { c with fileList := fileList }

def ClipFiles.releaseHandles (c : ClipFiles) : ClipFiles :=
  c.withFiles (c.fileList.map fun f => if f.offset = 0 then f.close else f)

def changedSinceSent (f : ServedFile) : CliprdrError :=
  .invalidRequest ("file " ++ String.ofList f.name ++ " changed since its list was sent")

/-- The handle the read will use is open on a file of the listed size and time. -/
def unchanged (w : World Str) (statFails : Bool) (f : ServedFile) : Bool :=
  match f.handle with
  | none => false
  | some h => match w.inodes[h.inode]? with
    | none => false
    | some i => !statFails && decide (i.content.length = f.file.size.toNat) &&
        decide (i.mtime = f.file.lastWriteTime)

def checkRetiredFile (w : World Str) (faults : Faults) (c : ClipFiles) :
    FileContentsRequest → ClipFiles × Except CliprdrError Unit
  | .size _ _ => (c, .ok ())
  | .range _ idx _ _ => match c.fileList[idx]? with
    | none => (c, .ok ())
    | some f =>
      if f.file.isDir then (c, .ok ())
      else match loadHandle w faults.opening f with
        | .error e => (c, .error e)
        | .ok f =>
          (c.withFiles (c.fileList.set idx f),
            if unchanged w faults.stat f then .ok () else .error (changedSinceSent f))

/-- The file after `idx` that is not a directory is opened ahead, if it can be. -/
def preload (w : World Str) (fails : Bool) (idx : ℕ) (fileList : List ServedFile) :
    List ServedFile :=
  match (fileList.drop (idx + 1)).findIdx? fun f => !f.file.isDir with
  | none => fileList
  | some k => fileList.modify (idx + 1 + k) fun f =>
      match loadHandle w fails f with
      | .error _ => f
      | .ok g => g

/-- `FileContentsResponse` with the flags of a success. -/
structure Response where
  streamId : Int32
  requestedData : Bytes
  deriving DecidableEq

def invalidIndex (idx : ℕ) (connId : Int32) : CliprdrError :=
  .invalidRequest (s!"invalid file index {idx} requested from conn: " ++ toString connId)

def invalidOffset (connId : Int32) : CliprdrError :=
  .invalidRequest ("invalid reading offset requested from conn: " ++ toString connId)

def overLimit (readSize : ℕ) (connId : Int32) : CliprdrError :=
  .invalidRequest (s!"file contents request of {readSize} bytes exceeds the " ++
    s!"{MAX_RANGE_READ} byte limit, conn: " ++ toString connId)

def serveFileContents (w : World Str) (faults : Faults) (c : ClipFiles) (connId : Int32) :
    FileContentsRequest → ClipFiles × Except CliprdrError Response
  | .size streamId idx => match c.fileList[idx]? with
    | none => (c, .error (invalidIndex idx connId))
    | some f =>
      (c.withFiles (preload w faults.preloading idx c.fileList),
        .ok ⟨streamId, leBytes 8 f.file.size.toNat⟩)
  | .range streamId idx offset length => match c.fileList[idx]? with
    | none => (c, .error (invalidIndex idx connId))
    | some f =>
      if f.file.size.toNat < offset then (c, .error (invalidOffset connId))
      else
        let readSize := min length (f.file.size.toNat - offset)
        if MAX_RANGE_READ < readSize then (c, .error (overLimit readSize connId))
        else match readExactAt w faults f readSize offset with
          | (f, .error e) => (c.withFiles (c.fileList.set idx f), .error e)
          | (f, .ok data) =>
            (c.withFiles (preload w faults.preloading idx (c.fileList.set idx f)),
              .ok ⟨streamId, data⟩)

/-! ### The current list and the retired ones -/

/-- The world, the lists, every list built with its id and files, and every id sent to a
connection. The last two are kept for the statements only. -/
structure System where
  world : World Str
  current : ClipFiles
  retired : List ClipFiles
  copies : List (Int32 × List (Str × LocalFile))
  sent : List (Int32 × Int32)

def start : System := ⟨⟨[], []⟩, emptyClipFiles, [], [], []⟩

inductive Slot
  | current
  | retired (i : ℕ)

def findRetired (retired : List ClipFiles) (p : ClipFiles → Bool) : Option Slot :=
  (retired.reverse.findIdx? p).map fun i => .retired (retired.length - 1 - i)

def selectClipFiles (s : System) (connId : Int32) : Option Int32 → Option Slot
  | some id =>
    if s.current.id = id then some .current
    else findRetired s.retired fun c => c.id == id && c.servedTo.contains connId
  | none =>
    if s.current.servedTo.contains connId then some .current
    else (findRetired s.retired fun c => c.servedTo.contains connId).or (some .current)

def System.get (s : System) : Slot → ClipFiles
  | .current => s.current
  | .retired i => s.retired.getD i emptyClipFiles

def System.put (s : System) (c : ClipFiles) : Slot → System
  | .current => { s with current := c }
  | .retired i => { s with retired := s.retired.set i c }

/-- The message of a request, with its numbers as the machine words they are. -/
structure Request where
  connId : Int32
  streamId : Int32
  listIndex : Int32
  dwFlags : Int32
  nPositionLow : Int32
  nPositionHigh : Int32
  cbRequested : Int32
  clipDataId : Option Int32

/-- `as usize`: the sign is extended. -/
def Request.fileIdx (r : Request) : ℕ := r.listIndex.toInt64.toUInt64.toNat

def Request.offset (r : Request) : ℕ :=
  ((r.nPositionHigh.toInt64.toUInt64 <<< 32) ||| r.nPositionLow.toUInt32.toUInt64).toNat

def Request.length (r : Request) : ℕ := r.cbRequested.toUInt32.toNat

def Request.contents (r : Request) : Except CliprdrError FileContentsRequest :=
  if r.dwFlags = 1 then .ok (.size r.streamId r.fileIdx)
  else if r.dwFlags = 2 then .ok (.range r.streamId r.fileIdx r.offset r.length)
  else .error (.invalidRequest ("got invalid FileContentsRequest, dw_flats: " ++
    toString r.dwFlags))

def notAvailable (r : Request) : CliprdrError :=
  .invalidRequest ("file list " ++ (match r.clipDataId with
    | none => "None"
    | some id => "Some(" ++ toString id ++ ")") ++
    " is not available to conn: " ++ toString r.connId)

def readFileContents (s : System) (faults : Faults) (r : Request) :
    System × Except CliprdrError Response :=
  match r.contents with
  | .error e => (s, .error e)
  | .ok fcr => match selectClipFiles s r.connId r.clipDataId with
    | none => (s, .error (notAvailable r))
    | some .current =>
      let served := serveFileContents s.world faults s.current r.connId fcr
      (s.put served.1 .current, served.2)
    | some (.retired i) =>
      match checkRetiredFile s.world faults (s.get (.retired i)) fcr with
      | (c, .error e) => (s.put c (.retired i), .error e)
      | (c, .ok ()) =>
        let served := serveFileContents s.world faults c r.connId fcr
        (s.put served.1 (.retired i), served.2)

/-- What a copy finds: the fingerprint of the selection, the files below it or the error that
ended the walk, and the random value of the list. -/
structure Copy where
  files : List Str
  sigs : List FileSig
  found : Except CliprdrError (List (Str × LocalFile))
  nonce : Bytes

def Copy.build (c : Copy) : Except CliprdrError ClipFiles :=
  match c.found with
  | .error e => .error e
  | .ok files => match buildFileListPdu (files.map Prod.snd) c.nonce with
    | .error description => .error (.invalidRequest description)
    | .ok pdu => .ok
        { files := c.files
          sigs := c.sigs
          fileList := files.map fun p => ⟨p.1, p.2, none, 0, []⟩
          filesPdu := pdu
          id := fileListId pdu
          servedTo := [] }

def retireIfServed (replaced : ClipFiles) (retired : List ClipFiles) : List ClipFiles :=
  if replaced.servedTo = [] then retired
  else (if retired.length = MAX_RETIRED_CLIP_FILES then retired.tail else retired) ++
    [replaced.releaseHandles]

def listed (fileList : List ServedFile) : List (Str × LocalFile) :=
  fileList.map fun f => (f.path, f.file)

def System.install (s : System) (next : ClipFiles) : System :=
  { s with
    current := next
    retired := retireIfServed s.current s.retired
    copies := (next.id, listed next.fileList) :: s.copies }

def syncFiles (s : System) (c : Copy) : System × Except CliprdrError Unit :=
  if s.current.files = c.files ∧ s.current.sigs = c.sigs ∧ c.sigs.all (fun sig => !sig.isDir) then
    (s, .ok ())
  else match c.build with
    | .error e => (s, .error e)
    | .ok next => (s.install next, .ok ())

def ClipFiles.noteServed (c : ClipFiles) (connId : Int32) : ClipFiles :=
  { c with servedTo := c.servedTo ++ [connId] }

def getFileListPdu (s : System) (connId : Int32) : System × Bytes :=
  ({ s with
      current := if s.current.filesPdu ≠ [] ∧ connId ∉ s.current.servedTo then
        s.current.noteServed connId else s.current
      sent := if s.current.filesPdu = [] then s.sent else (connId, s.current.id) :: s.sent },
    s.current.filesPdu)

def clearFiles (s : System) : System := { s with current := emptyClipFiles, retired := [] }

inductive Event
  | replace (path : Str) (content : Bytes) (mtime : ℤ)
  | remove (path : Str)
  | write (inode : ℕ) (content : Bytes) (mtime : ℤ)
  | copy (c : Copy)
  | list (connId : Int32)
  | read (faults : Faults) (r : Request)
  | clear

def System.withWorld (s : System) (w : World Str) : System := { s with world := w }

def step (s : System) : Event → Option System
  | .replace path content mtime => some (s.withWorld (s.world.replace path content mtime))
  | .remove path => some (s.withWorld (s.world.remove path))
  | .write inode content mtime => some (s.withWorld (s.world.write inode content mtime))
  | .copy c => some (syncFiles s c).1
  | .list connId => some (getFileListPdu s connId).1
  | .read faults r => some (readFileContents s faults r).1
  | .clear => some (clearFiles s)

/-! ### One file -/

/-- A closed file stands at its beginning, and so do directories; an open handle is good,
stands at the offset, and is the latest opening. -/
structure FileGood (w : World Str) (f : ServedFile) : Prop where
  closed : f.handle = none → f.offset = 0
  directory : f.file.isDir = true → f.handle = none
  opened : ∀ h, f.handle = some h →
    w.Good h ∧ h.pos = f.offset ∧ f.openings.head? = some ⟨h.inode, h.opened⟩

def FromOpening (w : World Str) (o : Opening) (offset : ℕ) (data : Bytes) : Prop :=
  ∃ i, w.inodes[o.inode]? = some i ∧ i.HadAll o.version offset data ∧
    (i.earlier.length = o.version → data = (i.content.drop offset).take data.length)

variable (s t : System) (i : ℕ) (w : World Str) (fails : Bool) (fileList : List ServedFile)
  (faults : Faults) (r : Request) (c d : ClipFiles) (idx : ℕ) (f g : ServedFile) (connId id : Int32)

theorem fromOpening (o : Opening) (i : Inode) (offset : ℕ) (data : Bytes)
    (hi : w.inodes[o.inode]? = some i) (hdata : i.HadAll o.version offset data) :
    FromOpening w o offset data := by
  refine ⟨i, hi, hdata, fun hversion => ?_⟩
  rw [← hversion] at hdata
  exact hdata.eq_slice

theorem fileGood_close : FileGood w f.close :=
  ⟨fun _ => rfl, fun _ => rfl, fun h hh => (by cases hh)⟩

theorem loadHandle_good (hf : FileGood w f) (hload : loadHandle w fails f = .ok g) :
    FileGood w g ∧ (g.path, g.file) = (f.path, f.file) ∧ g.offset = f.offset ∧
      (f.handle ≠ none → g = f) := by
  rw [loadHandle] at hload
  split at hload
  · rename_i hclosed
    split at hload
    · cases hload
    · split at hload
      · cases hload
      · rename_i inode i hlookup
        obtain rfl := Except.ok.inj hload
        refine ⟨⟨fun hnone => (by cases hnone), fun hdir => ?_, fun h hh => ?_⟩, rfl, rfl,
          fun hopen => absurd hclosed.2 hopen⟩
        · have hfile : f.file.isDir = true := hdir
          rw [hclosed.1] at hfile
          cases hfile
        · obtain rfl := Option.some.inj hh
          refine ⟨⟨i, lookup_inodes w f.path inode i hlookup, good_openHandle _ inode i⟩, ?_, rfl⟩
          exact (hf.closed hclosed.2).symm
  · obtain rfl := Except.ok.inj hload
    exact ⟨hf, rfl, rfl, fun _ => rfl⟩

theorem readAt_good (h g : Handle) (n : ℕ) (data : Bytes)
    (hgood : w.Good h) (hread : readAt w fails h n = some (data, g)) :
    data.length = n ∧ FromOpening w ⟨h.inode, h.opened⟩ h.pos data ∧ w.Good g ∧
      g.pos = h.pos + n ∧ g.inode = h.inode ∧ g.opened = h.opened := by
  obtain ⟨i, hi, hg⟩ := hgood
  rw [readAt] at hread
  split at hread
  · cases hread
  · rw [hi] at hread
    obtain ⟨hlength, hdata, hnext, hpos, hinode, hopened⟩ :=
      readExact_good _ n h g i data hg hread
    exact ⟨hlength, fromOpening w _ i _ data hi hdata, ⟨i, hinode ▸ hi, hnext⟩, hpos, hinode,
      hopened⟩

theorem good_seek (h : Handle) (offset : ℕ) (hgood : w.Good h) : w.Good (h.seek offset) := by
  obtain ⟨i, hi, hg⟩ := hgood
  exact ⟨i, hi, hg.seek offset⟩

/-- One read: the file stays good, and an answer comes from its latest opening, which is the
one it had when it was already open. -/
theorem readExactAt_good (n offset : ℕ) (result : Except CliprdrError Bytes) (hf : FileGood w f)
    (hread : readExactAt w faults f n offset = (g, result)) :
    FileGood w g ∧ (g.path, g.file) = (f.path, f.file) ∧
      ∀ data, result = .ok data → data.length = n ∧ f.file.isDir = false ∧
        (f.handle ≠ none → g.openings = f.openings) ∧
        ∃ o, g.openings.head? = some o ∧ FromOpening w o offset data := by
  rw [readExactAt] at hread
  cases hload : loadHandle w faults.opening f with
  | error e =>
    simp only [hload, Prod.mk.injEq] at hread
    obtain ⟨rfl, rfl⟩ := hread
    exact ⟨hf, rfl, fun data hdata => (by cases hdata)⟩
  | ok k =>
    obtain ⟨hk, hsame, -, hopen⟩ := loadHandle_good w _ f k hf hload
    have hopenings : f.handle ≠ none → k.openings = f.openings :=
      fun hne => congrArg ServedFile.openings (hopen hne)
    cases hhandle : k.handle with
    | none =>
      simp only [hload, hhandle, Prod.mk.injEq] at hread
      obtain ⟨rfl, rfl⟩ := hread
      exact ⟨hk, hsame, fun data hdata => (by cases hdata)⟩
    | some h =>
      obtain ⟨hgood, hpos, hhead⟩ := hk.opened h hhandle
      have hfile : f.file.isDir = false := by
        have hsamefile : k.file = f.file := congrArg Prod.snd hsame
        rw [← hsamefile, Bool.eq_false_iff]
        intro hdir
        rw [hk.directory hdir] at hhandle
        cases hhandle
      -- the handle the read begins with stands at the offset, sought or not
      have hbegin : ∃ b, (if offset ≠ k.offset then h.seek offset else h) = b ∧ w.Good b ∧
          b.pos = offset ∧ b.inode = h.inode ∧ b.opened = h.opened := by
        by_cases heq : offset = k.offset
        · exact ⟨h, if_neg (not_not.mpr heq), hgood, hpos.trans heq.symm, rfl, rfl⟩
        · exact ⟨h.seek offset, if_pos heq, good_seek w h offset hgood, rfl, rfl, rfl⟩
      obtain ⟨b, hb, hbgood, hbpos, hbinode, hbopened⟩ := hbegin
      simp only [hload, hhandle, hb] at hread
      cases hat : readAt w faults.reading b n with
      | none =>
        simp only [hat, Prod.mk.injEq] at hread
        obtain ⟨rfl, rfl⟩ := hread
        exact ⟨fileGood_close w k, hsame, fun data hdata => (by cases hdata)⟩
      | some p =>
        obtain ⟨data, l⟩ := p
        obtain ⟨hlength, hdata, hl, hlpos, hlinode, hlopened⟩ :=
          readAt_good w _ b l n data hbgood hat
        rw [hbinode, hbopened, hbpos] at hdata
        simp only [hat, Prod.mk.injEq] at hread
        obtain ⟨hg, rfl⟩ := hread
        have hanswer : ∀ d, (Except.ok data : Except CliprdrError Bytes) = .ok d → d.length = n ∧
            f.file.isDir = false ∧ (f.handle ≠ none → k.openings = f.openings) ∧
            ∃ o, k.openings.head? = some o ∧ FromOpening w o offset d := by
          intro d hd
          obtain rfl := Except.ok.inj hd
          exact ⟨hlength, hfile, hopenings, _, hhead, hdata⟩
        split at hg
        · obtain rfl := hg
          exact ⟨fileGood_close w k, hsame, hanswer⟩
        · obtain rfl := hg
          refine ⟨⟨fun hnone => (by cases hnone), fun hdir => ?_, fun m hm => ?_⟩, hsame, hanswer⟩
          · have hnone := hk.directory hdir
            rw [hhandle] at hnone
            cases hnone
          · obtain rfl := Option.some.inj hm
            refine ⟨hl, by rw [hlpos, hbpos]; rfl, ?_⟩
            rw [hlinode, hlopened, hbinode, hbopened]
            exact hhead

/-! ### One list -/

def FilesGood (w : World Str) (fileList : List ServedFile) : Prop :=
  ∀ f ∈ fileList, FileGood w f

/-- Serving changes handles only: the list is the same, and its files stay good. -/
structure Keeps (w : World Str) (c d : ClipFiles) : Prop where
  id : d.id = c.id
  servedTo : d.servedTo = c.servedTo
  listed : listed d.fileList = listed c.fileList
  good : FilesGood w d.fileList

theorem keeps_refl (hc : FilesGood w c.fileList) : Keeps w c c :=
  ⟨rfl, rfl, rfl, hc⟩

theorem Keeps.trans {w : World Str} {c d e : ClipFiles} (h : Keeps w c d) (k : Keeps w d e) :
    Keeps w c e :=
  ⟨k.id.trans h.id, k.servedTo.trans h.servedTo, k.listed.trans h.listed, k.good⟩

theorem filesGood_set
    (h : FilesGood w fileList) (hg : FileGood w g) : FilesGood w (fileList.set idx g) := by
  intro f hf
  rcases List.mem_or_eq_of_mem_set hf with hold | rfl
  · exact h f hold
  · exact hg

theorem listed_set (hf : fileList[idx]? = some f) (hsame : (g.path, g.file) = (f.path, f.file)) :
    listed (fileList.set idx g) = listed fileList := by
  rw [listed, listed, List.map_set, hsame]
  refine List.ext_getElem? fun j => ?_
  rw [List.getElem?_set]
  by_cases hj : idx = j
  · subst hj
    obtain ⟨hlt, rfl⟩ := List.getElem?_eq_some_iff.mp hf
    simp [hlt]
  · rw [if_neg hj]

theorem keeps_set (hc : FilesGood w c.fileList) (hf : c.fileList[idx]? = some f) (hg : FileGood w g)
    (hsame : (g.path, g.file) = (f.path, f.file)) :
    Keeps w c (c.withFiles (c.fileList.set idx g)) :=
  ⟨rfl, rfl, listed_set c.fileList idx f g hf hsame, filesGood_set w c.fileList idx g hc hg⟩

theorem preload_good (fileList : List ServedFile) (h : FilesGood w fileList) :
    FilesGood w (preload w fails idx fileList) ∧
      listed (preload w fails idx fileList) = listed fileList ∧
      (preload w fails idx fileList)[idx]? = fileList[idx]? := by
  rw [preload]
  split
  · exact ⟨h, rfl, rfl⟩
  · rename_i k _
    rw [List.modify_eq_set_getElem?]
    cases hf : fileList[idx + 1 + k]? with
    | none => exact ⟨h, rfl, rfl⟩
    | some f =>
      have hmem : f ∈ fileList := List.mem_of_getElem? hf
      have hg : FileGood w (match loadHandle w fails f with | .error _ => f | .ok g => g) ∧
          ((match loadHandle w fails f with | .error _ => f | .ok g => g).path,
            (match loadHandle w fails f with | .error _ => f | .ok g => g).file) =
            (f.path, f.file) := by
        cases hload : loadHandle w fails f with
        | error e => exact ⟨h f hmem, rfl⟩
        | ok g =>
          obtain ⟨hg, hsame, -, -⟩ := loadHandle_good w fails f g (h f hmem) hload
          exact ⟨hg, hsame⟩
      refine ⟨filesGood_set w fileList _ _ h hg.1, listed_set fileList _ f _ hf hg.2, ?_⟩
      exact List.getElem?_set_ne (by omega)

structure RangeFrom (w : World Str) (c d : ClipFiles) (idx offset length : ℕ) (data : Bytes)
    (f g : ServedFile) (o : Opening) : Prop where
  entry : c.fileList[idx]? = some f
  isFile : f.file.isDir = false
  within : offset ≤ f.file.size.toNat
  count : data.length = min length (f.file.size.toNat - offset)
  served : d.fileList[idx]? = some g
  same : (g.path, g.file) = (f.path, f.file)
  kept : f.handle ≠ none → g.openings = f.openings
  latest : g.openings.head? = some o
  bytes : FromOpening w o offset data

theorem serveFileContents_good (fcr : FileContentsRequest) (result : Except CliprdrError Response)
    (hc : FilesGood w c.fileList)
    (hserve : serveFileContents w faults c connId fcr = (d, result)) :
    Keeps w c d ∧ ∀ streamId idx offset length response,
      fcr = .range streamId idx offset length → result = .ok response →
      ∃ f g o, RangeFrom w c d idx offset length response.requestedData f g o := by
  cases fcr with
  | size streamId idx =>
    refine ⟨?_, fun _ _ _ _ _ heq => by cases heq⟩
    rw [serveFileContents] at hserve
    split at hserve
    · obtain ⟨rfl, -⟩ := Prod.mk.inj hserve
      exact keeps_refl w c hc
    · obtain ⟨rfl, -⟩ := Prod.mk.inj hserve
      obtain ⟨hgood, hlisted, -⟩ := preload_good w faults.preloading idx c.fileList hc
      exact ⟨rfl, rfl, hlisted, hgood⟩
  | range streamId idx offset length =>
    rw [serveFileContents] at hserve
    split at hserve
    · obtain ⟨rfl, rfl⟩ := Prod.mk.inj hserve
      exact ⟨keeps_refl w c hc, fun _ _ _ _ _ _ hok => by cases hok⟩
    · rename_i f hf
      have hfgood := hc f (List.mem_of_getElem? hf)
      have hlt : idx < c.fileList.length := (List.getElem?_eq_some_iff.mp hf).1
      split at hserve
      · obtain ⟨rfl, rfl⟩ := Prod.mk.inj hserve
        exact ⟨keeps_refl w c hc, fun _ _ _ _ _ _ hok => by cases hok⟩
      · rename_i hoffset
        dsimp only at hserve
        split at hserve
        · obtain ⟨rfl, rfl⟩ := Prod.mk.inj hserve
          exact ⟨keeps_refl w c hc, fun _ _ _ _ _ _ hok => by cases hok⟩
        · split at hserve
          · rename_i g e hread
            obtain ⟨rfl, rfl⟩ := Prod.mk.inj hserve
            obtain ⟨hg, hsame, -⟩ := readExactAt_good w faults f g _ offset _ hfgood hread
            exact ⟨keeps_set w c idx f g hc hf hg hsame, fun _ _ _ _ _ _ hok => by cases hok⟩
          · rename_i g data hread
            obtain ⟨rfl, rfl⟩ := Prod.mk.inj hserve
            obtain ⟨hg, hsame, hanswer⟩ := readExactAt_good w faults f g _ offset _ hfgood hread
            obtain ⟨hlength, hfile, hkept, o, hlatest, hdata⟩ := hanswer data rfl
            have hset := keeps_set w c idx f g hc hf hg hsame
            obtain ⟨hgood, hlisted, hindex⟩ := preload_good w faults.preloading idx _ hset.good
            refine ⟨⟨rfl, rfl, hlisted.trans hset.listed, hgood⟩, ?_⟩
            rintro _ _ _ _ response ⟨rfl, rfl, rfl, rfl⟩ hok
            obtain rfl := Except.ok.inj hok
            refine ⟨f, g, o, hf, hfile, Nat.le_of_not_lt hoffset, hlength, ?_, hsame, hkept,
              hlatest, hdata⟩
            refine hindex.trans ?_
            exact List.getElem?_set_self hlt

/-- The check of a retired list opens the file at most; where it lets a range through, the
file is open, on an inode of the listed size and time. -/
theorem checkRetiredFile_good
    (fcr : FileContentsRequest) (result : Except CliprdrError Unit) (hc : FilesGood w c.fileList)
    (hcheck : checkRetiredFile w faults c fcr = (d, result)) :
    Keeps w c d ∧ ∀ streamId idx offset length f,
      fcr = .range streamId idx offset length → result = .ok () → d.fileList[idx]? = some f →
      f.file.isDir = true ∨ f.handle ≠ none ∧ unchanged w faults.stat f = true := by
  cases fcr with
  | size streamId idx =>
    obtain ⟨rfl, -⟩ := Prod.mk.inj hcheck
    exact ⟨keeps_refl w c hc, fun _ _ _ _ _ heq => by cases heq⟩
  | range streamId idx offset length =>
    rw [checkRetiredFile] at hcheck
    split at hcheck
    · rename_i hnone
      obtain ⟨rfl, rfl⟩ := Prod.mk.inj hcheck
      refine ⟨keeps_refl w c hc, ?_⟩
      rintro _ _ _ _ f ⟨rfl, rfl, rfl, rfl⟩ - hf
      rw [hnone] at hf
      cases hf
    · rename_i f hf
      split at hcheck
      · rename_i hdir
        obtain ⟨rfl, rfl⟩ := Prod.mk.inj hcheck
        refine ⟨keeps_refl w c hc, ?_⟩
        rintro _ _ _ _ g ⟨rfl, rfl, rfl, rfl⟩ - hg
        rw [hf] at hg
        exact Or.inl (Option.some.inj hg ▸ hdir)
      · split at hcheck
        · obtain ⟨rfl, rfl⟩ := Prod.mk.inj hcheck
          exact ⟨keeps_refl w c hc, fun _ _ _ _ _ _ hok => by cases hok⟩
        · rename_i g hload
          obtain ⟨rfl, rfl⟩ := Prod.mk.inj hcheck
          obtain ⟨hg, hsame, -, -⟩ :=
            loadHandle_good w _ f g (hc f (List.mem_of_getElem? hf)) hload
          refine ⟨keeps_set w c idx f g hc hf hg hsame, ?_⟩
          rintro _ _ _ _ k ⟨rfl, rfl, rfl, rfl⟩ hok hk
          have hlt : idx < c.fileList.length := (List.getElem?_eq_some_iff.mp hf).1
          have hself : (c.withFiles (c.fileList.set idx g)).fileList[idx]? = some g :=
            List.getElem?_set_self hlt
          rw [hself] at hk
          obtain rfl := Option.some.inj hk
          split at hok
          · rename_i hunchanged
            refine Or.inr ⟨fun hnone => ?_, hunchanged⟩
            rw [unchanged, hnone] at hunchanged
            cases hunchanged
          · cases hok

/-! ### All lists -/

def System.lists (s : System) : List ClipFiles := s.current :: s.retired

/-- The files of a list are good, they are those of the copy with its id, and it was sent to
the connections it serves. -/
structure ListGood (s : System) (c : ClipFiles) : Prop where
  good : FilesGood s.world c.fileList
  copied : c.fileList = [] ∨ (c.id, listed c.fileList) ∈ s.copies
  sent : ∀ connId ∈ c.servedTo, (connId, c.id) ∈ s.sent

def Inv (s : System) : Prop := ∀ c ∈ s.lists, ListGood s c

theorem inv_start : Inv start := by
  intro c hc
  obtain rfl : c = emptyClipFiles := by simpa [System.lists, start] using hc
  exact ⟨fun f hf => absurd hf List.not_mem_nil, Or.inl rfl,
    fun connId hconn => absurd hconn List.not_mem_nil⟩

theorem fileGood_mono (v : World Str) (f : ServedFile) (hf : FileGood w f)
    (hworld : ∀ h, w.Good h → v.Good h) : FileGood v f := by
  refine ⟨hf.closed, hf.directory, fun h hh => ?_⟩
  obtain ⟨hgood, hrest⟩ := hf.opened h hh
  exact ⟨hworld h hgood, hrest⟩

/-- Other programs change the world, and leave the handles good. -/
theorem inv_withWorld (hs : Inv s)
    (hworld : ∀ h, s.world.Good h → w.Good h) : Inv (s.withWorld w) := by
  intro c hc
  have hgood := hs c hc
  exact ⟨fun f hf => fileGood_mono s.world w f (hgood.good f hf) hworld, hgood.copied,
    hgood.sent⟩

theorem filesGood_releaseHandles (hc : FilesGood w c.fileList) : Keeps w c c.releaseHandles := by
  refine ⟨rfl, rfl, ?_, fun g hg => ?_⟩
  · rw [ClipFiles.releaseHandles, ClipFiles.withFiles, listed, listed, List.map_map]
    refine List.map_congr_left fun f _ => ?_
    dsimp only [Function.comp_apply]
    split <;> rfl
  · obtain ⟨f, hf, rfl⟩ := List.mem_map.mp hg
    split
    · exact fileGood_close w f
    · exact hc f hf

theorem listGood_keeps (hc : ListGood s c) (hkeeps : Keeps s.world c d) : ListGood s d := by
  refine ⟨hkeeps.good, ?_, ?_⟩
  · rw [hkeeps.id, hkeeps.listed]
    refine hc.copied.imp_left fun hnil => ?_
    have hlisted := hkeeps.listed
    rw [hnil] at hlisted
    exact List.map_eq_nil_iff.mp hlisted
  · rw [hkeeps.servedTo, hkeeps.id]
    exact hc.sent

theorem mem_retireIfServed (replaced c : ClipFiles) (retired : List ClipFiles)
    (h : c ∈ retireIfServed replaced retired) : c ∈ retired ∨ c = replaced.releaseHandles := by
  rw [retireIfServed] at h
  split at h
  · exact Or.inl h
  · rcases List.mem_append.mp h with hold | hnew
    · split at hold
      · exact Or.inl (List.mem_of_mem_tail hold)
      · exact Or.inl hold
    · exact Or.inr (List.mem_singleton.mp hnew)

theorem build_new (c : Copy) (next : ClipFiles) (hbuild : c.build = .ok next) (w : World Str) :
    FilesGood w next.fileList ∧ next.servedTo = [] := by
  rw [Copy.build] at hbuild
  split at hbuild
  · cases hbuild
  · split at hbuild
    · cases hbuild
    · obtain rfl := Except.ok.inj hbuild
      refine ⟨fun g hg => ?_, rfl⟩
      obtain ⟨p, -, rfl⟩ := List.mem_map.mp hg
      exact ⟨fun _ => rfl, fun _ => rfl, fun h hh => (by cases hh)⟩

theorem inv_syncFiles (c : Copy) (hs : Inv s) : Inv (syncFiles s c).1 := by
  rw [syncFiles]
  split
  · exact hs
  · split
    · exact hs
    · rename_i next hbuild
      intro d hd
      rcases List.mem_cons.mp hd with rfl | hretired
      · obtain ⟨hgood, hserved⟩ := build_new c _ hbuild s.world
        exact ⟨hgood, Or.inr (List.mem_cons_self ..), fun connId hconn => by
          rw [hserved] at hconn
          cases hconn⟩
      · have hold : ListGood s d := by
          rcases mem_retireIfServed s.current d s.retired hretired with hmem | rfl
          · exact hs d (List.mem_cons_of_mem _ hmem)
          · have hcurrent := hs s.current (List.mem_cons_self ..)
            exact listGood_keeps s s.current _ hcurrent
              (filesGood_releaseHandles s.world s.current hcurrent.good)
        exact ⟨hold.good, hold.copied.imp_right fun hmem => List.mem_cons_of_mem _ hmem, hold.sent⟩

theorem inv_getFileListPdu (hs : Inv s) : Inv (getFileListPdu s connId).1 := by
  have hsent : ∀ p ∈ s.sent, p ∈ (getFileListPdu s connId).1.sent := by
    intro p hp
    rw [getFileListPdu]
    dsimp only
    split
    · exact hp
    · exact List.mem_cons_of_mem _ hp
  intro d hd
  rcases List.mem_cons.mp hd with rfl | hretired
  · have hcurrent := hs s.current (List.mem_cons_self ..)
    by_cases hnew : s.current.filesPdu ≠ [] ∧ connId ∉ s.current.servedTo
    · have hnext : (getFileListPdu s connId).1.current = s.current.noteServed connId := by
        rw [getFileListPdu]
        exact if_pos hnew
      have hlog : (connId, s.current.id) ∈ (getFileListPdu s connId).1.sent := by
        rw [getFileListPdu]
        dsimp only
        rw [if_neg hnew.1]
        exact List.mem_cons_self ..
      rw [hnext]
      refine ⟨hcurrent.good, hcurrent.copied, fun conn hconn => ?_⟩
      rcases List.mem_append.mp hconn with hold | hsingle
      · exact hsent _ (hcurrent.sent conn hold)
      · rw [List.mem_singleton.mp hsingle]
        exact hlog
    · have hnext : (getFileListPdu s connId).1.current = s.current := by
        rw [getFileListPdu]
        exact if_neg hnew
      rw [hnext]
      exact ⟨hcurrent.good, hcurrent.copied, fun conn hconn => hsent _ (hcurrent.sent conn hconn)⟩
  · have hold := hs d (List.mem_cons_of_mem _ hretired)
    exact ⟨hold.good, hold.copied, fun conn hconn => hsent _ (hold.sent conn hconn)⟩

/-! ### One request -/

theorem findRetired_some (retired : List ClipFiles) (p : ClipFiles → Bool) (slot : Slot)
    (h : findRetired retired p = some slot) :
    ∃ i c, slot = .retired i ∧ retired[i]? = some c ∧ p c = true := by
  obtain ⟨j, hj, rfl⟩ := Option.map_eq_some_iff.mp h
  obtain ⟨hlt, hp, -⟩ := List.findIdx?_eq_some_iff_getElem.mp hj
  have hlt' : j < retired.length := by simpa using hlt
  refine ⟨_, retired.reverse[j], rfl, ?_, hp⟩
  rw [← List.getElem?_reverse hlt', List.getElem?_eq_getElem hlt]

theorem selectClipFiles_some (slot : Slot) (h : selectClipFiles s connId (some id) = some slot) :
    (slot = .current ∧ s.current.id = id) ∨
      ∃ i c, slot = .retired i ∧ s.retired[i]? = some c ∧ c.id = id ∧ connId ∈ c.servedTo := by
  rw [selectClipFiles] at h
  split at h
  · rename_i hid
    exact Or.inl ⟨(Option.some.inj h).symm, hid⟩
  · obtain ⟨i, c, hslot, hc, hp⟩ := findRetired_some s.retired _ slot h
    simp only [Bool.and_eq_true, beq_iff_eq, List.contains_iff_mem] at hp
    exact Or.inr ⟨i, c, hslot, hc, hp.1, hp.2⟩

theorem selectClipFiles_retired (named : Option Int32) (i : ℕ)
    (h : selectClipFiles s connId named = some (.retired i)) : ∃ c, s.retired[i]? = some c := by
  cases named with
  | some id =>
    rcases selectClipFiles_some s connId id _ h with ⟨hslot, -⟩ | ⟨j, c, hslot, hc, -⟩
    · cases hslot
    · obtain rfl := Slot.retired.inj hslot
      exact ⟨c, hc⟩
  | none =>
    rw [selectClipFiles] at h
    split at h
    · cases h
    · rcases Option.or_eq_some_iff.mp h with hfound | ⟨-, hcurrent⟩
      · obtain ⟨j, c, hslot, hc, -⟩ := findRetired_some s.retired _ _ hfound
        obtain rfl := Slot.retired.inj hslot
        exact ⟨c, hc⟩
      · cases hcurrent

theorem get_retired (h : s.retired[i]? = some c) : s.get (.retired i) = c := by
  rw [System.get, List.getD_eq_getElem?_getD, h]
  rfl

theorem listGood_congr (hc : ListGood s c)
    (hworld : t.world = s.world) (hcopies : t.copies = s.copies) (hsent : t.sent = s.sent) :
    ListGood t c := by
  obtain ⟨hgood, hcopied, hlog⟩ := hc
  exact ⟨hworld ▸ hgood, hcopies ▸ hcopied, hsent ▸ hlog⟩

theorem inv_put_current (hs : Inv s)
    (hkeeps : Keeps s.world s.current d) : Inv (s.put d .current) := by
  intro c hc
  refine listGood_congr s _ c ?_ rfl rfl rfl
  rcases List.mem_cons.mp hc with rfl | hretired
  · exact listGood_keeps s s.current _ (hs s.current (List.mem_cons_self ..)) hkeeps
  · exact hs c (List.mem_cons_of_mem _ hretired)

theorem inv_put_retired (hs : Inv s)
    (hc : s.retired[i]? = some c) (hkeeps : Keeps s.world c d) : Inv (s.put d (.retired i)) := by
  intro e he
  refine listGood_congr s _ e ?_ rfl rfl rfl
  rcases List.mem_cons.mp he with rfl | hretired
  · exact hs s.current (List.mem_cons_self ..)
  · rcases List.mem_or_eq_of_mem_set hretired with hold | rfl
    · exact hs e (List.mem_cons_of_mem _ hold)
    · have hmem : c ∈ s.lists := List.mem_cons_of_mem _ (List.mem_of_getElem? hc)
      exact listGood_keeps s c _ (hs c hmem) hkeeps

theorem inv_readFileContents (hs : Inv s) : Inv (readFileContents s faults r).1 := by
  rw [readFileContents]
  split
  · exact hs
  · rename_i fcr _
    split
    · exact hs
    · have hgood := (hs s.current (List.mem_cons_self ..)).good
      exact inv_put_current s _ hs
        (serveFileContents_good s.world faults s.current _ r.connId fcr _ hgood rfl).1
    · rename_i i hselect
      obtain ⟨c, hc⟩ := selectClipFiles_retired s r.connId r.clipDataId i hselect
      have hgood := (hs c (List.mem_cons_of_mem _ (List.mem_of_getElem? hc))).good
      rw [get_retired s i c hc]
      split
      · rename_i d e hcheck
        exact inv_put_retired s i c d hs hc
          (checkRetiredFile_good s.world faults c d fcr _ hgood hcheck).1
      · rename_i d hcheck
        have hkeeps := (checkRetiredFile_good s.world faults c d fcr _ hgood hcheck).1
        exact inv_put_retired s i c _ hs hc (hkeeps.trans
          (serveFileContents_good s.world faults d _ r.connId fcr _ hkeeps.good rfl).1)

theorem inv_step (e : Event) (t : System) (hs : Inv s) (hstep : step s e = some t) : Inv t := by
  cases e with
  | replace path content mtime =>
    obtain rfl := Option.some.inj hstep
    exact inv_withWorld s _ hs fun h hgood => hgood.replace path content mtime
  | remove path =>
    obtain rfl := Option.some.inj hstep
    exact inv_withWorld s _ hs fun h hgood => hgood
  | write inode content mtime =>
    obtain rfl := Option.some.inj hstep
    exact inv_withWorld s _ hs fun h hgood => hgood.write inode content mtime
  | copy c =>
    obtain rfl := Option.some.inj hstep
    exact inv_syncFiles s c hs
  | list connId =>
    obtain rfl := Option.some.inj hstep
    exact inv_getFileListPdu s connId hs
  | read faults r =>
    obtain rfl := Option.some.inj hstep
    exact inv_readFileContents s faults r hs
  | clear =>
    obtain rfl := Option.some.inj hstep
    intro c hc
    obtain rfl : c = emptyClipFiles := by simpa [System.lists, clearFiles] using hc
    exact ⟨fun f hf => absurd hf List.not_mem_nil, Or.inl rfl,
      fun connId hconn => absurd hconn List.not_mem_nil⟩

theorem inv_of_exec (es : List Event) (s : System) (hrun : Runs.exec step start es = some s) :
    Inv s :=
  Runs.invariant_of_exec step Inv inv_step start s es inv_start hrun

/-! ### Answers to ranges -/

/-- The answer `data` to a range of the list `id`: the entry of the list as it was copied, and
the file it was read from, as it was when last opened for the list. -/
structure SliceOfList (s t : System) (r : Request) (id : Int32) (data : Bytes)
    (files : List (Str × LocalFile)) (entry : Str × LocalFile) (d : ClipFiles) (g : ServedFile)
    (o : Opening) : Prop where
  copied : (id, files) ∈ s.copies
  listing : files[r.fileIdx]? = some entry
  within : r.offset ≤ entry.2.size.toNat
  count : data.length = min r.length (entry.2.size.toNat - r.offset)
  served : d ∈ t.lists ∧ d.id = id ∧ listed d.fileList = files
  file : d.fileList[r.fileIdx]? = some g
  latest : g.openings.head? = some o
  bytes : FromOpening t.world o r.offset data
  retired : d = t.current ∨ r.connId ∈ d.servedTo ∧ (r.connId, id) ∈ s.sent ∧
    ∃ i, t.world.inodes[o.inode]? = some i ∧ i.content.length = entry.2.size.toNat ∧
      i.mtime = entry.2.lastWriteTime

theorem listed_getElem
    (hf : fileList[idx]? = some f) : (listed fileList)[idx]? = some (f.path, f.file) := by
  rw [listed, List.getElem?_map, hf]
  rfl

theorem listed_ne_nil (s : System) (hc : ListGood s c) (idx : ℕ) (f : ServedFile)
    (hf : c.fileList[idx]? = some f) : (c.id, listed c.fileList) ∈ s.copies := by
  rcases hc.copied with hnil | hmem
  · rw [hnil] at hf
    cases hf
  · exact hmem

theorem slice_current (streamId : Int32)
    (d : ClipFiles) (response : Response) (hs : Inv s) (hid : s.current.id = id)
    (hserve : serveFileContents s.world faults s.current r.connId
      (.range streamId r.fileIdx r.offset r.length) = (d, .ok response)) :
    ∃ files entry d' g o, SliceOfList s (s.put d .current) r id response.requestedData files
      entry d' g o := by
  have hlist := hs s.current (List.mem_cons_self ..)
  obtain ⟨hkeeps, hanswer⟩ :=
    serveFileContents_good s.world faults s.current d r.connId _ _ hlist.good hserve
  obtain ⟨f, g, o, hrange⟩ := hanswer _ _ _ _ _ rfl rfl
  exact ⟨listed s.current.fileList, (f.path, f.file), d, g, o,
    hid ▸ listed_ne_nil s.current s hlist _ f hrange.entry,
    listed_getElem _ _ f hrange.entry, hrange.within, hrange.count,
    ⟨List.mem_cons_self .., hkeeps.id.trans hid, hkeeps.listed⟩, hrange.served, hrange.latest,
    hrange.bytes, Or.inl rfl⟩

theorem unchanged_latest (statFails : Bool) (f : ServedFile) (o : Opening)
    (hf : FileGood w f) (hunchanged : unchanged w statFails f = true)
    (ho : f.openings.head? = some o) :
    ∃ i, w.inodes[o.inode]? = some i ∧ i.content.length = f.file.size.toNat ∧
      i.mtime = f.file.lastWriteTime := by
  rw [unchanged] at hunchanged
  split at hunchanged
  · cases hunchanged
  · rename_i h hhandle
    obtain ⟨-, -, hhead⟩ := hf.opened h hhandle
    rw [ho, Option.some.injEq] at hhead
    split at hunchanged
    · cases hunchanged
    · rename_i i hi
      simp only [Bool.and_eq_true, decide_eq_true_eq] at hunchanged
      exact ⟨i, by rw [hhead]; exact hi, hunchanged.1.2, hunchanged.2⟩

theorem slice_retired (streamId : Int32)
    (i : ℕ) (c m d : ClipFiles) (response : Response) (hs : Inv s)
    (hc : s.retired[i]? = some c) (hid : c.id = id) (hconn : r.connId ∈ c.servedTo)
    (hcheck : checkRetiredFile s.world faults c (.range streamId r.fileIdx r.offset r.length) =
      (m, .ok ()))
    (hserve : serveFileContents s.world faults m r.connId
      (.range streamId r.fileIdx r.offset r.length) = (d, .ok response)) :
    ∃ files entry d' g o, SliceOfList s (s.put d (.retired i)) r id response.requestedData files
      entry d' g o := by
  have hlist := hs c (List.mem_cons_of_mem _ (List.mem_of_getElem? hc))
  obtain ⟨hchecked, hopen⟩ := checkRetiredFile_good s.world faults c m _ _ hlist.good hcheck
  obtain ⟨hserved, hanswer⟩ :=
    serveFileContents_good s.world faults m d r.connId _ _ hchecked.good hserve
  obtain ⟨f, g, o, hrange⟩ := hanswer _ _ _ _ _ rfl rfl
  have hkeeps := hchecked.trans hserved
  have hfile : FileGood s.world f := hchecked.good f (List.mem_of_getElem? hrange.entry)
  have hunchanged : f.handle ≠ none ∧ unchanged s.world faults.stat f = true := by
    rcases hopen _ _ _ _ f rfl rfl hrange.entry with hdir | hunchanged
    · rw [hrange.isFile] at hdir
      cases hdir
    · exact hunchanged
  have hlatest : f.openings.head? = some o := by
    rw [← hrange.kept hunchanged.1]
    exact hrange.latest
  have hmem : d ∈ (s.put d (.retired i)).lists :=
    List.mem_cons_of_mem _ (List.mem_set (List.getElem?_eq_some_iff.mp hc).1 d)
  refine ⟨listed c.fileList, (f.path, f.file), d, g, o, ?_, ?_, hrange.within, hrange.count,
    ⟨hmem, hkeeps.id.trans hid, hkeeps.listed⟩, hrange.served, hrange.latest, hrange.bytes,
    Or.inr ⟨hkeeps.servedTo ▸ hconn, ?_, unchanged_latest s.world _ f o hfile hunchanged.2 hlatest⟩⟩
  · have hm := listGood_keeps s c m hlist hchecked
    have hcopied := listed_ne_nil m s hm _ f hrange.entry
    rwa [hchecked.id, hid, hchecked.listed] at hcopied
  · rw [← hchecked.listed]
    exact listed_getElem _ _ f hrange.entry
  · exact hid ▸ hlist.sent r.connId hconn

theorem contents_range (h : r.dwFlags = 2) :
    r.contents = .ok (.range r.streamId r.fileIdx r.offset r.length) := by
  rw [Request.contents, if_neg (by rw [h]; decide), if_pos h]

theorem slice_of_read (hs : Inv s) (faults : Faults) (r : Request) (id : Int32)
    (t : System) (response : Response) (hnamed : r.clipDataId = some id) (hrange : r.dwFlags = 2)
    (hread : readFileContents s faults r = (t, .ok response)) :
    ∃ files entry d g o, SliceOfList s t r id response.requestedData files entry d g o := by
  simp only [readFileContents, contents_range r hrange, hnamed] at hread
  split at hread
  · cases hread
  · rename_i hselect
    obtain ⟨rfl, hresult⟩ := Prod.mk.inj hread
    rcases selectClipFiles_some s r.connId id _ hselect with ⟨-, hid⟩ | ⟨_, _, hslot, -⟩
    · exact slice_current s faults r id r.streamId _ response hs hid (Prod.ext rfl hresult)
    · cases hslot
  · rename_i i hselect
    rcases selectClipFiles_some s r.connId id _ hselect with
      ⟨hslot, -⟩ | ⟨j, c, hslot, hc, hid, hconn⟩
    · cases hslot
    · obtain rfl := Slot.retired.inj hslot
      rw [get_retired s i c hc] at hread
      split at hread
      · cases hread
      · rename_i m hcheck
        obtain ⟨rfl, hresult⟩ := Prod.mk.inj hread
        exact slice_retired s faults r id r.streamId i c m _ response hs hc hid hconn hcheck
          (Prod.ext rfl hresult)

theorem syncFiles_error (c : Copy) (e : CliprdrError)
    (h : syncFiles s c = (t, .error e)) : t = s := by
  rw [syncFiles] at h
  split at h
  · cases h
  · split at h
    · exact (Prod.mk.inj h).1.symm
    · cases h

/-- In every run whose copies have distinct ids, every answer to a range of a named list is the
slice of the named list's own entry, from the file as it was when last opened for the list; and
a failed copy changes nothing. -/
theorem served_slices :
    (∀ es s, Runs.exec step start es = some s → (s.copies.map Prod.fst).Nodup →
      ∀ faults r id t response, r.clipDataId = some id → r.dwFlags = 2 →
        readFileContents s faults r = (t, .ok response) →
        ∃ files entry d g o, SliceOfList s t r id response.requestedData files entry d g o ∧
          ∀ other, (id, other) ∈ s.copies → other = files) ∧
      ∀ s c t e, syncFiles s c = (t, .error e) → t = s := by
  refine ⟨?_, fun s c t e => syncFiles_error s t c e⟩
  intro es s hrun hids faults r id t response hnamed hrange hread
  obtain ⟨files, entry, d, g, o, hslice⟩ :=
    slice_of_read s (inv_of_exec es s hrun) faults r id t response hnamed hrange hread
  refine ⟨files, entry, d, g, o, hslice, fun other hother => ?_⟩
  have heq := List.inj_on_of_nodup_map hids hother hslice.copied rfl
  exact (Prod.mk.inj heq).2

/-! ### A file replaced between two readings -/

def samplePath : Str := "/home/user/report.txt".toList

def sampleFile : LocalFile where
  descriptorName := "report.txt".toList
  size := 4
  lastWriteTime := 1700000000000000000
  isDir := false
  perm := 0o644
  readOnly := false
  hidden := false
  system := false
  archive := false
  normal := true

def sampleCopy : Copy where
  files := [samplePath]
  sigs := [⟨4, some 1700000000000000000, false⟩]
  found := .ok [(samplePath, sampleFile)]
  nonce := List.replicate 16 7

def sampleId : Int32 :=
  match sampleCopy.build with
  | .error _ => 0
  | .ok next => next.id

def sampleRequest : Request where
  connId := 1
  streamId := 7
  listIndex := 0
  dwFlags := 2
  nPositionLow := 1
  nPositionHigh := 0
  cbRequested := -1
  clipDataId := some sampleId

def sampleFaults : Faults := ⟨false, false, false, false⟩

def sampleRead : List Event :=
  [.replace samplePath [65, 65, 65, 65] 1700000000000000000, .copy sampleCopy, .list 1,
    .read sampleFaults sampleRequest]

theorem served_slices_sample :
    ∃ s t response, Runs.exec step start sampleRead = some s ∧
      (s.copies.map Prod.fst).Nodup ∧
      readFileContents s sampleFaults sampleRequest = (t, .ok response) ∧
      ∃ files entry d g o,
        SliceOfList s t sampleRequest sampleId response.requestedData files entry d g o ∧
          ∀ other, (sampleId, other) ∈ s.copies → other = files := by
  have hrun : (Runs.exec step start sampleRead).map (fun s =>
      (decide (s.copies.map Prod.fst).Nodup,
        (readFileContents s sampleFaults sampleRequest).2)) =
      some (true, .ok ⟨7, [65, 65, 65]⟩) := by
    decide +kernel
  obtain ⟨s, hs, hresult⟩ := Option.map_eq_some_iff.mp hrun
  rw [Prod.mk.injEq, decide_eq_true_eq] at hresult
  obtain ⟨hids, hread⟩ := hresult
  obtain ⟨t, ht⟩ : ∃ t, readFileContents s sampleFaults sampleRequest =
      (t, .ok ⟨7, [65, 65, 65]⟩) := by
    generalize readFileContents s sampleFaults sampleRequest = p at hread
    exact ⟨p.1, Prod.ext rfl hread⟩
  exact ⟨s, t, _, hs, hids, ht, served_slices.1 sampleRead s hs hids sampleFaults sampleRequest
    sampleId t _ rfl rfl ht⟩

def firstContent (t : System) (d : ClipFiles) (idx : ℕ) : Option Bytes := do
  let g ← d.fileList[idx]?
  let o ← g.openings.getLast?
  let i ← t.world.inodes[o.inode]?
  i.version o.version

def AsFirstOpened (t : System) (id : Int32) (idx offset : ℕ) (data : Bytes) : Prop :=
  ∃ d ∈ t.lists, d.id = id ∧
    (firstContent t d idx).map (fun content => (content.drop offset).take data.length) = some data

instance (t : System) (id : Int32) (idx offset : ℕ) (data : Bytes) :
    Decidable (AsFirstOpened t id idx offset data) :=
  inferInstanceAs (Decidable (∃ d ∈ t.lists, d.id = id ∧
    (firstContent t d idx).map (fun content => (content.drop offset).take data.length) =
      some data))

/-- Another program replaces the file, and the list still current is read again: the answer is
not from the file as it was when first opened. -/
theorem replaced_file_served :
    ∃ es s t response, Runs.exec step start es = some s ∧ (s.copies.map Prod.fst).Nodup ∧
      readFileContents s sampleFaults sampleRequest = (t, .ok response) ∧
      ¬ AsFirstOpened t sampleId sampleRequest.fileIdx sampleRequest.offset
        response.requestedData := by
  have hrun : (Runs.exec step start
      (sampleRead ++ [.replace samplePath [66, 66, 66, 66] 1700000001000000000])).map (fun s =>
      (decide (s.copies.map Prod.fst).Nodup,
        (readFileContents s sampleFaults sampleRequest).2,
        decide (AsFirstOpened (readFileContents s sampleFaults sampleRequest).1 sampleId
          sampleRequest.fileIdx sampleRequest.offset [66, 66, 66]))) =
      some (true, .ok ⟨7, [66, 66, 66]⟩, false) := by
    decide +kernel
  obtain ⟨s, hs, hresult⟩ := Option.map_eq_some_iff.mp hrun
  rw [Prod.mk.injEq, Prod.mk.injEq, decide_eq_true_eq, decide_eq_false_iff_not] at hresult
  obtain ⟨hids, hread, hfirst⟩ := hresult
  generalize hp : readFileContents s sampleFaults sampleRequest = p at hread hfirst
  exact ⟨_, s, p.1, _, hs, hids, hp.trans (Prod.ext rfl hread), hfirst⟩

end ClantoDesk.ClipboardServing
