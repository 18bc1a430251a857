import ClantoDesk.Runs
import ClantoDesk.Text
import Mathlib.Data.List.AList

/-!
The reports on incoming sessions, src/clanto/session_log.rs: the registry of the sessions, the
events that fill it and the records handed to the writer. The events of all connections come in
any order, each under the lock of the registry; a permission is marked only when the lock is
free at that moment. The result of a session is given once to whoever asks for it.
-/
namespace ClantoDesk.SessionReports

open Text

/-! ### Files of a session -/

inductive Direction where
  | toPeer
  | fromPeer
  deriving DecidableEq

inductive Outcome where
  | clean
  | malware
  | unscannable
  | blockedDirection
  | blockedExtension
  deriving DecidableEq

structure FileRecord where
  direction : Direction
  name : Str
  size : ℤ
  scan : Option Outcome
  deriving DecidableEq

def maxFiles : ℕ := 50

def isSeparator (c : Char) : Bool := c = '/' || c = '\\'

def basename (path : Str) : Str := path.rtakeWhile fun c => !isSeparator c

def pushFile (direction : Direction) (pathName : Str) (files : List FileRecord) :
    Option (Str × ℤ) → List FileRecord
  | none => files
  | some (name, size) =>
    if files.length = maxFiles then files
    else files ++ [⟨direction, if name = [] then pathName else name, size, none⟩]

def setScan (name : Str) (outcome : Outcome) : List FileRecord → Option (List FileRecord)
  | [] => none
  | f :: rest =>
    if f.direction = .fromPeer ∧ f.scan = none ∧ basename f.name = name then
      some ({ f with scan := some outcome } :: rest)
    else (setScan name outcome rest).map fun files => f :: files

def applyFileScan (files : List FileRecord) (name : Str) (size : Option ℤ) (outcome : Outcome) :
    List FileRecord :=
  match setScan name outcome files with
  | some files' => files'
  | none =>
    if files.length < maxFiles then files ++ [⟨.fromPeer, name, size.getD 0, some outcome⟩]
    else files

/-! ### Events and records -/

inductive MetaKey where
  | sessionCode
  | ticket
  | idProfile
  | accountUser
  | osUser
  | pcName

def MetaKey.all : List MetaKey := [.sessionCode, .ticket, .idProfile, .accountUser,
    .osUser, .pcName]

inductive Action where
  | new
  | close
  | other
  deriving DecidableEq

/-- The fields of a connection event that are read; a text that is absent reads as empty. -/
structure ConnEvent where
  action : Action
  connId : Option ℤ
  ip : Str
  metadata : MetaKey → Str
  durationSecs : Option ℕ
  reason : Str
  peer : Option (Str × Str)
  type : Option ℤ
  primaryAuth : Option ℤ
  twoFactor : Option ℤ
  postureResult : Option Str
  postureBypasses : Option (List Str)

/-- A file event; entries of its list that are no arrays are `none`. -/
structure FileEvent where
  connId : Option ℤ
  type : Option ℤ
  path : Str
  files : List (Option (Str × ℤ))

structure ScanEvent where
  connId : Option ℤ
  outcome : Outcome
  name : Str
  size : Option ℤ

abbrev Key := ℤ × Str

structure SessionRecord where
  sessionKey : Key
  connId : ℤ
  startedAt : Str
  endedAt : Str
  durationSecs : Option ℕ
  ip : Str
  metadata : MetaKey → Str
  peerId : Str
  peerName : Str
  connectionType : Str
  primaryAuth : Option ℤ
  twoFactor : Option ℤ
  postureResult : Str
  postureBypasses : List Str
  permissionsUsed : List Str
  files : List FileRecord
  closeReason : Str
  closed : Bool

namespace SessionRecord

def start (conn : ℤ) (now : Str) (value : ConnEvent) : SessionRecord where
  sessionKey := (conn, now)
  connId := conn
  startedAt := now
  endedAt := []
  durationSecs := none
  ip := value.ip
  metadata := fun _ => []
  peerId := []
  peerName := []
  connectionType := []
  primaryAuth := none
  twoFactor := none
  postureResult := "not_checked".toList
  postureBypasses := []
  permissionsUsed := []
  files := []
  closeReason := []
  closed := false

def connectionTypeOf (value : ConnEvent) : Str :=
  match value.type with
  | some 1 => "file".toList
  | some 2 => "tunnel".toList
  | some 3 => "camera".toList
  | some 4 => "terminal".toList
  | _ => "control".toList

def describe (r : SessionRecord) (value : ConnEvent) : SessionRecord :=
  { r with
    metadata := fun key => if value.metadata key = [] then r.metadata key else value.metadata key }

def metadataChanged (r : SessionRecord) (value : ConnEvent) : Bool :=
  MetaKey.all.any fun key =>
    decide (value.metadata key ≠ [] ∧ r.metadata key ≠ value.metadata key)

def finish (r : SessionRecord) (now : Str) (value : ConnEvent) : SessionRecord :=
  { r with
    endedAt := now
    durationSecs := value.durationSecs
    closed := true
    closeReason := if value.reason = [] then "end".toList else value.reason }

def identify (r : SessionRecord) (value : ConnEvent) : SessionRecord :=
  match value.peer with
  | none => r
  | some (peerId, peerName) =>
    { r with
      peerId := peerId
      peerName := peerName
      connectionType := connectionTypeOf value
      primaryAuth := value.primaryAuth
      twoFactor := value.twoFactor
      postureResult := value.postureResult.getD r.postureResult }

def bypass (r : SessionRecord) (value : ConnEvent) : SessionRecord :=
  match value.postureBypasses with
  | none => r
  | some bypasses => { r with postureResult := "bypassed".toList, postureBypasses := bypasses }

def permit (r : SessionRecord) (permission : Str) : SessionRecord :=
  { r with permissionsUsed := r.permissionsUsed.insert permission }

def addFiles (r : SessionRecord) (value : FileEvent) : SessionRecord :=
  { r.permit "file_transfer".toList with
    files := value.files.foldl
      (pushFile (if value.type = some 0 then .toPeer else .fromPeer) (basename value.path))
        r.files }

def addScan (r : SessionRecord) (value : ScanEvent) : SessionRecord :=
  { r with files := applyFileScan r.files (basename value.name) value.size value.outcome }

end SessionRecord

/-! ### The registry -/

/-- The registry, the records handed to the writer and the results given out. -/
structure Log where
  sessions : AList fun _ : Key => SessionRecord
  activeByConn : AList fun _ : ℤ => Key
  written : List SessionRecord
  returned : List SessionRecord

/-- An event, and whether the log is enabled when it comes. A mark finds the lock free or not. A
request for the result of a connection gets one of those there are. -/
inductive Event where
  | conn (enabled : Bool) (now : Str) (value : ConnEvent)
  | file (enabled : Bool) (value : FileEvent)
  | scan (enabled : Bool) (value : ScanEvent)
  | mark (enabled : Bool) (conn : ℤ) (permission : Str) (lockFree : Bool)
  | completed (conn : ℤ) (choice : Option Key)

namespace Log

def empty : Log := ⟨∅, ∅, [], []⟩

def sessionFor (s : Log) (conn : ℤ) : Option (Key × SessionRecord) :=
  (s.activeByConn.lookup conn).bind fun key => (s.sessions.lookup key).map fun r => (key, r)

def openSession (s : Log) (conn : ℤ) (now : Str) (value : ConnEvent) : Log :=
  { s with
    sessions := s.sessions.insert (conn, now) (.start conn now value)
    activeByConn := s.activeByConn.insert conn (conn, now)
    written := s.written ++ [.start conn now value] }

def touch (s : Log) (conn : ℤ) (change : SessionRecord → SessionRecord) : Log :=
  match s.sessionFor conn with
  | none => s
  | some (key, r) => { s with sessions := s.sessions.insert key (change r) }

def updateSession (s : Log) (conn : ℤ) (value : ConnEvent) : Log :=
  match s.sessionFor conn with
  | none => s
  | some (key, r) =>
    let r' := ((r.describe value).identify value).bypass value
    { s with
      sessions := s.sessions.insert key r'
      written := if r.metadataChanged value then s.written ++ [r'] else s.written }

/-- The record is handed over as the event leaves it, save for posture bypasses, which are entered
into the registry only. -/
def closeSession (s : Log) (conn : ℤ) (now : Str) (value : ConnEvent) : Log :=
  match s.sessionFor conn with
  | none => s
  | some (key, r) =>
    let closing := (r.describe value).finish now value
    { s with
      sessions := s.sessions.insert key (closing.bypass value)
      activeByConn := s.activeByConn.erase conn
      written := s.written ++ [closing] }

def applyConnection (s : Log) (now : Str) (value : ConnEvent) : Log :=
  match value.connId with
  | none => s
  | some conn =>
    match value.action with
    | .new => s.openSession conn now value
    | .close => s.closeSession conn now value
    | .other => s.updateSession conn value

def onFile (s : Log) (value : FileEvent) : Log :=
  match value.connId with
  | none => s
  | some conn => s.touch conn fun r => r.addFiles value

def onFileScan (s : Log) (value : ScanEvent) : Log :=
  match value.connId with
  | none => s
  | some conn => s.touch conn fun r => r.addScan value

def isResult (conn : ℤ) (r : SessionRecord) : Bool := decide (r.connId = conn) && r.closed

def completedSession (s : Log) (conn : ℤ) : Option Key → Option Log
  | none => if s.sessions.entries.all fun e => !isResult conn e.2 then some s else none
  | some key =>
    (s.sessions.lookup key).bind fun r =>
      if isResult conn r then
        some { s with sessions := s.sessions.erase key, returned := s.returned ++ [r] }
      else none

end Log

def step (s : Log) : Event → Option Log
  | .conn enabled now value => some (if enabled then s.applyConnection now value else s)
  | .file enabled value => some (if enabled then s.onFile value else s)
  | .scan enabled value => some (if enabled then s.onFileScan value else s)
  | .mark enabled conn permission lockFree =>
    some (if enabled ∧ lockFree then s.touch conn fun r => r.permit permission else s)
  | .completed conn choice => s.completedSession conn choice

/-! ### What a session has been told -/

def SessionRecord.after (conn : ℤ) (r : SessionRecord) : Event → SessionRecord
  | .conn true _ value =>
    if value.connId = some conn ∧ value.action = .other then
      ((r.describe value).identify value).bypass value
    else r
  | .file true value => if value.connId = some conn then r.addFiles value else r
  | .scan true value => if value.connId = some conn then r.addScan value else r
  | .mark true conn' permission true => if conn' = conn then r.permit permission else r
  | _ => r

def Marked (conn : ℤ) (permission : Str) (es : List Event) : Prop :=
  .mark true conn permission true ∈ es ∨
    (permission = "file_transfer".toList ∧ ∃ value, .file true value ∈ es ∧
      value.connId = some conn)

def told (conn : ℤ) (key : MetaKey) (es : List Event) : List Str :=
  es.filterMap fun e => match e with
    | .conn true _ value =>
      if value.connId = some conn ∧ value.action ≠ .new then some (value.metadata key) else none
    | _ => none

def latest (start : Str) (texts : List Str) : Str :=
  texts.foldl (fun acc text => if text = [] then acc else text) start

def listed (value : FileEvent) : List (Direction × Str × ℤ) :=
  value.files.filterMap fun f => f.map fun file =>
    (if value.type = some 0 then .toPeer else .fromPeer,
      if file.1 = [] then basename value.path else file.1, file.2)

def reported (conn : ℤ) (es : List Event) : List (Direction × Str × ℤ) :=
  es.flatMap fun e => match e with
    | .file true value => if value.connId = some conn then listed value else []
    | _ => []

def outcomes (conn : ℤ) (name : Str) (es : List Event) : List Outcome :=
  es.filterMap fun e => match e with
    | .scan true value =>
      if value.connId = some conn ∧ basename value.name = name then some value.outcome else none
    | _ => none

def FileRecord.shown (f : FileRecord) : Direction × Str × ℤ := (f.direction, f.name, f.size)

def FileRecord.isReceived (name : Str) (f : FileRecord) : Bool :=
  decide (f.direction = .fromPeer ∧ basename f.name = name)

def Lists (files : List FileRecord) (all : List (Direction × Str × ℤ)) : Prop :=
  ∃ kept lost, all = kept ++ lost ∧ kept.Sublist (files.map FileRecord.shown) ∧
    (lost ≠ [] → files.length = maxFiles)

/-- The received files with the name have the outcomes in order, the others none yet, and only a
full list without waiting files leaves an outcome out. -/
def Scanned (name : Str) (files : List FileRecord) (all : List Outcome) : Prop :=
  ∃ given lost waiting, all = given ++ lost ∧
    (files.filter (FileRecord.isReceived name)).map FileRecord.scan =
      given.map some ++ List.replicate waiting none ∧
    (lost ≠ [] → waiting = 0 ∧ files.length = maxFiles)

section Files

variable (files : List FileRecord)

variable (name : Str) (size : Option ℤ) (all : List Outcome) (outcome : Outcome)
  (direction : Direction) (pathName : Str) (fs : List (Option (Str × ℤ))) (f : Option (Str × ℤ))

end Files

/-! ### The record of a session -/

structure Told (conn : ℤ) (es : List Event) (r : SessionRecord) : Prop where
  permissions : ∀ p, p ∈ r.permissionsUsed ↔ Marked conn p es
  metadata : ∀ key, r.metadata key = latest [] (told conn key es)
  length : r.files.length ≤ maxFiles
  files : Lists r.files (reported conn es)
  scans : ∀ name, Scanned name r.files (outcomes conn name es)

variable (conn : ℤ) (now : Str) (es : List Event) (r : SessionRecord) (value : ConnEvent)

/-- An event that says nothing to the session. -/
structure Silent (conn : ℤ) (e : Event) : Prop where
  marks : ∀ p, ¬ Marked conn p [e]
  texts : ∀ key, told conn key [e] = []
  files : reported conn [e] = []
  scans : ∀ name, outcomes conn name [e] = []

end ClantoDesk.SessionReports
