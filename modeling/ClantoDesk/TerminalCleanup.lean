import ClantoDesk.TerminalStream
import Mathlib.Data.List.AList

/-!
The sessions of one terminal service, src/server/terminal_service.rs: the passes of the service
loops over them, and the opens and closes of the connections. A loop takes a snapshot of the
sessions, looks at each under its own lock, remembers the ids of those that have ended, and
removes these by id later. Each part between two acquisitions of the service's lock or of a
session's is one event. A loop of an earlier connection may still be in its last pass, so there
are any number of loops.
-/
namespace ClantoDesk.TerminalCleanup

open LittleEndian Text TerminalStream

/-- `HashMap<i32, Arc<Mutex<TerminalSession>>>`: an `Arc` is the index of its session. -/
abbrev Table := AList fun _ : Int32 => ℕ

/-- An id in `closed_terminals`. The session found ended under it is kept for the statements
only. -/
structure Ended where
  id : Int32
  found : ℕ
  deriving DecidableEq

/-- Where a loop is: between two passes, before its snapshot, in the pass over the sessions,
and in the clean-up with its own copy of the table. In the clean-up it may have
removed a session whose child it has yet to take, or taken the child of one that it has
yet to remove. -/
inductive Phase
  | waiting
  | starting
  | reading (todo : List (Int32 × ℕ)) (ended : List Ended)
  | cleaning (copy : Table) (ended : List Ended)
  | taking (e : Ended) (arc : ℕ) (copy : Table) (ended : List Ended)
  | removing (e : Ended) (exitCode : Int32) (copy : Table) (ended : List Ended)
  deriving DecidableEq

def Phase.todo : Phase → List (Int32 × ℕ)
  | .reading todo _ => todo
  | _ => []

/-- A loop with the persistence that its proxy read, and the responses of its pass, which are
sent before the next one. -/
structure Loop where
  isPersistent : Bool
  phase : Phase
  responses : List TerminalResponse

/-- What the clean-up of a session found ended did to a session, kept for the statements only. -/
inductive Act
  | removed (found arc : ℕ)
  | took (found arc : ℕ)
  | finished (found : ℕ)
  deriving DecidableEq

/-- The service, its sessions and its loops, and for the statements the sessions closed by a
connection and the acts of the clean-up. -/
structure System where
  serviceId : Str
  isPersistent : Bool
  needsSessionSync : Bool
  sessions : Table
  heap : List TerminalSession
  loops : List Loop
  closes : List ℕ
  acts : List Act

/-- `PersistentTerminalService::new`. -/
def start (serviceId : Str) (isPersistent : Bool) : System :=
  ⟨serviceId, isPersistent, false, ∅, [], [], [], []⟩

structure OpenTerminal where
  terminalId : Int32
  rows : UInt32
  cols : UInt32
  deriving DecidableEq

def System.remapFrom (s : System) (terminalId : Int32) : Option Int32 :=
  if terminalId ∉ s.sessions ∧ s.needsSessionSync then s.sessions.keys.min? else none

def System.remap (s : System) (terminalId : Int32) : Table :=
  match s.remapFrom terminalId with
  | none => s.sessions
  | some lowestId => match s.sessions.lookup lowestId with
    | none => s.sessions
    | some arc => (s.sessions.erase lowestId).insert terminalId arc

def System.opened (s : System) (sessions : Table) (heap : List TerminalSession) : System :=
  { s with sessions := sessions, heap := heap, needsSessionSync := false }

/-- `handle_open`, where `spawned` is the process of a new terminal, or none when the PTY or the
shell cannot be started. An error has no response here. -/
def handleOpen (s : System) (o : OpenTerminal) (arriving : List Bytes) (spawned : Option UInt32) :
    System × Option TerminalResponse :=
  let sessions := s.remap o.terminalId
  match sessions.lookup o.terminalId with
  | some arc => match s.heap[arc]? with
    | none => (s, none)
    | some session =>
      let (session, buffer) := session.reconnect arriving
      (s.opened sessions (s.heap.set arc session), some (.opened {
        terminalId := o.terminalId
        success := true
        message := if buffer = [] then "Reconnected to existing terminal".toList
          else "Reconnected to existing terminal with pending output".toList
        pid := session.pid
        serviceId := s.serviceId
        persistentSessions := if s.needsSessionSync then
          sessions.keys.filter fun id => id ≠ o.terminalId else []
        replayTerminalOutput := decide (buffer ≠ []) }))
  | none => match spawned with
    | none => (s, none)
    | some pid =>
      (s.opened (sessions.insert o.terminalId s.heap.length)
        (s.heap ++ [newSession o.rows.toUInt16 o.cols.toUInt16 pid]), some (.opened {
          terminalId := o.terminalId
          success := true
          message := "Terminal opened".toList
          pid := pid
          serviceId := s.serviceId
          persistentSessions := if s.needsSessionSync then sessions.keys else []
          replayTerminalOutput := false }))

def System.closed (s : System) (id : Int32) (arc : ℕ) : System :=
  { s with
    sessions := s.sessions.erase id
    heap := s.heap.modify arc TerminalSession.takeChild
    closes := s.closes ++ [arc] }

/-- `handle_close`. When the process cannot be killed, the session is removed all the same. -/
def handleClose (s : System) (terminalId : Int32) (killFails : Bool) :
    System × Option TerminalResponse :=
  match s.sessions.lookup terminalId with
  | none => (s, none)
  | some arc =>
    let hasChild := (s.heap[arc]?.bind TerminalSession.child).isSome
    (s.closed terminalId arc,
      if hasChild && killFails then none
      else some (.closed terminalId (if hasChild then -1 else 0)))

/-- `reset_status`. -/
def resetStatus (s : System) (isPersistent : Bool) : System :=
  { s with
    isPersistent := isPersistent
    needsSessionSync := true
    heap := s.heap.map fun x => x.withState .closed }

/-! ### The loops -/

def System.setLoop (s : System) (i : ℕ) (l : Loop) : System := { s with loops := s.loops.set i l }

def System.withHeap (s : System) (heap : List TerminalSession) : System := { s with heap := heap }

def System.withAct (s : System) (act : Act) : System := { s with acts := s.acts ++ [act] }

def System.removeId (s : System) (e : Ended) : System :=
  match s.sessions.lookup e.id with
  | none => s
  | some arc => { s with sessions := s.sessions.erase e.id }.withAct (.removed e.found arc)

def System.take (s : System) (e : Ended) (arc : ℕ) : System :=
  match s.heap[arc]? with
  | none => s
  | some x =>
    let t := s.withHeap (s.heap.set arc x.takeChild)
    if x.child.isSome then t.withAct (.took e.found arc) else t

def Loop.at (l : Loop) (phase : Phase) : Loop := { l with phase := phase }

def Loop.finish (l : Loop) (e : Ended) (exitCode : Int32) (copy : Table)
    (ended : List Ended) : Loop :=
  { l with
    phase := .cleaning copy ended
    responses := l.responses ++ [.closed e.id exitCode] }

def System.exitCode (s : System) (arc : ℕ) (waitFails : Bool) : Int32 :=
  match s.heap[arc]? with
  | none => 0
  | some x => x.exitCode waitFails

def readNext (compress : Bytes → Bytes) (s : System) (i : ℕ) (l : Loop) (busy : Bool)
    (io : PassIo) :
    Option System :=
  match l.phase with
  | .reading ((id, arc) :: todo) ended =>
    if busy then some (s.setLoop i (l.at (.reading todo ended)))
    else match s.heap[arc]? with
      | none => none
      | some x =>
        let (x, hasEnded, responses) := x.readOutput compress id io
        some ((s.withHeap (s.heap.set arc x)).setLoop i { l with
          phase := .reading todo (if hasEnded then ended ++ [⟨id, arc⟩] else ended)
          responses := l.responses ++ responses })
  | _ => none

/-- The table is copied for the clean-up, if a session was found ended. -/
def copySessions (s : System) (i : ℕ) (l : Loop) : Option System :=
  match l.phase with
  | .reading [] [] => some (s.setLoop i (l.at .waiting))
  | .reading [] ended => some (s.setLoop i (l.at (.cleaning s.sessions ended)))
  | _ => none

def cleanNext (s : System) (i : ℕ) (l : Loop) (waitFails : Bool) : Option System :=
  match l.phase with
  | .cleaning _ [] => some (s.setLoop i (l.at .waiting))
  | .cleaning copy (e :: ended) => match copy.lookup e.id with
    | none => some ((s.withAct (.finished e.found)).setLoop i (l.finish e 0 copy ended))
    | some arc =>
      if l.isPersistent then
        let exitCode := s.exitCode arc waitFails
        let t := s.take e arc
        if (s.heap[arc]?.map TerminalSession.closedMessageSent) = some true then
          some (t.setLoop i (l.at (.removing e exitCode copy ended)))
        else some ((t.withAct (.finished e.found)).setLoop i (l.finish e exitCode copy ended))
      else some ((s.removeId e).setLoop i (l.at (.taking e arc (copy.erase e.id) ended)))
  | .taking e arc copy ended =>
    some (((s.take e arc).withAct (.finished e.found)).setLoop i
      (l.finish e (s.exitCode arc waitFails) copy ended))
  | .removing e exitCode copy ended =>
    some (((s.removeId e).withAct (.finished e.found)).setLoop i
      (l.finish e exitCode (copy.erase e.id) ended))
  | _ => none

inductive Event
  | openTerminal (o : OpenTerminal) (arriving : List Bytes) (spawned : Option UInt32)
  | closeTerminal (terminalId : Int32) (killFails : Bool)
  | resetStatus (isPersistent : Bool)
  | setPersistent (isPersistent : Bool)
  | output (arc : ℕ) (data : Bytes)
  | childExits (arc : ℕ) (code : UInt32)
  | readerFinishes (arc : ℕ)
  | newLoop
  | newProxy (i : ℕ)
  | snapshot (i : ℕ) (order : List (Int32 × ℕ))
  | readNext (i : ℕ) (busy : Bool) (io : PassIo)
  | copySessions (i : ℕ)
  | cleanNext (i : ℕ) (waitFails : Bool)
  deriving DecidableEq

def Table.pairs (t : Table) : List (Int32 × ℕ) := t.entries.map fun e => (e.1, e.2)

def step (compress : Bytes → Bytes) (s : System) : Event → Option System
  | .openTerminal o arriving spawned => some (handleOpen s o arriving spawned).1
  | .closeTerminal terminalId killFails => some (handleClose s terminalId killFails).1
  | .resetStatus isPersistent => some (TerminalCleanup.resetStatus s isPersistent)
  | .setPersistent isPersistent => some { s with isPersistent := isPersistent }
  | .output arc data => some (s.withHeap (s.heap.modify arc fun x => x.trySendOutput data))
  | .childExits arc code =>
    some (s.withHeap (s.heap.modify arc fun x => { x with
    child := x.child.map fun _ => ⟨some code⟩ }))
  | .readerFinishes arc =>
    some (s.withHeap (s.heap.modify arc fun x =>
      { x with readerThread := x.readerThread.map fun _ => true }))
  | .newLoop => some { s with loops := s.loops ++ [⟨false, .waiting, []⟩] }
  | .newProxy i => s.loops[i]?.bind fun l =>
    if l.phase = .waiting then some (s.setLoop i ⟨s.isPersistent, .starting, []⟩) else none
  | .snapshot i order => s.loops[i]?.bind fun l =>
    if l.phase = .starting ∧ order.Perm (Table.pairs s.sessions) then
      some (s.setLoop i (l.at (.reading order [])))
    else none
  | .readNext i busy io => s.loops[i]?.bind fun l => TerminalCleanup.readNext compress s i l busy io
  | .copySessions i => s.loops[i]?.bind fun l => TerminalCleanup.copySessions s i l
  | .cleanNext i waitFails => s.loops[i]?.bind fun l => TerminalCleanup.cleanNext s i l waitFails

/-! ### What the clean-up is to do -/

def Act.Only : Act → Prop
  | .removed found arc => arc = found
  | .took found arc => arc = found
  | .finished _ => True

def awaiting (copy : Table) (ended : List Ended) : List Ended :=
  ended.filter fun e => (copy.lookup e.id).isSome

def Phase.due : Phase → List Ended
  | .waiting | .starting => []
  | .reading _ ended => ended
  | .cleaning copy ended => awaiting copy ended
  | .taking _ _ copy ended => awaiting copy ended
  | .removing e _ copy ended => e :: awaiting copy ended

def System.due (s : System) : List Ended := s.loops.flatMap fun l => l.phase.due

/-- The clean-up removed sessions, and took children, of those found ended only; every other
session that no connection closed is in the table with its child; one found ended is in the
table only while its clean-up is due there, and no longer at the end of the clean-up. -/
structure Orderly (s : System) : Prop where
  only : ∀ act ∈ s.acts, act.Only
  runs : ∀ arc x, s.heap[arc]? = some x → x.closedMessageSent = false → arc ∉ s.closes →
    (∃ id, s.sessions.lookup id = some arc) ∧ x.child.isSome
  awaited : ∀ id arc x, s.sessions.lookup id = some arc → s.heap[arc]? = some x →
    x.closedMessageSent = true → ⟨id, arc⟩ ∈ s.due
  gone : ∀ found, .finished found ∈ s.acts → ∀ id, s.sessions.lookup id ≠ some found

def Free (s : System) (id : Int32) : Prop := id ∉ s.due.map Ended.id

def InPlace (s : System) (id : Int32) (arc : ℕ) : Prop :=
  s.sessions.lookup id = some arc ∨ (id ∉ s.sessions ∧ ∀ entry ∈ s.sessions.entries, entry.2 ≠ arc)

instance decidableInPlace (s : System) (id : Int32) (arc : ℕ) : Decidable (InPlace s id arc) := by
  unfold InPlace
  infer_instance

/-- No open creates or moves a session while a clean-up is due for its new or its old id, and a
session that is found ended has not left the id of the snapshot, unless it is closed and its id is
not used again. -/
def Guarded (s : System) : Event → Prop
  | .openTerminal o _ spawned =>
    o.terminalId ∈ s.sessions ∨ (s.remapFrom o.terminalId = none ∧ spawned = none) ∨
      (Free s o.terminalId ∧ ∀ lowestId ∈ s.remapFrom o.terminalId, Free s lowestId)
  | .readNext i busy io =>
    ∀ l ∈ s.loops[i]?, ∀ e ∈ l.phase.todo.head?, ∀ x ∈ s.heap[e.2]?,
      busy = false → x.closedMessageSent = false → x.hasEnded io.waitFails = true →
        InPlace s e.1 e.2
  | _ => True

instance decidableFree (s : System) (id : Int32) : Decidable (Free s id) := by
  unfold Free
  infer_instance

instance decidableGuarded (s : System) (event : Event) : Decidable (Guarded s event) := by
  -- the quantifier over the old id goes through the option, not through all integers
  have hlowest : ∀ o : Option Int32, Decidable (∀ lowestId ∈ o, Free s lowestId) :=
    Option.decidableForallMem
  unfold Guarded
  split <;> infer_instance

/-! ### The invariant -/

def System.flag (s : System) (arc : ℕ) : Option Bool :=
  s.heap[arc]?.map TerminalSession.closedMessageSent

def System.hasChild (s : System) (arc : ℕ) : Option Bool := s.heap[arc]?.map fun x => x.child.isSome

/-- A session found ended is in the table under its id only, and only while its clean-up is due
there; until then no other session has the id. -/
structure Sound (s : System) (due : Prop) (e : Ended) : Prop where
  found : s.flag e.found = some true
  place : ∀ id, s.sessions.lookup id = some e.found → id = e.id ∧ due
  alone : due → ∀ arc, s.sessions.lookup e.id = some arc → arc = e.found

def SoundCopy (s : System) (copy : Table) (ended : List Ended) : Prop :=
  ∀ e ∈ ended, Sound s (copy.lookup e.id).isSome e ∧
    ∀ arc, copy.lookup e.id = some arc → arc = e.found

def Phase.Sound (s : System) : Phase → Prop
  | .waiting | .starting => True
  | .reading todo ended => (∀ e ∈ todo, s.flag e.2 ≠ none) ∧
      ∀ e ∈ ended, TerminalCleanup.Sound s True e
  | .cleaning copy ended => SoundCopy s copy ended
  | .taking e arc copy ended => TerminalCleanup.Sound s False e ∧ arc = e.found ∧
      SoundCopy s copy ended
  | .removing e _ copy ended => TerminalCleanup.Sound s True e ∧ SoundCopy s copy ended

structure Inv (s : System) : Prop where
  apart : ∀ i j arc, s.sessions.lookup i = some arc → s.sessions.lookup j = some arc → i = j
  known : ∀ id arc, s.sessions.lookup id = some arc → s.flag arc ≠ none
  phases : ∀ l ∈ s.loops, l.phase.Sound s
  runs : ∀ arc, s.flag arc = some false → arc ∉ s.closes →
    (∃ id, s.sessions.lookup id = some arc) ∧ s.hasChild arc = some true
  awaited : ∀ id arc, s.sessions.lookup id = some arc → s.flag arc = some true → ⟨id, arc⟩ ∈ s.due
  only : ∀ act ∈ s.acts, act.Only
  gone : ∀ found, .finished found ∈ s.acts →
    s.flag found ≠ none ∧ ∀ id, s.sessions.lookup id ≠ some found

theorem Inv.orderly {s : System} (h : Inv s) : Orderly s := by
  refine ⟨h.only, ?_, ?_, fun found hfound => (h.gone found hfound).2⟩
  · intro arc x hx hflag hcloses
    obtain ⟨hlisted, hchild⟩ := h.runs arc (by simp [System.flag, hx, hflag]) hcloses
    exact ⟨hlisted, by simpa [System.hasChild, hx] using hchild⟩
  · intro id arc x hlookup hx hflag
    exact h.awaited id arc hlookup (by simp [System.flag, hx, hflag])

variable (s : System) (e : Ended)

theorem mem_awaiting (copy : Table) (ended : List Ended) (e : Ended) :
    e ∈ awaiting copy ended ↔ e ∈ ended ∧ (copy.lookup e.id).isSome := by
  simp [awaiting]

theorem mem_due : e ∈ s.due ↔ ∃ l ∈ s.loops, e ∈ l.phase.due := by
  simp [System.due]

theorem Phase.Sound.mono {s s' : System} {phase : Phase} (h : phase.Sound s)
    (hknown : ∀ arc, s.flag arc ≠ none → s'.flag arc ≠ none)
    (hentry : ∀ e (due : Prop), (due → e ∈ phase.due) → TerminalCleanup.Sound s due e →
      TerminalCleanup.Sound s' due e) : phase.Sound s' := by
  have hcopy : ∀ copy ended, (∀ e ∈ awaiting copy ended, e ∈ phase.due) →
      SoundCopy s copy ended → SoundCopy s' copy ended := by
    intro copy ended hdue hsound e he
    refine ⟨hentry e _ (fun hsome => ?_) (hsound e he).1, (hsound e he).2⟩
    exact hdue e ((mem_awaiting copy ended e).mpr ⟨he, hsome⟩)
  cases phase with
  | waiting => trivial
  | starting => trivial
  | reading todo ended =>
    exact ⟨fun e he => hknown _ (h.1 e he), fun e he => hentry e True (fun _ => he) (h.2 e he)⟩
  | cleaning copy ended => exact hcopy copy ended (fun e he => he) h
  | taking e arc copy ended =>
    exact ⟨hentry e False False.elim h.1, h.2.1, hcopy copy ended (fun e he => he) h.2.2⟩
  | removing e exitCode copy ended =>
    exact ⟨hentry e True (fun _ => List.mem_cons_self) h.1,
      hcopy copy ended (fun e he => List.mem_cons_of_mem _ he) h.2⟩

theorem Sound.shrink {s s' : System} {due : Prop} {e : Ended} (h : Sound s due e)
    (hflag : s.flag e.found = some true → s'.flag e.found = some true)
    (hsessions : ∀ id arc, s'.sessions.lookup id = some arc → s.sessions.lookup id = some arc) :
    Sound s' due e :=
  ⟨hflag h.found, fun id hid => h.place id (hsessions id _ hid),
    fun hdue arc harc => h.alone hdue arc (hsessions _ arc harc)⟩

/-- A step that changes nothing the invariant looks at. -/
theorem Inv.steady {s s' : System} (h : Inv s) (hsessions : s'.sessions = s.sessions)
    (hloops : s'.loops = s.loops) (hcloses : s'.closes = s.closes) (hacts : s'.acts = s.acts)
    (hflag : ∀ arc, s'.flag arc = s.flag arc) (hchild : ∀ arc, s'.hasChild arc = s.hasChild arc) :
    Inv s' := by
  refine ⟨?_, ?_, ?_, ?_, ?_, ?_, ?_⟩
  · rw [hsessions]
    exact h.apart
  · intro id arc hid
    rw [hflag]
    exact h.known id arc (by rwa [← hsessions])
  · intro l hl
    refine (h.phases l (by rwa [← hloops])).mono (fun arc harc => by rwa [hflag]) ?_
    intro e due _ he
    exact he.shrink (fun hfound => by rwa [hflag]) (fun id arc hid => by rwa [← hsessions])
  · intro arc harc hnot
    rw [hsessions, hchild]
    exact h.runs arc (by rwa [← hflag]) (by rwa [← hcloses])
  · intro id arc hid harc
    have hdue := h.awaited id arc (by rwa [← hsessions]) (by rwa [← hflag])
    rw [mem_due] at hdue ⊢
    rwa [hloops]
  · rw [hacts]
    exact h.only
  · intro found hfound
    rw [hflag, hsessions]
    exact h.gone found (by rwa [← hacts])

/-- A loop goes on; what it was to clean up and no longer is, is not in the table. -/
theorem Inv.setLoop {s : System} (h : Inv s) (i : ℕ) (l l' : Loop) (hl : s.loops[i]? = some l)
    (hsound : l'.phase.Sound s)
    (hdue : ∀ e ∈ l.phase.due, s.sessions.lookup e.id = some e.found → e ∈ l'.phase.due) :
    Inv (s.setLoop i l') := by
  refine ⟨h.apart, h.known, ?_, h.runs, ?_, h.only, h.gone⟩
  · intro m hm
    have hold : m.phase.Sound s := by
      rcases List.mem_or_eq_of_mem_set hm with hold | rfl
      · exact h.phases m hold
      · exact hsound
    exact hold.mono (fun _ harc => harc) (fun e due _ he => he.shrink id (fun _ _ hid => hid))
  · intro id arc hid harc
    obtain ⟨m, hm, he⟩ := (mem_due s _).mp (h.awaited id arc hid harc)
    obtain ⟨hi, hget⟩ := List.getElem?_eq_some_iff.mp hl
    rw [mem_due]
    obtain ⟨j, hj⟩ := List.mem_iff_getElem?.mp hm
    by_cases hij : i = j
    · subst hij
      obtain rfl := Option.some.inj (hj.symm.trans hl)
      exact ⟨l', List.mem_set hi l', hdue _ he hid⟩
    · refine ⟨m, ?_, he⟩
      exact List.mem_iff_getElem?.mpr ⟨j, (List.getElem?_set_ne hij).trans hj⟩

theorem Inv.withAct {s : System} (h : Inv s) (act : Act) (hact : act.Only)
    (hgone : ∀ found, act = .finished found →
      s.flag found ≠ none ∧ ∀ id, s.sessions.lookup id ≠ some found) : Inv (s.withAct act) := by
  refine ⟨h.apart, h.known, ?_, h.runs, h.awaited, ?_, ?_⟩
  · intro l hl
    exact (h.phases l hl).mono (fun _ harc => harc)
      (fun e due _ he => he.shrink id (fun _ _ hid => hid))
  · intro a ha
    rcases List.mem_append.mp ha with hold | hnew
    · exact h.only a hold
    · exact List.mem_singleton.mp hnew ▸ hact
  · intro found hfound
    rcases List.mem_append.mp hfound with hold | hnew
    · exact h.gone found hold
    · exact hgone found (List.mem_singleton.mp hnew).symm

theorem Inv.removeId {s : System} (h : Inv s) (e : Ended) (he : Sound s True e) :
    Inv (s.removeId e) ∧ Sound (s.removeId e) False e ∧
      (∀ id arc, (s.removeId e).sessions.lookup id = some arc →
        s.sessions.lookup id = some arc ∧ id ≠ e.id) ∧
      (s.removeId e).loops = s.loops ∧ ∀ arc, (s.removeId e).flag arc = s.flag arc := by
  unfold System.removeId
  cases hid : s.sessions.lookup e.id with
  | none =>
    have hne : ∀ id arc, s.sessions.lookup id = some arc → id ≠ e.id := by
      rintro id arc harc rfl
      rw [hid] at harc
      cases harc
    refine ⟨h, ⟨he.found, ?_, False.elim⟩, fun id arc harc => ⟨harc, hne id arc harc⟩, rfl,
      fun _ => rfl⟩
    intro id hfound
    exact absurd (he.place id hfound).1 (hne id _ hfound)
  | some arc =>
    obtain rfl := he.alone trivial arc hid
    have hsessions : ∀ id arc, (s.sessions.erase e.id).lookup id = some arc →
        s.sessions.lookup id = some arc ∧ id ≠ e.id := by
      intro id arc harc
      by_cases heq : id = e.id
      · rw [heq, AList.lookup_erase] at harc
        cases harc
      · rw [AList.lookup_erase_ne heq] at harc
        exact ⟨harc, heq⟩
    have herased : Inv { s with sessions := s.sessions.erase e.id } := by
      refine ⟨?_, ?_, ?_, ?_, ?_, h.only, ?_⟩
      · intro i j arc hi hj
        exact h.apart i j arc (hsessions i arc hi).1 (hsessions j arc hj).1
      · intro id arc harc
        exact h.known id arc (hsessions id arc harc).1
      · intro l hl
        refine (h.phases l hl).mono (fun _ harc => harc) (fun d due _ hd => ?_)
        exact hd.shrink id (fun id arc harc => (hsessions id arc harc).1)
      · intro arc harc hnot
        obtain ⟨⟨id, hlookup⟩, hchild⟩ := h.runs arc harc hnot
        refine ⟨⟨id, ?_⟩, hchild⟩
        have hne : id ≠ e.id := by
          rintro rfl
          obtain rfl := Option.some.inj (hid.symm.trans hlookup)
          have hfound := he.found
          rw [show s.flag e.found = some false from harc] at hfound
          cases hfound
        exact (AList.lookup_erase_ne hne).trans hlookup
      · intro id arc hlookup harc
        exact h.awaited id arc (hsessions id arc hlookup).1 harc
      · intro found hfound
        obtain ⟨hknown, hnone⟩ := h.gone found hfound
        exact ⟨hknown, fun id hlookup => hnone id (hsessions id _ hlookup).1⟩
    refine ⟨herased.withAct (.removed e.found e.found) rfl (fun found heq => by cases heq),
      ⟨he.found, ?_, False.elim⟩, hsessions, rfl, fun _ => rfl⟩
    intro id hlookup
    obtain ⟨hold, hne⟩ := hsessions id _ hlookup
    exact absurd (he.place id hold).1 hne

theorem map_getElem?_set {β : Type} (f : TerminalSession → β) (heap : List TerminalSession)
    (arc : ℕ)
    (x y : TerminalSession) (hx : heap[arc]? = some x) (hf : f y = f x) (b : ℕ) :
    (heap.set arc y)[b]?.map f = heap[b]?.map f := by
  by_cases hb : arc = b
  · subst hb
    rw [List.getElem?_set_self (List.getElem?_eq_some_iff.mp hx).1, hx, Option.map_some,
      Option.map_some, hf]
  · rw [List.getElem?_set_ne hb]

theorem map_getElem?_modify {β : Type} (f : TerminalSession → β)
    (g : TerminalSession → TerminalSession)
    (hf : ∀ x, f (g x) = f x) (heap : List TerminalSession) (arc b : ℕ) :
    (heap.modify arc g)[b]?.map f = heap[b]?.map f := by
  rw [List.getElem?_modify]
  cases heap[b]? with
  | none => rfl
  | some x =>
    by_cases hb : arc = b
    · simp [hb, hf]
    · simp [hb]

theorem Inv.take {s : System} (h : Inv s) (e : Ended) (he : s.flag e.found = some true) :
    Inv (s.take e e.found) ∧ (s.take e e.found).sessions = s.sessions ∧
      (s.take e e.found).loops = s.loops ∧ ∀ arc, (s.take e e.found).flag arc = s.flag arc := by
  unfold System.take
  cases hx : s.heap[e.found]? with
  | none => exact ⟨h, rfl, rfl, fun _ => rfl⟩
  | some x =>
    have hflag : ∀ arc, (s.withHeap (s.heap.set e.found x.takeChild)).flag arc = s.flag arc :=
      map_getElem?_set _ s.heap e.found x x.takeChild hx rfl
    have hchild : ∀ arc, arc ≠ e.found →
        (s.withHeap (s.heap.set e.found x.takeChild)).hasChild arc = s.hasChild arc := by
      intro arc harc
      exact congrArg (Option.map _) (List.getElem?_set_ne harc.symm)
    have htaken : Inv (s.withHeap (s.heap.set e.found x.takeChild)) := by
      refine ⟨h.apart, ?_, ?_, ?_, ?_, h.only, ?_⟩
      · intro id arc harc
        rw [hflag]
        exact h.known id arc harc
      · intro l hl
        refine (h.phases l hl).mono (fun arc harc => by rwa [hflag]) (fun d due _ hd => ?_)
        exact hd.shrink (fun hd => by rwa [hflag]) (fun _ _ hid => hid)
      · intro arc harc hnot
        rw [hflag] at harc
        have hne : arc ≠ e.found := by
          rintro rfl
          rw [harc] at he
          cases he
        rw [hchild arc hne]
        exact h.runs arc harc hnot
      · intro id arc hid harc
        rw [hflag] at harc
        exact h.awaited id arc hid harc
      · intro found hfound
        rw [hflag]
        exact h.gone found hfound
    simp only
    split
    · exact ⟨htaken.withAct (.took e.found e.found) rfl (fun found heq => by cases heq),
        rfl, rfl, hflag⟩
    · exact ⟨htaken, rfl, rfl, hflag⟩

theorem SoundCopy.shrink {s s' : System} {copy : Table} {ended : List Ended}
    (h : SoundCopy s copy ended) (hflag : ∀ arc, s.flag arc = some true → s'.flag arc = some true)
    (hsessions : ∀ id arc, s'.sessions.lookup id = some arc → s.sessions.lookup id = some arc) :
    SoundCopy s' copy ended :=
  fun e he => ⟨(h e he).1.shrink (hflag _) hsessions, (h e he).2⟩

/-- When an id leaves both the table and the copy, no clean-up is due for it any more. -/
theorem SoundCopy.erase {s s' : System} {copy : Table} {ended : List Ended} {id : Int32}
    (h : SoundCopy s copy ended) (hflag : ∀ arc, s'.flag arc = s.flag arc)
    (hsessions : ∀ j arc, s'.sessions.lookup j = some arc →
      s.sessions.lookup j = some arc ∧ j ≠ id) : SoundCopy s' (copy.erase id) ended := by
  intro d hd
  obtain ⟨hsound, hagrees⟩ := h d hd
  by_cases heq : d.id = id
  · have hnone : (copy.erase id).lookup d.id = none := by rw [heq, AList.lookup_erase]
    rw [hnone]
    refine ⟨⟨by rw [hflag]; exact hsound.found, ?_, fun hdue => by cases hdue⟩,
      fun arc harc => by cases harc⟩
    intro j hj
    obtain ⟨hold, hne⟩ := hsessions j _ hj
    exact absurd ((hsound.place j hold).1.trans heq) hne
  · rw [AList.lookup_erase_ne heq]
    exact ⟨hsound.shrink (fun harc => by rwa [hflag]) (fun j arc hj => (hsessions j arc hj).1),
      hagrees⟩

/-- What is due and in the table stays due when another id leaves both the table and the copy. -/
theorem mem_awaiting_erase {copy : Table} {ended : List Ended} {d : Ended} {id : Int32}
    (h : d ∈ awaiting copy ended) (hne : d.id ≠ id) : d ∈ awaiting (copy.erase id) ended := by
  rw [mem_awaiting] at h ⊢
  rwa [AList.lookup_erase_ne hne]

theorem mem_awaiting_cons {copy : Table} {e d : Ended} {ended : List Ended}
    (h : d ∈ awaiting copy (e :: ended)) :
    (d = e ∧ (copy.lookup e.id).isSome) ∨ d ∈ awaiting copy ended := by
  rw [mem_awaiting, List.mem_cons] at h
  obtain ⟨rfl | hd, hsome⟩ := h
  · exact Or.inl ⟨rfl, hsome⟩
  · exact Or.inr ((mem_awaiting copy ended d).mpr ⟨hd, hsome⟩)

theorem inv_cleaning {s t : System} (h : Inv s) (i : ℕ) (l : Loop) (hl : s.loops[i]? = some l)
    (waitFails : Bool) (copy : Table) (e : Ended) (ended : List Ended)
    (hphase : l.phase = .cleaning copy (e :: ended)) (hstep : cleanNext s i l waitFails = some t) :
    Inv t := by
  have hsound : SoundCopy s copy (e :: ended) := by
    have hall := h.phases l (List.mem_of_getElem? hl)
    rwa [hphase] at hall
  obtain ⟨he, hagrees⟩ := hsound e List.mem_cons_self
  have hrest : SoundCopy s copy ended := fun d hd => hsound d (List.mem_cons_of_mem e hd)
  unfold cleanNext at hstep
  simp only [hphase] at hstep
  cases hcopy : copy.lookup e.id with
  | none =>
    -- the connection closed the session before the table was copied
    simp only [hcopy, Option.some.injEq] at hstep
    subst hstep
    have hfinished := h.withAct (.finished e.found) trivial (fun found heq => by
      obtain rfl := Act.finished.inj heq
      refine ⟨by rw [he.found]; simp, fun id hid => ?_⟩
      simpa [hcopy] using (he.place id hid).2)
    refine hfinished.setLoop i l _ hl ?_ ?_
    · exact hrest.shrink (fun _ harc => harc) (fun _ _ hid => hid)
    · intro d hd _
      rw [hphase] at hd
      rcases mem_awaiting_cons hd with ⟨-, hsome⟩ | hd
      · simp [hcopy] at hsome
      · exact hd
  | some arc =>
    obtain rfl := hagrees arc hcopy
    have hdue : Sound s True e :=
      ⟨he.found, fun id hid => ⟨(he.place id hid).1, trivial⟩, fun _ => he.alone (by simp [hcopy])⟩
    simp only [hcopy] at hstep
    split at hstep
    case isTrue =>
      have hsent : s.heap[e.found]?.map TerminalSession.closedMessageSent = some true := he.found
      rw [if_pos hsent] at hstep
      obtain rfl := Option.some.inj hstep
      obtain ⟨hinv, hsessions, hloops, hflag⟩ := h.take e he.found
      have hsame : ∀ id arc, (s.take e e.found).sessions.lookup id = some arc →
          s.sessions.lookup id = some arc := fun id arc hid => by rwa [← hsessions]
      refine hinv.setLoop i l _ (by rwa [hloops]) ⟨?_, ?_⟩ ?_
      · exact hdue.shrink (fun harc => by rwa [hflag]) hsame
      · exact hrest.shrink (fun arc harc => by rwa [hflag]) hsame
      · intro d hd _
        rw [hphase] at hd
        rcases mem_awaiting_cons hd with ⟨rfl, -⟩ | hd
        · exact List.mem_cons_self
        · exact List.mem_cons_of_mem _ hd
    case isFalse =>
      obtain rfl := Option.some.inj hstep
      obtain ⟨hinv, hout, hsessions, hloops, hflag⟩ := h.removeId e hdue
      refine hinv.setLoop i l _ (by rwa [hloops]) ⟨hout, rfl, hrest.erase hflag hsessions⟩ ?_
      intro d hd hlisted
      rw [hphase] at hd
      have hne := (hsessions _ _ hlisted).2
      rcases mem_awaiting_cons hd with ⟨rfl, -⟩ | hd
      · exact absurd rfl hne
      · exact mem_awaiting_erase hd hne

theorem inv_cleanNext {s t : System} (h : Inv s) (i : ℕ) (l : Loop) (hl : s.loops[i]? = some l)
    (waitFails : Bool) (hstep : cleanNext s i l waitFails = some t) : Inv t := by
  have hall := h.phases l (List.mem_of_getElem? hl)
  cases hphase : l.phase with
  | waiting => simp [cleanNext, hphase] at hstep
  | starting => simp [cleanNext, hphase] at hstep
  | reading todo ended => simp [cleanNext, hphase] at hstep
  | cleaning copy ended =>
    cases ended with
    | nil =>
      simp only [cleanNext, hphase, Option.some.injEq] at hstep
      subst hstep
      refine h.setLoop i l _ hl trivial (fun d hd _ => ?_)
      rw [hphase] at hd
      cases hd
    | cons e ended => exact inv_cleaning h i l hl waitFails copy e ended hphase hstep
  | taking e arc copy ended =>
    rw [hphase] at hall
    obtain ⟨he, rfl, hrest⟩ := hall
    simp only [cleanNext, hphase, Option.some.injEq] at hstep
    subst hstep
    obtain ⟨hinv, hsessions, hloops, hflag⟩ := h.take e he.found
    have hsame : ∀ id arc, (s.take e e.found).sessions.lookup id = some arc →
        s.sessions.lookup id = some arc := fun id arc hid => by rwa [← hsessions]
    have hfinished := hinv.withAct (.finished e.found) trivial (fun found heq => by
      obtain rfl := Act.finished.inj heq
      refine ⟨by rw [hflag, he.found]; simp, fun id hid => ?_⟩
      exact (he.place id (hsame id _ hid)).2)
    refine hfinished.setLoop i l _ (by rw [← hl, ← hloops]; rfl) ?_ ?_
    · exact hrest.shrink (fun arc harc => (hflag arc).trans harc) hsame
    · intro d hd _
      rw [hphase] at hd
      exact hd
  | removing e exitCode copy ended =>
    rw [hphase] at hall
    obtain ⟨he, hrest⟩ := hall
    simp only [cleanNext, hphase, Option.some.injEq] at hstep
    subst hstep
    obtain ⟨hinv, hout, hsessions, hloops, hflag⟩ := h.removeId e he
    have hfinished := hinv.withAct (.finished e.found) trivial (fun found heq => by
      obtain rfl := Act.finished.inj heq
      refine ⟨by rw [hflag, he.found]; simp, fun id hid => ?_⟩
      exact (hout.place id hid).2)
    refine hfinished.setLoop i l _ (by rw [← hl, ← hloops]; rfl) (hrest.erase hflag hsessions) ?_
    intro d hd hlisted
    rw [hphase] at hd
    have hne := (hsessions _ _ hlisted).2
    rcases List.mem_cons.mp hd with rfl | hd
    · exact absurd rfl hne
    · exact mem_awaiting_erase hd hne

/-! ### The other steps -/

/-- The pass finds a session ended, which is in the table under the id of the snapshot or
nowhere. -/
theorem Inv.find {s : System} (h : Inv s) (i : ℕ) (l : Loop) (hl : s.loops[i]? = some l)
    (id : Int32) (arc : ℕ) (todo : List (Int32 × ℕ)) (ended : List Ended)
    (hphase : l.phase = .reading ((id, arc) :: todo) ended) (x y : TerminalSession)
    (hx : s.heap[arc]? = some x) (hflag : y.closedMessageSent = true)
    (hchild : y.child = x.child)
    (hplace : InPlace s id arc)
    (responses : List TerminalResponse) :
    Inv ((s.withHeap (s.heap.set arc y)).setLoop i
      ⟨l.isPersistent, .reading todo (ended ++ [⟨id, arc⟩]), responses⟩) := by
  have hall := h.phases l (List.mem_of_getElem? hl)
  rw [hphase] at hall
  generalize ht : s.withHeap (s.heap.set arc y) = t
  have hfound : t.flag arc = some true := by
    rw [← ht, System.flag, System.withHeap, List.getElem?_set_self
      (List.getElem?_eq_some_iff.mp hx).1,
      Option.map_some, hflag]
  have hother : ∀ b, b ≠ arc → t.flag b = s.flag b := by
    intro b hb
    rw [← ht]
    exact congrArg (Option.map _) (List.getElem?_set_ne hb.symm)
  have hkeep : ∀ b, s.flag b = some true → t.flag b = some true := by
    intro b hb
    by_cases heq : b = arc
    · rw [heq, hfound]
    · rw [hother b heq, hb]
  have hknown : ∀ b, s.flag b ≠ none → t.flag b ≠ none := by
    intro b hb
    by_cases heq : b = arc
    · rw [heq, hfound]
      simp
    · rwa [hother b heq]
  have hchildren : ∀ b, t.hasChild b = s.hasChild b := by
    rw [← ht]
    exact map_getElem?_set _ s.heap arc x y hx (congrArg Option.isSome hchild)
  have hsessions : t.sessions = s.sessions := by rw [← ht]; rfl
  have hloops : t.loops = s.loops := by rw [← ht]; rfl
  have hsame : ∀ j b, t.sessions.lookup j = some b → s.sessions.lookup j = some b := by
    intro j b hb
    rwa [← hsessions]
  have hnew : Sound t True ⟨id, arc⟩ := by
    refine ⟨hfound, fun j hj => ⟨?_, trivial⟩, fun _ b hb => ?_⟩
    · rcases hplace with hid | ⟨-, hnone⟩
      · exact h.apart j id arc (hsame j arc hj) hid
      · exact absurd rfl (hnone _ (AList.mem_lookup_iff.mp (hsame j arc hj)))
    · rcases hplace with hid | ⟨hnot, -⟩
      · exact Option.some.inj ((hsame id b hb).symm.trans hid)
      · have hb' := hsame id b hb
        rw [AList.lookup_eq_none.mpr hnot] at hb'
        cases hb'
  have hshrink : ∀ e (due : Prop), Sound s due e → Sound t due e :=
    fun e due he => he.shrink (hkeep e.found) hsame
  have hstay : ∀ (phase : Phase) (l' : Loop), phase.Sound t → phase.Sound (t.setLoop i l') :=
    fun phase l' hp => hp.mono (fun _ hb => hb)
      (fun e due _ he => he.shrink (fun hb => hb) (fun _ _ hb => hb))
  refine ⟨?_, ?_, ?_, ?_, ?_, ?_, ?_⟩
  · intro j k b hj hk
    exact h.apart j k b (hsame j b hj) (hsame k b hk)
  · intro j b hj
    exact hknown b (h.known j b (hsame j b hj))
  · intro m hm
    change m ∈ t.loops.set i _ at hm
    rw [hloops] at hm
    rcases List.mem_or_eq_of_mem_set hm with hold | rfl
    · exact hstay _ _ ((h.phases m hold).mono hknown (fun e due _ he => hshrink e due he))
    · refine hstay _ _ ⟨fun e he => hknown _ (hall.1 e (List.mem_cons_of_mem _ he)), ?_⟩
      intro e he
      rcases List.mem_append.mp he with hold | hlast
      · exact hshrink e True (hall.2 e hold)
      · exact List.mem_singleton.mp hlast ▸ hnew
  · intro b hb hnot
    have hne : b ≠ arc := by
      rintro rfl
      rw [show t.flag b = some false from hb] at hfound
      cases hfound
    have hold := h.runs b ((hother b hne).symm.trans hb) (by rw [← ht] at hnot; exact hnot)
    change (∃ j, t.sessions.lookup j = some b) ∧ t.hasChild b = some true
    rwa [hsessions, hchildren]
  · intro j b hj hb
    rw [mem_due]
    change ∃ m ∈ t.loops.set i _, _
    rw [hloops]
    by_cases heq : b = arc
    · subst heq
      refine ⟨_, List.mem_set (List.getElem?_eq_some_iff.mp hl).1 _, ?_⟩
      obtain rfl : j = id := (hnew.place j hj).1
      exact List.mem_append_right _ (List.mem_singleton_self _)
    · have hdue := h.awaited j b (hsame j b hj) ((hother b heq).symm.trans hb)
      obtain ⟨m, hm, he⟩ := (mem_due s _).mp hdue
      obtain ⟨k, hk⟩ := List.mem_iff_getElem?.mp hm
      by_cases hik : i = k
      · subst hik
        obtain rfl := Option.some.inj (hk.symm.trans hl)
        rw [hphase] at he
        exact ⟨_, List.mem_set (List.getElem?_eq_some_iff.mp hl).1 _, List.mem_append_left _ he⟩
      · exact ⟨m, List.mem_iff_getElem?.mpr ⟨k, (List.getElem?_set_ne hik).trans hk⟩, he⟩
  · rw [← ht]
    exact h.only
  · intro found hdone
    obtain ⟨hold, hnone⟩ := h.gone found (by rw [← ht] at hdone; exact hdone)
    exact ⟨hknown found hold, fun j hj => hnone j (hsame j found hj)⟩

theorem inv_readNext {compress : Bytes → Bytes} {s t : System} (h : Inv s) (i : ℕ) (l : Loop)
    (hl : s.loops[i]? = some l) (busy : Bool) (io : PassIo)
    (hguard : Guarded s (.readNext i busy io))
    (hstep : readNext compress s i l busy io = some t) : Inv t := by
  unfold readNext at hstep
  split at hstep
  case h_2 => cases hstep
  case h_1 id arc todo ended hphase =>
    have hall := h.phases l (List.mem_of_getElem? hl)
    rw [hphase] at hall
    split at hstep
    case isTrue =>
      obtain rfl := Option.some.inj hstep
      refine h.setLoop i l _ hl ⟨fun e he => hall.1 e (List.mem_cons_of_mem _ he), hall.2⟩ ?_
      intro e he _
      rwa [hphase] at he
    case isFalse hfree =>
      cases hx : s.heap[arc]? with
      | none => simp [hx] at hstep
      | some x =>
        simp only [hx, Option.some.injEq] at hstep
        generalize hread : x.readOutput compress id io = result at hstep
        obtain ⟨y, hasEnded, responses⟩ := result
        obtain ⟨hchild, hflag, honce⟩ := x.readOutput_found compress id io y hasEnded
          responses hread
        subst hstep
        cases hasEnded with
        | false =>
          rw [Bool.or_false] at hflag
          have hsteady : Inv (s.withHeap (s.heap.set arc y)) :=
            h.steady rfl rfl rfl rfl (map_getElem?_set _ s.heap arc x y hx hflag)
              (map_getElem?_set _ s.heap arc x y hx (congrArg Option.isSome hchild))
          refine hsteady.setLoop i l _ hl ?_ ?_
          · have hsound := hsteady.phases l (List.mem_of_getElem? hl)
            rw [hphase] at hsound
            exact ⟨fun e he => hsound.1 e (List.mem_cons_of_mem _ he), hsound.2⟩
          · intro e he _
            rwa [hphase] at he
        | true =>
          rw [Bool.or_true] at hflag
          obtain ⟨hunfound, hended⟩ := honce rfl
          have hplace := hguard l hl (id, arc) (by rw [hphase]; rfl) x hx (by simpa using hfree)
            hunfound hended
          exact h.find i l hl id arc todo ended hphase x y hx hflag hchild hplace _

theorem inv_copySessions {s t : System} (h : Inv s) (i : ℕ) (l : Loop) (hl : s.loops[i]? = some l)
    (hstep : copySessions s i l = some t) : Inv t := by
  have hall := h.phases l (List.mem_of_getElem? hl)
  unfold copySessions at hstep
  split at hstep
  case h_1 hphase =>
    obtain rfl := Option.some.inj hstep
    refine h.setLoop i l _ hl trivial (fun e he _ => ?_)
    rw [hphase] at he
    cases he
  case h_2 ended _ hphase =>
    obtain rfl := Option.some.inj hstep
    rw [hphase] at hall
    refine h.setLoop i l _ hl ?_ ?_
    · intro e he
      obtain ⟨hfound, hplace, halone⟩ := hall.2 e he
      refine ⟨⟨hfound, fun id hid => ?_, fun _ => halone trivial⟩, halone trivial⟩
      obtain rfl := (hplace id hid).1
      exact ⟨rfl, by simp [hid]⟩
    · intro e he hid
      rw [hphase] at he
      exact (mem_awaiting s.sessions ended e).mpr ⟨he, by simp [hid]⟩
  case h_3 => cases hstep

theorem Inv.close {s : System} (h : Inv s) (id : Int32) (arc : ℕ)
    (hid : s.sessions.lookup id = some arc) : Inv (s.closed id arc) := by
  have hflag : ∀ b, (s.closed id arc).flag b = s.flag b :=
    map_getElem?_modify TerminalSession.closedMessageSent TerminalSession.takeChild (fun _ => rfl)
      s.heap arc
  have hchild : ∀ b, b ≠ arc → (s.closed id arc).hasChild b = s.hasChild b := by
    intro b hb
    refine congrArg (Option.map _) ?_
    exact (List.getElem?_modify _ _ _ _).trans (by simp [hb.symm])
  have hsessions : ∀ j b, (s.closed id arc).sessions.lookup j = some b →
      s.sessions.lookup j = some b ∧ j ≠ id := by
    intro j b hj
    change (s.sessions.erase id).lookup j = some b at hj
    by_cases heq : j = id
    · rw [heq, AList.lookup_erase] at hj
      cases hj
    · rw [AList.lookup_erase_ne heq] at hj
      exact ⟨hj, heq⟩
  refine ⟨?_, ?_, ?_, ?_, ?_, h.only, ?_⟩
  · intro j k b hj hk
    exact h.apart j k b (hsessions j b hj).1 (hsessions k b hk).1
  · intro j b hj
    rw [hflag]
    exact h.known j b (hsessions j b hj).1
  · intro l hl
    refine (h.phases l hl).mono (fun b hb => by rwa [hflag]) (fun e due _ he => ?_)
    exact he.shrink (fun hb => by rwa [hflag]) (fun j b hj => (hsessions j b hj).1)
  · intro b hb hnot
    rw [hflag] at hb
    have hne : b ≠ arc := by
      rintro rfl
      exact hnot (List.mem_append_right _ (List.mem_singleton_self _))
    obtain ⟨⟨j, hj⟩, hrunning⟩ := h.runs b hb (fun hmem => hnot (List.mem_append_left _ hmem))
    refine ⟨⟨j, ?_⟩, (hchild b hne).trans hrunning⟩
    have hjne : j ≠ id := by
      rintro rfl
      exact hne (Option.some.inj (hj.symm.trans hid))
    exact (AList.lookup_erase_ne hjne).trans hj
  · intro j b hj hb
    rw [hflag] at hb
    exact h.awaited j b (hsessions j b hj).1 hb
  · intro found hfound
    rw [hflag]
    obtain ⟨hold, hnone⟩ := h.gone found hfound
    exact ⟨hold, fun j hj => hnone j (hsessions j _ hj).1⟩

theorem Free.ne {s : System} {id : Int32} (h : Free s id) (e : Ended) (he : e ∈ s.due) :
    e.id ≠ id := by
  rintro rfl
  exact h (List.mem_map_of_mem he)

/-- A session moves from one id to another, and no clean-up is due for either. -/
theorem Inv.remap {s : System} (h : Inv s) (id lowestId : Int32) (arc : ℕ) (hid : id ∉ s.sessions)
    (hlowest : s.sessions.lookup lowestId = some arc) (hfree : Free s id)
    (hfreeLowest : Free s lowestId) :
    Inv { s with sessions := (s.sessions.erase lowestId).insert id arc } := by
  have hnone : s.sessions.lookup id = none := AList.lookup_eq_none.mpr hid
  have hmoved : ((s.sessions.erase lowestId).insert id arc).lookup id = some arc :=
    AList.lookup_insert _
  have hold : ∀ j, j ≠ id → j ≠ lowestId →
      ((s.sessions.erase lowestId).insert id arc).lookup j = s.sessions.lookup j := by
    intro j hj hjl
    rw [AList.lookup_insert_ne hj, AList.lookup_erase_ne hjl]
  have hsessions : ∀ j b, ((s.sessions.erase lowestId).insert id arc).lookup j = some b →
      (j = id ∧ b = arc) ∨ s.sessions.lookup j = some b ∧ j ≠ id ∧ j ≠ lowestId := by
    intro j b hj
    by_cases heq : j = id
    · rw [heq, hmoved] at hj
      exact Or.inl ⟨heq, (Option.some.inj hj).symm⟩
    · by_cases hjl : j = lowestId
      · rw [hjl, AList.lookup_insert_ne (hjl ▸ heq), AList.lookup_erase] at hj
        cases hj
      · rw [hold j heq hjl] at hj
        exact Or.inr ⟨hj, heq, hjl⟩
  refine ⟨?_, ?_, ?_, ?_, ?_, h.only, ?_⟩
  · intro j k b hj hk
    rcases hsessions j b hj with ⟨rfl, rfl⟩ | ⟨hjold, -, hjl⟩
    · rcases hsessions k b hk with ⟨rfl, -⟩ | ⟨hkold, -, hkl⟩
      · rfl
      · exact absurd (h.apart k lowestId b hkold hlowest) hkl
    · rcases hsessions k b hk with ⟨rfl, rfl⟩ | ⟨hkold, -, hkl⟩
      · exact absurd (h.apart j lowestId b hjold hlowest) hjl
      · exact h.apart j k b hjold hkold
  · intro j b hj
    rcases hsessions j b hj with ⟨-, rfl⟩ | ⟨hj, -, -⟩
    · exact h.known lowestId b hlowest
    · exact h.known j b hj
  · intro l hl
    refine (h.phases l hl).mono (fun _ hb => hb) (fun e due hdue he => ?_)
    have hin : due → e ∈ s.due := fun hd => (mem_due s e).mpr ⟨l, hl, hdue hd⟩
    refine ⟨he.found, fun j hj => ?_, fun hd b hb => ?_⟩
    · rcases hsessions j _ hj with ⟨-, harc⟩ | ⟨hj, -, -⟩
      · obtain ⟨heq, hd⟩ := he.place lowestId (harc ▸ hlowest)
        exact absurd heq.symm (hfreeLowest.ne e (hin hd))
      · exact he.place j hj
    · rcases hsessions e.id b hb with ⟨heq, -⟩ | ⟨hb, -, -⟩
      · exact absurd heq (hfree.ne e (hin hd))
      · exact he.alone hd b hb
  · intro b hb hnot
    obtain ⟨⟨j, hj⟩, hrunning⟩ := h.runs b hb hnot
    refine ⟨?_, hrunning⟩
    by_cases hjl : j = lowestId
    · subst hjl
      obtain rfl := Option.some.inj (hj.symm.trans hlowest)
      exact ⟨id, hmoved⟩
    · have hne : j ≠ id := by
        rintro rfl
        rw [hnone] at hj
        cases hj
      exact ⟨j, (hold j hne hjl).trans hj⟩
  · intro j b hj hb
    rcases hsessions j b hj with ⟨-, rfl⟩ | ⟨hj, -, -⟩
    · exact absurd rfl (hfreeLowest.ne _ (h.awaited lowestId b hlowest hb))
    · exact h.awaited j b hj hb
  · intro found hfound
    obtain ⟨hknown, hgone⟩ := h.gone found hfound
    refine ⟨hknown, fun j hj => ?_⟩
    rcases hsessions j found hj with ⟨-, rfl⟩ | ⟨hj, -, -⟩
    · exact hgone lowestId hlowest
    · exact hgone j hj

/-- A new session gets an id that is not in the table and that no clean-up is due for. -/
theorem Inv.create {s : System} (h : Inv s) (id : Int32) (x : TerminalSession)
    (hx : x.closedMessageSent = false) (hchild : x.child.isSome = true) (hid : id ∉ s.sessions)
    (hfree : Free s id) : Inv (s.opened (s.sessions.insert id s.heap.length) (s.heap ++ [x])) := by
  generalize ht : s.opened (s.sessions.insert id s.heap.length) (s.heap ++ [x]) = t
  have hnone : s.sessions.lookup id = none := AList.lookup_eq_none.mpr hid
  have hfresh : s.flag s.heap.length = none := by simp [System.flag]
  have hflagNew : t.flag s.heap.length = some false := by
    rw [← ht]
    simp [System.flag, System.opened, hx]
  have hget : ∀ b, b ≠ s.heap.length → (s.heap ++ [x])[b]? = s.heap[b]? := by
    intro b hb
    rcases Nat.lt_or_gt_of_ne hb with hlt | hgt
    · exact List.getElem?_append_left hlt
    · rw [List.getElem?_eq_none (by simp; omega), List.getElem?_eq_none (by omega)]
  have hflag : ∀ b, b ≠ s.heap.length → t.flag b = s.flag b := by
    intro b hb
    rw [← ht]
    exact congrArg (Option.map _) (hget b hb)
  have hkeep : ∀ b, s.flag b ≠ none → t.flag b = s.flag b := by
    intro b hb
    refine hflag b ?_
    rintro rfl
    exact hb hfresh
  have hadded : t.sessions.lookup id = some s.heap.length := by
    rw [← ht]
    exact AList.lookup_insert _
  have hold : ∀ j, j ≠ id → t.sessions.lookup j = s.sessions.lookup j := by
    intro j hj
    rw [← ht]
    exact AList.lookup_insert_ne hj
  have hsessions : ∀ j b, t.sessions.lookup j = some b →
      (j = id ∧ b = s.heap.length) ∨ s.sessions.lookup j = some b ∧ j ≠ id := by
    intro j b hj
    by_cases heq : j = id
    · rw [heq, hadded] at hj
      exact Or.inl ⟨heq, (Option.some.inj hj).symm⟩
    · rw [hold j heq] at hj
      exact Or.inr ⟨hj, heq⟩
  have hstrange : ∀ j, s.sessions.lookup j ≠ some s.heap.length :=
    fun j hj => h.known j _ hj hfresh
  refine ⟨?_, ?_, ?_, ?_, ?_, by rw [← ht]; exact h.only, ?_⟩
  · intro j k b hj hk
    rcases hsessions j b hj with ⟨rfl, rfl⟩ | ⟨hjold, -⟩
    · rcases hsessions k _ hk with ⟨rfl, -⟩ | ⟨hkold, -⟩
      · rfl
      · exact absurd hkold (hstrange k)
    · rcases hsessions k b hk with ⟨rfl, rfl⟩ | ⟨hkold, -⟩
      · exact absurd hjold (hstrange j)
      · exact h.apart j k b hjold hkold
  · intro j b hj
    rcases hsessions j b hj with ⟨-, rfl⟩ | ⟨hj, -⟩
    · rw [hflagNew]
      simp
    · rw [hkeep b (h.known j b hj)]
      exact h.known j b hj
  · intro l hl
    replace hl : l ∈ s.loops := by rw [← ht] at hl; exact hl
    refine (h.phases l hl).mono (fun b hb => by rwa [hkeep b hb]) (fun e due hdue he => ?_)
    have hknown : s.flag e.found ≠ none := by rw [he.found]; simp
    refine ⟨(hkeep _ hknown).trans he.found, fun j hj => ?_, fun hd b hb => ?_⟩
    · rcases hsessions j _ hj with ⟨-, harc⟩ | ⟨hj, -⟩
      · exact absurd (harc ▸ hfresh) hknown
      · exact he.place j hj
    · rcases hsessions e.id b hb with ⟨heq, -⟩ | ⟨hb, -⟩
      · exact absurd heq (hfree.ne e ((mem_due s e).mpr ⟨l, hl, hdue hd⟩))
      · exact he.alone hd b hb
  · intro b hb hnot
    by_cases heq : b = s.heap.length
    · subst heq
      refine ⟨⟨id, hadded⟩, ?_⟩
      rw [← ht]
      simp [System.hasChild, System.opened, hchild]
    · rw [hflag b heq] at hb
      obtain ⟨⟨j, hj⟩, hrunning⟩ := h.runs b hb (by rw [← ht] at hnot; exact hnot)
      have hne : j ≠ id := by
        rintro rfl
        rw [hnone] at hj
        cases hj
      refine ⟨⟨j, (hold j hne).trans hj⟩, ?_⟩
      rw [← hrunning, ← ht]
      exact congrArg (Option.map _) (hget b heq)
  · intro j b hj hb
    rcases hsessions j b hj with ⟨-, rfl⟩ | ⟨hj, -⟩
    · rw [hflagNew] at hb
      cases hb
    · rw [hkeep b (h.known j b hj)] at hb
      have hdue := h.awaited j b hj hb
      rw [mem_due] at hdue ⊢
      rw [← ht]
      exact hdue
  · intro found hfound
    obtain ⟨hknown, hgone⟩ := h.gone found (by rw [← ht] at hfound; exact hfound)
    refine ⟨by rwa [hkeep found hknown], fun j hj => ?_⟩
    rcases hsessions j found hj with ⟨-, rfl⟩ | ⟨hj, -⟩
    · exact hknown hfresh
    · exact hgone j hj

theorem remap_cases {s : System} (h : Inv s) (id : Int32)
    (hfree : ∀ lowestId ∈ s.remapFrom id, Free s id ∧ Free s lowestId) :
    s.remap id = s.sessions ∨
      ∃ arc, (s.remap id).lookup id = some arc ∧ Inv { s with sessions := s.remap id } := by
  unfold System.remap
  cases hfrom : s.remapFrom id with
  | none => exact Or.inl rfl
  | some lowestId =>
    have hid : id ∉ s.sessions := by
      unfold System.remapFrom at hfrom
      split at hfrom
      case isTrue hcond => exact hcond.1
      case isFalse => cases hfrom
    obtain ⟨hnew, hlowest⟩ := hfree lowestId hfrom
    simp only
    cases harc : s.sessions.lookup lowestId with
    | none => exact Or.inl rfl
    | some arc =>
      exact Or.inr ⟨arc, AList.lookup_insert _, h.remap id lowestId arc hid harc hnew hlowest⟩

theorem Inv.reconnect {s : System} (h : Inv s) (arc : ℕ) (x : TerminalSession)
    (arriving : List Bytes) (hx : s.heap[arc]? = some x) :
    Inv (s.opened s.sessions (s.heap.set arc (x.reconnect arriving).1)) :=
  h.steady rfl rfl rfl rfl (map_getElem?_set _ s.heap arc x _ hx rfl)
    (map_getElem?_set _ s.heap arc x _ hx rfl)

theorem inv_handleOpen {s : System} (h : Inv s) (o : OpenTerminal) (arriving : List Bytes)
    (spawned : Option UInt32) (hguard : Guarded s (.openTerminal o arriving spawned)) :
    Inv (handleOpen s o arriving spawned).1 := by
  have hfree : ∀ lowestId ∈ s.remapFrom o.terminalId, Free s o.terminalId ∧ Free s lowestId := by
    intro lowestId hlowest
    rcases hguard with hin | ⟨hnone, -⟩ | ⟨hnew, hold⟩
    · simp [System.remapFrom, hin] at hlowest
    · rw [hnone] at hlowest
      cases hlowest
    · exact ⟨hnew, hold lowestId hlowest⟩
  unfold handleOpen
  rcases remap_cases h o.terminalId hfree with hremap | ⟨arc, hlookup, hinv⟩
  · rw [hremap]
    simp only
    cases hid : s.sessions.lookup o.terminalId with
    | some arc =>
      cases hx : s.heap[arc]? with
      | none => simpa only [hx] using h
      | some x => simpa only [hx] using h.reconnect arc x arriving hx
    | none =>
      cases spawned with
      | none => exact h
      | some pid =>
        have hnot : o.terminalId ∉ s.sessions := AList.lookup_eq_none.mp hid
        rcases hguard with hin | ⟨-, hspawned⟩ | ⟨hnew, -⟩
        · exact absurd hin hnot
        · cases hspawned
        · exact h.create o.terminalId _ rfl rfl hnot hnew
  · simp only [hlookup]
    cases hx : s.heap[arc]? with
    | none => exact h
    | some x => exact hinv.reconnect arc x arriving hx

/-- What happens to a session outside of the calls changes nothing the invariant looks at. -/
theorem Inv.modify {s : System} (h : Inv s) (arc : ℕ) (g : TerminalSession → TerminalSession)
    (hflag : ∀ x, (g x).closedMessageSent = x.closedMessageSent)
    (hchild : ∀ x, (g x).child.isSome = x.child.isSome) :
    Inv (s.withHeap (s.heap.modify arc g)) :=
  h.steady rfl rfl rfl rfl (map_getElem?_modify _ g hflag s.heap arc)
    (map_getElem?_modify _ g hchild s.heap arc)

theorem inv_step (compress : Bytes → Bytes) (s : System) (event : Event) (t : System)
    (hguard : Guarded s event) (h : Inv s) (hstep : step compress s event = some t) : Inv t := by
  cases event with
  | openTerminal o arriving spawned =>
    obtain rfl := Option.some.inj hstep
    exact inv_handleOpen h o arriving spawned hguard
  | closeTerminal terminalId killFails =>
    obtain rfl := Option.some.inj hstep
    unfold handleClose
    cases hid : s.sessions.lookup terminalId with
    | none => exact h
    | some arc => exact h.close terminalId arc hid
  | resetStatus isPersistent =>
    obtain rfl := Option.some.inj hstep
    refine h.steady rfl rfl rfl rfl ?_ ?_
    · intro arc
      simp only [System.flag, resetStatus, List.getElem?_map, Option.map_map]
      rfl
    · intro arc
      simp only [System.hasChild, resetStatus, List.getElem?_map, Option.map_map]
      rfl
  | setPersistent isPersistent =>
    obtain rfl := Option.some.inj hstep
    exact h.steady rfl rfl rfl rfl (fun _ => rfl) (fun _ => rfl)
  | output arc data =>
    obtain rfl := Option.some.inj hstep
    exact h.modify arc _ (fun _ => rfl) (fun _ => rfl)
  | childExits arc code =>
    obtain rfl := Option.some.inj hstep
    exact h.modify arc _ (fun _ => rfl) (fun _ => Option.isSome_map)
  | readerFinishes arc =>
    obtain rfl := Option.some.inj hstep
    exact h.modify arc _ (fun _ => rfl) (fun _ => rfl)
  | newLoop =>
    obtain rfl := Option.some.inj hstep
    refine ⟨h.apart, h.known, ?_, h.runs, ?_, h.only, h.gone⟩
    · intro l hl
      have hsound : l.phase.Sound s := by
        rcases List.mem_append.mp hl with hold | hnew
        · exact h.phases l hold
        · rw [List.mem_singleton.mp hnew]
          trivial
      exact hsound.mono (fun _ hb => hb) (fun e due _ he => he.shrink (fun hb => hb)
        (fun _ _ hb => hb))
    · intro id arc hid harc
      obtain ⟨l, hl, he⟩ := (mem_due s _).mp (h.awaited id arc hid harc)
      exact (mem_due _ _).mpr ⟨l, List.mem_append_left _ hl, he⟩
  | newProxy i =>
    obtain ⟨l, hl, hrest⟩ := Option.bind_eq_some_iff.mp hstep
    split at hrest
    case isTrue hphase =>
      obtain rfl := Option.some.inj hrest
      refine h.setLoop i l _ hl trivial (fun e he _ => ?_)
      rw [hphase] at he
      cases he
    case isFalse => cases hrest
  | snapshot i order =>
    obtain ⟨l, hl, hrest⟩ := Option.bind_eq_some_iff.mp hstep
    split at hrest
    case isTrue hcond =>
      obtain ⟨hphase, hperm⟩ := hcond
      obtain rfl := Option.some.inj hrest
      refine h.setLoop i l _ hl ⟨?_, fun e he => by cases he⟩ (fun e he _ => ?_)
      · intro e he
        obtain ⟨entry, hentry, rfl⟩ := List.mem_map.mp (hperm.mem_iff.mp he)
        exact h.known entry.1 entry.2 (AList.mem_lookup_iff.mpr hentry)
      · rw [hphase] at he
        cases he
    case isFalse => cases hrest
  | readNext i busy io =>
    obtain ⟨l, hl, hrest⟩ := Option.bind_eq_some_iff.mp hstep
    exact inv_readNext h i l hl busy io hguard hrest
  | copySessions i =>
    obtain ⟨l, hl, hrest⟩ := Option.bind_eq_some_iff.mp hstep
    exact inv_copySessions h i l hl hrest
  | cleanNext i waitFails =>
    obtain ⟨l, hl, hrest⟩ := Option.bind_eq_some_iff.mp hstep
    exact inv_cleanNext h i l hl waitFails hrest

/-- In a run whose opens, and whose sessions found ended, keep to the ids that a clean-up is due
for, the clean-up takes away those sessions, all of them, and no others. -/
theorem sessions_end_one_by_one (compress : Bytes → Bytes) (serviceId : Str) (isPersistent : Bool)
    (events : List Event) (s : System)
    (hmeets : Runs.Meets Guarded (step compress) (start serviceId isPersistent) events)
    (hexec : Runs.exec (step compress) (start serviceId isPersistent) events = some s) :
    Orderly s := by
  have hstart : Inv (start serviceId isPersistent) := by
    refine ⟨?_, ?_, ?_, ?_, ?_, ?_, ?_⟩
    · intro i j arc hi
      cases hi
    · intro id arc hid
      cases hid
    · intro l hl
      cases hl
    · intro arc harc
      simp [System.flag, start] at harc
    · intro id arc hid
      cases hid
    · intro act hact
      cases hact
    · intro found hfound
      cases hfound
  exact (Runs.invariant_of_meets Guarded (step compress) Inv (inv_step compress)
    (start serviceId isPersistent) s events hstart hmeets hexec).orderly

/-! ### The persistence, and a table without sessions -/

def Keeps (s t : System) : Prop :=
  t.isPersistent = s.isPersistent ∧ (s.sessions.keys = [] → t.sessions.keys = [])

theorem Keeps.refl : Keeps s s := ⟨rfl, fun h => h⟩

theorem keys_erase_nil (table : Table) (id : Int32) (h : table.keys = []) :
    (table.erase id).keys = [] := by
  rw [AList.keys_erase, h]
  rfl

theorem keeps_removeId : Keeps s (s.removeId e) := by
  unfold System.removeId
  split
  · exact Keeps.refl s
  · exact ⟨rfl, keys_erase_nil s.sessions e.id⟩

theorem keeps_take (arc : ℕ) : Keeps s (s.take e arc) := by
  unfold System.take
  split
  · exact Keeps.refl s
  · simp only
    split
    · exact ⟨rfl, fun h => h⟩
    · exact ⟨rfl, fun h => h⟩

theorem keeps_cleanNext (t : System) (i : ℕ) (l : Loop) (waitFails : Bool)
    (hstep : cleanNext s i l waitFails = some t) : Keeps s t := by
  unfold cleanNext at hstep
  split at hstep
  case h_1 =>
    obtain rfl := Option.some.inj hstep
    exact Keeps.refl s
  case h_2 copy e ended _ =>
    split at hstep
    case h_1 =>
      obtain rfl := Option.some.inj hstep
      exact Keeps.refl s
    case h_2 arc _ =>
      split at hstep
      case isTrue =>
        simp only at hstep
        split at hstep
        · obtain rfl := Option.some.inj hstep
          exact keeps_take s e arc
        · obtain rfl := Option.some.inj hstep
          exact keeps_take s e arc
      case isFalse =>
        obtain rfl := Option.some.inj hstep
        exact keeps_removeId s e
  case h_3 e arc copy ended _ =>
    obtain rfl := Option.some.inj hstep
    exact keeps_take s e arc
  case h_4 e exitCode copy ended _ =>
    obtain rfl := Option.some.inj hstep
    exact keeps_removeId s e
  case h_5 => cases hstep

/-- An open leaves the persistence, and one that starts nothing an empty table. -/
theorem keeps_handleOpen (o : OpenTerminal) (arriving : List Bytes) (spawned : Option UInt32) :
    (handleOpen s o arriving spawned).1.isPersistent = s.isPersistent ∧
      (spawned = none → s.sessions.keys = [] → handleOpen s o arriving spawned = (s, none)) := by
  refine ⟨?_, fun hspawned hnone => ?_⟩
  · unfold handleOpen
    simp only
    split
    · split <;> rfl
    · split <;> rfl
  · have hremap : s.remap o.terminalId = s.sessions := by
      simp [System.remap, System.remapFrom, hnone]
    have hlookup : s.sessions.lookup o.terminalId = none := by
      rw [AList.lookup_eq_none, AList.mem_keys, hnone]
      exact List.not_mem_nil
    unfold handleOpen
    simp only [hremap, hlookup, hspawned]

theorem keeps_step (compress : Bytes → Bytes) (s t : System) (event : Event)
    (hreset : ∀ p, event ≠ .resetStatus p) (hset : ∀ p, event ≠ .setPersistent p)
    (hstep : step compress s event = some t) :
    t.isPersistent = s.isPersistent ∧
      ((∀ o arriving spawned, event = .openTerminal o arriving spawned → spawned = none) →
        s.sessions.keys = [] → t.sessions.keys = []) := by
  cases event with
  | openTerminal o arriving spawned =>
    obtain rfl := Option.some.inj hstep
    obtain ⟨hpersistent, hnone⟩ := keeps_handleOpen s o arriving spawned
    refine ⟨hpersistent, fun hspawned hempty => ?_⟩
    rw [hnone (hspawned o arriving spawned rfl) hempty]
    exact hempty
  | closeTerminal terminalId killFails =>
    obtain rfl := Option.some.inj hstep
    unfold handleClose
    split
    · exact ⟨rfl, fun _ h => h⟩
    · exact ⟨rfl, fun _ h => keys_erase_nil s.sessions terminalId h⟩
  | resetStatus p => exact absurd rfl (hreset p)
  | setPersistent p => exact absurd rfl (hset p)
  | output arc data =>
    obtain rfl := Option.some.inj hstep
    exact ⟨rfl, fun _ h => h⟩
  | childExits arc code =>
    obtain rfl := Option.some.inj hstep
    exact ⟨rfl, fun _ h => h⟩
  | readerFinishes arc =>
    obtain rfl := Option.some.inj hstep
    exact ⟨rfl, fun _ h => h⟩
  | newLoop =>
    obtain rfl := Option.some.inj hstep
    exact ⟨rfl, fun _ h => h⟩
  | newProxy i =>
    obtain ⟨l, -, hrest⟩ := Option.bind_eq_some_iff.mp hstep
    obtain ⟨-, rfl⟩ := of_guard hrest
    exact ⟨rfl, fun _ h => h⟩
  | snapshot i order =>
    obtain ⟨l, -, hrest⟩ := Option.bind_eq_some_iff.mp hstep
    obtain ⟨-, rfl⟩ := of_guard hrest
    exact ⟨rfl, fun _ h => h⟩
  | readNext i busy io =>
    obtain ⟨l, -, hrest⟩ := Option.bind_eq_some_iff.mp hstep
    unfold readNext at hrest
    split at hrest
    case h_1 =>
      split at hrest
      · obtain rfl := Option.some.inj hrest
        exact ⟨rfl, fun _ h => h⟩
      · split at hrest
        · cases hrest
        · obtain rfl := Option.some.inj hrest
          exact ⟨rfl, fun _ h => h⟩
    case h_2 => cases hrest
  | copySessions i =>
    obtain ⟨l, -, hrest⟩ := Option.bind_eq_some_iff.mp hstep
    unfold copySessions at hrest
    split at hrest
    · obtain rfl := Option.some.inj hrest
      exact ⟨rfl, fun _ h => h⟩
    · obtain rfl := Option.some.inj hrest
      exact ⟨rfl, fun _ h => h⟩
    · cases hrest
  | cleanNext i waitFails =>
    obtain ⟨l, -, hrest⟩ := Option.bind_eq_some_iff.mp hstep
    obtain ⟨hpersistent, hempty⟩ := keeps_cleanNext s t i l waitFails hrest
    exact ⟨hpersistent, fun _ => hempty⟩

def sampleIo : PassIo := ⟨false, true, []⟩

/-- Of two terminals one ends, is cleaned up, and its id is used again. -/
def sampleRun : List Event :=
  [.newLoop, .openTerminal ⟨1, 24, 80⟩ [] (some 100), .openTerminal ⟨2, 24, 80⟩ [] (some 101),
    .childExits 0 3, .newProxy 0, .snapshot 0 [(1, 0), (2, 1)], .readNext 0 false sampleIo,
    .readNext 0 false sampleIo, .copySessions 0, .cleanNext 0 false, .cleanNext 0 false,
    .openTerminal ⟨1, 24, 80⟩ [] (some 102), .cleanNext 0 false]

theorem sessions_end_one_by_one_sample :
    ∃ s, Runs.exec (step id) (start ['t', 's'] true) sampleRun = some s ∧
      Table.pairs s.sessions = [(1, 2), (2, 1)] ∧
      s.acts = [.took 0 0, .removed 0 0, .finished 0] ∧
      s.loops.map Loop.responses = [[.closed 1 3]] ∧ Orderly s := by
  have hrun : (Runs.exec (step id) (start ['t', 's'] true) sampleRun).map (fun s =>
      (Table.pairs s.sessions, s.acts, s.loops.map Loop.responses)) =
        some ([(1, 2), (2, 1)], [.took 0 0, .removed 0 0, .finished 0], [[.closed 1 3]]) := by
    decide
  obtain ⟨s, hs, hresult⟩ := Option.map_eq_some_iff.mp hrun
  rw [Prod.mk.injEq, Prod.mk.injEq] at hresult
  obtain ⟨hsessions, hacts, hresponses⟩ := hresult
  exact ⟨s, hs, hsessions, hacts, hresponses,
    sessions_end_one_by_one id ['t', 's'] true sampleRun s (by decide) hs⟩

/-- The terminal found ended is closed, and another opened under its id, before the clean-up. -/
def reopenedRun : List Event :=
  [.newLoop, .openTerminal ⟨1, 24, 80⟩ [] (some 100), .childExits 0 0, .newProxy 0,
    .snapshot 0 [(1, 0)], .readNext 0 false sampleIo, .closeTerminal 1 false,
    .openTerminal ⟨1, 24, 80⟩ [] (some 101), .copySessions 0, .cleanNext 0 false,
      .cleanNext 0 false]

/-- The terminal found ended is moved to another id before the clean-up. -/
def remappedRun : List Event :=
  [.newLoop, .openTerminal ⟨2, 24, 80⟩ [] (some 100), .childExits 0 0, .newProxy 0,
    .snapshot 0 [(2, 0)], .readNext 0 false sampleIo, .resetStatus true,
    .openTerminal ⟨1, 24, 80⟩ [] none, .copySessions 0, .cleanNext 0 false]

/-- In the first run the new terminal is removed and its child taken; in the second the one
that has ended stays in the table after its clean-up. -/
theorem clean_up_by_id :
    (∃ s, Runs.exec (step id) (start ['t', 's'] false) reopenedRun = some s ∧
      s.acts = [.removed 0 1, .took 0 1, .finished 0] ∧ Table.pairs s.sessions = [] ∧
      ¬ Orderly s) ∧
    ∃ s, Runs.exec (step id) (start ['t', 's'] true) remappedRun = some s ∧
      s.acts = [.finished 0] ∧ Table.pairs s.sessions = [(1, 0)] ∧ ¬ Orderly s := by
  have hreopened : (Runs.exec (step id) (start ['t', 's'] false) reopenedRun).map (fun s =>
      (s.acts, Table.pairs s.sessions)) = some ([.removed 0 1, .took 0 1, .finished 0], []) := by
    decide
  have hremapped : (Runs.exec (step id) (start ['t', 's'] true) remappedRun).map (fun s =>
      (s.acts, Table.pairs s.sessions)) = some ([.finished 0], [(1, 0)]) := by
    decide
  refine ⟨?_, ?_⟩
  · obtain ⟨s, hs, hresult⟩ := Option.map_eq_some_iff.mp hreopened
    obtain ⟨hacts, hsessions⟩ := Prod.mk.inj hresult
    refine ⟨s, hs, hacts, hsessions, fun h => ?_⟩
    have honly := h.only (.removed 0 1) (by rw [hacts]; exact List.mem_cons_self)
    cases honly
  · obtain ⟨s, hs, hresult⟩ := Option.map_eq_some_iff.mp hremapped
    obtain ⟨hacts, hsessions⟩ := Prod.mk.inj hresult
    refine ⟨s, hs, hacts, hsessions, fun h => ?_⟩
    have hmem : (⟨1, 0⟩ : Sigma fun _ : Int32 => ℕ) ∈ s.sessions.entries := by
      have hpair : ((1, 0) : Int32 × ℕ) ∈ Table.pairs s.sessions := by simp [hsessions]
      obtain ⟨⟨id, arc⟩, hentry, heq⟩ := List.mem_map.mp hpair
      obtain ⟨rfl, rfl⟩ := Prod.mk.inj heq
      exact hentry
    exact h.gone 0 (by rw [hacts]; exact List.mem_cons_self) 1 (AList.mem_lookup_iff.mpr hmem)

end ClantoDesk.TerminalCleanup
