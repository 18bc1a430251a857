import ClantoDesk.Runs
import ClantoDesk.TerminalOutput
import ClantoDesk.Text

/-!
One terminal of the service in src/server/terminal_service.rs: its process, the bounded channel
that the reader thread fills, the output kept for a reconnect, and the state of the
streaming. A pass of the service loop and an open each hold the lock of the session, so that they
are steps. Chunks that the reader sends meanwhile come with the step. The responses of a pass are
what the loop sends, in this order. The size that the PTY is given is left out.
-/
namespace ClantoDesk.TerminalStream

open LittleEndian Text TerminalOutput

def CHANNEL_BUFFER_SIZE : ℕ := 500
def COMPRESS_THRESHOLD : ℕ := 512
def DEFAULT_RECONNECT_BUFFER_BYTES : ℕ := 8 * 1024
def MAX_SIGWINCH_PHASE_ATTEMPTS : UInt8 := 3

/-- Two resizes in two passes, so that a program in the terminal sees the size change. -/
inductive SigwinchPhase
  | idle
  | tempResize (retries : UInt8)
  | restore (retries : UInt8)

inductive SigwinchAction
  | tempResize
  | restore

inductive SessionState
  | closed
  | active (pendingBuffer : Option Bytes) (sigwinch : SigwinchPhase)

/-- The process, with its exit code once it has ended. -/
structure Child where
  exitCode : Option UInt32
  deriving DecidableEq

/-- What a session holds; `readerThread` says whether the thread is finished. -/
structure TerminalSession where
  ptyPair : Bool
  child : Option Child
  outputRx : Option (List Bytes)
  readerThread : Option Bool
  outputBuffer : OutputBuffer
  pid : UInt32
  rows : UInt16
  cols : UInt16
  closedMessageSent : Bool
  state : SessionState

structure TerminalOpened where
  terminalId : Int32
  success : Bool
  message : Str
  pid : UInt32
  serviceId : Str
  persistentSessions : List Int32
  replayTerminalOutput : Bool
  deriving DecidableEq

inductive TerminalResponse
  | data (terminalId : Int32) (data : Bytes) (compressed : Bool)
  | opened (opened : TerminalOpened)
  | closed (terminalId exitCode : Int32)
  | error (message : Str)
  deriving DecidableEq

/-- What a pass meets: whether the process cannot be asked, whether the PTY can be resized, and
the chunks that arrive while the channel is drained. -/
structure PassIo where
  waitFails : Bool
  resizes : Bool
  arriving : List Bytes
  deriving DecidableEq

def SigwinchPhase.next : SigwinchPhase → SigwinchPhase × Option SigwinchAction
  | .tempResize retries =>
    if retries = 0 then (.idle, none) else (.tempResize (retries - 1), some .tempResize)
  | .restore retries =>
    if retries = 0 then (.idle, none) else (.restore (retries - 1), some .restore)
  | .idle => (.idle, none)

def SigwinchPhase.resized (phase : SigwinchPhase) (resizeOk : Bool) : SigwinchAction → SigwinchPhase
  | .tempResize => if resizeOk then .restore MAX_SIGWINCH_PHASE_ATTEMPTS else phase
  | .restore => if resizeOk then .idle else phase

def newSession (rows cols : UInt16) (pid : UInt32) : TerminalSession :=
  ⟨true, some ⟨none⟩, some [], some false, .new, pid, rows, cols, false, .active none .idle⟩

section
variable (compress : Bytes → Bytes)

def createTerminalDataResponse (terminalId : Int32) (data : Bytes) : TerminalResponse :=
  if COMPRESS_THRESHOLD < data.length then
    if (compress data).length < data.length then .data terminalId (compress data) true
    else .data terminalId data false
  else .data terminalId data false

namespace TerminalSession

def doSigwinchResize (s : TerminalSession) (resizes : Bool) : Bool :=
  if s.rows = 0 ∨ s.cols = 0 then false else s.ptyPair && resizes

def hasEnded (s : TerminalSession) (waitFails : Bool) : Bool :=
  s.readerThread == some true || (!waitFails && (s.child.bind Child.exitCode).isSome)

def detectEnded (s : TerminalSession) (waitFails : Bool) : TerminalSession × Bool :=
  if !s.closedMessageSent && s.hasEnded waitFails then ({ s with closedMessageSent := true }, true)
  else (s, false)

def receivable (s : TerminalSession) (arriving : List Bytes) : List Bytes :=
  match s.outputRx with
  | none => []
  | some waiting => waiting ++ arriving

/-- The chunks are taken from the channel, where `left` stay, and are kept. -/
def buffered (s : TerminalSession) (received left : List Bytes) : TerminalSession :=
  { s with
    outputRx := s.outputRx.map fun _ => left
    outputBuffer := received.foldl .append s.outputBuffer }

def withState (s : TerminalSession) (state : SessionState) : TerminalSession :=
  { s with state := state }

/-- The pass of `read_outputs` over one session: whether it was found ended, and the responses. -/
def readOutput (terminalId : Int32) (io : PassIo) (s : TerminalSession) :
    TerminalSession × Bool × List TerminalResponse :=
  let (s, ended) := s.detectEnded io.waitFails
  let received := s.receivable io.arriving
  let s := s.buffered received []
  match s.state with
  | .closed => (s, ended, [])
  | .active pendingBuffer sigwinch =>
    let (phase, action) := sigwinch.next
    let phase := match action with
      | none => phase
      | some action => phase.resized (s.doSigwinchResize io.resizes) action
    let replay := pendingBuffer.filter fun buffer => buffer ≠ []
    (s.withState (.active none phase), ended,
      (replay.toList ++ received).map (createTerminalDataResponse compress terminalId))

def backlog (s : TerminalSession) (arriving : List Bytes) : List Bytes :=
  (s.receivable arriving).take CHANNEL_BUFFER_SIZE

/-- The part of `handle_open` for a terminal that exists, with the bytes to be replayed. -/
def reconnect (s : TerminalSession) (arriving : List Bytes) : TerminalSession × Bytes :=
  let left := ((s.receivable arriving).drop CHANNEL_BUFFER_SIZE).take CHANNEL_BUFFER_SIZE
  let s := s.buffered (s.backlog arriving) left
  let buffer := s.outputBuffer.getRecent DEFAULT_RECONNECT_BUFFER_BYTES
  let pending := if buffer = [] then none else some buffer
  (s.withState (.active pending (.tempResize MAX_SIGWINCH_PHASE_ATTEMPTS)), buffer)

/-- `try_send_output` of the reader thread: a chunk for which there is no room is dropped. -/
def trySendOutput (s : TerminalSession) (data : Bytes) : TerminalSession :=
  { s with outputRx := s.outputRx.map fun waiting =>
      if waiting.length < CHANNEL_BUFFER_SIZE then waiting ++ [data] else waiting }

def takeChild (s : TerminalSession) : TerminalSession := { s with child := none }

/-- `stop`: the threads are joined and the process is killed. -/
def stop (s : TerminalSession) : TerminalSession :=
  { s with
    state := .closed
    outputRx := none
    ptyPair := false
    readerThread := none
    child := none }

def exitCode (s : TerminalSession) (waitFails : Bool) : Int32 :=
  match s.child.bind Child.exitCode with
  | some code => if waitFails then 0 else code.toInt32
  | none => 0

end TerminalSession
end

/-! ### The stream of one terminal -/

/-- The time from an open, or from a reset, to the next of these: the bytes dequeued up to its
beginning, those dequeued since, and the data responses. -/
structure Period where
  isOpen : Bool
  before : Bytes
  since : Bytes
  responses : List TerminalResponse

/-- The terminal, all bytes dequeued from its channels, and the periods, latest first. Only the
first is the program's. -/
structure Stream where
  session : Option TerminalSession
  dequeued : Bytes
  periods : List Period

def start : Stream := ⟨none, [], []⟩

inductive Event
  | output (data : Bytes)
  | pass (terminalId : Int32) (io : PassIo)
  | resetStatus
  | openTerminal (rows cols : UInt16) (pid : UInt32) (arriving : List Bytes)

def Period.add (p : Period) (data : Bytes) (responses : List TerminalResponse) : Period :=
  { p with since := p.since ++ data, responses := p.responses ++ responses }

def step (compress : Bytes → Bytes) (t : Stream) : Event → Option Stream
  | .output data => t.session.map fun s => { t with session := some (s.trySendOutput data) }
  | .pass terminalId io => t.session.map fun s =>
    let (s', _, responses) := s.readOutput compress terminalId io
    let data := (s.receivable io.arriving).flatten
    ⟨some s', t.dequeued ++ data, t.periods.modifyHead fun p => p.add data responses⟩
  | .resetStatus =>
    some ⟨t.session.map fun s => s.withState .closed, t.dequeued,
      ⟨false, t.dequeued, [], []⟩ :: t.periods⟩
  | .openTerminal rows cols pid arriving =>
    match t.session with
    | none =>
      some ⟨some (newSession rows cols pid), t.dequeued, ⟨true, t.dequeued, [], []⟩ :: t.periods⟩
    | some s =>
      let dequeued := t.dequeued ++ (s.backlog arriving).flatten
      some ⟨some (s.reconnect arriving).1, dequeued, ⟨true, dequeued, [], []⟩ :: t.periods⟩

def TerminalResponse.payload (decompress : Bytes → Bytes) : TerminalResponse → Bytes
  | .data _ bytes compressed => if compressed then decompress bytes else bytes
  | _ => []

/-- The stream of an open: an end of what was dequeued up to it, then all that was dequeued
after it. After a reset there is none. -/
def Period.Continuous (decompress : Bytes → Bytes) (p : Period) : Prop :=
  if p.isOpen then
    ∃ replay, replay <:+ p.before ∧ replay.length ≤ DEFAULT_RECONNECT_BUFFER_BYTES ∧
      p.responses.flatMap (TerminalResponse.payload decompress) = replay ++ p.since
  else p.responses = []

section
variable (compress decompress : Bytes → Bytes)
  (hcompress : ∀ data, decompress (compress data) = data)
include hcompress

theorem payload_create (terminalId : Int32) (data : Bytes) :
    (createTerminalDataResponse compress terminalId data).payload decompress = data := by
  unfold createTerminalDataResponse
  split
  · split
    · exact hcompress data
    · rfl
  · rfl

theorem payload_map_create (terminalId : Int32) (chunks : List Bytes) :
    (chunks.map (createTerminalDataResponse compress terminalId)).flatMap
      (TerminalResponse.payload decompress) = chunks.flatten := by
  rw [List.flatMap_map, ← List.flatMap_id']
  exact List.flatMap_congr fun data _ => payload_create compress decompress hcompress
    terminalId data

end

namespace TerminalSession

@[simp] theorem withState_state (s : TerminalSession) (state : SessionState) :
    (s.withState state).state = state := rfl

@[simp] theorem withState_outputBuffer (s : TerminalSession) (state : SessionState) :
    (s.withState state).outputBuffer = s.outputBuffer := rfl

@[simp] theorem trySendOutput_state (s : TerminalSession) (data : Bytes) :
    (s.trySendOutput data).state = s.state := rfl

@[simp] theorem trySendOutput_outputBuffer (s : TerminalSession) (data : Bytes) :
    (s.trySendOutput data).outputBuffer = s.outputBuffer := rfl

variable (s : TerminalSession)

/-- Finding a session ended changes the flag only. -/
theorem detectEnded_fst (waitFails : Bool) :
    (s.detectEnded waitFails).1 =
      { s with closedMessageSent := s.closedMessageSent || (s.detectEnded waitFails).2 } := by
  unfold detectEnded
  split
  case isTrue hend =>
    simp only [Bool.and_eq_true, Bool.not_eq_true'] at hend
    simp [hend.1]
  case isFalse => simp

theorem detectEnded_once (waitFails : Bool) (h : (s.detectEnded waitFails).2 = true) :
    s.closedMessageSent = false ∧ s.hasEnded waitFails = true := by
  unfold detectEnded at h
  split at h
  case isTrue hend => simpa only [Bool.and_eq_true, Bool.not_eq_true'] using hend
  case isFalse => cases h

@[simp] theorem detectEnded_state (s : TerminalSession) (waitFails : Bool) :
    (s.detectEnded waitFails).1.state = s.state := by
  rw [detectEnded_fst]

@[simp] theorem detectEnded_outputBuffer (s : TerminalSession) (waitFails : Bool) :
    (s.detectEnded waitFails).1.outputBuffer = s.outputBuffer := by
  rw [detectEnded_fst]

@[simp] theorem detectEnded_receivable (s : TerminalSession) (waitFails : Bool)
    (arriving : List Bytes) :
    (s.detectEnded waitFails).1.receivable arriving = s.receivable arriving := by
  rw [receivable, receivable, detectEnded_fst]

theorem readOutput_stream (compress : Bytes → Bytes) (terminalId : Int32) (io : PassIo)
    (s s' : TerminalSession) (ended : Bool) (responses : List TerminalResponse)
    (h : s.readOutput compress terminalId io = (s', ended, responses)) :
    s'.outputBuffer = (s.receivable io.arriving).foldl .append s.outputBuffer ∧
      (s.state = .closed → s'.state = .closed ∧ responses = []) ∧
      (∀ pendingBuffer sigwinch, s.state = .active pendingBuffer sigwinch →
        (∃ phase, s'.state = .active none phase) ∧
          responses = ((pendingBuffer.filter fun buffer => buffer ≠ []).toList ++
            s.receivable io.arriving).map (createTerminalDataResponse compress terminalId)) := by
  unfold readOutput at h
  simp only [buffered, detectEnded_state, detectEnded_outputBuffer, detectEnded_receivable] at h
  split at h
  case h_1 hclosed =>
    obtain ⟨rfl, hrest⟩ := Prod.mk.inj h
    obtain ⟨-, rfl⟩ := Prod.mk.inj hrest
    refine ⟨rfl, fun _ => ⟨?_, rfl⟩, ?_⟩
    · simpa using hclosed
    · intro pendingBuffer sigwinch hactive
      rw [hclosed] at hactive
      cases hactive
  case h_2 pending phase hactive =>
    obtain ⟨rfl, hrest⟩ := Prod.mk.inj h
    obtain ⟨-, rfl⟩ := Prod.mk.inj hrest
    refine ⟨rfl, ?_, ?_⟩
    · intro hclosed
      rw [hactive] at hclosed
      cases hclosed
    · intro pendingBuffer sigwinch hstate
      obtain ⟨rfl, rfl⟩ := SessionState.active.inj (hactive.symm.trans hstate)
      exact ⟨⟨_, rfl⟩, rfl⟩

theorem readOutput_found (compress : Bytes → Bytes) (terminalId : Int32) (io : PassIo)
    (s s' : TerminalSession) (ended : Bool) (responses : List TerminalResponse)
    (h : s.readOutput compress terminalId io = (s', ended, responses)) :
    s'.child = s.child ∧ s'.closedMessageSent = (s.closedMessageSent || ended) ∧
      (ended = true → s.closedMessageSent = false ∧ s.hasEnded io.waitFails = true) := by
  have hsession := s.detectEnded_fst io.waitFails
  have honce := s.detectEnded_once io.waitFails
  unfold readOutput at h
  simp only [buffered, withState] at h
  split at h
  case h_1 =>
    obtain ⟨rfl, hrest⟩ := Prod.mk.inj h
    obtain ⟨rfl, -⟩ := Prod.mk.inj hrest
    exact ⟨by rw [hsession], by rw [hsession], honce⟩
  case h_2 =>
    obtain ⟨rfl, hrest⟩ := Prod.mk.inj h
    obtain ⟨rfl, -⟩ := Prod.mk.inj hrest
    exact ⟨by rw [hsession], by rw [hsession], honce⟩

/-- A reconnect keeps what it takes, and its replay is an end of all that is kept then. -/
theorem reconnect_spec (arriving : List Bytes) :
    (s.reconnect arriving).1.outputBuffer =
        (s.backlog arriving).foldl .append s.outputBuffer ∧
      ∃ pending sigwinch, (s.reconnect arriving).1.state = .active pending sigwinch ∧
        ∀ buffer ∈ pending, buffer <:+ (s.reconnect arriving).1.outputBuffer.bytes ∧
          buffer.length ≤ DEFAULT_RECONNECT_BUFFER_BYTES := by
  refine ⟨rfl, _, _, rfl, ?_⟩
  intro buffer hbuffer
  obtain ⟨-, rfl⟩ := of_guard_not hbuffer
  exact OutputBuffer.getRecent_suffix _ _

end TerminalSession

/-- A period in which nothing has been sent or dequeued since its open is continuous, whatever
is replayed first. -/
theorem Period.continuous_nil (decompress : Bytes → Bytes) (isOpen : Bool) (before : Bytes) :
    (Period.mk isOpen before [] []).Continuous decompress := by
  cases isOpen with
  | false => rfl
  | true => exact ⟨[], List.nil_suffix, Nat.zero_le _, rfl⟩

def SessionState.Fits (p : Period) : SessionState → Prop
  | .closed => p.isOpen = false
  | .active pending _ => p.isOpen = true ∧ ∀ buffer ∈ pending, buffer <:+ p.before ∧
      buffer.length ≤ DEFAULT_RECONNECT_BUFFER_BYTES ∧ p.since = [] ∧ p.responses = []

/-- The buffer is an end of what was dequeued, every period is continuous, and the
session is in the state that the latest period began with. -/
structure Inv (decompress : Bytes → Bytes) (t : Stream) : Prop where
  kept : ∀ s ∈ t.session, s.outputBuffer.bytes <:+ t.dequeued
  periods : ∀ p ∈ t.periods, p.Continuous decompress
  latest : ∀ s ∈ t.session, ∃ p rest, t.periods = p :: rest ∧ s.state.Fits p

section
variable (compress decompress : Bytes → Bytes)
  (hcompress : ∀ data, decompress (compress data) = data)
include hcompress

theorem Period.continuous_add (terminalId : Int32) (p : Period) (pending : Option Bytes)
    (sigwinch : SigwinchPhase) (received : List Bytes) (hp : p.Continuous decompress)
    (hfits : (SessionState.active pending sigwinch).Fits p) :
    (p.add received.flatten (((pending.filter fun buffer => buffer ≠ []).toList ++ received).map
      (createTerminalDataResponse compress terminalId))).Continuous decompress := by
  obtain ⟨hopen, hpending⟩ := hfits
  unfold Period.Continuous Period.add
  rw [if_pos hopen]
  simp only [List.flatMap_append, payload_map_create compress decompress hcompress,
    List.flatten_append]
  cases pending with
  | none =>
    rw [Period.Continuous, if_pos hopen] at hp
    obtain ⟨replay, hsuffix, hlength, hsent⟩ := hp
    refine ⟨replay, hsuffix, hlength, ?_⟩
    rw [hsent]
    simp
  | some buffer =>
    -- the first pass after the open sends what is pending
    obtain ⟨hsuffix, hlength, hsince, hresponses⟩ := hpending buffer rfl
    refine ⟨buffer, hsuffix, hlength, ?_⟩
    rw [hsince, hresponses]
    by_cases hbuffer : buffer = []
    · simp [hbuffer]
    · simp [Option.filter, hbuffer]

theorem inv_pass (terminalId : Int32) (io : PassIo) (t : Stream) (s s' : TerminalSession)
    (ended : Bool) (responses : List TerminalResponse) (h : Inv decompress t)
    (hsession : t.session = some s)
    (hpass : s.readOutput compress terminalId io = (s', ended, responses)) :
    Inv decompress ⟨some s', t.dequeued ++ (s.receivable io.arriving).flatten,
      t.periods.modifyHead fun p => p.add (s.receivable io.arriving).flatten responses⟩ := by
  obtain ⟨hbuffer, hclosed, hactive⟩ := s.readOutput_stream compress terminalId io s' ended _ hpass
  obtain ⟨p, rest, hperiods, hfits⟩ := h.latest s hsession
  have hlatest : p.Continuous decompress := h.periods p (by rw [hperiods]; exact List.mem_cons_self)
  have hrest : ∀ q ∈ rest, q.Continuous decompress := fun q hq =>
    h.periods q (by rw [hperiods]; exact List.mem_cons_of_mem p hq)
  have hnext : (p.add (s.receivable io.arriving).flatten responses).Continuous decompress ∧
      s'.state.Fits (p.add (s.receivable io.arriving).flatten responses) := by
    cases hstate : s.state with
    | closed =>
      obtain ⟨hstate', rfl⟩ := hclosed hstate
      rw [hstate] at hfits
      rw [hstate']
      have hreset : p.isOpen = false := hfits
      refine ⟨?_, hfits⟩
      rw [Period.Continuous, hreset] at hlatest
      rw [Period.Continuous, Period.add, hreset]
      simpa using hlatest
    | active pending sigwinch =>
      obtain ⟨⟨phase, hstate'⟩, rfl⟩ := hactive pending sigwinch hstate
      rw [hstate] at hfits
      rw [hstate']
      refine ⟨?_, hfits.1, fun buffer hmem => by cases hmem⟩
      exact Period.continuous_add compress decompress hcompress terminalId p pending sigwinch _
        hlatest hfits
  refine ⟨?_, ?_, ?_⟩
  · rintro _ ⟨⟩
    rw [hbuffer]
    obtain ⟨dropped, hdropped⟩ := h.kept s hsession
    refine (OutputBuffer.bytes_foldl_append _ _).trans ?_
    rw [← hdropped, List.append_assoc]
    exact List.suffix_append dropped _
  · intro q hq
    simp only [hperiods, List.modifyHead_cons] at hq
    rcases List.mem_cons.mp hq with rfl | hq
    · exact hnext.1
    · exact hrest q hq
  · rintro _ ⟨⟩
    exact ⟨_, rest, by rw [hperiods, List.modifyHead_cons], hnext.2⟩

theorem inv_step (t t' : Stream) (event : Event) (h : Inv decompress t)
    (hstep : step compress t event = some t') : Inv decompress t' := by
  cases event with
  | output data =>
    obtain ⟨s, hsession, rfl⟩ := Option.map_eq_some_iff.mp hstep
    refine ⟨?_, h.periods, ?_⟩
    · rintro _ ⟨⟩
      exact h.kept s hsession
    · rintro _ ⟨⟩
      exact h.latest s hsession
  | pass terminalId io =>
    obtain ⟨s, hsession, rfl⟩ := Option.map_eq_some_iff.mp hstep
    exact inv_pass compress decompress hcompress terminalId io t s _ _ _ h hsession rfl
  | resetStatus =>
    obtain rfl := Option.some.inj hstep
    refine ⟨?_, ?_, ?_⟩
    · intro s' hs'
      obtain ⟨s, hs, rfl⟩ := Option.map_eq_some_iff.mp hs'
      exact h.kept s hs
    · exact List.forall_mem_cons.mpr ⟨Period.continuous_nil decompress false _, h.periods⟩
    · intro s' hs'
      obtain ⟨s, hs, rfl⟩ := Option.map_eq_some_iff.mp hs'
      exact ⟨_, _, rfl, rfl⟩
  | openTerminal rows cols pid arriving =>
    unfold step at hstep
    cases hsession : t.session with
    | none =>
      simp only [hsession, Option.some.injEq] at hstep
      subst hstep
      refine ⟨?_, ?_, ?_⟩
      · rintro _ ⟨⟩
        exact List.nil_suffix
      · exact List.forall_mem_cons.mpr ⟨Period.continuous_nil decompress true _, h.periods⟩
      · rintro _ ⟨⟩
        exact ⟨_, _, rfl, rfl, fun buffer hbuffer => by cases hbuffer⟩
    | some s =>
      simp only [hsession, Option.some.injEq] at hstep
      subst hstep
      obtain ⟨hbuffer, pending, sigwinch, hstate, hpending⟩ := s.reconnect_spec arriving
      have hkept : (s.reconnect arriving).1.outputBuffer.bytes <:+
          t.dequeued ++ (s.backlog arriving).flatten := by
        rw [hbuffer]
        obtain ⟨dropped, hdropped⟩ := h.kept s hsession
        refine (OutputBuffer.bytes_foldl_append _ _).trans ?_
        rw [← hdropped, List.append_assoc]
        exact List.suffix_append dropped _
      refine ⟨?_, ?_, ?_⟩
      · rintro _ ⟨⟩
        exact hkept
      · exact List.forall_mem_cons.mpr ⟨Period.continuous_nil decompress true _, h.periods⟩
      · rintro _ ⟨⟩
        refine ⟨_, _, rfl, ?_⟩
        rw [hstate]
        refine ⟨rfl, fun buffer hmem => ?_⟩
        obtain ⟨hsuffix, hlength⟩ := hpending buffer hmem
        exact ⟨hsuffix.trans hkept, hlength, rfl, rfl⟩

/-- In every run, the data responses of a terminal from an open to the next open or reset are an
end of what was dequeued up to the open, of at most the reconnect limit, followed by
all that was dequeued after it; from a reset to the next open there are none. -/
theorem stream_continuous (events : List Event) (t : Stream)
    (hexec : Runs.exec (step compress) start events = some t) :
    ∀ p ∈ t.periods, p.Continuous decompress := by
  have hstart : Inv decompress start :=
    ⟨(by rintro s ⟨⟩), (by rintro p ⟨⟩), (by rintro s ⟨⟩)⟩
  exact (Runs.invariant_of_exec (step compress) (Inv decompress)
    (fun s e u => inv_step compress decompress hcompress s u e) start t events hstart hexec).periods

end

def sampleIo : PassIo := ⟨false, true, []⟩

def sampleRun : List Event :=
  [.openTerminal 24 80 100 [], .output [97, 10], .pass 1 sampleIo, .resetStatus, .output [98],
    .pass 1 sampleIo, .output [99], .openTerminal 24 80 0 [], .output [100], .pass 1 sampleIo]

/-- Short data is sent as it is, so that the compression is the identity here. -/
theorem stream_continuous_sample :
    ∃ t, Runs.exec (step id) start sampleRun = some t ∧
      t.periods.map (fun p => (p.before, p.since, p.responses)) =
        [([97, 10, 98, 99], [100], [.data 1 [97, 10, 98, 99] false, .data 1 [100] false]),
          ([97, 10], [98], []), ([], [97, 10], [.data 1 [97, 10] false])] ∧
      ∀ p ∈ t.periods, p.Continuous id := by
  have hrun : (Runs.exec (step id) start sampleRun).map
      (fun t => t.periods.map fun p => (p.before, p.since, p.responses)) =
        some [([97, 10, 98, 99], [100], [.data 1 [97, 10, 98, 99] false, .data 1 [100] false]),
          ([97, 10], [98], []), ([], [97, 10], [.data 1 [97, 10] false])] := by
    decide
  obtain ⟨t, ht, hperiods⟩ := Option.map_eq_some_iff.mp hrun
  exact ⟨t, ht, hperiods, stream_continuous id id (fun _ => rfl) sampleRun t ht⟩

end ClantoDesk.TerminalStream
