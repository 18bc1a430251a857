import ClantoDesk.LittleEndian
import ClantoDesk.PacketStream
import ClantoDesk.Runs
import Mathlib.Data.Int.Notation

/-!
The capture stream of the `_drm` service, src/ipc/drm.rs and src/server/drm_capturer.rs. A worker
grabs frames and cursor shapes and hands them over through a channel of two places. The forwarding
task sends every cursor shape and the newest frame, as long as it has credit, which the consumer
gives back with one byte for each frame. A message is JSON with a length in front, and a descriptor
may travel with its first byte; a raw body with a length of its own follows a frame or a cursor. The
two ends write and read any number of bytes at a time. The kernel delivers a descriptor with the
read that returns its first byte. Errors of the system, the ends of waits and the other ends of the
connection are events that may come at any time.
-/
namespace ClantoDesk.DrmStream

open LittleEndian PacketStream

/-- `u32::to_be_bytes` and `u32::from_be_bytes`. -/
def u32Prefix : LengthPrefix UInt8 where
  size := 4
  bound := 4294967296
  write n := (leBytes 4 n).reverse
  read bs := readLE bs.reverse
  size_pos := Nat.succ_pos 3
  length_write n := by rw [List.length_reverse, leBytes_length]
  read_write n hn := by
    rw [List.reverse_reverse]
    exact readLE_leBytes_of_lt 4 n (by norm_num; exact hn)

def maxDrmJsonBytes : ℕ := 8388608
def maxDrmRawBytes : ℕ := 536870912
def drmFrameCredit : ℤ := 2
def maxAckReads : ℕ := 64

/-- A frame's descriptor. `info` is everything but the flag. -/
structure DmabufDesc (D : Type) where
  info : D
  hasFd : Bool
  deriving DecidableEq

structure FrameHeader where
  width : ℕ
  height : ℕ
  planeRotation : Option ℕ
  cursorPos : Option (ℤ × ℤ)
  deriving DecidableEq

structure CursorHeader where
  id : ℕ
  width : ℕ
  height : ℕ
  hotx : ℤ
  hoty : ℤ
  hotMeasured : Bool
  deriving DecidableEq

inductive Data (P D : Type) where
  | drmDisplaysChanged (displays : P)
  | drmFrameDmabuf (desc : DmabufDesc D)
  | drmFrame (header : FrameHeader)
  | drmCursor (header : CursorHeader)
  deriving DecidableEq

inductive DrmProducerMsg (P D F : Type) where
  | displays (displays : P)
  | frame (desc : DmabufDesc D) (fd : Option F)
  | frameCpu (header : FrameHeader) (data : Bytes)
  | cursor (header : CursorHeader) (colors : Bytes)

inductive Message (P D F : Type) where
  | displaysChanged (displays : P)
  | dmabuf (desc : DmabufDesc D) (fd : Option F)
  | frame (header : FrameHeader) (data : Bytes)
  | cursor (header : CursorHeader) (colors : Bytes)
  deriving DecidableEq

variable {P D F : Type}

namespace Message

def isFrame : Message P D F → Bool
  | dmabuf _ _ => true
  | frame _ _ => true
  | _ => false

def isCursor : Message P D F → Bool
  | cursor _ _ => true
  | _ => false

def data : Message P D F → Data P D
  | displaysChanged displays => .drmDisplaysChanged displays
  | dmabuf desc _ => .drmFrameDmabuf desc
  | frame header _ => .drmFrame header
  | cursor header _ => .drmCursor header

def packets (encode : Data P D → Bytes) : Message P D F → List (Packet UInt8 F)
  | displaysChanged displays => [⟨encode (.drmDisplaysChanged displays), none⟩]
  | dmabuf desc fd => [⟨encode (.drmFrameDmabuf desc), fd⟩]
  | frame header data => [⟨encode (.drmFrame header), none⟩, ⟨data, none⟩]
  | cursor header colors => [⟨encode (.drmCursor header), none⟩, ⟨colors, none⟩]

end Message

def frameOf : DrmProducerMsg P D F → Option (Message P D F)
  | .frame desc fd => some (.dmabuf { desc with hasFd := fd.isSome } fd)
  | .frameCpu header data => some (.frame header data)
  | _ => none

def cursorOf : DrmProducerMsg P D F → Option (Message P D F)
  | .cursor header colors => some (.cursor header colors)
  | _ => none

/-! ### The state -/

inductive Task (P D F : Type) where
  | draining (left : ℕ)
  | waiting
  | checking (first : Option (DrmProducerMsg P D F))
  | announcing (first : Option (DrmProducerMsg P D F))
  | sendingChanged (first : Option (DrmProducerMsg P D F))
  | handling (msg : DrmProducerMsg P D F)
  | sendingCursor
  | receiving
  | settling (left : ℕ)
  | sendingFrame
  | refused (first : Option (DrmProducerMsg P D F))
  | closed (hand : Option (DrmProducerMsg P D F))

namespace Task

def hand : Task P D F → Option (DrmProducerMsg P D F)
  | checking first => first
  | announcing first => first
  | sendingChanged first => first
  | handling msg => some msg
  | refused first => first
  | closed hand => hand
  | _ => none

def sending : Task P D F → Bool
  | sendingChanged _ => true
  | sendingCursor => true
  | sendingFrame => true
  | _ => false

def sendsFrame : Task P D F → Bool
  | sendingFrame => true
  | _ => false

def ended : Task P D F → Bool
  | refused _ => true
  | closed _ => true
  | _ => false

end Task

inductive Consumer where
  | running
  | acking
  | stopped
  | failed
  deriving DecidableEq

/-- The worker, the channel, the task, the two directions of the socket and the consumer. The last
fields are the histories of what was grabbed, dequeued, sent and received, how many frames were sent
in full and acked, and what has been sent in this iteration. -/
structure Stream (P D F : Type) where
  outbox : List (DrmProducerMsg P D F)
  queue : List (DrmProducerMsg P D F)
  framesGated : Bool
  task : Task P D F
  credit : ℤ
  heldFrame : Option (DrmProducerMsg P D F)
  packets : List (Packet UInt8 F)
  pending : List (Octet UInt8 F)
  socket : List (Octet UInt8 F)
  acks : ℕ
  consumer : Consumer
  reader : Reader UInt8 F
  header : Option (Data P D)
  consumed : Bool
  grabbed : List (DrmProducerMsg P D F)
  dequeued : List (DrmProducerMsg P D F)
  sent : List (Message P D F)
  received : List (Message P D F)
  framesSent : ℕ
  acked : ℕ
  iteration : List (Message P D F)

inductive Event (P D F : Type) where
  | tick (frame cursor : Option (DrmProducerMsg P D F))
  | push
  | readAcks (n : ℕ)
  | noAcks
  | take
  | woken
  | authorize (activeUid : Option ℕ)
  | announce (changed : Option P)
  | handle
  | receive
  | write (n : ℕ)
  | fail
  | read (n : ℕ)
  | ack
  | timeout
  | stop

/-- `drm_peer_authorized`. -/
def drmPeerAuthorized (peerUid activeUid : Option ℕ) : Bool :=
  match peerUid with
  | some 0 => true
  | some uid => decide (activeUid = some uid)
  | none => false

namespace Stream

def head (s : Stream P D F) : Stream P D F :=
  { s with task := .draining maxAckReads, iteration := [] }

/-- The next packet of a message is written, unless its length does not fit. -/
def load (s : Stream P D F) : Stream P D F :=
  match s.packets with
  | [] => s
  | p :: ps =>
    if p.payload.length < u32Prefix.bound then
      { s with packets := ps, pending := octets u32Prefix p }
    else { s with task := .closed s.task.hand }

def send (s : Stream P D F) (encode : Data P D → Bytes) (m : Message P D F) (task : Task P D F) :
    Stream P D F :=
  { s with
    task := task
    sent := s.sent ++ [m]
    iteration := s.iteration ++ [m]
    packets := m.packets encode }.load

def finish (s : Stream P D F) : Stream P D F :=
  match s.task with
  | .sendingChanged first => { s with task := first.elim .receiving .handling }
  | .sendingCursor => { s with task := .receiving }
  | .sendingFrame => { s with credit := s.credit - 1, framesSent := s.framesSent + 1 }.head
  | _ => s

def write (s : Stream P D F) (n : ℕ) : Stream P D F :=
  let s' := { s with socket := s.socket ++ s.pending.take n, pending := s.pending.drop n }
  if s'.pending ≠ [] then s'
  else if s'.packets = [] then s'.finish
  else s'.load

def ship (s : Stream P D F) (encode : Data P D → Bytes) : Stream P D F :=
  if s.credit ≤ 0 then s.head
  else
    match s.heldFrame.bind frameOf with
    | some m => { s with heldFrame := none }.send encode m .sendingFrame
    | none => s.head

def drained (s : Stream P D F) (encode : Data P D → Bytes) : Stream P D F :=
  match s.task with
  | .draining _ => { s with framesGated := decide (s.credit ≤ 0), task := .waiting }
  | .settling _ => s.ship encode
  | _ => s

/-- One read of `drain_frame_acks`. -/
def readAcks (s : Stream P D F) (encode : Data P D → Bytes) (n left : ℕ) : Stream P D F :=
  let s' := { s with credit := min (s.credit + n) drmFrameCredit, acks := s.acks - n }
  if drmFrameCredit ≤ s'.credit ∨ left ≤ 1 then s'.drained encode
  else
    match s.task with
    | .draining _ => { s' with task := .draining (left - 1) }
    | _ => { s' with task := .settling (left - 1) }

def draining (s : Stream P D F) : Option ℕ :=
  match s.task with
  | .draining left => some left
  | .settling left => some left
  | _ => none

/-- One message of the worker. A cursor shape is sent, and a newer frame replaces an older. -/
def handle (s : Stream P D F) (encode : Data P D → Bytes) (msg : DrmProducerMsg P D F) :
    Stream P D F :=
  match msg with
  | .cursor header colors => s.send encode (.cursor header colors) .sendingCursor
  | .displays _ => { s with task := .receiving }
  | frame => { s with heldFrame := some frame, task := .receiving }

def deliver (s : Stream P D F) (m : Message P D F) : Stream P D F :=
  { s with
    received := s.received ++ [m]
    header := none
    consumed := false
    consumer := if m.isFrame then .acking else .running }

/-- `recv_msg` has read a packet, or `next_raw_into` has. -/
def accept (s : Stream P D F) (decode : Bytes → Option (Data P D)) (p : Packet UInt8 F) :
    Stream P D F :=
  match s.header with
  | some (.drmFrame header) => s.deliver (.frame header p.payload)
  | some (.drmCursor header) => s.deliver (.cursor header p.payload)
  | _ =>
    match decode p.payload with
    | some (.drmDisplaysChanged displays) => s.deliver (.displaysChanged displays)
    | some (.drmFrameDmabuf desc) => s.deliver (.dmabuf desc p.mark)
    | some data => { s with header := some data }
    | none => { s with consumer := .failed }

def read (s : Stream P D F) (decode : Bytes → Option (Data P D)) (n : ℕ) : Stream P D F :=
  let k := min n (needed u32Prefix s.reader)
  let cap := if s.header.isSome then maxDrmRawBytes else maxDrmJsonBytes
  let s' := { s with socket := s.socket.drop k, consumed := true }
  match feed u32Prefix cap s.reader (s.socket.take k) with
  | .more r => { s' with reader := r }
  | .tooLong => { s' with consumer := .failed }
  | .packet p => { s' with reader := fresh }.accept decode p

end Stream

open Stream

/-- The steps of the worker, of the task and of the consumer. `peerUid` is the consumer's user. -/
def step (encode : Data P D → Bytes) (decode : Bytes → Option (Data P D)) (peerUid : Option ℕ)
    (s : Stream P D F) : Event P D F → Option (Stream P D F)
  | .tick frame cursor =>
    if s.outbox.isEmpty ∧ (frame.isSome → s.framesGated = false) ∧
        (∀ m ∈ frame, (frameOf m).isSome) ∧ ∀ m ∈ cursor, (cursorOf m).isSome then
      some { s with outbox := frame.toList ++ cursor.toList, grabbed := s.grabbed ++ frame.toList }
    else none
  | .push =>
    match s.outbox with
    | m :: rest =>
      if s.queue.length < 2 then some { s with outbox := rest, queue := s.queue ++ [m] } else none
    | [] => none
  | .readAcks n =>
    if 0 < n ∧ n ≤ 64 ∧ n ≤ s.acks then s.draining.map fun left => s.readAcks encode n left
    else none
  | .noAcks =>
    if s.acks = 0 then s.draining.map fun _ => s.drained encode else none
  | .take =>
    match s.task, s.queue with
    | .waiting, m :: rest =>
      some { s with task := .checking (some m), queue := rest, dequeued := s.dequeued ++ [m] }
    | _, _ => none
  | .woken =>
    match s.task with
    | .waiting =>
      if s.credit ≤ 0 ∨ (s.heldFrame.isSome ∧ s.queue.isEmpty) then
        some { s with task := .checking none }
      else none
    | _ => none
  | .authorize activeUid =>
    match s.task with
    | .checking first =>
      some { s with
        task := if drmPeerAuthorized peerUid activeUid then .announcing first else .refused first }
    | _ => none
  | .announce changed =>
    match s.task with
    | .announcing first =>
      some (match changed with
        | some displays => s.send encode (.displaysChanged displays) (.sendingChanged first)
        | none => { s with task := first.elim .receiving .handling })
    | _ => none
  | .handle =>
    match s.task with
    | .handling msg => some (s.handle encode msg)
    | _ => none
  | .receive =>
    match s.task, s.queue with
    | .receiving, m :: rest =>
      some { s with task := .handling m, queue := rest, dequeued := s.dequeued ++ [m] }
    | .receiving, [] => some { s with task := .settling maxAckReads }
    | _, _ => none
  | .write n => if s.task.sending ∧ 0 < n then some (s.write n) else none
  | .fail => if s.task.ended then none else some { s with task := .closed s.task.hand }
  | .read n =>
    if s.consumer = .running ∧ s.socket ≠ [] ∧ 0 < n then some (s.read decode n) else none
  | .ack =>
    if s.consumer = .acking then
      some { s with consumer := .running, acks := s.acks + 1, acked := s.acked + 1 }
    else none
  | .timeout =>
    if s.consumer = .running then
      some (if s.header.isSome ∨ s.consumed then { s with consumer := .stopped }
        else { s with reader := fresh })
    else none
  | .stop => some { s with consumer := .stopped }

def start : Stream P D F :=
  { outbox := []
    queue := []
    framesGated := false
    task := .draining maxAckReads
    credit := drmFrameCredit
    heldFrame := none
    packets := []
    pending := []
    socket := []
    acks := 0
    consumer := .running
    reader := fresh
    header := none
    consumed := false
    grabbed := []
    dequeued := []
    sent := []
    received := []
    framesSent := 0
    acked := 0
    iteration := [] }

end ClantoDesk.DrmStream
