import ClantoDesk.LittleEndian
import ClantoDesk.Runs
import Mathlib.Algebra.Order.Ring.Int

/-!
The receiver of a peer's camera, src/clanto/forwarding/camera_receiver.rs, on the host and on the
controller. An accepted request starts a thread with a bounded queue. The dispatcher puts the
frames of the peer into it and closes the stream when one does not fit; the thread decodes them. A
frame that the peer calls a key frame has its size read first. The flag and the frame are both the
peer's, and nothing ties one to the other.
-/
namespace ClantoDesk.CameraReceiver

open LittleEndian Runs

inductive Key
  | host (connId : Int)
  | controller (session : UInt64)
  deriving DecidableEq

structure MediaOpen where
  streamId : Int
  kind : String
  codec : String
  width : Int
  height : Int
  fps : Int

structure MediaFrame where
  streamId : Int
  data : Bytes
  key : Bool
  pts : Int

inductive Out
  | opened (streamId : Int) (success : Bool) (message sink : String)
  | ack (streamId pts : Int) (keyframe : Bool)
  | close (streamId : Int) (message : String)

def maxLong : ℕ := 1920

def maxShort : ℕ := 1080

def maxFps : Int := 30

def maxFrameBytes : ℕ := 2 * 1024 * 1024

def maxQueued : ℕ := 16

def sizeOk (w h : ℕ) : Bool :=
  decide (0 < w) && decide (0 < h) && decide (w % 2 = 0) && decide (h % 2 = 0) &&
    decide (max w h ≤ maxLong) && decide (min w h ≤ maxShort)

/-- `as usize` of a number of 32 bits. -/
def asUsize (n : Int) : ℕ := (n % UInt64.size).toNat

def validate (msg : MediaOpen) : Except String (ℕ × ℕ) :=
  if msg.kind ≠ "camera" ∨ msg.codec ≠ "vp8" then
    .error ("Unsupported media " ++ msg.kind ++ " " ++ msg.codec)
  else
    let w := asUsize msg.width
    let h := asUsize msg.height
    if !sizeOk w h || !(decide (1 ≤ msg.fps) && decide (msg.fps ≤ maxFps)) then
      .error "Unsupported camera format"
    else .ok (w, h)

def TaggedKey : Bytes → Prop
  | [] => False
  | tag :: _ => tag &&& 1 = 0

instance (data : Bytes) : Decidable (TaggedKey data) :=
  match data with
  | [] => isFalse id
  | tag :: _ => inferInstanceAs (Decidable (tag &&& 1 = 0))

def vp8KeyframeSize : Bytes → Option (ℕ × ℕ)
  | tag :: _ :: _ :: s0 :: s1 :: s2 :: w0 :: w1 :: h0 :: h1 :: _ =>
    if tag &&& 1 ≠ 0 ∨ [s0, s1, s2] ≠ [0x9d, 0x01, 0x2a] then none
    else some (readLE [w0, w1] &&& 0x3fff, readLE [h0, h1] &&& 0x3fff)
  | _ => none

/-- An image of the decoder, and the error of the virtual camera if it does not take it. -/
structure Image where
  width : ℕ
  height : ℕ
  write : Option String

/-- `Decoder::decode`, given what the codec returns. -/
def decode (inner : Except String (List Image)) : Except String (List Image) :=
  match inner with
  | .error e => .error e
  | .ok images =>
    match images.find? fun img => !sizeOk img.width img.height with
    | some img =>
      .error ("unexpected frame size " ++ toString img.width ++ "x" ++ toString img.height)
    | none => .ok images

inductive Phase
  | starting
  | active (waitingKey : Bool)
  | ended (error : Option String)
  | gone
  deriving DecidableEq

/-- The thread of a stream with its queue. `decoded` is a history: the buffers handed to the
decoder, and whether it took them. -/
structure Receiver where
  key : Key
  streamId : Int
  size : ℕ × ℕ
  queue : List MediaFrame
  phase : Phase
  frames : ℕ
  decoded : List (Bytes × Bool)

/-- What the table holds for a key; the stream has the sending end of the queue. -/
structure Stream where
  key : Key
  streamId : Int
  receiver : ℕ

structure State where
  streams : List Stream
  receivers : List Receiver
  busy : Bool
  sent : List (Key × Out)

def start : State := ⟨[], [], false, []⟩

def removeStream (s : State) (key : Key) (streamId : Int) : State :=
  { s with streams := s.streams.filter fun e => !(decide (e.key = key ∧ e.streamId = streamId)) }

def dropKey (s : State) (key : Key) : State :=
  { s with streams := s.streams.filter fun e => !decide (e.key = key) }

def send (s : State) (key : Key) (out : Out) : State := { s with sent := s.sent ++ [(key, out)] }

/-- `authorized` is the reason of a refusal, if there is one. -/
def onOpen (s : State) (key : Key) (authorized : Option String) (msg : MediaOpen) : State :=
  match authorized with
  | some reason => send s key (.opened msg.streamId false reason "")
  | none =>
    match validate msg with
    | .error reason => send s key (.opened msg.streamId false reason "")
    | .ok size =>
      if (s.streams.find? fun e => decide (e.key = key)).isSome then
        send s key (.opened msg.streamId false "Camera already active in this session" "")
      else { s with
        streams := s.streams ++ [⟨key, msg.streamId, s.receivers.length⟩]
        receivers := s.receivers ++ [⟨key, msg.streamId, size, [], .starting, 0, []⟩] }

/-- `try_send`: the queue has room and its thread still has the other end. -/
def trySend (self : Receiver) (msg : MediaFrame) : Option Receiver :=
  match self.phase with
  | .starting | .active _ =>
    if self.queue.length < maxQueued then some { self with queue := self.queue ++ [msg] } else none
  | .ended _ | .gone => none

def onFrame (s : State) (key : Key) (msg : MediaFrame) : State :=
  match s.streams.find? fun e => decide (e.key = key) with
  | none => s
  | some stream =>
    if stream.streamId ≠ msg.streamId then s
    else if maxFrameBytes < msg.data.length then
      send (dropKey s key) key (.close stream.streamId "Camera frame too large")
    else
      match s.receivers[stream.receiver]?.bind fun r => trySend r msg with
      | some r => { s with receivers := s.receivers.set stream.receiver r }
      | none => send (dropKey s key) key (.close stream.streamId "Camera stream overflow")

def stop (s : State) (key : Key) : State :=
  match s.streams.find? fun e => decide (e.key = key) with
  | some stream => send (dropKey s key) key (.close stream.streamId "")
  | none => s

def keyError (size : ℕ × ℕ) (frame : MediaFrame) : Option String :=
  if frame.key then
    match vp8KeyframeSize frame.data with
    | some dims => if dims = size then none else some "The camera changed resolution"
    | none => some "Invalid camera frame"
  else none

def writeAll (size : ℕ × ℕ) : ℕ → List Image → ℕ × Option String
  | frames, [] => (frames, none)
  | frames, img :: rest =>
    if (img.width, img.height) ≠ size then (frames, some "The camera changed resolution")
    else
      match img.write with
      | some e => (frames, some e)
      | none => writeAll size (frames + 1) rest

/-- The body of the loop of `receive` for one frame, with the answer to it. -/
def takeFrame (self : Receiver) (waitingKey : Bool) (frame : MediaFrame)
    (inner : Except String (List Image)) : Receiver × Option Out :=
  match keyError self.size frame with
  | some e => ({ self with phase := .ended (some e) }, none)
  | none =>
    if waitingKey && !frame.key then (self, some (.ack self.streamId frame.pts true))
    else
      match decode inner with
      | .ok images =>
        let self := { self with decoded := self.decoded ++ [(frame.data, true)] }
        match writeAll self.size self.frames images with
        | (frames, some e) => ({ self with frames := frames, phase := .ended (some e) }, none)
        | (frames, none) => ({ self with frames := frames, phase := .active false },
            some (.ack self.streamId frame.pts false))
      | .error _ =>
        ({ self with decoded := self.decoded ++ [(frame.data, false)], phase := .active true },
          some (.ack self.streamId frame.pts true))

/-- The dispatcher and the interface cause the first five. The others are steps of the thread of a
stream: it is not started, it opens the virtual camera and the decoder, takes a frame, finds the
queue closed, or leaves. -/
inductive Event
  | opened (key : Key) (authorized : Option String) (msg : MediaOpen)
  | frame (key : Key) (msg : MediaFrame)
  | closed (key : Key) (streamId : Int)
  | stop (key : Key)
  | close (key : Key)
  | unspawned (i : ℕ)
  | begin (i : ℕ) (sink : Except String String) (decoder : Option String)
  | take (i : ℕ) (inner : Except String (List Image))
  | finish (i : ℕ)
  | leave (i : ℕ)

def setReceiver (s : State) (i : ℕ) (r : Receiver) : State :=
  { s with receivers := s.receivers.set i r }

/-- The virtual camera is asked for while it is free; otherwise the wait for it has ended. -/
def begin (s : State) (i : ℕ) (r : Receiver) (sink : Except String String)
    (decoder : Option String) : State :=
  let sink := if s.busy then .error "The virtual camera is in use by another session" else sink
  match sink with
  | .error reason =>
    send (removeStream (setReceiver s i { r with phase := .gone }) r.key r.streamId) r.key
      (.opened r.streamId false reason "")
  | .ok name =>
    let phase := match decoder with
      | some e => .ended (some e)
      | none => .active true
    send { setReceiver s i { r with phase := phase } with busy := true } r.key
      (.opened r.streamId true "" name)

def leave (s : State) (i : ℕ) (r : Receiver) (error : Option String) : State :=
  let s := { setReceiver s i { r with phase := .gone } with busy := false }
  let s := match error with
    | some e => send s r.key (.close r.streamId e)
    | none => s
  removeStream s r.key r.streamId

def answer (s : State) (i : ℕ) (r : Receiver) (after : Receiver × Option Out) : State :=
  let s := setReceiver s i after.1
  match after.2 with
  | some out => send s r.key out
  | none => s

def onReceiver (s : State) (i : ℕ) (f : Receiver → Option State) : Option State :=
  s.receivers[i]?.bind f

def step (s : State) : Event → Option State
  | .opened key authorized msg => some (onOpen s key authorized msg)
  | .frame key msg => some (onFrame s key msg)
  | .closed key streamId => some (removeStream s key streamId)
  | .stop key => some (stop s key)
  | .close key => some (dropKey s key)
  | .unspawned i => onReceiver s i fun r =>
    if r.phase = .starting then
      some (removeStream (setReceiver s i { r with phase := .gone }) r.key r.streamId)
    else none
  | .begin i sink decoder => onReceiver s i fun r =>
    if r.phase = .starting then some (begin s i r sink decoder) else none
  | .take i inner => onReceiver s i fun r =>
    match r.phase, r.queue with
    | .active waitingKey, frame :: rest =>
      some (answer s i r (takeFrame { r with queue := rest } waitingKey frame inner))
    | _, _ => none
  | .finish i => onReceiver s i fun r =>
    match r.phase with
    | .active _ =>
      if r.queue = [] ∧ ∀ e ∈ s.streams, e.receiver ≠ i then
        some (setReceiver s i { r with phase := .ended none })
      else none
    | _ => none
  | .leave i => onReceiver s i fun r =>
    match r.phase with
    | .ended error => some (leave s i r error)
    | _ => none

/-- Every buffer that is a key frame by its own tag declares the negotiated size. -/
def Sized (r : Receiver) : Prop :=
  ∀ d ∈ r.decoded, TaggedKey d.1 → vp8KeyframeSize d.1 = some r.size

def Primed (size : ℕ × ℕ) (decoded : List (Bytes × Bool)) : Prop :=
  Since (fun d => d.2 = true ∧ vp8KeyframeSize d.1 = some size) (fun d => d.2 = true) decoded

def KeyFirst (r : Receiver) : Prop :=
  Always (fun before d => ¬ TaggedKey d.1 → Primed r.size before) r.decoded

/-- What the decoders have been given is sized, and starts with key frames. -/
def Safe (s : State) : Prop := ∀ r ∈ s.receivers, Sized r ∧ KeyFirst r

def Inv (s : State) : Prop :=
  ∀ r ∈ s.receivers, KeyFirst r ∧ (r.phase = .active false → Primed r.size r.decoded)

/-- A frame taken while no key frame is awaited, and that its sender does not call a key frame, is
none by its tag either, or declares the negotiated size. -/
def Honest (s : State) : Event → Prop
  | .take i _ => ∀ r ∈ s.receivers[i]?, r.phase = .active false → ∀ frame ∈ r.queue.head?,
      frame.key = false → TaggedKey frame.data → vp8KeyframeSize frame.data = some r.size
  | _ => True

variable (size : ℕ × ℕ) (s t : State) (e : Event) (i : ℕ) (r : Receiver)

theorem taggedKey_of_size (data : Bytes) (size : ℕ × ℕ) (h : vp8KeyframeSize data = some size) :
    TaggedKey data := by
  unfold vp8KeyframeSize at h
  split at h
  · split at h
    · cases h
    · rename_i hnot
      exact not_not.mp fun hodd => hnot (Or.inl hodd)
  · cases h

theorem size_of_keyError (frame : MediaFrame) (h : keyError size frame = none)
    (hkey : frame.key = true) : vp8KeyframeSize frame.data = some size := by
  rw [keyError, if_pos hkey] at h
  split at h
  · rename_i dims hdims
    split at h
    · rename_i heq
      rw [hdims, heq]
    · cases h
  · cases h

/-- A frame is refused or passed over, and the decoder gets nothing; or the decoder gets it. -/
theorem takeFrame_cases (self : Receiver) (waitingKey : Bool) (frame : MediaFrame)
    (inner : Except String (List Image)) (hphase : self.phase = .active waitingKey) :
    let after := (takeFrame self waitingKey frame inner).1
    after.size = self.size ∧
      ((after.decoded = self.decoded ∧ after.phase ≠ .active false ∧
          (frame.key = true ∨ waitingKey = true)) ∨
        ∃ ok, after.decoded = self.decoded ++ [(frame.data, ok)] ∧
          (after.phase = .active false → ok = true) ∧ keyError self.size frame = none ∧
          (waitingKey = true → frame.key = true)) := by
  intro after
  simp only [after, takeFrame]
  cases hkey : keyError self.size frame with
  | some e =>
    have hflag : frame.key = true := by
      by_contra hno
      rw [keyError, if_neg hno] at hkey
      cases hkey
    exact ⟨rfl, Or.inl ⟨rfl, by simp, Or.inl hflag⟩⟩
  | none =>
    by_cases hwait : (waitingKey && !frame.key) = true
    · simp only [if_pos hwait]
      rw [Bool.and_eq_true] at hwait
      refine ⟨trivial, Or.inl ⟨trivial, ?_, Or.inr hwait.1⟩⟩
      rw [hphase, hwait.1]
      simp
    · have hflag : waitingKey = true → frame.key = true := by
        intro h
        simpa [h] using hwait
      simp only [if_neg hwait]
      cases decode inner with
      | error e => exact ⟨rfl, Or.inr ⟨false, rfl, by simp, trivial, hflag⟩⟩
      | ok images =>
        cases hwritten : writeAll self.size self.frames images with
        | mk frames error =>
          cases error with
          | some e => simpa [hwritten] using hflag
          | none => simpa [hwritten] using hflag

/-- The receivers after a step that gives no frame to a decoder: one may be new, and of another the
queue and the phase may change. -/
def Unfed (s t : State) : Prop :=
  ∀ r' ∈ t.receivers, (r'.decoded = [] ∧ r'.phase ≠ .active false) ∨
    ∃ r ∈ s.receivers, r'.size = r.size ∧ r'.decoded = r.decoded ∧
      (r'.phase = .active false → r.phase = .active false)

theorem unfed_of_same (h : t.receivers = s.receivers) : Unfed s t := by
  intro r hr
  rw [h] at hr
  exact Or.inr ⟨r, hr, rfl, rfl, id⟩

theorem unfed_of_set (r' : Receiver) (hi : s.receivers[i]? = some r)
    (h : t.receivers = s.receivers.set i r') (hsize : r'.size = r.size)
    (hdecoded : r'.decoded = r.decoded)
    (hphase : r'.phase = .active false → r.phase = .active false) : Unfed s t := by
  intro x hx
  rw [h] at hx
  rcases List.mem_or_eq_of_mem_set hx with hold | rfl
  · exact Or.inr ⟨x, hold, rfl, rfl, id⟩
  · exact Or.inr ⟨r, List.mem_of_getElem? hi, hsize, hdecoded, hphase⟩

theorem trySend_spec (self r : Receiver) (msg : MediaFrame) (h : trySend self msg = some r) :
    r = { self with queue := self.queue ++ [msg] } := by
  unfold trySend at h
  split at h
  · split at h
    · exact (Option.some.inj h).symm
    · cases h
  · split at h
    · exact (Option.some.inj h).symm
    · cases h
  · cases h
  · cases h

theorem unfed_onOpen (key : Key) (authorized : Option String) (msg : MediaOpen) :
    Unfed s (onOpen s key authorized msg) := by
  unfold onOpen
  split
  · exact unfed_of_same _ _ rfl
  split
  · exact unfed_of_same _ _ rfl
  split
  · exact unfed_of_same _ _ rfl
  · intro r hr
    rcases List.mem_append.mp hr with hold | hnew
    · exact Or.inr ⟨r, hold, rfl, rfl, id⟩
    · rw [List.mem_singleton.mp hnew]
      exact Or.inl ⟨rfl, by simp⟩

theorem unfed_onFrame (key : Key) (msg : MediaFrame) : Unfed s (onFrame s key msg) := by
  unfold onFrame
  split
  · exact unfed_of_same _ _ rfl
  split
  · exact unfed_of_same _ _ rfl
  split
  · exact unfed_of_same _ _ rfl
  split
  · rename_i stream _ _ _ _ r hsent
    obtain ⟨self, hself, htry⟩ := Option.bind_eq_some_iff.mp hsent
    obtain rfl := trySend_spec self r msg htry
    exact unfed_of_set s _ stream.receiver self _ hself rfl rfl rfl id
  · exact unfed_of_same _ _ rfl

theorem unfed_begin (sink : Except String String)
    (decoder : Option String) (hi : s.receivers[i]? = some r) :
    Unfed s (begin s i r sink decoder) := by
  simp only [begin]
  split
  · exact unfed_of_set s _ i r _ hi rfl rfl rfl (by simp)
  · refine unfed_of_set s _ i r _ hi rfl rfl rfl ?_
    split
    · simp
    · simp

theorem unfed_leave (error : Option String)
    (hi : s.receivers[i]? = some r) : Unfed s (leave s i r error) := by
  unfold leave
  split
  · exact unfed_of_set s _ i r _ hi rfl rfl rfl (by simp)
  · exact unfed_of_set s _ i r _ hi rfl rfl rfl (by simp)

/-- Only the step that takes a frame gives anything to a decoder. -/
theorem unfed_step (he : ∀ i inner, e ≠ .take i inner) (h : step s e = some t) : Unfed s t := by
  have hreceiver : ∀ i f, onReceiver s i f = some t →
      ∃ r, s.receivers[i]? = some r ∧ f r = some t := by
    intro i f hf
    exact Option.bind_eq_some_iff.mp hf
  cases e with
  | opened key authorized msg =>
    obtain rfl := Option.some.inj h
    exact unfed_onOpen s key authorized msg
  | frame key msg =>
    obtain rfl := Option.some.inj h
    exact unfed_onFrame s key msg
  | closed key streamId =>
    obtain rfl := Option.some.inj h
    exact unfed_of_same _ _ rfl
  | stop key =>
    obtain rfl := Option.some.inj h
    unfold stop
    split
    · exact unfed_of_same _ _ rfl
    · exact unfed_of_same _ _ rfl
  | close key =>
    obtain rfl := Option.some.inj h
    exact unfed_of_same _ _ rfl
  | unspawned i =>
    obtain ⟨r, hi, hr⟩ := hreceiver i _ h
    obtain ⟨-, rfl⟩ := of_guard hr
    exact unfed_of_set s _ i r _ hi rfl rfl rfl (by simp)
  | begin i sink decoder =>
    obtain ⟨r, hi, hr⟩ := hreceiver i _ h
    obtain ⟨-, rfl⟩ := of_guard hr
    exact unfed_begin s i r sink decoder hi
  | take i inner => exact absurd rfl (he i inner)
  | finish i =>
    obtain ⟨r, hi, hr⟩ := hreceiver i _ h
    split at hr
    · obtain ⟨-, rfl⟩ := of_guard hr
      exact unfed_of_set s _ i r _ hi rfl rfl rfl (by simp)
    · cases hr
  | leave i =>
    obtain ⟨r, hi, hr⟩ := hreceiver i _ h
    split at hr
    · obtain rfl := Option.some.inj hr
      exact unfed_leave s i r _ hi
    · cases hr

theorem answer_receivers (after : Receiver × Option Out) :
    (answer s i r after).receivers = s.receivers.set i after.1 := by
  simp only [answer]
  split
  · rfl
  · rfl

theorem step_take (inner : Except String (List Image)) (h : step s (.take i inner) = some t) :
    ∃ r waitingKey frame rest, s.receivers[i]? = some r ∧ r.phase = .active waitingKey ∧
      r.queue = frame :: rest ∧
      t.receivers =
        s.receivers.set i (takeFrame { r with queue := rest } waitingKey frame inner).1 := by
  obtain ⟨r, hi, hr⟩ := Option.bind_eq_some_iff.mp h
  split at hr
  · rename_i waitingKey frame rest hphase hqueue
    obtain rfl := Option.some.inj hr
    exact ⟨r, waitingKey, frame, rest, hi, hphase, hqueue, answer_receivers s i r _⟩
  · cases hr

theorem primed_concat (decoded : List (Bytes × Bool)) (data : Bytes)
    (h : vp8KeyframeSize data = some size ∨ Primed size decoded) :
    Primed size (decoded ++ [(data, true)]) := by
  apply (since_concat _ _ decoded (data, true)).mpr
  rcases h with hkey | hprimed
  · exact Or.inl ⟨rfl, hkey⟩
  · exact Or.inr ⟨hprimed, rfl⟩

theorem keyFirst_takeFrame (waitingKey : Bool) (frame : MediaFrame)
    (inner : Except String (List Image)) (hphase : r.phase = .active waitingKey)
    (hfirst : KeyFirst r) (hprimed : r.phase = .active false → Primed r.size r.decoded) :
    let after := (takeFrame r waitingKey frame inner).1
    KeyFirst after ∧ (after.phase = .active false → Primed after.size after.decoded) := by
  intro after
  obtain ⟨hsize, hcase⟩ := takeFrame_cases r waitingKey frame inner hphase
  rcases hcase with ⟨hdecoded, hnot, -⟩ | ⟨ok, hdecoded, hok, herror, hflag⟩
  · refine ⟨?_, fun h => absurd h hnot⟩
    rw [KeyFirst, hsize, hdecoded]
    exact hfirst
  · have hbefore : vp8KeyframeSize frame.data = some r.size ∨ Primed r.size r.decoded := by
      cases hkey : frame.key with
      | true => exact Or.inl (size_of_keyError r.size frame herror hkey)
      | false =>
        have hgone : waitingKey = false := by
          by_contra hwait
          rw [hflag (by simpa using hwait)] at hkey
          cases hkey
        exact Or.inr (hprimed (hgone ▸ hphase))
    refine ⟨?_, ?_⟩
    · rw [KeyFirst, hsize, hdecoded]
      apply always_concat _ _ _ hfirst
      intro hdelta
      rcases hbefore with hkey | hprimed
      · exact absurd (taggedKey_of_size frame.data r.size hkey) hdelta
      · exact hprimed
    · intro hactive
      rw [hsize, hdecoded, hok hactive]
      exact primed_concat r.size r.decoded frame.data hbefore

theorem inv_step (hinv : Inv s) (h : step s e = some t) : Inv t := by
  have hother : Unfed s t → Inv t := by
    intro hunfed r' hr'
    rcases hunfed r' hr' with ⟨hdecoded, hphase⟩ | ⟨r, hr, hsize, hdecoded, hphase⟩
    · refine ⟨?_, fun hactive => absurd hactive hphase⟩
      rw [KeyFirst, hdecoded]
      exact always_nil _
    · obtain ⟨hfirst, hprimed⟩ := hinv r hr
      rw [KeyFirst, hsize, hdecoded]
      exact ⟨hfirst, fun hactive => hprimed (hphase hactive)⟩
  cases e with
  | take i inner =>
    obtain ⟨r, waitingKey, frame, rest, hi, hphase, -, hreceivers⟩ := step_take s t i inner h
    obtain ⟨hfirst, hprimed⟩ := hinv r (List.mem_of_getElem? hi)
    intro x hx
    rw [hreceivers] at hx
    rcases List.mem_or_eq_of_mem_set hx with hold | rfl
    · exact hinv x hold
    · exact keyFirst_takeFrame { r with queue := rest } waitingKey frame inner hphase hfirst hprimed
  | _ => exact hother (unfed_step s t _ (by simp) h)

/-- A step leads to a safe state exactly when it takes no key frame for a delta frame. -/
theorem safe_step_iff (hinv : Inv s) (hsafe : Safe s)
    (h : step s e = some t) : Safe t ↔ Honest s e := by
  have hnext := inv_step s t e hinv h
  have hother : Unfed s t → Safe t := by
    intro hunfed r' hr'
    refine ⟨?_, (hnext r' hr').1⟩
    rcases hunfed r' hr' with ⟨hdecoded, -⟩ | ⟨r, hr, hsize, hdecoded, -⟩
    · intro d hd
      rw [hdecoded] at hd
      cases hd
    · rw [Sized, hsize, hdecoded]
      exact (hsafe r hr).1
  cases e with
  | take i inner =>
    obtain ⟨r, waitingKey, frame, rest, hi, hphase, hqueue, hreceivers⟩ := step_take s t i inner h
    obtain ⟨hsize, hcase⟩ := takeFrame_cases { r with queue := rest } waitingKey frame inner hphase
    have hmem : (takeFrame { r with queue := rest } waitingKey frame inner).1 ∈ t.receivers := by
      rw [hreceivers]
      exact List.mem_set (List.getElem?_eq_some_iff.mp hi).1 _
    constructor
    · intro hafter r' hr' hactive frame' hframe' hflag htag
      obtain rfl : r = r' := Option.some.inj (hi.symm.trans hr')
      obtain rfl : frame = frame' := by
        rw [hqueue] at hframe'
        exact Option.some.inj hframe'
      have hwait : waitingKey = false := by
        rw [hphase] at hactive
        exact Phase.active.inj hactive
      rcases hcase with ⟨-, -, hkey⟩ | ⟨ok, hdecoded, -⟩
      · simp [hflag, hwait] at hkey
      · have hsized := (hafter _ hmem).1 (frame.data, ok) (by rw [hdecoded]; simp) htag
        rw [hsize] at hsized
        exact hsized
    · intro hhonest x hx
      refine ⟨?_, (hnext x hx).1⟩
      have hold := (hsafe r (List.mem_of_getElem? hi)).1
      rw [hreceivers] at hx
      rcases List.mem_or_eq_of_mem_set hx with hother' | rfl
      · exact (hsafe x hother').1
      rcases hcase with ⟨hdecoded, -⟩ | ⟨ok, hdecoded, -, herror, hflag⟩
      · rw [Sized, hsize, hdecoded]
        exact hold
      · rw [Sized, hsize, hdecoded]
        intro d hd htag
        rcases List.mem_append.mp hd with hin | hnew
        · exact hold d hin htag
        obtain rfl := List.mem_singleton.mp hnew
        cases hkey : frame.key with
        | true => exact size_of_keyError _ frame herror hkey
        | false =>
          have hwait : waitingKey = false := by
            by_contra hwait
            rw [hflag (by simpa using hwait)] at hkey
            cases hkey
          exact hhonest r hi (hwait ▸ hphase) frame (by rw [hqueue]; rfl) hkey htag
  | _ => exact iff_of_true (hother (unfed_step s t _ (by simp) h)) trivial

/-- In a run the decoders get key frames of the negotiated size only, and no other frame before the
first of them, exactly if no key frame that its sender does not call one is taken with another size
or none while no key frame is awaited. -/
theorem decoded_sized_iff (events : List Event) :
    Along Safe step start events ↔ Meets Honest step start events := by
  refine along_iff_meets Honest step Safe Inv ?_ ?_ ?_ start events ?_ ?_
  · intro s e t hinv h
    exact inv_step s t e hinv h
  · intro s e t hinv hsafe h
    exact safe_step_iff s t e hinv hsafe h
  · intro s e hnone
    cases e with
    | take i inner =>
      intro r hr hactive frame hframe
      exfalso
      obtain ⟨rest, hrest⟩ : ∃ rest, r.queue = frame :: rest := by
        cases hqueue : r.queue with
        | nil =>
          rw [hqueue] at hframe
          cases hframe
        | cons first rest =>
          rw [hqueue] at hframe
          exact ⟨rest, by rw [Option.some.inj hframe]⟩
      have hri : s.receivers[i]? = some r := hr
      simp [step, onReceiver, hri, hactive, hrest] at hnone
    | _ => exact trivial
  · intro r hr
    cases hr
  · intro r hr
    cases hr

def keyFrame (size : Bytes) : Bytes := [0x10, 0x00, 0x00, 0x9d, 0x01, 0x2a] ++ size

def honestFrame : Bytes := keyFrame [0x80, 0x02, 0xe0, 0x01]

def hugeFrame : Bytes := keyFrame [0xff, 0x3f, 0xff, 0x3f]

def smuggle : List Event :=
  [.opened (.host 7) none ⟨1, "camera", "vp8", 640, 480, 15⟩,
    .begin 0 (.ok "ClantoDesk Camera") none,
    .frame (.host 7) ⟨1, honestFrame, true, 0⟩, .take 0 (.ok [⟨640, 480, none⟩]),
    .frame (.host 7) ⟨1, hugeFrame, false, 1⟩, .take 0 (.ok [])]

theorem huge_frame_decoded :
    ∃ s, exec step start smuggle = some s ∧
      (s.receivers.map fun r => (r.size, r.decoded)) =
        [((640, 480), [(honestFrame, true), (hugeFrame, true)])] ∧
      TaggedKey hugeFrame ∧ vp8KeyframeSize hugeFrame = some (16383, 16383) ∧ ¬ Safe s := by
  obtain ⟨s, hrun, hdecoded⟩ := Option.map_eq_some_iff.mp
    (show (exec step start smuggle).map (fun s => s.receivers.map fun r => (r.size, r.decoded)) =
      some [((640, 480), [(honestFrame, true), (hugeFrame, true)])] by decide)
  have htag : TaggedKey hugeFrame := by decide
  have hsize : vp8KeyframeSize hugeFrame = some (16383, 16383) := by decide
  refine ⟨s, hrun, hdecoded, htag, hsize, ?_⟩
  intro hsafe
  obtain ⟨r, hr, heq⟩ : ∃ r ∈ s.receivers,
      (r.size, r.decoded) = ((640, 480), [(honestFrame, true), (hugeFrame, true)]) := by
    apply List.mem_map.mp
    rw [hdecoded]
    exact List.mem_singleton_self _
  obtain ⟨hnegotiated, hbuffers⟩ := Prod.mk.inj heq
  have hsized := (hsafe r hr).1 (hugeFrame, true) (by rw [hbuffers]; simp) htag
  rw [hsize, hnegotiated] at hsized
  exact absurd hsized (by decide)

end ClantoDesk.CameraReceiver
