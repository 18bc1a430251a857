import ClantoDesk.CameraReceiver

/-!
A stream of a webcam between two devices: the sending thread of src/clanto/forwarding/media.rs and
the receiver of src/clanto/forwarding/camera_receiver.rs, from the moment the receiver has accepted
the request. Both directions keep their order. The sender is given the answers to its own stream
only, as on the host in src/clanto/forwarding/host.rs. The camera, the codec and the virtual camera
take part through the events.
-/
namespace ClantoDesk.CameraStream

open CameraReceiver LittleEndian Runs

def MAX_IN_FLIGHT : Int := 3

inductive Info
  | pending
  | active
  | error
  | closed
  | stopped
  deriving DecidableEq

/-- What the encoder gives, and whether it calls it a key frame. -/
abbrev Packet := Bytes × Bool

/-- Where the thread stands: it waits for the answer, is at the head of its loop, has a frame of the
camera, may encode it, or has packets left to send. -/
inductive Stage
  | pending
  | idle
  | frame
  | ready
  | packets (rest : List Packet)
  | done

/-- `fresh` says that the encoder has given nothing since it was made. -/
structure SendStream where
  streamId : Int
  info : Info
  stage : Stage
  stop : Bool
  acked : Int
  keyframe : Bool
  fresh : Bool
  seq : Int

inductive Message
  | frame (f : MediaFrame)
  | close

namespace SendStream

def onOpened (self : SendStream) (success : Bool) : SendStream :=
  if success then { self with info := .active } else { self with info := .error, stop := true }

def onAck (self : SendStream) (pts : Int) (keyframe : Bool) : SendStream :=
  { self with acked := max self.acked pts, keyframe := keyframe || self.keyframe }

def onClose (self : SendStream) (message : String) : SendStream :=
  { self with info := if message = "" then .closed else .error, stop := true }

def answered (self : SendStream) : Out → SendStream
  | .opened _ success _ _ => self.onOpened success
  | .ack _ pts keyframe => self.onAck pts keyframe
  | .close _ message => self.onClose message

/-- The encoder is made anew when a key frame was asked for. -/
def encode (self : SendStream) (packets : List Packet) : SendStream :=
  { self with
    keyframe := false
    fresh := (self.keyframe || self.fresh) && packets.isEmpty
    stage := .packets packets }

end SendStream

/-- The steps of the thread. A failure is one of the camera or of the encoder, or the end of a
timeout. -/
inductive Work
  | answered
  | take
  | credit
  | encode (packets : List Packet)
  | send
  | fail
  | halt

def runSend (self : SendStream) : Work → Option (SendStream × List Message)
  | .answered =>
    match self.stage with
    | .pending => if self.info = .pending then none else some ({ self with stage := .idle }, [])
    | _ => none
  | .take =>
    match self.stage with
    | .idle => if self.stop then none else some ({ self with stage := .frame }, [])
    | _ => none
  | .credit =>
    match self.stage with
    | .frame =>
      some ({ self with stage := if MAX_IN_FLIGHT ≤ self.seq - self.acked then .idle else .ready },
        [])
    | _ => none
  | .encode packets =>
    match self.stage with
    | .ready => some (self.encode packets, [])
    | _ => none
  | .send =>
    match self.stage with
    | .packets ((data, key) :: rest) =>
      some ({ self with stage := .packets rest, seq := self.seq + 1 },
        [.frame ⟨self.streamId, data, key, self.seq + 1⟩])
    | .packets [] => some ({ self with stage := .idle }, [])
    | _ => none
  | .fail =>
    match self.stage with
    | .pending | .frame | .ready => some ({ self with stage := .done, info := .error }, [.close])
    | _ => none
  | .halt =>
    match self.stage with
    | .pending | .idle =>
      if self.stop then
        let info := match self.info with
          | .pending | .active => .stopped
          | other => other
        some ({ self with stage := .done, info := info }, [])
      else none
    | _ => none

/-- `attached` says that the sending side still keeps the stream. `handed` is a history: the frames
that the decoder was given, and whether it took them. -/
structure State where
  sender : SendStream
  attached : Bool
  wire : List Message
  recv : CameraReceiver.State
  back : List Out
  handed : List (MediaFrame × Bool)

/-- The receiver has accepted the request. -/
def start (key : Key) (streamId : Int) (size : ℕ × ℕ) : State where
  sender := ⟨streamId, .pending, .pending, false, 0, false, true, 0⟩
  attached := true
  wire := []
  recv := ⟨[⟨key, streamId, 0⟩], [⟨key, streamId, size, [], .starting, 0, []⟩], false, []⟩
  back := []
  handed := []

inductive Event
  | thread (work : Work)
  | drop
  | deliver
  | reply
  | receiver (e : CameraReceiver.Event)

/-- What the receiving side does without a message of the sender. -/
def unprompted : CameraReceiver.Event → Bool
  | .opened .. | .frame .. | .closed .. => false
  | _ => true

def handedBy (s t : CameraReceiver.State) : List (MediaFrame × Bool) :=
  (s.receivers.zip t.receivers).flatMap fun r =>
    (r.1.queue.zip (r.2.decoded.drop r.1.decoded.length)).map fun p => (p.1, p.2.2)

def receive (s : State) (t : CameraReceiver.State) : State :=
  { s with
    recv := t
    back := s.back ++ (t.sent.drop s.recv.sent.length).map Prod.snd
    handed := s.handed ++ handedBy s.recv t }

def isClose : Out → Bool
  | .close .. => true
  | _ => false

def step (key : Key) (s : State) : Event → Option State
  | .thread work =>
    (runSend s.sender work).map fun r => { s with sender := r.1, wire := s.wire ++ r.2 }
  | .drop =>
    if s.attached then
      some { s with
        attached := false
        sender := { s.sender with stop := true }
        wire := if s.sender.stop then s.wire else s.wire ++ [.close] }
    else none
  | .deliver =>
    match s.wire with
    | [] => none
    | .frame f :: rest => some (receive { s with wire := rest } (onFrame s.recv key f))
    | .close :: rest =>
      some (receive { s with wire := rest } (removeStream s.recv key s.sender.streamId))
  | .reply =>
    match s.back with
    | [] => none
    | out :: rest =>
      if s.attached then
        some { s with back := rest, sender := s.sender.answered out, attached := !isClose out }
      else some { s with back := rest }
  | .receiver e =>
    if unprompted e then (CameraReceiver.step s.recv e).map (receive s) else none

/-! ### What the steps do -/

def ackOf : Out → Option Int
  | .ack _ pts _ => some pts
  | _ => none

def frameOf : Message → Option MediaFrame
  | .frame f => some f
  | .close => none

def unsent : Stage → List Packet
  | .packets rest => rest
  | _ => []

def Over : Phase → Prop
  | .ended _ | .gone => True
  | _ => False

section Sender

variable (old new : SendStream) (work : Work) (out : List Message)

/-- The thread sends no frame, and goes to the encoder only with credit. -/
structure Rests : Prop where
  frames : out.filterMap frameOf = []
  acked : new.acked = old.acked
  seq : new.seq = old.seq
  keyframe : new.keyframe = old.keyframe
  fresh : new.fresh = old.fresh
  unsent : unsent new.stage = unsent old.stage
  credit : new.stage = .ready → old.stage = .ready ∨ old.seq - old.acked < MAX_IN_FLIGHT

/-- The thread sends the next packet of a frame. -/
def Sends : Prop :=
  ∃ data key rest, unsent old.stage = (data, key) :: rest ∧
    new = { old with stage := .packets rest, seq := old.seq + 1 } ∧
    out = [.frame ⟨old.streamId, data, key, old.seq + 1⟩]

theorem runSend_cases (h : runSend old work = some (new, out)) :
    new.streamId = old.streamId ∧ (Rests old new out ∨ Sends old new out ∨
      ∃ packets, work = .encode packets ∧ old.stage = .ready ∧ new = old.encode packets ∧
        out = []) := by
  obtain ⟨id, info, stage, stop, acked, keyframe, fresh, seq⟩ := old
  cases work with
  | encode packets =>
    cases stage <;> simp only [runSend, reduceCtorEq, Option.some.injEq, Prod.mk.injEq] at h
    obtain ⟨rfl, rfl⟩ := h
    exact ⟨rfl, Or.inr (Or.inr ⟨packets, rfl, rfl, rfl, rfl⟩)⟩
  | send =>
    cases stage with
    | packets rest =>
      cases rest with
      | nil =>
        obtain ⟨rfl, rfl⟩ := Prod.mk.inj (Option.some.inj h)
        exact ⟨rfl, Or.inl ⟨rfl, rfl, rfl, rfl, rfl, rfl, by simp⟩⟩
      | cons p rest =>
        obtain ⟨rfl, rfl⟩ := Prod.mk.inj (Option.some.inj h)
        exact ⟨rfl, Or.inr (Or.inl ⟨p.1, p.2, rest, rfl, rfl, rfl⟩)⟩
    | _ => simp [runSend] at h
  | credit =>
    cases stage <;> simp only [runSend, reduceCtorEq, Option.some.injEq, Prod.mk.injEq] at h
    obtain ⟨rfl, rfl⟩ := h
    refine ⟨rfl, Or.inl ⟨rfl, rfl, rfl, rfl, rfl, ?_, fun hready => Or.inr ?_⟩⟩
    · split_ifs <;> rfl
    · by_contra hfull
      simp [not_lt.mp hfull] at hready
  | answered | take | halt =>
    cases stage <;> simp only [runSend, reduceCtorEq] at h <;> split_ifs at h <;>
    · obtain ⟨rfl, rfl⟩ := Prod.mk.inj (Option.some.inj h)
      exact ⟨rfl, Or.inl ⟨rfl, rfl, rfl, rfl, rfl, rfl, by simp⟩⟩
  | fail =>
    cases stage <;> simp only [runSend, reduceCtorEq] at h <;>
    · obtain ⟨rfl, rfl⟩ := Prod.mk.inj (Option.some.inj h)
      exact ⟨rfl, Or.inl ⟨rfl, rfl, rfl, rfl, rfl, rfl, by simp⟩⟩

end Sender

section Receiver

variable (key : Key) (s t : CameraReceiver.State) (r r' : Receiver) (out : List Out)

/-- The receiver takes no frame and acknowledges none. -/
structure Waits : Prop where
  queue : r'.queue = r.queue
  decoded : r'.decoded = r.decoded
  answers : out.filterMap ackOf = []
  phase : r'.phase = r.phase ∨ r.phase = .starting ∧ r'.phase = .active true ∨ Over r'.phase
  overflow : (∃ id, .close id "Camera stream overflow" ∈ out) → Over r'.phase

/-- The receiver takes the frame at the head of its queue. -/
def Takes : Prop :=
  ∃ waiting f, r.phase = .active waiting ∧ r.queue = f :: r'.queue ∧
    (r'.decoded = r.decoded ∧ r'.phase ≠ .active false ∨
      ∃ ok, r'.decoded = r.decoded ++ [(f.data, ok)] ∧ (r'.phase = .active false → ok = true) ∧
        (waiting = true → f.key = true)) ∧
    (out = [] ∧ Over r'.phase ∨
      ∃ again, out = [.ack r.streamId f.pts again] ∧ r'.phase = .active again)

theorem takes_takeFrame (waiting : Bool) (f : MediaFrame) (rest : List MediaFrame)
    (inner : Except String (List Image)) (hphase : r.phase = .active waiting)
    (hqueue : r.queue = f :: rest) :
    let after := takeFrame { r with queue := rest } waiting f inner
    Takes r after.1 after.2.toList := by
  intro after
  obtain ⟨-, hcases⟩ := takeFrame_cases { r with queue := rest } waiting f inner hphase
  have hanswer : after.1.queue = rest ∧ (after.2.toList = [] ∧ Over after.1.phase ∨
      ∃ again, after.2.toList = [.ack r.streamId f.pts again] ∧
        after.1.phase = .active again) := by
    simp only [after, takeFrame]
    split
    · exact ⟨rfl, Or.inl ⟨rfl, trivial⟩⟩
    · split
      · rename_i hwait
        rw [Bool.and_eq_true] at hwait
        exact ⟨rfl, Or.inr ⟨true, rfl, by rw [hphase, hwait.1]⟩⟩
      · split
        · split
          · exact ⟨rfl, Or.inl ⟨rfl, trivial⟩⟩
          · exact ⟨rfl, Or.inr ⟨false, rfl, rfl⟩⟩
        · exact ⟨rfl, Or.inr ⟨true, rfl, rfl⟩⟩
  refine ⟨waiting, f, hphase, by rw [hqueue, hanswer.1], ?_, hanswer.2⟩
  rcases hcases with ⟨hsame, hphase', -⟩ | ⟨ok, hgrown, hok, -, hkey⟩
  · exact Or.inl ⟨hsame, hphase'⟩
  · exact Or.inr ⟨ok, hgrown, hok, hkey⟩

/-- A step of the receiving side that keeps its one receiver, and the entry of the table or not. -/
def Follows (P : Receiver → Receiver → List Out → Prop) : Prop :=
  t.streams.Sublist s.streams ∧ ∃ r' sent, t.receivers = [r'] ∧
    t.sent = s.sent ++ sent ∧ P r r' (sent.map Prod.snd)

theorem waits_of_over (queue : r'.queue = r.queue) (decoded : r'.decoded = r.decoded)
    (answers : out.filterMap ackOf = []) (hover : Over r'.phase) : Waits r r' out :=
  ⟨queue, decoded, answers, Or.inr (Or.inr hover), fun _ => hover⟩

theorem eq_of_onReceiver (i : ℕ) (f : Receiver → Option CameraReceiver.State)
    (hr : s.receivers = [r]) (h : onReceiver s i f = some t) : i = 0 ∧ f r = some t := by
  rw [onReceiver, hr] at h
  cases i with
  | zero => exact ⟨rfl, h⟩
  | succ i => cases h

theorem follows_unprompted (e : CameraReceiver.Event) (hown : unprompted e = true)
    (hr : s.receivers = [r]) (h : CameraReceiver.step s e = some t) :
    Follows s t r fun r r' out => Waits r r' out ∨ Takes r r' out := by
  have hset (r' : Receiver) : (setReceiver s 0 r').receivers = [r'] := by rw [setReceiver, hr]; rfl
  cases e with
  | opened | frame | closed => cases hown
  | stop key =>
    obtain rfl := Option.some.inj h
    simp only [CameraReceiver.stop]
    split
    · exact ⟨List.filter_sublist, r, [_], hr, rfl, Or.inl ⟨rfl, rfl, rfl, Or.inl rfl, by simp⟩⟩
    · exact ⟨List.Sublist.refl _, r, [], hr, (List.append_nil _).symm,
        Or.inl ⟨rfl, rfl, rfl, Or.inl rfl, by simp⟩⟩
  | close key =>
    obtain rfl := Option.some.inj h
    exact ⟨List.filter_sublist, r, [], hr, (List.append_nil _).symm,
      Or.inl ⟨rfl, rfl, rfl, Or.inl rfl, by simp⟩⟩
  | unspawned i =>
    obtain ⟨rfl, h⟩ := eq_of_onReceiver s t r i _ hr h
    obtain ⟨-, rfl⟩ := of_guard h
    exact ⟨List.filter_sublist, _, [], hset _, (List.append_nil _).symm,
      Or.inl (waits_of_over r _ _ rfl rfl rfl trivial)⟩
  | begin i sink decoder =>
    obtain ⟨rfl, h⟩ := eq_of_onReceiver s t r i _ hr h
    obtain ⟨hstarting, rfl⟩ := of_guard h
    simp only [begin]
    split
    · exact ⟨List.filter_sublist, _, [_], hset _, rfl,
        Or.inl (waits_of_over r _ _ rfl rfl rfl trivial)⟩
    · refine ⟨List.Sublist.refl _, _, [_], hset _, rfl, Or.inl ⟨rfl, rfl, rfl, ?_, by simp⟩⟩
      cases decoder with
      | none => exact Or.inr (Or.inl ⟨hstarting, rfl⟩)
      | some e => exact Or.inr (Or.inr trivial)
  | take i inner =>
    obtain ⟨rfl, h⟩ := eq_of_onReceiver s t r i _ hr h
    split at h
    · rename_i waiting f rest hphase hqueue
      obtain rfl := Option.some.inj h
      have htakes := takes_takeFrame r waiting f rest inner hphase hqueue
      simp only [answer]
      split
      · rename_i out hout
        simp only [hout] at htakes
        exact ⟨List.Sublist.refl _, _, [_], hset _, rfl, Or.inr htakes⟩
      · rename_i hout
        simp only [hout] at htakes
        exact ⟨List.Sublist.refl _, _, [], hset _, (List.append_nil _).symm, Or.inr htakes⟩
    · cases h
  | finish i =>
    obtain ⟨rfl, h⟩ := eq_of_onReceiver s t r i _ hr h
    split at h
    · obtain ⟨-, rfl⟩ := of_guard h
      exact ⟨List.Sublist.refl _, _, [], hset _, (List.append_nil _).symm,
        Or.inl (waits_of_over r _ _ rfl rfl rfl trivial)⟩
    · cases h
  | leave i =>
    obtain ⟨rfl, h⟩ := eq_of_onReceiver s t r i _ hr h
    split at h
    · rename_i error hended
      obtain rfl := Option.some.inj h
      cases error with
      | none =>
        exact ⟨List.filter_sublist, _, [], hset _, (List.append_nil _).symm,
          Or.inl (waits_of_over r _ _ rfl rfl rfl trivial)⟩
      | some e =>
        exact ⟨List.filter_sublist, _, [_], hset _, rfl,
          Or.inl (waits_of_over r _ _ rfl rfl rfl trivial)⟩
    · cases h

/-- The dispatcher puts a frame into the queue, or takes the stream out of the table, and only a
full queue or the end of the thread is an overflow. -/
def Delivers (f : MediaFrame) (s t : CameraReceiver.State) (r r' : Receiver) (out : List Out) :
    Prop :=
  (r' = { r with queue := r.queue ++ [f] } ∧ s.streams ≠ [] ∧ t.streams = s.streams ∧ out = []) ∨
    r' = r ∧ t.streams = [] ∧ (s.streams = [] ∧ out = [] ∨
      ∃ reason, out = [.close f.streamId reason] ∧
        (reason = "Camera stream overflow" → maxQueued ≤ r.queue.length ∨ Over r.phase))

theorem follows_onFrame (f : MediaFrame) (hr : s.receivers = [r])
    (hstreams : s.streams.Sublist [⟨key, f.streamId, 0⟩]) :
    Follows s (onFrame s key f) r (Delivers f s (onFrame s key f)) := by
  have hentries : s.streams = [] ∨ s.streams = [⟨key, f.streamId, 0⟩] := by
    simpa [List.sublist_singleton] using hstreams
  rcases hentries with hnone | hone
  · have hsame : onFrame s key f = s := by simp [onFrame, hnone]
    rw [hsame]
    exact ⟨List.Sublist.refl _, r, [], hr, (List.append_nil _).symm,
      Or.inr ⟨rfl, hnone, Or.inl ⟨hnone, rfl⟩⟩⟩
  · have hdrop : (dropKey s key).streams = [] := by simp [dropKey, hone]
    have hdropped (reason : String) (hreason : reason = "Camera stream overflow" →
        maxQueued ≤ r.queue.length ∨ Over r.phase) :
        let u := CameraReceiver.send (dropKey s key) key (.close f.streamId reason)
        Follows s u r (Delivers f s u) :=
      ⟨List.filter_sublist, r, [_], hr, rfl,
        Or.inr ⟨rfl, hdrop, Or.inr ⟨reason, rfl, hreason⟩⟩⟩
    have hfound : (s.streams.find? fun e => decide (e.key = key)) = some ⟨key, f.streamId, 0⟩ := by
      simp [hone]
    simp only [onFrame, hfound, ne_eq, not_true_eq_false, if_false]
    split
    · exact hdropped _ (by simp)
    · cases hsend : trySend r f with
      | some r' =>
        simp only [hr, List.getElem?_cons_zero, Option.bind_some, hsend]
        obtain rfl := trySend_spec r r' f hsend
        exact ⟨List.Sublist.refl _, _, [], rfl, (List.append_nil _).symm,
          Or.inl ⟨rfl, by simp [hone], rfl, rfl⟩⟩
      | none =>
        simp only [hr, List.getElem?_cons_zero, Option.bind_some, hsend]
        refine hdropped _ fun _ => ?_
        by_contra hroom
        obtain ⟨hlength, hover⟩ := not_or.mp hroom
        simp only [trySend, not_le.mp hlength, if_true] at hsend
        split at hsend
        · cases hsend
        · cases hsend
        · rename_i hphase
          exact hover (by rw [hphase]; trivial)
        · rename_i hphase
          exact hover (by rw [hphase]; trivial)

end Receiver

/-- The frame that the receiver takes, when its decoder gets it. -/
def newlyHanded (r r' : Receiver) : List (MediaFrame × Bool) :=
  (r.queue.zip (r'.decoded.drop r.decoded.length)).map fun p => (p.1, p.2.2)

/-- The steps of a stream whose device has the one receiver `r`, which becomes `r'`. -/
inductive Moves (s : State) (r : Receiver) (e : Event) : State → Receiver → Prop
  | rests (sender : SendStream) (attached : Bool) (out : List Message)
      (hid : sender.streamId = s.sender.streamId) (hkept : attached = true → s.attached = true)
      (h : Rests s.sender sender out) :
      Moves s r e { s with sender := sender, attached := attached, wire := s.wire ++ out } r
  | sends (sender : SendStream) (out : List Message) (hid : sender.streamId = s.sender.streamId)
      (h : Sends s.sender sender out) :
      Moves s r e { s with sender := sender, wire := s.wire ++ out } r
  | encodes (packets : List Packet) (he : e = .thread (.encode packets))
      (h : s.sender.stage = .ready) :
      Moves s r e { s with sender := s.sender.encode packets } r
  | delivers (f : MediaFrame) (rest : List Message) (recv : CameraReceiver.State) (r' : Receiver)
      (out : List Out) (hwire : s.wire = .frame f :: rest) (hr : recv.receivers = [r'])
      (hsent : recv.sent.map Prod.snd = s.recv.sent.map Prod.snd ++ out)
      (h : Delivers f s.recv recv r r' out) :
      Moves s r e { s with wire := rest, recv := recv, back := s.back ++ out } r'
  | replies (out : Out) (rest : List Out) (hback : s.back = out :: rest)
      (hattached : s.attached = true) :
      Moves s r e { s with
        back := rest, sender := s.sender.answered out, attached := !isClose out } r
  | ignores (out : Out) (rest : List Out) (hback : s.back = out :: rest)
      (hattached : s.attached = false) : Moves s r e { s with back := rest } r
  | waits (wire : List Message) (recv : CameraReceiver.State) (r' : Receiver) (out : List Out)
      (hwire : wire.filterMap frameOf = s.wire.filterMap frameOf) (hr : recv.receivers = [r'])
      (hsent : recv.sent.map Prod.snd = s.recv.sent.map Prod.snd ++ out)
      (hstreams : recv.streams.Sublist s.recv.streams) (h : Waits r r' out) :
      Moves s r e { s with wire := wire, recv := recv, back := s.back ++ out } r'
  | takes (recv : CameraReceiver.State) (r' : Receiver) (out : List Out)
      (hr : recv.receivers = [r'])
      (hsent : recv.sent.map Prod.snd = s.recv.sent.map Prod.snd ++ out)
      (hstreams : recv.streams.Sublist s.recv.streams) (h : Takes r r' out) :
      Moves s r e { s with
        recv := recv, back := s.back ++ out, handed := s.handed ++ newlyHanded r r' } r'

/-- The device has one receiver, and its table at most the entry of the stream. -/
structure Shape (key : Key) (s : State) (r : Receiver) : Prop where
  receivers : s.recv.receivers = [r]
  streams : s.recv.streams.Sublist [⟨key, s.sender.streamId, 0⟩]
  ids : ∀ f ∈ s.wire.filterMap frameOf, f.streamId = s.sender.streamId

variable (key : Key) (s t : State) (r r' : Receiver) (e : Event) (n : ℕ)

theorem handedBy_eq (recv : CameraReceiver.State) (hr : s.recv.receivers = [r])
    (hr' : recv.receivers = [r']) : handedBy s.recv recv = newlyHanded r r' := by
  simp [handedBy, newlyHanded, hr, hr']

theorem newlyHanded_of_decoded (h : r'.decoded = r.decoded) : newlyHanded r r' = [] := by
  simp [newlyHanded, h]

theorem receive_eq (recv : CameraReceiver.State) (sent : List (Key × Out))
    (hr : s.recv.receivers = [r]) (hr' : recv.receivers = [r'])
    (hsent : recv.sent = s.recv.sent ++ sent) :
    receive s recv = { s with
      recv := recv
      back := s.back ++ sent.map Prod.snd
      handed := s.handed ++ newlyHanded r r' } := by
  simp only [receive, handedBy_eq s r r' recv hr hr', hsent, List.drop_left]

theorem moves_of_step (hshape : Shape key s r) (h : step key s e = some t) :
    ∃ r', Moves s r e t r' := by
  cases e with
  | thread work =>
    obtain ⟨⟨sender, out⟩, hrun, rfl⟩ := Option.map_eq_some_iff.mp h
    obtain ⟨hid, hrests | hsends | ⟨packets, rfl, hready, rfl, rfl⟩⟩ := runSend_cases _ _ _ _ hrun
    · exact ⟨r, .rests sender _ out hid id hrests⟩
    · exact ⟨r, .sends sender out hid hsends⟩
    · refine ⟨r, ?_⟩
      simp only [List.append_nil]
      exact .encodes packets rfl hready
  | drop =>
    obtain ⟨-, rfl⟩ := of_guard h
    refine ⟨r, ?_⟩
    have hmoves (out : List Message) (hout : out.filterMap frameOf = []) : Moves s r .drop _ r :=
      .rests { s.sender with stop := true } false out rfl (by simp)
        ⟨hout, rfl, rfl, rfl, rfl, rfl, Or.inl⟩
    split_ifs
    · have hquiet := hmoves [] rfl
      rwa [List.append_nil] at hquiet
    · exact hmoves [.close] rfl
  | deliver =>
    simp only [step] at h
    split at h
    · cases h
    · rename_i f rest hwire
      obtain rfl := Option.some.inj h
      have hid : f.streamId = s.sender.streamId := hshape.ids f (by simp [hwire, frameOf])
      obtain ⟨-, r', sent, hr', hsent, hdelivers⟩ := follows_onFrame key s.recv r f
        hshape.receivers (hid ▸ hshape.streams)
      refine ⟨r', ?_⟩
      rw [receive_eq { s with wire := rest } r r' _ sent hshape.receivers hr' hsent]
      have hdecoded : r'.decoded = r.decoded := by
        rcases hdelivers with ⟨rfl, -⟩ | ⟨rfl, -⟩ <;> rfl
      rw [newlyHanded_of_decoded r r' hdecoded, List.append_nil]
      exact .delivers f rest _ r' _ hwire hr' (by rw [hsent, List.map_append]) hdelivers
    · rename_i rest hwire
      obtain rfl := Option.some.inj h
      refine ⟨r, ?_⟩
      rw [receive_eq { s with wire := rest } r r (removeStream s.recv key s.sender.streamId) []
        hshape.receivers hshape.receivers (List.append_nil _).symm, newlyHanded_of_decoded r r rfl,
        List.append_nil]
      exact .waits rest _ r _ (by rw [hwire]; rfl) hshape.receivers (List.append_nil _).symm
        List.filter_sublist ⟨rfl, rfl, rfl, Or.inl rfl, by simp⟩
  | reply =>
    simp only [step] at h
    split at h
    · cases h
    · rename_i out rest hback
      split at h
      · rename_i hattached
        obtain rfl := Option.some.inj h
        exact ⟨r, .replies out rest hback hattached⟩
      · rename_i hattached
        obtain rfl := Option.some.inj h
        exact ⟨r, .ignores out rest hback (Bool.eq_false_iff.mpr hattached)⟩
  | receiver e =>
    obtain ⟨hown, h⟩ := Option.ite_none_right_eq_some.mp h
    obtain ⟨recv, hrecv, rfl⟩ := Option.map_eq_some_iff.mp h
    obtain ⟨hstreams, r', sent, hr', hsent, hcases⟩ :=
      follows_unprompted s.recv recv r e hown hshape.receivers hrecv
    refine ⟨r', ?_⟩
    rw [receive_eq s r r' recv sent hshape.receivers hr' hsent]
    rcases hcases with hwaits | htakes
    · rw [newlyHanded_of_decoded r r' hwaits.decoded, List.append_nil]
      exact .waits s.wire recv r' _ rfl hr' (by rw [hsent, List.map_append]) hstreams hwaits
    · exact .takes recv r' _ hr' (by rw [hsent, List.map_append]) hstreams htakes

theorem shape_start (streamId : Int) (size : ℕ × ℕ) :
    Shape key (start key streamId size) ⟨key, streamId, size, [], .starting, 0, []⟩ :=
  ⟨rfl, List.Sublist.refl _, by simp [start]⟩

@[simp] theorem streamId_answered (self : SendStream) (out : Out) :
    (self.answered out).streamId = self.streamId := by
  cases out with
  | opened streamId success message sink => cases success <;> rfl
  | ack | close => rfl

theorem shape_moves (hshape : Shape key s r) (h : Moves s r e t r') : Shape key t r' := by
  obtain ⟨hr, hstreams, hids⟩ := hshape
  have hkeep (out : List Message) (hout : ∀ f ∈ out.filterMap frameOf,
      f.streamId = s.sender.streamId) (f : MediaFrame)
      (hf : f ∈ (s.wire ++ out).filterMap frameOf) : f.streamId = s.sender.streamId := by
    rw [List.filterMap_append] at hf
    exact (List.mem_append.mp hf).elim (hids f) (hout f)
  cases h with
  | rests sender attached out hid hkept h =>
    refine ⟨hr, hid ▸ hstreams, fun f hf => hid ▸ hkeep out ?_ f hf⟩
    simp [h.frames]
  | sends sender out hid h =>
    obtain ⟨data, flag, rest, -, -, rfl⟩ := h
    exact ⟨hr, hid ▸ hstreams, fun f hf => hid ▸ hkeep _ (by simp [frameOf]) f hf⟩
  | encodes => exact ⟨hr, hstreams, hids⟩
  | delivers f rest recv r' out hwire hr' hsent h =>
    refine ⟨hr', ?_, fun f hf => hids f ?_⟩
    · rcases h with ⟨-, -, hsame, -⟩ | ⟨-, hnone, -⟩
      · exact hsame ▸ hstreams
      · exact hnone ▸ List.nil_sublist _
    · rw [hwire]
      exact List.mem_cons_of_mem _ hf
  | replies out rest => exact ⟨hr, by simpa using hstreams, by simpa using hids⟩
  | ignores => exact ⟨hr, hstreams, hids⟩
  | waits wire recv r' out hwire hr' hsent hsub =>
    exact ⟨hr', hsub.trans hstreams, fun f hf => hids f (hwire ▸ hf)⟩
  | takes recv r' out hr' hsent hsub => exact ⟨hr', hsub.trans hstreams, hids⟩

/-- What every move keeps holds in every run. -/
theorem invariant_of_moves (P : State → Receiver → Prop) (guard : State → Event → Prop)
    (streamId : Int) (size : ℕ × ℕ) (es : List Event)
    (hstart : P (start key streamId size) ⟨key, streamId, size, [], .starting, 0, []⟩)
    (hmoves : ∀ s r e t r', guard s e → Shape key s r → P s r → Moves s r e t r' → P t r')
    (hmeets : Meets guard (step key) (start key streamId size) es)
    (h : exec (step key) (start key streamId size) es = some s) : ∃ r, Shape key s r ∧ P s r := by
  refine invariant_of_meets guard (step key) (fun s => ∃ r, Shape key s r ∧ P s r) ?_ _ _ es
    ⟨_, shape_start key streamId size, hstart⟩ hmeets h
  rintro s e t hguard ⟨r, hshape, hP⟩ hstep
  obtain ⟨r', hmove⟩ := moves_of_step key s t r e hshape hstep
  exact ⟨r', shape_moves key s t r r' e hshape hmove,
    hmoves s r e t r' hguard hshape hP hmove⟩

/-! ### The credit of the sender -/

/-- The numbers of the frames on their way, of those in the queue, and of the acknowledgements on
their way back; the oldest frame first. -/
def outstanding (s : State) : List Int :=
  s.back.filterMap ackOf ++
    (s.recv.receivers.flatMap Receiver.queue ++ s.wire.filterMap frameOf).map MediaFrame.pts

def Overflowed (s : State) : Prop :=
  ∃ id, .close id "Camera stream overflow" ∈ s.recv.sent.map Prod.snd

structure Counted (n : ℕ) (s : State) (r : Receiver) : Prop where
  ordered : (s.sender.acked :: outstanding s).Pairwise (· < ·)
  upto : ∀ p ∈ s.sender.acked :: outstanding s, p ≤ s.sender.seq
  credit : s.sender.seq + (unsent s.sender.stage).length ≤ s.sender.acked + (2 + n)
  ready : s.sender.stage = .ready → s.sender.seq ≤ s.sender.acked + 2
  overflow : 2 + n ≤ maxQueued → Overflowed s → Over r.phase

def encoded : Event → List Packet
  | .thread (.encode packets) => packets
  | _ => []

/-- The encoder gives at most `n` packets for a frame. -/
def FewPackets (n : ℕ) (e : Event) : Prop := (encoded e).length ≤ n

instance decidableFewPackets (n : ℕ) (e : Event) : Decidable (FewPackets n e) :=
  inferInstanceAs (Decidable (_ ≤ n))

theorem length_le (a b : Int) (l : List Int) (hordered : (a :: l).Pairwise (· < ·))
    (hupto : ∀ p ∈ a :: l, p ≤ b) : a + l.length ≤ b := by
  induction l generalizing a with
  | nil => simpa using hupto
  | cons x l ih =>
    obtain ⟨hfirst, hrest⟩ := List.pairwise_cons.mp hordered
    have hlast := ih x hrest fun p hp => hupto p (List.mem_cons_of_mem _ hp)
    have hstep := hfirst x (List.mem_cons_self ..)
    rw [List.length_cons]
    omega

variable {n s t r r' e}

theorem Counted.length_le (h : Counted n s r) : (outstanding s).length ≤ 2 + n := by
  have hspan := CameraStream.length_le _ _ _ h.ordered h.upto
  have hcredit := h.credit
  omega

/-- Nothing new is on its way, and the sender does not go to the encoder. -/
theorem Counted.of_sublist (h : Counted n s r)
    (hsub : (t.sender.acked :: outstanding t).Sublist (s.sender.acked :: outstanding s))
    (hacked : s.sender.acked ≤ t.sender.acked) (hseq : t.sender.seq = s.sender.seq)
    (hstage : t.sender.stage = s.sender.stage)
    (hover : 2 + n ≤ maxQueued → Overflowed t → Over r'.phase) : Counted n t r' := by
  have hcredit := h.credit
  refine ⟨h.ordered.sublist hsub, fun p hp => hseq ▸ h.upto p (hsub.subset hp), ?_, ?_, hover⟩
  · rw [hseq, hstage]
    omega
  · intro hready
    have hle := h.ready (hstage ▸ hready)
    omega

theorem outstanding_eq (hr : s.recv.receivers = [r]) : outstanding s = s.back.filterMap ackOf ++
    (r.queue ++ s.wire.filterMap frameOf).map MediaFrame.pts := by
  simp [outstanding, hr]

theorem counted_moves (hfew : FewPackets n e) (hr : s.recv.receivers = [r]) (h : Counted n s r)
    (hmove : Moves s r e t r') : Counted n t r' := by
  have hout := outstanding_eq hr
  have hcredit := h.credit
  cases hmove with
  | rests sender attached out hid hkept hrests =>
    have hsame : outstanding { s with
        sender := sender, attached := attached, wire := s.wire ++ out } = outstanding s := by
      simp [outstanding, hrests.frames]
    refine ⟨?_, ?_, ?_, ?_, h.overflow⟩
    · rw [hsame, hrests.acked]
      exact h.ordered
    · rw [hsame, hrests.acked, hrests.seq]
      exact h.upto
    · rw [hrests.seq, hrests.acked, hrests.unsent]
      exact hcredit
    · intro hready
      rw [hrests.seq, hrests.acked]
      rcases hrests.credit hready with hbefore | hlt
      · exact h.ready hbefore
      · rw [MAX_IN_FLIGHT] at hlt
        omega
  | sends sender out hid hsends =>
    obtain ⟨data, flag, rest, hunsent, rfl, rfl⟩ := hsends
    have hmore : outstanding { s with
        sender := { s.sender with stage := .packets rest, seq := s.sender.seq + 1 }
        wire := s.wire ++ [.frame ⟨s.sender.streamId, data, flag, s.sender.seq + 1⟩] } =
        outstanding s ++ [s.sender.seq + 1] := by
      simp [outstanding, frameOf]
    refine ⟨?_, ?_, ?_, fun hready => absurd hready (by simp), h.overflow⟩
    · rw [hmore, ← List.cons_append, List.pairwise_append]
      refine ⟨h.ordered, List.pairwise_singleton _ _, fun p hp q hq => ?_⟩
      have hle := h.upto p hp
      rw [List.mem_singleton.mp hq]
      omega
    · intro p hp
      rw [hmore, ← List.cons_append, List.mem_append, List.mem_singleton] at hp
      rcases hp with hp | rfl
      · have hle := h.upto p hp
        change p ≤ s.sender.seq + 1
        omega
      · exact le_refl _
    · rw [hunsent, List.length_cons] at hcredit
      change s.sender.seq + 1 + rest.length ≤ s.sender.acked + (2 + n)
      omega
  | encodes packets he hready =>
    subst he
    have hle := h.ready hready
    have hlength : packets.length ≤ n := hfew
    refine ⟨h.ordered, h.upto, ?_, by simp [SendStream.encode], h.overflow⟩
    change s.sender.seq + packets.length ≤ s.sender.acked + (2 + n)
    omega
  | delivers f rest recv r' out hwire hr' hsent hdelivers =>
    have hlength := h.length_le
    rw [hout, hwire] at hlength
    simp only [List.length_append, List.length_map, List.filterMap_cons, frameOf,
      List.length_cons] at hlength
    rcases hdelivers with ⟨rfl, -, -, rfl⟩ | ⟨rfl, -, hanswer⟩
    · refine h.of_sublist ?_ le_rfl rfl rfl ?_
      · simp [outstanding, hr, hr', hwire, frameOf]
      · rw [Overflowed, hsent, List.append_nil]
        exact h.overflow
    · have hquiet : out.filterMap ackOf = [] := by
        rcases hanswer with ⟨-, rfl⟩ | ⟨reason, rfl, -⟩ <;> rfl
      refine h.of_sublist ?_ le_rfl rfl rfl fun hn hover => ?_
      · rw [outstanding_eq hr', hout, hwire, List.filterMap_append, hquiet, List.append_nil]
        exact ((((List.sublist_cons_self _ _).append_left _).map _).append_left _).cons_cons _
      · obtain ⟨id, hmem⟩ := hover
        rw [hsent, List.mem_append] at hmem
        rcases hmem with hbefore | hnow
        · exact h.overflow hn ⟨id, hbefore⟩
        · rcases hanswer with ⟨-, rfl⟩ | ⟨reason, rfl, hreason⟩
          · cases hnow
          · rw [List.mem_singleton, Out.close.injEq] at hnow
            refine (hreason hnow.2.symm).resolve_left ?_
            omega
  | replies out rest hback hattached =>
    cases out with
    | opened id success message sink =>
      have hsender : (s.sender.answered (.opened id success message sink)).acked = s.sender.acked ∧
          (s.sender.answered (.opened id success message sink)).seq = s.sender.seq ∧
          (s.sender.answered (.opened id success message sink)).stage = s.sender.stage := by
        cases success <;> exact ⟨rfl, rfl, rfl⟩
      refine h.of_sublist ?_ hsender.1.ge hsender.2.1 hsender.2.2 h.overflow
      rw [outstanding, outstanding, hback, hsender.1]
      exact List.Sublist.refl _
    | close id message =>
      refine h.of_sublist ?_ le_rfl rfl rfl h.overflow
      rw [outstanding, outstanding, hback]
      exact List.Sublist.refl _
    | ack id pts again =>
      have hlt : s.sender.acked < pts :=
        (List.pairwise_cons.mp h.ordered).1 pts (by simp [hout, hback, ackOf])
      have hmax : max s.sender.acked pts = pts := max_eq_right hlt.le
      refine h.of_sublist ?_ (le_max_left _ _) rfl rfl h.overflow
      change (max s.sender.acked pts :: outstanding { s with back := rest }).Sublist _
      rw [hout, hback, hmax, outstanding_eq (s := { s with back := rest }) hr]
      exact List.sublist_cons_self _ _
  | ignores out rest hback =>
    refine h.of_sublist ?_ le_rfl rfl rfl h.overflow
    refine List.Sublist.cons_cons _ ?_
    rw [outstanding, outstanding, hback, List.filterMap_cons]
    refine List.Sublist.append ?_ (List.Sublist.refl _)
    split
    · exact List.Sublist.refl _
    · exact List.sublist_cons_self _ _
  | waits wire recv r' out hwire hr' hsent hsub hwaits =>
    refine h.of_sublist ?_ le_rfl rfl rfl fun hn hover => ?_
    · rw [outstanding_eq hr', hout, hwaits.queue, hwire, List.filterMap_append, hwaits.answers,
        List.append_nil]
    · obtain ⟨id, hmem⟩ := hover
      rw [hsent, List.mem_append] at hmem
      rcases hmem with hbefore | hnow
      · have hover := h.overflow hn ⟨id, hbefore⟩
        rcases hwaits.phase with hsame | ⟨hstarting, -⟩ | hover'
        · rwa [hsame]
        · rw [hstarting] at hover
          exact hover.elim
        · exact hover'
      · exact hwaits.overflow ⟨id, hnow⟩
  | takes recv r' out hr' hsent hsub htakes =>
    obtain ⟨waiting, f, hphase, hqueue, -, hanswer⟩ := htakes
    refine h.of_sublist ?_ le_rfl rfl rfl fun hn hover => ?_
    · rw [outstanding_eq hr', hout, hqueue, List.filterMap_append]
      rcases hanswer with ⟨rfl, -⟩ | ⟨again, rfl, -⟩
      · simp only [List.filterMap_nil, List.append_nil, List.cons_append]
        exact (((List.sublist_cons_self _ _).map _).append_left _).cons_cons _
      · simp [ackOf]
    · obtain ⟨id, hmem⟩ := hover
      rw [hsent, List.mem_append] at hmem
      rcases hmem with hbefore | hnow
      · have hover := h.overflow hn ⟨id, hbefore⟩
        rw [hphase] at hover
        exact hover.elim
      · rcases hanswer with ⟨rfl, -⟩ | ⟨again, rfl, -⟩
        · cases hnow
        · simp at hnow

/-- In every run in which the encoder gives at most `n` packets for a frame, at most `2 + n` frames
are unanswered, each once. While these fit into the queue of the receiver, the sender is thrown out
for an overflow only when the thread of the receiver has ended. -/
theorem credit_kept (key : Key) (streamId : Int) (size : ℕ × ℕ) (n : ℕ) (es : List Event)
    (s : State) (hfew : ∀ e ∈ es, FewPackets n e)
    (h : exec (step key) (start key streamId size) es = some s) :
    (outstanding s).Pairwise (· < ·) ∧ (outstanding s).length ≤ 2 + n ∧
      (∀ p ∈ outstanding s, s.sender.acked < p ∧ p ≤ s.sender.seq) ∧
      (2 + n ≤ maxQueued → Overflowed s → ∀ r ∈ s.recv.receivers, Over r.phase) := by
  have hmeets := meets_of_forall (FewPackets n) (step key) (start key streamId size) es hfew
  obtain ⟨r, hshape, hcounted⟩ := invariant_of_moves key s (Counted n) (fun _ => FewPackets n)
    streamId size es ⟨by simp [outstanding, start], by simp [outstanding, start],
      by simp [start, unsent]; omega, by simp [start], by simp [Overflowed, start]⟩
    (fun s r e t r' hguard hshape hP hmove => counted_moves hguard hshape.receivers hP hmove)
    hmeets h
  obtain ⟨hfirst, hordered⟩ := List.pairwise_cons.mp hcounted.ordered
  refine ⟨hordered, hcounted.length_le,
    fun p hp => ⟨hfirst p hp, hcounted.upto p (List.mem_cons_of_mem _ hp)⟩, ?_⟩
  intro hn hover r' hr'
  rw [hshape.receivers, List.mem_singleton] at hr'
  exact hr' ▸ hcounted.overflow hn hover

def encodeAndSend (data : Bytes) (flag : Bool) : List Event :=
  [.thread .take, .thread .credit, .thread (.encode [(data, flag)]), .thread .send, .thread .send,
    .deliver]

/-- A key frame and a frame after it, of which the decoder says `inner`. -/
def sampleRun (inner : Except String (List Image)) : List Event :=
  [.receiver (.begin 0 (.ok "camera") none), .reply, .thread .answered] ++
    encodeAndSend honestFrame true ++ [.receiver (.take 0 (.ok []))] ++ encodeAndSend [1] false ++
    [.receiver (.take 0 inner)]

def sampleStart : State := start (.host 7) 1 (640, 480)

theorem credit_kept_sample : ∃ s,
    exec (step (.host 7)) sampleStart (sampleRun (.ok [])) = some s ∧ outstanding s = [1, 2] ∧
      ∀ p ∈ outstanding s, s.sender.acked < p ∧ p ≤ s.sender.seq := by
  obtain ⟨s, hrun, hout⟩ := Option.map_eq_some_iff.mp
    (show (exec (step (.host 7)) sampleStart (sampleRun (.ok []))).map outstanding = some [1, 2] by
      decide)
  exact ⟨s, hrun, hout, (credit_kept (.host 7) 1 (640, 480) 1 (sampleRun (.ok [])) s
    (by decide) hrun).2.2.1⟩

/-! ### The frames of the decoder -/

/-- The numbers after `a`, one after the other. -/
def Consecutive : Int → List Int → Prop
  | _, [] => True
  | a, p :: rest => p = a + 1 ∧ Consecutive (a + 1) rest

theorem consecutive_append (a : Int) (l m : List Int) :
    Consecutive a (l ++ m) ↔ Consecutive a l ∧ Consecutive (a + l.length) m := by
  induction l generalizing a with
  | nil => simp [Consecutive]
  | cons p l ih =>
    have hsum : a + 1 + l.length = a + (p :: l).length := by rw [List.length_cons]; omega
    rw [List.cons_append, Consecutive, Consecutive, ih, hsum, and_assoc]

/-- A frame that is no key frame follows the one that the decoder took last. -/
def Refers (before : List (MediaFrame × Bool)) (x : MediaFrame × Bool) : Prop :=
  x.1.key = false → ∃ g, before.getLast? = some (g, true) ∧ x.1.pts = g.pts + 1

def pending (s : State) : List Int := (s.wire.filterMap frameOf).map MediaFrame.pts

/-- `last` is the number of the frame that the thread of the receiver took last. -/
structure Linked (s : State) (r : Receiver) (last : Int) : Prop where
  refers : Always Refers s.handed
  taken : r.phase = .active false → ∃ g, s.handed.getLast? = some (g, true) ∧ g.pts = last
  queue : Consecutive last (r.queue.map MediaFrame.pts)
  wire : s.recv.streams ≠ [] → Consecutive (last + r.queue.length) (pending s) ∧
    last + r.queue.length + (pending s).length = s.sender.seq
  back : s.attached = true → ¬Over r.phase → Consecutive s.sender.acked (s.back.filterMap ackOf) ∧
    s.sender.acked + (s.back.filterMap ackOf).length = last

variable {last : Int}

theorem linked_takes (recv : CameraReceiver.State) (out : List Out) (h : Linked s r last)
    (hsub : recv.streams.Sublist s.recv.streams) (htakes : Takes r r' out) :
    Linked { s with
      recv := recv
      back := s.back ++ out
      handed := s.handed ++ newlyHanded r r' } r' (last + 1) := by
  obtain ⟨waiting, f, hphase, hqueue, hdecoded, hanswer⟩ := htakes
  obtain ⟨hrefers, htaken, hconsecutive, hwire, hback⟩ := h
  rw [hqueue] at hconsecutive hwire
  obtain ⟨hpts, hrest⟩ := hconsecutive
  have hnew : newlyHanded r r' = [] ∧ r'.phase ≠ .active false ∨ ∃ ok,
      newlyHanded r r' = [(f, ok)] ∧ (r'.phase = .active false → ok = true) ∧
        (waiting = true → f.key = true) := by
    rcases hdecoded with ⟨hsame, hne⟩ | ⟨ok, hgrown, hok⟩
    · exact Or.inl ⟨newlyHanded_of_decoded r r' hsame, hne⟩
    · exact Or.inr ⟨ok, by simp [newlyHanded, hqueue, hgrown], hok⟩
  refine ⟨?_, ?_, hrest, ?_, ?_⟩
  · rcases hnew with ⟨hnone, -⟩ | ⟨ok, hone, -, hkey⟩
    · simpa [hnone] using hrefers
    · rw [hone]
      refine always_concat _ _ _ hrefers fun hplain => ?_
      have hnot : waiting = false := by
        by_contra hwaiting
        rw [hkey (Bool.not_eq_false _ ▸ hwaiting)] at hplain
        cases hplain
      obtain ⟨g, hlast, hg⟩ := htaken (hnot ▸ hphase)
      exact ⟨g, hlast, by rw [hg, hpts]⟩
  · intro hactive
    rcases hnew with ⟨-, hne⟩ | ⟨ok, hone, hok, -⟩
    · exact absurd hactive hne
    · exact ⟨f, by simp [hone, hok hactive], hpts⟩
  · intro hstreams
    obtain ⟨hfollow, hend⟩ := hwire fun hnone => hstreams (List.sublist_nil.mp (hnone ▸ hsub))
    have hlength : last + ((f :: r'.queue).length : Int) = last + 1 + r'.queue.length := by
      rw [List.length_cons]
      omega
    rw [hlength] at hfollow hend
    exact ⟨hfollow, hend⟩
  · intro hattached hover
    rcases hanswer with ⟨-, hgone⟩ | ⟨again, rfl, -⟩
    · exact absurd hgone hover
    · obtain ⟨hacks, hcount⟩ := hback hattached (by rw [hphase]; exact id)
      rw [List.filterMap_append, consecutive_append, List.length_append]
      refine ⟨⟨hacks, by rw [hcount, hpts], trivial⟩, ?_⟩
      change s.sender.acked + ((s.back.filterMap ackOf).length + 1 : ℕ) = last + 1
      omega

theorem linked_moves (hr : s.recv.receivers = [r]) (h : Linked s r last)
    (hmove : Moves s r e t r') : ∃ last', Linked t r' last' := by
  cases hmove with
  | rests sender attached out hid hkept hrests =>
    refine ⟨last, h.refers, h.taken, h.queue, fun hstreams => ?_, fun hattached => ?_⟩
    · rw [pending, List.filterMap_append, hrests.frames, List.append_nil, hrests.seq]
      exact h.wire hstreams
    · exact hrests.acked.symm ▸ h.back (hkept hattached)
  | sends sender out hid hsends =>
    obtain ⟨data, flag, rest, -, rfl, rfl⟩ := hsends
    refine ⟨last, h.refers, h.taken, h.queue, fun hstreams => ?_, h.back⟩
    obtain ⟨hfollow, hend⟩ := h.wire hstreams
    rw [pending, List.filterMap_append, List.map_append, ← pending, consecutive_append,
      List.length_append]
    refine ⟨⟨hfollow, by rw [hend], trivial⟩, ?_⟩
    change last + r.queue.length + ((pending s).length + 1 : ℕ) = s.sender.seq + 1
    omega
  | encodes packets => exact ⟨last, h.refers, h.taken, h.queue, h.wire, h.back⟩
  | delivers f rest recv r' out hwire hr' hsent hdelivers =>
    have hpending : pending s = f.pts :: (rest.filterMap frameOf).map MediaFrame.pts := by
      rw [pending, hwire]
      rfl
    rcases hdelivers with ⟨rfl, hsome, -, rfl⟩ | ⟨rfl, hnone, hanswer⟩
    · obtain ⟨⟨hpts, hfollow⟩, hend⟩ := hpending ▸ h.wire hsome
      have hlength : last + ((r.queue ++ [f]).length : Int) = last + r.queue.length + 1 := by
        rw [List.length_append, List.length_singleton]
        omega
      refine ⟨last, h.refers, h.taken, ?_, fun _ => ?_, by simpa using h.back⟩
      · rw [List.map_append, consecutive_append, List.length_map]
        exact ⟨h.queue, hpts, trivial⟩
      · rw [hlength]
        refine ⟨hfollow, ?_⟩
        rw [List.length_cons] at hend
        change last + r.queue.length + 1 + ((rest.filterMap frameOf).map MediaFrame.pts).length =
          s.sender.seq
        omega
    · have hquiet : out.filterMap ackOf = [] := by
        rcases hanswer with ⟨-, rfl⟩ | ⟨reason, rfl, -⟩ <;> rfl
      refine ⟨last, h.refers, h.taken, h.queue, fun hsome => absurd hnone hsome, ?_⟩
      rw [List.filterMap_append, hquiet, List.append_nil]
      exact h.back
  | replies out rest hback hattached =>
    have hbefore := h.back hattached
    rw [hback] at hbefore
    cases out with
    | opened id success message sink =>
      cases success <;> exact ⟨last, h.refers, h.taken, h.queue, h.wire, fun _ => hbefore⟩
    | close id message =>
      exact ⟨last, h.refers, h.taken, h.queue, h.wire, fun hattached => by cases hattached⟩
    | ack id pts again =>
      refine ⟨last, h.refers, h.taken, h.queue, h.wire, fun _ hover => ?_⟩
      obtain ⟨⟨hpts, hrest⟩, hcount⟩ := hbefore hover
      have hmax : max s.sender.acked pts = s.sender.acked + 1 := by rw [hpts, max_eq_right]; omega
      change Consecutive (max s.sender.acked pts) (rest.filterMap ackOf) ∧
        max s.sender.acked pts + (rest.filterMap ackOf).length = last
      rw [hmax]
      refine ⟨hrest, ?_⟩
      simp only [List.filterMap_cons, ackOf, List.length_cons] at hcount
      omega
  | ignores out rest hback hattached =>
    exact ⟨last, h.refers, h.taken, h.queue, h.wire, fun hyes => by simp [hattached] at hyes⟩
  | waits wire recv r' out hwire hr' hsent hsub hwaits =>
    refine ⟨last, h.refers, fun hactive => ?_, ?_, fun hsome => ?_, fun hattached hover => ?_⟩
    · rcases hwaits.phase with hsame | ⟨-, hwaiting⟩ | hover
      · exact h.taken (hsame ▸ hactive)
      · rw [hwaiting] at hactive
        cases hactive
      · rw [hactive] at hover
        exact hover.elim
    · exact hwaits.queue ▸ h.queue
    · rw [pending, hwire, hwaits.queue]
      exact h.wire fun hnone => hsome (List.sublist_nil.mp (hnone ▸ hsub))
    · rw [List.filterMap_append, hwaits.answers, List.append_nil]
      refine h.back hattached fun hbefore => ?_
      rcases hwaits.phase with hsame | ⟨hstarting, -⟩ | hnow
      · exact hover (hsame ▸ hbefore)
      · rw [hstarting] at hbefore
        exact hbefore
      · exact hover hnow
  | takes recv r' out hr' hsent hsub htakes => exact ⟨last + 1, linked_takes recv out h hsub htakes⟩

/-- The decoder gets a frame that is no key frame only right after the frame before it, which it
took. While both ends keep the stream and the thread of the receiver goes on, the unanswered frames
are exactly those sent after the last acknowledged one. -/
theorem frames_follow (key : Key) (streamId : Int) (size : ℕ × ℕ) (es : List Event) (s : State)
    (h : exec (step key) (start key streamId size) es = some s) :
    Always Refers s.handed ∧
      (s.attached = true → s.recv.streams ≠ [] → (∀ r ∈ s.recv.receivers, ¬Over r.phase) →
        Consecutive s.sender.acked (outstanding s) ∧
          s.sender.acked + (outstanding s).length = s.sender.seq) := by
  have hmeets := meets_of_forall (fun _ => True) (step key) (start key streamId size) es
    fun _ _ => trivial
  obtain ⟨r, hshape, last, hlinked⟩ := invariant_of_moves key s (fun s r => ∃ last, Linked s r last)
    (fun _ _ => True) streamId size es
    ⟨0, always_nil _, by simp, trivial, fun _ => ⟨trivial, rfl⟩, fun _ _ => ⟨trivial, rfl⟩⟩
    (fun s r e t r' _ hshape ⟨last, hP⟩ hmove => linked_moves hshape.receivers hP hmove) hmeets h
  refine ⟨hlinked.refers, fun hattached hstreams hrunning => ?_⟩
  obtain ⟨hfollow, hend⟩ := hlinked.wire hstreams
  obtain ⟨hacks, hcount⟩ := hlinked.back hattached
    (hrunning r (by rw [hshape.receivers]; exact List.mem_singleton_self r))
  rw [outstanding_eq hshape.receivers, List.map_append, consecutive_append, consecutive_append,
    hcount, List.length_map]
  refine ⟨⟨hacks, hlinked.queue, hfollow⟩, ?_⟩
  simp only [List.length_append, List.length_map, pending] at hend ⊢
  omega

theorem frames_follow_sample : ∃ s,
    exec (step (.host 7)) sampleStart (sampleRun (.ok [])) = some s ∧
      s.handed.map (fun x => (x.1.key, x.1.pts, x.2)) = [(true, 1, true), (false, 2, true)] ∧
      Always Refers s.handed := by
  obtain ⟨s, hrun, hhanded⟩ := Option.map_eq_some_iff.mp
    (show (exec (step (.host 7)) sampleStart (sampleRun (.ok []))).map (fun s =>
      s.handed.map fun x => (x.1.key, x.1.pts, x.2)) =
        some [(true, 1, true), (false, 2, true)] by decide)
  exact ⟨s, hrun, hhanded, (frames_follow (.host 7) 1 (640, 480) (sampleRun (.ok [])) s hrun).1⟩

/-! ### The requests for a key frame -/

def asks : Out → Bool
  | .ack _ _ again => again
  | _ => false

/-- A key frame is on its way, or will be: it is asked for, or the encoder starts with one. -/
def KeyframeComing (s : State) : Prop :=
  (∃ f ∈ s.recv.receivers.flatMap Receiver.queue ++ s.wire.filterMap frameOf, f.key = true) ∨
    (∃ p ∈ unsent s.sender.stage, p.2 = true) ∨ (∃ out ∈ s.back, asks out = true) ∨
    s.sender.keyframe = true ∨ s.sender.fresh = true

/-- A new encoder starts with a key frame. -/
def KeyFirst (s : State) (e : Event) : Prop :=
  ∀ p ∈ (encoded e).head?, (s.sender.keyframe || s.sender.fresh) = true → p.2 = true

instance decidableKeyFirst (s : State) (e : Event) : Decidable (KeyFirst s e) :=
  inferInstanceAs (Decidable (∀ p ∈ (encoded e).head?, _))

def Waiting (s : State) (r : Receiver) : Prop :=
  s.attached = true → s.recv.streams ≠ [] → r.phase = .starting ∨ r.phase = .active true →
    KeyframeComing s

theorem waiting_moves (hfirst : KeyFirst s e) (hr : s.recv.receivers = [r]) (h : Waiting s r)
    (hmove : Moves s r e t r') : Waiting t r' := by
  intro hattached hstreams hphase
  cases hmove with
  | rests sender attached out hid hkept hrests =>
    have hcoming := h (hkept hattached) hstreams hphase
    simp only [KeyframeComing, hrests.unsent, hrests.keyframe, hrests.fresh,
      List.filterMap_append, hrests.frames, List.append_nil] at hcoming ⊢
    exact hcoming
  | sends sender out hid hsends =>
    obtain ⟨data, flag, rest, hunsent, rfl, rfl⟩ := hsends
    rcases h hattached hstreams hphase with ⟨f, hf, hkey⟩ | ⟨p, hp, hkey⟩ | hrest
    · refine Or.inl ⟨f, ?_, hkey⟩
      rw [List.filterMap_append, ← List.append_assoc]
      exact List.mem_append_left _ hf
    · rw [hunsent] at hp
      rcases List.mem_cons.mp hp with rfl | hp
      · exact Or.inl ⟨⟨s.sender.streamId, data, flag, s.sender.seq + 1⟩, by simp [frameOf], hkey⟩
      · exact Or.inr (Or.inl ⟨p, hp, hkey⟩)
    · exact Or.inr (Or.inr hrest)
  | encodes packets he hready =>
    subst he
    by_cases hnew : (s.sender.keyframe || s.sender.fresh) = true
    · cases packets with
      | nil => exact Or.inr (Or.inr (Or.inr (Or.inr (by simpa [SendStream.encode] using hnew))))
      | cons p rest => exact Or.inr (Or.inl ⟨p, List.mem_cons_self .., hfirst p rfl hnew⟩)
    · rw [Bool.or_eq_true] at hnew
      rcases h hattached hstreams hphase with hframe | ⟨p, hp, -⟩ | hask | hflag
      · exact Or.inl hframe
      · rw [hready] at hp
        cases hp
      · exact Or.inr (Or.inr (Or.inl hask))
      · exact absurd hflag hnew
  | delivers f rest recv r' out hwire hr' hsent hdelivers =>
    rcases hdelivers with ⟨rfl, hsome, -, rfl⟩ | ⟨-, hnone, -⟩
    · have hcoming := h hattached hsome hphase
      simp only [KeyframeComing, hr, hr', hwire, List.flatMap_singleton, List.append_assoc,
        List.append_nil] at hcoming ⊢
      exact hcoming
    · exact absurd hnone hstreams
  | replies out rest hback hbefore =>
    have hsame : unsent (s.sender.answered out).stage = unsent s.sender.stage ∧
        (s.sender.answered out).fresh = s.sender.fresh ∧
        (s.sender.answered out).keyframe = (asks out || s.sender.keyframe) := by
      cases out with
      | opened id success message sink => cases success <;> exact ⟨rfl, rfl, rfl⟩
      | ack | close => exact ⟨rfl, rfl, rfl⟩
    simp only [KeyframeComing, hsame, Bool.or_eq_true]
    rcases h hbefore hstreams hphase with hframe | hunsent | ⟨x, hx, hasks⟩ | hflag | hfresh
    · exact Or.inl hframe
    · exact Or.inr (Or.inl hunsent)
    · rw [hback] at hx
      rcases List.mem_cons.mp hx with rfl | hx
      · exact Or.inr (Or.inr (Or.inr (Or.inl (Or.inl hasks))))
      · exact Or.inr (Or.inr (Or.inl ⟨x, hx, hasks⟩))
    · exact Or.inr (Or.inr (Or.inr (Or.inl (Or.inr hflag))))
    · exact Or.inr (Or.inr (Or.inr (Or.inr hfresh)))
  | ignores out rest hback hbefore =>
    rw [hbefore] at hattached
    cases hattached
  | waits wire recv r' out hwire hr' hsent hsub hwaits =>
    have hbefore : r.phase = .starting ∨ r.phase = .active true := by
      rcases hwaits.phase with hsame | ⟨hstarting, -⟩ | hover
      · exact hsame ▸ hphase
      · exact Or.inl hstarting
      · rcases hphase with hphase | hphase <;>
        · rw [hphase] at hover
          exact hover.elim
    rcases h hattached (fun hnone => hstreams (List.sublist_nil.mp (hnone ▸ hsub))) hbefore with
      hframe | hunsent | ⟨x, hx, hasks⟩ | hflags
    · refine Or.inl ?_
      simpa only [hr, hr', List.flatMap_singleton, hwaits.queue, hwire] using hframe
    · exact Or.inr (Or.inl hunsent)
    · exact Or.inr (Or.inr (Or.inl ⟨x, List.mem_append_left _ hx, hasks⟩))
    · exact Or.inr (Or.inr (Or.inr hflags))
  | takes recv r' out hr' hsent hsub htakes =>
    obtain ⟨waiting, f, -, -, -, ⟨-, hover⟩ | ⟨again, rfl, hactive⟩⟩ := htakes
    · rcases hphase with hphase | hphase <;>
      · rw [hphase] at hover
        exact hover.elim
    · rw [hactive] at hphase
      have hagain : again = true := by simpa using hphase
      exact Or.inr (Or.inr (Or.inl ⟨.ack r.streamId f.pts again, by simp, hagain⟩))

/-- While both ends keep the stream, a receiver that waits for a key frame does not wait in vain:
one is on its way, or the request for it is, or the encoder will start with one. -/
theorem keyframe_coming (key : Key) (streamId : Int) (size : ℕ × ℕ) (es : List Event) (s : State)
    (hfirst : Meets KeyFirst (step key) (start key streamId size) es)
    (h : exec (step key) (start key streamId size) es = some s) (hattached : s.attached = true)
    (hstreams : s.recv.streams ≠ []) (r : Receiver) (hr : r ∈ s.recv.receivers)
    (hwaits : r.phase = .starting ∨ r.phase = .active true) : KeyframeComing s := by
  obtain ⟨r', hshape, hwaiting⟩ := invariant_of_moves key s Waiting KeyFirst streamId size es
    (fun _ _ _ => Or.inr (Or.inr (Or.inr (Or.inr rfl))))
    (fun s r e t r' hguard hshape hP hmove => waiting_moves hguard hshape.receivers hP hmove)
    hfirst h
  rw [hshape.receivers, List.mem_singleton] at hr
  exact hwaiting hattached hstreams (hr ▸ hwaits)

theorem keyframe_coming_sample : ∃ s,
    exec (step (.host 7)) sampleStart (sampleRun (.error "")) = some s ∧
      s.recv.receivers.map Receiver.phase = [.active true] ∧ KeyframeComing s := by
  obtain ⟨s, hrun, hs⟩ := Option.map_eq_some_iff.mp
    (show (exec (step (.host 7)) sampleStart (sampleRun (.error ""))).map (fun s =>
      (s.attached, s.recv.streams.length, s.recv.receivers.map Receiver.phase)) =
        some (true, 1, [.active true]) by decide)
  obtain ⟨hattached, hstreams, hphases⟩ := And.imp_right Prod.mk.inj (Prod.mk.inj hs)
  obtain ⟨r, hr, hphase⟩ : ∃ r ∈ s.recv.receivers, r.phase = .active true := by
    apply List.mem_map.mp
    rw [hphases]
    exact List.mem_singleton_self _
  refine ⟨s, hrun, hphases, ?_⟩
  exact keyframe_coming (.host 7) 1 (640, 480) (sampleRun (.error "")) s (by decide) hrun hattached
    (List.length_pos_iff.mp (by omega)) r hr (Or.inr hphase)

end ClantoDesk.CameraStream
