import ClantoDesk.ChannelTable
import ClantoDesk.TunnelChannel

/-!
The task of one end of a tunnel channel: `run_channel` with its two relays, after the
opening task of src/port_forward_mux.rs or the set-up loop of src/server/port_forward_mux.rs.
To the `ChannelEnd` it adds where the relays stand, how they ended, and the bytes
that went through them. A step of the task hands on at most one frame.
-/
namespace ClantoDesk.ChannelTask

open FlowControl
open TunnelChannel (Side)
open ChannelTable (Frame)

inductive RelayEnd
  | localEof | peerClosed | violation | cancelled | tunnelGone
  deriving DecidableEq

/-- `channel` numbers the channels of the tunnel. `early` is what was read from the socket before
the channel opened, `prebuf` the rest of it that the reader still has, and `socket` what was read
since. `consumed` is what the sending relay has read of it, `outgoing` the frame it waits to put in
the queue, `log` the ordered frames the task has sent. `written` is what is on the socket, `done`
how much of the chunk. -/
structure Task where
  id : ℤ
  channel : ℕ
  early : Bytes
  prebuf : Bytes
  socket : Bytes
  consumed : Bytes
  outgoing : Option Bytes
  done : ℕ
  written : Bytes
  toTunnel : Option RelayEnd
  toSocket : Option RelayEnd
  cancelled : Bool
  closed : Bool
  finished : Bool
  log : List Frame
  deriving DecidableEq

def Task.new (id : ℤ) (channel : ℕ) (prebuf : Bytes) : Task :=
  { id := id
    channel := channel
    early := prebuf
    prebuf := prebuf
    socket := []
    consumed := []
    outgoing := none
    done := 0
    written := []
    toTunnel := none
    toSocket := none
    cancelled := false
    closed := false
    finished := false
    log := [] }

/-- What the task finds: whether the tunnel is down, whether the ordered queue has room, and
whether the table still has its entry, with the sender of its queue. -/
structure Context where
  side : Side
  down : Bool
  room : Bool
  listed : Bool

inductive Output
  | silent
  | ordered (frame : Frame)
  | control (frame : Frame)

inductive Action
  | sendHello | helloFails
  | take | readPrebuf | read (bytes : Bytes) | enqueue | enqueueFails | endOfFile | cancelSending
  | setupCommand | connected | refuse
  | nextChunk | queueGone | write (n : ℕ) | finishChunk
    (fails : Bool) | writeFails | cancelReceiving
  | cancel | sendClose | finish
  deriving DecidableEq

def windowWord : UInt32 := UInt32.ofNat channelWindow

/-- The frame with which a side starts to relay. What the far side decides about an `open` is not
known yet. -/
def hello (side : Side) (id : ℤ) : Frame :=
  match side with
  | .opener => .open id windowWord true true
  | .acceptor => .opened id true windowWord

def helloPhase : Side → Phase
  | .opener => .opening
  | .acceptor => .granted

namespace Task

def near (t : Task) : Bytes := t.early ++ t.socket

/-- `run_channel`: the channel ended for a local reason. -/
def wantsClose (t : Task) : Bool :=
  let peerClosed := t.toTunnel = some .peerClosed ∨ t.toSocket = some .peerClosed
  let tunnelGone := t.toTunnel = some .tunnelGone ∨ t.toSocket = some .tunnelGone
  let localReason := t.toTunnel = some .localEof ∨ t.toTunnel = some .violation ∨
    t.toSocket = some .localEof ∨ t.toSocket = some .violation
  decide (¬ peerClosed ∧ ¬ tunnelGone ∧ localReason)

def leave (t : Task) (reason : RelayEnd) : Task :=
  { t with toTunnel := some .cancelled, toSocket := some reason }

def ended (t : Task) : Bool := t.toTunnel.isSome && t.toSocket.isSome

def put (t : Task) (frame : Frame) : Task := { t with log := t.log ++ [frame] }

end Task

def stop (e : ChannelEnd) : ChannelEnd := { e with sending := false, receiving := false }

def fill (t : Task) (e : ChannelEnd) (bytes socket prebuf : Bytes) :
    Option (Task × ChannelEnd × Output) :=
  (e.read bytes).map fun e =>
    ({ t with
        socket := socket
        prebuf := prebuf
        consumed := t.consumed ++ bytes
        outgoing := some bytes }, e, .silent)

/-- How `relay_tunnel_to_socket` ends at the command it takes. -/
def commandEnd (e : ChannelEnd) : RelayEnd :=
  match e.inbound with
  | .close :: _ => .peerClosed
  | _ => .violation

def act (ctx : Context) (t : Task) (e : ChannelEnd) : Action → Option (Task × ChannelEnd × Output)
  | .sendHello =>
    if e.phase = helloPhase ctx.side ∧ t.toSocket = none ∧ ctx.room then
      some (t.put (hello ctx.side t.id), e.relay, .ordered (hello ctx.side t.id))
    else none
  | .helloFails =>
    if e.phase = helloPhase ctx.side ∧ t.toSocket = none ∧ ctx.down then
      some (t.leave .tunnelGone, stop e, .silent)
    else none
  | .take => if t.outgoing = none then e.take.map fun e => (t, e, .silent) else none
  | .readPrebuf =>
    match e.held with
    | none => none
    | some allow =>
      if t.outgoing = none then
        fill t e (t.prebuf.take allow) t.socket (t.prebuf.drop allow)
      else none
  | .read bytes =>
    if t.outgoing = none ∧ t.prebuf = [] then fill t e bytes (t.socket ++ bytes) [] else none
  | .enqueue =>
    match t.outgoing with
    | none => none
    | some bytes =>
      if t.toTunnel = none ∧ ctx.room then
        some ({ t.put (.data t.id bytes) with outgoing := none }, e, .ordered (.data t.id bytes))
      else none
  | .enqueueFails =>
    if t.outgoing ≠ none ∧ t.toTunnel = none ∧ ctx.down then
      some ({ t with toTunnel := some .tunnelGone }, e.stopSending, .silent)
    else none
  | .endOfFile =>
    if e.held ≠ none ∧ t.prebuf = [] ∧ t.outgoing = none ∧ t.toTunnel = none then
      some ({ t with toTunnel := some .localEof }, e.stopSending, .silent)
    else none
  | .cancelSending =>
    if t.cancelled ∧ t.outgoing = none ∧ t.toTunnel = none then
      some ({ t with toTunnel := some .cancelled }, e.stopSending, .silent)
    else none
  | .setupCommand =>
    match e.setupCommand with
    | none => none
    | some (.goesOn, e) => some (t, e, .silent)
    | some (.leaves, e) => some (t.leave .peerClosed, e, .silent)
    | some (.closes, e) =>
      some ({ (t.put (.close t.id)).leave .violation with closed := true }, e,
        .ordered (.close t.id))
  | .connected => e.connected.map fun e => (t, e, .silent)
  | .refuse =>
    if ctx.side = .acceptor ∧ e.phase = .connecting ∧ t.toSocket = none ∧ e.inbound = [] then
      some ((t.put (.opened t.id false 0)).leave .cancelled, stop e,
        .ordered (.opened t.id false 0))
    else none
  | .nextChunk =>
    e.nextChunk.map fun e' =>
      if e'.receiving then ({ t with done := 0 }, e', .silent)
      else ({ t with toSocket := some (commandEnd e) }, e', .silent)
  | .queueGone =>
    if ctx.listed = false ∧ t.toSocket = none ∧ e.inbound = [] ∧ e.pending = [] ∧
      e.chunk = none then
      if e.phase = .relaying then
        some ({ t with toSocket := some .tunnelGone }, e.stopReceiving, .silent)
      else if e.phase = .connecting then some (t.leave .tunnelGone, stop e, .silent)
      else none
    else none
  | .write n =>
    match e.chunk with
    | none => none
    | some chunk =>
      if t.toSocket = none then
        some ({ t with
          written := t.written ++ (chunk.drop t.done).take n
          done := t.done + n }, e, .silent)
      else none
  | .finishChunk fails =>
    match e.chunk, e.finishChunk with
    | some chunk, some (update, e) =>
      if chunk.length ≤ t.done ∧ (fails → ctx.down) then
        match update with
        | none => some ({ t with done := 0 }, e, .silent)
        | some add =>
          if fails then
            some ({ t with done := 0, toSocket := some .tunnelGone }, e.stopReceiving, .silent)
          else some ({ t with done := 0 }, e, .control (.windowUpdate t.id (UInt32.ofNat add)))
      else none
    | _, _ => none
  | .writeFails =>
    if e.chunk ≠ none ∧ t.toSocket = none then
      some ({ t with toSocket := some .localEof }, e.stopReceiving, .silent)
    else none
  | .cancelReceiving =>
    if t.cancelled ∧ t.toSocket = none then
      some ({ t with toSocket := some .cancelled }, e.stopReceiving, .silent)
    else none
  | .cancel =>
    if e.phase = .relaying ∧ (t.toTunnel.isSome ∨ t.toSocket.isSome ∨ ctx.down) then
      some ({ t with cancelled := true }, e, .silent)
    else none
  | .sendClose =>
    if t.ended ∧ t.wantsClose ∧ t.closed = false ∧ t.finished = false ∧ ctx.room then
      some ({ t.put (.close t.id) with closed := true }, e, .ordered (.close t.id))
    else none
  | .finish =>
    if t.ended ∧ t.finished = false ∧ (t.closed ∨ t.wantsClose = false ∨ ctx.down) then
      some ({ t with finished := true }, e, .silent)
    else none

def isHello : Side → Frame → Bool
  | .opener, .open _ _ _ _ => true
  | .acceptor, .opened _ _ _ => true
  | _, _ => false

def isData : Frame → Bool
  | .data _ _ => true
  | _ => false

def frameId : Frame → ℤ
  | .open id _ _ _ | .opened id _ _ | .data id _ | .close id | .windowUpdate id _ => id

def payload : Frame → Bytes
  | .data _ bytes => bytes
  | _ => []

def bytesOf (frames : List Frame) : Bytes := frames.flatMap payload

variable (ctx : Context) {side : Side} {t t' : Task} {e e' : ChannelEnd} {out : Output}

theorem bytesOf_append (xs ys : List Frame) : bytesOf (xs ++ ys) = bytesOf xs ++ bytesOf ys :=
  List.flatMap_append

def inboundBytes : Inbound → Bytes
  | .data bytes => bytes
  | _ => []

def unwritten (t : Task) (e : ChannelEnd) : Bytes :=
  (e.chunk.getD []).drop t.done ++ e.pending.flatten ++ e.inbound.flatMap inboundBytes

/-- The order of the frames of a channel: it is opened or answered first, then comes its data, and
then at most one `close`. -/
def InOrder (side : Side) (frames : List Frame) : Prop :=
  ∃ head datas tail, frames = head ++ datas ++ tail ∧ head.length ≤ 1 ∧ tail.length ≤ 1 ∧
    (∀ f ∈ head, isHello side f = true) ∧ (∀ f ∈ datas, isData f = true) ∧
    (∀ f ∈ tail, ∃ id, f = .close id) ∧ (datas ≠ [] → head ≠ [])

theorem inOrder_of_prefix (side : Side) (frames more : List Frame) (hfront : frames <+: more)
    (h : InOrder side more) : InOrder side frames := by
  obtain ⟨head, datas, tail, rfl, hhead, htail, hhello, hdata, hclose, hfirst⟩ := h
  rw [List.prefix_iff_eq_take.mp hfront, List.take_append, List.take_append]
  generalize frames.length = n
  refine ⟨_, _, _, rfl, Nat.le_trans (List.take_prefix _ _).length_le hhead,
    Nat.le_trans (List.take_prefix _ _).length_le htail, fun f hf =>
      hhello f (List.mem_of_mem_take hf),
    fun f hf => hdata f (List.mem_of_mem_take hf), fun f hf => hclose f (List.mem_of_mem_take hf),
      ?_⟩
  intro hne hempty
  rcases List.take_eq_nil_iff.mp hempty with rfl | rfl
  · simp at hne
  · simp only [List.length_nil, Nat.sub_zero] at hne
    refine hfirst ?_ rfl
    rintro rfl
    simp at hne

theorem InOrder.hello_first {frames : List Frame} (h : InOrder side frames) (pre post : List Frame)
    (f : Frame) (hf : isHello side f = true) (hframes : frames = pre ++ f :: post) : pre = [] := by
  obtain ⟨head, datas, tail, rfl, hhead, -, -, hdata, hclose, -⟩ := h
  have hnot : ∀ g ∈ datas ++ tail, isHello side g = false := by
    intro g hg
    rcases List.mem_append.mp hg with hd | ht
    · have := hdata g hd
      cases side <;> cases g <;> simp_all [isData, isHello]
    · obtain ⟨id, rfl⟩ := hclose g ht
      cases side <;> rfl
  rw [List.append_assoc] at hframes
  rcases List.append_eq_append_iff.mp hframes with ⟨c, rfl, hc⟩ | ⟨c, rfl, hc⟩
  · have hmem : f ∈ datas ++ tail := by
      rw [hc]
      simp
    rw [hnot f hmem] at hf
    cases hf
  · cases c with
    | nil =>
      have hmem : f ∈ datas ++ tail := by
        rw [← List.nil_append (datas ++ tail), ← hc]
        simp
      rw [hnot f hmem] at hf
      cases hf
    | cons g c =>
      simp only [List.length_append, List.length_cons] at hhead
      exact List.length_eq_zero_iff.mp (by omega)

structure Sane (side : Side) (t : Task) (e : ChannelEnd) : Prop where
  sending : e.sending = t.toTunnel.isNone
  receiving : e.receiving = t.toSocket.isNone
  finished : t.finished = true → t.ended = true
  closed : t.closed = true → t.ended = true
  unsent : e.phase ≠ .relaying → t.toSocket = none → t.log = []
  greeted : e.phase = .relaying → t.log ≠ []
  outgoing : t.outgoing ≠ none → e.phase = .relaying
  held : e.held ≠ none → e.phase = .relaying ∧ t.outgoing = none
  order : ∃ head datas, t.log = head ++ datas ++ (if t.closed then [.close t.id] else []) ∧
    head.length ≤ 1 ∧ (∀ f ∈ head, isHello side f = true) ∧ (∀ f ∈ datas, isData f = true) ∧
    (datas ≠ [] → head ≠ [])
  ids : ∀ f ∈ t.log, frameId f = t.id
  bytes : t.toTunnel = none → t.consumed = bytesOf t.log ++ t.outgoing.getD []
  sent : bytesOf t.log <+: t.consumed
  near : t.near = t.consumed ++ t.prebuf
  unechoed : t.toSocket = some .peerClosed → t.closed = false

theorem sane_new (side : Side) (id : ℤ) (channel : ℕ) (prebuf : Bytes) (phase : Phase)
    (credit granted : ℕ)
    (hphase : phase ≠ .relaying) :
    Sane side (Task.new id channel prebuf) (ChannelEnd.new phase credit granted) := by
  refine ⟨rfl, rfl, nofun, nofun, fun _ _ => rfl, fun h => absurd h hphase, fun h => absurd rfl h,
    fun h => absurd rfl h, ⟨[], [], rfl, by simp, nofun, nofun, fun h => absurd rfl h⟩, nofun,
    fun _ => rfl, List.nil_prefix, by simp [Task.near, Task.new], nofun⟩

inductive Move (side : Side) (t : Task) (e : ChannelEnd) : Task → ChannelEnd → Output → Prop
  | hello (hphase : e.phase = helloPhase side) (hrunning : t.toSocket = none) :
    Move side t e (t.put (ChannelTask.hello side t.id)) e.relay
      (.ordered (ChannelTask.hello side t.id))
  | leave (reason : RelayEnd) (frames : List Frame) (closed : Bool) (e' : ChannelEnd) (out : Output)
    (hphase : e.phase ≠ .relaying) (hrunning : t.toSocket = none) (hphase' : e'.phase = e.phase)
    (hheld : e'.held = e.held) (hsending : e'.sending = false) (hreceiving : e'.receiving = false)
    (hframes : (frames = [] ∧ closed = false ∧ out = .silent) ∨
      (frames = [.close t.id] ∧ closed = true ∧ out = .ordered (.close t.id)) ∨
      (side = .acceptor ∧ frames = [.opened t.id false 0] ∧ closed = false ∧
        out = .ordered (.opened t.id false 0)))
    (hecho : reason = .peerClosed → closed = false) :
    Move side t e { ({ t with log := t.log ++ frames }).leave reason with closed := closed } e' out
  | take (e' : ChannelEnd) (hout : t.outgoing = none) (htake : e.take = some e') :
    Move side t e t e' .silent
  | fill (bytes socket prebuf : Bytes) (e' : ChannelEnd) (hout : t.outgoing = none)
    (hread : e.read bytes = some e')
    (hnear : t.near = t.consumed ++ t.prebuf →
      t.early ++ socket = t.consumed ++ bytes ++ prebuf) :
    Move side t e { t with
      socket := socket
      prebuf := prebuf
      consumed := t.consumed ++ bytes
      outgoing := some bytes } e' .silent
  | enqueue (bytes : Bytes) (hout : t.outgoing = some bytes) (hrunning : t.toTunnel = none) :
    Move side t e { t.put (.data t.id bytes) with outgoing := none } e
      (.ordered (.data t.id bytes))
  | stopSending (reason : RelayEnd) (hrunning : t.toTunnel = none) :
    Move side t e { t with toTunnel := some reason } e.stopSending .silent
  | setup (e' : ChannelEnd) (hphase : e.phase = .connecting) (hphase' : e'.phase ≠ .relaying)
    (hheld : e'.held = e.held) (hsending : e'.sending = e.sending)
    (hreceiving : e'.receiving = e.receiving)
    (hbytes : unwritten t e' = unwritten t e) : Move side t e t e' .silent
  | receive (written : Bytes) (done : ℕ) (toSocket : Option RelayEnd) (e' : ChannelEnd)
    (out : Output) (hrunning : t.toSocket = none) (hphase' : e'.phase = e.phase)
    (hheld : e'.held = e.held) (hsending : e'.sending = e.sending)
    (hreceiving : e'.receiving = toSocket.isNone)
    (hout : out = .silent ∨ ∃ add, out = .control (.windowUpdate t.id add))
    (hwritten : written <+: t.written ++ unwritten t e)
    (hbytes : toSocket = none →
      written ++ unwritten { t with done := done } e' = t.written ++ unwritten t e) :
    Move side t e { t with written := written, done := done, toSocket := toSocket } e' out
  | cancel : Move side t e { t with cancelled := true } e .silent
  | close (hended : t.ended = true) (hwants : t.wantsClose = true) (hclosed : t.closed = false)
    (hfinished : t.finished = false) :
    Move side t e { t.put (.close t.id) with closed := true } e (.ordered (.close t.id))
  | finish (hended : t.ended = true) : Move side t e { t with finished := true } e .silent

theorem Sane.running (h : Sane side t e)
    (hrunning : t.toTunnel = none ∨ t.toSocket = none) : t.finished = false ∧ t.closed = false := by
  have hended : t.ended = false := by
    rcases hrunning with heq | heq <;> simp [Task.ended, heq]
  refine ⟨?_, ?_⟩
  · by_contra hfinished
    simp [h.finished (by simpa using hfinished)] at hended
  · by_contra hclosed
    simp [h.closed (by simpa using hclosed)] at hended

theorem Sane.receiver (h : Sane side t e) (written : Bytes) (done : ℕ)
    (toSocket : Option RelayEnd) (hrunning : t.toSocket = none) (hphase : e'.phase = e.phase)
    (hheld : e'.held = e.held) (hsending : e'.sending = e.sending)
    (hreceiving : e'.receiving = toSocket.isNone) :
    Sane side { t with written := written, done := done, toSocket := toSocket } e' := by
  obtain ⟨hfinished, hclosed⟩ := h.running (Or.inr hrunning)
  exact { h with
    sending := hsending.trans h.sending
    receiving := hreceiving
    finished := fun hfin => absurd (hfinished.symm.trans hfin) nofun
    closed := fun hcl => absurd (hclosed.symm.trans hcl) nofun
    unsent := fun hne _ => h.unsent (hphase ▸ hne) hrunning
    greeted := fun heq => h.greeted (hphase ▸ heq)
    outgoing := fun hout => hphase ▸ h.outgoing hout
    held := fun hne => hphase ▸ h.held (hheld ▸ hne)
    unechoed := fun _ => hclosed }

theorem Sane.stopSending (h : Sane side t e) (reason : RelayEnd) (hrunning : t.toTunnel = none) :
    Sane side { t with toTunnel := some reason } e.stopSending := by
  obtain ⟨hfinished, hclosed⟩ := h.running (Or.inl hrunning)
  obtain ⟨hsame, hheld, -, -⟩ := e.stopSending_spec
  have hsending : e.stopSending.sending = false := by
    unfold ChannelEnd.stopSending
    split <;> rfl
  exact { h with
    sending := hsending
    receiving := hsame.receiving.trans h.receiving
    finished := fun hfin => absurd (hfinished.symm.trans hfin) nofun
    closed := fun hcl => absurd (hclosed.symm.trans hcl) nofun
    unsent := fun hne => h.unsent (hsame.phase ▸ hne)
    greeted := fun heq => h.greeted (hsame.phase ▸ heq)
    outgoing := fun hout => hsame.phase ▸ h.outgoing hout
    held := fun hne => absurd hheld hne
    bytes := nofun }

theorem Sane.leave (h : Sane side t e) (reason : RelayEnd)
    (frames : List Frame) (closed : Bool) (hphase : e.phase ≠ .relaying)
    (hrunning : t.toSocket = none) (hphase' : e'.phase = e.phase) (hheld : e'.held = e.held)
    (hsending : e'.sending = false) (hreceiving : e'.receiving = false)
    (hframes : (frames = [] ∧ closed = false) ∨ (frames = [.close t.id] ∧ closed = true) ∨
      (side = .acceptor ∧ frames = [.opened t.id false 0] ∧ closed = false))
    (hecho : reason = .peerClosed → closed = false) :
    Sane side { ({ t with log := t.log ++ frames }).leave reason with closed := closed } e' := by
  have hlog : t.log = [] := h.unsent hphase hrunning
  have hne : e'.phase ≠ .relaying := hphase' ▸ hphase
  have hnone : e'.held = none := by
    rw [hheld]
    by_contra hheld
    exact hphase (h.held hheld).1
  refine ⟨hsending, hreceiving, fun _ => rfl, fun _ => rfl, nofun, fun heq => absurd heq hne,
    fun hout => absurd (h.outgoing hout) hphase, fun hheld => absurd hnone hheld, ?_, ?_, nofun, ?_,
    h.near, fun heq => hecho (Option.some.inj heq)⟩
  · simp only [Task.leave, hlog, List.nil_append]
    rcases hframes with ⟨rfl, rfl⟩ | ⟨rfl, rfl⟩ | ⟨rfl, rfl, rfl⟩
    · exact ⟨[], [], rfl, by simp, nofun, nofun, nofun⟩
    · exact ⟨[], [], rfl, by simp, nofun, nofun, nofun⟩
    · exact ⟨[.opened t.id false 0], [], rfl, by simp, by simp [isHello], nofun, nofun⟩
  · simp only [Task.leave, hlog, List.nil_append]
    rcases hframes with ⟨rfl, -⟩ | ⟨rfl, -⟩ | ⟨-, rfl, -⟩ <;> simp [frameId]
  · simp only [Task.leave, hlog, List.nil_append]
    rcases hframes with ⟨rfl, -⟩ | ⟨rfl, -⟩ | ⟨-, rfl, -⟩ <;> simp [bytesOf, payload]

/-- The relays start once the first frame is sent. -/
theorem Sane.hello (h : Sane side t e)
    (hphase : e.phase ≠ .relaying) (hrunning : t.toSocket = none) :
    Sane side (t.put (hello side t.id)) e.relay := by
  have hlog : t.log = [] := h.unsent hphase hrunning
  have hout : t.outgoing = none := by
    by_contra hout
    exact hphase (h.outgoing hout)
  have hheld : e.held = none := by
    by_contra hheld
    exact hphase (h.held hheld).1
  obtain ⟨-, hclosed⟩ := h.running (Or.inr hrunning)
  have hbytes : bytesOf (t.log ++ [ChannelTask.hello side t.id]) = bytesOf t.log := by
    cases side <;> simp [bytesOf, ChannelTask.hello, payload]
  exact { h with
    unsent := fun hne => absurd rfl hne
    greeted := fun _ => by simp [Task.put]
    outgoing := fun _ => rfl
    held := fun hne => absurd hheld hne
    order := by
      refine ⟨[ChannelTask.hello side t.id], [], ?_, by simp, ?_, nofun, nofun⟩
      · simp [Task.put, hlog, hclosed]
      · cases side <;> simp [ChannelTask.hello, isHello]
    ids := by
      cases side <;> simp [Task.put, hlog, ChannelTask.hello, frameId]
    bytes := fun htunnel => (h.bytes htunnel).trans (by rw [Task.put, hbytes])
    sent := by
      rw [Task.put, hbytes]
      exact h.sent }

theorem Sane.fill (h : Sane side t e) (bytes socket prebuf : Bytes)
    (hout : t.outgoing = none) (hread : e.read bytes = some e')
    (hnear : t.early ++ socket = t.consumed ++ bytes ++ prebuf) :
    Sane side { t with
      socket := socket
      prebuf := prebuf
      consumed := t.consumed ++ bytes
      outgoing := some bytes } e' := by
  unfold ChannelEnd.read at hread
  split at hread
  · cases hread
  · rename_i allow hheld
    have hphase := (h.held (by simp [hheld])).1
    obtain ⟨-, rfl⟩ := of_guard hread
    exact { h with
      outgoing := fun _ => hphase
      held := fun hne => absurd rfl hne
      bytes := fun htunnel => by simp [h.bytes htunnel, hout]
      sent := h.sent.trans (List.prefix_append _ _)
      near := hnear }

theorem Sane.enqueue (h : Sane side t e) (bytes : Bytes)
    (hout : t.outgoing = some bytes) (hrunning : t.toTunnel = none) :
    Sane side { t.put (.data t.id bytes) with outgoing := none } e := by
  obtain ⟨-, hclosed⟩ := h.running (Or.inl hrunning)
  have hphase := h.outgoing (by simp [hout])
  have hconsumed := h.bytes hrunning
  rw [hout, Option.getD_some] at hconsumed
  have hbytes : bytesOf (t.log ++ [.data t.id bytes]) = t.consumed := by
    rw [bytesOf_append, hconsumed]
    simp [bytesOf, payload]
  exact { h with
    unsent := fun hne => absurd hphase hne
    greeted := fun _ => by simp [Task.put]
    outgoing := fun hne => absurd rfl hne
    held := fun hne => ⟨hphase, rfl⟩
    order := by
      obtain ⟨head, datas, hlog, hlength, hhead, hdatas, hfirst⟩ := h.order
      simp only [hclosed, Bool.false_eq_true, if_false, List.append_nil] at hlog
      refine ⟨head, datas ++ [.data t.id bytes], ?_, hlength, hhead, ?_, ?_⟩
      · simp [Task.put, hlog, hclosed]
      · intro f hf
        rcases List.mem_append.mp hf with hold | hnew
        · exact hdatas f hold
        · rw [List.mem_singleton.mp hnew]
          rfl
      · rintro - rfl
        have hne := h.greeted hphase
        rw [hlog] at hne
        exact hfirst hne rfl
    ids := by
      intro f hf
      rcases List.mem_append.mp hf with hold | hnew
      · exact h.ids f hold
      · rw [List.mem_singleton.mp hnew]
        rfl
    bytes := fun _ => by simp [Task.put, hbytes]
    sent := by
      change bytesOf (t.log ++ [.data t.id bytes]) <+: t.consumed
      exact hbytes ▸ List.prefix_refl _ }

/-- `run_channel` sends `close`. -/
theorem Sane.close (h : Sane side t e) (hended : t.ended = true)
    (hwants : t.wantsClose = true) (hclosed : t.closed = false) :
    Sane side { t.put (.close t.id) with closed := true } e := by
  have hbytes : bytesOf (t.log ++ [.close t.id]) = bytesOf t.log := by
    simp [bytesOf, payload]
  have hecho : t.toSocket ≠ some .peerClosed := by
    intro heq
    simp [Task.wantsClose, heq] at hwants
  obtain ⟨htunnel, hsocket⟩ : t.toTunnel.isSome = true ∧ t.toSocket.isSome = true := by
    simpa [Task.ended] using hended
  exact { h with
    closed := fun _ => hended
    unsent := fun _ hnone => by simp [Task.put] at hnone; simp [hnone] at hsocket
    greeted := fun _ => by simp [Task.put]
    order := by
      obtain ⟨head, datas, hlog, hlength, hhead, hdatas, hfirst⟩ := h.order
      simp only [hclosed, Bool.false_eq_true, if_false, List.append_nil] at hlog
      exact ⟨head, datas, by simp [Task.put, hlog], hlength, hhead, hdatas, hfirst⟩
    ids := by
      intro f hf
      rcases List.mem_append.mp hf with hold | hnew
      · exact h.ids f hold
      · rw [List.mem_singleton.mp hnew]
        rfl
    bytes := fun hnone => by simp [Task.put] at hnone; simp [hnone] at htunnel
    sent := by
      rw [Task.put, hbytes]
      exact h.sent
    unechoed := fun heq => absurd heq hecho }

theorem helloPhase_ne (side : Side) : helloPhase side ≠ .relaying := by
  cases side <;> decide

theorem result_inj (t t' : Task) (e e' : ChannelEnd) (out out' : Output)
    (h : (t, e, out) = (t', e', out')) : t = t' ∧ e = e' ∧ out = out' := by
  simpa using h

theorem move_setupCommand (t t' : Task) (e e' : ChannelEnd) (out : Output)
    (h : Sane ctx.side t e) (hact : act ctx t e .setupCommand = some (t', e', out)) :
    Move ctx.side t e t' e' out := by
  simp only [act, ChannelEnd.setupCommand] at hact
  by_cases hcond : e.phase = .connecting ∧ e.receiving = true
  · have hne : e.phase ≠ .relaying := by simp [hcond.1]
    have hrunning : t.toSocket = none := by simpa [h.receiving] using hcond.2
    obtain ⟨-, hclosed⟩ := h.running (Or.inr hrunning)
    have hviolation (e1 : ChannelEnd) (hphase : e1.phase = e.phase) (hheld : e1.held = e.held)
        (hsending : e1.sending = false) (hreceiving : e1.receiving = false) :
        Move ctx.side t e { (t.put (.close t.id)).leave .violation with closed := true } e1
          (.ordered (.close t.id)) :=
      .leave .violation [.close t.id] true e1 _ hne hrunning hphase hheld hsending hreceiving
        (Or.inr (Or.inl ⟨rfl, rfl, rfl⟩)) nofun
    rw [if_pos hcond] at hact
    cases hinbound : e.inbound with
    | nil => simp [hinbound] at hact
    | cons cmd rest =>
      cases cmd with
      | data bytes =>
        by_cases hfits : ChannelEnd.pendingFits e.pendingLen bytes.length = true
        · simp only [hinbound, if_pos hfits] at hact
          obtain ⟨rfl, rfl, rfl⟩ := result_inj _ _ _ _ _ _ (Option.some.inj hact)
          refine .setup _ hcond.1 hne rfl rfl rfl ?_
          simp [unwritten, hinbound, inboundBytes]
        · simp only [hinbound, if_neg hfits] at hact
          obtain ⟨rfl, rfl, rfl⟩ := result_inj _ _ _ _ _ _ (Option.some.inj hact)
          exact hviolation _ rfl rfl rfl rfl
      | close =>
        simp only [hinbound] at hact
        obtain ⟨rfl, rfl, rfl⟩ := result_inj _ _ _ _ _ _ (Option.some.inj hact)
        have hleave : Move ctx.side t e _ _ .silent := .leave .peerClosed [] false
          { e with inbound := rest, sending := false, receiving := false }
            .silent hne hrunning rfl rfl
          rfl rfl (Or.inl ⟨rfl, rfl, rfl⟩) fun _ => rfl
        simpa [Task.leave, hclosed] using hleave
      | violation =>
        simp only [hinbound] at hact
        obtain ⟨rfl, rfl, rfl⟩ := result_inj _ _ _ _ _ _ (Option.some.inj hact)
        exact hviolation _ rfl rfl rfl rfl
  · simp [if_neg hcond] at hact

theorem move_nextChunk (t t' : Task) (e e' : ChannelEnd) (out : Output)
    (h : Sane ctx.side t e) (hact : act ctx t e .nextChunk = some (t', e', out)) :
    Move ctx.side t e t' e' out := by
  obtain ⟨e1, hnext, heq⟩ := Option.map_eq_some_iff.mp hact
  unfold ChannelEnd.nextChunk at hnext
  obtain ⟨⟨-, hreceiving, hchunk⟩, hnext⟩ := Option.ite_none_right_eq_some.mp hnext
  have hrunning : t.toSocket = none := by simpa [h.receiving] using hreceiving
  -- what is taken is the first of what has not been written
  have htaken (e1 : ChannelEnd) (hphase : e1.phase = e.phase) (hheld : e1.held = e.held)
      (hsending : e1.sending = e.sending) (hreceiving : e1.receiving = true)
      (hbytes : unwritten { t with done := 0 } e1 = unwritten t e) :
      Move ctx.side t e { t with done := 0 } e1 .silent := by
    have hmove : Move ctx.side t e _ e1 .silent :=
        .receive t.written 0 none e1 .silent hrunning hphase
      hheld hsending hreceiving (Or.inl rfl) (List.prefix_append _ _) fun _ => by rw [hbytes]
    rw [← hrunning] at hmove
    exact hmove
  cases hpending : e.pending with
  | cons bytes rest =>
    simp only [hpending] at hnext
    obtain rfl := Option.some.inj hnext
    simp only [hreceiving, if_true] at heq
    obtain ⟨rfl, rfl, rfl⟩ := result_inj _ _ _ _ _ _ heq
    refine htaken _ rfl rfl rfl rfl ?_
    simp [unwritten, hpending, hchunk]
  | nil =>
    simp only [hpending] at hnext
    cases hinbound : e.inbound with
    | nil => simp [hinbound] at hnext
    | cons cmd rest =>
      cases cmd with
      | data bytes =>
        simp only [hinbound] at hnext
        obtain rfl := Option.some.inj hnext
        simp only [hreceiving, if_true] at heq
        obtain ⟨rfl, rfl, rfl⟩ := result_inj _ _ _ _ _ _ heq
        refine htaken _ rfl rfl rfl rfl ?_
        simp [unwritten, hpending, hchunk, hinbound, inboundBytes]
      | close | violation =>
        simp only [hinbound] at hnext
        obtain rfl := Option.some.inj hnext
        simp only [Bool.false_eq_true, if_false] at heq
        obtain ⟨rfl, rfl, rfl⟩ := result_inj _ _ _ _ _ _ heq
        exact .receive t.written t.done (some (commandEnd e)) _ .silent hrunning rfl rfl rfl rfl
          (Or.inl rfl) (List.prefix_append _ _) nofun

theorem move_finishChunk (t t' : Task) (e e' : ChannelEnd) (fails : Bool)
    (out : Output) (h : Sane ctx.side t e) (hact : act ctx t e (.finishChunk fails) =
    some (t', e', out)) :
    Move ctx.side t e t' e' out := by
  simp only [act, ChannelEnd.finishChunk] at hact
  cases hchunk : e.chunk with
  | none => simp [hchunk] at hact
  | some chunk =>
    cases hreceiving : e.receiving with
    | false => simp [hchunk, hreceiving] at hact
    | true =>
      have hrunning : t.toSocket = none := by simpa [h.receiving] using hreceiving
      simp only [hchunk, hreceiving, if_true] at hact
      obtain ⟨⟨hdone, -⟩, heq⟩ := Option.ite_none_right_eq_some.mp hact
      have hdrop : chunk.drop t.done = [] := List.drop_eq_nil_of_le hdone
      have hwritten (window : RecvWindow) (out : Output)
          (hout : out = .silent ∨ ∃ add, out = .control (.windowUpdate t.id add)) :
          Move ctx.side t e { t with done := 0 }
            { e with window := window, chunk := none, receiving := true } out := by
        have hmove : Move ctx.side t e _
            { e with window := window, chunk := none, receiving := true } out :=
          .receive t.written 0 none _ out hrunning rfl rfl rfl rfl hout (List.prefix_append _ _)
            fun _ => by simp [unwritten, hchunk, hdrop]
        rw [← hrunning] at hmove
        exact hmove
      split at heq
      · obtain ⟨rfl, rfl, rfl⟩ := result_inj _ _ _ _ _ _ (Option.some.inj heq)
        exact hwritten _ .silent (Or.inl rfl)
      · split at heq
        · obtain ⟨rfl, rfl, rfl⟩ := result_inj _ _ _ _ _ _ (Option.some.inj heq)
          exact .receive t.written 0 (some .tunnelGone) _ .silent hrunning rfl rfl rfl rfl
            (Or.inl rfl) (List.prefix_append _ _) nofun
        · obtain ⟨rfl, rfl, rfl⟩ := result_inj _ _ _ _ _ _ (Option.some.inj heq)
          exact hwritten _ _ (Or.inr ⟨_, rfl⟩)

/-- The step function does nothing else. -/
theorem move_of_act (t t' : Task) (e e' : ChannelEnd) (action : Action)
    (out : Output) (h : Sane ctx.side t e) (hact : act ctx t e action = some (t', e', out)) :
    Move ctx.side t e t' e' out := by
  cases action with
  | sendHello =>
    obtain ⟨⟨hphase, hrunning, -⟩, ⟨⟩⟩ := of_guard hact
    exact .hello hphase hrunning
  | helloFails =>
    obtain ⟨⟨hphase, hrunning, -⟩, ⟨⟩⟩ := of_guard hact
    obtain ⟨-, hclosed⟩ := h.running (Or.inr hrunning)
    have hleave : Move ctx.side t e _ (stop e) .silent :=
        .leave .tunnelGone [] false (stop e) .silent
      (hphase ▸ helloPhase_ne ctx.side) hrunning rfl rfl rfl rfl (Or.inl ⟨rfl, rfl, rfl⟩) nofun
    simpa [Task.leave, hclosed] using hleave
  | take =>
    obtain ⟨hout, heq⟩ := Option.ite_none_right_eq_some.mp hact
    obtain ⟨e1, htake, heq⟩ := Option.map_eq_some_iff.mp heq
    obtain ⟨rfl, rfl, rfl⟩ := result_inj _ _ _ _ _ _ heq
    exact .take e1 hout htake
  | readPrebuf =>
    simp only [act] at hact
    split at hact
    · cases hact
    · rename_i allow hheld
      obtain ⟨hout, heq⟩ := Option.ite_none_right_eq_some.mp hact
      obtain ⟨e1, hread, heq⟩ := Option.map_eq_some_iff.mp heq
      obtain ⟨rfl, rfl, rfl⟩ := result_inj _ _ _ _ _ _ heq
      refine .fill _ _ _ e1 hout hread ?_
      intro hnear
      rw [← Task.near, hnear, List.append_assoc, List.take_append_drop]
  | read bytes =>
    obtain ⟨⟨hout, hprebuf⟩, heq⟩ := Option.ite_none_right_eq_some.mp hact
    obtain ⟨e1, hread, heq⟩ := Option.map_eq_some_iff.mp heq
    obtain ⟨rfl, rfl, rfl⟩ := result_inj _ _ _ _ _ _ heq
    refine .fill bytes _ _ e1 hout hread ?_
    intro hnear
    rw [← List.append_assoc, ← Task.near, hnear, hprebuf]
    simp
  | enqueue =>
    simp only [act] at hact
    split at hact
    · cases hact
    · rename_i bytes hout
      obtain ⟨⟨hrunning, -⟩, ⟨⟩⟩ := of_guard hact
      exact .enqueue bytes hout hrunning
  | enqueueFails =>
    obtain ⟨⟨-, hrunning, -⟩, ⟨⟩⟩ := of_guard hact
    exact .stopSending .tunnelGone hrunning
  | endOfFile =>
    obtain ⟨⟨-, -, -, hrunning⟩, ⟨⟩⟩ := of_guard hact
    exact .stopSending .localEof hrunning
  | cancelSending =>
    obtain ⟨⟨-, -, hrunning⟩, ⟨⟩⟩ := of_guard hact
    exact .stopSending .cancelled hrunning
  | setupCommand => exact move_setupCommand ctx t t' e e' out h hact
  | connected =>
    obtain ⟨e1, hconnected, heq⟩ := Option.map_eq_some_iff.mp hact
    obtain ⟨rfl, rfl, rfl⟩ := result_inj _ _ _ _ _ _ heq
    obtain ⟨⟨hphase, -, -⟩, rfl⟩ := of_guard hconnected
    exact .setup _ hphase nofun rfl rfl rfl rfl
  | refuse =>
    obtain ⟨⟨hside, hphase, hrunning, -⟩, ⟨⟩⟩ := of_guard hact
    obtain ⟨-, hclosed⟩ := h.running (Or.inr hrunning)
    have hleave : Move ctx.side t e _ (stop e) _ := .leave .cancelled [.opened t.id false 0] false
      (stop e) _ (by simp [hphase]) hrunning rfl rfl rfl rfl
      (Or.inr (Or.inr ⟨hside, rfl, rfl, rfl⟩)) nofun
    simpa [Task.leave, Task.put, hclosed] using hleave
  | nextChunk => exact move_nextChunk ctx t t' e e' out h hact
  | queueGone =>
    obtain ⟨⟨-, hrunning, hinbound, hpending, hchunk⟩, heq⟩ :=
      Option.ite_none_right_eq_some.mp hact
    split at heq
    · obtain ⟨rfl, rfl, rfl⟩ := result_inj _ _ _ _ _ _ (Option.some.inj heq)
      exact .receive t.written t.done (some .tunnelGone) _ .silent hrunning rfl rfl rfl rfl
        (Or.inl rfl) (List.prefix_append _ _) nofun
    · rename_i hphase
      obtain ⟨-, ⟨⟩⟩ := of_guard heq
      obtain ⟨-, hclosed⟩ := h.running (Or.inr hrunning)
      have hleave : Move ctx.side t e _ (stop e) .silent := .leave .tunnelGone [] false (stop e)
        .silent hphase hrunning rfl rfl rfl rfl (Or.inl ⟨rfl, rfl, rfl⟩) nofun
      simpa [Task.leave, hclosed] using hleave
  | write n =>
    simp only [act] at hact
    split at hact
    · cases hact
    · rename_i chunk hchunk
      obtain ⟨hrunning, ⟨⟩⟩ := of_guard hact
      have hbytes : (t.written ++ (chunk.drop t.done).take n) ++
          unwritten { t with done := t.done + n } e = t.written ++ unwritten t e := by
        simp only [unwritten, hchunk, Option.getD_some, List.append_assoc, ← List.drop_drop]
        rw [← List.append_assoc (List.take n _), List.take_append_drop]
      have hmove : Move ctx.side t e _ e .silent :=
          .receive _ (t.done + n) none e .silent hrunning rfl
        rfl rfl (by simp [h.receiving, hrunning]) (Or.inl rfl) (hbytes ▸ List.prefix_append _ _)
        fun _ => hbytes
      rw [← hrunning] at hmove
      exact hmove
  | finishChunk fails => exact move_finishChunk ctx t t' e e' fails out h hact
  | writeFails =>
    obtain ⟨⟨-, hrunning⟩, ⟨⟩⟩ := of_guard hact
    exact .receive t.written t.done (some .localEof) _ .silent hrunning rfl rfl rfl rfl
      (Or.inl rfl) (List.prefix_append _ _) nofun
  | cancelReceiving =>
    obtain ⟨⟨-, hrunning⟩, ⟨⟩⟩ := of_guard hact
    exact .receive t.written t.done (some .cancelled) _ .silent hrunning rfl rfl rfl rfl
      (Or.inl rfl) (List.prefix_append _ _) nofun
  | cancel =>
    obtain ⟨-, ⟨⟩⟩ := of_guard hact
    exact .cancel
  | sendClose =>
    obtain ⟨⟨hended, hwants, hclosed, hfinished, -⟩, ⟨⟩⟩ := of_guard hact
    exact .close hended hwants hclosed hfinished
  | finish =>
    obtain ⟨⟨hended, -, -⟩, ⟨⟩⟩ := of_guard hact
    exact .finish hended

theorem Move.sane (hmove : Move side t e t' e' out) (h : Sane side t e) : Sane side t' e' := by
  cases hmove with
  | hello hphase hrunning => exact h.hello (hphase ▸ helloPhase_ne side) hrunning
  | leave reason frames closed e' out hphase hrunning hphase' hheld hsending hreceiving hframes
      hecho =>
    refine h.leave reason frames closed hphase hrunning hphase' hheld hsending hreceiving ?_ hecho
    rcases hframes with ⟨hf, hc, -⟩ | ⟨hf, hc, -⟩ | ⟨hside, hf, hc, -⟩
    · exact Or.inl ⟨hf, hc⟩
    · exact Or.inr (Or.inl ⟨hf, hc⟩)
    · exact Or.inr (Or.inr ⟨hside, hf, hc⟩)
  | take e' hout htake =>
    obtain ⟨⟨hphase, hsending, -, -⟩, rfl⟩ := of_guard htake
    exact { h with held := fun _ => ⟨hphase, hout⟩ }
  | fill bytes socket prebuf e' hout hread hnear =>
    exact h.fill bytes socket prebuf hout hread (hnear h.near)
  | enqueue bytes hout hrunning => exact h.enqueue bytes hout hrunning
  | stopSending reason hrunning => exact h.stopSending reason hrunning
  | setup e' hphase hphase' hheld hsending hreceiving hbytes =>
    have hne : e.phase ≠ .relaying := by simp [hphase]
    exact { h with
      sending := hsending.trans h.sending
      receiving := hreceiving.trans h.receiving
      unsent := fun _ => h.unsent hne
      greeted := fun heq => absurd heq hphase'
      outgoing := fun hout => absurd (h.outgoing hout) hne
      held := fun hheld' => absurd (h.held (hheld ▸ hheld')).1 hne }
  | receive written done toSocket e' out hrunning hphase' hheld hsending hreceiving =>
    exact h.receiver written done toSocket hrunning hphase' hheld hsending hreceiving
  | cancel => exact { h with }
  | close hended hwants hclosed hfinished => exact h.close hended hwants hclosed
  | finish hended => exact { h with finished := fun _ => hended }

def Output.frames : Output → List Frame
  | .ordered frame => [frame]
  | _ => []

/-- The task keeps its number and id, and its log is what it hands on in order. -/
theorem Move.log_eq (hmove : Move side t e t' e' out) :
    t'.id = t.id ∧ t'.channel = t.channel ∧ t'.log = t.log ++ out.frames := by
  cases hmove with
  | hello | enqueue | close => exact ⟨rfl, rfl, rfl⟩
  | leave reason frames closed e' out hphase hrunning hphase' hheld hsending hreceiving hframes =>
    rcases hframes with ⟨rfl, -, rfl⟩ | ⟨rfl, -, rfl⟩ | ⟨-, rfl, -, rfl⟩ <;> exact ⟨rfl, rfl, rfl⟩
  | receive written done toSocket e' out hrunning hphase' hheld hsending hreceiving hout =>
    rcases hout with rfl | ⟨add, rfl⟩ <;> simp [Output.frames]
  | take | fill | stopSending | setup | cancel | finish => simp [Output.frames]

def ordered : Frame → Bool
  | .windowUpdate _ _ => false
  | _ => true

/-- Everything but the window updates goes out in order. -/
theorem Move.output_ordered (hmove : Move side t e t' e' out) :
    (∀ f, out = .ordered f → ordered f = true) ∧ ∀ f, out = .control f → ordered f = false := by
  cases hmove with
  | hello =>
    refine ⟨?_, nofun⟩
    rintro f hf
    obtain rfl := Output.ordered.inj hf
    cases side <;> rfl
  | leave reason frames closed e' out hphase hrunning hphase' hheld hsending hreceiving hframes =>
    rcases hframes with ⟨-, -, rfl⟩ | ⟨-, -, rfl⟩ | ⟨-, -, -, rfl⟩
    · exact ⟨nofun, nofun⟩
    all_goals
      refine ⟨?_, nofun⟩
      rintro f hf
      obtain rfl := Output.ordered.inj hf
      rfl
  | enqueue | close =>
    refine ⟨?_, nofun⟩
    rintro f hf
    obtain rfl := Output.ordered.inj hf
    rfl
  | receive written done toSocket e' out hrunning hphase' hheld hsending hreceiving hout =>
    rcases hout with rfl | ⟨add, rfl⟩
    · exact ⟨nofun, nofun⟩
    · refine ⟨nofun, ?_⟩
      rintro f hf
      obtain rfl := Output.control.inj hf
      rfl
  | take | fill | stopSending | setup | cancel | finish => exact ⟨nofun, nofun⟩

theorem Move.finished
    (hmove : Move side t e t' e' out) (h : Sane side t e) (hfinished : t.finished = true) :
    t'.finished = true ∧ out = .silent := by
  have hended := h.finished hfinished
  have hrunning : t.toTunnel ≠ none ∧ t.toSocket ≠ none := by
    simpa [Task.ended, Option.isSome_iff_ne_none] using hended
  cases hmove with
  | hello hphase hnone => exact absurd hnone hrunning.2
  | leave reason frames closed e' out hphase hnone => exact absurd hnone hrunning.2
  | enqueue bytes hout hnone => exact absurd hnone hrunning.1
  | stopSending reason hnone => exact absurd hnone hrunning.1
  | receive written done toSocket e' out hnone => exact absurd hnone hrunning.2
  | close hended hwants hclosed hnot => exact absurd (hfinished.symm.trans hnot) nofun
  | take | fill | setup | cancel => exact ⟨hfinished, rfl⟩
  | finish => exact ⟨rfl, rfl⟩

/-- What is written comes from what has arrived; while the relay runs nothing gets lost. -/
theorem Move.received (hmove : Move side t e t' e' out) (h : Sane side t e) :
    (e'.receiving = true → e.receiving = true ∧
      t'.written ++ unwritten t' e' = t.written ++ unwritten t e) ∧
      (t'.written = t.written ∨ e.receiving = true ∧
          t'.written <+: t.written ++ unwritten t e) := by
  cases hmove with
  | hello | enqueue | close | cancel | finish => exact ⟨fun hr => ⟨hr, rfl⟩, Or.inl rfl⟩
  | leave reason frames closed e' out hphase hrunning hphase' hheld hsending hreceiving =>
    exact ⟨fun hr => absurd (hreceiving.symm.trans hr) nofun, Or.inl rfl⟩
  | take e' hout htake =>
    obtain ⟨-, rfl⟩ := of_guard htake
    exact ⟨fun hr => ⟨hr, rfl⟩, Or.inl rfl⟩
  | fill bytes socket prebuf e' hout hread =>
    unfold ChannelEnd.read at hread
    split at hread
    · cases hread
    · obtain ⟨-, rfl⟩ := of_guard hread
      exact ⟨fun hr => ⟨hr, rfl⟩, Or.inl rfl⟩
  | stopSending reason hrunning =>
    obtain ⟨hsame, -⟩ := e.stopSending_spec
    refine ⟨fun hr => ⟨hsame.receiving ▸ hr, ?_⟩, Or.inl rfl⟩
    simp only [unwritten, hsame.chunk, hsame.pending, hsame.inbound]
  | setup e' hphase hphase' hheld hsending hreceiving hbytes =>
    exact ⟨fun hr => ⟨hreceiving ▸ hr, by rw [hbytes]⟩, Or.inl rfl⟩
  | receive written done toSocket e' out hrunning hphase' hheld hsending hreceiving hout hwritten
      hbytes =>
    have hr : e.receiving = true := by simp [h.receiving, hrunning]
    refine ⟨fun hr' => ⟨hr, hbytes ?_⟩, Or.inr ⟨hr, hwritten⟩⟩
    simpa [hreceiving] using hr'

theorem Sane.inOrder (h : Sane side t e) : InOrder side t.log := by
  obtain ⟨head, datas, hlog, hlength, hhead, hdatas, hfirst⟩ := h.order
  refine ⟨head, datas, _, hlog, hlength, ?_, hhead, hdatas, ?_, hfirst⟩
  · split <;> simp
  · intro f hf
    split at hf
    · exact ⟨t.id, List.mem_singleton.mp hf⟩
    · cases hf

/-- A task that has taken up the peer's `close` has sent none. -/
theorem Sane.not_echoed (h : Sane side t e)
    (hpeer : t.toSocket = some .peerClosed) (id : ℤ) : Frame.close id ∉ t.log := by
  obtain ⟨head, datas, hlog, -, hhead, hdatas, -⟩ := h.order
  rw [h.unechoed hpeer, if_neg (by simp), List.append_nil] at hlog
  intro hmem
  rw [hlog] at hmem
  rcases List.mem_append.mp hmem with hh | hd
  · exact absurd (hhead _ hh) (by cases side <;> simp [isHello])
  · exact absurd (hdatas _ hd) (by simp [isData])

end ClantoDesk.ChannelTask
