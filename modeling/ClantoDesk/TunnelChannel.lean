import ClantoDesk.FlowControl
import ClantoDesk.Runs

/-!
One tunnel channel between two honest peers. The opening side runs
`TunnelHandle::open` or `Engine::open_outgoing`, the accepting side
`run_controlled_channel` or `run_accepted`, and both relay with `run_channel`.
Frames of a side leave in order, except that a queued sink carries window updates on a
queue of their own, which may overtake. For each direction the credit of the sender, what
travels and what the receiver holds add up to the full window as long as both
sides keep the channel in their tables.
-/
namespace ClantoDesk.TunnelChannel

open FlowControl

inductive Side
  | opener | acceptor
  deriving DecidableEq

def Side.other : Side → Side
  | .opener => .acceptor
  | .acceptor => .opener

@[simp] theorem Side.other_other (s : Side) : s.other.other = s := by
  cases s <;> rfl

structure Both (α : Type*) where
  opener : α
  acceptor : α
  deriving DecidableEq

namespace Both

variable {α : Type*}

def get (b : Both α) : Side → α
  | .opener => b.opener
  | .acceptor => b.acceptor

def set (b : Both α) (s : Side) (a : α) : Both α :=
  match s with
  | .opener => { b with opener := a }
  | .acceptor => { b with acceptor := a }

@[simp] theorem get_set_self (b : Both α) (s : Side) (a : α) : (b.set s a).get s = a := by
  cases s <;> rfl

@[simp] theorem get_set_other (b : Both α) (s : Side) (a : α) :
    (b.set s a).get s.other = b.get s.other := by
  cases s <;> rfl

@[simp] theorem get_set_of_other (b : Both α) (s : Side) (a : α) :
    (b.set s.other a).get s = b.get s := by
  cases s <;> rfl

end Both

inductive Frame
  | open (window : ℕ)
  | opened (success : Bool) (window : ℕ)
  | data (bytes : Bytes)
  | close
  | windowUpdate (add : ℕ)

/-- Whether window updates have a queue of their own. -/
inductive Sink
  | queued | direct

/-- The frames on their way from one side to the other. -/
structure Wire where
  ordered : List Frame
  control : List ℕ

def Wire.sendOrdered (w : Wire) (frame : Frame) : Wire :=
  { w with ordered := w.ordered ++ [frame] }

def Wire.sendControl (w : Wire) (sink : Sink) (add : ℕ) : Wire :=
  match sink with
  | .queued => { w with control := w.control ++ [add] }
  | .direct => w.sendOrdered (.windowUpdate add)

def Wire.setOrdered (w : Wire) (rest : List Frame) : Wire := { w with ordered := rest }

def Wire.setControl (w : Wire) (rest : List ℕ) : Wire := { w with control := rest }

/-- `arrived` says that the `open` has reached the accepting side, `raised` is the
flag `opened` of the opening side's table entry. Until then the accepting end is
a placeholder without credit. -/
structure Channel where
  ends : Both ChannelEnd
  inTable : Both Bool
  wires : Both Wire
  arrived : Bool
  raised : Bool

def placeholder : ChannelEnd := { ChannelEnd.incoming 0 with credit := 0 }

/-- The accepting end after a refused `open`: there is no task. -/
def gone : ChannelEnd := { placeholder with sending := false, receiving := false }

/-- The channel when the opening side has made its entry and not yet sent `open`. -/
def start : Channel :=
  { ends := ⟨ChannelEnd.outgoing, placeholder⟩
    inTable := ⟨true, false⟩
    wires := ⟨⟨[], []⟩, ⟨[], []⟩⟩
    arrived := false
    raised := false }

def setEnd (c : Channel) (s : Side) (e : ChannelEnd) : Channel := { c with ends := c.ends.set s e }

def setWire (c : Channel) (s : Side) (w : Wire) : Channel := { c with wires := c.wires.set s w }

/-- The frame at the head of the queue of side `s` is taken off. -/
def pop (c : Channel) (s : Side) (rest : List Frame) : Channel :=
  setWire c s ((c.wires.get s).setOrdered rest)

def popControl (c : Channel) (s : Side) (rest : List ℕ) : Channel :=
  setWire c s ((c.wires.get s).setControl rest)

def sendOrdered (c : Channel) (s : Side) (frame : Frame) : Channel :=
  setWire c s ((c.wires.get s).sendOrdered frame)

def sendControl (sinks : Both Sink) (c : Channel) (s : Side) (add : ℕ) : Channel :=
  setWire c s ((c.wires.get s).sendControl (sinks.get s) add)

/-- The dispatcher of side `s` drops the entry and tells the task. -/
def drop (c : Channel) (s : Side) (cmd : Inbound) : Channel :=
  { c with
    inTable := c.inTable.set s false
    ends := c.ends.set s ((c.ends.get s).command cmd) }

def onOpen (c : Channel) (window : ℕ) (accepts : Bool) : Channel :=
  if c.arrived then c
  else if accepts then
    { c with
      arrived := true
      inTable := { c.inTable with acceptor := true }
      ends := { c.ends with acceptor := ChannelEnd.incoming window } }
  else
    sendOrdered { c with arrived := true, ends := { c.ends with acceptor := gone } } .acceptor
      (.opened false 0)

def onOpened (c : Channel) (success : Bool) (window : ℕ) : Channel :=
  if c.inTable.opener then
    if success then
      if c.raised then c
      else
        { setEnd c .opener
            { c.ends.opener with credit := raiseInitial c.ends.opener.credit window } with
          raised := true }
    else drop c .opener .close
  else c

def onData (c : Channel) (s : Side) (bytes : Bytes) : Channel :=
  if c.inTable.get s then
    let (accepted, delivered, e) := (c.ends.get s).receive bytes
    let c := setEnd c s e
    if delivered then c
    else if accepted then { c with inTable := c.inTable.set s false }
    else drop c s .violation
  else c

def onWindowUpdate (c : Channel) (s : Side) (add : ℕ) : Channel :=
  if c.inTable.get s then
    setEnd c s { c.ends.get s with credit := addCredit (c.ends.get s).credit add }
  else c

/-- The dispatcher of side `s`. An `open` is only read by the accepting side, an `opened`
only by the opening one. -/
def onFrame (c : Channel) (s : Side) (accepts : Bool) : Frame → Channel
  | .open window => if s = .acceptor then onOpen c window accepts else c
  | .opened success window => if s = .opener then onOpened c success window else c
  | .data bytes => onData c s bytes
  | .close => if c.inTable.get s then drop c s .close else c
  | .windowUpdate add => onWindowUpdate c s add

inductive Event
  | sendOpen
  | take (s : Side)
  | read (s : Side) (bytes : Bytes)
  | stopSending (s : Side)
  /-- The next frame of the ordered queue reaches side `s`; `accepts` is what it decides on an
  `open`. -/
  | deliver (s : Side) (accepts : Bool)
  | deliverControl (s : Side)
  | setupCommand
  | connected
  | sendOpened
  /-- The accepting side could not connect. -/
  | refuse
  | nextChunk (s : Side)
  | finishChunk (s : Side)
  | stopReceiving (s : Side)
  /-- Both relays ended for a local reason. -/
  | sendClose (s : Side)
  /-- The task ended and takes its entry out of the table. -/
  | leave (s : Side)

def step (sinks : Both Sink) (c : Channel) : Event → Option Channel
  | .sendOpen =>
    if c.ends.opener.phase = .opening then
      some (sendOrdered (setEnd c .opener c.ends.opener.relay) .opener
        (.open channelWindow))
    else none
  | .take s => (c.ends.get s).take.map (setEnd c s)
  | .read s bytes =>
    ((c.ends.get s).read bytes).map fun e => sendOrdered (setEnd c s e) s (.data bytes)
  | .stopSending s =>
    if (c.ends.get s).phase = .relaying then some (setEnd c s (c.ends.get s).stopSending) else none
  | .deliver s accepts =>
    match (c.wires.get s.other).ordered with
    | [] => none
    | frame :: rest =>
      some (onFrame (pop c s.other rest) s accepts frame)
  | .deliverControl s =>
    match (c.wires.get s.other).control with
    | [] => none
    | add :: rest =>
      some (onWindowUpdate (popControl c s.other rest) s add)
  | .setupCommand =>
    c.ends.acceptor.setupCommand.map fun (result, e) =>
      let c := setEnd c .acceptor e
      if result = .closes then sendOrdered c .acceptor .close else c
  | .connected =>
    if c.arrived then c.ends.acceptor.connected.map (setEnd c .acceptor) else none
  | .sendOpened =>
    if c.ends.acceptor.phase = .granted then
      some (sendOrdered (setEnd c .acceptor c.ends.acceptor.relay) .acceptor
        (.opened true channelWindow))
    else none
  | .refuse =>
    if c.arrived ∧ c.ends.acceptor.phase = .connecting ∧ c.ends.acceptor.receiving ∧
        c.ends.acceptor.inbound = [] then
      some (sendOrdered (setEnd c .acceptor
        { c.ends.acceptor with sending := false, receiving := false }) .acceptor
        (.opened false 0))
    else none
  | .nextChunk s => (c.ends.get s).nextChunk.map (setEnd c s)
  | .finishChunk s =>
    (c.ends.get s).finishChunk.map fun (update, e) =>
      match update with
      | none => setEnd c s e
      | some add => sendControl sinks (setEnd c s e) s add
  | .stopReceiving s =>
    if (c.ends.get s).phase = .relaying then some (setEnd c s (c.ends.get s).stopReceiving)
    else none
  | .sendClose s =>
    if (c.ends.get s).phase = .relaying ∧ (c.ends.get s).sending = false ∧
        (c.ends.get s).receiving = false then
      some (sendOrdered c s .close)
    else none
  | .leave s => some { c with inTable := c.inTable.set s false }

def creditOf : Frame → ℕ
  | .open window => newCredit (effectiveWindow window)
  | .opened true window => effectiveWindow window - initialWindow
  | .windowUpdate add => add
  | _ => 0

def chargeOf : Frame → ℕ
  | .data bytes => charge bytes.length
  | _ => 0

def Wire.charged (w : Wire) : ℕ := (w.ordered.map chargeOf).sum

def Wire.granting (w : Wire) : ℕ := (w.ordered.map creditOf).sum + w.control.sum

/-- Credit granted to the sender `s` for which its peer, in this phase, has sent no frame yet. -/
def owedIn : Side → Phase → ℕ
  | .opener, .granted => channelWindow - initialWindow
  | .acceptor, .opening => channelWindow
  | _, _ => 0

def owed (c : Channel) (s : Side) : ℕ := owedIn s (c.ends.get s.other).phase

/-- Everything that may still be charged to the window granted to the sender `s`. -/
def flow (c : Channel) (s : Side) : ℕ :=
  (c.ends.get s).spare + (c.wires.get s).charged + (c.wires.get s.other).granting + owed c s

def remaining (c : Channel) (s : Side) : ℕ := (c.ends.get s).window.remaining

/-- Both sides keep the channel in their tables, once the `open` has arrived. -/
def Live (c : Channel) : Prop :=
  c.inTable.opener = true ∧ (c.arrived = true → c.inTable.acceptor = true)

/-- The receiver's window covers what its sender may charge, exactly so while the
channel is live. -/
def Covered (c : Channel) : Prop :=
  ∀ s, flow c s ≤ remaining c s.other ∧ (Live c → flow c s = remaining c s.other)

def Filled (c : Channel) : Prop :=
  Live c → ∀ s, (c.ends.get s).load = (c.ends.get s).grantedWindow

/-- A frame that neither opens a channel nor answers an `open`. -/
def plain : Frame → Bool
  | .open _ => false
  | .opened _ _ => false
  | _ => true

def isAnswer : Frame → Bool
  | .opened true _ => true
  | _ => false

structure Shape (c : Channel) : Prop where
  openerPhase : c.ends.opener.phase = .opening ∨ c.ends.opener.phase = .relaying
  acceptorPhase : c.ends.acceptor.phase ≠ .opening
  unsent : c.ends.opener.phase = .opening → c.arrived = false ∧ c.wires.opener = ⟨[], []⟩
  travelling : c.ends.opener.phase = .relaying → c.arrived = false →
    c.wires.opener.control = [] ∧
      ∃ rest, c.wires.opener.ordered = .open channelWindow :: rest ∧ ∀ f ∈ rest, plain f = true
  waiting : c.arrived = false →
    c.ends.acceptor = placeholder ∧ c.inTable.acceptor = false ∧ c.wires.acceptor = ⟨[], []⟩ ∧
      c.ends.opener.inbound = [] ∧ c.ends.opener.pending = [] ∧ c.ends.opener.chunk = none
  openerFrames : c.arrived = true → ∀ f ∈ c.wires.opener.ordered, plain f = true
  acceptorFrames : ∀ f ∈ c.wires.acceptor.ordered, plain f = true ∨
    f = .opened false 0 ∨ f = .opened true channelWindow
  answeredOnce : c.wires.acceptor.ordered.countP isAnswer + c.raised.toNat ≤
    if c.ends.acceptor.phase = .relaying then 1 else 0
  commands : ∀ s, c.inTable.get s = true → ∀ cmd ∈ (c.ends.get s).inbound, ∃ b, cmd = .data b

structure Inv (c : Channel) : Prop where
  sound : ∀ s, (c.ends.get s).Sound
  covered : Covered c
  filled : Filled c
  shape : Shape c

variable (sinks : Both Sink) (c : Channel) (s : Side) (w : Wire) (add : ℕ) (f : Frame)
  (rest : List Frame) (e : ChannelEnd)

theorem Side.eq_or_other (t : Side) : t = s ∨ t = s.other := by
  cases s <;> cases t <;> simp [Side.other]

theorem Wire.charged_sendOrdered : (w.sendOrdered f).charged = w.charged + chargeOf f := by
  simp [Wire.charged, Wire.sendOrdered]

theorem Wire.granting_sendOrdered : (w.sendOrdered f).granting = w.granting + creditOf f := by
  simp only [Wire.granting, Wire.sendOrdered, List.map_append, List.map_cons, List.map_nil,
    List.sum_append, List.sum_cons, List.sum_nil]
  omega

theorem Wire.charged_sendControl (sink : Sink) (add : ℕ) :
    (w.sendControl sink add).charged = w.charged := by
  cases sink with
  | queued => rfl
  | direct => exact Wire.charged_sendOrdered w (.windowUpdate add)

theorem Wire.granting_sendControl (sink : Sink) (add : ℕ) :
    (w.sendControl sink add).granting = w.granting + add := by
  cases sink with
  | queued =>
    simp only [Wire.granting, Wire.sendControl, List.sum_append, List.sum_cons, List.sum_nil]
    omega
  | direct => exact Wire.granting_sendOrdered w (.windowUpdate add)

/-- The rule for one step: flow and window of each direction move by the same amounts,
except that a channel which is no longer live may lose flow. -/
theorem Covered.of_shift {c c' : Channel} (h : Covered c) (hlive : Live c' → Live c)
    (hshift : ∀ s, ∃ a b, remaining c' s.other + a = remaining c s.other + b ∧
      flow c' s + a ≤ flow c s + b ∧ (Live c' → flow c' s + a = flow c s + b)) :
    Covered c' := by
  intro s
  obtain ⟨a, b, hrem, hle, heq⟩ := hshift s
  obtain ⟨hcov, hexact⟩ := h s
  refine ⟨by omega, ?_⟩
  intro hl
  have h1 := heq hl
  have h2 := hexact (hlive hl)
  omega

theorem Covered.spare_le {c : Channel} (h : Covered c) (hsound : ∀ s, (c.ends.get s).Sound)
    (s : Side) : (c.ends.get s).spare + (c.wires.get s.other).granting ≤ maxSendCredit := by
  have hcov := (h s).1
  have hrem := (hsound s.other).remaining_le
  simp only [flow, remaining] at hcov
  simp only [maxSendCredit]
  omega

@[simp] theorem setEnd_get_self (c : Channel) (s : Side) (e : ChannelEnd) :
    (setEnd c s e).ends.get s = e := Both.get_set_self c.ends s e

@[simp] theorem setEnd_get_other (c : Channel) (s : Side) (e : ChannelEnd) :
    (setEnd c s e).ends.get s.other = c.ends.get s.other := Both.get_set_other c.ends s e

@[simp] theorem setWire_get_self (c : Channel) (s : Side) (w : Wire) :
    (setWire c s w).wires.get s = w := Both.get_set_self c.wires s w

@[simp] theorem setWire_get_other (c : Channel) (s : Side) (w : Wire) :
    (setWire c s w).wires.get s.other = c.wires.get s.other := Both.get_set_other c.wires s w

theorem flow_setEnd_self : flow (setEnd c s e) s + (c.ends.get s).spare = flow c s + e.spare := by
  simp only [flow, owed, setEnd_get_self, setEnd_get_other]
  simp only [setEnd]
  omega

theorem flow_setEnd_phase :
    flow (setEnd c s e) s.other + owedIn s.other (c.ends.get s).phase =
      flow c s.other + owedIn s.other e.phase := by
  simp only [flow, owed, Side.other_other, setEnd_get_self, setEnd_get_other]
  simp only [setEnd]
  omega

theorem flow_setEnd_other (hphase : e.phase = (c.ends.get s).phase) :
    flow (setEnd c s e) s.other = flow c s.other := by
  have hflow := flow_setEnd_phase c s e
  rw [hphase] at hflow
  omega

theorem flow_setWire_self :
    flow (setWire c s w) s + (c.wires.get s).charged = flow c s + w.charged := by
  have howed : owed (setWire c s w) s = owed c s := by cases s <;> rfl
  simp only [flow, setWire_get_self, setWire_get_other, howed]
  simp only [setWire]
  omega

theorem flow_setWire_other :
    flow (setWire c s w) s.other + (c.wires.get s).granting = flow c s.other + w.granting := by
  have howed : owed (setWire c s w) s.other = owed c s.other := by cases s <;> rfl
  simp only [flow, Side.other_other, setWire_get_self, setWire_get_other, howed]
  simp only [setWire]
  omega

/-- A step of one end that keeps phase, credit and window keeps the cover. -/
theorem Covered.setEnd {c : Channel} (h : Covered c) (s : Side) (e : ChannelEnd)
    (hphase : e.phase = (c.ends.get s).phase) (hspare : e.spare = (c.ends.get s).spare)
    (hrem : e.window.remaining = (c.ends.get s).window.remaining) :
    Covered (setEnd c s e) := by
  refine h.of_shift id ?_
  intro t
  refine ⟨0, 0, ?_, ?_⟩
  · rcases Side.eq_or_other s t with rfl | rfl
    · simp only [remaining, setEnd_get_other]
    · simp only [remaining, Side.other_other, setEnd_get_self, hrem]
  · have hself := flow_setEnd_self c s e
    have hother := flow_setEnd_other c s e hphase
    rcases Side.eq_or_other s t with rfl | rfl <;> constructor <;> omega

theorem Filled.setEnd {c : Channel} (h : Filled c) (s : Side) (e : ChannelEnd)
    (hphase : e.phase = (c.ends.get s).phase)
    (hload : Live c → e.load = (c.ends.get s).load) : Filled (setEnd c s e) := by
  intro hlive t
  have hlive' : Live c := hlive
  rcases Side.eq_or_other s t with rfl | rfl
  · rw [setEnd_get_self, hload hlive', h hlive', ChannelEnd.grantedWindow, ChannelEnd.grantedWindow,
      hphase]
  · rw [setEnd_get_other]
    exact h hlive' _

theorem Shape.setEnd {c : Channel} (h : Shape c) (s : Side) (e : ChannelEnd)
    (hphase : e.phase = (c.ends.get s).phase)
    (hinbound : c.inTable.get s = true → ∀ cmd ∈ e.inbound, ∃ b, cmd = .data b)
    (hquiet : c.arrived = false → s = .opener ∧ e.inbound = [] ∧ e.pending = [] ∧ e.chunk = none) :
    Shape (setEnd c s e) := by
  have hcommands : ∀ t, c.inTable.get t = true →
      ∀ cmd ∈ ((TunnelChannel.setEnd c s e).ends.get t).inbound, ∃ b, cmd = .data b := by
    intro t ht cmd hcmd
    rcases Side.eq_or_other s t with rfl | rfl
    · rw [setEnd_get_self] at hcmd
      exact hinbound ht cmd hcmd
    · rw [setEnd_get_other] at hcmd
      exact h.commands _ ht cmd hcmd
  cases s with
  | opener =>
    have hph : e.phase = c.ends.opener.phase := hphase
    refine ⟨?_, h.acceptorPhase, ?_, ?_, ?_, h.openerFrames, h.acceptorFrames, h.answeredOnce,
      hcommands⟩
    · show e.phase = .opening ∨ e.phase = .relaying
      rw [hph]
      exact h.openerPhase
    · show e.phase = .opening → _
      rw [hph]
      exact h.unsent
    · show e.phase = .relaying → _
      rw [hph]
      exact h.travelling
    · intro harrived
      obtain ⟨hplace, htable, hwire, -⟩ := h.waiting harrived
      exact ⟨hplace, htable, hwire, (hquiet harrived).2⟩
  | acceptor =>
    have hph : e.phase = c.ends.acceptor.phase := hphase
    have harrived : c.arrived = true := by
      by_contra hne
      have hfalse : c.arrived = false := by simpa using hne
      exact absurd (hquiet hfalse).1 (by decide)
    refine ⟨h.openerPhase, ?_, h.unsent, h.travelling, ?_, h.openerFrames, h.acceptorFrames, ?_,
      hcommands⟩
    · show e.phase ≠ .opening
      rw [hph]
      exact h.acceptorPhase
    · exact fun hfalse => absurd hfalse (ne_false_of_eq_true harrived)
    · show _ ≤ if e.phase = .relaying then 1 else 0
      rw [hph]
      exact h.answeredOnce

/-- A relaying end belongs to the opening side as long as the `open` has not arrived. -/
theorem Shape.opener_of_relaying {c : Channel} (h : Shape c) (s : Side)
    (hphase : (c.ends.get s).phase = .relaying) (harrived : c.arrived = false) :
    s = .opener ∧ (c.ends.get s).inbound = [] ∧ (c.ends.get s).pending = [] ∧
      (c.ends.get s).chunk = none := by
  obtain ⟨hplace, -, -, hinbound, hpending, hchunk⟩ := h.waiting harrived
  cases s with
  | opener => exact ⟨rfl, hinbound, hpending, hchunk⟩
  | acceptor =>
    have hfalse : c.ends.acceptor.phase = .relaying := hphase
    rw [hplace] at hfalse
    cases hfalse

theorem sound_setEnd (h : ∀ t, (c.ends.get t).Sound) (he : e.Sound) (t : Side) :
    ((setEnd c s e).ends.get t).Sound := by
  rcases Side.eq_or_other s t with rfl | rfl
  · rw [setEnd_get_self]
    exact he
  · rw [setEnd_get_other]
    exact h _

/-- A step of a relaying end inside its own counters. -/
theorem Inv.setEnd {c : Channel} (h : Inv c) (s : Side) (e : ChannelEnd) (hsound : e.Sound)
    (hphase : e.phase = (c.ends.get s).phase) (hspare : e.spare = (c.ends.get s).spare)
    (hrem : e.window.remaining = (c.ends.get s).window.remaining)
    (hload : Live c → e.load = (c.ends.get s).load)
    (hinbound : ∀ cmd ∈ e.inbound, cmd ∈ (c.ends.get s).inbound)
    (hquiet : c.arrived = false → s = .opener ∧ e.inbound = [] ∧ e.pending = [] ∧ e.chunk = none) :
    Inv (setEnd c s e) := by
  exact ⟨sound_setEnd c s e h.sound hsound, h.covered.setEnd s e hphase hspare hrem,
    h.filled.setEnd s e hphase hload, h.shape.setEnd s e hphase
      (fun ht cmd hcmd => h.shape.commands s ht cmd (hinbound cmd hcmd)) hquiet⟩

theorem inv_take (h : Inv c) (htake : (c.ends.get s).take = some e) : Inv (setEnd c s e) := by
  obtain ⟨hsame, hspare, -, hphase, -⟩ := ChannelEnd.take_spec _ _ htake
  refine h.setEnd s e (ChannelEnd.sound_take _ _ (h.sound s) htake) hsame.phase hspare
    (by rw [hsame.window]) (fun _ => hsame.load_eq) ?_ ?_
  · intro cmd hcmd
    rwa [hsame.inbound] at hcmd
  · intro harrived
    obtain ⟨hs, hinbound, hpending, hchunk⟩ := h.shape.opener_of_relaying s hphase harrived
    exact ⟨hs, hsame.inbound.trans hinbound, hsame.pending.trans hpending,
      hsame.chunk.trans hchunk⟩

theorem inv_stopSending (h : Inv c) (hphase : (c.ends.get s).phase = .relaying) :
    Inv (setEnd c s (c.ends.get s).stopSending) := by
  obtain ⟨hsame, -, -, hspare⟩ := ChannelEnd.stopSending_spec (c.ends.get s)
  have hcap : (c.ends.get s).spare ≤ maxSendCredit := by
    have := h.covered.spare_le h.sound s
    omega
  refine h.setEnd s _ (ChannelEnd.sound_stopSending _ (h.sound s)) hsame.phase (hspare hcap)
    (by rw [hsame.window]) (fun _ => hsame.load_eq) ?_ ?_
  · intro cmd hcmd
    rwa [hsame.inbound] at hcmd
  · intro harrived
    obtain ⟨hs, hinbound, hpending, hchunk⟩ := h.shape.opener_of_relaying s hphase harrived
    exact ⟨hs, hsame.inbound.trans hinbound, hsame.pending.trans hpending,
      hsame.chunk.trans hchunk⟩

theorem inv_stopReceiving (h : Inv c) (hphase : (c.ends.get s).phase = .relaying) :
    Inv (setEnd c s (c.ends.get s).stopReceiving) :=
  h.setEnd s _ (ChannelEnd.sound_stopReceiving _ (h.sound s)) rfl rfl rfl (fun _ => rfl)
    (fun _ hcmd => hcmd) (h.shape.opener_of_relaying s hphase)

theorem flow_sendOrdered_self : flow (sendOrdered c s f) s = flow c s + chargeOf f := by
  have hflow := flow_setWire_self c s ((c.wires.get s).sendOrdered f)
  rw [Wire.charged_sendOrdered] at hflow
  rw [sendOrdered]
  omega

theorem flow_sendOrdered_other :
    flow (sendOrdered c s f) s.other = flow c s.other + creditOf f := by
  have hflow := flow_setWire_other c s ((c.wires.get s).sendOrdered f)
  rw [Wire.granting_sendOrdered] at hflow
  rw [sendOrdered]
  omega

theorem remaining_sendOrdered (t : Side) (f : Frame) :
    remaining (sendOrdered c s f) t = remaining c t := rfl

/-- The side that may send plain frames: the opener after its `open`, the acceptor once
that has arrived. -/
def MaySend (c : Channel) : Side → Prop
  | .opener => c.ends.opener.phase = .relaying
  | .acceptor => c.arrived = true

theorem Shape.maySend_of_relaying {c : Channel} (h : Shape c) (s : Side)
    (hphase : (c.ends.get s).phase = .relaying) : MaySend c s := by
  cases s with
  | opener => exact hphase
  | acceptor =>
    by_contra harrived
    have hfalse : c.arrived = false := by simpa [MaySend] using harrived
    exact absurd (h.opener_of_relaying .acceptor hphase hfalse).1 (by decide)

theorem isAnswer_of_plain (hf : plain f = true) : isAnswer f = false := by
  cases f with
  | opened success window => cases hf
  | _ => rfl

theorem Shape.setWire_plain {c : Channel} (h : Shape c) (s : Side) (w : Wire) (hs : MaySend c s)
    (hcontrol : c.arrived = false → w.control = [])
    (f : Frame) (hf : plain f = true) (hordered : w.ordered = (c.wires.get s).ordered ++ [f] ∨
      w.ordered = (c.wires.get s).ordered) :
    Shape (setWire c s w) := by
  have hmem : ∀ g ∈ w.ordered, g ∈ (c.wires.get s).ordered ∨ plain g = true := by
    intro g hg
    rcases hordered with heq | heq
    · rw [heq, List.mem_append, List.mem_singleton] at hg
      rcases hg with hg | rfl
      · exact Or.inl hg
      · exact Or.inr hf
    · exact Or.inl (heq ▸ hg)
  cases s with
  | opener =>
    have hphase : c.ends.opener.phase = .relaying := hs
    refine ⟨h.openerPhase, h.acceptorPhase, ?_, ?_, h.waiting, ?_, h.acceptorFrames,
      h.answeredOnce, h.commands⟩
    · intro hopening
      have hopening' : c.ends.opener.phase = .opening := hopening
      rw [hphase] at hopening'
      cases hopening'
    · intro _ harrived
      obtain ⟨-, rest, hrest, hplain⟩ := h.travelling hphase harrived
      refine ⟨hcontrol harrived, ?_⟩
      have hold : (c.wires.get .opener).ordered = .open channelWindow :: rest := hrest
      show ∃ rest, w.ordered = _ ∧ _
      rcases hordered with heq | heq
      · refine ⟨rest ++ [f], ?_, ?_⟩
        · rw [heq, hold, List.cons_append]
        · intro g hg
          rcases List.mem_append.mp hg with hg | hg
          · exact hplain g hg
          · rw [List.mem_singleton.mp hg]
            exact hf
      · exact ⟨rest, heq.trans hold, hplain⟩
    · intro harrived g hg
      rcases hmem g hg with hold | hplain
      · exact h.openerFrames harrived g hold
      · exact hplain
  | acceptor =>
    have harrived : c.arrived = true := hs
    refine ⟨h.openerPhase, h.acceptorPhase, h.unsent, h.travelling, ?_, h.openerFrames, ?_, ?_,
      h.commands⟩
    · exact fun hfalse => absurd hfalse (ne_false_of_eq_true harrived)
    · intro g hg
      rcases hmem g hg with hold | hplain
      · exact h.acceptorFrames g hold
      · exact Or.inl hplain
    · have hcount : w.ordered.countP isAnswer = c.wires.acceptor.ordered.countP isAnswer := by
        rcases hordered with heq | heq
        · rw [heq, List.countP_append]
          simp [isAnswer_of_plain f hf, Both.get]
        · rw [heq]
          rfl
      show w.ordered.countP isAnswer + _ ≤ _
      rw [hcount]
      exact h.answeredOnce

theorem Shape.control_eq_nil {c : Channel} (h : Shape c) (s : Side) (hs : MaySend c s)
    (harrived : c.arrived = false) : (c.wires.get s).control = [] := by
  cases s with
  | opener => exact (h.travelling hs harrived).1
  | acceptor =>
    have htrue : c.arrived = true := hs
    rw [harrived] at htrue
    cases htrue

theorem Shape.sendOrdered {c : Channel} (h : Shape c) (s : Side) (f : Frame) (hs : MaySend c s)
    (hf : plain f = true) : Shape (sendOrdered c s f) :=
  h.setWire_plain s _ hs (fun harrived => h.control_eq_nil s hs harrived) f hf (Or.inl rfl)

/-- A `close` moves no credit. -/
theorem Inv.sendClose {c : Channel} (h : Inv c) (s : Side) (hs : MaySend c s) :
    Inv (sendOrdered c s .close) := by
  refine ⟨h.sound, ?_, h.filled, h.shape.sendOrdered s _ hs rfl⟩
  refine h.covered.of_shift id ?_
  intro t
  have hself := flow_sendOrdered_self c s .close
  have hother := flow_sendOrdered_other c s .close
  simp only [chargeOf, creditOf] at hself hother
  refine ⟨0, 0, rfl, ?_⟩
  rcases Side.eq_or_other s t with rfl | rfl <;> constructor <;> omega

theorem inv_read (bytes : Bytes) (e : ChannelEnd) (h : Inv c)
    (hread : (c.ends.get s).read bytes = some e) :
    Inv (sendOrdered (setEnd c s e) s (.data bytes)) := by
  obtain ⟨hsame, -, -, hphase, hspare⟩ := ChannelEnd.read_spec _ _ bytes (h.sound s) hread
  have hcap : (c.ends.get s).spare ≤ maxSendCredit := by
    have := h.covered.spare_le h.sound s
    omega
  have hpaid := hspare hcap
  have hshape : Shape (setEnd c s e) := by
    refine h.shape.setEnd s e hsame.phase ?_ ?_
    · rw [hsame.inbound]
      exact h.shape.commands s
    · intro harrived
      obtain ⟨hs, hinbound, hpending, hchunk⟩ := h.shape.opener_of_relaying s hphase harrived
      exact ⟨hs, hsame.inbound.trans hinbound, hsame.pending.trans hpending,
        hsame.chunk.trans hchunk⟩
  refine ⟨?_, ?_, ?_, ?_⟩
  · exact sound_setEnd c s e h.sound (ChannelEnd.sound_read _ _ bytes (h.sound _) hread)
  · refine h.covered.of_shift id ?_
    intro t
    have hself := flow_setEnd_self c s e
    have hother := flow_setEnd_other c s e hsame.phase
    have hsendSelf := flow_sendOrdered_self (setEnd c s e) s (.data bytes)
    have hsendOther := flow_sendOrdered_other (setEnd c s e) s (.data bytes)
    simp only [chargeOf, creditOf] at hsendSelf hsendOther
    refine ⟨0, 0, ?_, ?_⟩
    · rw [remaining_sendOrdered]
      rcases Side.eq_or_other s t with rfl | rfl
      · simp only [remaining, setEnd_get_other]
      · simp only [remaining, Side.other_other, setEnd_get_self, hsame.window]
    · rcases Side.eq_or_other s t with rfl | rfl <;> constructor <;> omega
  · exact h.filled.setEnd s e hsame.phase (fun _ => hsame.load_eq)
  · refine hshape.sendOrdered s _ ?_ rfl
    apply hshape.maySend_of_relaying
    rw [setEnd_get_self]
    exact hsame.phase.trans hphase

theorem inv_nextChunk (h : Inv c)
    (hnext : (c.ends.get s).nextChunk = some e) : Inv (setEnd c s e) := by
  obtain ⟨hsame, hphase, hkeep, hwindow, hbuffered⟩ := ChannelEnd.nextChunk_spec _ _ hnext
  have hload : e.load = (c.ends.get s).load := by
    rw [ChannelEnd.load, ChannelEnd.load, hwindow, hbuffered]
  refine h.setEnd s e (ChannelEnd.sound_nextChunk _ _ (h.sound s) hnext) hkeep hsame.spare_eq
    (by rw [hwindow]) (fun _ => hload) (ChannelEnd.nextChunk_inbound _ _ hnext) ?_
  intro harrived
  obtain ⟨-, hinbound, hpending, -⟩ := h.shape.opener_of_relaying s hphase harrived
  rw [ChannelEnd.nextChunk_of_empty _ hpending hinbound] at hnext
  cases hnext

theorem inv_setupCommand (result : Setup) (e : ChannelEnd) (h : Inv c)
    (hsetup : c.ends.acceptor.setupCommand = some (result, e)) :
    Inv (if result = .closes then sendOrdered (setEnd c .acceptor e) .acceptor .close
      else setEnd c .acceptor e) := by
  obtain ⟨hsame, hphase, hkeep, hwindow, -, -, hgoes, -⟩ :=
    ChannelEnd.setupCommand_spec _ _ _ hsetup
  have hsound := h.sound .acceptor
  have hinbound := ChannelEnd.setupCommand_inbound _ _ _ hsetup
  have harrived : c.arrived = true := by
    by_contra hne
    have hfalse : c.arrived = false := by simpa using hne
    rw [(h.shape.waiting hfalse).1] at hsetup
    cases hsetup
  have hlive : Live c → result = .goesOn := by
    intro hl
    exact ChannelEnd.setupCommand_goesOn _ _ _ hsound
      (h.shape.commands .acceptor (hl.2 harrived)) hsetup
  have hset : Inv (setEnd c .acceptor e) := by
    refine h.setEnd .acceptor e (ChannelEnd.sound_setupCommand _ _ _ hsound hsetup) hkeep
      hsame.spare_eq (by rw [hwindow]; rfl) ?_ hinbound ?_
    · intro hl
      rw [ChannelEnd.load, ChannelEnd.load, hwindow, hgoes (hlive hl)]
      rfl
    · intro hfalse
      rw [harrived] at hfalse
      cases hfalse
  split
  · exact hset.sendClose .acceptor harrived
  · exact hset

theorem Shape.sendControl {c : Channel} (h : Shape c) (sinks : Both Sink) (s : Side) (add : ℕ)
    (hs : MaySend c s) (harrived : c.arrived = true) : Shape (sendControl sinks c s add) := by
  have hnot : c.arrived = false → ((c.wires.get s).sendControl (sinks.get s) add).control = [] := by
    intro hfalse
    rw [harrived] at hfalse
    cases hfalse
  refine h.setWire_plain s _ hs hnot (.windowUpdate add) rfl ?_
  cases sinks.get s with
  | queued => exact Or.inr rfl
  | direct => exact Or.inl rfl

theorem flow_sendControl_self : flow (sendControl sinks c s add) s = flow c s := by
  have hflow := flow_setWire_self c s ((c.wires.get s).sendControl (sinks.get s) add)
  rw [Wire.charged_sendControl] at hflow
  rw [sendControl]
  omega

theorem flow_sendControl_other :
    flow (sendControl sinks c s add) s.other = flow c s.other + add := by
  have hflow := flow_setWire_other c s ((c.wires.get s).sendControl (sinks.get s) add)
  rw [Wire.granting_sendControl] at hflow
  rw [sendControl]
  omega

theorem inv_finishChunk (update : Option ℕ)
    (e : ChannelEnd) (h : Inv c) (hfinish : (c.ends.get s).finishChunk = some (update, e)) :
    Inv (match update with
      | none => setEnd c s e
      | some add => sendControl sinks (setEnd c s e) s add) := by
  obtain ⟨hsame, hphase, hkeep, hload, hrem, -, -⟩ :=
    ChannelEnd.finishChunk_spec _ _ _ (h.sound s) hfinish
  have hsound := ChannelEnd.sound_finishChunk _ _ _ (h.sound s) hfinish
  obtain ⟨hin, hpend, hchunk⟩ := ChannelEnd.finishChunk_frame _ _ _ hfinish
  -- a chunk is being written, so the `open` has arrived
  have harrived : c.arrived = true := by
    by_contra hne
    have hfalse : c.arrived = false := by simpa using hne
    exact absurd (h.shape.opener_of_relaying s hphase hfalse).2.2.2 hchunk
  have hquiet : c.arrived = false →
      s = .opener ∧ e.inbound = [] ∧ e.pending = [] ∧ e.chunk = none := by
    intro hfalse
    rw [harrived] at hfalse
    cases hfalse
  have hinbound : ∀ cmd ∈ e.inbound, cmd ∈ (c.ends.get s).inbound := fun cmd hcmd => hin ▸ hcmd
  have hshape := h.shape.setEnd s e hkeep
    (fun ht cmd hcmd => h.shape.commands s ht cmd (hinbound cmd hcmd)) hquiet
  cases update with
  | none =>
    exact h.setEnd s e hsound hkeep hsame.spare_eq (by simpa using hrem) (fun _ => hload) hinbound
      hquiet
  | some add =>
    refine ⟨sound_setEnd c s e h.sound hsound, ?_, ?_, ?_⟩
    · refine h.covered.of_shift id ?_
      intro t
      have hself := flow_setEnd_self c s e
      have hother := flow_setEnd_other c s e hkeep
      have hcontrolSelf := flow_sendControl_self sinks (setEnd c s e) s add
      have hcontrolOther := flow_sendControl_other sinks (setEnd c s e) s add
      have hspare := hsame.spare_eq
      rcases Side.eq_or_other s t with rfl | rfl
      · refine ⟨0, 0, ?_, ?_, ?_⟩
        · show remaining (setEnd c _ e) _ + 0 = _
          simp only [remaining, setEnd_get_other]
        · simp only
          omega
        · intro _
          simp only
          omega
      · refine ⟨0, add, ?_, ?_, ?_⟩
        · show remaining (setEnd c s e) _ + 0 = _
          simp only [remaining, Side.other_other, setEnd_get_self, hrem, Option.getD_some]
          omega
        · simp only
          omega
        · intro _
          simp only
          omega
    · exact h.filled.setEnd s e hkeep (fun _ => hload)
    · refine hshape.sendControl sinks s add ?_ harrived
      apply hshape.maySend_of_relaying
      rw [setEnd_get_self]
      exact hkeep.trans hphase

theorem inv_connected (h : Inv c) (harrived : c.arrived = true)
    (hconnected : c.ends.acceptor.connected = some e) : Inv (setEnd c .acceptor e) := by
  have hsound : c.ends.acceptor.Sound := h.sound .acceptor
  obtain ⟨hphase, heq⟩ := ChannelEnd.connected_spec _ _ hsound hconnected
  have hph : e.phase = .granted := by rw [heq]
  have hrem : e.window.remaining =
      c.ends.acceptor.window.remaining + (channelWindow - initialWindow) := by rw [heq]
  have hspare : e.spare = c.ends.acceptor.spare := by rw [heq]; rfl
  refine ⟨sound_setEnd c _ e h.sound (ChannelEnd.sound_connected _ _ hsound hconnected),
    ?_, ?_, ?_⟩
  · refine h.covered.of_shift id ?_
    intro t
    have hself := flow_setEnd_self c .acceptor e
    have hother := flow_setEnd_phase c .acceptor e
    have hold : (c.ends.get .acceptor).phase = .connecting := hphase
    simp only [Side.other, owedIn, hph, hold] at hother
    cases t with
    | opener =>
      refine ⟨0, channelWindow - initialWindow, ?_, ?_, ?_⟩
      · exact hrem
      · omega
      · intro _
        omega
    | acceptor =>
      have hspare' : e.spare = (c.ends.get .acceptor).spare := hspare
      refine ⟨0, 0, rfl, ?_, ?_⟩
      · omega
      · intro _
        omega
  · intro hlive t
    cases t with
    | opener => exact h.filled hlive .opener
    | acceptor =>
      have hfull : c.ends.acceptor.load = c.ends.acceptor.grantedWindow :=
        h.filled hlive .acceptor
      show e.load = e.grantedWindow
      have hload : e.load = c.ends.acceptor.load + (channelWindow - initialWindow) := by
        rw [heq]
        simp only [ChannelEnd.load, ChannelEnd.buffered]
        omega
      rw [hload, hfull, ChannelEnd.grantedWindow, ChannelEnd.grantedWindow, if_pos hphase, hph]
      decide
  · have hinbound : e.inbound = c.ends.acceptor.inbound := by rw [heq]
    have hopen := h.shape
    refine ⟨hopen.openerPhase, ?_, hopen.unsent, hopen.travelling, ?_, hopen.openerFrames,
      hopen.acceptorFrames, ?_, ?_⟩
    · show e.phase ≠ .opening
      rw [hph]
      decide
    · exact fun hfalse => absurd hfalse (ne_false_of_eq_true harrived)
    · have hcount := hopen.answeredOnce
      rw [hphase] at hcount
      show _ ≤ if e.phase = .relaying then 1 else 0
      rw [hph]
      exact hcount
    · intro t ht cmd hcmd
      cases t with
      | opener => exact hopen.commands .opener ht cmd hcmd
      | acceptor =>
        have hcmd' : cmd ∈ e.inbound := hcmd
        rw [hinbound] at hcmd'
        exact hopen.commands .acceptor ht cmd hcmd'

theorem inv_sendOpened (h : Inv c) (hphase : c.ends.acceptor.phase = .granted) :
    Inv (sendOrdered (setEnd c .acceptor c.ends.acceptor.relay) .acceptor
      (.opened true channelWindow)) := by
  have hsound : c.ends.acceptor.Sound := h.sound .acceptor
  have hopen := h.shape
  have harrived : c.arrived = true := by
    by_contra hne
    have hfalse : c.arrived = false := by simpa using hne
    rw [(hopen.waiting hfalse).1] at hphase
    cases hphase
  have hcount : c.wires.acceptor.ordered.countP isAnswer + c.raised.toNat = 0 := by
    have := hopen.answeredOnce
    rw [hphase] at this
    simpa using this
  refine ⟨sound_setEnd c _ _ h.sound (ChannelEnd.sound_relay _ (Or.inl hphase) hsound), ?_, ?_, ?_⟩
  · refine h.covered.of_shift id ?_
    intro t
    have hself := flow_setEnd_self c .acceptor c.ends.acceptor.relay
    have hother := flow_setEnd_phase c .acceptor c.ends.acceptor.relay
    have hsendSelf := flow_sendOrdered_self
      (setEnd c .acceptor c.ends.acceptor.relay) .acceptor
      (.opened true channelWindow)
    have hsendOther := flow_sendOrdered_other
      (setEnd c .acceptor c.ends.acceptor.relay) .acceptor
      (.opened true channelWindow)
    have hold : (c.ends.get .acceptor).phase = .granted := hphase
    have hnew : c.ends.acceptor.relay.phase = .relaying := rfl
    have hspare : c.ends.acceptor.relay.spare =
        (c.ends.get .acceptor).spare := rfl
    have hextra : effectiveWindow channelWindow - initialWindow =
        channelWindow - initialWindow := by decide
    simp only [Side.other, owedIn, hold, hnew, creditOf, chargeOf, hextra]
      at hother hsendOther hsendSelf
    refine ⟨0, 0, ?_, ?_⟩
    · cases t <;> rfl
    · cases t <;> constructor <;> omega
  · intro hlive t
    cases t with
    | opener => exact h.filled hlive .opener
    | acceptor =>
      have hfull : c.ends.acceptor.load = c.ends.acceptor.grantedWindow :=
        h.filled hlive .acceptor
      rw [ChannelEnd.grantedWindow, hphase] at hfull
      exact hfull
  · refine ⟨hopen.openerPhase, ?_, hopen.unsent, hopen.travelling, ?_, hopen.openerFrames,
      ?_, ?_, ?_⟩
    · intro hfalse
      cases hfalse
    · exact fun hfalse => absurd hfalse (ne_false_of_eq_true harrived)
    · intro f hf
      have hf' : f ∈ c.wires.acceptor.ordered ++ [.opened true channelWindow] := hf
      rcases List.mem_append.mp hf' with hold | hnew
      · exact hopen.acceptorFrames f hold
      · exact Or.inr (Or.inr (List.mem_singleton.mp hnew))
    · show (c.wires.acceptor.ordered ++ [Frame.opened true channelWindow]).countP isAnswer +
        c.raised.toNat ≤ 1
      rw [List.countP_append]
      have hone : [Frame.opened true channelWindow].countP isAnswer = 1 := by decide
      omega
    · intro t ht cmd hcmd
      cases t with
      | opener => exact hopen.commands .opener ht cmd hcmd
      | acceptor => exact hopen.commands .acceptor ht cmd hcmd

theorem inv_sendOpen (h : Inv c) (hphase : c.ends.opener.phase = .opening) :
    Inv (sendOrdered (setEnd c .opener c.ends.opener.relay) .opener
      (.open channelWindow)) := by
  have hsound : c.ends.opener.Sound := h.sound .opener
  have hopen := h.shape
  obtain ⟨harrived, hwire⟩ := hopen.unsent hphase
  refine ⟨sound_setEnd c _ _ h.sound (ChannelEnd.sound_relay _ (Or.inr hphase) hsound), ?_, ?_, ?_⟩
  · refine h.covered.of_shift id ?_
    intro t
    have hself := flow_setEnd_self c .opener c.ends.opener.relay
    have hother := flow_setEnd_phase c .opener c.ends.opener.relay
    have hsendSelf := flow_sendOrdered_self
      (setEnd c .opener c.ends.opener.relay) .opener (.open channelWindow)
    have hsendOther := flow_sendOrdered_other
      (setEnd c .opener c.ends.opener.relay) .opener (.open channelWindow)
    have hold : (c.ends.get .opener).phase = .opening := hphase
    have hnew : c.ends.opener.relay.phase = .relaying := rfl
    have hspare : c.ends.opener.relay.spare =
        (c.ends.get .opener).spare := rfl
    have hextra : newCredit (effectiveWindow channelWindow) = channelWindow := by decide
    simp only [Side.other, owedIn, hold, hnew, creditOf, chargeOf, hextra]
      at hother hsendOther hsendSelf
    refine ⟨0, 0, ?_, ?_⟩
    · cases t <;> rfl
    · cases t <;> constructor <;> omega
  · intro hlive t
    cases t with
    | opener =>
      have hfull : c.ends.opener.load = c.ends.opener.grantedWindow := h.filled hlive .opener
      rw [ChannelEnd.grantedWindow, hphase] at hfull
      exact hfull
    | acceptor => exact h.filled hlive .acceptor
  · refine ⟨Or.inr rfl, hopen.acceptorPhase, ?_, ?_, hopen.waiting, ?_, hopen.acceptorFrames,
      hopen.answeredOnce, ?_⟩
    · intro hfalse
      cases hfalse
    · intro _ _
      refine ⟨?_, [], ?_, ?_⟩
      · show c.wires.opener.control = []
        rw [hwire]
      · show c.wires.opener.ordered ++ [.open channelWindow] = _
        rw [hwire]
        rfl
      · intro f hf
        cases hf
    · intro htrue
      have htrue' : c.arrived = true := htrue
      rw [harrived] at htrue'
      cases htrue'
    · intro t ht cmd hcmd
      cases t with
      | opener => exact hopen.commands .opener ht cmd hcmd
      | acceptor => exact hopen.commands .acceptor ht cmd hcmd

theorem live_of_set_false
    (hlive : Live { c with inTable := c.inTable.set s false }) : Live c ∧ c.arrived = false := by
  obtain ⟨hopener, hacceptor⟩ := hlive
  cases s with
  | opener => cases hopener
  | acceptor =>
    have harrived : c.arrived = false := by
      by_contra hne
      exact Bool.false_ne_true (hacceptor (by simpa using hne))
    refine ⟨⟨hopener, ?_⟩, harrived⟩
    intro htrue
    rw [harrived] at htrue
    cases htrue

/-- An entry is taken out of a table. -/
theorem inv_leave (h : Inv c) : Inv { c with inTable := c.inTable.set s false } := by
  have hopen := h.shape
  refine ⟨h.sound, ?_, ?_, ?_⟩
  · refine h.covered.of_shift (fun hlive => (live_of_set_false c s hlive).1) ?_
    intro t
    exact ⟨0, 0, rfl, Nat.le_refl _, fun _ => rfl⟩
  · intro hlive t
    exact h.filled (live_of_set_false c s hlive).1 t
  · refine ⟨hopen.openerPhase, hopen.acceptorPhase, hopen.unsent, hopen.travelling, ?_,
      hopen.openerFrames, hopen.acceptorFrames, hopen.answeredOnce, ?_⟩
    · intro harrived
      obtain ⟨hplace, htable, hrest⟩ := hopen.waiting harrived
      refine ⟨hplace, ?_, hrest⟩
      cases s with
      | opener => exact htable
      | acceptor => rfl
    · intro t ht
      apply hopen.commands t
      rcases Side.eq_or_other s t with rfl | rfl
      · rw [Both.get_set_self] at ht
        cases ht
      · rwa [Both.get_set_other] at ht

/-- The entry is dropped and the task told. -/
theorem inv_drop (cmd : Inbound) (h : Inv c) (harrived : c.arrived = true)
    (hcmd : ChannelEnd.inboundCharge cmd = 0) : Inv (drop c s cmd) := by
  obtain ⟨hsame, hphase, hwindow, -, -, -, hbuffered⟩ :=
    ChannelEnd.command_spec (c.ends.get s) cmd hcmd
  have hleft := inv_leave c s h
  have hdrop : drop c s cmd =
      setEnd { c with inTable := c.inTable.set s false } s ((c.ends.get s).command cmd) := rfl
  have hnot : ¬ Live { c with inTable := c.inTable.set s false } := by
    intro hlive
    have hfalse := (live_of_set_false c s hlive).2
    rw [harrived] at hfalse
    cases hfalse
  rw [hdrop]
  refine ⟨sound_setEnd _ s _ h.sound (ChannelEnd.sound_command _ _ hcmd (h.sound s)), ?_, ?_, ?_⟩
  · exact hleft.covered.setEnd s _ hphase hsame.spare_eq (by rw [hwindow])
  · intro hlive
    exact absurd hlive hnot
  · refine hleft.shape.setEnd s _ hphase ?_ ?_
    · intro ht
      rw [Both.get_set_self] at ht
      cases ht
    · exact fun hfalse => absurd hfalse (ne_false_of_eq_true harrived)

theorem Wire.charged_setOrdered
    (hhead : w.ordered = f :: rest) : (w.setOrdered rest).charged + chargeOf f = w.charged := by
  simp only [Wire.charged, Wire.setOrdered, hhead, List.map_cons, List.sum_cons]
  omega

theorem Wire.granting_setOrdered
    (hhead : w.ordered = f :: rest) : (w.setOrdered rest).granting + creditOf f = w.granting := by
  simp only [Wire.granting, Wire.setOrdered, hhead, List.map_cons, List.sum_cons]
  omega

theorem Shape.pop {c : Channel} (h : Shape c) (s : Side) (f : Frame) (rest : List Frame)
    (harrived : c.arrived = true) (hhead : (c.wires.get s).ordered = f :: rest) :
    Shape (pop c s rest) := by
  have hmem : ∀ g ∈ rest, g ∈ (c.wires.get s).ordered := by
    intro g hg
    rw [hhead]
    exact List.mem_cons_of_mem _ hg
  have hrelaying : c.ends.opener.phase ≠ .opening := by
    intro hopening
    have hfalse := (h.unsent hopening).1
    rw [harrived] at hfalse
    cases hfalse
  cases s with
  | opener =>
    refine ⟨h.openerPhase, h.acceptorPhase, ?_, ?_, h.waiting, ?_, h.acceptorFrames,
      h.answeredOnce, h.commands⟩
    · intro hopening
      exact absurd hopening hrelaying
    · intro _ hfalse
      have hfalse' : c.arrived = false := hfalse
      rw [harrived] at hfalse'
      cases hfalse'
    · intro _ g hg
      exact h.openerFrames harrived g (hmem g hg)
  | acceptor =>
    refine ⟨h.openerPhase, h.acceptorPhase, h.unsent, h.travelling, ?_, h.openerFrames, ?_, ?_,
      h.commands⟩
    · exact fun hfalse => absurd hfalse (ne_false_of_eq_true harrived)
    · intro g hg
      exact h.acceptorFrames g (hmem g hg)
    · have hcount := h.answeredOnce
      have hhead' : c.wires.acceptor.ordered = f :: rest := hhead
      rw [hhead', List.countP_cons] at hcount
      show rest.countP isAnswer + c.raised.toNat ≤ if c.ends.acceptor.phase =
        .relaying then 1 else 0
      omega

/-- A side without the channel in its table keeps it from being live. -/
theorem not_live (harrived : c.arrived = true) (htable : c.inTable.get s = false) : ¬ Live c := by
  intro hlive
  obtain ⟨hopener, hacceptor⟩ := hlive
  cases s with
  | opener => exact Bool.false_ne_true (htable.symm.trans hopener)
  | acceptor => exact Bool.false_ne_true (htable.symm.trans (hacceptor harrived))

/-- Less travels on a wire; on the wire of a live channel only what has no weight goes. -/
theorem inv_lose (h : Inv c) (hshape : Shape (setWire c s w))
    (hcharged : w.charged ≤ (c.wires.get s).charged)
    (hgranting : w.granting ≤ (c.wires.get s).granting)
    (hkeep : Live c → w.charged = (c.wires.get s).charged ∧
      w.granting = (c.wires.get s).granting) : Inv (setWire c s w) := by
  have hself := flow_setWire_self c s w
  have hother := flow_setWire_other c s w
  refine ⟨h.sound, ?_, h.filled, hshape⟩
  refine h.covered.of_shift id ?_
  intro t
  refine ⟨0, 0, rfl, ?_, ?_⟩
  · rcases Side.eq_or_other s t with rfl | rfl <;> omega
  · intro hlive
    obtain ⟨hcharge, hcredit⟩ := hkeep hlive
    rcases Side.eq_or_other s t with rfl | rfl <;> omega

/-- A frame without weight is read, or the channel is no longer live and the frame is
lost. -/
theorem inv_pop (h : Inv c)
    (harrived : c.arrived = true) (hhead : (c.wires.get s.other).ordered = f :: rest)
    (hweight : Live c → chargeOf f = 0 ∧ creditOf f = 0) : Inv (pop c s.other rest) := by
  have hcharged := Wire.charged_setOrdered _ f rest hhead
  have hgranting := Wire.granting_setOrdered _ f rest hhead
  refine inv_lose c s.other _ h (h.shape.pop s.other f rest harrived hhead) ?_ ?_ ?_
  · omega
  · omega
  · intro hlive
    obtain ⟨hcharge, hcredit⟩ := hweight hlive
    constructor <;> omega

/-- What leaves the wire from the other side arrives at the end of side `s`: `q` as a charge on
its window, `g` as credit. -/
theorem inv_arrive (q g : ℕ) (h : Inv c) (hshape : Shape (setEnd (setWire c s.other w) s e))
    (hcharged : w.charged + q = (c.wires.get s.other).charged)
    (hgranting : w.granting + g = (c.wires.get s.other).granting)
    (hsound : e.Sound) (hphase : e.phase = (c.ends.get s).phase)
    (hspare : e.spare = (c.ends.get s).spare + g)
    (hrem : e.window.remaining + q = (c.ends.get s).window.remaining)
    (hload : Live c → e.load = (c.ends.get s).load) :
    Inv (setEnd (setWire c s.other w) s e) := by
  have hwireSelf := flow_setWire_self c s.other w
  have hwireOther := flow_setWire_other c s.other w
  have hendSelf := flow_setEnd_self (setWire c s.other w) s e
  have hendOther := flow_setEnd_other (setWire c s.other w) s e hphase
  have hkeep : (setWire c s.other w).ends.get s = c.ends.get s := rfl
  rw [Side.other_other] at hwireOther
  rw [hkeep] at hendSelf
  refine ⟨sound_setEnd _ s e h.sound hsound, ?_, ?_, hshape⟩
  · refine h.covered.of_shift id ?_
    intro t
    rcases Side.eq_or_other s t with rfl | rfl
    · refine ⟨0, 0, ?_, ?_⟩
      · simp only [remaining, setEnd_get_other]
        rfl
      · constructor <;> omega
    · refine ⟨q, 0, ?_, ?_⟩
      · simp only [remaining, Side.other_other, setEnd_get_self]
        exact hrem
      · constructor <;> omega
  · have hfilled : Filled (setWire c s.other w) := h.filled
    exact hfilled.setEnd s e hphase hload

theorem Shape.arrive {c : Channel} (h : Shape c) (harrived : c.arrived = true) (s : Side)
    (e : ChannelEnd) (hphase : e.phase = (c.ends.get s).phase)
    (hinbound : c.inTable.get s = true → ∀ cmd ∈ e.inbound, ∃ b, cmd = .data b) :
    Shape (TunnelChannel.setEnd c s e) := by
  refine h.setEnd s e hphase hinbound ?_
  intro hfalse
  rw [harrived] at hfalse
  cases hfalse

theorem Covered.fits {c : Channel} (h : Covered c) (s : Side) (bytes : Bytes) (rest : List Frame)
    (hhead : (c.wires.get s.other).ordered = .data bytes :: rest) :
    charge bytes.length ≤ (c.ends.get s).window.remaining := by
  have hcov := (h s.other).1
  have hcharged := Wire.charged_setOrdered _ _ rest hhead
  simp only [flow, remaining, Side.other_other, chargeOf] at hcov hcharged
  omega

theorem inv_onData (bytes : Bytes) (rest : List Frame) (h : Inv c)
    (harrived : c.arrived = true) (hhead : (c.wires.get s.other).ordered = .data bytes :: rest) :
    Inv (onData (pop c s.other rest) s bytes) := by
  have htable' : (pop c s.other rest).inTable.get s = c.inTable.get s := rfl
  have hends : (pop c s.other rest).ends.get s = c.ends.get s := rfl
  unfold onData
  rw [htable', hends]
  cases htable : c.inTable.get s with
  | false =>
    refine inv_pop c s _ rest h harrived hhead ?_
    intro hlive
    exact absurd hlive (not_live c s harrived htable)
  | true =>
    have hfit := h.covered.fits s bytes rest hhead
    have hcharged := Wire.charged_setOrdered _ _ rest hhead
    have hgranting := Wire.granting_setOrdered _ _ rest hhead
    obtain ⟨haccept, hdeliver, hsame, hphase, hwindow, -, -, -, -, hbuffered⟩ :=
      ChannelEnd.receive_spec (c.ends.get s) bytes hfit
    have hsound := ChannelEnd.sound_receive (c.ends.get s) bytes (h.sound s)
    have hrem : ((c.ends.get s).receive bytes).2.2.window.remaining + charge bytes.length =
        (c.ends.get s).window.remaining := by
      rw [hwindow]
      exact Nat.sub_add_cancel hfit
    simp only [if_true, haccept, hdeliver]
    cases hreceiving : (c.ends.get s).receiving with
    | true =>
      have hload : ((c.ends.get s).receive bytes).2.2.load = (c.ends.get s).load := by
        have hbuf := hbuffered hreceiving
        simp only [ChannelEnd.load, hwindow]
        omega
      refine inv_arrive c s _ _ (charge bytes.length) 0 h ?_ hcharged hgranting hsound hphase
        hsame.spare_eq hrem (fun _ => hload)
      refine (h.shape.pop s.other _ rest harrived hhead).arrive harrived s _ hphase ?_
      intro _ cmd hcmd
      have hinbound := ChannelEnd.receive_inbound (c.ends.get s) bytes cmd hcmd
      rcases hinbound with hold | hnew
      · exact h.shape.commands s htable cmd hold
      · exact ⟨bytes, hnew⟩
    | false =>
      -- the task no longer listens: the entry goes, and the frame with it
      have hleft := inv_leave c s h
      have hnot : ¬ Live { c with inTable := c.inTable.set s false } :=
        not_live _ s harrived (Both.get_set_self _ _ _)
      refine inv_arrive { c with inTable := c.inTable.set s false } s _ _ (charge bytes.length) 0
        hleft ?_ hcharged hgranting hsound hphase hsame.spare_eq hrem
        (fun hlive => absurd hlive hnot)
      refine (hleft.shape.pop s.other _ rest harrived hhead).arrive harrived s _ hphase ?_
      intro htrue
      have htrue' : (c.inTable.set s false).get s = true := htrue
      rw [Both.get_set_self] at htrue'
      cases htrue'

/-- Credit arrives at side `s`, by a frame of the ordered queue or by the other one. -/
theorem inv_onWindowUpdate (h : Inv c)
    (harrived : c.arrived = true) (hshape : Shape (setWire c s.other w))
    (hcharged : w.charged = (c.wires.get s.other).charged)
    (hgranting : w.granting + add = (c.wires.get s.other).granting)
    (htable : c.inTable.get s = true) :
    Inv (onWindowUpdate (setWire c s.other w) s add) := by
  have hcap := h.covered.spare_le h.sound s
  have hcredit : addCredit (c.ends.get s).credit add = (c.ends.get s).credit + add := by
    apply addCredit_eq
    simp only [ChannelEnd.spare] at hcap
    omega
  have htable' : (setWire c s.other w).inTable.get s = true := htable
  have hends : (setWire c s.other w).ends.get s = c.ends.get s := rfl
  unfold onWindowUpdate
  rw [htable', hends, if_pos rfl, hcredit]
  refine inv_arrive c s w _ 0 add h ?_ hcharged hgranting ?_ rfl ?_ rfl (fun _ => rfl)
  · exact hshape.arrive harrived s _ rfl (h.shape.commands s)
  · refine ChannelEnd.sound_setCredit _ _ ?_ (h.sound s)
    simp only [ChannelEnd.spare] at hcap
    omega
  · simp only [ChannelEnd.spare]
    omega

theorem inv_raise (h : Inv c) (harrived : c.arrived = true)
    (hhead : (c.wires.get .acceptor).ordered = .opened true channelWindow :: rest) :
    Inv (setEnd (pop c .acceptor rest) .opener
      { c.ends.opener with credit := raiseInitial c.ends.opener.credit channelWindow }) := by
  have hcap := h.covered.spare_le h.sound .opener
  have hcharged := Wire.charged_setOrdered _ _ rest hhead
  have hgranting := Wire.granting_setOrdered _ _ rest hhead
  have hextra : effectiveWindow channelWindow - initialWindow = channelWindow - initialWindow := by
    decide
  simp only [creditOf, chargeOf, hextra] at hcharged hgranting
  have hspare : (c.ends.get .opener).spare =
      c.ends.opener.credit + c.ends.opener.held.getD 0 := rfl
  have hbound : c.ends.opener.credit + (channelWindow - initialWindow) ≤ maxSendCredit := by
    simp only [Side.other] at hcap
    omega
  have hcredit : raiseInitial c.ends.opener.credit channelWindow =
      c.ends.opener.credit + (channelWindow - initialWindow) := by
    simp only [raiseInitial, hextra]
    rw [if_pos (by decide), addCredit_eq _ _ hbound]
  rw [hcredit]
  refine inv_arrive c .opener _ _ 0 (channelWindow - initialWindow) h ?_ hcharged hgranting ?_ rfl
    ?_ rfl (fun _ => rfl)
  · exact (h.shape.pop .acceptor _ rest harrived hhead).arrive harrived .opener _ rfl
      (h.shape.commands .opener)
  · exact ChannelEnd.sound_setCredit _ _ hbound (h.sound .opener)
  · rw [hspare]
    simp only [ChannelEnd.spare]
    omega

/-- The credit of the opener is marked as raised once there is no answer on its way any more. -/
theorem inv_raised (frames : List Frame) (phase : Phase) (h : Inv c)
    (hframes : c.wires.acceptor.ordered = frames) (hphase : c.ends.acceptor.phase = phase)
    (hanswers : frames.countP isAnswer + 1 ≤ if phase = .relaying then 1 else 0) :
    Inv { c with raised := true } := by
  have hshape := h.shape
  subst hframes hphase
  exact ⟨h.sound, h.covered, h.filled, hshape.openerPhase, hshape.acceptorPhase, hshape.unsent,
    hshape.travelling, hshape.waiting, hshape.openerFrames, hshape.acceptorFrames, hanswers,
    hshape.commands⟩

theorem acceptor_setEnd_opener : (setEnd c .opener e).ends.acceptor = c.ends.acceptor := rfl

theorem inv_onOpened (success : Bool) (window : ℕ) (rest : List Frame) (h : Inv c)
    (harrived : c.arrived = true)
    (hhead : (c.wires.get .acceptor).ordered = .opened success window :: rest) :
    Inv (onOpened (pop c .acceptor rest) success window) := by
  have hmem : Frame.opened success window ∈ c.wires.acceptor.ordered := by
    have hhead' : c.wires.acceptor.ordered = .opened success window :: rest := hhead
    rw [hhead']
    exact List.mem_cons_self
  have htable' : (pop c .acceptor rest).inTable.opener = c.inTable.opener := rfl
  unfold onOpened
  rw [htable']
  cases htable : c.inTable.opener with
  | false =>
    refine inv_pop c .opener _ rest h harrived hhead ?_
    intro hlive
    exact absurd hlive (not_live c .opener harrived htable)
  | true =>
    cases success with
    | false =>
      have hpop := inv_pop c .opener _ rest h harrived hhead (fun _ => ⟨rfl, rfl⟩)
      exact inv_drop _ .opener .close hpop harrived rfl
    | true =>
      obtain rfl : window = channelWindow := by
        rcases h.shape.acceptorFrames _ hmem with hplain | hfalse | htrue
        · cases hplain
        · cases hfalse
        · exact (Frame.opened.injEq .. ▸ htrue).2
      have hcount := h.shape.answeredOnce
      have hhead' : c.wires.acceptor.ordered = .opened true channelWindow :: rest := hhead
      rw [hhead', List.countP_cons] at hcount
      have hraised : (pop c .acceptor rest).raised = false := by
        show c.raised = false
        by_contra hne
        have htrue : c.raised = true := by simpa using hne
        simp only [htrue, isAnswer, if_true, Bool.toNat_true] at hcount
        split at hcount <;> omega
      have harrive := inv_raise c rest h harrived hhead
      rw [if_pos rfl, if_pos rfl, if_neg (by rw [hraised]; decide)]
      refine inv_raised _ rest c.ends.acceptor.phase harrive rfl ?_ ?_
      · exact congrArg ChannelEnd.phase (acceptor_setEnd_opener (pop c .acceptor rest) _)
      · simp only [isAnswer, if_true] at hcount
        omega

theorem Shape.arrived {c c' : Channel} (h : Shape c) (rest : List Frame)
    (harrived : c.arrived = false) (hplain : ∀ f ∈ rest, plain f = true)
    (hphase : c.ends.opener.phase = .relaying) (harrived' : c'.arrived = true)
    (hopener : c'.ends.opener = c.ends.opener) (htable : c'.inTable.opener = c.inTable.opener)
    (hraised : c'.raised = c.raised) (hrest : c'.wires.opener.ordered = rest)
    (hconnecting : c'.ends.acceptor.phase = .connecting) (hinbound : c'.ends.acceptor.inbound = [])
    (hsent : ∀ f ∈ c'.wires.acceptor.ordered, f = .opened false 0) : Shape c' := by
  refine ⟨?_, ?_, ?_, ?_, ?_, ?_, ?_, ?_, ?_⟩
  · rw [hopener]
    exact h.openerPhase
  · rw [hconnecting]
    decide
  · intro hopening
    rw [hopener, hphase] at hopening
    cases hopening
  · intro _ hfalse
    rw [harrived'] at hfalse
    cases hfalse
  · intro hfalse
    rw [harrived'] at hfalse
    cases hfalse
  · intro _ f hf
    rw [hrest] at hf
    exact hplain f hf
  · intro f hf
    exact Or.inr (Or.inl (hsent f hf))
  · have hzero : c'.wires.acceptor.ordered.countP isAnswer = 0 := by
      rw [List.countP_eq_zero]
      intro f hf
      rw [hsent f hf]
      decide
    have hcount := h.answeredOnce
    rw [(h.waiting harrived).1] at hcount
    have hnot : c.raised.toNat ≤ 0 := Nat.le_trans (Nat.le_add_left _ _) hcount
    rw [hzero, hraised]
    omega
  · intro t ht cmd hcmd
    cases t with
    | opener =>
      have ht' : c'.inTable.opener = true := ht
      have hcmd' : cmd ∈ c'.ends.opener.inbound := hcmd
      rw [hopener] at hcmd'
      rw [htable] at ht'
      exact h.commands .opener ht' cmd hcmd'
    | acceptor =>
      have hcmd' : cmd ∈ c'.ends.acceptor.inbound := hcmd
      rw [hinbound] at hcmd'
      cases hcmd'

/-- The `open` arrives and is accepted or refused. -/
theorem inv_onOpen (accepts : Bool) (h : Inv c) (harrived : c.arrived = false)
    (hhead : c.wires.opener.ordered = .open channelWindow :: rest)
    (hplain : ∀ f ∈ rest, plain f = true) (hphase : c.ends.opener.phase = .relaying) :
    Inv (onOpen (pop c .opener rest) channelWindow accepts) := by
  obtain ⟨hplace, htable, hwire, -⟩ := h.shape.waiting harrived
  have harrived' : (pop c .opener rest).arrived = false := harrived
  have hlive : c.inTable.opener = true → Live c := by
    intro hopener
    refine ⟨hopener, ?_⟩
    intro htrue
    rw [harrived] at htrue
    cases htrue
  have hcharged := Wire.charged_setOrdered _ _ rest hhead
  have hgranting := Wire.granting_setOrdered _ _ rest hhead
  have hcredit : creditOf (.open channelWindow) = channelWindow := by decide
  have hcharge : chargeOf (.open channelWindow) = 0 := rfl
  rw [hcredit] at hgranting
  rw [hcharge] at hcharged
  unfold onOpen
  rw [harrived', if_neg (by decide)]
  cases accepts with
  | true =>
    refine ⟨?_, ?_, ?_, ?_⟩
    · intro t
      cases t with
      | opener => exact h.sound .opener
      | acceptor => exact ChannelEnd.sound_incoming channelWindow
    · refine h.covered.of_shift (fun hl => hlive hl.1) ?_
      intro t
      have hspare : (ChannelEnd.incoming channelWindow).spare =
          c.ends.acceptor.spare + channelWindow := by
        rw [hplace]
        decide
      have howed : c.ends.acceptor.phase = (ChannelEnd.incoming channelWindow).phase := by
        rw [hplace]
        rfl
      have hrem : (ChannelEnd.incoming channelWindow).window.remaining =
          c.ends.acceptor.window.remaining := by
        rw [hplace]
        rfl
      cases t with
      | opener =>
        refine ⟨0, 0, hrem, ?_⟩
        simp only [flow, owed, Both.get, Side.other, pop, setWire, Both.set, if_true, howed]
        constructor <;> omega
      | acceptor =>
        refine ⟨0, 0, rfl, ?_⟩
        simp only [flow, owed, Both.get, Side.other, pop, setWire, Both.set, if_true, hspare]
        constructor <;> omega
    · intro hl t
      cases t with
      | opener => exact h.filled (hlive hl.1) .opener
      | acceptor =>
        show (ChannelEnd.incoming channelWindow).load =
          (ChannelEnd.incoming channelWindow).grantedWindow
        decide
    · refine h.shape.arrived rest harrived hplain hphase rfl rfl rfl rfl rfl rfl rfl ?_
      intro f hf
      have hf' : f ∈ c.wires.acceptor.ordered := hf
      rw [hwire] at hf'
      cases hf'
  | false =>
    have hnot : ¬ Live (sendOrdered { pop c .opener rest with
        arrived := true, ends := { c.ends with acceptor := gone } } .acceptor
        (.opened false 0)) := not_live _ .acceptor rfl htable
    refine ⟨?_, ?_, fun hl => absurd hl hnot, ?_⟩
    · intro t
      cases t with
      | opener => exact h.sound .opener
      | acceptor =>
        have hsound : c.ends.acceptor.Sound := h.sound .acceptor
        rw [hplace] at hsound
        exact hsound.of_sameSender ⟨rfl, rfl⟩ rfl (Nat.le_refl _) hsound.drained_lt
          hsound.chunk_none hsound.pending_eq
    · refine h.covered.of_shift (fun hl => absurd hl hnot) ?_
      intro t
      have hspare : gone.spare = c.ends.acceptor.spare := by
        rw [hplace]
        rfl
      have howed : c.ends.acceptor.phase = gone.phase := by
        rw [hplace]
        rfl
      have hrem : gone.window.remaining = c.ends.acceptor.window.remaining := by
        rw [hplace]
        rfl
      have hsent := Wire.charged_sendOrdered c.wires.acceptor (.opened false 0)
      have hgives := Wire.granting_sendOrdered c.wires.acceptor (.opened false 0)
      simp only [chargeOf, creditOf] at hsent hgives
      cases t with
      | opener =>
        refine ⟨0, 0, hrem, ?_, fun hl => absurd hl hnot⟩
        simp only [flow, owed, Both.get, Side.other, pop, setWire, Both.set, sendOrdered, howed,
          Bool.false_eq_true, if_false]
        omega
      | acceptor =>
        refine ⟨0, 0, rfl, ?_, fun hl => absurd hl hnot⟩
        simp only [flow, owed, Both.get, Side.other, pop, setWire, Both.set, sendOrdered, hspare,
          Bool.false_eq_true, if_false]
        omega
    · refine h.shape.arrived rest harrived hplain hphase rfl rfl rfl rfl rfl rfl rfl ?_
      intro f hf
      have hf' : f ∈ c.wires.acceptor.ordered ++ [.opened false 0] := hf
      rw [hwire] at hf'
      exact List.mem_singleton.mp hf'

theorem inv_deliver (accepts : Bool) (f : Frame) (rest : List Frame)
    (h : Inv c) (hhead : (c.wires.get s.other).ordered = f :: rest) :
    Inv (onFrame (pop c s.other rest) s accepts f) := by
  cases harrived : c.arrived with
  | false =>
    have hwire := (h.shape.waiting harrived).2.2.1
    cases s with
    | opener =>
      have hhead' : c.wires.acceptor.ordered = f :: rest := hhead
      rw [hwire] at hhead'
      cases hhead'
    | acceptor =>
      have hhead' : c.wires.opener.ordered = f :: rest := hhead
      rcases h.shape.openerPhase with hopening | hrelaying
      · rw [(h.shape.unsent hopening).2] at hhead'
        cases hhead'
      · obtain ⟨-, rest', heq, hplain⟩ := h.shape.travelling hrelaying harrived
        obtain ⟨rfl, rfl⟩ := List.cons.inj (heq.symm.trans hhead')
        exact inv_onOpen c _ accepts h harrived heq hplain hrelaying
  | true =>
    have hmem : f ∈ (c.wires.get s.other).ordered := by
      rw [hhead]
      exact List.mem_cons_self
    cases f with
    | «open» window =>
      cases s with
      | opener =>
        rcases h.shape.acceptorFrames _ hmem with hfalse | hfalse | hfalse <;> cases hfalse
      | acceptor => cases h.shape.openerFrames harrived _ hmem
    | opened success window =>
      cases s with
      | opener => exact inv_onOpened c success window rest h harrived hhead
      | acceptor => cases h.shape.openerFrames harrived _ hmem
    | data bytes => exact inv_onData c s bytes rest h harrived hhead
    | close =>
      have hpop := inv_pop c s _ rest h harrived hhead (fun _ => ⟨rfl, rfl⟩)
      show Inv (if _ then _ else _)
      split
      · exact inv_drop _ s .close hpop harrived rfl
      · exact hpop
    | windowUpdate add =>
      cases htable : c.inTable.get s with
      | false =>
        have htable' : (pop c s.other rest).inTable.get s = false := htable
        show Inv (onWindowUpdate _ s add)
        rw [onWindowUpdate, htable', if_neg (by decide)]
        refine inv_pop c s _ rest h harrived hhead ?_
        intro hlive
        exact absurd hlive (not_live c s harrived htable)
      | true =>
        exact inv_onWindowUpdate c s _ add h harrived
          (h.shape.pop s.other _ rest harrived hhead)
          (Wire.charged_setOrdered _ _ rest hhead) (Wire.granting_setOrdered _ _ rest hhead) htable

theorem inv_deliverControl (rest : List ℕ) (h : Inv c)
    (hhead : (c.wires.get s.other).control = add :: rest) :
    Inv (onWindowUpdate (popControl c s.other rest) s add) := by
  have hne : (c.wires.get s.other).control ≠ [] := by simp [hhead]
  have harrived : c.arrived = true := by
    by_contra hfalse
    have hfalse' : c.arrived = false := by simpa using hfalse
    cases s with
    | opener =>
      refine hne ?_
      show c.wires.acceptor.control = []
      rw [(h.shape.waiting hfalse').2.2.1]
    | acceptor =>
      refine hne ?_
      show c.wires.opener.control = []
      rcases h.shape.openerPhase with hopening | hrelaying
      · rw [(h.shape.unsent hopening).2]
      · exact (h.shape.travelling hrelaying hfalse').1
  have hmay : MaySend c s.other := by
    cases s with
    | opener => exact harrived
    | acceptor =>
      rcases h.shape.openerPhase with hopening | hrelaying
      · have hfalse := (h.shape.unsent hopening).1
        rw [harrived] at hfalse
        cases hfalse
      · exact hrelaying
  have hshape : Shape (popControl c s.other rest) := by
    refine h.shape.setWire_plain s.other _ hmay ?_ .close rfl (Or.inr rfl)
    intro hfalse
    rw [harrived] at hfalse
    cases hfalse
  have hgranting : ((c.wires.get s.other).setControl rest).granting + add =
      (c.wires.get s.other).granting := by
    simp only [Wire.granting, Wire.setControl, hhead, List.sum_cons]
    omega
  cases htable : c.inTable.get s with
  | false =>
    have htable' : (popControl c s.other rest).inTable.get s = false := htable
    rw [onWindowUpdate, htable', if_neg (by decide)]
    refine inv_lose c s.other _ h hshape (Nat.le_refl _) (by omega) ?_
    intro hlive
    exact absurd hlive (not_live c s harrived htable)
  | true => exact inv_onWindowUpdate c s _ add h harrived hshape rfl hgranting htable

theorem inv_refuse (h : Inv c) (harrived : c.arrived = true) :
    Inv (sendOrdered (setEnd c .acceptor
      { c.ends.acceptor with sending := false, receiving := false }) .acceptor
      (.opened false 0)) := by
  have hend : Inv (setEnd c .acceptor
      { c.ends.acceptor with sending := false, receiving := false }) := by
    have hsound : c.ends.acceptor.Sound := h.sound .acceptor
    refine h.setEnd .acceptor _ ?_ rfl rfl rfl (fun _ => rfl) (fun _ hcmd => hcmd) ?_
    · exact hsound.of_sameSender ⟨rfl, rfl⟩ rfl (Nat.le_refl _) hsound.drained_lt
        hsound.chunk_none hsound.pending_eq
    · intro hfalse
      rw [harrived] at hfalse
      cases hfalse
  have hshape := hend.shape
  refine ⟨hend.sound, ?_, hend.filled, ?_⟩
  · refine hend.covered.of_shift id ?_
    intro t
    have hself := flow_sendOrdered_self (setEnd c .acceptor
      { c.ends.acceptor with sending := false, receiving := false }) .acceptor (.opened false 0)
    have hother := flow_sendOrdered_other (setEnd c .acceptor
      { c.ends.acceptor with sending := false, receiving := false }) .acceptor (.opened false 0)
    refine ⟨0, 0, rfl, ?_⟩
    cases t with
    | opener => exact ⟨Nat.le_of_eq hother, fun _ => hother⟩
    | acceptor => exact ⟨Nat.le_of_eq hself, fun _ => hself⟩
  · refine ⟨hshape.openerPhase, hshape.acceptorPhase, hshape.unsent, hshape.travelling, ?_,
      hshape.openerFrames, ?_, ?_, hshape.commands⟩
    · exact fun hfalse => absurd hfalse (ne_false_of_eq_true harrived)
    · intro f hf
      have hf' : f ∈ c.wires.acceptor.ordered ++ [.opened false 0] := hf
      rcases List.mem_append.mp hf' with hold | hnew
      · exact h.shape.acceptorFrames f hold
      · exact Or.inr (Or.inl (List.mem_singleton.mp hnew))
    · show (c.wires.acceptor.ordered ++ [Frame.opened false 0]).countP isAnswer + c.raised.toNat ≤ _
      rw [List.countP_append]
      exact h.shape.answeredOnce

theorem inv_start : Inv start := by
  refine ⟨?_, ?_, ?_, ?_⟩
  · intro s
    cases s with
    | opener => exact ChannelEnd.sound_outgoing
    | acceptor => exact ChannelEnd.sound_setCredit _ 0 (by decide) (ChannelEnd.sound_incoming 0)
  · intro s
    have heq : flow start s = remaining start s.other := by
      cases s <;> decide
    exact ⟨Nat.le_of_eq heq, fun _ => heq⟩
  · intro _ s
    cases s <;> decide
  · refine ⟨Or.inl rfl, by decide, fun _ => ⟨rfl, rfl⟩, ?_, ?_, ?_, ?_, by decide, ?_⟩
    · intro hfalse
      cases hfalse
    · intro _
      exact ⟨rfl, rfl, rfl, rfl, rfl, rfl⟩
    · intro hfalse
      cases hfalse
    · intro f hf
      cases hf
    · intro s _ cmd hcmd
      cases s <;> cases hcmd

theorem inv_step (c' : Channel) (event : Event) (h : Inv c)
    (hstep : step sinks c event = some c') : Inv c' := by
  cases event with
  | sendOpen =>
    simp only [step] at hstep
    split at hstep
    · rename_i hphase
      exact Option.some.inj hstep ▸ inv_sendOpen c h hphase
    · cases hstep
  | take s =>
    obtain ⟨e, he, rfl⟩ := Option.map_eq_some_iff.mp hstep
    exact inv_take c s e h he
  | read s bytes =>
    obtain ⟨e, he, rfl⟩ := Option.map_eq_some_iff.mp hstep
    exact inv_read c s bytes e h he
  | stopSending s =>
    simp only [step] at hstep
    split at hstep
    · rename_i hphase
      exact Option.some.inj hstep ▸ inv_stopSending c s h hphase
    · cases hstep
  | deliver s accepts =>
    simp only [step] at hstep
    split at hstep
    · cases hstep
    · rename_i f rest hhead
      exact Option.some.inj hstep ▸ inv_deliver c s accepts f rest h hhead
  | deliverControl s =>
    simp only [step] at hstep
    split at hstep
    · cases hstep
    · rename_i add rest hhead
      exact Option.some.inj hstep ▸ inv_deliverControl c s add rest h hhead
  | setupCommand =>
    obtain ⟨⟨result, e⟩, he, rfl⟩ := Option.map_eq_some_iff.mp hstep
    exact inv_setupCommand c result e h he
  | connected =>
    simp only [step] at hstep
    split at hstep
    · rename_i harrived
      obtain ⟨e, he, rfl⟩ := Option.map_eq_some_iff.mp hstep
      exact inv_connected c e h harrived he
    · cases hstep
  | sendOpened =>
    simp only [step] at hstep
    split at hstep
    · rename_i hphase
      exact Option.some.inj hstep ▸ inv_sendOpened c h hphase
    · cases hstep
  | refuse =>
    simp only [step] at hstep
    split at hstep
    · rename_i hcond
      exact Option.some.inj hstep ▸ inv_refuse c h hcond.1
    · cases hstep
  | nextChunk s =>
    obtain ⟨e, he, rfl⟩ := Option.map_eq_some_iff.mp hstep
    exact inv_nextChunk c s e h he
  | finishChunk s =>
    obtain ⟨⟨update, e⟩, he, rfl⟩ := Option.map_eq_some_iff.mp hstep
    have hinv := inv_finishChunk sinks c s update e h he
    cases update with
    | none => exact hinv
    | some add => exact hinv
  | stopReceiving s =>
    simp only [step] at hstep
    split at hstep
    · rename_i hphase
      exact Option.some.inj hstep ▸ inv_stopReceiving c s h hphase
    · cases hstep
  | sendClose s =>
    simp only [step] at hstep
    split at hstep
    · rename_i hcond
      exact Option.some.inj hstep ▸ h.sendClose s (h.shape.maySend_of_relaying s hcond.1)
    · cases hstep
  | leave s => exact Option.some.inj hstep ▸ inv_leave c s h

/-- The part of the window for the sender `s` that is not yet granted, or granted and not yet
announced. -/
def ungranted (c : Channel) (s : Side) : ℕ :=
  channelWindow - (c.ends.get s.other).grantedWindow + owed c s

/-- No frame is in flight and neither end holds accepted data. -/
def Idle (c : Channel) : Prop :=
  ∀ s, c.wires.get s = ⟨[], []⟩ ∧ (c.ends.get s).inbound = [] ∧ (c.ends.get s).pending = [] ∧
    (c.ends.get s).chunk = none

theorem Inv.conserved {c : Channel} (h : Inv c) (hlive : Live c) (s : Side) :
    (c.ends.get s).credit + (c.ends.get s).held.getD 0 + (c.wires.get s).charged +
      (c.ends.get s.other).buffered + (c.ends.get s.other).window.drainedSinceUpdate +
      (c.wires.get s.other).granting + ungranted c s = channelWindow := by
  have hflow := (h.covered s).2 hlive
  have hload := h.filled hlive s.other
  have hgranted := (c.ends.get s.other).grantedWindow_le
  simp only [flow, remaining, ChannelEnd.spare, ChannelEnd.load, ungranted] at *
  omega

/-- The cap on the credit changes nothing: neither for credit on its way nor for credit a
relay returns. -/
theorem Inv.addCredit_eq {c : Channel} (h : Inv c) (s : Side) (n : ℕ)
    (hn : n ≤ (c.ends.get s).held.getD 0 + (c.wires.get s.other).granting) :
    addCredit (c.ends.get s).credit n = (c.ends.get s).credit + n := by
  have hcap := h.covered.spare_le h.sound s
  apply FlowControl.addCredit_eq
  simp only [ChannelEnd.spare] at hcap
  omega

theorem Inv.spare_of_idle {c : Channel} (h : Inv c) (hlive : Live c) (hidle : Idle c) (s : Side)
    (htable : c.inTable.get s = true) : initialWindow ≤ (c.ends.get s).spare := by
  have hflow := (h.covered s).2 hlive
  have hload := h.filled hlive s.other
  have hdrained := (h.sound s.other).drained_lt
  have hnone := (h.sound s.other).chunk_none
  obtain ⟨-, hinbound, hpending, hchunk⟩ := hidle s.other
  have hbuffered : (c.ends.get s.other).buffered = 0 := by
    simp [ChannelEnd.buffered, hinbound, hpending, hchunk]
  have hcharged : (c.wires.get s).charged = 0 := by
    rw [(hidle s).1]
    rfl
  have hgranting : (c.wires.get s.other).granting = 0 := by
    rw [(hidle s.other).1]
    rfl
  simp only [flow, remaining, owed, ChannelEnd.load, hbuffered, hcharged, hgranting] at hflow hload
  cases hphase : (c.ends.get s.other).phase with
  | opening =>
    cases s with
    | opener => exact absurd hphase h.shape.acceptorPhase
    | acceptor =>
      have hfalse := (h.shape.waiting (h.shape.unsent hphase).1).2.1
      exact absurd (htable.symm.trans hfalse) (by decide)
  | connecting =>
    rw [hphase] at hflow hnone
    have hzero := (hnone (by decide)).2
    have howed : owedIn s .connecting = 0 := by cases s <;> rfl
    rw [ChannelEnd.grantedWindow, if_pos hphase] at hload
    omega
  | granted =>
    rw [hphase] at hflow hnone
    have hzero := (hnone (by decide)).2
    have howed : owedIn s .granted ≤ channelWindow - initialWindow := by cases s <;> decide
    rw [ChannelEnd.grantedWindow, if_neg (by simp [hphase])] at hload
    simp only [channelWindow, initialWindow] at *
    omega
  | relaying =>
    rw [hphase] at hflow
    have howed : owedIn s .relaying = 0 := by cases s <;> rfl
    rw [ChannelEnd.grantedWindow, if_neg (by simp [hphase])] at hload
    simp only [channelWindow, initialWindow, updateThreshold] at *
    omega

theorem Inv.not_stalled {c : Channel} (h : Inv c) (hlive : Live c) (hidle : Idle c) (s : Side)
    (htable : c.inTable.get s = true) :
    ((c.ends.get s).held = none → minFrameCharge ≤ (c.ends.get s).credit) ∧
      ∀ n, (c.ends.get s).held = some n → minFrameCharge ≤ n := by
  have hspare := h.spare_of_idle hlive hidle s htable
  constructor
  · intro hheld
    simp only [ChannelEnd.spare, hheld, Option.getD_none, initialWindow, minFrameCharge] at *
    omega
  · intro n hn
    exact ((h.sound s).held_ge n hn).1

/-- Flow control of one channel between honest peers, in every state of every run: the
window takes each data frame, the account of a live channel adds up to the full window, the cap
on the credit never bites, and an idle sender has the credit for another frame. -/
theorem channel_flow_control (sinks : Both Sink) (events : List Event) (c : Channel)
    (hexec : Runs.exec (step sinks) start events = some c) :
    (∀ s bytes rest, (c.wires.get s.other).ordered = .data bytes :: rest →
      c.inTable.get s = true → ((c.ends.get s).window.accept bytes.length).isSome = true) ∧
    (Live c → ∀ s,
      (c.ends.get s).credit + (c.ends.get s).held.getD 0 + (c.wires.get s).charged +
        (c.ends.get s.other).buffered + (c.ends.get s.other).window.drainedSinceUpdate +
        (c.wires.get s.other).granting + ungranted c s = channelWindow) ∧
    (∀ s n, n ≤ (c.ends.get s).held.getD 0 + (c.wires.get s.other).granting →
      addCredit (c.ends.get s).credit n = (c.ends.get s).credit + n) ∧
    (Live c → Idle c → ∀ s, c.inTable.get s = true →
      ((c.ends.get s).held = none → minFrameCharge ≤ (c.ends.get s).credit) ∧
        ∀ n, (c.ends.get s).held = some n → minFrameCharge ≤ n) := by
  have hinv : Inv c :=
    Runs.invariant_of_exec (step sinks) Inv
      (fun a event b ha hstep => inv_step sinks a b event ha hstep) start c events inv_start hexec
  refine ⟨?_, fun hlive s => hinv.conserved hlive s, fun s n hn => hinv.addCredit_eq s n hn,
    fun hlive hidle s htable => hinv.not_stalled hlive hidle s htable⟩
  intro s bytes rest hhead _
  have hfit := hinv.covered.fits s bytes rest hhead
  rw [RecvWindow.accept, if_pos hfit]
  rfl

/-- A channel on which three bytes are sent before the `open` is answered. -/
def sampleEvents : List Event :=
  [.sendOpen, .take .opener, .read .opener [1, 2, 3], .deliver .acceptor true,
    .deliver .acceptor true, .setupCommand, .connected, .sendOpened, .deliver .opener true,
    .nextChunk .acceptor, .finishChunk .acceptor]

theorem channel_flow_control_sample :
    ∃ c, Runs.exec (step ⟨.queued, .direct⟩) start sampleEvents = some c ∧
      c.inTable = ⟨true, true⟩ ∧ c.ends.opener.credit = channelWindow - minFrameCharge ∧
      c.ends.acceptor.window.drainedSinceUpdate = minFrameCharge ∧
      (Live c → ∀ s,
        (c.ends.get s).credit + (c.ends.get s).held.getD 0 + (c.wires.get s).charged +
          (c.ends.get s.other).buffered + (c.ends.get s.other).window.drainedSinceUpdate +
          (c.wires.get s.other).granting + ungranted c s = channelWindow) := by
  have hsome : (Runs.exec (step ⟨.queued, .direct⟩) start sampleEvents).isSome = true := by
    decide
  obtain ⟨c, hc⟩ := Option.isSome_iff_exists.mp hsome
  have hend : (Runs.exec (step ⟨.queued, .direct⟩) start sampleEvents).map
      (fun c => (c.inTable, c.ends.opener.credit, c.ends.acceptor.window.drainedSinceUpdate)) =
      some (⟨true, true⟩, channelWindow - minFrameCharge, minFrameCharge) := by
    decide
  rw [hc, Option.map_some, Option.some.injEq, Prod.mk.injEq, Prod.mk.injEq] at hend
  exact ⟨c, hc, hend.1, hend.2.1, hend.2.2,
    (channel_flow_control ⟨.queued, .direct⟩ sampleEvents c hc).2.1⟩

end ClantoDesk.TunnelChannel
