import ClantoDesk.Guards
import Mathlib.Algebra.Order.Ring.Int
import Mathlib.Data.List.Basic

/-!
Flow control of a port forward channel, src/port_forward_mux.rs, together with the set-up loops of
src/server/port_forward_mux.rs and src/clanto/forwarding/engine.rs. One end of a
channel counts the credit it may still send against and the window it granted to its
peer, each in a 32-bit counter. The two relay loops are cut at their await points, so
that each definition below is one atomic piece of a loop.
-/
namespace ClantoDesk.FlowControl

abbrev Bytes := List UInt8

def u32Max : ℕ := 4294967295
def initialWindow : ℕ := 64 * 1024
def minFrameCharge : ℕ := 64
def channelWindow : ℕ := 256 * 1024
def maxFrame : ℕ := 64 * 1024
def updateThreshold : ℕ := channelWindow / 2
def maxChannels : ℕ := 256
def maxSendCredit : ℕ := channelWindow

def saturatingAdd (a b : ℕ) : ℕ := min (a + b) u32Max

def effectiveWindow (advertised : ℕ) : ℕ := max advertised initialWindow

def charge (len : ℕ) : ℕ := max (min len u32Max) minFrameCharge

structure RecvWindow where
  remaining : ℕ
  drainedSinceUpdate : ℕ
  deriving DecidableEq

def RecvWindow.new (granted : ℕ) : RecvWindow := ⟨effectiveWindow granted, 0⟩

/-- `none` means the peer overran the window. -/
def RecvWindow.accept (self : RecvWindow) (len : ℕ) : Option RecvWindow :=
  if charge len ≤ self.remaining then
    some { self with remaining := self.remaining - charge len }
  else none

def RecvWindow.grant (self : RecvWindow) (n : ℕ) : RecvWindow :=
  { self with remaining := saturatingAdd self.remaining n }

def RecvWindow.drained (self : RecvWindow) (n : ℕ) : Option ℕ × RecvWindow :=
  let drained := saturatingAdd self.drainedSinceUpdate (charge n)
  if drained < updateThreshold then (none, { self with drainedSinceUpdate := drained })
  else (some drained, ⟨saturatingAdd self.remaining drained, 0⟩)

def newCredit (initial : ℕ) : ℕ := min initial maxSendCredit

def addCredit (credit n : ℕ) : ℕ := min (saturatingAdd credit n) maxSendCredit

def raiseInitial (credit total : ℕ) : ℕ :=
  let extra := effectiveWindow total - initialWindow
  if 0 < extra then addCredit credit extra else credit

inductive Inbound
  | data (bytes : Bytes)
  | close
  | violation
  deriving DecidableEq

/-- Where the task of a channel is. The opening side sends `open` and then relays; the
accepting side connects, grants the rest of the window, answers `opened` and then relays. -/
inductive Phase
  | opening | connecting | granted | relaying
  deriving DecidableEq

/-- How the set-up loop continues after a command: it goes on, it leaves without a word, or
it sends `close` and leaves. -/
inductive Setup
  | goesOn | leaves | closes
  deriving DecidableEq

/-- One end of a channel. `held` is the credit the sending relay has taken for the frame it
is reading, `chunk` what the receiving relay is writing to the socket. A relay that ended has
its flag down. -/
structure ChannelEnd where
  phase : Phase
  credit : ℕ
  held : Option ℕ
  sending : Bool
  window : RecvWindow
  inbound : List Inbound
  pending : List Bytes
  pendingLen : ℕ
  chunk : Option Bytes
  receiving : Bool
  deriving DecidableEq

def ChannelEnd.new (phase : Phase) (credit granted : ℕ) : ChannelEnd :=
  { phase := phase
    credit := newCredit credit
    held := none
    sending := true
    window := RecvWindow.new granted
    inbound := []
    pending := []
    pendingLen := 0
    chunk := none
    receiving := true }

def ChannelEnd.outgoing : ChannelEnd := ChannelEnd.new .opening initialWindow channelWindow

/-- The end of the side that accepts an `open` which advertises this window. -/
def ChannelEnd.incoming (advertised : ℕ) : ChannelEnd :=
  ChannelEnd.new .connecting (effectiveWindow advertised) initialWindow

namespace ChannelEnd

/-- `SendCredit::take` in the sending relay. -/
def take (e : ChannelEnd) : Option ChannelEnd :=
  if e.phase = .relaying ∧ e.sending = true ∧ e.held = none ∧ minFrameCharge ≤ e.credit then
    let n := min e.credit maxFrame
    some { e with credit := e.credit - n, held := some n }
  else none

/-- The sending relay has read these bytes from its socket; it returns what the frame does
not cost. -/
def read (e : ChannelEnd) (bytes : Bytes) : Option ChannelEnd :=
  match e.held with
  | none => none
  | some allow =>
    if bytes ≠ [] ∧ bytes.length ≤ allow then
      let spent := charge bytes.length
      let credit := if spent < allow then addCredit e.credit (allow - spent) else e.credit
      some { e with credit := credit, held := none }
    else none

def stopSending (e : ChannelEnd) : ChannelEnd :=
  match e.held with
  | none => { e with sending := false }
  | some allow =>
    { e with
      credit := if 0 < allow then addCredit e.credit allow else e.credit
      held := none
      sending := false }

/-- The dispatcher's part for a data frame: whether the window takes it, whether the task
still listens, and the end afterwards. -/
def receive (e : ChannelEnd) (bytes : Bytes) : Bool × Bool × ChannelEnd :=
  match e.window.accept bytes.length with
  | none => (false, false, e)
  | some window =>
    if e.receiving then
      (true, true, { e with window := window, inbound := e.inbound ++ [.data bytes] })
    else (true, false, { e with window := window })

def command (e : ChannelEnd) (cmd : Inbound) : ChannelEnd :=
  if e.receiving then { e with inbound := e.inbound ++ [cmd] } else e

def pendingFits (charged addLen : ℕ) : Bool :=
  decide (charged + charge addLen ≤ initialWindow)

def setupCommand (e : ChannelEnd) : Option (Setup × ChannelEnd) :=
  if e.phase = .connecting ∧ e.receiving = true then
    match e.inbound with
    | [] => none
    | .data bytes :: rest =>
      if pendingFits e.pendingLen bytes.length then
        some (.goesOn,
          { e with
            inbound := rest
            pending := e.pending ++ [bytes]
            pendingLen := e.pendingLen + charge bytes.length })
      else some (.closes, { e with inbound := rest, sending := false, receiving := false })
    | .close :: rest =>
      some (.leaves, { e with inbound := rest, sending := false, receiving := false })
    | .violation :: rest =>
      some (.closes, { e with inbound := rest, sending := false, receiving := false })
  else none

def connected (e : ChannelEnd) : Option ChannelEnd :=
  if e.phase = .connecting ∧ e.receiving = true ∧ e.inbound = [] then
    some { e with phase := .granted, window := e.window.grant (channelWindow - initialWindow) }
  else none

/-- `open` or `opened` is sent and the relays start. -/
def relay (e : ChannelEnd) : ChannelEnd := { e with phase := .relaying }

def nextChunk (e : ChannelEnd) : Option ChannelEnd :=
  if e.phase = .relaying ∧ e.receiving = true ∧ e.chunk = none then
    match e.pending with
    | bytes :: rest => some { e with pending := rest, chunk := some bytes }
    | [] =>
      match e.inbound with
      | [] => none
      | .data bytes :: rest => some { e with inbound := rest, chunk := some bytes }
      | _ :: rest => some { e with inbound := rest, receiving := false }
  else none

def finishChunk (e : ChannelEnd) : Option (Option ℕ × ChannelEnd) :=
  if e.receiving then
    match e.chunk with
    | none => none
    | some bytes =>
      let (update, window) := e.window.drained bytes.length
      some (update, { e with window := window, chunk := none })
  else none

def stopReceiving (e : ChannelEnd) : ChannelEnd := { e with receiving := false }

def inboundCharge : Inbound → ℕ
  | .data bytes => charge bytes.length
  | _ => 0

def buffered (e : ChannelEnd) : ℕ :=
  (e.pending.map fun b => charge b.length).sum + (e.inbound.map inboundCharge).sum +
    (e.chunk.map fun b => charge b.length).getD 0

def load (e : ChannelEnd) : ℕ := e.window.remaining + e.buffered + e.window.drainedSinceUpdate

/-- The credit of the sender, the part held for the frame being read included. -/
def spare (e : ChannelEnd) : ℕ := e.credit + e.held.getD 0

def grantedWindow (e : ChannelEnd) : ℕ :=
  if e.phase = .connecting then initialWindow else channelWindow

/-- What holds of an end whatever its peer sends. -/
structure Sound (e : ChannelEnd) : Prop where
  load_le : e.load ≤ e.grantedWindow
  drained_lt : e.window.drainedSinceUpdate < updateThreshold
  credit_le : e.credit ≤ maxSendCredit
  held_ge : ∀ n, e.held = some n → minFrameCharge ≤ n ∧ n ≤ maxFrame
  held_none : e.phase ≠ .relaying → e.held = none
  chunk_none : e.phase ≠ .relaying → e.chunk = none ∧ e.window.drainedSinceUpdate = 0
  pending_eq : e.phase = .connecting →
    e.pendingLen = (e.pending.map fun b => charge b.length).sum

end ChannelEnd

variable (e e' : ChannelEnd) (update : Option ℕ) (result : Setup) (bytes : Bytes)

theorem charge_le (len n : ℕ) (hlen : len ≤ n) (hn : minFrameCharge ≤ n) : charge len ≤ n := by
  unfold charge
  omega

theorem saturatingAdd_eq (a b : ℕ) (h : a + b ≤ channelWindow) : saturatingAdd a b = a + b := by
  unfold saturatingAdd u32Max channelWindow at *
  omega

theorem addCredit_eq (a b : ℕ) (h : a + b ≤ maxSendCredit) : addCredit a b = a + b := by
  rw [addCredit, saturatingAdd_eq a b h]
  omega

theorem addCredit_le (a b : ℕ) : addCredit a b ≤ maxSendCredit := Nat.min_le_right _ _

theorem raiseInitial_le (a total : ℕ) (ha : a ≤ maxSendCredit) :
    raiseInitial a total ≤ maxSendCredit := by
  simp only [raiseInitial]
  split
  · exact addCredit_le _ _
  · exact ha

namespace ChannelEnd

theorem sound_new (phase : Phase) (credit granted : ℕ)
    (hgranted : effectiveWindow granted ≤ (ChannelEnd.new phase credit granted).grantedWindow) :
    Sound (ChannelEnd.new phase credit granted) := by
  refine ⟨?_, ?_, ?_, ?_, ?_, ?_, ?_⟩
  · have hload : (ChannelEnd.new phase credit granted).load = effectiveWindow granted := by
      simp [load, buffered, ChannelEnd.new, RecvWindow.new]
    rw [hload]
    exact hgranted
  · simp [ChannelEnd.new, RecvWindow.new, updateThreshold, channelWindow]
  · exact Nat.min_le_right _ _
  · intro n hn
    cases hn
  · intro _
    rfl
  · intro _
    exact ⟨rfl, rfl⟩
  · intro _
    rfl

theorem sound_outgoing : Sound outgoing :=
  sound_new .opening initialWindow channelWindow (by decide)

theorem sound_incoming (advertised : ℕ) : Sound (incoming advertised) := by
  refine sound_new .connecting _ initialWindow ?_
  simp [grantedWindow, ChannelEnd.new, effectiveWindow]

/-- Everything the sending half does leaves the receiving half alone. -/
structure SameReceiver (e e' : ChannelEnd) : Prop where
  phase : e'.phase = e.phase
  window : e'.window = e.window
  inbound : e'.inbound = e.inbound
  pending : e'.pending = e.pending
  pendingLen : e'.pendingLen = e.pendingLen
  chunk : e'.chunk = e.chunk
  receiving : e'.receiving = e.receiving

theorem SameReceiver.load_eq {e e' : ChannelEnd} (h : SameReceiver e e') : e'.load = e.load := by
  simp only [load, buffered, h.window, h.inbound, h.pending, h.chunk]

/-- An end stays sound when only its sending half changes and keeps its bounds. -/
theorem Sound.of_sameReceiver {e e' : ChannelEnd} (hsound : Sound e) (h : SameReceiver e e')
    (hcredit : e'.credit ≤ maxSendCredit)
    (hheld : ∀ n, e'.held = some n → minFrameCharge ≤ n ∧ n ≤ maxFrame)
    (hnone : e'.phase ≠ .relaying → e'.held = none) : Sound e' := by
  refine ⟨?_, ?_, hcredit, hheld, hnone, ?_, ?_⟩
  · rw [h.load_eq, grantedWindow, h.phase]
    exact hsound.load_le
  · rw [h.window]
    exact hsound.drained_lt
  · rw [h.phase, h.chunk, h.window]
    exact hsound.chunk_none
  · rw [h.phase, h.pendingLen, h.pending]
    exact hsound.pending_eq

theorem take_spec (h : e.take = some e') :
    SameReceiver e e' ∧ e'.spare = e.spare ∧ e'.credit ≤ e.credit ∧
      e.phase = .relaying ∧
      ∀ n, e'.held = some n → minFrameCharge ≤ n ∧ n ≤ maxFrame := by
  unfold take at h
  obtain ⟨⟨hphase, -, hheld, hcredit⟩, rfl⟩ := of_guard h
  refine ⟨⟨rfl, rfl, rfl, rfl, rfl, rfl, rfl⟩, ?_, Nat.sub_le _ _, hphase, ?_⟩
  · simp only [spare, hheld, Option.getD_some, Option.getD_none]
    omega
  · intro n hn
    obtain rfl : min e.credit maxFrame = n := by simpa using hn
    simp only [minFrameCharge, maxFrame] at *
    omega

theorem sound_take (hsound : Sound e) (h : e.take = some e') : Sound e' := by
  obtain ⟨hsame, -, hcredit, hphase, hheld⟩ := take_spec e e' h
  refine hsound.of_sameReceiver hsame (Nat.le_trans hcredit hsound.credit_le) hheld ?_
  intro hne
  exact absurd (hsame.phase.trans hphase) hne

/-- Reading a frame costs its charge, when the credit is not at its cap. -/
theorem read_spec (hsound : Sound e) (h : e.read bytes = some e') :
    SameReceiver e e' ∧ e'.held = none ∧ e'.credit ≤ maxSendCredit ∧ e.phase = .relaying ∧
      (e.spare ≤ maxSendCredit → e'.spare + charge bytes.length = e.spare) := by
  unfold read at h
  cases hheld : e.held with
  | none =>
    rw [hheld] at h
    cases h
  | some allow =>
    rw [hheld] at h
    simp only at h
    have hphase : e.phase = .relaying := by
      by_contra hne
      rw [hsound.held_none hne] at hheld
      cases hheld
    obtain ⟨hmin, -⟩ := hsound.held_ge allow hheld
    split at h
    · rename_i hcond
      have hcharge := charge_le bytes.length allow hcond.2 hmin
      obtain rfl := Option.some.inj h
      refine ⟨⟨rfl, rfl, rfl, rfl, rfl, rfl, rfl⟩, rfl, ?_, hphase, ?_⟩
      · simp only
        split
        · exact addCredit_le _ _
        · exact hsound.credit_le
      · intro hspare
        simp only [spare, hheld, Option.getD_some, Option.getD_none] at hspare ⊢
        split
        · rw [addCredit_eq _ _ (by omega)]
          omega
        · omega
    · cases h

theorem sound_read (hsound : Sound e) (h : e.read bytes = some e') : Sound e' := by
  obtain ⟨hsame, hheld, hcredit, -, -⟩ := read_spec e e' bytes hsound h
  refine hsound.of_sameReceiver hsame hcredit ?_ (fun _ => hheld)
  intro n hn
  rw [hheld] at hn
  cases hn

theorem stopSending_spec :
    SameReceiver e e.stopSending ∧ e.stopSending.held = none ∧
      (e.credit ≤ maxSendCredit → e.stopSending.credit ≤ maxSendCredit) ∧
      (e.spare ≤ maxSendCredit → e.stopSending.spare = e.spare) := by
  unfold stopSending
  cases hheld : e.held with
  | none =>
    refine ⟨⟨rfl, rfl, rfl, rfl, rfl, rfl, rfl⟩, rfl, fun hcredit => hcredit, ?_⟩
    intro _
    simp only [spare, hheld]
  | some allow =>
    refine ⟨⟨rfl, rfl, rfl, rfl, rfl, rfl, rfl⟩, rfl, ?_, ?_⟩
    · intro hcredit
      simp only
      split
      · exact addCredit_le _ _
      · exact hcredit
    · intro hspare
      simp only [spare, hheld, Option.getD_some, Option.getD_none] at hspare ⊢
      split
      · rw [addCredit_eq _ _ hspare]
        omega
      · omega

theorem sound_stopSending (hsound : Sound e) : Sound e.stopSending := by
  obtain ⟨hsame, hheld, hcredit, -⟩ := stopSending_spec e
  refine hsound.of_sameReceiver hsame (hcredit hsound.credit_le) ?_ (fun _ => hheld)
  intro n hn
  rw [hheld] at hn
  cases hn

theorem sound_setCredit (credit : ℕ) (hcredit : credit ≤ maxSendCredit)
    (hsound : Sound e) : Sound { e with credit := credit } :=
  hsound.of_sameReceiver ⟨rfl, rfl, rfl, rfl, rfl, rfl, rfl⟩ hcredit hsound.held_ge
    hsound.held_none

/-- Everything the receiving half does leaves the sending half alone. -/
structure SameSender (e e' : ChannelEnd) : Prop where
  credit : e'.credit = e.credit
  held : e'.held = e.held

theorem SameSender.spare_eq {e e' : ChannelEnd} (h : SameSender e e') : e'.spare = e.spare := by
  rw [spare, spare, h.credit, h.held]

theorem grantedWindow_le : e.grantedWindow ≤ channelWindow := by
  unfold grantedWindow
  split <;> decide

theorem Sound.remaining_le {e : ChannelEnd} (h : Sound e) : e.window.remaining ≤ channelWindow := by
  have hload := h.load_le
  simp only [load, grantedWindow] at hload
  split at hload
  · simp only [initialWindow, channelWindow] at *
    omega
  · omega

/-- An end whose receiving half works inside its window and phase stays sound. -/
theorem Sound.of_sameSender {e e' : ChannelEnd} (hsound : Sound e) (h : SameSender e e')
    (hphase : e'.phase = e.phase) (hload : e'.load ≤ e.load)
    (hdrained : e'.window.drainedSinceUpdate < updateThreshold)
    (hchunk : e'.phase ≠ .relaying → e'.chunk = none ∧ e'.window.drainedSinceUpdate = 0)
    (hpending : e'.phase = .connecting →
      e'.pendingLen = (e'.pending.map fun b => charge b.length).sum) : Sound e' := by
  refine ⟨?_, hdrained, ?_, ?_, ?_, hchunk, hpending⟩
  · rw [grantedWindow, hphase]
    exact Nat.le_trans hload hsound.load_le
  · rw [h.credit]
    exact hsound.credit_le
  · rw [h.held]
    exact hsound.held_ge
  · rw [hphase, h.held]
    exact hsound.held_none

/-- What the dispatcher does with a data frame the window takes. -/
theorem receive_spec (hfit : charge bytes.length ≤ e.window.remaining) :
    (e.receive bytes).1 = true ∧ (e.receive bytes).2.1 = e.receiving ∧
      SameSender e (e.receive bytes).2.2 ∧ (e.receive bytes).2.2.phase = e.phase ∧
      (e.receive bytes).2.2.window =
        ⟨e.window.remaining - charge bytes.length, e.window.drainedSinceUpdate⟩ ∧
      (e.receive bytes).2.2.pending = e.pending ∧
      (e.receive bytes).2.2.pendingLen = e.pendingLen ∧
      (e.receive bytes).2.2.chunk = e.chunk ∧
      (e.receive bytes).2.2.buffered ≤ e.buffered + charge bytes.length ∧
      (e.receiving = true →
        (e.receive bytes).2.2.buffered = e.buffered + charge bytes.length) := by
  unfold receive RecvWindow.accept
  rw [if_pos hfit]
  cases hreceiving : e.receiving with
  | true =>
    refine ⟨rfl, rfl, ⟨rfl, rfl⟩, rfl, rfl, rfl, rfl, rfl, ?_, ?_⟩
    · simp only [buffered, inboundCharge, if_true, List.map_append, List.map_cons, List.map_nil,
        List.sum_append, List.sum_singleton]
      omega
    · intro _
      simp only [buffered, inboundCharge, if_true, List.map_append, List.map_cons, List.map_nil,
        List.sum_append, List.sum_singleton]
      omega
  | false =>
    refine ⟨rfl, rfl, ⟨rfl, rfl⟩, rfl, rfl, rfl, rfl, rfl, ?_, ?_⟩
    · simp only [buffered, Bool.false_eq_true, if_false]
      omega
    · intro hfalse
      cases hfalse

theorem receive_inbound :
    ∀ cmd ∈ (e.receive bytes).2.2.inbound, cmd ∈ e.inbound ∨ cmd = .data bytes := by
  intro cmd hcmd
  unfold receive at hcmd
  split at hcmd
  · exact Or.inl hcmd
  · split at hcmd
    · rcases List.mem_append.mp hcmd with hold | hnew
      · exact Or.inl hold
      · exact Or.inr (List.mem_singleton.mp hnew)
    · exact Or.inl hcmd

theorem receive_of_overrun (hover : ¬ charge bytes.length ≤ e.window.remaining) :
    e.receive bytes = (false, false, e) := by
  unfold receive RecvWindow.accept
  rw [if_neg hover]

theorem sound_receive (hsound : Sound e) : Sound (e.receive bytes).2.2 := by
  by_cases hfit : charge bytes.length ≤ e.window.remaining
  · obtain ⟨-, -, hsame, hphase, hwindow, hpending, hlen, hchunk, hbuffered, -⟩ :=
      receive_spec e bytes hfit
    refine hsound.of_sameSender hsame hphase ?_ ?_ ?_ ?_
    · simp only [load, hwindow]
      omega
    · rw [hwindow]
      exact hsound.drained_lt
    · rw [hphase, hchunk, hwindow]
      exact hsound.chunk_none
    · rw [hphase, hlen, hpending]
      exact hsound.pending_eq
  · rw [receive_of_overrun e bytes hfit]
    exact hsound

theorem command_spec (cmd : Inbound) (hcmd : inboundCharge cmd = 0) :
    SameSender e (e.command cmd) ∧ (e.command cmd).phase = e.phase ∧
      (e.command cmd).window = e.window ∧ (e.command cmd).pending = e.pending ∧
      (e.command cmd).pendingLen = e.pendingLen ∧ (e.command cmd).chunk = e.chunk ∧
      (e.command cmd).buffered = e.buffered := by
  unfold command
  split
  · refine ⟨⟨rfl, rfl⟩, rfl, rfl, rfl, rfl, rfl, ?_⟩
    simp only [buffered, List.map_append, List.map_cons, List.map_nil, List.sum_append,
      List.sum_singleton, hcmd, Nat.add_zero]
  · exact ⟨⟨rfl, rfl⟩, rfl, rfl, rfl, rfl, rfl, rfl⟩

theorem sound_command (cmd : Inbound) (hcmd : inboundCharge cmd = 0)
    (hsound : Sound e) : Sound (e.command cmd) := by
  obtain ⟨hsame, hphase, hwindow, hpending, hlen, hchunk, hbuffered⟩ := command_spec e cmd hcmd
  refine hsound.of_sameSender hsame hphase ?_ ?_ ?_ ?_
  · exact Nat.le_of_eq (by rw [load, load, hwindow, hbuffered])
  · rw [hwindow]
    exact hsound.drained_lt
  · rw [hphase, hchunk, hwindow]
    exact hsound.chunk_none
  · rw [hphase, hlen, hpending]
    exact hsound.pending_eq

/-- The set-up loop moves a frame to the pending ones without changing the load, or gives
the channel up. -/
theorem setupCommand_spec (h : e.setupCommand = some (result, e')) :
    SameSender e e' ∧ e.phase = .connecting ∧ e'.phase = e.phase ∧ e'.window = e.window ∧
      e'.chunk = e.chunk ∧ e'.buffered ≤ e.buffered ∧
      (result = .goesOn → e'.buffered = e.buffered) ∧
      (e.pendingLen = (e.pending.map fun b => charge b.length).sum →
        e'.pendingLen = (e'.pending.map fun b => charge b.length).sum) := by
  unfold setupCommand at h
  split at h
  · rename_i hcond
    split at h
    · cases h
    · rename_i bytes rest hinbound
      split at h
      all_goals
        obtain ⟨rfl, rfl⟩ := Prod.mk.injEq .. ▸ Option.some.inj h
        refine ⟨⟨rfl, rfl⟩, hcond.1, rfl, rfl, rfl, ?_, ?_, ?_⟩
      · simp only [buffered, hinbound, inboundCharge, List.map_append, List.map_cons,
          List.map_nil, List.sum_append, List.sum_cons, List.sum_nil]
        omega
      · intro _
        simp only [buffered, hinbound, inboundCharge, List.map_append, List.map_cons,
          List.map_nil, List.sum_append, List.sum_cons, List.sum_nil]
        omega
      · intro hlen
        simp only [List.map_append, List.map_cons, List.map_nil, List.sum_append,
          List.sum_singleton, hlen]
      · simp only [buffered, hinbound, List.map_cons, List.sum_cons]
        omega
      · intro hfalse
        cases hfalse
      · exact fun hlen => hlen
    all_goals
      rename_i rest hinbound
      obtain ⟨rfl, rfl⟩ := Prod.mk.injEq .. ▸ Option.some.inj h
      refine ⟨⟨rfl, rfl⟩, hcond.1, rfl, rfl, rfl, ?_, ?_, fun hlen => hlen⟩
      · simp only [buffered, hinbound, List.map_cons, List.sum_cons]
        omega
      · intro hfalse
        cases hfalse
  · cases h

theorem sound_setupCommand (hsound : Sound e)
    (h : e.setupCommand = some (result, e')) : Sound e' := by
  obtain ⟨hsame, hconnecting, hphase, hwindow, hchunk, hbuffered, -, hlen⟩ :=
    setupCommand_spec e e' result h
  refine hsound.of_sameSender hsame hphase ?_ ?_ ?_ ?_
  · simp only [load, hwindow]
    omega
  · rw [hwindow]
    exact hsound.drained_lt
  · rw [hphase, hchunk, hwindow]
    exact hsound.chunk_none
  · intro _
    exact hlen (hsound.pending_eq hconnecting)

/-- The pending buffer never refuses a frame the window has taken. -/
theorem pendingFits_of_sound (rest : List Inbound)
    (hsound : Sound e) (hphase : e.phase = .connecting)
    (hinbound : e.inbound = .data bytes :: rest) :
    pendingFits e.pendingLen bytes.length = true := by
  have hload := hsound.load_le
  rw [grantedWindow, if_pos hphase] at hload
  simp only [load, buffered, hinbound, inboundCharge, List.map_cons, List.sum_cons] at hload
  rw [pendingFits, decide_eq_true_eq, hsound.pending_eq hphase]
  omega

theorem setupCommand_inbound
    (h : e.setupCommand = some (result, e')) : ∀ cmd ∈ e'.inbound, cmd ∈ e.inbound := by
  unfold setupCommand at h
  split at h
  · split at h
    · cases h
    · rename_i hinbound
      split at h
      all_goals
        obtain ⟨rfl, rfl⟩ := Prod.mk.injEq .. ▸ Option.some.inj h
        intro cmd hcmd
        rw [hinbound]
        exact List.mem_cons_of_mem _ hcmd
    all_goals
      rename_i hinbound
      obtain ⟨rfl, rfl⟩ := Prod.mk.injEq .. ▸ Option.some.inj h
      intro cmd hcmd
      rw [hinbound]
      exact List.mem_cons_of_mem _ hcmd
  · cases h

/-- The set-up loop only gives up at a command of the dispatcher. -/
theorem setupCommand_goesOn (hsound : Sound e)
    (hdata : ∀ cmd ∈ e.inbound, ∃ b, cmd = .data b) (h : e.setupCommand = some (result, e')) :
    result = .goesOn := by
  have hphase := (setupCommand_spec e e' result h).2.1
  unfold setupCommand at h
  split at h
  · split at h
    · cases h
    · rename_i bytes rest hinbound
      rw [if_pos (pendingFits_of_sound e bytes rest hsound hphase hinbound)] at h
      exact (congrArg Prod.fst (Option.some.inj h)).symm
    all_goals
      rename_i hinbound
      obtain ⟨b, hb⟩ := hdata _ (hinbound ▸ List.mem_cons_self ..)
      cases hb
  · cases h

theorem connected_spec (hsound : Sound e) (h : e.connected = some e') :
    e.phase = .connecting ∧
      e' = { e with
        phase := .granted
        window := ⟨e.window.remaining + (channelWindow - initialWindow),
          e.window.drainedSinceUpdate⟩ } := by
  unfold connected at h
  split at h
  · rename_i hcond
    have hload := hsound.load_le
    rw [grantedWindow, if_pos hcond.1] at hload
    have hsum : e.window.remaining + (channelWindow - initialWindow) ≤ channelWindow := by
      simp only [load, initialWindow, channelWindow] at *
      omega
    obtain rfl := Option.some.inj h
    rw [RecvWindow.grant, saturatingAdd_eq _ _ hsum]
    exact ⟨hcond.1, rfl⟩
  · cases h

theorem sound_connected (hsound : Sound e) (h : e.connected = some e') : Sound e' := by
  obtain ⟨hphase, rfl⟩ := connected_spec e e' hsound h
  have hload := hsound.load_le
  have hne : e.phase ≠ .relaying := by simp [hphase]
  rw [grantedWindow, if_pos hphase] at hload
  refine ⟨?_, hsound.drained_lt, hsound.credit_le, hsound.held_ge, ?_, ?_, ?_⟩
  · simp only [load, buffered, grantedWindow, initialWindow, channelWindow] at hload ⊢
    simp only [reduceCtorEq, if_false]
    omega
  · intro _
    exact hsound.held_none hne
  · intro _
    exact hsound.chunk_none hne
  · intro hfalse
    cases hfalse

/-- From the answer to `open`, or the `open` itself, on the end relays. -/
theorem sound_relay (hphase : e.phase = .granted ∨ e.phase = .opening)
    (hsound : Sound e) : Sound e.relay := by
  have hne : e.phase ≠ .connecting := by
    rcases hphase with heq | heq <;> simp [heq]
  have hload := hsound.load_le
  rw [grantedWindow, if_neg hne] at hload
  refine ⟨?_, hsound.drained_lt, hsound.credit_le, hsound.held_ge, ?_, ?_, ?_⟩
  · simpa [relay, grantedWindow, load, buffered] using hload
  · intro hfalse
    exact absurd rfl hfalse
  · intro hfalse
    exact absurd rfl hfalse
  · intro hfalse
    cases hfalse

theorem nextChunk_spec (h : e.nextChunk = some e') :
    SameSender e e' ∧ e.phase = .relaying ∧ e'.phase = e.phase ∧ e'.window = e.window ∧
      e'.buffered = e.buffered := by
  unfold nextChunk at h
  split at h
  · rename_i hcond
    obtain ⟨hphase, -, hchunk⟩ := hcond
    split at h
    · rename_i bytes rest hpending
      obtain rfl := Option.some.inj h
      refine ⟨⟨rfl, rfl⟩, hphase, rfl, rfl, ?_⟩
      simp only [buffered, hpending, hchunk, List.map_cons, List.sum_cons, Option.map_some,
        Option.map_none, Option.getD_some, Option.getD_none]
      omega
    · split at h
      · cases h
      · rename_i bytes rest hinbound
        obtain rfl := Option.some.inj h
        refine ⟨⟨rfl, rfl⟩, hphase, rfl, rfl, ?_⟩
        simp only [buffered, hinbound, hchunk, inboundCharge, List.map_cons, List.sum_cons,
          Option.map_some, Option.map_none, Option.getD_some, Option.getD_none]
        omega
      · rename_i cmd rest hnot hinbound
        obtain rfl := Option.some.inj h
        refine ⟨⟨rfl, rfl⟩, hphase, rfl, rfl, ?_⟩
        have hzero : inboundCharge cmd = 0 := by
          cases cmd with
          | data bytes => exact absurd rfl (hnot bytes)
          | close => rfl
          | violation => rfl
        simp only [buffered, hinbound, List.map_cons, List.sum_cons, hzero]
        omega
  · cases h

theorem nextChunk_inbound (h : e.nextChunk = some e') : ∀ cmd ∈ e'.inbound, cmd ∈ e.inbound := by
  unfold nextChunk at h
  split at h
  · split at h
    · obtain rfl := Option.some.inj h
      exact fun _ hcmd => hcmd
    · split at h
      · cases h
      all_goals
        rename_i hinbound
        obtain rfl := Option.some.inj h
        intro cmd hcmd
        rw [hinbound]
        exact List.mem_cons_of_mem _ hcmd
  · cases h

theorem nextChunk_of_empty (hpending : e.pending = []) (hinbound : e.inbound = []) :
    e.nextChunk = none := by
  simp [nextChunk, hpending, hinbound]

theorem sound_nextChunk (hsound : Sound e) (h : e.nextChunk = some e') : Sound e' := by
  obtain ⟨hsame, hphase, hkeep, hwindow, hbuffered⟩ := nextChunk_spec e e' h
  refine hsound.of_sameSender hsame hkeep ?_ ?_ ?_ ?_
  · exact Nat.le_of_eq (by rw [load, load, hwindow, hbuffered])
  · rw [hwindow]
    exact hsound.drained_lt
  · intro hne
    exact absurd (hkeep.trans hphase) hne
  · intro hconnecting
    rw [hkeep, hphase] at hconnecting
    cases hconnecting

/-- Draining a chunk counts it, and an update gives all that was counted back. -/
theorem finishChunk_spec (hsound : Sound e) (h : e.finishChunk = some (update, e')) :
    SameSender e e' ∧ e.phase = .relaying ∧ e'.phase = e.phase ∧ e'.load = e.load ∧
      e'.window.remaining = e.window.remaining + update.getD 0 ∧
      e'.window.drainedSinceUpdate < updateThreshold ∧ update.getD 0 ≤ channelWindow := by
  unfold finishChunk at h
  split at h
  · split at h
    · cases h
    · rename_i bytes hchunk
      have hphase : e.phase = .relaying := by
        by_contra hne
        rw [(hsound.chunk_none hne).1] at hchunk
        cases hchunk
      have hload := hsound.load_le
      have hwindow : e.grantedWindow = channelWindow := by simp [grantedWindow, hphase]
      simp only [hwindow, load, buffered, hchunk, Option.map_some, Option.getD_some] at hload
      have hdrained : saturatingAdd e.window.drainedSinceUpdate (charge bytes.length) =
          e.window.drainedSinceUpdate + charge bytes.length :=
        saturatingAdd_eq _ _ (by omega)
      unfold RecvWindow.drained at h
      rw [hdrained] at h
      simp only at h
      split at h
      · rename_i hless
        obtain ⟨rfl, rfl⟩ := Prod.mk.injEq .. ▸ Option.some.inj h
        refine ⟨⟨rfl, rfl⟩, hphase, rfl, ?_, rfl, hless, Nat.zero_le _⟩
        simp only [load, buffered, hchunk, Option.map_some, Option.map_none, Option.getD_some,
          Option.getD_none]
        omega
      · rename_i hfull
        have hsum : saturatingAdd e.window.remaining
            (e.window.drainedSinceUpdate + charge bytes.length) =
            e.window.remaining + (e.window.drainedSinceUpdate + charge bytes.length) :=
          saturatingAdd_eq _ _ (by omega)
        rw [hsum] at h
        obtain ⟨rfl, rfl⟩ := Prod.mk.injEq .. ▸ Option.some.inj h
        refine ⟨⟨rfl, rfl⟩, hphase, rfl, ?_, rfl, ?_, ?_⟩
        · simp only [load, buffered, hchunk, Option.map_some, Option.map_none, Option.getD_some,
            Option.getD_none]
          omega
        · simp [updateThreshold, channelWindow]
        · simp only [Option.getD_some]
          omega
  · cases h

theorem finishChunk_frame (h : e.finishChunk = some (update, e')) :
    e'.inbound = e.inbound ∧ e'.pending = e.pending ∧ e.chunk ≠ none := by
  unfold finishChunk at h
  split at h
  · split at h
    · cases h
    · rename_i bytes hchunk
      obtain ⟨rfl, rfl⟩ := Prod.mk.injEq .. ▸ Option.some.inj h
      exact ⟨rfl, rfl, by simp [hchunk]⟩
  · cases h

theorem sound_finishChunk (hsound : Sound e)
    (h : e.finishChunk = some (update, e')) : Sound e' := by
  obtain ⟨hsame, hphase, hkeep, hload, -, hdrained, -⟩ := finishChunk_spec e e' update hsound h
  refine hsound.of_sameSender hsame hkeep (Nat.le_of_eq hload) hdrained ?_ ?_
  · intro hne
    exact absurd (hkeep.trans hphase) hne
  · intro hconnecting
    rw [hkeep, hphase] at hconnecting
    cases hconnecting

theorem sound_stopReceiving (hsound : Sound e) : Sound e.stopReceiving :=
  ⟨hsound.load_le, hsound.drained_lt, hsound.credit_le, hsound.held_ge, hsound.held_none,
    hsound.chunk_none, hsound.pending_eq⟩

end ChannelEnd

end ClantoDesk.FlowControl
