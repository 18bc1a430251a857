import ClantoDesk.FlowControl
import ClantoDesk.Runs
import Mathlib.Data.Int.Notation
import Mathlib.Data.List.Nodup

/-!
The channel tables against an arbitrary peer. Three dispatchers read the frames of a
peer: `TunnelHandle::on_frame` of the controller, `PortForwardMux::handle` of
the controlled side, and `Engine::on_channel`, which runs on both. The peer chooses the frames,
their values and their order; the tasks of the channels run in between. A channel stays on
record after its entry is gone, since its task may still hold data.
-/
namespace ClantoDesk.ChannelTable

open FlowControl

inductive Side
  | host | controller
  deriving DecidableEq

def Side.peerOwns : Side → ℤ → Bool
  | .host, id => decide (0 < id ∧ id % 2 = 1)
  | .controller, id => decide (0 < id ∧ id % 2 = 0)

inductive Dispatcher
  | controller
  | controlled
  | engine (side : Side)
  deriving DecidableEq

/-- A frame of the peer. With an `open` comes what the permission lookup and the comparison
with the login's target say about it. -/
inductive Frame
  | open (id : ℤ) (window : UInt32) (permitted authorized : Bool)
  | opened (id : ℤ) (success : Bool) (window : UInt32)
  | data (id : ℤ) (bytes : Bytes)
  | close (id : ℤ)
  | windowUpdate (id : ℤ) (add : UInt32)
  deriving DecidableEq

/-- An entry of the table and the number of its channel. The controlled side has no flag
`opened`; it is up there and never read. -/
structure Entry where
  id : ℤ
  channel : ℕ
  opened : Bool
  deriving DecidableEq

/-- A channel with the number of times `raise_initial` was called for it. -/
structure Tracked where
  state : ChannelEnd
  raises : ℕ
  deriving DecidableEq

structure Table where
  entries : List Entry
  made : List Tracked
  deriving DecidableEq

def start : Table := ⟨[], []⟩

namespace Table

def find (t : Table) (id : ℤ) : Option Entry := t.entries.find? fun e => decide (e.id = id)

def remove (t : Table) (id : ℤ) : Table :=
  { t with entries := t.entries.filter fun e => decide (e.id ≠ id) }

def update (t : Table) (k : ℕ) (f : ChannelEnd → ChannelEnd) : Table :=
  { t with made := t.made.modify k fun c => { c with state := f c.state } }

def insert (t : Table) (id : ℤ) (opened : Bool) (e : ChannelEnd) : Table :=
  ⟨⟨id, t.made.length, opened⟩ :: t.entries, t.made ++ [⟨e, 0⟩]⟩

def listening (t : Table) (e : Entry) : Bool :=
  match t.made[e.channel]? with
  | some c => c.state.receiving
  | none => false

def retain (t : Table) : Table := { t with entries := t.entries.filter t.listening }

def raise (t : Table) (e : Entry) (window : UInt32) : Table :=
  ⟨t.entries.map fun e' => if e'.id = e.id then { e' with opened := true } else e',
    t.made.modify e.channel fun c =>
      ⟨{ c.state with credit := raiseInitial c.state.credit window.toNat }, c.raises + 1⟩⟩

end Table

/-- `PortForwardMux::on_open`. -/
def onOpenControlled (t : Table) (id : ℤ) (window : UInt32) (permitted authorized : Bool) : Table :=
  let t := t.retain
  if !permitted then t
  else if maxChannels ≤ t.entries.length then t
  else if (t.find id).isSome then t
  else if !authorized then t
  else t.insert id true (ChannelEnd.incoming window.toNat)

/-- `Engine::on_open`; the authorisation is asked for in the task. -/
def onOpenEngine (side : Side) (t : Table) (id : ℤ) (window : UInt32) : Table :=
  if !side.peerOwns id then t
  else
    let t := t.retain
    if (t.find id).isSome then t
    else if maxChannels ≤ t.entries.length then t
    else t.insert id true (ChannelEnd.incoming window.toNat)

def dropEntry (t : Table) (id : ℤ) (cmd : Inbound) : Table :=
  match t.find id with
  | none => t
  | some e => (t.remove id).update e.channel fun c => c.command cmd

def onOpened (t : Table) (id : ℤ) (success : Bool) (window : UInt32) : Table :=
  if success then
    match t.find id with
    | none => t
    | some e => if e.opened then t else t.raise e window
  else dropEntry t id .close

def onData (t : Table) (id : ℤ) (bytes : Bytes) : Table :=
  match t.find id with
  | none => t
  | some e =>
    match t.made[e.channel]? with
    | none => t
    | some c =>
      let (accepted, delivered, _) := c.state.receive bytes
      let t := t.update e.channel fun c => (c.receive bytes).2.2
      if delivered then t
      else if accepted then t.remove id
      else dropEntry t id .violation

def onWindowUpdate (t : Table) (id : ℤ) (add : UInt32) : Table :=
  match t.find id with
  | none => t
  | some e =>
    t.update e.channel fun c => { c with credit := addCredit c.credit add.toNat }

def onFrame (d : Dispatcher) (t : Table) : Frame → Table
  | .open id window permitted authorized =>
    match d with
    | .controller => t
    | .controlled => onOpenControlled t id window permitted authorized
    | .engine side => onOpenEngine side t id window
  | .opened id success window => if d = .controlled then t else onOpened t id success window
  | .data id bytes => onData t id bytes
  | .close id => dropEntry t id .close
  | .windowUpdate id add => onWindowUpdate t id add

/-- What the task of a channel does between two frames of the peer. `abandon` ends it before
its relays run. -/
inductive Local
  | sendOpen | take | read (bytes : Bytes) | stopSending
  | setupCommand | connected | sendOpened | abandon
  | nextChunk | finishChunk | stopReceiving

def localStep (e : ChannelEnd) : Local → Option ChannelEnd
  | .sendOpen => if e.phase = .opening then some e.relay else none
  | .take => e.take
  | .read bytes => e.read bytes
  | .stopSending => if e.phase = .relaying then some e.stopSending else none
  | .setupCommand => e.setupCommand.map Prod.snd
  | .connected => e.connected
  | .sendOpened => if e.phase = .granted then some e.relay else none
  | .abandon =>
    if e.phase = .relaying then none else some { e with sending := false, receiving := false }
  | .nextChunk => e.nextChunk
  | .finishChunk => e.finishChunk.map Prod.snd
  | .stopReceiving => if e.phase = .relaying then some e.stopReceiving else none

/-- `openOutgoing` is given the next free id of the counter. A task that ends takes the entry of
its id out, also when that is a newer channel's. -/
inductive Event
  | frame (frame : Frame)
  | openOutgoing (id : ℤ)
  | task (channel : ℕ) (action : Local)
  | endTask (id : ℤ)
  | closeChannels (ids : List ℤ)
  | closeAll

def step (d : Dispatcher) (t : Table) : Event → Option Table
  | .frame frame => some (onFrame d t frame)
  | .openOutgoing id =>
    if d ≠ .controlled ∧ t.entries.length < maxChannels ∧ t.find id = none then
      some (t.insert id false ChannelEnd.outgoing)
    else none
  | .task k action =>
    match t.made[k]? with
    | none => none
    | some c => (localStep c.state action).map fun e => t.update k fun _ => e
  | .endTask id => if d ≠ .controlled then some (t.remove id) else none
  | .closeChannels ids =>
    match d with
    | .engine _ => some (ids.foldl (fun t id => dropEntry t id .close) t)
    | _ => none
  | .closeAll => some { t with entries := [] }

structure Inv (t : Table) : Prop where
  sound : ∀ (k : ℕ) (c : Tracked), t.made[k]? = some c → c.state.Sound ∧ c.raises ≤ 1
  distinct : (t.entries.map Entry.channel).Nodup
  bounded : ∀ e ∈ t.entries, e.channel < t.made.length
  unraised : ∀ e ∈ t.entries, e.opened = false →
    ∀ c : Tracked, t.made[e.channel]? = some c → c.raises = 0

theorem inv_start : Inv start := by
  refine ⟨?_, List.nodup_nil, ?_, ?_⟩
  · intro k c hc
    cases hc
  · intro e he
    cases he
  · intro e he
    cases he

theorem Inv.sublist {t : Table} (h : Inv t) (entries : List Entry)
    (hsub : entries.Sublist t.entries) : Inv { t with entries := entries } := by
  refine ⟨h.sound, ?_, ?_, ?_⟩
  · exact h.distinct.sublist (hsub.map Entry.channel)
  · intro e he
    exact h.bounded e (hsub.subset he)
  · intro e he
    exact h.unraised e (hsub.subset he)

variable (e : ChannelEnd) (t : Table) (id : ℤ)

theorem inv_remove (h : Inv t) : Inv (t.remove id) :=
  h.sublist _ List.filter_sublist

theorem inv_retain (h : Inv t) : Inv t.retain :=
  h.sublist _ List.filter_sublist

theorem inv_update (k : ℕ) (f : ChannelEnd → ChannelEnd) (h : Inv t)
    (hf : ∀ c : Tracked, t.made[k]? = some c → (f c.state).Sound) : Inv (t.update k f) := by
  refine ⟨?_, h.distinct, ?_, ?_⟩
  · intro j c hc
    simp only [Table.update, List.getElem?_modify, Option.map_eq_map, Option.map_eq_some_iff] at hc
    obtain ⟨c', hc', rfl⟩ := hc
    by_cases hjk : k = j
    · subst hjk
      rw [if_pos rfl]
      exact ⟨hf c' hc', (h.sound _ c' hc').2⟩
    · rw [if_neg hjk]
      exact h.sound j c' hc'
  · intro e he
    simpa [Table.update] using h.bounded e he
  · intro e he hopened c hc
    simp only [Table.update, List.getElem?_modify, Option.map_eq_map, Option.map_eq_some_iff] at hc
    obtain ⟨c', hc', rfl⟩ := hc
    have hzero := h.unraised e he hopened c' hc'
    split <;> exact hzero

theorem inv_insert (opened : Bool) (e : ChannelEnd) (h : Inv t)
    (he : e.Sound) : Inv (t.insert id opened e) := by
  have hnew : ∀ (k : ℕ) (c : Tracked), (t.made ++ [⟨e, 0⟩])[k]? = some c →
      t.made[k]? = some c ∨ c = ⟨e, 0⟩ := by
    intro k c hc
    by_cases hk : k < t.made.length
    · rw [List.getElem?_append_left hk] at hc
      exact Or.inl hc
    · rw [List.getElem?_append_right (by omega)] at hc
      have hmem := List.mem_of_getElem? hc
      exact Or.inr (List.mem_singleton.mp hmem)
  refine ⟨?_, ?_, ?_, ?_⟩
  · intro k c hc
    rcases hnew k c hc with hold | rfl
    · exact h.sound k c hold
    · exact ⟨he, Nat.zero_le 1⟩
  · simp only [Table.insert, List.map_cons, List.nodup_cons]
    refine ⟨?_, h.distinct⟩
    intro hmem
    obtain ⟨e', he', heq⟩ := List.mem_map.mp hmem
    have hlt := h.bounded e' he'
    omega
  · intro e' he'
    simp only [Table.insert, List.length_append, List.length_singleton]
    rcases List.mem_cons.mp he' with rfl | hold
    · exact Nat.lt_succ_self _
    · have hlt := h.bounded e' hold
      omega
  · intro e' he' hopened c hc
    rcases hnew _ c hc with hold | rfl
    · rcases List.mem_cons.mp he' with rfl | hmem
      · rw [List.getElem?_eq_none (Nat.le_refl _)] at hold
        cases hold
      · exact h.unraised e' hmem hopened c hold
    · rfl

theorem find_mem (e : Entry) (h : t.find id = some e) : e ∈ t.entries ∧ e.id = id := by
  refine ⟨List.mem_of_find?_eq_some h, ?_⟩
  simpa using List.find?_some h

/-- The first `opened` raises the credit; the entry then says so. -/
theorem inv_raise (e : Entry) (window : UInt32) (h : Inv t) (he : e ∈ t.entries)
    (hopened : e.opened = false) : Inv (t.raise e window) := by
  have hzero := h.unraised e he hopened
  refine ⟨?_, ?_, ?_, ?_⟩
  · intro j c hc
    simp only [Table.raise, List.getElem?_modify, Option.map_eq_map, Option.map_eq_some_iff] at hc
    obtain ⟨c', hc', rfl⟩ := hc
    obtain ⟨hsound, hraises⟩ := h.sound j c' hc'
    by_cases hj : e.channel = j
    · subst hj
      rw [if_pos rfl, hzero c' hc']
      exact ⟨ChannelEnd.sound_setCredit _ _ (raiseInitial_le _ _ hsound.credit_le) hsound,
        Nat.le_refl 1⟩
    · rw [if_neg hj]
      exact ⟨hsound, hraises⟩
  · have hsame : (t.raise e window).entries.map Entry.channel = t.entries.map Entry.channel := by
      simp only [Table.raise, List.map_map]
      apply List.map_congr_left
      intro e' _
      simp only [Function.comp_apply]
      split <;> rfl
    rw [hsame]
    exact h.distinct
  · intro e' he'
    obtain ⟨e'', he'', rfl⟩ := List.mem_map.mp he'
    have hlt := h.bounded e'' he''
    simp only [Table.raise, List.length_modify]
    split <;> exact hlt
  · intro e' he' hfalse c hc
    obtain ⟨e'', he'', rfl⟩ := List.mem_map.mp he'
    split at hfalse
    · cases hfalse
    · rename_i hid
      rw [if_neg hid] at hc
      simp only [Table.raise, List.getElem?_modify, Option.map_eq_map,
        Option.map_eq_some_iff] at hc
      obtain ⟨c', hc', rfl⟩ := hc
      -- another entry has another channel
      have hne : e.channel ≠ e''.channel := by
        intro heq
        have hsame := List.inj_on_of_nodup_map h.distinct he he'' heq
        exact hid (hsame ▸ rfl)
      rw [if_neg hne]
      exact h.unraised e'' he'' hfalse c' hc'

theorem inv_dropEntry (cmd : Inbound) (h : Inv t)
    (hcmd : ChannelEnd.inboundCharge cmd = 0) : Inv (dropEntry t id cmd) := by
  unfold dropEntry
  split
  · exact h
  · refine inv_update _ _ _ (inv_remove t id h) ?_
    intro c hc
    exact ChannelEnd.sound_command _ _ hcmd (h.sound _ c hc).1

theorem inv_onOpened (success : Bool) (window : UInt32) (h : Inv t) :
    Inv (onOpened t id success window) := by
  unfold onOpened
  split
  · split
    · exact h
    · rename_i e hfind
      split
      · exact h
      · rename_i hopened
        exact inv_raise t e window h (find_mem t id e hfind).1 (by simpa using hopened)
  · exact inv_dropEntry t id .close h rfl

theorem inv_onData (bytes : Bytes) (h : Inv t) : Inv (onData t id bytes) := by
  unfold onData
  split
  · exact h
  · rename_i e hfind
    split
    · exact h
    · have hreceived : Inv (t.update e.channel fun c => (c.receive bytes).2.2) := by
        refine inv_update t _ _ h ?_
        intro c hc
        exact ChannelEnd.sound_receive _ bytes (h.sound _ c hc).1
      simp only
      split
      · exact hreceived
      · split
        · exact inv_remove _ id hreceived
        · exact inv_dropEntry _ id .violation hreceived rfl

theorem inv_onWindowUpdate (add : UInt32) (h : Inv t) : Inv (onWindowUpdate t id add) := by
  unfold onWindowUpdate
  split
  · exact h
  · refine inv_update t _ _ h ?_
    intro c hc
    exact ChannelEnd.sound_setCredit _ _ (addCredit_le _ _) (h.sound _ c hc).1

theorem inv_onOpenControlled (window : UInt32) (permitted authorized : Bool)
    (h : Inv t) : Inv (onOpenControlled t id window permitted authorized) := by
  have hretain := inv_retain t h
  unfold onOpenControlled
  simp only
  repeat' split
  all_goals first
    | exact hretain
    | exact inv_insert _ id true _ hretain (ChannelEnd.sound_incoming _)

theorem inv_onOpenEngine (side : Side) (t : Table) (id : ℤ) (window : UInt32) (h : Inv t) :
    Inv (onOpenEngine side t id window) := by
  have hretain := inv_retain t h
  unfold onOpenEngine
  split
  · exact h
  · simp only
    repeat' split
    all_goals first
      | exact hretain
      | exact inv_insert _ id true _ hretain (ChannelEnd.sound_incoming _)

/-- One frame, whatever its kind, its values and the state it meets. -/
theorem inv_onFrame (d : Dispatcher) (t : Table) (frame : Frame) (h : Inv t) :
    Inv (onFrame d t frame) := by
  cases frame with
  | «open» id window permitted authorized =>
    cases d with
    | controller => exact h
    | controlled => exact inv_onOpenControlled t id window permitted authorized h
    | engine side => exact inv_onOpenEngine side t id window h
  | opened id success window =>
    simp only [onFrame]
    split
    · exact h
    · exact inv_onOpened t id success window h
  | data id bytes => exact inv_onData t id bytes h
  | close id => exact inv_dropEntry t id .close h rfl
  | windowUpdate id add => exact inv_onWindowUpdate t id add h

theorem sound_localStep (e' : ChannelEnd) (action : Local) (hsound : e.Sound)
    (h : localStep e action = some e') : e'.Sound := by
  cases action with
  | sendOpen =>
    simp only [localStep] at h
    split at h
    · rename_i hphase
      exact Option.some.inj h ▸ ChannelEnd.sound_relay e (Or.inr hphase) hsound
    · cases h
  | take => exact ChannelEnd.sound_take e e' hsound h
  | read bytes => exact ChannelEnd.sound_read e e' bytes hsound h
  | stopSending =>
    simp only [localStep] at h
    split at h
    · exact Option.some.inj h ▸ ChannelEnd.sound_stopSending e hsound
    · cases h
  | setupCommand =>
    obtain ⟨⟨result, e''⟩, heq, rfl⟩ := Option.map_eq_some_iff.mp h
    exact ChannelEnd.sound_setupCommand e e'' result hsound heq
  | connected => exact ChannelEnd.sound_connected e e' hsound h
  | sendOpened =>
    simp only [localStep] at h
    split at h
    · rename_i hphase
      exact Option.some.inj h ▸ ChannelEnd.sound_relay e (Or.inl hphase) hsound
    · cases h
  | abandon =>
    simp only [localStep] at h
    split at h
    · cases h
    · refine Option.some.inj h ▸ ?_
      exact hsound.of_sameSender ⟨rfl, rfl⟩ rfl (Nat.le_refl _) hsound.drained_lt
        hsound.chunk_none hsound.pending_eq
  | nextChunk => exact ChannelEnd.sound_nextChunk e e' hsound h
  | finishChunk =>
    obtain ⟨⟨update, e''⟩, heq, rfl⟩ := Option.map_eq_some_iff.mp h
    exact ChannelEnd.sound_finishChunk e e'' update hsound heq
  | stopReceiving =>
    simp only [localStep] at h
    split at h
    · exact Option.some.inj h ▸ ChannelEnd.sound_stopReceiving e hsound
    · cases h

theorem inv_closeChannels (ids : List ℤ) (t : Table) (h : Inv t) :
    Inv (ids.foldl (fun t id => dropEntry t id .close) t) := by
  induction ids generalizing t with
  | nil => exact h
  | cons id ids ih => exact ih _ (inv_dropEntry t id .close h rfl)

theorem inv_step (d : Dispatcher) (t t' : Table) (event : Event) (h : Inv t)
    (hstep : step d t event = some t') : Inv t' := by
  cases event with
  | frame frame => exact Option.some.inj hstep ▸ inv_onFrame d t frame h
  | openOutgoing id =>
    simp only [step] at hstep
    split at hstep
    · exact Option.some.inj hstep ▸ inv_insert t id false _ h ChannelEnd.sound_outgoing
    · cases hstep
  | task k action =>
    simp only [step] at hstep
    split at hstep
    · cases hstep
    · rename_i c hc
      obtain ⟨e, he, rfl⟩ := Option.map_eq_some_iff.mp hstep
      refine inv_update t k _ h ?_
      intro _ _
      exact sound_localStep c.state e action (h.sound k c hc).1 he
  | endTask id =>
    simp only [step] at hstep
    split at hstep
    · exact Option.some.inj hstep ▸ inv_remove t id h
    · cases hstep
  | closeChannels ids =>
    cases d with
    | engine side => exact Option.some.inj hstep ▸ inv_closeChannels ids t h
    | controller => cases hstep
    | controlled => cases hstep
  | closeAll => exact Option.some.inj hstep ▸ h.sublist [] (List.nil_sublist _)

/-- Every sum the code may form next fits its 32-bit counter, every difference is that of
a smaller from a larger value, and saturation never changes a credit below its cap. -/
structure Exact (e : ChannelEnd) : Prop where
  credit : ∀ n, addCredit e.credit n = min (e.credit + n) maxSendCredit
  raise : ∀ total, initialWindow ≤ effectiveWindow total
  take : min e.credit maxFrame ≤ e.credit
  refund : ∀ allow (bytes : Bytes), e.held = some allow → bytes.length ≤ allow →
    charge bytes.length ≤ allow
  grant : e.phase = .connecting → e.window.remaining + (channelWindow - initialWindow) ≤ u32Max
  drain : ∀ bytes, e.chunk = some bytes →
    e.window.remaining + (e.window.drainedSinceUpdate + charge bytes.length) ≤ u32Max
  pending : ∀ bytes rest, e.phase = .connecting → e.inbound = .data bytes :: rest →
    e.pendingLen + charge bytes.length ≤ u32Max

theorem exact_of_sound (h : e.Sound) : Exact e := by
  have hload := h.load_le
  have hcap := h.credit_le
  refine ⟨?_, ?_, Nat.min_le_left _ _, ?_, ?_, ?_, ?_⟩
  · intro n
    simp only [addCredit, saturatingAdd, maxSendCredit, channelWindow, u32Max] at *
    omega
  · intro total
    exact Nat.le_max_right _ _
  · intro allow bytes hheld hlen
    exact charge_le _ _ hlen (h.held_ge allow hheld).1
  · intro hphase
    rw [ChannelEnd.grantedWindow, if_pos hphase] at hload
    simp only [ChannelEnd.load, initialWindow, channelWindow, u32Max] at *
    omega
  · intro bytes hchunk
    have hle := e.grantedWindow_le
    simp only [ChannelEnd.load, ChannelEnd.buffered, hchunk, Option.map_some,
      Option.getD_some, channelWindow, u32Max] at *
    omega
  · intro bytes rest hphase hinbound
    have hfits := ChannelEnd.pendingFits_of_sound e bytes rest h hphase hinbound
    rw [ChannelEnd.pendingFits, decide_eq_true_eq] at hfits
    simp only [initialWindow, u32Max] at *
    omega

theorem buffered_le_of_sound (h : e.Sound) : e.buffered ≤ channelWindow := by
  have hload := h.load_le
  have hle := e.grantedWindow_le
  simp only [ChannelEnd.load] at hload
  omega

/-- Whatever the peer sends and however its frames meet the work of the tasks, a channel
buffers no more than the window it granted, its credit stays below the cap and is raised by
`opened` at most once, and no counter overflows or underflows. -/
theorem channels_bounded (d : Dispatcher) (events : List Event) (t : Table)
    (hexec : Runs.exec (step d) start events = some t) (c : Tracked) (hc : c ∈ t.made) :
    c.state.window.remaining + c.state.buffered + c.state.window.drainedSinceUpdate ≤
        (if c.state.phase = .connecting then initialWindow else channelWindow) ∧
      c.state.buffered ≤ channelWindow ∧ c.state.credit ≤ maxSendCredit ∧ c.raises ≤ 1 ∧
      Exact c.state := by
  have hinv : Inv t :=
    Runs.invariant_of_exec (step d) Inv
      (fun a event b ha hstep => inv_step d a b event ha hstep) start t events inv_start hexec
  obtain ⟨k, hk⟩ := List.mem_iff_getElem?.mp hc
  obtain ⟨hsound, hraises⟩ := hinv.sound k c hk
  exact ⟨hsound.load_le, buffered_le_of_sound _ hsound, hsound.credit_le, hraises,
    exact_of_sound _ hsound⟩

/-- A peer that answers twice, gives credit without end and overruns the window. -/
def sampleEvents : List Event :=
  [.openOutgoing 1, .task 0 .sendOpen, .frame (.opened 1 true 4294967295),
    .frame (.opened 1 true 4294967295), .frame (.windowUpdate 1 4294967295),
    .frame (.data 1 [1, 2, 3]), .frame (.close 7)]

/-- The only channel of `sampleEvents` at their end. -/
def sampleChannel : Tracked :=
  ⟨{ ChannelEnd.outgoing with
      phase := .relaying
      credit := maxSendCredit
      window := ⟨channelWindow - minFrameCharge, 0⟩
      inbound := [.data [1, 2, 3]] }, 1⟩

theorem channels_bounded_sample :
    Runs.exec (step .controller) start sampleEvents =
        some ⟨[⟨1, 0, true⟩], [sampleChannel]⟩ ∧
      sampleChannel.state.buffered ≤ channelWindow ∧ sampleChannel.raises ≤ 1 := by
  have hrun : Runs.exec (step .controller) start sampleEvents =
      some ⟨[⟨1, 0, true⟩], [sampleChannel]⟩ := by
    decide +kernel
  obtain ⟨-, hbuffered, -, hraises, -⟩ := channels_bounded .controller sampleEvents _ hrun
    sampleChannel (List.mem_singleton.mpr rfl)
  exact ⟨hrun, hbuffered, hraises⟩

/-- The opening side grants the whole window with its `open`, before the peer has opened
the channel. -/
theorem outgoing_window_before_opened :
    ∃ t, Runs.exec (step .controller) start [.openOutgoing 1] = some t ∧
      ∃ e ∈ t.entries, e.opened = false ∧ ∃ c, t.made[e.channel]? = some c ∧
        initialWindow <
          c.state.window.remaining + c.state.buffered + c.state.window.drainedSinceUpdate :=
  ⟨_, rfl, ⟨1, 0, false⟩, List.mem_singleton.mpr rfl, rfl, ⟨ChannelEnd.outgoing, 0⟩, rfl,
    by decide⟩

end ClantoDesk.ChannelTable
