import ClantoDesk.ChannelBytes

/-!
What the two applications at the ends of a tunnel's channels see: the bytes of the far
socket are the front of those of the near one, the frames of a channel go out in order, and a
`close` is not answered. That holds in every run in which no id is taken again while its last
channel is still at work. The counter of the ids takes a channel whose entry is gone for one that
has ended, so after a full round it can hand out the id of a task that still sends.
-/
namespace ClantoDesk.ChannelOrder

open FlowControl ChannelTask TunnelTraffic ChannelBytes
open TunnelChannel (Side Both)
open ChannelTable (Frame Table Tracked)

/-- What a task has written to its socket is the front of what the task at the other end of its
channel has read from its own. -/
def InSequence (s : Tunnel) : Prop :=
  ∀ side, ∀ t ∈ (station s side).tasks, t.written = [] ∨
    ∃ u ∈ (station s side.other).tasks, u.channel = t.channel ∧ t.written <+: u.near

/-- On either side the frames of every channel go out in order. -/
def FramesInOrder (s : Tunnel) : Prop :=
  ∀ side c, InOrder side (framesOf c (carried (station s side)))

/-- A channel that the peer has closed does not answer with a `close`. -/
def NotEchoed (s : Tunnel) : Prop :=
  ∀ side, ∀ t ∈ (station s side).tasks, t.toSocket = some .peerClosed →
    ∀ id, Frame.close id ∉ framesOf t.channel (sent (station s side))

theorem inSequence_of_inv (s : Tunnel) (h : Inv s) : InSequence s := by
  intro side t ht
  obtain ⟨k, hk⟩ := List.getElem?_of_mem ht
  obtain ⟨c, hc⟩ := h.registry.made side k t hk
  have hwritten := (h.received side k t c hk hc).written
  by_cases hnone : ∀ u ∈ (station s side.other).tasks, u.channel ≠ t.channel
  · rw [h.unused_delivered side.other t.channel hnone] at hwritten
    exact Or.inl (List.prefix_nil.mp hwritten)
  · push Not at hnone
    obtain ⟨u, hu, hchannel⟩ := hnone
    refine Or.inr ⟨u, hu, hchannel, ?_⟩
    obtain ⟨j, hj⟩ := List.getElem?_of_mem hu
    obtain ⟨d, hd⟩ := h.registry.made side.other j u hj
    have hsane := h.sane side.other j u d hj hd
    -- written, delivered, sent, consumed and read are each the front of the next
    have hdelivered : bytesOf (framesOf t.channel (station s side.other).delivered) <+:
        bytesOf u.log := by
      rw [← h.log side.other u hu, hchannel, sent, List.append_assoc, framesOf_append,
        bytesOf_append]
      exact List.prefix_append _ _
    have hnear : u.consumed <+: u.near := by
      rw [hsane.near]
      exact List.prefix_append _ _
    exact hwritten.trans (hdelivered.trans (hsane.sent.trans hnear))

theorem inOrder_nil (side : Side) : InOrder side [] :=
  ⟨[], [], [], rfl, by simp, by simp, nofun, nofun, nofun, fun h => h⟩

theorem framesInOrder_of_inv (s : Tunnel) (h : Inv s) : FramesInOrder s := by
  intro side c
  have hprefix : framesOf c (carried (station s side)) <+: framesOf c (sent (station s side)) := by
    rw [sent, framesOf_append]
    exact List.prefix_append _ _
  refine inOrder_of_prefix side _ _ hprefix ?_
  by_cases hnone : ∀ u ∈ (station s side).tasks, u.channel ≠ c
  · rw [h.unused side c hnone]
    exact inOrder_nil side
  · push Not at hnone
    obtain ⟨u, hu, rfl⟩ := hnone
    obtain ⟨j, hj⟩ := List.getElem?_of_mem hu
    obtain ⟨d, hd⟩ := h.registry.made side j u hj
    rw [h.log side u hu]
    exact (h.sane side j u d hj hd).inOrder

theorem notEchoed_of_inv (s : Tunnel) (h : Inv s) : NotEchoed s := by
  intro side t ht hpeer id
  obtain ⟨k, hk⟩ := List.getElem?_of_mem ht
  obtain ⟨c, hc⟩ := h.registry.made side k t hk
  rw [h.log side t ht]
  exact (h.sane side k t c hk hc).not_echoed hpeer id

/-- In every run in which no id is taken again while its last channel is still at work. -/
theorem channel_bytes (es : List Event) (s : Tunnel) (hmeets : Runs.Meets FreshId step start es)
    (hexec : Runs.exec step start es = some s) :
    InSequence s ∧ FramesInOrder s ∧ NotEchoed s := by
  have h : Inv s := Runs.invariant_of_meets FreshId step Inv
    (fun s e t hfresh h hstep => inv_step s t e h hfresh hstep) start s es inv_start hmeets hexec
  exact ⟨inSequence_of_inv s h, framesInOrder_of_inv s h, notEchoed_of_inv s h⟩

instance (s : Tunnel) (c : ℕ) : Decidable (Silent s c) :=
  decidable_of_iff (∀ side ∈ [Side.opener, Side.acceptor],
      (∀ t ∈ (station s side).tasks, t.channel = c → t.finished = true) ∧
        ∀ p ∈ (station s side).wire ++ (station s side).queue,
          p.sender = some c → ordered p.frame = false)
    ⟨fun h side => h side (by cases side <;> simp), fun h side _ => h side⟩

instance (s : Tunnel) (e : Event) : Decidable (FreshId s e) :=
  match e with
  | .open gone _ =>
    match h : ForwardEngine.openOutgoing .tunnel ⟨(station s .opener).table, s.nextId, []⟩ gone with
    | some (.ok (id, _)) =>
      decidable_of_iff (∀ t ∈ (station s .opener).tasks, t.id = id → Silent s t.channel)
        (by simp only [FreshId, h])
    | some (.error _) => isTrue (by simp only [FreshId, h])
    | none => isTrue (by simp only [FreshId, h])
  | .act _ _ _ | .transmit _ | .transmitControl | .deliver _ _ _ | .goDown _ => isTrue trivial

/-- Two bytes were read before the channel opened and reach the far side while it connects; one of
them is written. -/
def sampleRun : List Event :=
  [.open false [7, 8], .act .opener 0 .sendHello, .act .opener 0 .take, .act .opener 0 .readPrebuf,
    .act .opener 0 .enqueue, .transmit .opener, .transmit .opener, .deliver .acceptor true true,
    .deliver .acceptor true true, .act .acceptor 0 .setupCommand, .act .acceptor 0 .connected,
    .act .acceptor 0 .sendHello, .act .acceptor 0 .nextChunk, .act .acceptor 0 (.write 1)]

theorem channel_bytes_sample :
    ∃ s, Runs.exec step start sampleRun = some s ∧
      (station s .acceptor).tasks.map Task.written = [[7]] ∧
      InSequence s ∧ FramesInOrder s ∧ NotEchoed s := by
  have hrun : (Runs.exec step start sampleRun).map
      (fun s => (station s .acceptor).tasks.map Task.written) = some [[7]] := by decide
  obtain ⟨s, hexec, hwritten⟩ := Option.map_eq_some_iff.mp hrun
  exact ⟨s, hexec, hwritten, channel_bytes sampleRun s (by decide) hexec⟩

def resting (om am : List Tracked) (ot at' : List Task) (oc ac od ad : List Packet) (id : ℤ) :
    Tunnel :=
  ⟨⟨⟨⟨[], om⟩, ot, [], oc, [], od, false⟩, ⟨⟨[], am⟩, at', [], ac, [], ad, false⟩⟩, id⟩

def refusedCycle (k : ℕ) : List Event :=
  [.open false [], .act .opener k .sendHello, .transmit .opener, .deliver .acceptor false false,
    .transmit .acceptor, .deliver .opener false false, .act .opener k .nextChunk,
    .act .opener k .cancel, .act .opener k .cancelSending, .act .opener k .finish]

theorem act_last (ms : List Tracked) (ts : List Task) (c : Tracked) (t : Task)
    (entries : List ChannelTable.Entry) (queue control wire delivered : List Packet) (down : Bool)
    (side : Side) (action : Action) (hlength : ts.length = ms.length) :
    Station.act ⟨⟨entries, ms ++ [c]⟩, ts ++ [t], queue, control, wire, delivered, down⟩ side
        ms.length action =
      (ChannelTask.act (Station.context
          ⟨⟨entries, ms ++ [c]⟩, ts ++ [t], queue, control, wire, delivered, down⟩ side ms.length)
        t c.state action).map fun (t', e, out) =>
          (Station.emit ⟨⟨entries, ms ++ [{ c with state := e }]⟩, ts ++ [t'], queue, control, wire,
            delivered, down⟩ side t.channel out).leaveTable side t.id action := by
  have htask : (ts ++ [t])[ms.length]? = some t := by rw [← hlength, List.getElem?_concat_length]
  have hset (t' : Task) : (ts ++ [t]).set ms.length t' = ts ++ [t'] := by
    rw [← hlength, List.set_append_right _ _ (Nat.le_refl _)]
    simp
  have hmodify (g : Tracked → Tracked) : (ms ++ [c]).modify ms.length g = ms ++ [g c] := by
    simp [List.modify_eq_take_drop]
  unfold Station.act
  simp only [htask, List.getElem?_concat_length, hset, Table.update, hmodify]


def refusedTask (id : ℤ) (channel : ℕ) : Task :=
  { Task.new id channel [] with
    toTunnel := some .cancelled
    toSocket := some .peerClosed
    cancelled := true
    finished := true
    log := [hello .opener id] }

def refusedEnd : ChannelEnd :=
  { ChannelEnd.outgoing with phase := .relaying, sending := false, receiving := false }

def busy (om am : List Tracked) (ot at' : List Task) (oc ac : List Packet)
    (entries : List ChannelTable.Entry) (e : ChannelEnd) (t : Task)
    (queue wire od aqueue awire ad : List Packet) (id : ℤ) : Tunnel :=
  ⟨⟨⟨⟨entries, om ++ [⟨e, 0⟩]⟩, ot ++ [t], queue, oc, wire, od, false⟩,
    ⟨⟨[], am⟩, at', aqueue, ac, awire, ad, false⟩⟩, id⟩

theorem exec_refusedCycle (om am : List Tracked) (ot at' : List Task) (oc ac od ad : List Packet)
    (id : ℤ) (hlength : ot.length = om.length) :
    Runs.exec step (resting om am ot at' oc ac od ad id) (refusedCycle om.length) =
      some (resting (om ++ [⟨refusedEnd, 0⟩]) am (ot ++ [refusedTask id om.length]) at' oc ac
        (od ++ [⟨some om.length, hello .opener id⟩]) (ad ++ [⟨none, .opened id false 0⟩])
        (ForwardEngine.Kind.next .tunnel id)) := by
  let entries : List ChannelTable.Entry := [⟨id, om.length, false⟩]
  let p : Packet := ⟨some ot.length, hello .opener id⟩
  let q : Packet := ⟨none, .opened id false 0⟩
  let e1 := ChannelEnd.outgoing
  let t1 := Task.new id ot.length []
  let e2 := e1.relay
  let t2 := t1.put (hello .opener id)
  let e3 := e2.command .close
  let e4 := { e3 with inbound := [], receiving := false }
  let t4 := { t2 with toSocket := some .peerClosed }
  let t5 := { t4 with cancelled := true }
  let t6 := { t5 with toTunnel := some .cancelled }
  let next := ForwardEngine.Kind.next .tunnel id
  let mid := busy om am ot at' oc ac
  have h1 : step (resting om am ot at' oc ac od ad id) (.open false []) =
      some (mid entries e1 t1 [] [] od [] [] ad next) := rfl
  have h2 : step (mid entries e1 t1 [] [] od [] [] ad next) (.act .opener om.length .sendHello) =
      some (mid entries e2 t2 [p] [] od [] [] ad next) := by
    simp only [step, station, mid, busy, Both.get]
    rw [act_last om ot _ _ _ _ _ _ _ _ _ _ hlength]
    rfl
  have h3 : step (mid entries e2 t2 [p] [] od [] [] ad next) (.transmit .opener) =
      some (mid entries e2 t2 [] [p] od [] [] ad next) := rfl
  have h4 : step (mid entries e2 t2 [] [p] od [] [] ad next) (.deliver .acceptor false false) =
      some (mid entries e2 t2 [] [] (od ++ [p]) [q] [] ad next) := by
    have hreceive : receive ⟨⟨[], am⟩, at', [], ac, [], ad, false⟩ .acceptor
        { p with frame := decided false false p.frame } =
          ⟨⟨[], am⟩, at', [q], ac, [], ad, false⟩ := by
      have htable : ChannelTable.onFrame (dispatcher .acceptor) ⟨[], am⟩
          (decided false false p.frame) = ⟨[], am⟩ := rfl
      simp only [receive, htable, Nat.lt_irrefl, if_false]
      rfl
    exact congrArg (fun st => some (setStation _ .acceptor st)) hreceive
  have h5 : step (mid entries e2 t2 [] [] (od ++ [p]) [q] [] ad next) (.transmit .acceptor) =
      some (mid entries e2 t2 [] [] (od ++ [p]) [] [q] ad next) := rfl
  have h6 : step (mid entries e2 t2 [] [] (od ++ [p]) [] [q] ad next)
      (.deliver .opener false false) =
      some (mid [] e3 t2 [] [] (od ++ [p]) [] [] (ad ++ [q]) next) := by
    have hreceive : receive ⟨⟨entries, om ++ [⟨e2, 0⟩]⟩, ot ++ [t2], [], oc, [], od ++ [p], false⟩
        .opener { q with frame := decided false false q.frame } =
          ⟨⟨[], om ++ [⟨e3, 0⟩]⟩, ot ++ [t2], [], oc, [], od ++ [p], false⟩ := by
      have htable : ChannelTable.onFrame (dispatcher .opener) ⟨entries, om ++ [⟨e2, 0⟩]⟩
          (decided false false q.frame) = ⟨[], om ++ [⟨e3, 0⟩]⟩ := by
        have hfind : (⟨entries, om ++ [⟨e2, 0⟩]⟩ : Table).find id = some ⟨id, om.length,
            false⟩ := by
          simp [Table.find, entries]
        change ChannelTable.dropEntry _ id .close = _
        rw [ChannelTable.dropEntry, hfind]
        simp [Table.remove, Table.update, entries, List.modify_eq_take_drop, e3]
      rw [receive, htable]
      simp
    exact congrArg (fun st => some (setStation _ .opener st)) hreceive
  have h7 : step (mid [] e3 t2 [] [] (od ++ [p]) [] [] (ad ++ [q]) next)
      (.act .opener om.length .nextChunk) =
      some (mid [] e4 t4 [] [] (od ++ [p]) [] [] (ad ++ [q]) next) := by
    simp only [step, station, mid, busy, Both.get]
    rw [act_last om ot _ _ _ _ _ _ _ _ _ _ hlength]
    rfl
  have h8 : step (mid [] e4 t4 [] [] (od ++ [p]) [] [] (ad ++ [q]) next)
      (.act .opener om.length .cancel) =
      some (mid [] e4 t5 [] [] (od ++ [p]) [] [] (ad ++ [q]) next) := by
    simp only [step, station, mid, busy, Both.get]
    rw [act_last om ot _ _ _ _ _ _ _ _ _ _ hlength]
    rfl
  have h9 : step (mid [] e4 t5 [] [] (od ++ [p]) [] [] (ad ++ [q]) next)
      (.act .opener om.length .cancelSending) =
      some (mid [] refusedEnd t6 [] [] (od ++ [p]) [] [] (ad ++ [q]) next) := by
    simp only [step, station, mid, busy, Both.get]
    rw [act_last om ot _ _ _ _ _ _ _ _ _ _ hlength]
    rfl
  have h10 : step (mid [] refusedEnd t6 [] [] (od ++ [p]) [] [] (ad ++ [q]) next)
      (.act .opener om.length .finish) =
      some (mid [] refusedEnd { t6 with
          finished := true } [] [] (od ++ [p]) [] [] (ad ++ [q]) next) := by
    simp only [step, station, mid, busy, Both.get]
    rw [act_last om ot _ _ _ _ _ _ _ _ _ _ hlength]
    rfl
  simp only [refusedCycle, Runs.exec, h1, h2, h3, h4, h5, h6, h7, h8, h9, h10, Option.bind_some]
  simp only [← hlength]
  rfl

def refusedCycles (k n : ℕ) : List Event := (List.range' k n).flatMap refusedCycle

theorem exec_refusedCycles (n : ℕ) (om am : List Tracked) (ot at' : List Task)
    (oc ac od ad : List Packet) (id : ℤ) (hlength : ot.length = om.length) :
    ∃ (oms : List Tracked) (ots : List Task) (od' ad' : List Packet),
      oms.length = n ∧ ots.length = n ∧ (∀ u ∈ ots, u.near = []) ∧
      Runs.exec step (resting om am ot at' oc ac od ad id) (refusedCycles om.length n) =
        some (resting (om ++ oms) am (ot ++ ots) at' oc ac od' ad'
          ((ForwardEngine.Kind.next .tunnel)^[n] id)) := by
  induction n generalizing om ot od ad id with
  | zero => exact ⟨[], [], od, ad, rfl, rfl, nofun, by simp [refusedCycles]⟩
  | succ n ih =>
    obtain ⟨oms, ots, od', ad', homs, hots, hnear, hexec⟩ := ih (om ++ [⟨refusedEnd, 0⟩])
      (ot ++ [refusedTask id om.length]) (od ++ [⟨some om.length, hello .opener id⟩])
      (ad ++ [⟨none, .opened id false 0⟩]) (ForwardEngine.Kind.next .tunnel id) (by simp [hlength])
    refine ⟨⟨refusedEnd, 0⟩ :: oms, refusedTask id om.length :: ots, od', ad', by simp [homs],
      by simp [hots], ?_, ?_⟩
    · intro u hu
      rcases List.mem_cons.mp hu with rfl | hu
      · rfl
      · exact hnear u hu
    · have hsplit : refusedCycles om.length (n + 1) =
          refusedCycle om.length ++ refusedCycles (om.length + 1) n := by
        simp [refusedCycles, List.range'_succ]
      rw [hsplit, Function.iterate_succ_apply]
      refine (Runs.exec_append ..).mpr
        ⟨_, exec_refusedCycle om am ot at' oc ac od ad id hlength, ?_⟩
      simpa using hexec

theorem next_iterate (n : ℕ) (id : ℤ) (h : id + n ≤ ForwardEngine.i32Max) :
    (ForwardEngine.Kind.next .tunnel)^[n] id = id + n := by
  induction n generalizing id with
  | zero => simp
  | succ n ih =>
    rw [Function.iterate_succ_apply]
    have hnext : ForwardEngine.Kind.next .tunnel id = id + 1 := by
      rw [ForwardEngine.Kind.next, if_pos (by push_cast at h; omega)]
    rw [hnext, ih (id + 1) (by push_cast at h; omega)]
    push_cast
    omega

theorem next_round : (ForwardEngine.Kind.next .tunnel)^[4294967294] 3 = 1 := by
  have hsplit : 4294967294 = 2147483649 + (1 + 2147483644) := rfl
  rw [hsplit, Function.iterate_add_apply, Function.iterate_add_apply,
    next_iterate 2147483644 3 (by decide), Function.iterate_one]
  have hwrap : ForwardEngine.Kind.next .tunnel (3 + (2147483644 : ℕ)) = -2147483648 := by decide
  rw [hwrap, next_iterate 2147483649 _ (by decide)]
  decide

def parkedEnd : ChannelEnd :=
  { phase := .relaying
    credit := 262144
    held := none
    sending := true
    window := ⟨262080, 0⟩
    inbound := [.close]
    pending := []
    pendingLen := 0
    chunk := some [1]
    receiving := true }

def parkedTask : Task := { Task.new 1 0 [] with log := [hello .opener 1] }

def closedEnd : ChannelEnd :=
  { ChannelEnd.outgoing with
    phase := .relaying
    credit := 262080
    sending := false
    receiving := false }

def closedTask : Task :=
  { Task.new 1 0 [] with
    socket := [1]
    consumed := [1]
    toTunnel := some .localEof
    toSocket := some .cancelled
    cancelled := true
    closed := true
    finished := true
    log := [hello .acceptor 1, .data 1 [1], .close 1] }

/-- The first channel is closed by the far side while its task is writing to a socket that does not
take the bytes; the second one is refused. -/
def parkedRun : List Event :=
  [.open false [], .act .opener 0 .sendHello, .transmit .opener, .deliver .acceptor true true,
    .act .acceptor 0 .connected, .act .acceptor 0 .sendHello, .act .acceptor 0 .take,
    .act .acceptor 0 (.read [1]), .act .acceptor 0 .enqueue, .transmit .acceptor,
    .transmit .acceptor, .deliver .opener false false, .deliver .opener false false,
    .act .opener 0 .nextChunk, .act .acceptor 0 .take, .act .acceptor 0 .endOfFile,
    .act .acceptor 0 .cancel, .act .acceptor 0 .cancelReceiving, .act .acceptor 0 .sendClose,
    .act .acceptor 0 .finish, .transmit .acceptor, .deliver .opener false false] ++ refusedCycle 1

theorem exec_parkedRun : ∃ od ad, Runs.exec step start parkedRun =
    some (resting [⟨parkedEnd, 1⟩, ⟨refusedEnd, 0⟩] [⟨closedEnd, 0⟩]
      [parkedTask, refusedTask 2 1] [closedTask] [] [] od ad 3) :=
  ⟨[⟨some 0, hello .opener 1⟩, ⟨some 1, hello .opener 2⟩],
    [⟨some 0, hello .acceptor 1⟩, ⟨some 0, .data 1 [1]⟩, ⟨some 0, .close 1⟩,
      ⟨none, .opened 2 false 0⟩], by decide +kernel⟩

/-- A new channel gets the id 1, and the parked task of the first one reads a byte. -/
def reusedRun (k : ℕ) : List Event :=
  [.open false [], .act .opener k .sendHello, .transmit .opener, .deliver .acceptor true true,
    .act .acceptor 1 .connected, .act .opener 0 .take, .act .opener 0 (.read [66]),
    .act .opener 0 .enqueue, .transmit .opener, .act .acceptor 1 .sendHello,
    .deliver .acceptor true true, .act .acceptor 1 .nextChunk, .act .acceptor 1 (.write 1)]

theorem exec_reusedRun (oms : List Tracked) (ots : List Task) (od ad : List Packet)
    (hlength : ots.length = oms.length) :
    ∃ s, Runs.exec step (resting (⟨parkedEnd, 1⟩ :: oms) [⟨closedEnd, 0⟩] (parkedTask :: ots)
        [closedTask] [] [] od ad 1) (reusedRun (oms.length + 1)) = some s ∧
      (station s .acceptor).tasks.map (fun t => (t.channel, t.written)) =
        [(0, []), (ots.length + 1, [66])] ∧
      (station s .opener).tasks.map (fun t => (t.channel, t.near)) =
        (0, [66]) :: (ots.map fun t => (t.channel, t.near)) ++ [(ots.length + 1, [])] := by
  let new := Task.new 1 (ots.length + 1) []
  let started := new.put (hello .opener 1)
  let mid (e : ChannelEnd) (t : Task) (queue : List Packet) : Tunnel :=
    ⟨⟨⟨⟨[⟨1, oms.length + 1, false⟩], ⟨parkedEnd, 1⟩ :: (oms ++ [⟨e, 0⟩])⟩,
      parkedTask :: (ots ++ [t]), queue, [], [], od, false⟩,
      ⟨⟨[], [⟨closedEnd, 0⟩]⟩, [closedTask], [], [], [], ad, false⟩⟩, 2⟩
  have hopen : step (resting (⟨parkedEnd, 1⟩ :: oms) [⟨closedEnd, 0⟩] (parkedTask :: ots)
      [closedTask] [] [] od ad 1) (.open false []) = some (mid ChannelEnd.outgoing new []) := rfl
  have hstart : step (mid ChannelEnd.outgoing new []) (.act .opener (oms.length + 1) .sendHello) =
      some (mid ChannelEnd.outgoing.relay started [⟨some (ots.length + 1), hello .opener 1⟩]) := by
    have hact := act_last (⟨parkedEnd, 1⟩ :: oms) (parkedTask :: ots) ⟨ChannelEnd.outgoing, 0⟩ new
      [⟨1, oms.length + 1, false⟩] [] [] [] od false .opener .sendHello (by simp [hlength])
    simp only [List.cons_append, List.length_cons] at hact
    simp only [step, station, mid, Both.get, hact]
    rfl
  simp only [reusedRun, Runs.exec, hopen, hstart, Option.bind_some]
  refine ⟨_, rfl, rfl, ?_⟩
  have htasks (t t' : Task) : (t :: (ots ++ [t'])).map (fun t => (t.channel, t.near)) =
      (t.channel, t.near) :: (ots.map fun t => (t.channel, t.near)) ++ [(t'.channel, t'.near)] := by
    simp
  exact htasks _ started

/-- The run to it: the counter has come round while the first channel was parked. -/
def reusedIdRun : List Event := parkedRun ++ (refusedCycles 2 4294967294 ++ reusedRun 4294967296)

/-- A byte of the first channel is written for another channel that has got its id. -/
theorem reused_id_mixes_channels :
    ∃ s, Runs.exec step start reusedIdRun = some s ∧ ¬ InSequence s := by
  obtain ⟨od, ad, hparked⟩ := exec_parkedRun
  obtain ⟨oms, ots, od', ad', homs, hots, hnear, hcycles⟩ := exec_refusedCycles 4294967294
    [⟨parkedEnd, 1⟩, ⟨refusedEnd, 0⟩] [⟨closedEnd, 0⟩] [parkedTask, refusedTask 2 1]
      [closedTask] [] []
    od ad 3 rfl
  rw [next_round] at hcycles
  obtain ⟨s, hlast, hacceptor, hopener⟩ := exec_reusedRun (⟨refusedEnd, 0⟩ :: oms)
    (refusedTask 2 1 :: ots) od' ad' (by simp [homs, hots])
  simp only [List.length_cons, homs, hots, Nat.reduceAdd] at hlast hacceptor hopener
  refine ⟨s, (Runs.exec_append ..).mpr ⟨_, hparked, (Runs.exec_append ..).mpr ⟨_, hcycles, hlast⟩⟩,
    ?_⟩
  intro hsequence
  have hforeign : (4294967296, [66]) ∈
      (station s .acceptor).tasks.map fun t => (t.channel, t.written) := by
    rw [hacceptor]
    exact List.mem_cons_of_mem _ (List.mem_singleton_self _)
  obtain ⟨t, ht, hpair⟩ := List.mem_map.mp hforeign
  obtain ⟨hchannel, hwritten⟩ := Prod.mk.inj hpair
  rcases hsequence .acceptor t ht with hempty | ⟨u, hu, hsame, hprefix⟩
  · rw [hempty] at hwritten
    cases hwritten
  · have hmem : (u.channel, u.near) ∈ (station s .opener).tasks.map fun t => (t.channel, t.near) :=
      List.mem_map_of_mem hu
    rw [hsame, hchannel, hopener] at hmem
    rw [hwritten] at hprefix
    have hnone : u.near = [] := by
      simp only [List.map_cons, List.cons_append, List.mem_cons, Prod.mk.injEq, List.mem_append,
        List.mem_map, List.not_mem_nil, or_false] at hmem
      rcases hmem with ⟨hbad, -⟩ | ⟨hbad, -⟩ | ⟨v, hv, -, heq⟩ | ⟨-, heq⟩
      · cases hbad
      · cases hbad
      · rw [← heq, hnear v hv]
      · exact heq
    rw [hnone] at hprefix
    cases List.prefix_nil.mp hprefix

end ClantoDesk.ChannelOrder
