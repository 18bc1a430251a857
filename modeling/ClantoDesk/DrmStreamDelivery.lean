import ClantoDesk.DrmStreamOrder

/-!
What the consumer receives of the capture stream, and the credit. What is sent and not received is
ahead of the consumer: the packets in the socket, those the task has yet to write, and the header of
a body that has not come. A frame is acked when it has come, and not before it was sent in full.
-/
namespace ClantoDesk.DrmStream

open LittleEndian PacketStream

variable {P D F : Type} (encode : Data P D → Bytes) (decode : Bytes → Option (Data P D))

def Awaits : Option (Data P D) → List (Message P D F) → List (Packet UInt8 F) → Prop
  | none, ahead, ps => ps = ahead.flatMap (Message.packets encode)
  | some (.drmFrame header), ahead, ps => ∃ data rest, ahead = .frame header data :: rest ∧
      ps = ⟨data, none⟩ :: rest.flatMap (Message.packets encode)
  | some (.drmCursor header), ahead, ps => ∃ colors rest, ahead = .cursor header colors :: rest ∧
      ps = ⟨colors, none⟩ :: rest.flatMap (Message.packets encode)
  | some _, _, _ => False

def Flow (s : Stream P D F) : Prop :=
  ∃ ahead loaded, s.sent = s.received ++ ahead ∧
    Awaits encode s.header ahead (loaded ++ s.packets) ∧
    (∀ p ∈ loaded, p.payload.length < u32Prefix.bound) ∧
    InFlight u32Prefix s.reader loaded (s.socket ++ s.pending)

def frameCount (ms : List (Message P D F)) : ℕ := ms.countP Message.isFrame

def Left (s : Stream P D F) : Prop := s.pending ≠ [] ∨ s.packets ≠ []

/-- The last message is a frame that has not been written in full. -/
structure Unfinished (sent : List (Message P D F)) (framesSent : ℕ) (left : Prop) : Prop where
  count : frameCount sent = framesSent + 1
  last : ∃ before m, sent = before ++ [m] ∧ m.isFrame = true
  left : left

def CountedAt (sent : List (Message P D F)) (framesSent : ℕ) (left : Prop) : Task P D F → Prop
  | .sendingFrame => Unfinished sent framesSent left
  | .closed _ => frameCount sent = framesSent ∨ Unfinished sent framesSent left
  | _ => frameCount sent = framesSent

def AckedAt (acked : ℕ) (received : List (Message P D F)) : Consumer → Prop
  | .running => acked = frameCount received
  | .acking => acked + 1 = frameCount received
  | _ => acked ≤ frameCount received

def Oversized (m : Message P D F) : Prop :=
  match m with
  | .frame _ data => maxDrmJsonBytes < (encode m.data).length ∨ maxDrmRawBytes < data.length
  | .cursor _ colors => maxDrmJsonBytes < (encode m.data).length ∨ maxDrmRawBytes < colors.length
  | _ => maxDrmJsonBytes < (encode m.data).length

structure Delivered (s : Stream P D F) : Prop where
  flow : s.consumer = .running ∨ s.consumer = .acking → Flow encode s
  received : s.received <+: s.sent
  fresh : s.header = none → s.consumed = false → s.reader = fresh
  acking : s.consumer = .acking → s.header = none ∧ s.consumed = false
  failed : s.consumer = .failed → ∃ m ∈ s.sent, Oversized encode m
  counted : CountedAt s.sent s.framesSent (Left s) s.task
  receivedCount : frameCount s.received ≤ s.framesSent
  acked : AckedAt s.acked s.received s.consumer
  ledger : s.credit + ((s.framesSent : ℤ) - s.acked) + s.acks = drmFrameCredit

/-- What is left to write, outside of a message and inside of one. -/
structure Inv (s : Stream P D F) : Prop extends Delivered encode s where
  idle : s.task.sending = false → s.task.ended = false → s.packets = [] ∧ s.pending = []
  writing : s.task.sending = true → s.pending ≠ []

theorem inv_start : Inv encode (start : Stream P D F) where
  flow _ := ⟨[], [], rfl, rfl, by simp, rfl, rfl⟩
  received := List.prefix_refl []
  fresh _ _ := rfl
  acking h := by cases h
  failed h := by cases h
  counted := rfl
  receivedCount := Nat.le_refl 0
  acked := rfl
  ledger := rfl
  idle _ _ := ⟨rfl, rfl⟩
  writing h := absurd h Bool.false_ne_true

variable (s : Stream P D F) (m : Message P D F) (task : Task P D F) (p : Packet UInt8 F)
  (n left : ℕ)

theorem frameCount_append (ms ns : List (Message P D F)) :
    frameCount (ms ++ ns) = frameCount ms + frameCount ns := List.countP_append

section Counts

variable {sent : List (Message P D F)} {framesSent : ℕ} {left left' : Prop} {task : Task P D F}

theorem Unfinished.imp (h : Unfinished sent framesSent left) (hleft : left → left') :
    Unfinished sent framesSent left' := ⟨h.count, h.last, hleft h.left⟩

theorem counted_cases (hcounted : CountedAt sent framesSent left task) :
    frameCount sent = framesSent ∨ Unfinished sent framesSent left := by
  cases task with
  | sendingFrame => exact Or.inr hcounted
  | closed hand => exact hcounted
  | _ => exact Or.inl hcounted

theorem counted_imp (hcounted : CountedAt sent framesSent left task) (hleft : left → left') :
    CountedAt sent framesSent left' task := by
  cases task with
  | sendingFrame => exact hcounted.imp hleft
  | closed hand => exact hcounted.imp_right fun h => h.imp hleft
  | _ => exact hcounted

theorem counted_of_not (hcounted : CountedAt sent framesSent left task)
    (hframe : task.sendsFrame = false) (hended : task.ended = false) :
    frameCount sent = framesSent := by
  cases task with
  | sendingFrame => exact absurd hframe.symm Bool.false_ne_true
  | closed hand => exact absurd hended.symm Bool.false_ne_true
  | _ => exact hcounted

theorem counted_of_eq (hcount : frameCount sent = framesSent) (hframe : task.sendsFrame = false) :
    CountedAt sent framesSent left task := by
  cases task with
  | sendingFrame => exact absurd hframe.symm Bool.false_ne_true
  | closed hand => exact Or.inl hcount
  | _ => exact hcount

theorem acked_le (acked : ℕ) (received : List (Message P D F)) (consumer : Consumer)
    (hacked : AckedAt acked received consumer) : acked ≤ frameCount received := by
  cases consumer with
  | running => exact Nat.le_of_eq hacked
  | acking => exact Nat.le_of_succ_le (Nat.le_of_eq hacked)
  | stopped => exact hacked
  | failed => exact hacked

end Counts

/-! ### The task -/

theorem inv_task (hinv : Inv encode s)
    (hsending : s.task.sending = false) (hended : s.task.ended = false)
    (hcounted : CountedAt s.sent s.framesSent (Left s) task) (htask : task.sending = false) :
    Inv encode { s with task := task } where
  flow := hinv.flow
  received := hinv.received
  fresh := hinv.fresh
  acking := hinv.acking
  failed := hinv.failed
  counted := hcounted
  receivedCount := hinv.receivedCount
  acked := hinv.acked
  ledger := hinv.ledger
  idle _ _ := hinv.idle hsending hended
  writing h := absurd (htask.symm.trans h) Bool.false_ne_true

theorem inv_close (hand : Option (DrmProducerMsg P D F))
    (hs : Delivered encode s) : Inv encode { s with task := .closed hand } where
  flow := hs.flow
  received := hs.received
  fresh := hs.fresh
  acking := hs.acking
  failed := hs.failed
  counted := counted_cases hs.counted
  receivedCount := hs.receivedCount
  acked := hs.acked
  ledger := hs.ledger
  idle _ h := absurd h.symm Bool.false_ne_true
  writing h := absurd h Bool.false_ne_true

theorem awaits_append (header : Option (Data P D)) (ahead : List (Message P D F))
    (ps : List (Packet UInt8 F)) (m : Message P D F) (hawaits : Awaits encode header ahead ps) :
    Awaits encode header (ahead ++ [m]) (ps ++ m.packets encode) := by
  have hmore : ∀ ns : List (Message P D F), (ns ++ [m]).flatMap (Message.packets encode) =
      ns.flatMap (Message.packets encode) ++ m.packets encode := by
    intro ns
    rw [List.flatMap_append, List.flatMap_singleton]
  cases header with
  | none =>
    change ps ++ m.packets encode = (ahead ++ [m]).flatMap (Message.packets encode)
    rw [hmore, ← (show ps = _ from hawaits)]
  | some data =>
    cases data with
    | drmFrame header =>
      obtain ⟨data, rest, rfl, rfl⟩ := hawaits
      exact ⟨data, rest ++ [m], rfl, by rw [hmore, List.cons_append]⟩
    | drmCursor header =>
      obtain ⟨colors, rest, rfl, rfl⟩ := hawaits
      exact ⟨colors, rest ++ [m], rfl, by rw [hmore, List.cons_append]⟩
    | drmDisplaysChanged displays => exact hawaits.elim
    | drmFrameDmabuf desc => exact hawaits.elim

theorem inv_load (ps : List (Packet UInt8 F))
    (hs : Delivered encode s) (hpackets : s.packets = p :: ps) (hpending : s.pending = [])
    (hsending : s.task.sending = true) : Inv encode s.load := by
  have hload : s.load = if p.payload.length < u32Prefix.bound then
      { s with packets := ps, pending := octets u32Prefix p }
    else { s with task := .closed s.task.hand } := by
    unfold Stream.load
    rw [hpackets]
  rw [hload]
  split
  · rename_i hfits
    have hsome := octets_ne_nil u32Prefix p
    refine ⟨⟨fun hopen => ?_, hs.received, hs.fresh, hs.acking, hs.failed,
      counted_imp hs.counted fun _ => Or.inl hsome, hs.receivedCount, hs.acked, hs.ledger⟩,
      fun h => absurd (h.symm.trans hsending) Bool.false_ne_true, fun _ => hsome⟩
    obtain ⟨ahead, loaded, hsent, hawaits, hlen, hin⟩ := hs.flow hopen
    rw [hpending, List.append_nil] at hin
    rw [hpackets] at hawaits
    refine ⟨ahead, loaded ++ [p], hsent, ?_, ?_, inFlight_append u32Prefix _ _ _ p hin⟩
    · rw [List.append_assoc]
      exact hawaits
    · intro q hq
      rcases List.mem_append.mp hq with hq | hq
      · exact hlen q hq
      · obtain rfl := List.mem_singleton.mp hq
        exact hfits
  · exact inv_close encode s s.task.hand hs

/-- A message begins. -/
theorem inv_send (hinv : Inv encode s)
    (hsending : s.task.sending = false) (hended : s.task.ended = false)
    (htask : task.sending = true) (hframe : task.sendsFrame = m.isFrame) :
    Inv encode (s.send encode m task) := by
  obtain ⟨hpackets, hpending⟩ := hinv.idle hsending hended
  have hcount : frameCount s.sent = s.framesSent := by
    refine counted_of_not hinv.counted ?_ hended
    cases hat : s.task with
    | sendingFrame =>
      rw [hat] at hsending
      exact absurd hsending.symm Bool.false_ne_true
    | _ => rfl
  obtain ⟨p, ps, hp⟩ : ∃ p ps, m.packets encode = p :: ps := by
    cases m <;> exact ⟨_, _, rfl⟩
  refine inv_load encode _ p ps ⟨fun hopen => ?_, ?_, hinv.fresh, hinv.acking,
    fun hfailed => ?_, ?_, hinv.receivedCount, hinv.acked, hinv.ledger⟩ hp hpending htask
  · obtain ⟨ahead, loaded, hsent, hawaits, hlen, hin⟩ := hinv.flow hopen
    refine ⟨ahead ++ [m], loaded, ?_, ?_, hlen, hin⟩
    · change s.sent ++ [m] = s.received ++ (ahead ++ [m])
      rw [hsent, List.append_assoc]
    · rw [hpackets, List.append_nil] at hawaits
      exact awaits_append encode s.header ahead loaded m hawaits
  · exact hinv.received.trans (List.prefix_append s.sent [m])
  · obtain ⟨n, hn, hlong⟩ := hinv.failed hfailed
    exact ⟨n, List.mem_append_left [m] hn, hlong⟩
  · change CountedAt (s.sent ++ [m]) s.framesSent _ task
    cases hm : m.isFrame with
    | false =>
      refine counted_of_eq ?_ (hframe.trans hm)
      rw [frameCount_append, hcount]
      simp [frameCount, hm]
    | true =>
      have hunfinished : Unfinished (s.sent ++ [m]) s.framesSent
          (Left { s with packets := m.packets encode }) := by
        refine ⟨?_, ⟨s.sent, m, rfl, hm⟩, Or.inr ?_⟩
        · rw [frameCount_append, hcount]
          simp [frameCount, hm]
        · change m.packets encode ≠ []
          rw [hp]
          exact List.cons_ne_nil p ps
      cases task with
      | sendingFrame => exact hunfinished
      | _ => exact absurd (hframe.trans hm) Bool.false_ne_true

/-- A message has been written in full. -/
theorem inv_finish (hinv : Inv encode s)
    (hsending : s.task.sending = true) (hpackets : s.packets = [])
    (hpending : s.pending.drop n = []) :
    Inv encode { s with
      socket := s.socket ++ s.pending.take n, pending := s.pending.drop n }.finish := by
  have htake : s.pending.take n = s.pending := by
    have hboth := List.take_append_drop n s.pending
    rwa [hpending, List.append_nil] at hboth
  have hflow : s.consumer = .running ∨ s.consumer = .acking → ∃ ahead loaded,
      s.sent = s.received ++ ahead ∧ Awaits encode s.header ahead (loaded ++ s.packets) ∧
      (∀ p ∈ loaded, p.payload.length < u32Prefix.bound) ∧
      InFlight u32Prefix s.reader loaded ((s.socket ++ s.pending.take n) ++ s.pending.drop n) := by
    intro hopen
    rw [hpending, htake, List.append_nil]
    exact hinv.flow hopen
  unfold Stream.finish
  split
  · rename_i first htask
    have hcount : frameCount s.sent = s.framesSent := by
      refine counted_of_not hinv.counted ?_ ?_ <;>
        rw [show s.task = .sendingChanged first from htask] <;> rfl
    refine ⟨⟨hflow, hinv.received, hinv.fresh, hinv.acking, hinv.failed, ?_, hinv.receivedCount,
      hinv.acked, hinv.ledger⟩, fun _ _ => ⟨hpackets, hpending⟩, fun h => ?_⟩ <;> cases first
    · exact hcount
    · exact hcount
    · exact absurd h Bool.false_ne_true
    · exact absurd h Bool.false_ne_true
  · rename_i htask
    have hcount : frameCount s.sent = s.framesSent := by
      refine counted_of_not hinv.counted ?_ ?_ <;>
        rw [show s.task = .sendingCursor from htask] <;> rfl
    exact ⟨⟨hflow, hinv.received, hinv.fresh, hinv.acking, hinv.failed, hcount,
      hinv.receivedCount, hinv.acked, hinv.ledger⟩, fun _ _ => ⟨hpackets, hpending⟩,
      fun h => absurd h Bool.false_ne_true⟩
  · rename_i htask
    have hcount : frameCount s.sent = s.framesSent + 1 := by
      have hcounted := hinv.counted
      rw [show s.task = .sendingFrame from htask] at hcounted
      exact hcounted.count
    refine ⟨⟨hflow, hinv.received, hinv.fresh, hinv.acking, hinv.failed, hcount,
      Nat.le_succ_of_le hinv.receivedCount, hinv.acked, ?_⟩, fun _ _ => ⟨hpackets, hpending⟩,
      fun h => absurd h Bool.false_ne_true⟩
    have hledger := hinv.ledger
    change s.credit - 1 + (((s.framesSent + 1 : ℕ) : ℤ) - s.acked) + s.acks = drmFrameCredit
    push_cast
    omega
  · rename_i hchanged hcursor hframe
    exfalso
    cases htask : s.task with
    | sendingChanged first => exact hchanged first htask
    | sendingCursor => exact hcursor htask
    | sendingFrame => exact hframe htask
    | _ =>
      rw [htask] at hsending
      exact absurd hsending Bool.false_ne_true

theorem inv_write (hinv : Inv encode s)
    (hsending : s.task.sending = true) : Inv encode (s.write n) := by
  have hmove : ∀ loaded, InFlight u32Prefix s.reader loaded (s.socket ++ s.pending) →
      InFlight u32Prefix s.reader loaded
        ((s.socket ++ s.pending.take n) ++ s.pending.drop n) := by
    intro loaded hin
    rwa [List.append_assoc, List.take_append_drop]
  have hflow : s.consumer = .running ∨ s.consumer = .acking → Flow encode { s with
      socket := s.socket ++ s.pending.take n, pending := s.pending.drop n } := by
    intro hopen
    obtain ⟨ahead, loaded, hsent, hawaits, hlen, hin⟩ := hinv.flow hopen
    exact ⟨ahead, loaded, hsent, hawaits, hlen, hmove loaded hin⟩
  unfold Stream.write
  simp only
  split
  · rename_i hsome
    exact ⟨⟨hflow, hinv.received, hinv.fresh, hinv.acking, hinv.failed,
      counted_imp hinv.counted fun _ => Or.inl hsome, hinv.receivedCount, hinv.acked,
      hinv.ledger⟩, fun h => absurd (h.symm.trans hsending) Bool.false_ne_true, fun _ => hsome⟩
  · rename_i hnone
    have hpending : s.pending.drop n = [] := not_not.mp hnone
    split
    · rename_i hpackets
      exact inv_finish encode s n hinv hsending hpackets hpending
    · rename_i hpackets
      obtain ⟨p, ps, hp⟩ := List.exists_cons_of_ne_nil hpackets
      exact inv_load encode _ p ps ⟨hflow, hinv.received, hinv.fresh, hinv.acking, hinv.failed,
        counted_imp hinv.counted fun _ => Or.inr hpackets, hinv.receivedCount, hinv.acked,
        hinv.ledger⟩ hp hpending hsending

theorem inv_head (hinv : Inv encode s) (hsending : s.task.sending = false)
    (hended : s.task.ended = false) (hcount : frameCount s.sent = s.framesSent) :
    Inv encode s.head := by
  have htask := inv_task encode s (.draining maxAckReads) hinv hsending hended hcount rfl
  exact ⟨⟨htask.flow, htask.received, htask.fresh, htask.acking, htask.failed, htask.counted,
    htask.receivedCount, htask.acked, htask.ledger⟩, htask.idle, htask.writing⟩

theorem inv_ship (hinv : Inv encode s) (hsending : s.task.sending = false)
    (hended : s.task.ended = false) (hcount : frameCount s.sent = s.framesSent) :
    Inv encode (s.ship encode) := by
  unfold Stream.ship
  split
  · exact inv_head encode s hinv hsending hended hcount
  · split
    · rename_i m hheld
      obtain ⟨f, -, hframe⟩ := Option.bind_eq_some_iff.mp hheld
      have hisFrame := (isFrame_of_frameOf f m hframe).1
      exact inv_send encode { s with heldFrame := none } m .sendingFrame
        ⟨⟨hinv.flow, hinv.received, hinv.fresh, hinv.acking, hinv.failed, hinv.counted,
          hinv.receivedCount, hinv.acked, hinv.ledger⟩, hinv.idle, hinv.writing⟩
        hsending hended rfl hisFrame.symm
    · exact inv_head encode s hinv hsending hended hcount

theorem draining_cases (hdraining : s.draining = some left) :
    s.task.sending = false ∧ s.task.ended = false ∧ s.task.sendsFrame = false := by
  unfold Stream.draining at hdraining
  split at hdraining
  · rename_i htask
    rw [htask]
    exact ⟨rfl, rfl, rfl⟩
  · rename_i htask
    rw [htask]
    exact ⟨rfl, rfl, rfl⟩
  · cases hdraining

theorem inv_drained (hinv : Inv encode s)
    (hdraining : s.draining = some left) : Inv encode (s.drained encode) := by
  obtain ⟨hsending, hended, hframe⟩ := draining_cases s left hdraining
  have hcount := counted_of_not hinv.counted hframe hended
  unfold Stream.drained
  split
  · have htask := inv_task encode s .waiting hinv hsending hended hcount rfl
    exact ⟨⟨htask.flow, htask.received, htask.fresh, htask.acking, htask.failed, htask.counted,
      htask.receivedCount, htask.acked, htask.ledger⟩, htask.idle, htask.writing⟩
  · exact inv_ship encode s hinv hsending hended hcount
  · exact hinv

/-- Acks that are read come back as credit. -/
theorem inv_readAcks (hinv : Inv encode s) (hn : n ≤ s.acks)
    (hdraining : s.draining = some left) : Inv encode (s.readAcks encode n left) := by
  obtain ⟨hsending, hended, hframe⟩ := draining_cases s left hdraining
  have hcount := counted_of_not hinv.counted hframe hended
  have hcredit : Inv encode { s with
      credit := min (s.credit + n) drmFrameCredit, acks := s.acks - n } := by
    refine ⟨⟨hinv.flow, hinv.received, hinv.fresh, hinv.acking, hinv.failed, hinv.counted,
      hinv.receivedCount, hinv.acked, ?_⟩, hinv.idle, hinv.writing⟩
    have hledger := hinv.ledger
    have hacked := acked_le s.acked s.received s.consumer hinv.acked
    have hreceived := hinv.receivedCount
    change min (s.credit + n) drmFrameCredit + ((s.framesSent : ℤ) - s.acked) +
      ((s.acks - n : ℕ) : ℤ) = drmFrameCredit
    omega
  unfold Stream.readAcks
  simp only
  split
  · exact inv_drained encode _ left hcredit hdraining
  · split
    · exact inv_task encode _ _ hcredit hsending hended hcount rfl
    · exact inv_task encode _ _ hcredit hsending hended hcount rfl

theorem inv_first (first : Option (DrmProducerMsg P D F)) (hinv : Inv encode s)
    (hsending : s.task.sending = false) (hended : s.task.ended = false)
    (hcount : frameCount s.sent = s.framesSent) :
    Inv encode { s with task := first.elim .receiving .handling } := by
  cases first with
  | none => exact inv_task encode s .receiving hinv hsending hended hcount rfl
  | some msg => exact inv_task encode s (.handling msg) hinv hsending hended hcount rfl

theorem inv_handle (msg : DrmProducerMsg P D F) (hinv : Inv encode s)
    (hsending : s.task.sending = false) (hended : s.task.ended = false)
    (hcount : frameCount s.sent = s.framesSent) : Inv encode (s.handle encode msg) := by
  have htask := inv_task encode s .receiving hinv hsending hended hcount rfl
  unfold Stream.handle
  split
  · exact inv_send encode s _ .sendingCursor hinv hsending hended rfl rfl
  · exact htask
  · exact ⟨⟨htask.flow, htask.received, htask.fresh, htask.acking, htask.failed, htask.counted,
      htask.receivedCount, htask.acked, htask.ledger⟩, htask.idle, htask.writing⟩

/-! ### The consumer -/

def packetRead (s : Stream P D F) (socket : List (Octet UInt8 F)) : Stream P D F :=
  { s with socket := socket, consumed := true, reader := fresh }

/-- A message comes in full. -/
theorem inv_deliver (socket : List (Octet UInt8 F)) (m : Message P D F)
    (rest : List (Message P D F)) (loaded : List (Packet UInt8 F)) (hinv : Inv encode s)
    (hrunning : s.consumer = .running)
    (hsent : s.sent = s.received ++ m :: rest)
    (hpackets : loaded ++ s.packets = rest.flatMap (Message.packets encode))
    (hlen : ∀ p ∈ loaded, p.payload.length < u32Prefix.bound)
    (hin : InFlight u32Prefix fresh loaded (socket ++ s.pending)) :
    Inv encode ((packetRead s socket).deliver m) := by
  have hacked : s.acked = frameCount s.received := by
    have h := hinv.acked
    rw [hrunning] at h
    exact h
  have hcounts : frameCount (s.received ++ [m]) = frameCount s.received + frameCount [m] :=
    frameCount_append s.received [m]
  have hsent' : s.sent = (s.received ++ [m]) ++ rest := by
    rw [hsent, List.append_assoc]
    rfl
  have hreceived : frameCount (s.received ++ [m]) ≤ s.framesSent := by
    have hall := congrArg frameCount hsent'
    rw [frameCount_append] at hall
    rcases counted_cases hinv.counted with hcount | hunfinished
    · omega
    · -- the frame that is not sent in full is still ahead
      have hrest : rest ≠ [] := by
        rintro rfl
        obtain ⟨rfl, hnone⟩ := List.append_eq_nil_iff.mp hpackets
        rcases hunfinished.left with hpending | hmore
        · exact hpending (List.append_eq_nil_iff.mp hin.2).2
        · exact hmore hnone
      obtain ⟨before, last, hlast, hframe⟩ := hunfinished.last
      have hmem : last ∈ rest := by
        have hget := congrArg List.getLast? (hsent'.symm.trans hlast)
        rw [List.getLast?_append_of_ne_nil _ hrest, List.getLast?_concat] at hget
        exact List.mem_of_getLast? hget
      have hpos : 0 < frameCount rest := List.countP_pos_iff.mpr ⟨last, hmem, hframe⟩
      have hcount := hunfinished.count
      omega
  have hopen : Flow encode ((packetRead s socket).deliver m) :=
    ⟨rest, loaded, hsent', hpackets, hlen, hin⟩
  refine ⟨⟨fun _ => hopen, ⟨rest, hsent'.symm⟩, fun _ _ => rfl, fun _ => ⟨rfl, rfl⟩,
    fun hfailed => ?_, hinv.counted, hreceived, ?_, hinv.ledger⟩, hinv.idle, hinv.writing⟩
  · unfold Stream.deliver at hfailed
    cases hm : m.isFrame <;> simp [hm] at hfailed
  · unfold Stream.deliver
    cases hm : m.isFrame with
    | true =>
      change s.acked + 1 = frameCount (s.received ++ [m])
      rw [hcounts, hacked]
      simp [frameCount, hm]
    | false =>
      change s.acked = frameCount (s.received ++ [m])
      rw [hcounts, hacked]
      simp [frameCount, hm]

/-- A packet comes in full: the next message, its header or its body. -/
theorem inv_accept (socket : List (Octet UInt8 F)) (p : Packet UInt8 F)
    (ahead : List (Message P D F)) (loaded : List (Packet UInt8 F)) (hinv : Inv encode s)
    (hjson : ∀ m ∈ s.sent, decode (encode m.data) = some m.data)
    (hrunning : s.consumer = .running) (hsent : s.sent = s.received ++ ahead)
    (hawaits : Awaits encode s.header ahead (p :: loaded ++ s.packets))
    (hlen : ∀ q ∈ loaded, q.payload.length < u32Prefix.bound)
    (hin : InFlight u32Prefix fresh loaded (socket ++ s.pending)) :
    Inv encode ((packetRead s socket).accept decode p) := by
  cases hheader : s.header with
  | some data =>
    rw [hheader] at hawaits
    cases data with
    | drmFrame header =>
      obtain ⟨body, rest, rfl, hpackets⟩ := hawaits
      obtain ⟨rfl, hmore⟩ := List.cons.inj hpackets
      have haccept : (packetRead s socket).accept decode ⟨body, none⟩ =
          (packetRead s socket).deliver (.frame header body) := by
        simp [Stream.accept, packetRead, hheader]
      rw [haccept]
      exact inv_deliver encode s socket _ rest loaded hinv hrunning hsent hmore hlen hin
    | drmCursor header =>
      obtain ⟨colors, rest, rfl, hpackets⟩ := hawaits
      obtain ⟨rfl, hmore⟩ := List.cons.inj hpackets
      have haccept : (packetRead s socket).accept decode ⟨colors, none⟩ =
          (packetRead s socket).deliver (.cursor header colors) := by
        simp [Stream.accept, packetRead, hheader]
      rw [haccept]
      exact inv_deliver encode s socket _ rest loaded hinv hrunning hsent hmore hlen hin
    | drmDisplaysChanged displays => exact hawaits.elim
    | drmFrameDmabuf desc => exact hawaits.elim
  | none =>
    rw [hheader] at hawaits
    cases ahead with
    | nil => exact absurd hawaits (List.cons_ne_nil p _)
    | cons m rest =>
      have hdecode := hjson m (by rw [hsent]; exact List.mem_append_right _ List.mem_cons_self)
      have hfront : p :: (loaded ++ s.packets) =
          m.packets encode ++ rest.flatMap (Message.packets encode) := hawaits
      have hpending : ∀ data, Awaits encode (some data) (m :: rest) (loaded ++ s.packets) →
          Inv encode { packetRead s socket with header := some data } := by
        intro data hbody
        refine ⟨⟨fun _ => ⟨m :: rest, loaded, hsent, hbody, hlen, hin⟩, hinv.received,
          fun h => absurd h (Option.some_ne_none data), fun hacking => ?_, fun hfailed => ?_,
          hinv.counted, hinv.receivedCount, hinv.acked, hinv.ledger⟩, hinv.idle, hinv.writing⟩
        · exact absurd (hrunning.symm.trans hacking) Consumer.noConfusion
        · exact hinv.failed hfailed
      cases m with
      | displaysChanged displays =>
        obtain ⟨rfl, hmore⟩ := List.cons.inj hfront
        have haccept : (packetRead s socket).accept decode
            ⟨encode (.drmDisplaysChanged displays), none⟩ =
              (packetRead s socket).deliver (.displaysChanged displays) := by
          simp only [Message.data] at hdecode
          simp [Stream.accept, packetRead, hheader, hdecode]
        rw [haccept]
        exact inv_deliver encode s socket _ rest loaded hinv hrunning hsent hmore hlen hin
      | dmabuf desc fd =>
        obtain ⟨rfl, hmore⟩ := List.cons.inj hfront
        have haccept : (packetRead s socket).accept decode ⟨encode (.drmFrameDmabuf desc), fd⟩ =
            (packetRead s socket).deliver (.dmabuf desc fd) := by
          simp only [Message.data] at hdecode
          simp [Stream.accept, packetRead, hheader, hdecode]
        rw [haccept]
        exact inv_deliver encode s socket _ rest loaded hinv hrunning hsent hmore hlen hin
      | frame header data =>
        obtain ⟨rfl, hmore⟩ := List.cons.inj hfront
        have haccept : (packetRead s socket).accept decode ⟨encode (.drmFrame header), none⟩ =
            { packetRead s socket with header := some (.drmFrame header) } := by
          simp only [Message.data] at hdecode
          simp [Stream.accept, packetRead, hheader, hdecode]
        rw [haccept]
        exact hpending _ ⟨data, rest, rfl, hmore⟩
      | cursor header colors =>
        obtain ⟨rfl, hmore⟩ := List.cons.inj hfront
        have haccept : (packetRead s socket).accept decode ⟨encode (.drmCursor header), none⟩ =
            { packetRead s socket with header := some (.drmCursor header) } := by
          simp only [Message.data] at hdecode
          simp [Stream.accept, packetRead, hheader, hdecode]
        rw [haccept]
        exact hpending _ ⟨colors, rest, rfl, hmore⟩

/-- A message of which the first packet is too long, or the second once the first has come. -/
theorem oversized_of_awaits (ahead : List (Message P D F))
    (ps : List (Packet UInt8 F)) (hsent : s.sent = s.received ++ ahead)
    (hawaits : Awaits encode s.header ahead (p :: ps))
    (hlong : (if s.header.isSome then maxDrmRawBytes else maxDrmJsonBytes) < p.payload.length) :
    ∃ m ∈ s.sent, Oversized encode m := by
  rw [hsent]
  cases hheader : s.header with
  | some data =>
    rw [hheader] at hawaits hlong
    cases data with
    | drmFrame header =>
      obtain ⟨body, rest, rfl, hpackets⟩ := hawaits
      obtain ⟨rfl, -⟩ := List.cons.inj hpackets
      exact ⟨_, List.mem_append_right _ List.mem_cons_self, Or.inr hlong⟩
    | drmCursor header =>
      obtain ⟨colors, rest, rfl, hpackets⟩ := hawaits
      obtain ⟨rfl, -⟩ := List.cons.inj hpackets
      exact ⟨_, List.mem_append_right _ List.mem_cons_self, Or.inr hlong⟩
    | drmDisplaysChanged displays => exact hawaits.elim
    | drmFrameDmabuf desc => exact hawaits.elim
  | none =>
    rw [hheader] at hawaits hlong
    cases ahead with
    | nil => exact absurd hawaits (List.cons_ne_nil p ps)
    | cons m rest =>
      refine ⟨m, List.mem_append_right _ List.mem_cons_self, ?_⟩
      have hfront : p :: ps = m.packets encode ++ rest.flatMap (Message.packets encode) := hawaits
      cases m with
      | displaysChanged displays =>
        obtain ⟨rfl, -⟩ := List.cons.inj hfront
        exact hlong
      | dmabuf desc fd =>
        obtain ⟨rfl, -⟩ := List.cons.inj hfront
        exact hlong
      | frame header data =>
        obtain ⟨rfl, -⟩ := List.cons.inj hfront
        exact Or.inl hlong
      | cursor header colors =>
        obtain ⟨rfl, -⟩ := List.cons.inj hfront
        exact Or.inl hlong

/-- The consumer reads any number of bytes. -/
theorem inv_read (hinv : Inv encode s) (hjson : ∀ m ∈ s.sent, decode (encode m.data) = some m.data)
    (hrunning : s.consumer = .running) (hsocket : s.socket ≠ []) (hn : 0 < n) :
    Inv encode (s.read decode n) := by
  obtain ⟨ahead, loaded, hsent, hawaits, hlen, hin⟩ := hinv.flow (Or.inl hrunning)
  have hpos := needed_pos_of_inFlight u32Prefix s.reader loaded _ hin
    (fun h => hsocket (List.append_eq_nil_iff.mp h).1)
  have hsplit : s.socket ++ s.pending = s.socket.take (min n (needed u32Prefix s.reader)) ++
      (s.socket.drop (min n (needed u32Prefix s.reader)) ++ s.pending) := by
    rw [← List.append_assoc, List.take_append_drop]
  rw [hsplit] at hin
  have hsome : s.socket.take (min n (needed u32Prefix s.reader)) ≠ [] := by
    intro h
    rcases List.take_eq_nil_iff.mp h with hzero | hnil
    · omega
    · exact hsocket hnil
  have hneed : (s.socket.take (min n (needed u32Prefix s.reader))).length ≤
      needed u32Prefix s.reader := by
    rw [List.length_take]
    omega
  obtain ⟨p, ps, rfl, hdelivers⟩ := feed_inFlight u32Prefix
    (if s.header.isSome then maxDrmRawBytes else maxDrmJsonBytes) s.reader loaded _ _ hin hlen
    hsome hneed
  unfold Stream.read
  simp only
  cases hfeed : feed u32Prefix (if s.header.isSome then maxDrmRawBytes else maxDrmJsonBytes)
      s.reader (s.socket.take (min n (needed u32Prefix s.reader))) with
  | more r =>
    rw [hfeed] at hdelivers
    refine ⟨⟨fun _ => ⟨ahead, p :: ps, hsent, hawaits, hlen, hdelivers⟩, hinv.received,
      fun _ h => absurd h.symm Bool.false_ne_true, fun hacking => ?_, hinv.failed, hinv.counted,
      hinv.receivedCount, hinv.acked, hinv.ledger⟩, hinv.idle, hinv.writing⟩
    exact absurd (hrunning.symm.trans hacking) Consumer.noConfusion
  | tooLong =>
    rw [hfeed] at hdelivers
    refine ⟨⟨fun hopen => ?_, hinv.received, fun _ h => absurd h.symm Bool.false_ne_true,
      Consumer.noConfusion, fun _ => ?_, hinv.counted,
      hinv.receivedCount, acked_le s.acked s.received s.consumer hinv.acked, hinv.ledger⟩,
      hinv.idle, hinv.writing⟩
    · rcases hopen with h | h <;> cases h
    · exact oversized_of_awaits encode s p ahead (ps ++ s.packets) hsent hawaits hdelivers
  | packet q =>
    rw [hfeed] at hdelivers
    obtain ⟨rfl, hrest⟩ := hdelivers
    exact inv_accept encode decode s _ q ahead ps hinv hjson hrunning hsent hawaits
      (fun x hx => hlen x (List.mem_cons_of_mem q hx)) hrest

theorem inv_step (peerUid : Option ℕ) (s s' : Stream P D F) (e : Event P D F) (hinv : Inv encode s)
    (hjson : ∀ m ∈ s.sent, decode (encode m.data) = some m.data)
    (hstep : step encode decode peerUid s e = some s') : Inv encode s' := by
  have hcounted : s.task.sendsFrame = false → s.task.ended = false →
      frameCount s.sent = s.framesSent := counted_of_not hinv.counted
  cases e with
  | tick frame cursor =>
    obtain ⟨-, rfl⟩ := of_guard hstep
    exact ⟨⟨hinv.flow, hinv.received, hinv.fresh, hinv.acking, hinv.failed, hinv.counted,
      hinv.receivedCount, hinv.acked, hinv.ledger⟩, hinv.idle, hinv.writing⟩
  | push =>
    simp only [step] at hstep
    split at hstep
    · obtain ⟨-, rfl⟩ := of_guard hstep
      exact ⟨⟨hinv.flow, hinv.received, hinv.fresh, hinv.acking, hinv.failed, hinv.counted,
        hinv.receivedCount, hinv.acked, hinv.ledger⟩, hinv.idle, hinv.writing⟩
    · cases hstep
  | readAcks n =>
    obtain ⟨⟨-, -, hn⟩, heq⟩ := Option.ite_none_right_eq_some.mp hstep
    obtain ⟨left, hleft, rfl⟩ := Option.map_eq_some_iff.mp heq
    exact inv_readAcks encode s n left hinv hn hleft
  | noAcks =>
    obtain ⟨-, heq⟩ := Option.ite_none_right_eq_some.mp hstep
    obtain ⟨left, hleft, rfl⟩ := Option.map_eq_some_iff.mp heq
    exact inv_drained encode s left hinv hleft
  | take =>
    simp only [step] at hstep
    split at hstep
    · rename_i m rest htask hqueue
      obtain rfl := Option.some.inj hstep
      have hnext := inv_task encode s (.checking (some m)) hinv (by rw [htask]; rfl)
        (by rw [htask]; rfl) (hcounted (by rw [htask]; rfl) (by rw [htask]; rfl)) rfl
      exact ⟨⟨hnext.flow, hnext.received, hnext.fresh, hnext.acking, hnext.failed, hnext.counted,
        hnext.receivedCount, hnext.acked, hnext.ledger⟩, hnext.idle, hnext.writing⟩
    · cases hstep
  | woken =>
    simp only [step] at hstep
    split at hstep
    · rename_i htask
      obtain ⟨-, rfl⟩ := of_guard hstep
      exact inv_task encode s _ hinv (by rw [htask]; rfl) (by rw [htask]; rfl)
        (hcounted (by rw [htask]; rfl) (by rw [htask]; rfl)) rfl
    · cases hstep
  | authorize activeUid =>
    simp only [step] at hstep
    split at hstep
    · rename_i first htask
      obtain rfl := Option.some.inj hstep
      have hcount := hcounted (by rw [htask]; rfl) (by rw [htask]; rfl)
      split
      · exact inv_task encode s (.announcing first) hinv (by rw [htask]; rfl) (by rw [htask]; rfl)
          hcount rfl
      · exact inv_task encode s (.refused first) hinv (by rw [htask]; rfl) (by rw [htask]; rfl)
          hcount rfl
    · cases hstep
  | announce changed =>
    simp only [step] at hstep
    split at hstep
    · rename_i first htask
      obtain rfl := Option.some.inj hstep
      cases changed with
      | none =>
        exact inv_first encode s first hinv (by rw [htask]; rfl) (by rw [htask]; rfl)
          (hcounted (by rw [htask]; rfl) (by rw [htask]; rfl))
      | some displays =>
        exact inv_send encode s (.displaysChanged displays) (.sendingChanged first) hinv
          (by rw [htask]; rfl) (by rw [htask]; rfl) rfl rfl
    · cases hstep
  | handle =>
    simp only [step] at hstep
    split at hstep
    · rename_i msg htask
      obtain rfl := Option.some.inj hstep
      exact inv_handle encode s msg hinv (by rw [htask]; rfl) (by rw [htask]; rfl)
        (hcounted (by rw [htask]; rfl) (by rw [htask]; rfl))
    · cases hstep
  | receive =>
    simp only [step] at hstep
    split at hstep
    · rename_i m rest htask hqueue
      obtain rfl := Option.some.inj hstep
      have hnext := inv_task encode s (.handling m) hinv (by rw [htask]; rfl) (by rw [htask]; rfl)
        (hcounted (by rw [htask]; rfl) (by rw [htask]; rfl)) rfl
      exact ⟨⟨hnext.flow, hnext.received, hnext.fresh, hnext.acking, hnext.failed, hnext.counted,
        hnext.receivedCount, hnext.acked, hnext.ledger⟩, hnext.idle, hnext.writing⟩
    · rename_i htask hqueue
      obtain rfl := Option.some.inj hstep
      exact inv_task encode s _ hinv (by rw [htask]; rfl) (by rw [htask]; rfl)
        (hcounted (by rw [htask]; rfl) (by rw [htask]; rfl)) rfl
    · cases hstep
  | write n =>
    obtain ⟨⟨hsending, -⟩, heq⟩ := Option.ite_none_right_eq_some.mp hstep
    exact Option.some.inj heq ▸ inv_write encode s n hinv hsending
  | fail =>
    obtain ⟨-, heq⟩ := Option.ite_none_left_eq_some.mp hstep
    exact Option.some.inj heq ▸ inv_close encode s s.task.hand hinv.toDelivered
  | read n =>
    obtain ⟨⟨hrunning, hsocket, hn⟩, heq⟩ := Option.ite_none_right_eq_some.mp hstep
    exact Option.some.inj heq ▸ inv_read encode decode s n hinv hjson hrunning hsocket hn
  | ack =>
    obtain ⟨hacking, rfl⟩ := of_guard hstep
    have hacked := hinv.acked
    rw [hacking] at hacked
    refine ⟨⟨fun _ => hinv.flow (Or.inr hacking), hinv.received, hinv.fresh, Consumer.noConfusion,
      Consumer.noConfusion, hinv.counted, hinv.receivedCount, hacked, ?_⟩, hinv.idle,
      hinv.writing⟩
    have hledger := hinv.ledger
    change s.credit + ((s.framesSent : ℤ) - ((s.acked + 1 : ℕ) : ℤ)) + ((s.acks + 1 : ℕ) : ℤ) =
      drmFrameCredit
    push_cast
    omega
  | timeout =>
    obtain ⟨hrunning, rfl⟩ := of_guard hstep
    have hacked := acked_le s.acked s.received s.consumer hinv.acked
    split
    · refine ⟨⟨fun hopen => ?_, hinv.received, hinv.fresh, Consumer.noConfusion,
        Consumer.noConfusion, hinv.counted, hinv.receivedCount, hacked, hinv.ledger⟩, hinv.idle,
        hinv.writing⟩
      rcases hopen with h | h <;> cases h
    · rename_i hnothing
      have hheader : s.header = none :=
        Option.not_isSome_iff_eq_none.mp fun h => hnothing (Or.inl h)
      have hconsumed : s.consumed = false :=
        Bool.eq_false_iff.mpr fun h => hnothing (Or.inr h)
      have hsame : { s with reader := fresh } = s := by
        rw [← hinv.fresh hheader hconsumed]
      rw [hsame]
      exact hinv
  | stop =>
    obtain rfl := Option.some.inj hstep
    have hacked := acked_le s.acked s.received s.consumer hinv.acked
    refine ⟨⟨fun hopen => ?_, hinv.received, hinv.fresh, Consumer.noConfusion,
      Consumer.noConfusion, hinv.counted, hinv.receivedCount, hacked, hinv.ledger⟩, hinv.idle,
      hinv.writing⟩
    rcases hopen with h | h <;> cases h

/-! ### What has been sent stays sent -/

theorem sent_load : s.load.sent = s.sent := by
  unfold Stream.load
  split
  · rfl
  · split <;> rfl

theorem sent_send : s.sent <+: (s.send encode m task).sent := by
  unfold Stream.send
  rw [sent_load]
  exact List.prefix_append s.sent [m]

theorem sent_finish : s.finish.sent = s.sent := by
  unfold Stream.finish
  split <;> rfl

theorem sent_write : (s.write n).sent = s.sent := by
  unfold Stream.write
  simp only
  split
  · rfl
  · split
    · rw [sent_finish]
    · rw [sent_load]

theorem sent_drained : s.sent <+: (s.drained encode).sent := by
  unfold Stream.drained
  split
  · exact List.prefix_refl s.sent
  · unfold Stream.ship
    split
    · exact List.prefix_refl s.sent
    · split
      · exact sent_send encode { s with heldFrame := none } _ _
      · exact List.prefix_refl s.sent
  · exact List.prefix_refl s.sent

theorem sent_readAcks : s.sent <+: (s.readAcks encode n left).sent := by
  unfold Stream.readAcks
  simp only
  split
  · exact sent_drained encode { s with
      credit := min (s.credit + n) drmFrameCredit, acks := s.acks - n }
  · split <;> exact List.prefix_refl s.sent

theorem sent_handle (msg : DrmProducerMsg P D F) : s.sent <+: (s.handle encode msg).sent := by
  unfold Stream.handle
  split
  · exact sent_send encode s _ _
  · exact List.prefix_refl s.sent
  · exact List.prefix_refl s.sent

theorem sent_read : (s.read decode n).sent = s.sent := by
  unfold Stream.read
  simp only
  split
  · rfl
  · rfl
  · unfold Stream.accept
    split
    · rfl
    · rfl
    · split <;> rfl

theorem sent_step (peerUid : Option ℕ) (s s' : Stream P D F) (e : Event P D F)
    (hstep : step encode decode peerUid s e = some s') : s.sent <+: s'.sent := by
  have hsame : ∀ t : Stream P D F, some t = some s' → t.sent = s.sent → s.sent <+: s'.sent := by
    intro t heq hsent
    exact ⟨[], by rw [List.append_nil, ← Option.some.inj heq, hsent]⟩
  cases e with
  | tick frame cursor => exact hsame _ (Option.ite_none_right_eq_some.mp hstep).2 rfl
  | push =>
    simp only [step] at hstep
    split at hstep
    · exact hsame _ (Option.ite_none_right_eq_some.mp hstep).2 rfl
    · cases hstep
  | readAcks n =>
    obtain ⟨-, heq⟩ := Option.ite_none_right_eq_some.mp hstep
    obtain ⟨left, -, rfl⟩ := Option.map_eq_some_iff.mp heq
    exact sent_readAcks encode s n left
  | noAcks =>
    obtain ⟨-, heq⟩ := Option.ite_none_right_eq_some.mp hstep
    obtain ⟨left, -, rfl⟩ := Option.map_eq_some_iff.mp heq
    exact sent_drained encode s
  | take =>
    simp only [step] at hstep
    split at hstep
    · exact hsame _ hstep rfl
    · cases hstep
  | woken =>
    simp only [step] at hstep
    split at hstep
    · exact hsame _ (Option.ite_none_right_eq_some.mp hstep).2 rfl
    · cases hstep
  | authorize activeUid =>
    simp only [step] at hstep
    split at hstep
    · exact hsame _ hstep rfl
    · cases hstep
  | announce changed =>
    simp only [step] at hstep
    split at hstep
    · cases changed with
      | none => exact hsame _ hstep rfl
      | some displays => exact Option.some.inj hstep ▸ sent_send encode s _ _
    · cases hstep
  | handle =>
    simp only [step] at hstep
    split at hstep
    · exact Option.some.inj hstep ▸ sent_handle encode s _
    · cases hstep
  | receive =>
    simp only [step] at hstep
    split at hstep
    · exact hsame _ hstep rfl
    · exact hsame _ hstep rfl
    · cases hstep
  | write n => exact hsame _ (Option.ite_none_right_eq_some.mp hstep).2 (sent_write s n)
  | fail => exact hsame _ (Option.ite_none_left_eq_some.mp hstep).2 rfl
  | read n => exact hsame _ (Option.ite_none_right_eq_some.mp hstep).2 (sent_read decode s n)
  | ack => exact hsame _ (Option.ite_none_right_eq_some.mp hstep).2 rfl
  | timeout =>
    refine hsame _ (Option.ite_none_right_eq_some.mp hstep).2 ?_
    split <;> rfl
  | stop => exact hsame _ hstep rfl

/-! ### The stream -/

structure Faithful (s : Stream P D F) : Prop where
  /-- What is received is what was sent, in order and in full. -/
  received : s.received <+: s.sent
  /-- All of it, when nothing is under way and the consumer goes on. -/
  all : s.consumer = .running ∨ s.consumer = .acking → s.socket = [] → s.pending = [] →
    s.packets = [] → s.received = s.sent
  /-- The consumer fails only on a message that is too long. -/
  failed : s.consumer = .failed → ∃ m ∈ s.sent, Oversized encode m
  /-- The credit, the frames sent in full and not acked, and the acks that are not read. -/
  ledger : s.credit + ((s.framesSent : ℤ) - s.acked) + s.acks = drmFrameCredit
  acked : s.acked ≤ s.framesSent
  /-- All frames were sent in full, but for one under way. -/
  counted : CountedAt s.sent s.framesSent (Left s) s.task
  /-- Frames are sent in the order in which they were grabbed, each at most once. -/
  order : (s.sent.filter Message.isFrame).Sublist (s.grabbed.filterMap frameOf)
  /-- A frame that is sent is the newest dequeued. -/
  newest : s.task.sendsFrame = true → ∃ m, s.sent.getLast? = some m ∧
    (s.dequeued.filterMap frameOf).getLast? = some m
  /-- Every cursor shape dequeued is sent once and in order, one in the hand of the task apart. -/
  cursors : s.dequeued.filterMap cursorOf =
    s.sent.filter Message.isCursor ++ s.task.hand.toList.filterMap cursorOf
  /-- Nothing is sent in an iteration in which the consumer is not authorised. -/
  refused : (∃ first, s.task = .refused first) → s.iteration = []

theorem faithful_of_inv (hinv : Inv encode s) (hordered : Ordered s) : Faithful encode s := by
  obtain ⟨taken, hdequeued, hcursors, hframes⟩ := hordered.taken
  refine ⟨hinv.received, fun hopen hsocket hpending hpackets => ?_, hinv.failed, hinv.ledger,
    (acked_le s.acked s.received s.consumer hinv.acked).trans hinv.receivedCount, hinv.counted, ?_,
    hordered.newest, ?_, ?_⟩
  · obtain ⟨ahead, loaded, hsent, hawaits, -, hin⟩ := hinv.flow hopen
    rw [hsocket, hpending] at hin
    have hloaded := inFlight_nil u32Prefix s.reader loaded hin
    rw [hloaded, hpackets] at hawaits
    have hahead : ahead = [] := by
      cases hheader : s.header with
      | none =>
        rw [hheader] at hawaits
        cases ahead with
        | nil => rfl
        | cons m rest =>
          have hnil : ([] : List (Packet UInt8 F)) =
              m.packets encode ++ rest.flatMap (Message.packets encode) := hawaits
          cases m <;> cases hnil
      | some data =>
        rw [hheader] at hawaits
        cases data with
        | drmFrame header => obtain ⟨body, rest, -, hnil⟩ := hawaits; cases hnil
        | drmCursor header => obtain ⟨colors, rest, -, hnil⟩ := hawaits; cases hnil
        | drmDisplaysChanged displays => exact hawaits.elim
        | drmFrameDmabuf desc => exact hawaits.elim
    rw [hsent, hahead, List.append_nil]
  · have hsub : (taken.filterMap frameOf).Sublist (s.grabbed.filterMap frameOf) := by
      rw [hordered.grabbed, hdequeued]
      simp only [List.filterMap_append, List.append_assoc]
      exact List.sublist_append_left _ _
    exact hframes.sublist.trans hsub
  · rw [hdequeued, List.filterMap_append, hcursors]
  · rintro ⟨first, htask⟩
    exact hordered.iteration (by rw [htask]; rfl)

/-- In every run of the worker, the task and a consumer that acks every frame once, however the
bytes come, the stream is faithful, given that JSON that is sent is read back. -/
theorem stream_faithful (peerUid : Option ℕ) (es : List (Event P D F)) (s : Stream P D F)
    (hexec : Runs.exec (step encode decode peerUid) start es = some s)
    (hjson : ∀ m ∈ s.sent, decode (encode m.data) = some m.data) : Faithful encode s := by
  have hall := Runs.invariant_of_exec (step encode decode peerUid)
    (fun t => Ordered t ∧ ((∀ m ∈ t.sent, decode (encode m.data) = some m.data) → Inv encode t))
    ?_ start s es ⟨ordered_start, fun _ => inv_start encode⟩ hexec
  · exact faithful_of_inv encode s (hall.2 hjson) hall.1
  · rintro t e u ⟨hordered, hinv⟩ hstep
    refine ⟨ordered_step encode decode peerUid t u e hordered hstep, fun hu => ?_⟩
    have ht : ∀ m ∈ t.sent, decode (encode m.data) = some m.data := fun m hm =>
      hu m ((sent_step encode decode peerUid t u e hstep).subset hm)
    exact inv_step encode decode peerUid t u e (hinv ht) ht hstep

/-! ### A cursor shape and a frame -/

def cursorHeader : CursorHeader := ⟨7, 1, 1, 0, 0, true⟩

def frameHeader : FrameHeader := ⟨1, 1, none, none⟩

def ascii (text : String) : Bytes := text.toList.map fun c => UInt8.ofNat c.toNat

def json (data : Data ℕ ℕ) : Bytes :=
  if data = .drmCursor cursorHeader then
    ascii "\x7b\"t\":\"DrmCursor\",\"c\":\x7b\"id\":7,\"width\":1,\"height\":1," ++
      ascii "\"hotx\":0,\"hoty\":0,\"hot_measured\":true\x7d\x7d"
  else if data = .drmFrame frameHeader then
    ascii "\x7b\"t\":\"DrmFrame\",\"c\":\x7b\"width\":1,\"height\":1," ++
      ascii "\"plane_rotation\":null,\"cursor_pos\":null\x7d\x7d"
  else []

def readJson (bytes : Bytes) : Option (Data ℕ ℕ) :=
  if bytes = json (.drmCursor cursorHeader) then some (.drmCursor cursorHeader)
  else if bytes = json (.drmFrame frameHeader) then some (.drmFrame frameHeader)
  else none

/-- A frame and a cursor shape are grabbed in one tick. The shape is sent first, and both come in
pieces. -/
def cursorAndFrame : List (Event ℕ ℕ ℕ) :=
  [.tick (some (.frameCpu frameHeader [1, 2, 3, 4])) (some (.cursor cursorHeader [5, 6, 7, 8])),
    .push, .push, .noAcks, .take, .authorize (some 1000), .announce none, .handle, .receive,
    .handle, .write 3, .read 2, .write 200, .write 2, .write 200, .receive, .noAcks, .write 50,
      .write 200,
    .write 200] ++
    List.replicate 8 (.read 100) ++ [.ack, .readAcks 1]

theorem stream_faithful_sample :
    ∃ s, Runs.exec (step json readJson (some 1000)) start cursorAndFrame = some s ∧
      s.received = [.cursor cursorHeader [5, 6, 7, 8], .frame frameHeader [1, 2, 3, 4]] ∧
      s.credit = 2 ∧ s.framesSent = 1 ∧ Faithful json s := by
  refine ⟨_, rfl, by decide, by decide, by decide, ?_⟩
  exact stream_faithful json readJson (some 1000) cursorAndFrame _ rfl (by decide)

end ClantoDesk.DrmStream
