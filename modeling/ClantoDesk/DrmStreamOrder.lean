import ClantoDesk.DrmStream

/-!
What the forwarding task makes of what the worker hands over. The frames that are sent are some of
those grabbed, in the same order, each the newest that was dequeued. The cursor shapes that are sent
are those dequeued. An iteration in which the consumer is not authorised sends nothing.
-/
namespace ClantoDesk.DrmStream

open PacketStream

variable {P D F : Type}

variable (s : Stream P D F) (encode : Data P D → LittleEndian.Bytes)
  (decode : LittleEndian.Bytes → Option (Data P D))

theorem isFrame_of_frameOf (f : DrmProducerMsg P D F) (m : Message P D F)
    (hframe : frameOf f = some m) : m.isFrame = true ∧ m.isCursor = false := by
  cases f with
  | frame desc fd => exact Option.some.inj hframe ▸ ⟨rfl, rfl⟩
  | frameCpu header data => exact Option.some.inj hframe ▸ ⟨rfl, rfl⟩
  | displays displays => cases hframe
  | cursor header colors => cases hframe

def Kept : Option (DrmProducerMsg P D F) → List (Message P D F) → List (Message P D F) → Prop
  | none, shipped, frames => shipped.Sublist frames
  | some f, shipped, frames =>
    ∃ m before, frameOf f = some m ∧ frames = before ++ [m] ∧ shipped.Sublist before

theorem Kept.sublist {held : Option (DrmProducerMsg P D F)} {shipped frames : List (Message P D F)}
    (hkept : Kept held shipped frames) : shipped.Sublist frames := by
  cases held with
  | none => exact hkept
  | some f =>
    obtain ⟨m, before, -, rfl, hsub⟩ := hkept
    exact hsub.trans (List.sublist_append_left before [m])

/-- What has been taken from the worker and is not in hand: every cursor shape is sent, and frames
are kept or sent. -/
structure Taken (held : Option (DrmProducerMsg P D F)) (sent : List (Message P D F))
    (taken : List (DrmProducerMsg P D F)) : Prop where
  cursors : taken.filterMap cursorOf = sent.filter Message.isCursor
  frames : Kept held (sent.filter Message.isFrame) (taken.filterMap frameOf)

variable {held : Option (DrmProducerMsg P D F)} {sent : List (Message P D F)}
  {taken : List (DrmProducerMsg P D F)} {msg : DrmProducerMsg P D F} {m : Message P D F}

theorem Taken.cursor (htaken : Taken held sent taken) (hcursor : cursorOf msg = some m)
    (hframe : frameOf msg = none) (hm : m.isCursor = true) (hnot : m.isFrame = false) :
    Taken held (sent ++ [m]) (taken ++ [msg]) := by
  refine ⟨?_, ?_⟩
  · simp [htaken.cursors, hcursor, hm]
  · simpa [hframe, hnot] using htaken.frames

theorem Taken.frame (htaken : Taken held sent taken) (hcursor : cursorOf msg = none)
    (hframe : frameOf msg = some m) : Taken (some msg) sent (taken ++ [msg]) := by
  refine ⟨?_, m, taken.filterMap frameOf, hframe, ?_, htaken.frames.sublist⟩
  · simp [htaken.cursors, hcursor]
  · simp [hframe]

theorem Taken.dropped (htaken : Taken held sent taken) (hcursor : cursorOf msg = none)
    (hframe : frameOf msg = none) : Taken held sent (taken ++ [msg]) := by
  refine ⟨?_, ?_⟩
  · simp [htaken.cursors, hcursor]
  · simpa [hframe] using htaken.frames

theorem Taken.shipped (htaken : Taken (some msg) sent taken) (hframe : frameOf msg = some m) :
    Taken none (sent ++ [m]) taken ∧ (taken.filterMap frameOf).getLast? = some m := by
  obtain ⟨hisFrame, hisCursor⟩ := isFrame_of_frameOf msg m hframe
  obtain ⟨hcursors, m', before, hm', hbefore, hsub⟩ := htaken
  obtain rfl := Option.some.inj (hframe.symm.trans hm')
  refine ⟨⟨?_, ?_⟩, ?_⟩
  · simp [hcursors, hisCursor]
  · change (List.filter Message.isFrame (sent ++ [m])).Sublist (taken.filterMap frameOf)
    rw [List.filter_append, List.filter_cons_of_pos hisFrame, List.filter_nil, hbefore]
    exact hsub.append (List.Sublist.refl [m])
  · rw [hbefore, List.getLast?_append, List.getLast?_singleton, Option.some_or]

def quiet : Task P D F → Bool
  | .draining _ => true
  | .waiting => true
  | .checking _ => true
  | .announcing _ => true
  | .refused _ => true
  | _ => false

structure Ordered (s : Stream P D F) : Prop where
  grabbed : s.grabbed.filterMap frameOf = (s.dequeued ++ s.queue ++ s.outbox).filterMap frameOf
  taken : ∃ taken, s.dequeued = taken ++ s.task.hand.toList ∧ Taken s.heldFrame s.sent taken
  newest : s.task.sendsFrame = true → ∃ m, s.sent.getLast? = some m ∧
    (s.dequeued.filterMap frameOf).getLast? = some m
  iteration : quiet s.task = true → s.iteration = []

theorem ordered_start : Ordered (start : Stream P D F) := by
  exact ⟨rfl, ⟨[], rfl, rfl, List.Sublist.refl []⟩, fun h => absurd h Bool.false_ne_true,
    fun _ => rfl⟩

/-- The task goes on with the same in hand, past what is asked of a frame under way. -/
theorem ordered_task (task : Task P D F) (hs : Ordered s)
    (hhand : task.hand = s.task.hand) (hframe : task.sendsFrame = false)
    (hquiet : quiet task = true → quiet s.task = true) : Ordered { s with task := task } := by
  refine ⟨hs.grabbed, ?_, fun h => absurd (hframe.symm.trans h) Bool.false_ne_true,
    fun h => hs.iteration (hquiet h)⟩
  obtain ⟨taken, hdequeued, htaken⟩ := hs.taken
  refine ⟨taken, ?_, htaken⟩
  change s.dequeued = taken ++ task.hand.toList
  rw [hhand]
  exact hdequeued

theorem ordered_close (hs : Ordered s) : Ordered { s with task := .closed s.task.hand } :=
  ordered_task s (.closed s.task.hand) hs rfl rfl fun h => absurd h Bool.false_ne_true

theorem ordered_load (hs : Ordered s) : Ordered s.load := by
  unfold Stream.load
  split
  · exact hs
  · split
    · exact ⟨hs.grabbed, hs.taken, hs.newest, hs.iteration⟩
    · exact ordered_close s hs

theorem ordered_head (hs : Ordered s) (hhand : s.task.hand = none) : Ordered s.head := by
  obtain ⟨taken, hdequeued, htaken⟩ := hs.taken
  rw [hhand] at hdequeued
  exact ⟨hs.grabbed, ⟨taken, hdequeued, htaken⟩, fun h => absurd h Bool.false_ne_true, fun _ => rfl⟩

/-- What was taken first in the iteration comes next. -/
theorem ordered_first (first : Option (DrmProducerMsg P D F)) (hs : Ordered s)
    (hhand : s.task.hand = first) :
    Ordered { s with task := first.elim .receiving .handling } := by
  cases first with
  | none =>
    exact ordered_task s .receiving hs hhand.symm rfl fun h => absurd h Bool.false_ne_true
  | some msg =>
    exact ordered_task s (.handling msg) hs hhand.symm rfl fun h => absurd h Bool.false_ne_true

theorem ordered_finish (hs : Ordered s) : Ordered s.finish := by
  unfold Stream.finish
  split
  · rename_i first htask
    refine ordered_first s first hs ?_
    rw [htask]
    rfl
  · rename_i htask
    refine ordered_task s .receiving hs ?_ rfl fun h => absurd h Bool.false_ne_true
    rw [htask]
    rfl
  · rename_i htask
    refine ordered_head _ ⟨hs.grabbed, hs.taken, hs.newest, hs.iteration⟩ ?_
    change s.task.hand = none
    rw [htask]
    rfl
  · exact hs

theorem ordered_write (n : ℕ) (hs : Ordered s) : Ordered (s.write n) := by
  have hsame : Ordered { s with
      socket := s.socket ++ s.pending.take n, pending := s.pending.drop n } :=
    ⟨hs.grabbed, hs.taken, hs.newest, hs.iteration⟩
  unfold Stream.write
  simp only
  split
  · exact hsame
  · split
    · exact ordered_finish _ hsame
    · exact ordered_load _ hsame

theorem ordered_ship (hs : Ordered s) (hhand : s.task.hand = none) : Ordered (s.ship encode) := by
  unfold Stream.ship
  split
  · exact ordered_head s hs hhand
  · split
    · rename_i m hheld
      refine ordered_load _ ?_
      obtain ⟨f, hf, hframe⟩ := Option.bind_eq_some_iff.mp hheld
      obtain ⟨taken, hdequeued, htaken⟩ := hs.taken
      rw [hf] at htaken
      obtain ⟨hshipped, hlast⟩ := htaken.shipped hframe
      rw [hhand] at hdequeued
      have hall : s.dequeued = taken := hdequeued.trans (List.append_nil taken)
      refine ⟨hs.grabbed, ⟨taken, hdequeued, hshipped⟩, fun _ => ⟨m, List.getLast?_concat, ?_⟩,
        fun h => absurd h Bool.false_ne_true⟩
      change (s.dequeued.filterMap frameOf).getLast? = some m
      rw [hall]
      exact hlast
    · exact ordered_head s hs hhand

theorem ordered_drained (hs : Ordered s) : Ordered (s.drained encode) := by
  unfold Stream.drained
  split
  · rename_i left htask
    have hquiet : quiet s.task = true := by rw [htask]; rfl
    have hhand : s.task.hand = none := by rw [htask]; rfl
    obtain ⟨taken, hdequeued, htaken⟩ := hs.taken
    rw [hhand] at hdequeued
    exact ⟨hs.grabbed, ⟨taken, hdequeued, htaken⟩, fun h => absurd h Bool.false_ne_true,
      fun _ => hs.iteration hquiet⟩
  · rename_i left htask
    refine ordered_ship s encode hs ?_
    rw [htask]
    rfl
  · exact hs

theorem ordered_readAcks (n left : ℕ)
    (hdraining : s.draining = some left) (hs : Ordered s) : Ordered (s.readAcks encode n left) := by
  have hsame : Ordered { s with
      credit := min (s.credit + n) drmFrameCredit, acks := s.acks - n } :=
    ⟨hs.grabbed, hs.taken, hs.newest, hs.iteration⟩
  unfold Stream.readAcks
  simp only
  split
  · exact ordered_drained _ encode hsame
  · split
    · rename_i htask
      refine ordered_task _ _ hsame ?_ rfl fun _ => ?_
      · change none = s.task.hand
        rw [htask]
        rfl
      · change quiet s.task = true
        rw [htask]
        rfl
    · rename_i htask
      refine ordered_task _ _ hsame ?_ rfl fun h => absurd h Bool.false_ne_true
      change none = s.task.hand
      unfold Stream.draining at hdraining
      split at hdraining
      · rename_i left' hdrain
        exact absurd hdrain (htask left')
      · rename_i hsettle
        rw [hsettle]
        rfl
      · cases hdraining

/-- What the worker handed over is sent, held or dropped. -/
theorem ordered_handle
    (msg : DrmProducerMsg P D F) (htask : s.task = .handling msg) (hs : Ordered s) :
    Ordered (s.handle encode msg) := by
  obtain ⟨taken, hdequeued, htaken⟩ := hs.taken
  rw [htask] at hdequeued
  have hall : s.dequeued = (taken ++ [msg]) ++ [] := hdequeued.trans (List.append_nil _).symm
  cases msg with
  | cursor header colors =>
    refine ordered_load { s with
      task := .sendingCursor, sent := s.sent ++ [.cursor header colors],
      iteration := s.iteration ++ [.cursor header colors],
      packets := (Message.cursor header colors).packets encode } ?_
    exact ⟨hs.grabbed, ⟨_, hall, htaken.cursor rfl rfl rfl rfl⟩,
      fun h => absurd h Bool.false_ne_true, fun h => absurd h Bool.false_ne_true⟩
  | displays displays =>
    exact ⟨hs.grabbed, ⟨_, hall, htaken.dropped rfl rfl⟩,
      fun h => absurd h Bool.false_ne_true, fun h => absurd h Bool.false_ne_true⟩
  | frame desc fd =>
    exact ⟨hs.grabbed, ⟨_, hall, htaken.frame rfl rfl⟩,
      fun h => absurd h Bool.false_ne_true, fun h => absurd h Bool.false_ne_true⟩
  | frameCpu header data =>
    exact ⟨hs.grabbed, ⟨_, hall, htaken.frame rfl rfl⟩,
      fun h => absurd h Bool.false_ne_true, fun h => absurd h Bool.false_ne_true⟩

theorem ordered_take (task : Task P D F) (msg : DrmProducerMsg P D F)
    (rest : List (DrmProducerMsg P D F)) (hs : Ordered s) (hqueue : s.queue = msg :: rest)
    (hhand : s.task.hand = none) (htask : task.hand = some msg) (hframe : task.sendsFrame = false)
    (hquiet : quiet task = true → quiet s.task = true) :
    Ordered { s with task := task, queue := rest, dequeued := s.dequeued ++ [msg] } := by
  obtain ⟨taken, hdequeued, htaken⟩ := hs.taken
  rw [hhand] at hdequeued
  have hall : s.dequeued = taken := hdequeued.trans (List.append_nil taken)
  refine ⟨?_, ⟨taken, ?_, htaken⟩, fun h => absurd (hframe.symm.trans h) Bool.false_ne_true,
    fun h => hs.iteration (hquiet h)⟩
  · rw [hs.grabbed, hqueue]
    simp
  · change s.dequeued ++ [msg] = taken ++ task.hand.toList
    rw [htask, hall]
    rfl

theorem ordered_accept (p : Packet UInt8 F) (hs : Ordered s) : Ordered (s.accept decode p) := by
  unfold Stream.accept
  split
  · exact ⟨hs.grabbed, hs.taken, hs.newest, hs.iteration⟩
  · exact ⟨hs.grabbed, hs.taken, hs.newest, hs.iteration⟩
  · split <;> exact ⟨hs.grabbed, hs.taken, hs.newest, hs.iteration⟩

theorem ordered_read (n : ℕ) (hs : Ordered s) : Ordered (s.read decode n) := by
  unfold Stream.read
  simp only
  split
  · exact ⟨hs.grabbed, hs.taken, hs.newest, hs.iteration⟩
  · exact ⟨hs.grabbed, hs.taken, hs.newest, hs.iteration⟩
  · exact ordered_accept _ decode _ ⟨hs.grabbed, hs.taken, hs.newest, hs.iteration⟩

theorem ordered_step (peerUid : Option ℕ) (s s' : Stream P D F)
    (e : Event P D F) (hs : Ordered s) (hstep : step encode decode peerUid s e = some s') :
    Ordered s' := by
  cases e with
  | tick frame cursor =>
    obtain ⟨⟨hempty, -, hframe, hcursor⟩, rfl⟩ := of_guard hstep
    refine ⟨?_, hs.taken, hs.newest, hs.iteration⟩
    have hnone : s.outbox = [] := List.isEmpty_iff.mp hempty
    have hno : cursor.toList.filterMap frameOf = [] := by
      cases cursor with
      | none => rfl
      | some c =>
        have hc := hcursor c rfl
        cases c with
        | cursor header colors => rfl
        | _ => cases hc
    simp only [List.filterMap_append, hs.grabbed, hnone, hno, List.append_nil]
  | push =>
    simp only [step] at hstep
    split at hstep
    · rename_i m rest hout
      obtain ⟨-, rfl⟩ := of_guard hstep
      refine ⟨?_, hs.taken, hs.newest, hs.iteration⟩
      rw [hs.grabbed, hout]
      simp
    · cases hstep
  | readAcks n =>
    obtain ⟨-, heq⟩ := Option.ite_none_right_eq_some.mp hstep
    obtain ⟨left, hleft, rfl⟩ := Option.map_eq_some_iff.mp heq
    exact ordered_readAcks s encode n left hleft hs
  | noAcks =>
    obtain ⟨-, heq⟩ := Option.ite_none_right_eq_some.mp hstep
    obtain ⟨left, -, rfl⟩ := Option.map_eq_some_iff.mp heq
    exact ordered_drained s encode hs
  | take =>
    simp only [step] at hstep
    split at hstep
    · rename_i m rest htask hqueue
      obtain rfl := Option.some.inj hstep
      exact ordered_take s _ m rest hs hqueue (by rw [htask]; rfl) rfl rfl
        fun _ => by rw [htask]; rfl
    · cases hstep
  | woken =>
    simp only [step] at hstep
    split at hstep
    · rename_i htask
      obtain ⟨-, rfl⟩ := of_guard hstep
      exact ordered_task s _ hs (by rw [htask]; rfl) rfl fun _ => by rw [htask]; rfl
    · cases hstep
  | authorize activeUid =>
    simp only [step] at hstep
    split at hstep
    · rename_i first htask
      obtain rfl := Option.some.inj hstep
      have hquiet : quiet s.task = true := by rw [htask]; rfl
      have hhand : s.task.hand = first := by rw [htask]; rfl
      by_cases hauth : drmPeerAuthorized peerUid activeUid = true
      · rw [if_pos hauth]
        exact ordered_task s (.announcing first) hs hhand.symm rfl fun _ => hquiet
      · rw [if_neg hauth]
        exact ordered_task s (.refused first) hs hhand.symm rfl fun _ => hquiet
    · cases hstep
  | announce changed =>
    simp only [step] at hstep
    split at hstep
    · rename_i first htask
      have hhand : s.task.hand = first := by rw [htask]; rfl
      obtain rfl := Option.some.inj hstep
      cases changed with
      | none => exact ordered_first s first hs hhand
      | some displays =>
        obtain ⟨taken, hdequeued, hcursors, hframes⟩ := hs.taken
        rw [hhand] at hdequeued
        refine ordered_load { s with
          task := .sendingChanged first, sent := s.sent ++ [.displaysChanged displays],
          iteration := s.iteration ++ [.displaysChanged displays],
          packets := (Message.displaysChanged displays).packets encode } ?_
        refine ⟨hs.grabbed, ⟨taken, hdequeued, ?_, ?_⟩,
          fun h => absurd h Bool.false_ne_true, fun h => absurd h Bool.false_ne_true⟩
        · simp [hcursors, Message.isCursor]
        · simpa [Message.isFrame] using hframes
    · cases hstep
  | handle =>
    simp only [step] at hstep
    split at hstep
    · rename_i msg htask
      obtain rfl := Option.some.inj hstep
      exact ordered_handle s encode msg htask hs
    · cases hstep
  | receive =>
    simp only [step] at hstep
    split at hstep
    · rename_i m rest htask hqueue
      obtain rfl := Option.some.inj hstep
      exact ordered_take s _ m rest hs hqueue (by rw [htask]; rfl) rfl rfl
        fun h => absurd h Bool.false_ne_true
    · rename_i htask hqueue
      obtain rfl := Option.some.inj hstep
      exact ordered_task s _ hs (by rw [htask]; rfl) rfl fun h => absurd h Bool.false_ne_true
    · cases hstep
  | write n =>
    obtain ⟨-, heq⟩ := Option.ite_none_right_eq_some.mp hstep
    exact Option.some.inj heq ▸ ordered_write s n hs
  | fail =>
    obtain ⟨-, heq⟩ := Option.ite_none_left_eq_some.mp hstep
    exact Option.some.inj heq ▸ ordered_close s hs
  | read n =>
    obtain ⟨-, heq⟩ := Option.ite_none_right_eq_some.mp hstep
    exact Option.some.inj heq ▸ ordered_read s decode n hs
  | ack =>
    obtain ⟨-, rfl⟩ := of_guard hstep
    exact ⟨hs.grabbed, hs.taken, hs.newest, hs.iteration⟩
  | timeout =>
    obtain ⟨-, rfl⟩ := of_guard hstep
    split <;> exact ⟨hs.grabbed, hs.taken, hs.newest, hs.iteration⟩
  | stop =>
    obtain rfl := Option.some.inj hstep
    exact ⟨hs.grabbed, hs.taken, hs.newest, hs.iteration⟩

end ClantoDesk.DrmStream
