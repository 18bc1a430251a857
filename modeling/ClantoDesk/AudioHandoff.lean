import ClantoDesk.Runs
import Mathlib.Algebra.Order.Ring.Int

/-!
The audio that the capture callback hands to the encoder thread,
src/server/audio_service/audio_capture_queue.rs: a fixed number of buffers that are available, hold
a packet that is ready, or are in the hands of the worker. The callback never waits; a packet is
lost when it is too long, when the lock is taken, or when its buffer is needed for a later one. The
critical sections and the exchanges of `take_loss` are the steps of a run, in any order. A run
keeps account of what was submitted, popped and lost.
-/
namespace ClantoDesk.AudioHandoff

-- the type of a sample, and the number of values of a `usize`
variable {S : Type} (usize : ℕ)

structure CapturePcmLoss where
  dropped : ℕ
  contentionDropped : ℕ
  oversized : ℕ
  recycleFailures : ℕ
  deriving DecidableEq

abbrev Packet (S : Type) := ℕ × List S

structure CapturePcmBuffers (S : Type) where
  available : List (List S)
  availableCapacity : ℕ
  ready : List (Packet S)
  deriving DecidableEq

/-- A counter, and for the account how often it was added to. -/
structure AtomicUsize where
  value : ℕ
  added : ℕ
  deriving DecidableEq

namespace AtomicUsize

def new : AtomicUsize := ⟨0, 0⟩

/-- `fetch_add` of one. -/
def fetchAdd (c : AtomicUsize) : AtomicUsize := ⟨(c.value + 1) % usize, c.added + 1⟩

/-- The counter after `swap` with zero. -/
def swap (c : AtomicUsize) : AtomicUsize := ⟨0, c.added⟩

end AtomicUsize

structure CapturePcmHandoff (S : Type) where
  buffers : CapturePcmBuffers S
  otherDropped : AtomicUsize
  contentionDropped : AtomicUsize
  oversized : AtomicUsize
  recycleFailures : AtomicUsize
  maxQueuedPackets : ℕ
  maxSamples : ℕ
  deriving DecidableEq

namespace CapturePcmHandoff

/-- The vector of available buffers may get more room than was asked for. -/
def newPcmHandoff (capacity maxSamples spare : ℕ) : Option (CapturePcmHandoff S) :=
  if capacity = 0 ∨ maxSamples = 0 then none
  else some
    { buffers := ⟨List.replicate capacity [], capacity + spare, []⟩
      otherDropped := .new, contentionDropped := .new, oversized := .new
      recycleFailures := .new, maxQueuedPackets := 0, maxSamples := maxSamples }

def takeBuffer (h : CapturePcmHandoff S) : Option (List S) × CapturePcmHandoff S :=
  match h.buffers.available.getLast? with
  | some buffer =>
    (some buffer,
      { h with buffers := { h.buffers with available := h.buffers.available.dropLast } })
  | none =>
    match h.buffers.ready with
    | (_, buffer) :: ready =>
      (some buffer,
        { h with
          buffers := { h.buffers with ready := ready }
          otherDropped := h.otherDropped.fetchAdd usize })
    | [] => (none, h)

/-- What `try_lock` returns. -/
inductive TryLock where
  | acquired
  | wouldBlock
  | poisoned

def submit (tryLock : TryLock) (sequence : ℕ) (input : List S) (h : CapturePcmHandoff S) :
    CapturePcmHandoff S :=
  if h.maxSamples < input.length then { h with oversized := h.oversized.fetchAdd usize }
  else
    match tryLock with
    | .wouldBlock => { h with contentionDropped := h.contentionDropped.fetchAdd usize }
    | .poisoned => { h with otherDropped := h.otherDropped.fetchAdd usize }
    | .acquired =>
      match h.takeBuffer usize with
      | (some _, h) =>
        -- the buffer is cleared and filled with the input
        let ready := h.buffers.ready ++ [(sequence, input)]
        { h with
          buffers := { h.buffers with ready := ready }
          maxQueuedPackets := max h.maxQueuedPackets ready.length }
      | (none, h) => { h with otherDropped := h.otherDropped.fetchAdd usize }

def popPacket (h : CapturePcmHandoff S) : Option (Packet S) × CapturePcmHandoff S :=
  match h.buffers.ready with
  | [] => (none, h)
  | packet :: ready => (some packet, { h with buffers := { h.buffers with ready := ready } })

def recycle (h : CapturePcmHandoff S) : CapturePcmHandoff S :=
  if h.buffers.available.length = h.buffers.availableCapacity then
    { h with recycleFailures := h.recycleFailures.fetchAdd usize }
  else { h with buffers := { h.buffers with available := h.buffers.available ++ [[]] } }

end CapturePcmHandoff

open CapturePcmHandoff

/-- How far `take_loss` is, with the numbers it has taken. -/
inductive TakeLoss where
  | idle
  | other (contentionDropped : ℕ)
  | oversized (contentionDropped dropped : ℕ)
  | failures (contentionDropped dropped oversized : ℕ)
  deriving DecidableEq

/-- The two threads and what they share. The worker has popped the buffers in `held` and not yet
returned them. The last three fields are the account of the run. -/
structure System (S : Type) where
  handoff : CapturePcmHandoff S
  sequence : ℕ
  held : List (List S)
  takeLoss : TakeLoss
  losses : List CapturePcmLoss
  submitted : List (Packet S)
  popped : List (Packet S)
  deriving DecidableEq

def start (handoff : CapturePcmHandoff S) : System S :=
  { handoff := handoff, sequence := 0, held := [], takeLoss := .idle
    losses := [], submitted := [], popped := [] }

inductive Event (S : Type) where
  | submit (tryLock : TryLock) (input : List S)
  | popPacket
  | recycle (i : ℕ)
  | takeLoss

/-- The next exchange of `take_loss`. -/
def takeLossStep (s : System S) : System S :=
  match s.takeLoss with
  | .idle =>
    { s with
      takeLoss := .other s.handoff.contentionDropped.value
      handoff := { s.handoff with contentionDropped := s.handoff.contentionDropped.swap } }
  | .other contentionDropped =>
    { s with
      takeLoss := .oversized contentionDropped
        ((s.handoff.otherDropped.value + contentionDropped) % usize)
      handoff := { s.handoff with otherDropped := s.handoff.otherDropped.swap } }
  | .oversized contentionDropped dropped =>
    { s with
      takeLoss := .failures contentionDropped dropped s.handoff.oversized.value
      handoff := { s.handoff with oversized := s.handoff.oversized.swap } }
  | .failures contentionDropped dropped oversized =>
    { s with
      takeLoss := .idle
      losses := s.losses ++
        [⟨dropped, contentionDropped, oversized, s.handoff.recycleFailures.value⟩]
      handoff := { s.handoff with recycleFailures := s.handoff.recycleFailures.swap } }

/-- The worker does one thing after another; the callback may come at any time. -/
def step (s : System S) : Event S → Option (System S)
  | .submit tryLock input =>
    some { s with
      handoff := s.handoff.submit usize tryLock s.sequence input
      sequence := (s.sequence + 1) % usize
      submitted := s.submitted ++ [(s.sequence, input)] }
  | .popPacket =>
    if s.takeLoss = .idle then
      match s.handoff.popPacket with
      | (none, handoff) => some { s with handoff := handoff }
      | (some packet, handoff) =>
        some { s with
          handoff := handoff
          held := s.held ++ [packet.2]
          popped := s.popped ++ [packet] }
    else none
  | .recycle i =>
    if s.takeLoss = .idle ∧ i < s.held.length then
      some { s with handoff := s.handoff.recycle usize, held := s.held.eraseIdx i }
    else none
  | .takeLoss => some (takeLossStep usize s)

/-! ### What holds in every state -/

/-- The numbers of a `take_loss` that has not returned yet. -/
def TakeLoss.takenDropped : TakeLoss → ℕ
  | .idle => 0
  | .other contentionDropped => contentionDropped
  | .oversized _ dropped => dropped
  | .failures _ dropped _ => dropped

def TakeLoss.takenOversized : TakeLoss → ℕ
  | .failures _ _ n => n
  | _ => 0

/-- The dropped packets that the counters have told of, taken or not yet. -/
def countedDropped (s : System S) : ℕ :=
  (s.losses.map CapturePcmLoss.dropped).sum + s.takeLoss.takenDropped +
    s.handoff.contentionDropped.value + s.handoff.otherDropped.value

def countedOversized (s : System S) : ℕ :=
  (s.losses.map CapturePcmLoss.oversized).sum + s.takeLoss.takenOversized +
    s.handoff.oversized.value

/-- The packets dropped so far. -/
def dropped (s : System S) : ℕ := s.handoff.contentionDropped.added + s.handoff.otherDropped.added

def Counted (n counted : ℕ) : Prop := ∃ wraps, n = counted + wraps * usize

structure Conserved (capacity : ℕ) (s : System S) : Prop where
  pool : s.handoff.buffers.available.length + s.handoff.buffers.ready.length + s.held.length =
    capacity
  room : capacity ≤ s.handoff.buffers.availableCapacity
  recycled : s.handoff.recycleFailures = .new
  order : List.Sublist (s.popped ++ s.handoff.buffers.ready) s.submitted
  numbers : s.submitted.map Prod.fst = (List.range s.submitted.length).map (· % usize)
  sequence : s.sequence = s.submitted.length % usize
  account : s.submitted.length =
    s.popped.length + s.handoff.buffers.ready.length + dropped s + s.handoff.oversized.added
  countsDropped : Counted usize (dropped s) (countedDropped s)
  countsOversized : Counted usize s.handoff.oversized.added (countedOversized s)
  noFailures : ∀ loss ∈ s.losses, loss.recycleFailures = 0

/-! ### What the operations do -/

variable (capacity : ℕ) (s : System S)

/-- A submission is refused, or takes an available buffer, or the buffer of the oldest packet. -/
theorem submit_cases (tryLock : TryLock) (sequence : ℕ) (input : List S) (h : CapturePcmHandoff S) :
    h.submit usize tryLock sequence input = { h with oversized := h.oversized.fetchAdd usize } ∨
    h.submit usize tryLock sequence input =
      { h with contentionDropped := h.contentionDropped.fetchAdd usize } ∨
    h.submit usize tryLock sequence input =
      { h with otherDropped := h.otherDropped.fetchAdd usize } ∨
    (∃ available buffer queued, h.buffers.available = available ++ [buffer] ∧
      h.submit usize tryLock sequence input =
        { h with
          buffers := ⟨available, h.buffers.availableCapacity,
            h.buffers.ready ++ [(sequence, input)]⟩
          maxQueuedPackets := queued }) ∨
    (∃ packet ready queued, h.buffers.ready = packet :: ready ∧
      h.submit usize tryLock sequence input =
        { h with
          buffers := ⟨h.buffers.available, h.buffers.availableCapacity,
            ready ++ [(sequence, input)]⟩
          otherDropped := h.otherDropped.fetchAdd usize
          maxQueuedPackets := queued }) := by
  unfold submit
  split
  · exact Or.inl rfl
  · cases tryLock with
    | wouldBlock => exact Or.inr (Or.inl rfl)
    | poisoned => exact Or.inr (Or.inr (Or.inl rfl))
    | acquired =>
      cases hlast : h.buffers.available.getLast? with
      | some buffer =>
        obtain ⟨available, havailable⟩ := List.getLast?_eq_some_iff.mp hlast
        refine Or.inr (Or.inr (Or.inr (Or.inl ⟨available, buffer,
          max h.maxQueuedPackets (h.buffers.ready ++ [(sequence, input)]).length, havailable, ?_⟩)))
        simp only [takeBuffer, hlast]
        rw [havailable, List.dropLast_concat]
      | none =>
        cases hready : h.buffers.ready with
        | nil =>
          refine Or.inr (Or.inr (Or.inl ?_))
          simp only [takeBuffer, hlast, hready]
        | cons packet ready =>
          refine Or.inr (Or.inr (Or.inr (Or.inr ⟨packet, ready,
            max h.maxQueuedPackets (ready ++ [(sequence, input)]).length, rfl, ?_⟩)))
          simp only [takeBuffer, hlast, hready]

theorem counted_fetchAdd (n counted : ℕ) (c : AtomicUsize)
    (h : Counted usize n (counted + c.value)) :
    Counted usize (n + 1) (counted + (c.fetchAdd usize).value) := by
  obtain ⟨wraps, hn⟩ := h
  have hdivide := Nat.mod_add_div (c.value + 1) usize
  refine ⟨wraps + (c.value + 1) / usize, ?_⟩
  rw [Nat.add_mul, Nat.mul_comm ((c.value + 1) / usize)]
  change n + 1 = counted + (c.value + 1) % usize + _
  omega

theorem counted_congr (n counted m counted' : ℕ) (h : Counted usize n counted) (hn : n = m)
    (hcounted : counted = counted') : Counted usize m counted' :=
  hn ▸ hcounted ▸ h

theorem numbers_concat (submitted : List (Packet S)) (input : List S)
    (h : submitted.map Prod.fst = (List.range submitted.length).map (· % usize)) :
    (submitted ++ [(submitted.length % usize, input)]).map Prod.fst =
      (List.range (submitted ++ [(submitted.length % usize, input)]).length).map (· % usize) := by
  rw [List.length_append, List.length_singleton, List.range_succ, List.map_append, List.map_append,
    h]
  rfl

theorem conserved_submit (tryLock : TryLock) (input : List S) (h : Conserved usize capacity s) :
    Conserved usize capacity
      { s with
        handoff := s.handoff.submit usize tryLock s.sequence input
        sequence := (s.sequence + 1) % usize
        submitted := s.submitted ++ [(s.sequence, input)] } := by
  have hnumbers := numbers_concat usize s.submitted input h.numbers
  rw [← h.sequence] at hnumbers
  have hsequence : (s.sequence + 1) % usize =
      (s.submitted ++ [(s.sequence, input)]).length % usize := by
    rw [h.sequence, List.length_append, List.length_singleton, Nat.mod_add_mod]
  have hsubmitted : List.Sublist s.submitted (s.submitted ++ [(s.sequence, input)]) :=
    List.sublist_append_left _ _
  have hlength : (s.submitted ++ [(s.sequence, input)]).length = s.submitted.length + 1 := by simp
  have haccount := h.account
  have hpool := h.pool
  obtain heq | heq | heq | ⟨available, buffer, queued, havailable, heq⟩ |
      ⟨packet, ready, queued, hready, heq⟩ :=
    submit_cases usize tryLock s.sequence input s.handoff
  · rw [heq]
    refine ⟨h.pool, h.room, h.recycled, h.order.trans hsubmitted, hnumbers, hsequence, ?_,
      h.countsDropped, counted_fetchAdd usize _ _ _ h.countsOversized, h.noFailures⟩
    simp only [AtomicUsize.fetchAdd, dropped] at haccount ⊢
    omega
  · rw [heq]
    have hcounts : Counted usize (dropped s + 1)
        ((s.losses.map CapturePcmLoss.dropped).sum + s.takeLoss.takenDropped +
          s.handoff.otherDropped.value + (s.handoff.contentionDropped.fetchAdd usize).value) := by
      apply counted_fetchAdd
      exact counted_congr usize _ _ _ _ h.countsDropped rfl (by simp only [countedDropped]; omega)
    refine ⟨h.pool, h.room, h.recycled, h.order.trans hsubmitted, hnumbers, hsequence, ?_,
      counted_congr usize _ _ _ _ hcounts ?_ ?_, h.countsOversized, h.noFailures⟩
    · simp only [AtomicUsize.fetchAdd, dropped] at haccount ⊢
      omega
    · simp only [AtomicUsize.fetchAdd, dropped]
      omega
    · simp only [countedDropped]
      omega
  · rw [heq]
    refine ⟨h.pool, h.room, h.recycled, h.order.trans hsubmitted, hnumbers, hsequence, ?_,
      counted_fetchAdd usize _ _ _ h.countsDropped, h.countsOversized, h.noFailures⟩
    simp only [AtomicUsize.fetchAdd, dropped] at haccount ⊢
    omega
  · rw [heq]
    refine ⟨?_, h.room, h.recycled, ?_, hnumbers, hsequence, ?_, h.countsDropped,
      h.countsOversized, h.noFailures⟩
    · simp only [havailable, List.length_append, List.length_singleton] at hpool ⊢
      omega
    · have horder := h.order.append (List.Sublist.refl [(s.sequence, input)])
      rwa [List.append_assoc] at horder
    · simp only [dropped, List.length_append, List.length_singleton] at haccount ⊢
      omega
  · rw [heq]
    refine ⟨?_, h.room, h.recycled, ?_, hnumbers, hsequence, ?_,
      counted_fetchAdd usize _ _ _ h.countsDropped, h.countsOversized, h.noFailures⟩
    · simp only [hready, List.length_append, List.length_cons, List.length_nil] at hpool ⊢
      omega
    · have holder : List.Sublist (s.popped ++ ready) s.submitted := by
        refine List.Sublist.trans ?_ h.order
        rw [hready]
        exact (List.Sublist.refl s.popped).append (List.sublist_cons_self packet ready)
      have horder := holder.append (List.Sublist.refl [(s.sequence, input)])
      rwa [List.append_assoc] at horder
    · simp only [AtomicUsize.fetchAdd, dropped, hready, List.length_append, List.length_cons,
        List.length_nil] at haccount ⊢
      omega

theorem conserved_pop (packet : Packet S) (ready : List (Packet S))
    (hready : s.handoff.buffers.ready = packet :: ready) (h : Conserved usize capacity s) :
    Conserved usize capacity
      { s with
        handoff := { s.handoff with buffers := { s.handoff.buffers with ready := ready } }
        held := s.held ++ [packet.2]
        popped := s.popped ++ [packet] } := by
  have haccount := h.account
  have hpool := h.pool
  refine ⟨?_, h.room, h.recycled, ?_, h.numbers, h.sequence, ?_, h.countsDropped,
    h.countsOversized, h.noFailures⟩
  · simp only [hready, List.length_append, List.length_cons, List.length_nil] at hpool ⊢
    omega
  · have horder := h.order
    rw [hready] at horder
    rwa [List.append_assoc, List.singleton_append]
  · simp only [dropped, hready, List.length_append, List.length_cons, List.length_nil]
      at haccount ⊢
    omega

/-- A buffer that the worker holds is missing among the available ones. -/
theorem conserved_recycle (i : ℕ) (s : System S) (hi : i < s.held.length)
    (h : Conserved usize capacity s) :
    Conserved usize capacity
      { s with handoff := s.handoff.recycle usize, held := s.held.eraseIdx i } := by
  have hpool := h.pool
  have hroom := h.room
  have hheld : (s.held.eraseIdx i).length + 1 = s.held.length := by
    rw [List.length_eraseIdx_of_lt hi]
    omega
  have hfits : s.handoff.buffers.available.length ≠ s.handoff.buffers.availableCapacity := by
    omega
  rw [recycle, if_neg hfits]
  refine ⟨?_, h.room, h.recycled, h.order, h.numbers, h.sequence, h.account, h.countsDropped,
    h.countsOversized, h.noFailures⟩
  simp only [List.length_append, List.length_singleton]
  omega

theorem conserved_takeLoss (h : Conserved usize capacity s) :
    Conserved usize capacity (takeLossStep usize s) := by
  have hdropped := h.countsDropped
  have hoversized := h.countsOversized
  cases htaken : s.takeLoss with
  | idle =>
    simp only [takeLossStep, htaken]
    refine ⟨h.pool, h.room, h.recycled, h.order, h.numbers, h.sequence, h.account,
      counted_congr usize _ _ _ _ hdropped rfl ?_, counted_congr usize _ _ _ _ hoversized rfl ?_,
      h.noFailures⟩
    · simp [countedDropped, htaken, TakeLoss.takenDropped, AtomicUsize.swap]
    · simp [countedOversized, htaken, TakeLoss.takenOversized]
  | other contentionDropped =>
    simp only [takeLossStep, htaken]
    refine ⟨h.pool, h.room, h.recycled, h.order, h.numbers, h.sequence, h.account, ?_,
      counted_congr usize _ _ _ _ hoversized rfl ?_, h.noFailures⟩
    · obtain ⟨wraps, hn⟩ := hdropped
      have hdivide := Nat.mod_add_div (s.handoff.otherDropped.value + contentionDropped) usize
      refine ⟨wraps + (s.handoff.otherDropped.value + contentionDropped) / usize, ?_⟩
      rw [Nat.add_mul, Nat.mul_comm ((s.handoff.otherDropped.value + contentionDropped) / usize)]
      simp only [dropped, countedDropped, htaken, TakeLoss.takenDropped, AtomicUsize.swap] at hn ⊢
      omega
    · simp [countedOversized, htaken, TakeLoss.takenOversized]
  | oversized contentionDropped count =>
    simp only [takeLossStep, htaken]
    refine ⟨h.pool, h.room, h.recycled, h.order, h.numbers, h.sequence, h.account,
      counted_congr usize _ _ _ _ hdropped rfl ?_, counted_congr usize _ _ _ _ hoversized rfl ?_,
      h.noFailures⟩
    · simp [countedDropped, htaken, TakeLoss.takenDropped]
    · simp [countedOversized, htaken, TakeLoss.takenOversized, AtomicUsize.swap]
  | failures contentionDropped count tooLong =>
    simp only [takeLossStep, htaken]
    refine ⟨h.pool, h.room, ?_, h.order, h.numbers, h.sequence, h.account,
      counted_congr usize _ _ _ _ hdropped rfl ?_, counted_congr usize _ _ _ _ hoversized rfl ?_,
      ?_⟩
    · rw [h.recycled]
      rfl
    · simp [countedDropped, htaken, TakeLoss.takenDropped]
    · simp [countedOversized, htaken, TakeLoss.takenOversized]
    · intro loss hloss
      rcases List.mem_append.mp hloss with hold | hnew
      · exact h.noFailures loss hold
      · rw [List.mem_singleton.mp hnew, h.recycled]
        rfl

theorem conserved_step (e : Event S) (t : System S)
    (h : Conserved usize capacity s) (hstep : step usize s e = some t) :
    Conserved usize capacity t := by
  cases e with
  | submit tryLock input =>
    obtain rfl := Option.some.inj hstep
    exact conserved_submit usize capacity s tryLock input h
  | popPacket =>
    simp only [step, popPacket] at hstep
    split at hstep
    · cases hready : s.handoff.buffers.ready with
      | nil =>
        rw [hready] at hstep
        obtain rfl := Option.some.inj hstep
        exact h
      | cons packet ready =>
        rw [hready] at hstep
        obtain rfl := Option.some.inj hstep
        exact conserved_pop usize capacity s packet ready hready h
    · cases hstep
  | recycle i =>
    simp only [step] at hstep
    obtain ⟨hallowed, rfl⟩ := of_guard hstep
    exact conserved_recycle usize capacity i s hallowed.2 h
  | takeLoss =>
    obtain rfl := Option.some.inj hstep
    exact conserved_takeLoss usize capacity s h

theorem conserved_start (maxSamples spare : ℕ) (handoff : CapturePcmHandoff S)
    (h : newPcmHandoff capacity maxSamples spare = some handoff) :
    Conserved usize capacity (start handoff) := by
  unfold newPcmHandoff at h
  obtain ⟨-, rfl⟩ := of_guard_not h
  refine ⟨?_, ?_, rfl, List.Sublist.refl _, rfl, ?_, rfl, ⟨0, ?_⟩, ⟨0, ?_⟩, by simp [start]⟩
  · simp [start]
  · simp [start]
  · simp [start]
  · simp [start, dropped, countedDropped, TakeLoss.takenDropped, AtomicUsize.new]
  · simp [start, countedOversized, TakeLoss.takenOversized, AtomicUsize.new]

/-! ### Runs -/

/-- What is counted is right up to multiples of the size of a counter, and right altogether as long
as no counter can have started again. -/
theorem Counted.mod_eq (n counted : ℕ) (h : Counted usize n counted) :
    n % usize = counted % usize ∧ (n < usize → n = counted) := by
  obtain ⟨wraps, rfl⟩ := h
  refine ⟨Nat.add_mul_mod_self_right counted wraps usize, fun hlt => ?_⟩
  cases wraps with
  | zero => simp
  | succ wraps =>
    rw [Nat.succ_mul] at hlt
    omega

/-- What the callback submits in a run. -/
def inputs (es : List (Event S)) : List (List S) :=
  es.filterMap fun e =>
    match e with
    | .submit _ input => some input
    | _ => none

theorem submitted_step (e : Event S) (t : System S) (hstep : step usize s e = some t) :
    t.submitted.map Prod.snd = s.submitted.map Prod.snd ++ inputs [e] := by
  cases e with
  | submit tryLock input =>
    obtain rfl := Option.some.inj hstep
    simp [inputs]
  | popPacket =>
    simp only [step] at hstep
    split at hstep
    · split at hstep
      · obtain rfl := Option.some.inj hstep
        simp [inputs]
      · obtain rfl := Option.some.inj hstep
        simp [inputs]
    · cases hstep
  | recycle i =>
    simp only [step] at hstep
    obtain ⟨-, rfl⟩ := of_guard hstep
    simp [inputs]
  | takeLoss =>
    obtain rfl := Option.some.inj hstep
    unfold takeLossStep
    split
    all_goals simp [inputs]

theorem submitted_of_exec (es : List (Event S)) (handoff : CapturePcmHandoff S) (s : System S)
    (hrun : Runs.exec (step usize) (start handoff) es = some s) :
    s.submitted.map Prod.snd = inputs es := by
  apply Runs.history_of_exec (step usize) (fun es s => s.submitted.map Prod.snd = inputs es)
    (start handoff) rfl ?_ es s hrun
  intro es s e t _ hs hstep
  rw [submitted_step usize s e t hstep, hs, inputs, inputs, inputs, List.filterMap_append]

/-- In every interleaving of submissions with the worker's steps, the buffers are as many as at the
start, and none is ever left over in `recycle`. What is popped was submitted in this order, with its
samples and its number, and what was submitted is popped, ready or lost. The losses are what the
worker has taken and what the counters hold. -/
theorem handoff_conserves (capacity maxSamples spare : ℕ) (handoff : CapturePcmHandoff S)
    (es : List (Event S)) (s : System S)
    (hnew : newPcmHandoff capacity maxSamples spare = some handoff)
    (hrun : Runs.exec (step usize) (start handoff) es = some s) :
    s.handoff.buffers.available.length + s.handoff.buffers.ready.length + s.held.length =
        capacity ∧
      (s.handoff.recycleFailures.added = 0 ∧ ∀ loss ∈ s.losses, loss.recycleFailures = 0) ∧
      (List.Sublist (s.popped ++ s.handoff.buffers.ready) s.submitted ∧
        s.submitted.map Prod.snd = inputs es ∧
        s.submitted.map Prod.fst = (List.range s.submitted.length).map (· % usize)) ∧
      s.submitted.length =
        s.popped.length + s.handoff.buffers.ready.length + dropped s + s.handoff.oversized.added ∧
      dropped s % usize = countedDropped s % usize ∧
      s.handoff.oversized.added % usize = countedOversized s % usize ∧
      (s.submitted.length < usize → s.submitted.length =
        s.popped.length + s.handoff.buffers.ready.length + countedDropped s +
          countedOversized s) := by
  have hconserved : Conserved usize capacity s :=
    Runs.invariant_of_exec (step usize) (Conserved usize capacity)
      (fun s e t => conserved_step usize capacity s e t) (start handoff) s es
      (conserved_start usize capacity maxSamples spare handoff hnew) hrun
  have hrecycled := hconserved.recycled
  have haccount := hconserved.account
  obtain ⟨hmodDropped, hdropped⟩ := hconserved.countsDropped.mod_eq
  obtain ⟨hmodOversized, hoversized⟩ := hconserved.countsOversized.mod_eq
  refine ⟨hconserved.pool, ⟨by rw [hrecycled]; rfl, hconserved.noFailures⟩,
    ⟨hconserved.order, submitted_of_exec usize es handoff s hrun, hconserved.numbers⟩, haccount,
    hmodDropped, hmodOversized, fun hlt => ?_⟩
  rw [← hdropped (by omega), ← hoversized (by omega)]
  exact haccount

/-- One buffer, taken by the second packet; a packet that is too long and one that meets the lock,
before the worker pops the second packet and returns its buffer. -/
theorem handoff_conserves_one :
    ∃ s : System ℕ, Runs.exec (step (2 ^ 64))
        (start ⟨⟨[[]], 1, []⟩, .new, .new, .new, .new, 0, 2⟩)
        [.submit .acquired [5], .submit .acquired [6, 7], .submit .acquired [8, 9, 10],
          .submit .wouldBlock [11], .popPacket, .takeLoss, .takeLoss, .takeLoss, .takeLoss,
          .recycle 0] = some s ∧
      s.popped = [(1, [6, 7])] ∧ s.losses = [⟨2, 1, 1, 0⟩] ∧
      s.submitted.length = s.popped.length + s.handoff.buffers.ready.length + countedDropped s +
        countedOversized s := by
  have hrun : Runs.exec (step (2 ^ 64)) (start ⟨⟨[[]], 1, []⟩, .new, .new, .new, .new, 0, 2⟩)
      [.submit .acquired [5], .submit .acquired [6, 7], .submit .acquired [8, 9, 10],
        .submit .wouldBlock [11], .popPacket, .takeLoss, .takeLoss, .takeLoss, .takeLoss,
        .recycle 0] =
      some
        { handoff := ⟨⟨[[]], 1, []⟩, ⟨0, 1⟩, ⟨0, 1⟩, ⟨0, 1⟩, .new, 1, 2⟩
          sequence := 4, held := [], takeLoss := .idle, losses := [⟨2, 1, 1, 0⟩]
          submitted := [(0, [5]), (1, [6, 7]), (2, [8, 9, 10]), (3, [11])]
          popped := [(1, [6, 7])] } := by
    decide
  obtain ⟨-, -, -, -, -, -, haccount⟩ := handoff_conserves (2 ^ 64) 1 2 0 _ _ _ rfl hrun
  exact ⟨_, hrun, rfl, rfl, haccount (by decide)⟩

end ClantoDesk.AudioHandoff
