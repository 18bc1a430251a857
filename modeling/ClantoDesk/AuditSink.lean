import ClantoDesk.Runs
import Mathlib.Algebra.BigOperators.Group.List.Basic
import Mathlib.Algebra.Order.Ring.Int

/-!
The queue of audit records for syslog and the worker that sends them,
src/clanto/audit_sink.rs. Producers push while the worker has a record on its way; a full queue
drops its oldest record, which may be that one. The number of records lost travels inside the
next record that is delivered. The state also keeps the history of the queue: what was pushed,
evicted, finished and delivered.
-/
namespace ClantoDesk.AuditSink

def u64Size : ℕ := 18446744073709551616
def u64Max : ℕ := u64Size - 1
def maxBackoff : ℕ := 60

def saturatingAdd (a b : ℕ) : ℕ := min (a + b) u64Max

/-- The event and its value are one datum here. -/
structure PendingRecord (α : Type) where
  sequence : ℕ
  value : α

structure AuditQueue (α : Type) where
  records : List (PendingRecord α)
  capacity : ℕ
  nextSequence : ℕ
  lost : ℕ

variable {α : Type}

namespace AuditQueue

def new (capacity : ℕ) : AuditQueue α := ⟨[], max capacity 1, 0, 0⟩

def push (q : AuditQueue α) (value : α) : AuditQueue α :=
  let full := q.records.length = q.capacity
  { q with
    records := (if full then q.records.tail else q.records) ++ [⟨q.nextSequence, value⟩]
    nextSequence := (q.nextSequence + 1) % u64Size
    lost := if full then saturatingAdd q.lost 1 else q.lost }

def front (q : AuditQueue α) : Option (PendingRecord α × ℕ) :=
  q.records.head?.map fun record => (record, q.lost)

def isFront (q : AuditQueue α) (sequence : ℕ) : Bool :=
  decide (q.records.head?.map PendingRecord.sequence = some sequence)

def finish (q : AuditQueue α) (sequence reportedLost : ℕ) (delivered : Bool) : AuditQueue α :=
  let stillFront := q.isFront sequence
  { q with
    records := if stillFront then q.records.tail else q.records
    lost :=
      if delivered then q.lost - saturatingAdd reportedLost (if stillFront then 0 else 1)
      else q.lost }

end AuditQueue

/-- A record that was delivered: its place in the order of the pushes, its value and the
number of lost records it carried. -/
structure Delivery (α : Type) where
  place : ℕ
  value : α
  lost : ℕ

/-- `sending` is the worker's copy of the record on its way, with the number of lost records
that it reports. From `pushed` on it is history: the values pushed, how many records have left the
queue, the place of the record on its way, and the places evicted and finished. -/
structure Sink (α : Type) where
  queue : AuditQueue α
  sending : Option (PendingRecord α × ℕ)
  backoff : ℕ
  pushed : List α
  gone : ℕ
  place : ℕ
  evicted : List ℕ
  finished : List ℕ
  delivered : List (Delivery α)

def start (capacity : ℕ) : Sink α := ⟨AuditQueue.new capacity, none, 1, [], 0, 0, [], [], []⟩

namespace Sink

def push (s : Sink α) (value : α) : Sink α :=
  let full := s.queue.records.length = s.queue.capacity
  { s with
    queue := s.queue.push value
    pushed := s.pushed ++ [value]
    gone := if full then s.gone + 1 else s.gone
    evicted := if full then s.evicted ++ [s.gone] else s.evicted }

/-- `finish_record`. -/
def finish (s : Sink α) (record : PendingRecord α) (lost : ℕ) (delivered : Bool) : Sink α :=
  { s with
    queue := s.queue.finish record.sequence lost delivered
    sending := none
    backoff := 1
    gone := if s.queue.isFront record.sequence then s.gone + 1 else s.gone
    finished := s.finished ++ [s.place]
    delivered :=
      if delivered then s.delivered ++ [⟨s.place, record.value, lost⟩] else s.delivered }

def retry (s : Sink α) (record : PendingRecord α) : Sink α :=
  { s with
    sending := none
    backoff := if s.queue.isFront record.sequence then min (s.backoff * 2) maxBackoff else 1 }

end Sink

inductive Outcome
  | disabled
  | udp (sent : Bool)
  | sent | permanent | retryable | timeout

inductive Event (α : Type)
  | push (value : α)
  | take
  | outcome (outcome : Outcome)

/-- `worker`, after an attempt. -/
def onOutcome (s : Sink α) (record : PendingRecord α) (lost : ℕ) : Outcome → Sink α
  | .disabled => s.finish record lost false
  | .udp sent => s.finish record lost sent
  | .sent => s.finish record lost true
  | .permanent => s.finish record lost false
  | .retryable => s.retry record
  | .timeout => s.retry record

def step (s : Sink α) : Event α → Option (Sink α)
  | .push value => some (s.push value)
  | .take =>
    match s.sending, s.queue.front with
    | none, some snapshot => some { s with sending := some snapshot, place := s.gone }
    | _, _ => none
  | .outcome outcome =>
    match s.sending with
    | some (record, lost) => some (onOutcome s record lost outcome)
    | none => none

/-- No record is evicted while the counter of lost records is at its largest value. -/
def Unsaturated (s : Sink α) : Event α → Prop
  | .push _ => s.queue.records.length = s.queue.capacity → s.queue.lost < u64Max
  | _ => True

/-- The records evicted and not delivered on the way. -/
def undelivered (s : Sink α) : List ℕ :=
  s.evicted.filter fun n => decide (n ∉ s.delivered.map Delivery.place)

/-- The record on its way is still the front of the queue or has been evicted meanwhile, and the
evictions since it was copied are all counted. -/
structure OnItsWay (s : Sink α) (record : PendingRecord α) (lost : ℕ) : Prop where
  sequence : record.sequence = s.place % u64Size
  value : s.pushed[s.place]? = some record.value
  last : ∀ n ∈ s.finished, n < s.place
  counted : lost + (s.gone - s.place) ≤ s.queue.lost
  whereabouts : s.place = s.gone ∧ s.queue.records.head? = some record ∨
    s.place < s.gone ∧ s.place ∈ s.evicted

structure Inv (s : Sink α) : Prop where
  capacity_pos : 0 < s.queue.capacity
  bounded : s.queue.records.length ≤ s.queue.capacity
  length_eq : s.pushed.length = s.gone + s.queue.records.length
  next_eq : s.queue.nextSequence = s.pushed.length % u64Size
  numbered : ∀ i record, s.queue.records[i]? = some record →
    record.sequence = (s.gone + i) % u64Size ∧ s.pushed[s.gone + i]? = some record.value
  lost_le : s.queue.lost ≤ u64Max
  evicted_nodup : s.evicted.Nodup
  evicted_lt : ∀ n ∈ s.evicted, n < s.gone
  finished_sorted : s.finished.Pairwise (· < ·)
  finished_lt : ∀ n ∈ s.finished, n < s.gone
  delivered_finished : (s.delivered.map Delivery.place).Sublist s.finished
  delivered_value : ∀ d ∈ s.delivered, s.pushed[d.place]? = some d.value
  account : (s.delivered.map Delivery.lost).sum + s.queue.lost = (undelivered s).length
  sending : ∀ record lost, s.sending = some (record, lost) → OnItsWay s record lost

variable {s : Sink α}

theorem inv_start (capacity : ℕ) : Inv (start capacity : Sink α) := by
  refine ⟨?_, Nat.zero_le _, rfl, rfl, ?_, Nat.zero_le _, List.nodup_nil, ?_, List.Pairwise.nil, ?_,
    List.Sublist.refl _, ?_, rfl, ?_⟩
  · exact Nat.lt_of_lt_of_le Nat.zero_lt_one (Nat.le_max_right _ _)
  · intro i record h
    cases h
  · intro n hn
    cases hn
  · intro n hn
    cases hn
  · intro d hd
    cases hd
  · intro record lost h
    cases h

theorem saturatingAdd_eq (a b : ℕ) (h : a + b ≤ u64Max) : saturatingAdd a b = a + b :=
  Nat.min_eq_left h

theorem getElem?_append_of_some {β : Type} (l : List β) (x y : β) (i : ℕ) (h : l[i]? = some y) :
    (l ++ [x])[i]? = some y := by
  rw [List.getElem?_append_left (List.getElem?_eq_some_iff.mp h).1]
  exact h

theorem Inv.not_delivered (h : Inv s) (n : ℕ) (hn : ∀ m ∈ s.finished, m < n) :
    n ∉ s.delivered.map Delivery.place := by
  intro hin
  exact Nat.lt_irrefl n (hn n (h.delivered_finished.subset hin))

theorem Inv.pushRoom (h : Inv s) (value : α)
    (hroom : s.queue.records.length ≠ s.queue.capacity) : Inv (s.push value) := by
  have hbounded := h.bounded
  have hlength := h.length_eq
  simp only [Sink.push, AuditQueue.push, hroom, if_false]
  refine ⟨h.capacity_pos, ?_, ?_, ?_, ?_, h.lost_le, h.evicted_nodup, h.evicted_lt,
    h.finished_sorted, h.finished_lt, h.delivered_finished, ?_, h.account, ?_⟩
  · simp only [List.length_append, List.length_singleton]
    omega
  · simp only [List.length_append, List.length_singleton]
    omega
  · simp only [List.length_append, List.length_singleton, h.next_eq]
    exact Nat.mod_add_mod _ _ _
  · intro i record hi
    by_cases hlt : i < s.queue.records.length
    · rw [List.getElem?_append_left hlt] at hi
      obtain ⟨hseq, hvalue⟩ := h.numbered i record hi
      exact ⟨hseq, getElem?_append_of_some _ _ _ _ hvalue⟩
    · rw [List.getElem?_append_right (Nat.not_lt.mp hlt)] at hi
      obtain ⟨hzero, rfl⟩ := List.getElem?_eq_some_iff.mp hi
      rw [List.length_singleton] at hzero
      have hi' : s.gone + i = s.pushed.length := by omega
      rw [hi']
      exact ⟨by simp [h.next_eq], by simp⟩
  · intro d hd
    exact getElem?_append_of_some _ _ _ _ (h.delivered_value d hd)
  · intro record lost hsending
    obtain ⟨hseq, hvalue, hlast, hcounted, hwhere⟩ := h.sending record lost hsending
    refine ⟨hseq, getElem?_append_of_some _ _ _ _ hvalue, hlast, hcounted, ?_⟩
    rcases hwhere with ⟨hplace, hhead⟩ | hevicted
    · left
      refine ⟨hplace, ?_⟩
      rw [List.head?_append, hhead]
      rfl
    · exact Or.inr hevicted

theorem Inv.pushFull (h : Inv s) (value : α)
    (hfull : s.queue.records.length = s.queue.capacity) (hlost : s.queue.lost < u64Max) :
    Inv (s.push value) := by
  have hpos := h.capacity_pos
  have hlength := h.length_eq
  have hlen : s.queue.records.tail.length + 1 = s.queue.records.length := by
    rw [List.length_tail]
    omega
  have hsat := saturatingAdd_eq s.queue.lost 1 hlost
  simp only [Sink.push, AuditQueue.push, hfull, if_true, hsat]
  refine ⟨h.capacity_pos, ?_, ?_, ?_, ?_, hlost, ?_, ?_, h.finished_sorted, ?_,
    h.delivered_finished, ?_, ?_, ?_⟩
  · simp only [List.length_append, List.length_singleton]
    omega
  · simp only [List.length_append, List.length_singleton]
    omega
  · simp only [List.length_append, List.length_singleton, h.next_eq]
    exact Nat.mod_add_mod _ _ _
  · intro i record hi
    by_cases hlt : i < s.queue.records.tail.length
    · rw [List.getElem?_append_left hlt, List.getElem?_tail] at hi
      obtain ⟨hseq, hvalue⟩ := h.numbered (i + 1) record hi
      have hplace : s.gone + 1 + i = s.gone + (i + 1) := by omega
      rw [hplace]
      exact ⟨hseq, getElem?_append_of_some _ _ _ _ hvalue⟩
    · rw [List.getElem?_append_right (Nat.not_lt.mp hlt)] at hi
      obtain ⟨hzero, rfl⟩ := List.getElem?_eq_some_iff.mp hi
      rw [List.length_singleton] at hzero
      have hi' : s.gone + 1 + i = s.pushed.length := by omega
      rw [hi']
      exact ⟨by simp [h.next_eq], by simp⟩
  · rw [List.nodup_append]
    refine ⟨h.evicted_nodup, by simp, ?_⟩
    intro n hn m hm
    have hlt := h.evicted_lt n hn
    have hm' := List.mem_singleton.mp hm
    omega
  · intro n hn
    rcases List.mem_append.mp hn with hold | hnew
    · exact Nat.lt_succ_of_lt (h.evicted_lt n hold)
    · exact List.mem_singleton.mp hnew ▸ Nat.lt_succ_self _
  · intro n hn
    exact Nat.lt_succ_of_lt (h.finished_lt n hn)
  · intro d hd
    exact getElem?_append_of_some _ _ _ _ (h.delivered_value d hd)
  · have hnot := h.not_delivered s.gone h.finished_lt
    have haccount := h.account
    have hkept : [s.gone].filter (fun n => decide (n ∉ s.delivered.map Delivery.place)) =
        [s.gone] := by
      rw [List.filter_eq_self]
      intro n hn
      rw [List.mem_singleton.mp hn]
      exact decide_eq_true hnot
    simp only [undelivered, List.filter_append, List.length_append] at haccount ⊢
    rw [hkept, List.length_singleton]
    omega
  · intro record lost hsending
    obtain ⟨hseq, hvalue, hlast, hcounted, hwhere⟩ := h.sending record lost hsending
    refine ⟨hseq, getElem?_append_of_some _ _ _ _ hvalue, hlast, ?_, Or.inr ?_⟩
    · simp only
      omega
    · rcases hwhere with ⟨hplace, -⟩ | ⟨hplace, hevicted⟩
      · exact ⟨by simp only [hplace]; omega, by simp [hplace]⟩
      · exact ⟨by simp only; omega, List.mem_append_left _ hevicted⟩

/-- The test of `finish` finds out whether the record on its way was evicted. -/
theorem isFront_iff (s : Sink α) (h : Inv s) (record : PendingRecord α) (lost : ℕ)
    (hway : OnItsWay s record lost) :
    s.queue.isFront record.sequence = true ↔ s.place = s.gone := by
  constructor
  · intro hfront
    have hhead := of_decide_eq_true hfront
    obtain ⟨first, hfirst, hsame⟩ := Option.map_eq_some_iff.mp hhead
    rw [List.head?_eq_getElem?] at hfirst
    have hseq := (h.numbered 0 first hfirst).1
    rw [hsame, hway.sequence, Nat.add_zero] at hseq
    have hcounted := hway.counted
    have hle := h.lost_le
    have hplace : s.place ≤ s.gone := by
      rcases hway.whereabouts with ⟨heq, -⟩ | ⟨hlt, -⟩ <;> omega
    simp only [u64Max, u64Size] at hle hseq
    omega
  · intro hplace
    rcases hway.whereabouts with ⟨-, hhead⟩ | ⟨hlt, -⟩
    · simp [AuditQueue.isFront, hhead]
    · omega

/-- One more delivery of an evicted record takes it off the undelivered ones. -/
theorem length_filter_delivered (evicted places : List ℕ) (n : ℕ) (hnodup : evicted.Nodup)
    (hin : n ∈ evicted) (hnot : n ∉ places) :
    (evicted.filter fun m => decide (m ∉ places ++ [n])).length + 1 =
      (evicted.filter fun m => decide (m ∉ places)).length := by
  have hsplit : (evicted.filter fun m => decide (m ∉ places ++ [n])) =
      (evicted.filter fun m => decide (m ∉ places)).erase n := by
    rw [List.Nodup.erase_eq_filter (hnodup.filter _), List.filter_filter]
    apply List.filter_congr
    intro m _
    by_cases hm : m = n <;> simp [hm]
  have hmem : n ∈ evicted.filter fun m => decide (m ∉ places) :=
    List.mem_filter.mpr ⟨hin, decide_eq_true hnot⟩
  rw [hsplit, List.length_erase_of_mem hmem]
  have hpos := List.length_pos_of_mem hmem
  omega

theorem filter_delivered_of_not_mem (evicted places : List ℕ) (n : ℕ) (hnot : n ∉ evicted) :
    (evicted.filter fun m => decide (m ∉ places ++ [n])) =
      evicted.filter fun m => decide (m ∉ places) := by
  apply List.filter_congr
  intro m hm
  have hne : m ≠ n := fun heq => hnot (heq ▸ hm)
  simp [hne]

theorem places_finish (s : Sink α) (record : PendingRecord α) (lost : ℕ) (delivered : Bool) :
    (s.finish record lost delivered).delivered.map Delivery.place =
      s.delivered.map Delivery.place ++ if delivered then [s.place] else [] := by
  cases delivered <;> simp [Sink.finish]

/-- What an attempt leaves behind, whether the record was evicted meanwhile or not. -/
theorem Inv.history_finish (h : Inv s) (record : PendingRecord α) (lost : ℕ)
    (delivered : Bool) (hway : OnItsWay s record lost) :
    (s.finish record lost delivered).finished.Pairwise (· < ·) ∧
      ((s.finish record lost delivered).delivered.map Delivery.place).Sublist
        (s.finish record lost delivered).finished ∧
      ∀ d ∈ (s.finish record lost delivered).delivered, s.pushed[d.place]? = some d.value := by
  refine ⟨?_, ?_, ?_⟩
  · refine List.pairwise_append.mpr ⟨h.finished_sorted, List.pairwise_singleton _ _, ?_⟩
    intro n hn m hm
    exact List.mem_singleton.mp hm ▸ hway.last n hn
  · rw [places_finish]
    refine h.delivered_finished.append ?_
    cases delivered
    · exact List.nil_sublist _
    · exact List.Sublist.refl _
  · intro d hd
    cases delivered with
    | false => exact h.delivered_value d hd
    | true =>
      rcases List.mem_append.mp hd with hold | hnew
      · exact h.delivered_value d hold
      · obtain rfl := List.mem_singleton.mp hnew
        exact hway.value

theorem Inv.finishFront (h : Inv s) (record : PendingRecord α) (lost : ℕ)
    (delivered : Bool) (hway : OnItsWay s record lost) (hplace : s.place = s.gone) :
    Inv (s.finish record lost delivered) := by
  obtain ⟨hsorted, hdelivered, hvalue⟩ := h.history_finish record lost delivered hway
  have hplaces := places_finish s record lost delivered
  have hfront := (isFront_iff s h record lost hway).mpr hplace
  have hlength := h.length_eq
  have hcounted := hway.counted
  have hle := h.lost_le
  have hhead : s.queue.records.head? = some record := by
    rcases hway.whereabouts with ⟨-, hhead⟩ | ⟨hlt, -⟩
    · exact hhead
    · omega
  have hlen : s.queue.records.tail.length + 1 = s.queue.records.length := by
    have hpos := List.length_pos_of_mem (List.mem_of_head? hhead)
    rw [List.length_tail]
    omega
  refine ⟨h.capacity_pos, ?_, ?_, h.next_eq, ?_, ?_, h.evicted_nodup, ?_, hsorted, ?_, hdelivered,
    hvalue, ?_, ?_⟩
  · have hbounded := h.bounded
    simp only [Sink.finish, AuditQueue.finish, hfront, if_true]
    omega
  · simp only [Sink.finish, AuditQueue.finish, hfront, if_true]
    omega
  · intro i first hi
    simp only [Sink.finish, AuditQueue.finish, hfront, if_true, List.getElem?_tail] at hi ⊢
    have hshift : s.gone + 1 + i = s.gone + (i + 1) := by omega
    rw [hshift]
    exact h.numbered (i + 1) first hi
  · simp only [Sink.finish, AuditQueue.finish]
    split <;> omega
  · intro n hn
    simp only [Sink.finish, hfront, if_true]
    exact Nat.lt_succ_of_lt (h.evicted_lt n hn)
  · intro n hn
    simp only [Sink.finish, hfront, if_true] at hn ⊢
    rcases List.mem_append.mp hn with hold | hnew
    · exact Nat.lt_succ_of_lt (h.finished_lt n hold)
    · have hn' := List.mem_singleton.mp hnew
      omega
  · have haccount := h.account
    have hnot : s.place ∉ s.evicted := fun hin => Nat.ne_of_lt (h.evicted_lt _ hin) hplace
    cases delivered with
    | false => exact haccount
    | true =>
      have hsat := saturatingAdd_eq lost 0 (by omega)
      unfold undelivered at haccount ⊢
      rw [hplaces]
      simp only [Sink.finish, AuditQueue.finish, hfront, if_true, hsat, List.map_append,
        List.map_cons, List.map_nil, List.sum_append, List.sum_singleton] at haccount ⊢
      rw [filter_delivered_of_not_mem _ _ _ hnot]
      omega
  · intro record' lost' hsending
    cases hsending

/-- The record was evicted while it was on its way; the queue stays as it is, and a
delivery makes up for the eviction. -/
theorem Inv.finishEvicted (h : Inv s) (record : PendingRecord α) (lost : ℕ)
    (delivered : Bool) (hway : OnItsWay s record lost) (hplace : s.place < s.gone)
    (hevicted : s.place ∈ s.evicted) : Inv (s.finish record lost delivered) := by
  obtain ⟨hsorted, hdelivered, hvalue⟩ := h.history_finish record lost delivered hway
  have hplaces := places_finish s record lost delivered
  have hfront : s.queue.isFront record.sequence = false := by
    by_contra hin
    have heq := (isFront_iff s h record lost hway).mp (by simpa using hin)
    omega
  have hcounted := hway.counted
  have hle := h.lost_le
  refine ⟨h.capacity_pos, ?_, ?_, h.next_eq, ?_, ?_, h.evicted_nodup, ?_, hsorted, ?_, hdelivered,
    hvalue, ?_, ?_⟩
  · simp only [Sink.finish, AuditQueue.finish, hfront, Bool.false_eq_true, if_false]
    exact h.bounded
  · simp only [Sink.finish, AuditQueue.finish, hfront, Bool.false_eq_true, if_false]
    exact h.length_eq
  · simp only [Sink.finish, AuditQueue.finish, hfront, Bool.false_eq_true, if_false]
    exact h.numbered
  · simp only [Sink.finish, AuditQueue.finish]
    split <;> omega
  · simp only [Sink.finish, hfront, Bool.false_eq_true, if_false]
    exact h.evicted_lt
  · intro n hn
    simp only [Sink.finish, hfront, Bool.false_eq_true, if_false] at hn ⊢
    rcases List.mem_append.mp hn with hold | hnew
    · exact h.finished_lt n hold
    · exact List.mem_singleton.mp hnew ▸ hplace
  · have haccount := h.account
    have hcount := length_filter_delivered s.evicted (s.delivered.map Delivery.place) s.place
      h.evicted_nodup hevicted (h.not_delivered s.place hway.last)
    cases delivered with
    | false => exact haccount
    | true =>
      have hsat := saturatingAdd_eq lost 1 (by omega)
      unfold undelivered at haccount ⊢
      rw [hplaces]
      simp only [Sink.finish, AuditQueue.finish, hfront, Bool.false_eq_true, if_false,
        if_true, hsat,
        List.map_append, List.map_cons, List.map_nil, List.sum_append, List.sum_singleton]
        at haccount ⊢
      omega
  · intro record' lost' hsending
    cases hsending

theorem Inv.finish (h : Inv s) (record : PendingRecord α) (lost : ℕ) (delivered : Bool)
    (hway : OnItsWay s record lost) : Inv (s.finish record lost delivered) := by
  rcases hway.whereabouts with ⟨hplace, -⟩ | ⟨hplace, hevicted⟩
  · exact h.finishFront record lost delivered hway hplace
  · exact h.finishEvicted record lost delivered hway hplace hevicted

theorem Inv.retry (h : Inv s) (record : PendingRecord α) : Inv (s.retry record) :=
  ⟨h.capacity_pos, h.bounded, h.length_eq, h.next_eq, h.numbered, h.lost_le, h.evicted_nodup,
    h.evicted_lt, h.finished_sorted, h.finished_lt, h.delivered_finished, h.delivered_value,
    h.account, fun _ _ hsending => nomatch hsending⟩

theorem Inv.take (h : Inv s) (record : PendingRecord α) (lost : ℕ)
    (hfront : s.queue.front = some (record, lost)) :
    Inv { s with sending := some (record, lost), place := s.gone } := by
  refine ⟨h.capacity_pos, h.bounded, h.length_eq, h.next_eq, h.numbered, h.lost_le, h.evicted_nodup,
    h.evicted_lt, h.finished_sorted, h.finished_lt, h.delivered_finished, h.delivered_value,
    h.account, ?_⟩
  intro record' lost' hsending
  obtain ⟨rfl, rfl⟩ := Prod.mk.inj (Option.some.inj hsending)
  obtain ⟨first, hhead, heq⟩ := Option.map_eq_some_iff.mp hfront
  obtain ⟨rfl, rfl⟩ := Prod.mk.inj heq
  have hzero := h.numbered 0 first (List.head?_eq_getElem? ▸ hhead)
  refine ⟨hzero.1, hzero.2, h.finished_lt, ?_, Or.inl ⟨rfl, hhead⟩⟩
  simp

theorem inv_step (s t : Sink α) (e : Event α) (hguard : Unsaturated s e) (h : Inv s)
    (hstep : step s e = some t) : Inv t := by
  cases e with
  | push value =>
    obtain rfl := Option.some.inj hstep
    by_cases hfull : s.queue.records.length = s.queue.capacity
    · exact h.pushFull value hfull (hguard hfull)
    · exact h.pushRoom value hfull
  | take =>
    simp only [step] at hstep
    split at hstep
    · rename_i snapshot _ hfront
      obtain rfl := Option.some.inj hstep
      exact h.take snapshot.1 snapshot.2 hfront
    · cases hstep
  | outcome outcome =>
    simp only [step] at hstep
    split at hstep
    · rename_i record lost hsending
      obtain rfl := Option.some.inj hstep
      have hway := h.sending record lost hsending
      cases outcome with
      | disabled => exact h.finish record lost false hway
      | udp sent => exact h.finish record lost sent hway
      | sent => exact h.finish record lost true hway
      | permanent => exact h.finish record lost false hway
      | retryable => exact h.retry record
      | timeout => exact h.retry record
    · cases hstep

/-- The end of an attempt takes nothing out of the queue but the record that was sent. -/
theorem outcome_removes_sent (s t : Sink α) (outcome : Outcome) (h : Inv s)
    (hstep : step s (.outcome outcome) = some t) :
    t.queue.records = s.queue.records ∨
      ∃ record lost, s.sending = some (record, lost) ∧ s.place = s.gone ∧
        s.queue.records = record :: t.queue.records := by
  simp only [step] at hstep
  split at hstep
  · rename_i record lost hsending
    obtain rfl := Option.some.inj hstep
    have hway := h.sending record lost hsending
    have hfinish : ∀ delivered, (s.finish record lost delivered).queue.records = s.queue.records ∨
        ∃ record' lost', s.sending = some (record', lost') ∧ s.place = s.gone ∧
          s.queue.records = record' :: (s.finish record lost delivered).queue.records := by
      intro delivered
      rcases hway.whereabouts with ⟨hplace, hhead⟩ | ⟨hplace, -⟩
      · right
        refine ⟨record, lost, hsending, hplace, ?_⟩
        simp only [Sink.finish, AuditQueue.finish,
          (isFront_iff s h record lost hway).mpr hplace, if_true]
        exact List.eq_cons_of_mem_head? hhead
      · left
        have hnot : ¬ s.queue.isFront record.sequence = true := by
          rw [isFront_iff s h record lost hway]
          omega
        simp only [Sink.finish, AuditQueue.finish, hnot]
        rfl
    cases outcome with
    | disabled => exact hfinish false
    | udp sent => exact hfinish sent
    | sent => exact hfinish true
    | permanent => exact hfinish false
    | retryable => exact Or.inl rfl
    | timeout => exact Or.inl rfl
  · cases hstep

theorem capacity_step (s t : Sink α) (e : Event α) (hstep : step s e = some t) :
    t.queue.capacity = s.queue.capacity := by
  cases e with
  | push value =>
    obtain rfl := Option.some.inj hstep
    rfl
  | take =>
    simp only [step] at hstep
    split at hstep
    · obtain rfl := Option.some.inj hstep
      rfl
    · cases hstep
  | outcome outcome =>
    simp only [step] at hstep
    split at hstep
    · obtain rfl := Option.some.inj hstep
      cases outcome <;> rfl
    · cases hstep

/-- In every run in which the counter of lost records is never at its largest value when
one more is evicted, the queue stays within its capacity, the records are finished once each and
delivered in the order of the pushes, an attempt takes out only the record that was sent, and
the losses reported and still to be reported are the evicted records that were not delivered. -/
theorem lost_records_accounted (capacity : ℕ) (es : List (Event α)) (s : Sink α)
    (hmeets : Runs.Meets Unsaturated step (start capacity) es)
    (hexec : Runs.exec step (start capacity) es = some s) :
    s.queue.records.length ≤ max capacity 1 ∧
      s.finished.Pairwise (· < ·) ∧
      (s.delivered.map Delivery.place).Sublist s.finished ∧
      (∀ d ∈ s.delivered, s.pushed[d.place]? = some d.value) ∧
      (∀ outcome t, step s (.outcome outcome) = some t →
        t.queue.records = s.queue.records ∨
          ∃ record lost, s.sending = some (record, lost) ∧ s.place = s.gone ∧
            s.queue.records = record :: t.queue.records) ∧
      (s.delivered.map Delivery.lost).sum + s.queue.lost = (undelivered s).length := by
  have hinv : Inv s :=
    Runs.invariant_of_meets Unsaturated step Inv
      (fun s e t hguard hinv hstep => inv_step s t e hguard hinv hstep) _ s es (inv_start capacity)
      hmeets hexec
  have hcapacity : s.queue.capacity = max capacity 1 := by
    refine Runs.invariant_of_exec step (fun s => s.queue.capacity = max capacity 1) ?_ _ s es rfl
      hexec
    intro s e t hs hstep
    exact (capacity_step s t e hstep).trans hs
  refine ⟨hcapacity ▸ hinv.bounded, hinv.finished_sorted, hinv.delivered_finished,
    hinv.delivered_value, ?_, hinv.account⟩
  intro outcome t hstep
  exact outcome_removes_sent s t outcome hinv hstep

instance (s : Sink α) (e : Event α) : Decidable (Unsaturated s e) :=
  match e with
  | .push _ => inferInstanceAs (Decidable (s.queue.records.length = s.queue.capacity →
      s.queue.lost < u64Max))
  | .take | .outcome _ => isTrue trivial

/-- The first record is evicted on its way and delivered all the same; the second is lost after a
failed attempt, with one more, and the next delivery reports both. -/
def sampleRun : List (Event ℕ) :=
  [.push 10, .push 11, .take, .push 12, .outcome .sent, .take, .outcome .timeout,
    .push 13, .push 14,
    .take, .outcome (.udp true)]

theorem lost_records_accounted_sample :
    ∃ s, Runs.exec step (start 2) sampleRun = some s ∧
      s.delivered = [⟨0, 10, 0⟩, ⟨3, 13, 2⟩] ∧
      (s.delivered.map Delivery.lost).sum + s.queue.lost = (undelivered s).length := by
  have hrun : ∃ s, Runs.exec step (start 2) sampleRun = some s ∧
      s.delivered = [⟨0, 10, 0⟩, ⟨3, 13, 2⟩] :=
    ⟨_, rfl, rfl⟩
  obtain ⟨s, hs, hdelivered⟩ := hrun
  obtain ⟨-, -, -, -, -, haccount⟩ := lost_records_accounted 2 sampleRun s (by decide) hs
  exact ⟨s, hs, hdelivered, haccount⟩

theorem pushed_without_worker (n : ℕ) :
    ∃ s : Sink Unit, Runs.exec step (start 1) (List.replicate (n + 1) (.push ())) = some s ∧
      s.queue.records.length = 1 ∧ s.queue.capacity = 1 ∧ s.queue.lost = min n u64Max ∧
      s.evicted.length = n ∧ s.delivered = [] := by
  induction n with
  | zero => exact ⟨_, rfl, rfl, rfl, (Nat.zero_min _).symm, rfl, rfl⟩
  | succ n ih =>
    obtain ⟨s, hs, hlength, hcapacity, hlost, hevicted, hdelivered⟩ := ih
    have hfull : s.queue.records.length = s.queue.capacity := hlength.trans hcapacity.symm
    refine ⟨s.push (), ?_, ?_, hcapacity, ?_, ?_, hdelivered⟩
    · rw [List.replicate_succ', Runs.exec_append]
      exact ⟨s, hs, rfl⟩
    · simp [Sink.push, AuditQueue.push, hfull, hcapacity]
    · simp only [Sink.push, AuditQueue.push, hfull, if_true, saturatingAdd, hlost]
      generalize u64Max = m
      omega
    · simp [Sink.push, hfull, hevicted]

/-- The counter stays at its largest value while records go on being evicted. -/
theorem lost_counter_saturates :
    ¬ ∀ (capacity : ℕ) (es : List (Event Unit)) (s : Sink Unit),
      Runs.exec step (start capacity) es = some s →
        (s.delivered.map Delivery.lost).sum + s.queue.lost = (undelivered s).length := by
  intro hall
  obtain ⟨s, hs, -, -, hlost, hevicted, hdelivered⟩ := pushed_without_worker u64Size
  have haccount := hall 1 _ s hs
  have hmin : min u64Size u64Max = u64Max := Nat.min_eq_right (Nat.sub_le _ _)
  have hundelivered : (undelivered s).length = u64Size := by
    simp [undelivered, hdelivered, hevicted]
  rw [hdelivered, hlost, hmin, hundelivered] at haccount
  simp only [List.map_nil, List.sum_nil, u64Max, u64Size] at haccount
  omega

end ClantoDesk.AuditSink
