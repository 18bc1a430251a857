import ClantoDesk.AuditQueue
import ClantoDesk.Numbering
import Mathlib.Data.List.Nodup

/-!
The numbers of audit events, src/clanto/audit_queue.rs. The counter of a process is its epoch
and next number in memory; several calls write it to the state file, and a new process
reads it there. A write takes effect or leaves the file as it was, and the process can
end between two calls or inside one. Besides, a run keeps account of how many numbers
each of the two counters is behind.
-/
namespace ClantoDesk.AuditNumbering

open AuditQueue Numbering

variable {β : Type*}

/-- An event with the fields that `stamp` sets; all others are its body. -/
structure Stamped (β : Type*) where
  body : β
  seq : UInt64
  seqEpoch : String
  ts : Int

abbrev StateFile := String × UInt64 × UInt64

def saveState (q : Queue (Stamped β)) : StateFile := (q.epoch, q.nextSeq, q.dropped)

structure Saved where
  state : StateFile
  behind : ℕ

/-- The memory of the running process, the state file, and all that was drawn and stamped. -/
structure Device (β : Type*) where
  queue : Queue (Stamped β)
  behind : ℕ
  file : Option Saved
  drawn : List String
  stamped : List (Stamped β)

def newQueue : Queue (Stamped β) := ⟨false, "", 0, 0, []⟩

def start : Device β := ⟨newQueue, 0, none, [], []⟩

/-- What a call that has to load finds: whether the state file can be read, the records of the
queue file, and the identifier that is drawn if a new epoch is needed. -/
structure Found (β : Type*) where
  readable : Bool
  records : List (Option (Item (Stamped β)))
  newEpoch : String

def Found.disk (found : Found β) (s : Device β) : Disk (Stamped β) :=
  ⟨if found.readable then s.file.map Saved.state else none, found.records⟩

/-- The first part of `load`: what the state file says. -/
def readState (disk : Disk (Stamped β)) (q : Queue (Stamped β)) : Queue (Stamped β) :=
  match disk.state with
  | some (epoch, nextSeq, dropped) =>
    { q with epoch := epoch, nextSeq := nextSeq, dropped := dropped }
  | none => q

/-- What a call does when nothing stops it: the memory it leaves, the state files it writes, in
order, and the event it returns. -/
structure Outcome (β : Type*) where
  queue : Queue (Stamped β)
  behind : ℕ
  writes : List Saved
  event : Option (Stamped β)

def loadCall (s : Device β) (found : Found β) : Outcome β :=
  if s.queue.loaded then ⟨s.queue, s.behind, [], none⟩
  else
    let q := { s.queue with loaded := true }
    let loaded := load (found.disk s) found.newEpoch s.queue
    if (readState (found.disk s) q).epoch.isEmpty then
      ⟨loaded, 0, [⟨saveState (loadState (found.disk s) found.newEpoch q), 0⟩], none⟩
    else ⟨loaded, (s.file.map Saved.behind).getD 0, [], none⟩

inductive Call (β : Type*)
  | stamp (v : β) (now : Int)
  /-- `dropped`, and the look of the worker at the front of the queue. -/
  | load
  /-- A push that found a kind for its url on an enrolled device. -/
  | push (kind : String) (v : Stamped β)
  | droppedReported (count : UInt64)
  | clear (newEpoch : String)

def stampCall (v : β) (now : Int) (out : Outcome β) : Outcome β :=
  let q := { out.queue with nextSeq := out.queue.nextSeq + 1 }
  { queue := q
    behind := out.behind - 1
    writes := out.writes ++ [⟨saveState q, out.behind - 1⟩]
    event := some ⟨v, out.queue.nextSeq, out.queue.epoch, now⟩ }

def pushCall (kind : String) (v : Stamped β) (out : Outcome β) : Outcome β :=
  let q := pushLoaded kind v out.queue
  { out with queue := q, writes := out.writes ++ [⟨saveState q, out.behind⟩] }

def clearCall (newEpoch : String) (out : Outcome β) : Outcome β :=
  let q := clearLoaded newEpoch out.queue
  { out with queue := q, behind := 0, writes := out.writes ++ [⟨saveState q, 0⟩] }

def droppedReportedCall (count : UInt64) (s : Device β) : Outcome β :=
  let q :=
    { s.queue with dropped := if count ≤ s.queue.dropped then s.queue.dropped - count else 0 }
  ⟨q, s.behind, [⟨saveState q, s.behind⟩], none⟩

def call (s : Device β) (found : Found β) : Call β → Outcome β
  | .stamp v now => stampCall v now (loadCall s found)
  | .load => loadCall s found
  | .push kind v => pushCall kind v (loadCall s found)
  | .droppedReported count => droppedReportedCall count s
  | .clear newEpoch => clearCall newEpoch (loadCall s found)

/-- The state file after some writes; `effect i` tells whether the `i`-th took effect. -/
def land (file : Option Saved) : List Saved → (ℕ → Bool) → Option Saved
  | [], _ => file
  | w :: writes, effect =>
    land (if effect 0 then some w else file) writes fun i => effect (i + 1)

def missed (epoch : String) (file : Option Saved) : Option Saved :=
  file.map fun saved =>
    if saved.state.1 = epoch then { saved with behind := saved.behind + 1 } else saved

def fileAfter (file : Option Saved) (out : Outcome β) (effect : ℕ → Bool) : Option Saved :=
  let landed := land file out.writes effect
  if out.event.isSome ∧ effect (out.writes.length - 1) = false then missed out.queue.epoch landed
  else landed

inductive Event (β : Type*)
  | call (c : Call β) (found : Found β) (effect : ℕ → Bool)
  /-- The process ends inside the call, when it has attempted so many of its writes. -/
  | crash (c : Call β) (found : Found β) (effect : ℕ → Bool) (attempted : ℕ)
  /-- The process ends between two calls. -/
  | restart

def Call.ids (found : Found β) : Call β → List String
  | .clear newEpoch => [found.newEpoch, newEpoch]
  | _ => [found.newEpoch]

def Event.ids : Event β → List String
  | .call c found _ => c.ids found
  | .crash c found _ _ => c.ids found
  | .restart => []

def Device.returned (s : Device β) (ids : List String) (out : Outcome β) (effect : ℕ → Bool) :
    Device β :=
  { queue := out.queue
    behind := out.behind
    file := fileAfter s.file out effect
    drawn := s.drawn ++ ids
    stamped := s.stamped ++ out.event.toList }

def Device.ended (s : Device β) (ids : List String) (writes : List Saved) (effect : ℕ → Bool) :
    Device β :=
  { queue := newQueue
    behind := 0
    file := land s.file writes effect
    drawn := s.drawn ++ ids
    stamped := s.stamped }

def step (s : Device β) : Event β → Option (Device β)
  | .call c found effect => some (s.returned (c.ids found) (call s found c) effect)
  | .crash c found effect attempted =>
    some (s.ended (c.ids found) ((call s found c).writes.take attempted) effect)
  | .restart => some (s.ended [] [] fun _ => true)

/-- Every identifier drawn is new: not empty, and none that was drawn before. -/
def FreshIds (s : Device β) (e : Event β) : Prop :=
  e.ids.Nodup ∧ ∀ id ∈ e.ids, id ≠ "" ∧ id ∉ s.drawn

def Call.isStamp : Call β → Bool
  | .stamp _ _ => true
  | _ => false

/-- No stamp finds the counter at its largest value. -/
def BelowMax (s : Device β) : Event β → Prop
  | .call c found _ =>
    c.isStamp = true → (loadCall s found).queue.nextSeq.toNat + 1 < UInt64.size
  | .crash c found _ _ =>
    c.isStamp = true → (loadCall s found).queue.nextSeq.toNat + 1 < UInt64.size
  | .restart => True

/-- The number for an event comes from a counter that is not behind. -/
def UpToDate (s : Device β) : Event β → Prop
  | .call c found _ => c.isStamp = true → (loadCall s found).behind = 0
  | _ => True

instance (s : Device β) (e : Event β) : Decidable (FreshIds s e) :=
  inferInstanceAs (Decidable (_ ∧ _))

instance (s : Device β) : ∀ e, Decidable (BelowMax s e)
  | .call _ _ _ => inferInstanceAs (Decidable (_ → _))
  | .crash _ _ _ _ => inferInstanceAs (Decidable (_ → _))
  | .restart => isTrue trivial

instance (s : Device β) : ∀ e, Decidable (UpToDate s e)
  | .call _ _ _ => inferInstanceAs (Decidable (_ → _))
  | .crash _ _ _ _ => isTrue trivial
  | .restart => isTrue trivial

/-- No two events have the same epoch and number, and within an epoch the numbers increase. -/
def Numbered (s : Device β) : Prop :=
  (s.stamped.map fun v => (v.seqEpoch, v.seq)).Nodup ∧
    s.stamped.Pairwise fun a b => a.seqEpoch = b.seqEpoch → a.seq < b.seq

def Device.given (s : Device β) : List (String × ℕ) :=
  s.stamped.map fun v => (v.seqEpoch, v.seq.toNat)

variable (file : Option Saved) (s : Device β) (c : Call β) (found : Found β)
  (ids drawn : List String) (writes : List Saved) (out : Outcome β) (effect : ℕ → Bool) (v : β)
  (now : Int)

theorem numbered_iff : Numbered s ↔ Ascending s.given := by
  have hpairs : s.given = (s.stamped.map fun v => (v.seqEpoch, v.seq)).map
      fun p => (p.1, p.2.toNat) := by
    rw [List.map_map]
    rfl
  have hascending : Ascending s.given ↔
      s.stamped.Pairwise fun a b => a.seqEpoch = b.seqEpoch → a.seq < b.seq := by
    simp only [Ascending, Device.given, List.pairwise_map, UInt64.lt_iff_toNat_lt]
  constructor
  · rintro ⟨-, hincrease⟩
    exact hascending.mpr hincrease
  · intro h
    have hnodup := h.nodup
    rw [hpairs] at hnodup
    exact ⟨List.Nodup.of_map _ hnodup, hascending.mp h⟩

/-! ### Writes -/

theorem land_cases :
    land file writes effect = file ∨ ∃ w ∈ writes, land file writes effect = some w := by
  induction writes generalizing file effect with
  | nil => exact Or.inl rfl
  | cons w writes ih =>
    rw [land]
    rcases ih (if effect 0 then some w else file) (fun i => effect (i + 1)) with h | ⟨v, hv, h⟩
    · rw [h]
      by_cases heffect : effect 0 = true
      · exact Or.inr ⟨w, List.mem_cons_self, if_pos heffect⟩
      · exact Or.inl (if_neg heffect)
    · exact Or.inr ⟨v, List.mem_cons_of_mem _ hv, h⟩

theorem land_concat (w : Saved) (effect : ℕ → Bool) :
    land file (writes ++ [w]) effect =
      if effect writes.length then some w else land file writes effect := by
  induction writes generalizing file effect with
  | nil => rfl
  | cons v writes ih =>
    rw [List.cons_append, land, land, ih]
    rfl

/-! ### Counters -/

def Counted (given : List (String × ℕ)) (drawn : List String) (saved : Saved) : Prop :=
  saved.state.1 ∈ drawn ∧ Behind given saved.state.1 saved.state.2.1.toNat saved.behind

def Level (a b : Saved) : Prop :=
  a.state.1 = b.state.1 → a.state.2.1.toNat + a.behind = b.state.2.1.toNat + b.behind

def Outcome.current (out : Outcome β) : Saved := ⟨saveState out.queue, out.behind⟩

theorem Counted.mono {given : List (String × ℕ)} {drawn : List String} {saved : Saved}
    (h : Counted given drawn saved) (ids : List String) : Counted given (drawn ++ ids) saved :=
  ⟨List.mem_append_left _ h.1, h.2⟩

/-- The epochs of a run were drawn, and the account of its counters is right. -/
structure Sound (s : Device β) : Prop where
  drawn : "" ∉ s.drawn
  given : ∀ r ∈ s.given, r.1 ∈ s.drawn
  file : ∀ saved, s.file = some saved → saved.state.1 ≠ "" → Counted s.given s.drawn saved
  unloaded : s.queue.loaded = false → s.queue.epoch = ""
  counted : s.queue.loaded = true → Counted s.given s.drawn ⟨saveState s.queue, s.behind⟩
  level : s.queue.loaded = true → ∀ saved, s.file = some saved →
    Level saved ⟨saveState s.queue, s.behind⟩

/-- What a call that returns no event may leave: a counter with a right account, level with
every state file that may be there. -/
structure Settled (s : Device β) (drawn : List String) (out : Outcome β) : Prop where
  event : out.event = none
  loaded : out.queue.loaded = true
  counted : Counted s.given drawn out.current
  level : ∀ saved, s.file = some saved → Level saved out.current
  writes : ∀ w ∈ out.writes, Counted s.given drawn w ∧ Level w out.current

theorem Settled.mono {s : Device β} {drawn : List String} {out : Outcome β}
    (h : Settled s drawn out) (ids : List String) : Settled s (drawn ++ ids) out :=
  ⟨h.event, h.loaded, h.counted.mono ids, h.level,
    fun w hw => ⟨(h.writes w hw).1.mono ids, (h.writes w hw).2⟩⟩

theorem counted_new (h : Sound s) (saved : Saved)
    (hnew : saved.state.1 ∉ s.drawn) (hdrawn : saved.state.1 ∈ drawn) (hbehind : saved.behind = 0) :
    Counted s.given drawn saved := by
  refine ⟨hdrawn, ?_⟩
  rw [hbehind]
  refine behind_new _ _ _ fun r hr heq => hnew ?_
  rw [← heq]
  exact h.given r hr

theorem Sound.file_ne {s : Device β} (h : Sound s) (saved : Saved) (hfile : s.file = some saved)
    (id : String) (hid : id ≠ "") (hnew : id ∉ s.drawn) : saved.state.1 ≠ id := by
  intro heq
  by_cases hempty : saved.state.1 = ""
  · exact hid (heq.symm.trans hempty)
  · exact hnew (heq ▸ (h.file saved hfile hempty).1)

/-! ### Loading -/

theorem foldl_loadRecord_counter (records : List (Option (Item (Stamped β))))
    (q : Queue (Stamped β)) :
    (records.foldl loadRecord q).epoch = q.epoch ∧
      (records.foldl loadRecord q).nextSeq = q.nextSeq := by
  induction records generalizing q with
  | nil => exact ⟨rfl, rfl⟩
  | cons record records ih =>
    rw [List.foldl_cons]
    obtain ⟨hepoch, hnext⟩ := ih (loadRecord q record)
    rw [hepoch, hnext]
    cases record with
    | none => exact ⟨rfl, rfl⟩
    | some item =>
      simp only [loadRecord]
      split <;> exact ⟨rfl, rfl⟩

theorem loadState_eq (disk : Disk (Stamped β)) (newEpoch : String) (q : Queue (Stamped β)) :
    loadState disk newEpoch q =
      if (readState disk q).epoch.isEmpty then
        { readState disk q with epoch := newEpoch, nextSeq := 0 }
      else readState disk q := rfl

/-- What `load` leaves as counter when the process has none yet. -/
theorem load_counter (disk : Disk (Stamped β)) (newEpoch : String) (q : Queue (Stamped β))
    (hloaded : q.loaded = false) :
    (load disk newEpoch q).epoch =
        (loadState disk newEpoch { q with loaded := true }).epoch ∧
      (load disk newEpoch q).nextSeq =
        (loadState disk newEpoch { q with loaded := true }).nextSeq := by
  rw [load, if_neg (by rw [hloaded]; exact Bool.false_ne_true)]
  exact foldl_loadRecord_counter _ _

theorem readState_file (q : Queue (Stamped β))
    (hq : q.epoch = "") (hne : (readState (found.disk s) q).epoch ≠ "") :
    ∃ saved, s.file = some saved ∧ (readState (found.disk s) q).epoch = saved.state.1 ∧
      (readState (found.disk s) q).nextSeq = saved.state.2.1 := by
  cases hstate : (found.disk s).state with
  | none =>
    simp only [readState, hstate] at hne
    exact absurd hq hne
  | some state =>
    have hfile : s.file.map Saved.state = some state := by
      simp only [Found.disk] at hstate
      split at hstate
      · exact hstate
      · cases hstate
    obtain ⟨saved, hsaved, rfl⟩ := Option.map_eq_some_iff.mp hfile
    exact ⟨saved, hsaved, by simp only [readState, hstate], by simp only [readState, hstate]⟩

theorem settled_load (h : Sound s) (hid : found.newEpoch ≠ "") (hnew : found.newEpoch ∉ s.drawn) :
    Settled s (s.drawn ++ [found.newEpoch]) (loadCall s found) := by
  unfold loadCall
  by_cases hloaded : s.queue.loaded = true
  · rw [if_pos hloaded]
    exact ⟨rfl, hloaded, (h.counted hloaded).mono _, h.level hloaded,
      fun w hw => absurd hw List.not_mem_nil⟩
  · rw [if_neg hloaded]
    have hfalse : s.queue.loaded = false := by simpa using hloaded
    obtain ⟨hepoch, hnext⟩ := load_counter (found.disk s) found.newEpoch s.queue hfalse
    rw [loadState_eq] at hepoch hnext
    simp only
    by_cases hempty :
        (readState (found.disk s) { s.queue with loaded := true }).epoch.isEmpty = true
    · -- a new epoch, and one write that starts it
      rw [if_pos hempty] at hepoch hnext ⊢
      have hcounted : ∀ saved : Saved, saved.state.1 = found.newEpoch → saved.behind = 0 →
          Counted s.given (s.drawn ++ [found.newEpoch]) saved := by
        intro saved heq hbehind
        exact counted_new s _ h saved (heq ▸ hnew) (by simp [heq]) hbehind
      refine ⟨rfl, load_loaded _ _ _, hcounted _ hepoch rfl, ?_, ?_⟩
      · intro saved hfile heq
        exact absurd (heq.trans hepoch) (h.file_ne saved hfile _ hid hnew)
      · intro w hw
        rw [List.mem_singleton.mp hw, loadState_eq, if_pos hempty]
        refine ⟨hcounted _ rfl rfl, fun _ => ?_⟩
        show (0 : UInt64).toNat + 0 = (load (found.disk s) found.newEpoch s.queue).nextSeq.toNat + 0
        rw [hnext]
    · -- the counter of the state file
      rw [if_neg hempty] at hepoch hnext ⊢
      have hne : (readState (found.disk s) { s.queue with loaded := true }).epoch ≠ "" := by
        intro heq
        exact hempty (by rw [heq]; rfl)
      obtain ⟨saved, hfile, hsavedEpoch, hsavedNext⟩ :=
        readState_file s found { s.queue with loaded := true } (h.unloaded hfalse) hne
      rw [hsavedEpoch] at hepoch hne
      rw [hsavedNext] at hnext
      rw [hfile]
      have hcounted := h.file saved hfile hne
      refine ⟨rfl, load_loaded _ _ _, ?_, ?_, fun w hw => absurd hw List.not_mem_nil⟩
      · show Counted _ _ ⟨(_, _, _), saved.behind⟩
        rw [hepoch, hnext]
        exact hcounted.mono _
      · intro saved' hsaved' _
        obtain rfl := Option.some.inj (hfile.symm.trans hsaved')
        show _ = UInt64.toNat (load (found.disk s) found.newEpoch s.queue).nextSeq + saved.behind
        rw [hnext]

/-! ### The calls -/

theorem settled_push (kind : String)
    (v : Stamped β) (h : Settled s drawn out) : Settled s drawn (pushCall kind v out) := by
  refine ⟨h.event, h.loaded, h.counted, h.level, fun w hw => ?_⟩
  rcases List.mem_append.mp hw with hw | hw
  · exact h.writes w hw
  · rw [List.mem_singleton.mp hw]
    exact ⟨h.counted, fun _ => rfl⟩

theorem settled_clear (newEpoch : String)
    (hsound : Sound s) (h : Settled s drawn out) (hid : newEpoch ≠ "") (hold : newEpoch ∉ s.drawn)
    (hnew : newEpoch ∉ drawn) : Settled s (drawn ++ [newEpoch]) (clearCall newEpoch out) := by
  have hcounted : ∀ dropped, Counted s.given (drawn ++ [newEpoch]) ⟨(newEpoch, 0, dropped), 0⟩ :=
    fun dropped => counted_new s _ hsound _ hold
      (List.mem_append_right _ (List.mem_singleton_self _)) rfl
  refine ⟨h.event, h.loaded, hcounted _, ?_, fun w hw => ?_⟩
  · intro saved hfile heq
    exact absurd heq (hsound.file_ne saved hfile newEpoch hid hold)
  · rcases List.mem_append.mp hw with hw | hw
    · obtain ⟨hw, -⟩ := h.writes w hw
      refine ⟨hw.mono _, fun heq => absurd ?_ hnew⟩
      have hepoch : w.state.1 = newEpoch := heq
      exact hepoch ▸ hw.1
    · rw [List.mem_singleton.mp hw]
      exact ⟨hcounted _, fun _ => rfl⟩

theorem settled_droppedReported (count : UInt64) (h : Sound s)
    (hloaded : s.queue.loaded = true) : Settled s s.drawn (droppedReportedCall count s) := by
  refine ⟨rfl, hloaded, h.counted hloaded, h.level hloaded, fun w hw => ?_⟩
  rw [List.mem_singleton.mp hw]
  exact ⟨h.counted hloaded, fun _ => rfl⟩

/-- A process that has ended leaves a right account if all it wrote had one. -/
theorem sound_ended (h : Sound s) (hids : "" ∉ ids)
    (hwrites : ∀ w ∈ writes, w.state.1 ≠ "" → Counted s.given (s.drawn ++ ids) w) :
    Sound (s.ended ids writes effect) := by
  refine ⟨?_, ?_, ?_, fun _ => rfl, ?_, ?_⟩
  · simp [Device.ended, h.drawn, hids]
  · intro r hr
    exact List.mem_append_left _ (h.given r hr)
  · intro saved hfile hne
    have hland : land s.file writes effect = some saved := hfile
    rcases land_cases s.file writes effect with heq | ⟨w, hw, heq⟩
    · exact (h.file saved (heq.symm.trans hland) hne).mono ids
    · obtain rfl := Option.some.inj (heq.symm.trans hland)
      exact hwrites w hw hne
  · intro hloaded
    exact absurd hloaded Bool.false_ne_true
  · intro hloaded
    exact absurd hloaded Bool.false_ne_true

theorem returned_given
    (hevent : out.event = none) : (s.returned ids out effect).given = s.given := by
  simp [Device.returned, Device.given, hevent]

theorem fileAfter_of_none
    (hevent : out.event = none) : fileAfter file out effect = land file out.writes effect := by
  simp [fileAfter, hevent]

/-- A call that returns no event leaves a right account. -/
theorem sound_settled (h : Sound s) (hids : "" ∉ ids) (hout : Settled s (s.drawn ++ ids) out) :
    Sound (s.returned ids out effect) := by
  have hgiven := returned_given s ids out effect hout.event
  have hfile := fileAfter_of_none s.file out effect hout.event
  refine ⟨?_, ?_, ?_, ?_, ?_, ?_⟩
  · simp [Device.returned, h.drawn, hids]
  · intro r hr
    rw [hgiven] at hr
    exact List.mem_append_left _ (h.given r hr)
  · intro saved hsaved hne
    have hland := hfile.symm.trans hsaved
    rw [hgiven]
    rcases land_cases s.file out.writes effect with heq | ⟨w, hw, heq⟩
    · exact (h.file saved (heq.symm.trans hland) hne).mono ids
    · obtain rfl := Option.some.inj (heq.symm.trans hland)
      exact (hout.writes w hw).1
  · intro hloaded
    have hfalse : out.queue.loaded = false := hloaded
    rw [hout.loaded] at hfalse
    cases hfalse
  · intro _
    rw [hgiven]
    exact hout.counted
  · intro _ saved hsaved
    have hland := hfile.symm.trans hsaved
    rcases land_cases s.file out.writes effect with heq | ⟨w, hw, heq⟩
    · exact hout.level saved (heq.symm.trans hland)
    · obtain rfl := Option.some.inj (heq.symm.trans hland)
      exact (hout.writes w hw).2

/-- Before the queue is loaded, `dropped_reported` leaves a state file without an epoch. -/
theorem sound_droppedReported (count : UInt64) (effect : ℕ → Bool) (h : Sound s) (hids : "" ∉ ids) :
    Sound (s.returned ids (droppedReportedCall count s) effect) := by
  by_cases hloaded : s.queue.loaded = true
  · exact sound_settled s ids _ effect h hids ((settled_droppedReported s count h hloaded).mono ids)
  · have hfalse : s.queue.loaded = false := by simpa using hloaded
    have hgiven := returned_given s ids (droppedReportedCall count s) effect rfl
    refine ⟨?_, ?_, ?_, ?_, ?_, ?_⟩
    · simp [Device.returned, h.drawn, hids]
    · intro r hr
      rw [hgiven] at hr
      exact List.mem_append_left _ (h.given r hr)
    · intro saved hsaved hne
      rw [hgiven]
      have hland := (fileAfter_of_none s.file (droppedReportedCall count s) effect rfl).symm.trans
        hsaved
      rcases land_cases s.file (droppedReportedCall count s).writes effect with heq | ⟨w, hw, heq⟩
      · exact (h.file saved (heq.symm.trans hland) hne).mono ids
      · obtain rfl := Option.some.inj (heq.symm.trans hland)
        rw [List.mem_singleton.mp hw] at hne
        exact absurd (h.unloaded hfalse) hne
    · intro _
      exact h.unloaded hfalse
    · intro htrue
      exact absurd htrue hloaded
    · intro htrue
      exact absurd htrue hloaded

/-! ### Stamps -/

theorem stampCall_given :
    (s.returned ids (stampCall v now out) effect).given =
      s.given ++ [(out.queue.epoch, out.queue.nextSeq.toNat)] := by
  simp [Device.returned, Device.given, stampCall]

/-- A stamp keeps the order exactly if its counter is not behind. -/
theorem stamp_numbered_iff (hout : Settled s drawn out) (hnumbered : Ascending s.given) :
    Ascending (s.returned ids (stampCall v now out) effect).given ↔ out.behind = 0 := by
  rw [stampCall_given]
  exact hout.counted.2.ascending_iff hnumbered

theorem stampCall_next (hbelow : out.queue.nextSeq.toNat + 1 < UInt64.size) :
    (stampCall v now out).queue.nextSeq.toNat = out.queue.nextSeq.toNat + 1 := by
  show (out.queue.nextSeq + 1).toNat = _
  rw [UInt64.toNat_add]
  exact Nat.mod_eq_of_lt hbelow

theorem stamp_file :
    fileAfter s.file (stampCall v now out) effect = some (stampCall v now out).current ∨
      fileAfter s.file (stampCall v now out) effect =
        missed out.queue.epoch (land s.file out.writes effect) := by
  have hwrites : (stampCall v now out).writes =
      out.writes ++ [(stampCall v now out).current] := rfl
  have hlength : (stampCall v now out).writes.length - 1 = out.writes.length := by
    simp [hwrites]
  unfold fileAfter
  rw [hlength, hwrites, land_concat]
  by_cases heffect : effect out.writes.length = true
  · exact Or.inl (by simp [heffect])
  · right
    have hfalse : effect out.writes.length = false := by simpa using heffect
    simp [hfalse, stampCall]

theorem counted_missed (given : List (String × ℕ)) (drawn : List String) (file : Option Saved)
    (current saved : Saved) (hcurrent : current.behind = 0)
    (hfile : ∀ old, file = some old →
      (old.state.1 ≠ "" → Counted given drawn old) ∧ Level old current)
    (hsaved : missed current.state.1 file = some saved) :
    (saved.state.1 ≠ "" →
      Counted (given ++ [(current.state.1, current.state.2.1.toNat)]) drawn saved) ∧
    (saved.state.1 = current.state.1 →
      saved.state.2.1.toNat + saved.behind = current.state.2.1.toNat + 1) := by
  obtain ⟨old, hold, hmissed⟩ := Option.map_eq_some_iff.mp hsaved
  obtain ⟨hcounted, hlevel⟩ := hfile old hold
  by_cases hepoch : old.state.1 = current.state.1
  · rw [if_pos hepoch] at hmissed
    subst hmissed
    have hnext := hlevel hepoch
    rw [hcurrent] at hnext
    refine ⟨fun hne => ?_, fun _ => ?_⟩
    · obtain ⟨hdrawn, hbehind⟩ := hcounted hne
      refine ⟨hdrawn, ?_⟩
      rw [← hepoch]
      exact hbehind.miss _ hnext
    · show old.state.2.1.toNat + (old.behind + 1) = _
      omega
  · rw [if_neg hepoch] at hmissed
    subst hmissed
    refine ⟨fun hne => ?_, fun heq => absurd heq hepoch⟩
    obtain ⟨hdrawn, hbehind⟩ := hcounted hne
    exact ⟨hdrawn, hbehind.other _ _ fun heq => hepoch heq.symm⟩

theorem sound_stamp (h : Sound s) (hids : "" ∉ ids) (hout : Settled s (s.drawn ++ ids) out)
    (hbelow : out.queue.nextSeq.toNat + 1 < UInt64.size) (hbehind : out.behind = 0) :
    Sound (s.returned ids (stampCall v now out) effect) := by
  have hgiven := stampCall_given s ids out effect v now
  have hnext := stampCall_next out v now hbelow
  have hzero : (stampCall v now out).behind = 0 := by simp [stampCall, hbehind]
  have hcounted : Counted (s.given ++ [(out.queue.epoch, out.queue.nextSeq.toNat)]) (s.drawn ++ ids)
      (stampCall v now out).current := by
    refine ⟨hout.counted.1, ?_⟩
    have hgave := hout.counted.2
    rw [show out.current.behind = 0 from hbehind] at hgave
    show Behind _ out.queue.epoch (stampCall v now out).queue.nextSeq.toNat
      (stampCall v now out).behind
    rw [hnext, hzero]
    exact hgave.give
  have hlanded : ∀ old, land s.file out.writes effect = some old →
      (old.state.1 ≠ "" → Counted s.given (s.drawn ++ ids) old) ∧ Level old out.current := by
    intro old hold
    rcases land_cases s.file out.writes effect with heq | ⟨w, hw, heq⟩
    · have hfile := heq.symm.trans hold
      exact ⟨fun hne => (h.file old hfile hne).mono ids, hout.level old hfile⟩
    · obtain rfl := Option.some.inj (heq.symm.trans hold)
      exact ⟨fun _ => (hout.writes w hw).1, (hout.writes w hw).2⟩
  have hfile : ∀ saved, (s.returned ids (stampCall v now out) effect).file = some saved →
      (saved.state.1 ≠ "" →
        Counted (s.given ++ [(out.queue.epoch, out.queue.nextSeq.toNat)]) (s.drawn ++ ids) saved) ∧
      Level saved (stampCall v now out).current := by
    intro saved hsaved
    rcases stamp_file s out effect v now with heq | heq
    · obtain rfl := Option.some.inj (heq.symm.trans hsaved)
      exact ⟨fun _ => hcounted, fun _ => rfl⟩
    · obtain ⟨hmissed, hlevel⟩ := counted_missed s.given (s.drawn ++ ids) _ out.current saved
        hbehind hlanded (heq.symm.trans hsaved)
      refine ⟨hmissed, fun hepoch => ?_⟩
      rw [hlevel hepoch]
      show out.queue.nextSeq.toNat + 1 =
        (stampCall v now out).queue.nextSeq.toNat + (stampCall v now out).behind
      rw [hnext, hzero]
  refine ⟨?_, ?_, ?_, ?_, ?_, ?_⟩
  · simp [Device.returned, h.drawn, hids]
  · intro r hr
    rw [hgiven] at hr
    rcases List.mem_append.mp hr with hr | hr
    · exact List.mem_append_left _ (h.given r hr)
    · rw [List.mem_singleton.mp hr]
      exact hout.counted.1
  · intro saved hsaved
    rw [hgiven]
    exact (hfile saved hsaved).1
  · intro hloaded
    have hfalse : out.queue.loaded = false := hloaded
    rw [hout.loaded] at hfalse
    cases hfalse
  · intro _
    rw [hgiven]
    exact hcounted
  · intro _ saved hsaved
    exact (hfile saved hsaved).2

/-- The writes of a stamp that is cut short; the number it took was not given out. -/
theorem counted_stampCall
    (hout : Settled s drawn out) (hbelow : out.queue.nextSeq.toNat + 1 < UInt64.size) :
    ∀ w ∈ (stampCall v now out).writes, Counted s.given drawn w := by
  intro w hw
  rcases List.mem_append.mp hw with hw | hw
  · exact (hout.writes w hw).1
  · rw [List.mem_singleton.mp hw]
    refine ⟨hout.counted.1, ?_⟩
    show Behind _ out.queue.epoch (stampCall v now out).queue.nextSeq.toNat (out.behind - 1)
    rw [stampCall_next out v now hbelow]
    exact hout.counted.2.skip

/-! ### Runs -/

theorem settled_loadCall (h : Sound s) (hids : ∀ id ∈ c.ids found, id ≠ "" ∧ id ∉ s.drawn) :
    Settled s (s.drawn ++ [found.newEpoch]) (loadCall s found) := by
  have hmem : found.newEpoch ∈ c.ids found := by
    cases c <;> exact List.mem_cons_self
  obtain ⟨hid, hnew⟩ := hids found.newEpoch hmem
  exact settled_load s found h hid hnew

/-- Every call but `stamp` and `dropped_reported`, which are argued about on their own. -/
theorem call_cases (h : Sound s)
    (hnodup : (c.ids found).Nodup) (hids : ∀ id ∈ c.ids found, id ≠ "" ∧ id ∉ s.drawn) :
    (∃ v now, c = .stamp v now) ∨ (∃ count, c = .droppedReported count) ∨
      Settled s (s.drawn ++ c.ids found) (call s found c) := by
  have hload := settled_loadCall s c found h hids
  cases c with
  | stamp v now => exact Or.inl ⟨v, now, rfl⟩
  | load => exact Or.inr (Or.inr hload)
  | push kind v => exact Or.inr (Or.inr (settled_push s _ _ kind v hload))
  | droppedReported count => exact Or.inr (Or.inl ⟨count, rfl⟩)
  | clear newEpoch =>
    obtain ⟨hempty, hold⟩ := hids newEpoch (List.mem_cons_of_mem _ List.mem_cons_self)
    have hne : found.newEpoch ≠ newEpoch := by simpa [Call.ids] using hnodup
    have hdrawn : newEpoch ∉ s.drawn ++ [found.newEpoch] := by
      simp [hold, Ne.symm hne]
    have hclear := settled_clear s _ _ newEpoch h hload hempty hold hdrawn
    rw [List.append_assoc] at hclear
    exact Or.inr (Or.inr hclear)

theorem sound_call (h : Sound s)
    (hfresh : FreshIds s (.call c found effect)) (hbelow : BelowMax s (.call c found effect))
    (hguard : UpToDate s (.call c found effect)) :
    Sound (s.returned (c.ids found) (call s found c) effect) := by
  obtain ⟨hnodup, hids⟩ := hfresh
  have hempty : "" ∉ c.ids found := fun hmem => (hids "" hmem).1 rfl
  rcases call_cases s c found h hnodup hids with ⟨v, now, rfl⟩ | ⟨count, rfl⟩ | hsettled
  · have hload := settled_loadCall s (.stamp v now) found h hids
    exact sound_stamp s _ _ effect v now h hempty hload (hbelow rfl) (hguard rfl)
  · exact sound_droppedReported s _ count effect h hempty
  · exact sound_settled s _ _ effect h hempty hsettled

/-- Wherever a call is cut short, the writes it made have a right account. -/
theorem sound_crash
    (attempted : ℕ) (h : Sound s) (hfresh : FreshIds s (.crash c found effect attempted))
    (hbelow : BelowMax s (.crash c found effect attempted)) :
    Sound (s.ended (c.ids found) ((call s found c).writes.take attempted) effect) := by
  obtain ⟨hnodup, hids⟩ := hfresh
  have hempty : "" ∉ c.ids found := fun hmem => (hids "" hmem).1 rfl
  refine sound_ended s _ _ effect h hempty fun w hw hne => ?_
  have hw := List.mem_of_mem_take hw
  rcases call_cases s c found h hnodup hids with ⟨v, now, rfl⟩ | ⟨count, rfl⟩ | hsettled
  · have hload := settled_loadCall s (.stamp v now) found h hids
    exact counted_stampCall s _ _ v now hload (hbelow rfl) w hw
  · rw [List.mem_singleton.mp hw] at hne ⊢
    by_cases hloaded : s.queue.loaded = true
    · exact (h.counted hloaded).mono _
    · exact absurd (h.unloaded (by simpa using hloaded)) hne
  · exact (hsettled.writes w hw).1

theorem sound_start : Sound (start : Device β) := by
  refine ⟨List.not_mem_nil, fun r hr => absurd hr List.not_mem_nil, ?_, fun _ => rfl, ?_, ?_⟩
  · intro saved hfile
    cases hfile
  · intro hloaded
    cases hloaded
  · intro hloaded
    cases hloaded

/-- A step gives its number in order exactly if the counter it takes it from is not behind. -/
theorem numbered_step (t : Device β) (e : Event β) (hfresh : FreshIds s e) (h : Sound s)
    (hs : Numbered s) (hstep : step s e = some t) : Numbered t ↔ UpToDate s e := by
  rw [numbered_iff] at hs ⊢
  cases e with
  | call c found effect =>
    obtain rfl := Option.some.inj hstep
    obtain ⟨hnodup, hids⟩ := hfresh
    rcases call_cases s c found h hnodup hids with ⟨v, now, rfl⟩ | ⟨count, rfl⟩ | hsettled
    · have hload := settled_loadCall s (.stamp v now) found h hids
      have hiff := stamp_numbered_iff s [found.newEpoch] _ _ effect v now hload hs
      exact hiff.trans ⟨fun hbehind _ => hbehind, fun hguard => hguard rfl⟩
    · rw [returned_given s _ _ effect rfl]
      exact iff_of_true hs fun hstamp => absurd hstamp Bool.false_ne_true
    · rw [returned_given s _ _ effect hsettled.event]
      refine iff_of_true hs fun hstamp => ?_
      have hevent := hsettled.event
      cases c with
      | stamp v now => cases hevent
      | _ => cases hstamp
  | crash c found effect attempted =>
    obtain rfl := Option.some.inj hstep
    exact iff_of_true hs trivial
  | restart =>
    obtain rfl := Option.some.inj hstep
    exact iff_of_true hs trivial

theorem sound_step (t : Device β) (e : Event β) (hfresh : FreshIds s e) (hbelow : BelowMax s e)
    (hguard : UpToDate s e) (h : Sound s) (hstep : step s e = some t) : Sound t := by
  cases e with
  | call c found effect =>
    obtain rfl := Option.some.inj hstep
    exact sound_call s c found effect h hfresh hbelow hguard
  | crash c found effect attempted =>
    obtain rfl := Option.some.inj hstep
    exact sound_crash s c found effect attempted h hfresh hbelow
  | restart =>
    obtain rfl := Option.some.inj hstep
    exact sound_ended s [] [] _ h List.not_mem_nil fun w hw => absurd hw List.not_mem_nil

theorem numbered_start : Numbered (start : Device β) :=
  ⟨List.nodup_nil, List.Pairwise.nil⟩

/-- Over any run of calls, crashes and restarts, with any writes lost: all events are numbered in
order, and none like another, exactly if every stamp takes its number from a counter that
is not behind. -/
theorem numbered_iff_upToDate (es : List (Event β))
    (hassumed : Runs.Meets (fun s e => FreshIds s e ∧ BelowMax s e) step start es) :
    Runs.Along Numbered step start es ↔ Runs.Meets UpToDate step start es := by
  refine Runs.along_iff_meets_of_meets (fun s e => FreshIds s e ∧ BelowMax s e) UpToDate step
    Numbered Sound ?_ ?_ ?_ start es hassumed sound_start numbered_start
  · rintro s e t ⟨hfresh, hbelow⟩ h hs ht hstep
    exact sound_step s t e hfresh hbelow ((numbered_step s t e hfresh h hs hstep).mp ht) h hstep
  · rintro s e t ⟨hfresh, -⟩ h hs hstep
    exact numbered_step s t e hfresh h hs hstep
  · intro s e hnone
    cases e <;> cases hnone

/-! ### No lost stamp -/

/-- A stamp in a process that draws this identifier if it needs one; all writes take effect,
or none does. -/
def sampleStamp (id : String) (effect : Bool) : Event Unit :=
  .call (.stamp () 1790000000000) ⟨true, [], id⟩ fun _ => effect

/-- A stamp whose write is lost does no harm if the next one is written. -/
theorem numbered_iff_upToDate_sample :
    Runs.Along Numbered step start
      [sampleStamp "0b4f1c2e-9d3a-4e57-8a61-2f7c5d9e0a13" true,
        sampleStamp "5a7e3d90-16bc-4f28-b0d4-c8e91f2a6b74" false,
        sampleStamp "c2d8f6b1-4e05-4a9c-9f37-60b1a3e7d582" true, .restart,
        sampleStamp "e91b07a4-d26f-4c83-a5e8-7b3f4c0d1962" true] :=
  (numbered_iff_upToDate _ (by decide)).mpr (by decide)

/-- The second stamp is not written and the process ends: the next one has the same number. -/
theorem reused_number :
    ∃ es s, Runs.Meets (fun (s : Device Unit) e => FreshIds s e ∧ BelowMax s e) step start es ∧
      Runs.exec step start es = some s ∧
      s.stamped.map (fun v => (v.seqEpoch, v.seq)) =
        [("0b4f1c2e-9d3a-4e57-8a61-2f7c5d9e0a13", 0), ("0b4f1c2e-9d3a-4e57-8a61-2f7c5d9e0a13", 1),
          ("0b4f1c2e-9d3a-4e57-8a61-2f7c5d9e0a13", 1)] ∧
      ¬ Numbered s := by
  refine ⟨[sampleStamp "0b4f1c2e-9d3a-4e57-8a61-2f7c5d9e0a13" true,
      sampleStamp "5a7e3d90-16bc-4f28-b0d4-c8e91f2a6b74" false, .restart,
      sampleStamp "c2d8f6b1-4e05-4a9c-9f37-60b1a3e7d582" true], _, by decide, rfl,
    by decide, ?_⟩
  rintro ⟨hnodup, -⟩
  exact absurd hnodup (by decide)

end ClantoDesk.AuditNumbering
