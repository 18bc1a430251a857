import ClantoDesk.Runs
import ClantoDesk.Text

/-!
The queue of audit events that could not be delivered, src/clanto/audit_queue.rs.
`flushOnce` copies the front event, posts it without the lock and removes the
front once the server has answered, while other threads push and clear.
The body of an event is never looked at, so its type is arbitrary. A run keeps
account of every event: what was evicted, cleared, or removed after an answer.
-/
namespace ClantoDesk.AuditQueue

variable {β : Type*}

def maxQueued : ℕ := 10000

def kinds : List String := ["conn", "file", "alarm"]

abbrev Item (β : Type*) := String × β

structure Queue (β : Type*) where
  loaded : Bool
  epoch : String
  nextSeq : UInt64
  dropped : UInt64
  items : List (Item β)
  deriving DecidableEq

/-- The files of the queue as they can be read: the state file if it parses, and the records
of the queue file, `none` for one that cannot be decrypted or parsed. -/
structure Disk (β : Type*) where
  state : Option (String × UInt64 × UInt64)
  records : List (Option (Item β))

def loadRecord (q : Queue β) : Option (Item β) → Queue β
  | some item => if item.1 ∈ kinds then { q with items := q.items ++ [item] } else q
  | none => { q with dropped := q.dropped + 1 }

def loadState (disk : Disk β) (newEpoch : String) (q : Queue β) : Queue β :=
  let q :=
    match disk.state with
    | some (epoch, nextSeq, dropped) =>
      { q with epoch := epoch, nextSeq := nextSeq, dropped := dropped }
    | none => q
  if q.epoch.isEmpty then { q with epoch := newEpoch, nextSeq := 0 } else q

def load (disk : Disk β) (newEpoch : String) (q : Queue β) : Queue β :=
  if q.loaded then q
  else disk.records.foldl loadRecord (loadState disk newEpoch { q with loaded := true })

/-- `urlPath` is the path of a URL, if it parses. -/
def kindOf (urlPath : String → Option String) (url : String) : Option String :=
  (urlPath url).bind fun path =>
    kinds.find? fun k => ("/api/audit/" ++ k).toList.isSuffixOf path.toList

def evictFull : List (Item β) → UInt64 → List (Item β) × UInt64
  | [], dropped => ([], dropped)
  | item :: items, dropped =>
    if maxQueued ≤ (item :: items).length then evictFull items (dropped + 1)
    else (item :: items, dropped)

def pushLoaded (kind : String) (v : β) (q : Queue β) : Queue β :=
  let (items, dropped) := evictFull q.items q.dropped
  { q with items := items ++ [(kind, v)], dropped := dropped }

def clearLoaded (newEpoch : String) (q : Queue β) : Queue β :=
  { q with items := [], dropped := 0, epoch := newEpoch, nextSeq := 0 }

inductive Verdict
  | delivered | rejected
  deriving DecidableEq

/-- What an answer with this status and body means for the posted event; `none` is a
failure that is tried again later. -/
def verdictOf (status : ℕ) (rsp : String) : Option Verdict :=
  if (200 ≤ status ∧ status < 300) ∧ Text.trim rsp.toList = [] then some .delivered
  else if (400 ≤ status ∧ status < 500) ∧ status ≠ 401 ∧ status ≠ 408 ∧ status ≠ 429 then
    some .rejected
  else none

/-- Where `flushOnce` is: at the top of its loop, or past the copy of an event. -/
inductive Phase (β : Type*)
  | idle
  | posting (item : Item β)
  | answered (item : Item β) (verdict : Verdict)
  deriving DecidableEq

def Phase.inFlight : Phase β → Bool
  | .idle => false
  | _ => true

/-- One removal by `flushOnce`: the event posted, the answer to it and the event that was
taken from the queue, if there was one. -/
structure Settled (β : Type*) where
  posted : Item β
  verdict : Verdict
  removed : Option (Item β)
  deriving DecidableEq

/-- The queue, the worker and the account of all events that entered the queue.
`cleared` and `evicted` are the events lost to these causes, `evictedNow` those evicted since
the count was last reset to `base`, and `stale` says that the queue was cleared after the
worker copied its event. -/
structure State (β : Type*) where
  queue : Queue β
  phase : Phase β
  entered : List (Item β)
  settled : List (Settled β)
  evicted : List (Item β)
  cleared : List (Item β)
  evictedNow : ℕ
  base : UInt64
  stale : Bool
  deriving DecidableEq

inductive Event (β : Type*)
  | push (url : String) (v : β) (enrolled : Bool)
  | clear (newEpoch : String)
  /-- The worker has an api address, takes the lock and copies the front event. -/
  | copy
  /-- The answer of the server, or `none` when the request failed. -/
  | answer (result : Option (ℕ × String))
  /-- The worker takes the lock again and removes the front. -/
  | remove

def loadAccounted (disk : Disk β) (newEpoch : String) (s : State β) : State β :=
  let queue := load disk newEpoch s.queue
  if s.queue.loaded then s
  else { s with queue := queue, entered := s.entered ++ queue.items, base := queue.dropped }

def pushAccounted (kind : String) (v : β) (s : State β) : State β :=
  let queue := pushLoaded kind v s.queue
  let count := s.queue.items.length + 1 - queue.items.length
  { s with
    queue := queue
    entered := s.entered ++ [(kind, v)]
    evicted := s.evicted ++ s.queue.items.take count
    evictedNow := s.evictedNow + count }

def clearAccounted (newEpoch : String) (s : State β) : State β :=
  { s with
    queue := clearLoaded newEpoch s.queue
    cleared := s.cleared ++ s.queue.items
    evictedNow := 0
    base := 0
    stale := s.phase.inFlight }

def copyAccounted (s : State β) : State β :=
  match s.queue.items with
  | [] => s
  | item :: _ => { s with phase := .posting item, stale := false }

def removeAccounted (item : Item β) (verdict : Verdict) (s : State β) : State β :=
  { s with
    queue := { s.queue with items := s.queue.items.tail }
    settled := s.settled ++ [⟨item, verdict, s.queue.items.head?⟩]
    phase := .idle }

/-- `disk` is what the files hold when the process starts, `newEpoch` the identifier drawn if
the state file has none. -/
def step (urlPath : String → Option String) (disk : Disk β) (newEpoch : String) (s : State β) :
    Event β → Option (State β)
  | .push url v enrolled =>
    match kindOf urlPath url with
    | none => some s
    | some kind =>
      if enrolled then some (pushAccounted kind v (loadAccounted disk newEpoch s)) else some s
  | .clear epoch => some (clearAccounted epoch (loadAccounted disk newEpoch s))
  | .copy =>
    match s.phase with
    | .idle => some (copyAccounted (loadAccounted disk newEpoch s))
    | _ => none
  | .answer result =>
    match s.phase with
    | .posting item =>
      match result.bind fun r => verdictOf r.1 r.2 with
      | some verdict => some { s with phase := .answered item verdict }
      | none => some { s with phase := .idle }
    | _ => none
  | .remove =>
    match s.phase with
    | .answered item verdict => some (removeAccounted item verdict s)
    | _ => none

def start : State β :=
  { queue := ⟨false, "", 0, 0, []⟩
    phase := .idle
    entered := []
    settled := []
    evicted := []
    cleared := []
    evictedNow := 0
    base := 0
    stale := false }

def overflow (items : List (Item β)) : ℕ := items.length + 1 - maxQueued

variable (items : List (Item β)) (urlPath : String → Option String) (disk : Disk β)
  (kind newEpoch : String) (v : β) (s : State β) (item : Item β)

theorem evictFull_eq (dropped : UInt64) :
    evictFull items dropped =
      (items.drop (overflow items), dropped + UInt64.ofNat (overflow items)) := by
  induction items generalizing dropped with
  | nil => simp [evictFull, overflow, maxQueued]
  | cons item items ih =>
    rw [evictFull]
    by_cases hfull : maxQueued ≤ (item :: items).length
    · have hcount : overflow (item :: items) = overflow items + 1 := by
        simp only [overflow, List.length_cons] at hfull ⊢
        omega
      rw [if_pos hfull, ih, hcount, List.drop_succ_cons, UInt64.ofNat_add]
      simp only [Prod.mk.injEq, true_and]
      rw [UInt64.add_assoc, UInt64.add_comm 1]
      rfl
    · have hcount : overflow (item :: items) = 0 := by
        simp only [overflow, List.length_cons] at hfull ⊢
        omega
      rw [if_neg hfull, hcount]
      simp

/-- A push keeps the newest events and counts the others as dropped. -/
theorem pushAccounted_eq :
    pushAccounted kind v s =
      { s with
        queue :=
          { s.queue with
            items := s.queue.items.drop (overflow s.queue.items) ++ [(kind, v)]
            dropped := s.queue.dropped + UInt64.ofNat (overflow s.queue.items) }
        entered := s.entered ++ [(kind, v)]
        evicted := s.evicted ++ s.queue.items.take (overflow s.queue.items)
        evictedNow := s.evictedNow + overflow s.queue.items } := by
  have hle : overflow s.queue.items ≤ s.queue.items.length := by
    simp only [overflow, maxQueued]
    omega
  have hcount : s.queue.items.length + 1 -
      (s.queue.items.drop (overflow s.queue.items) ++ [(kind, v)]).length =
        overflow s.queue.items := by
    simp only [List.length_append, List.length_drop, List.length_singleton]
    omega
  simp only [pushAccounted, pushLoaded, evictFull_eq, hcount]

/-- The events taken from the queue by `flushOnce`. -/
def State.removed (s : State β) : List (Item β) := s.settled.filterMap Settled.removed

/-- Every event that entered is queued, removed, evicted or cleared, and none twice; and the
evicted ones are counted. -/
structure Accounted (s : State β) : Prop where
  conserved : s.entered.Perm (s.queue.items ++ s.removed ++ s.evicted ++ s.cleared)
  counted : s.queue.dropped = s.base + UInt64.ofNat s.evictedNow
  fresh : s.queue.loaded = false → s.queue.items = [] ∧ s.evictedNow = 0

theorem foldl_loadRecord_loaded (records : List (Option (Item β))) (q : Queue β) :
    (records.foldl loadRecord q).loaded = q.loaded := by
  induction records generalizing q with
  | nil => rfl
  | cons record records ih =>
    rw [List.foldl_cons, ih]
    cases record with
    | none => rfl
    | some item =>
      simp only [loadRecord]
      split <;> rfl

theorem load_loaded (q : Queue β) : (load disk newEpoch q).loaded = true := by
  unfold load
  by_cases hloaded : q.loaded = true
  · rwa [if_pos hloaded]
  · rw [if_neg hloaded, foldl_loadRecord_loaded]
    unfold loadState
    cases disk.state <;> simp only <;> split <;> rfl

theorem loadAccounted_loaded : (loadAccounted disk newEpoch s).queue.loaded = true := by
  unfold loadAccounted
  by_cases hloaded : s.queue.loaded = true
  · rwa [if_pos hloaded]
  · rw [if_neg hloaded]
    exact load_loaded disk newEpoch s.queue

theorem loadAccounted_of_loaded
    (hloaded : s.queue.loaded = true) : loadAccounted disk newEpoch s = s :=
  if_pos hloaded

theorem loadAccounted_frame :
    (loadAccounted disk newEpoch s).phase = s.phase ∧
      (loadAccounted disk newEpoch s).settled = s.settled ∧
      (loadAccounted disk newEpoch s).stale = s.stale := by
  unfold loadAccounted
  split <;> exact ⟨rfl, rfl, rfl⟩

theorem accounted_load (h : Accounted s) : Accounted (loadAccounted disk newEpoch s) := by
  by_cases hloaded : s.queue.loaded = true
  · rwa [loadAccounted_of_loaded disk newEpoch s hloaded]
  · obtain ⟨hitems, hevicted⟩ := h.fresh (by simpa using hloaded)
    have hperm := h.conserved
    rw [hitems, List.nil_append] at hperm
    rw [loadAccounted, if_neg hloaded]
    refine ⟨?_, ?_, ?_⟩
    · have hcomm := (hperm.append_right (load disk newEpoch s.queue).items).trans
        List.perm_append_comm
      simpa only [State.removed, List.append_assoc] using hcomm
    · simp [hevicted]
    · intro hfalse
      rw [load_loaded] at hfalse
      cases hfalse

private theorem perm_push {α : Type*} (entered items removed evicted cleared : List α) (x : α)
    (k : ℕ) (h : entered.Perm (items ++ removed ++ evicted ++ cleared)) :
    (entered ++ [x]).Perm
      (items.drop k ++ [x] ++ removed ++ (evicted ++ items.take k) ++ cleared) := by
  classical
  rw [← List.take_append_drop k items, List.perm_iff_count] at h
  rw [List.perm_iff_count]
  intro a
  have hcount := h a
  simp only [List.count_append] at hcount ⊢
  omega

theorem accounted_evict (k : ℕ) (s : State β) (hloaded : s.queue.loaded = true) (h : Accounted s) :
    Accounted
      { s with
        queue :=
          { s.queue with
            items := s.queue.items.drop k ++ [(kind, v)]
            dropped := s.queue.dropped + UInt64.ofNat k }
        entered := s.entered ++ [(kind, v)]
        evicted := s.evicted ++ s.queue.items.take k
        evictedNow := s.evictedNow + k } := by
  refine ⟨?_, ?_, ?_⟩
  · exact perm_push s.entered s.queue.items s.removed s.evicted s.cleared (kind, v) k h.conserved
  · simp only [h.counted, UInt64.ofNat_add, UInt64.add_assoc]
  · intro hfalse
    rw [hloaded] at hfalse
    cases hfalse

theorem accounted_push (hloaded : s.queue.loaded = true)
    (h : Accounted s) : Accounted (pushAccounted kind v s) := by
  rw [pushAccounted_eq]
  exact accounted_evict kind v (overflow s.queue.items) s hloaded h

theorem accounted_clear (hloaded : s.queue.loaded = true)
    (h : Accounted s) : Accounted (clearAccounted newEpoch s) := by
  classical
  refine ⟨?_, rfl, ?_⟩
  · have hperm := h.conserved
    simp only [clearAccounted, clearLoaded, State.removed] at hperm ⊢
    rw [List.perm_iff_count] at hperm ⊢
    intro a
    have hcount := hperm a
    simp only [List.count_append, List.count_nil] at hcount ⊢
    omega
  · intro hfalse
    simp only [clearAccounted, clearLoaded] at hfalse
    rw [hloaded] at hfalse
    cases hfalse

theorem accounted_copy (h : Accounted s) : Accounted (copyAccounted s) := by
  unfold copyAccounted
  split
  · exact h
  · exact ⟨h.conserved, h.counted, h.fresh⟩

theorem accounted_remove (verdict : Verdict) (s : State β) (h : Accounted s) :
    Accounted (removeAccounted item verdict s) := by
  classical
  refine ⟨?_, h.counted, ?_⟩
  · have hperm := h.conserved
    simp only [removeAccounted, State.removed, List.filterMap_append] at hperm ⊢
    cases hitems : s.queue.items with
    | nil => simpa [hitems] using hperm
    | cons front rest =>
      rw [hitems, List.perm_iff_count] at hperm
      rw [List.perm_iff_count]
      intro a
      have hcount := hperm a
      simp only [List.tail_cons, List.head?_cons, List.filterMap_cons, List.filterMap_nil,
        List.count_append, List.count_cons, List.count_nil] at hcount ⊢
      omega
  · intro hfalse
    obtain ⟨hitems, hevicted⟩ := h.fresh hfalse
    exact ⟨by simp [removeAccounted, hitems], hevicted⟩

/-- No step loses an event from the account, whatever the threads do. -/
theorem accounted_step (t : State β) (e : Event β) (h : Accounted s)
    (hstep : step urlPath disk newEpoch s e = some t) : Accounted t := by
  have hload := accounted_load disk newEpoch s h
  have hloaded := loadAccounted_loaded disk newEpoch s
  cases e with
  | push url v enrolled =>
    simp only [step] at hstep
    split at hstep
    · obtain rfl := Option.some.inj hstep
      exact h
    · split at hstep
      · obtain rfl := Option.some.inj hstep
        exact accounted_push _ v _ hloaded hload
      · obtain rfl := Option.some.inj hstep
        exact h
  | clear epoch =>
    obtain rfl := Option.some.inj hstep
    exact accounted_clear epoch _ hloaded hload
  | copy =>
    simp only [step] at hstep
    split at hstep
    · obtain rfl := Option.some.inj hstep
      exact accounted_copy _ hload
    · cases hstep
  | answer result =>
    simp only [step] at hstep
    split at hstep
    · split at hstep
      all_goals
        obtain rfl := Option.some.inj hstep
        exact ⟨h.conserved, h.counted, h.fresh⟩
    · cases hstep
  | remove =>
    simp only [step] at hstep
    split at hstep
    · obtain rfl := Option.some.inj hstep
      exact accounted_remove _ _ s h
    · cases hstep

/-- While the worker waits, a push finds room and follows no clear. -/
def Undisturbed (s : State β) : Event β → Prop
  | .push _ _ _ => s.phase.inFlight = true → s.queue.items.length < maxQueued ∧ s.stale = false
  | _ => True

instance (s : State β) : ∀ e, Decidable (Undisturbed s e)
  | .push _ _ _ => inferInstanceAs (Decidable (_ → _))
  | .clear _ => isTrue trivial
  | .copy => isTrue trivial
  | .answer _ => isTrue trivial
  | .remove => isTrue trivial

/-- The event the worker will remove is the one it posted, or the queue was cleared. -/
def FrontIs (s : State β) (item : Item β) : Prop :=
  if s.stale then s.queue.items = [] else s.queue.items.head? = some item

structure OwnFront (s : State β) : Prop where
  loaded : s.phase.inFlight = true → s.queue.loaded = true
  posting : ∀ item, s.phase = .posting item → FrontIs s item
  answered : ∀ item verdict, s.phase = .answered item verdict → FrontIs s item
  own : ∀ r ∈ s.settled, ∀ removed, r.removed = some removed → removed = r.posted

theorem ownFront_load (h : OwnFront s) : OwnFront (loadAccounted disk newEpoch s) := by
  by_cases hloaded : s.queue.loaded = true
  · rwa [loadAccounted_of_loaded disk newEpoch s hloaded]
  · have hidle : s.phase.inFlight ≠ true := fun hflight => hloaded (h.loaded hflight)
    obtain ⟨hphase, hsettled, -⟩ := loadAccounted_frame disk newEpoch s
    refine ⟨?_, ?_, ?_, ?_⟩
    · intro _
      exact loadAccounted_loaded disk newEpoch s
    · intro item hitem
      rw [hphase] at hitem
      exact absurd (by rw [hitem]; rfl) hidle
    · intro item verdict hitem
      rw [hphase] at hitem
      exact absurd (by rw [hitem]; rfl) hidle
    · rw [hsettled]
      exact h.own

theorem frontIs_push (hroom : s.queue.items.length < maxQueued) (hstale : s.stale = false)
    (h : FrontIs s item) : FrontIs (pushAccounted kind v s) item := by
  have hzero : overflow s.queue.items = 0 := by
    simp only [overflow]
    omega
  rw [pushAccounted_eq, hzero]
  simp only [FrontIs, hstale, Bool.false_eq_true, if_false, List.drop_zero] at h ⊢
  rw [List.head?_append, h]
  rfl

theorem ownFront_push
    (hguard : s.phase.inFlight = true → s.queue.items.length < maxQueued ∧ s.stale = false)
    (h : OwnFront s) : OwnFront (pushAccounted kind v s) := by
  refine ⟨h.loaded, ?_, ?_, h.own⟩
  · intro item hitem
    have hphase : s.phase = .posting item := hitem
    obtain ⟨hroom, hstale⟩ := hguard (by rw [hphase]; rfl)
    exact frontIs_push kind v s item hroom hstale (h.posting item hphase)
  · intro item verdict hitem
    have hphase : s.phase = .answered item verdict := hitem
    obtain ⟨hroom, hstale⟩ := hguard (by rw [hphase]; rfl)
    exact frontIs_push kind v s item hroom hstale (h.answered item verdict hphase)

theorem ownFront_clear (h : OwnFront s) : OwnFront (clearAccounted newEpoch s) := by
  have hempty : ∀ item, s.phase.inFlight = true → FrontIs (clearAccounted newEpoch s) item := by
    intro item hflight
    simp [FrontIs, clearAccounted, clearLoaded, hflight]
  refine ⟨h.loaded, ?_, ?_, h.own⟩
  · intro item hitem
    have hphase : s.phase = .posting item := hitem
    exact hempty item (by rw [hphase]; rfl)
  · intro item verdict hitem
    have hphase : s.phase = .answered item verdict := hitem
    exact hempty item (by rw [hphase]; rfl)

theorem ownFront_copy (hloaded : s.queue.loaded = true)
    (h : OwnFront s) : OwnFront (copyAccounted s) := by
  unfold copyAccounted
  split
  · exact h
  · rename_i item rest hitems
    refine ⟨fun _ => hloaded, ?_, ?_, h.own⟩
    · intro item' hitem
      obtain rfl : item = item' := by simpa using hitem
      simp [FrontIs, hitems]
    · intro item' verdict hitem
      cases hitem

theorem ownFront_remove (verdict : Verdict) (s : State β)
    (hphase : s.phase = .answered item verdict) (h : OwnFront s) :
    OwnFront (removeAccounted item verdict s) := by
  refine ⟨?_, ?_, ?_, ?_⟩
  · intro hflight
    cases hflight
  · intro item' hitem
    cases hitem
  · intro item' verdict' hitem
    cases hitem
  · intro r hr removed hremoved
    simp only [removeAccounted, List.mem_append, List.mem_singleton] at hr
    rcases hr with hold | rfl
    · exact h.own r hold removed hremoved
    · have hfront := h.answered item verdict hphase
      simp only at hremoved ⊢
      unfold FrontIs at hfront
      split at hfront
      · rw [hfront] at hremoved
        cases hremoved
      · rw [hfront] at hremoved
        exact (Option.some.inj hremoved).symm

theorem ownFront_step (t : State β) (e : Event β) (hguard : Undisturbed s e) (h : OwnFront s)
    (hstep : step urlPath disk newEpoch s e = some t) : OwnFront t := by
  have hload := ownFront_load disk newEpoch s h
  obtain ⟨hphase, -, -⟩ := loadAccounted_frame disk newEpoch s
  cases e with
  | push url v enrolled =>
    simp only [step] at hstep
    split at hstep
    · obtain rfl := Option.some.inj hstep
      exact h
    · split at hstep
      · obtain rfl := Option.some.inj hstep
        refine ownFront_push _ v _ ?_ hload
        intro hflight
        rw [hphase] at hflight
        rw [loadAccounted_of_loaded disk newEpoch s (h.loaded hflight)]
        exact hguard hflight
      · obtain rfl := Option.some.inj hstep
        exact h
  | clear epoch =>
    obtain rfl := Option.some.inj hstep
    exact ownFront_clear epoch _ hload
  | copy =>
    simp only [step] at hstep
    split at hstep
    · obtain rfl := Option.some.inj hstep
      exact ownFront_copy _ (loadAccounted_loaded disk newEpoch s) hload
    · cases hstep
  | answer result =>
    simp only [step] at hstep
    split at hstep
    · rename_i item hposting
      have hfront := h.posting item hposting
      have hloaded := h.loaded (by rw [hposting]; rfl)
      split at hstep
      · rename_i verdict hverdict
        obtain rfl := Option.some.inj hstep
        refine ⟨fun _ => hloaded, ?_, ?_, h.own⟩
        · intro item' hitem
          cases hitem
        · intro item' verdict' hitem
          cases hitem
          exact hfront
      · obtain rfl := Option.some.inj hstep
        refine ⟨?_, ?_, ?_, h.own⟩
        · intro hflight
          cases hflight
        · intro item' hitem
          cases hitem
        · intro item' verdict' hitem
          cases hitem
    · cases hstep
  | remove =>
    simp only [step] at hstep
    split at hstep
    · rename_i item verdict hanswered
      obtain rfl := Option.some.inj hstep
      exact ownFront_remove item verdict s hanswered h
    · cases hstep

theorem accounted_start : Accounted (start : State β) :=
  ⟨List.Perm.refl _, rfl, fun _ => ⟨rfl, rfl⟩⟩

theorem ownFront_start : OwnFront (start : State β) := by
  refine ⟨?_, ?_, ?_, ?_⟩
  · intro hflight
    cases hflight
  · intro item hitem
    cases hitem
  · intro item verdict hitem
    cases hitem
  · intro r hr
    cases hr

/-- As long as no push evicts, or follows a clear, while an event is being posted, every
event is accounted for and only posted events are removed after an answer. -/
theorem events_accounted (urlPath : String → Option String) (disk : Disk β) (newEpoch : String)
    (s : State β) (es : List (Event β))
    (hmeets : Runs.Meets Undisturbed (step urlPath disk newEpoch) start es)
    (hexec : Runs.exec (step urlPath disk newEpoch) start es = some s) :
    s.entered.Perm (s.queue.items ++ s.removed ++ s.evicted ++ s.cleared) ∧
      s.queue.dropped = s.base + UInt64.ofNat s.evictedNow ∧
      ∀ r ∈ s.settled, ∀ removed, r.removed = some removed → removed = r.posted := by
  have haccount : Accounted s :=
    Runs.invariant_of_exec (step urlPath disk newEpoch) Accounted
      (fun a e b hinv hstep => accounted_step urlPath disk newEpoch a b e hinv hstep)
      start s es accounted_start hexec
  have hown : OwnFront s :=
    Runs.invariant_of_meets Undisturbed (step urlPath disk newEpoch) OwnFront
      (fun a e b hguard hinv hstep => ownFront_step urlPath disk newEpoch a b e hguard hinv hstep)
      start s es ownFront_start hmeets hexec
  exact ⟨haccount.conserved, haccount.counted, hown.own⟩

section Sample

def sampleUrl : String := "https://a.example/api/audit/conn"

/-- The path of `sampleUrl`. -/
def samplePath (url : String) : Option String :=
  if url = sampleUrl then some "/api/audit/conn" else none

theorem kindOf_sampleUrl : kindOf samplePath sampleUrl = some "conn" := by
  decide

def sampleRun : List (Event ℕ) :=
  [.push sampleUrl 0 true, .copy, .push sampleUrl 1 true, .answer (some (200, "")), .remove]

def sampleEnd : State ℕ :=
  { queue := ⟨true, "epoch", 0, 0, [("conn", 1)]⟩
    phase := .idle
    entered := [("conn", 0), ("conn", 1)]
    settled := [⟨("conn", 0), .delivered, some ("conn", 0)⟩]
    evicted := []
    cleared := []
    evictedNow := 0
    base := 0
    stale := false }

theorem events_accounted_sample :
    Runs.exec (step samplePath ⟨none, []⟩ "epoch") start sampleRun = some sampleEnd ∧
      ∀ r ∈ sampleEnd.settled, ∀ removed, r.removed = some removed → removed = r.posted := by
  have hrun : Runs.exec (step samplePath ⟨none, []⟩ "epoch") start sampleRun = some sampleEnd := by
    decide
  exact ⟨hrun, (events_accounted samplePath ⟨none, []⟩ "epoch" sampleEnd sampleRun
    (by decide) hrun).2.2⟩

theorem foldl_loadRecord_some (q : Queue β) (hkinds : ∀ item ∈ items, item.1 ∈ kinds) :
    (items.map some).foldl loadRecord q = { q with items := q.items ++ items } := by
  induction items generalizing q with
  | nil => simp
  | cons item items ih =>
    have hkind := hkinds item (List.mem_cons_self ..)
    rw [List.map_cons, List.foldl_cons, ih _ fun i hi => hkinds i (List.mem_cons_of_mem _ hi)]
    simp [loadRecord, hkind]

def fullLoaded (items : List (Item β)) : State β :=
  { (start : State β) with queue := ⟨true, "epoch", 0, 0, items⟩, entered := items }

/-- The account after a push evicted `x` from a full queue. -/
def fullPushed (phase : Phase β) (x : Item β) (items : List (Item β)) (entry : Item β) : State β :=
  { (start : State β) with
    queue := ⟨true, "epoch", 0, 1, items ++ [entry]⟩
    phase := phase
    entered := x :: items ++ [entry]
    evicted := [x]
    evictedNow := 1 }

theorem loadAccounted_full (hkinds : ∀ item ∈ items, item.1 ∈ kinds) :
    loadAccounted ⟨some ("epoch", 0, 0), items.map some⟩ "epoch" start = fullLoaded items := by
  have hepoch : ("epoch" : String).isEmpty = false := by decide
  have hload : load ⟨some ("epoch", 0, 0), items.map some⟩ "epoch" (start : State β).queue =
      ⟨true, "epoch", 0, 0, items⟩ := by
    simp [load, start, loadState, hepoch, foldl_loadRecord_some items _ hkinds]
  have hstart : (start : State β).queue.loaded = false := rfl
  simp only [loadAccounted, hstart, hload, Bool.false_eq_true, if_false]
  rfl

/-- On a full queue a push during the post evicts the posted event `x`, and the delivery of
`x` then removes the next event `y`, which is afterwards in no part of the account but the
removed ones. -/
theorem full_queue_run (url kind : String)
    (hkind : kindOf urlPath url = some kind) (x y : Item β) (rest : List (Item β)) (v : β)
    (hkinds : ∀ item ∈ x :: y :: rest, item.1 ∈ kinds) (hfull : rest.length + 2 = maxQueued) :
    Runs.exec (step urlPath ⟨some ("epoch", 0, 0), (x :: y :: rest).map some⟩ "epoch") start
        [.copy, .push url v true, .answer (some (200, "")), .remove] =
      some
        { (start : State β) with
          queue := ⟨true, "epoch", 0, 1, rest ++ [(kind, v)]⟩
          entered := x :: y :: rest ++ [(kind, v)]
          settled := [⟨x, .delivered, some y⟩]
          evicted := [x]
          evictedNow := 1 } := by
  have hload := loadAccounted_full (x :: y :: rest) hkinds
  have hverdict : verdictOf 200 "" = some .delivered := by decide
  have hover : overflow (x :: y :: rest) = 1 := by
    simp only [overflow, List.length_cons]
    omega
  have hcopy : step urlPath ⟨some ("epoch", 0, 0), (x :: y :: rest).map some⟩ "epoch" start .copy =
      some { fullLoaded (x :: y :: rest) with phase := .posting x, stale := false } := by
    show some (copyAccounted (loadAccounted _ "epoch" start)) = _
    rw [hload]
    rfl
  have hpush : step urlPath ⟨some ("epoch", 0, 0), (x :: y :: rest).map some⟩ "epoch"
      { fullLoaded (x :: y :: rest) with phase := .posting x, stale := false } (.push url v true) =
      some (fullPushed (.posting x) x (y :: rest) (kind, v)) := by
    simp only [step, hkind, if_true]
    rw [loadAccounted_of_loaded _ _ _ rfl, pushAccounted_eq]
    simp only [fullLoaded, hover]
    rfl
  refine (Runs.exec_cons _ _ _ _ _).mpr ⟨_, hcopy, ?_⟩
  refine (Runs.exec_cons _ _ _ _ _).mpr ⟨_, hpush, ?_⟩
  refine (Runs.exec_cons _ _ _ _ _).mpr
    ⟨fullPushed (.answered x .delivered) x (y :: rest) (kind, v), ?_, rfl⟩
  simp only [step, fullPushed, Option.bind_some, hverdict]

/-- The event `1` is removed although only the event `0` was posted, and is then lost. -/
theorem full_queue_loses_event :
    ∃ s : State ℕ, Runs.exec (step samplePath ⟨some ("epoch", 0, 0),
          (("conn", 0) :: ("conn", 1) :: List.replicate (maxQueued - 2) ("conn", 2)).map some⟩
            "epoch")
        start [.copy, .push sampleUrl 3 true, .answer (some (200, "")), .remove] = some s ∧
      (∃ r ∈ s.settled, r.posted = ("conn", 0) ∧ r.removed = some ("conn", 1)) ∧
      ("conn", 1) ∈ s.entered ∧ ("conn", 1) ∉ s.queue.items ++ s.evicted ++ s.cleared := by
  refine ⟨_, full_queue_run samplePath sampleUrl "conn" kindOf_sampleUrl ("conn", 0) ("conn", 1)
    (List.replicate (maxQueued - 2) ("conn", 2)) 3 ?_ ?_, ?_, ?_, ?_⟩
  · intro item hitem
    simp only [List.mem_cons, List.mem_replicate] at hitem
    rcases hitem with rfl | rfl | ⟨-, rfl⟩ <;> decide
  · rw [List.length_replicate]
    rfl
  · exact ⟨_, List.mem_singleton.mpr rfl, rfl, rfl⟩
  · exact List.mem_cons_of_mem _ (List.mem_cons_self ..)
  · simp only [start, List.mem_append, List.mem_replicate, List.mem_singleton]
    simp

end Sample

end ClantoDesk.AuditQueue
