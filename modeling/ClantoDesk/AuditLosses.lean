import ClantoDesk.AuditQueue

/-!
The count of lost audit events, src/clanto/audit_queue.rs. The queue is kept in memory and in a
file of sealed records, the count of dropped events in memory and in the state file; the two
files are written one after the other, and a new process reads both. A record that cannot be
sealed is left out of the file, one that cannot be opened is counted when it is read.
A run keeps account of the events that entered, of those the worker took off, and of how many
the server was told of.
-/
namespace ClantoDesk.AuditLosses

open AuditQueue

variable {β : Type*}

abbrev StateFile := String × UInt64 × UInt64

/-- The files of the queue. A queue file that is not there is one without records. -/
structure Files (β : Type*) where
  state : Option StateFile
  records : List (Item β)

def Files.dropped (files : Files β) : UInt64 :=
  match files.state with
  | some (_, _, dropped) => dropped
  | none => 0

inductive Write (β : Type*)
  | state (content : StateFile)
  | records (items : List (Item β))

def Files.put (files : Files β) : Write β → Files β
  | .state content => { files with state := some content }
  | .records items => { files with records := items }

/-- The files after some writes; `effect i` tells whether the `i`-th took effect. -/
def land (files : Files β) : List (Write β) → (ℕ → Bool) → Files β
  | [], _ => files
  | w :: writes, effect =>
    land (if effect 0 then files.put w else files) writes fun i => effect (i + 1)

/-- What a call meets: the files that can be read, the records of the queue file that can be
opened, by their place, the events that can be sealed, the identifier drawn for a new epoch,
and the writes that take effect. -/
structure Env (β : Type*) where
  stateReadable : Bool
  recordsReadable : Bool
  opens : ℕ → Bool
  seals : Item β → Bool
  newEpoch : String
  effect : ℕ → Bool

def openRecords : List (Item β) → (ℕ → Bool) → List (Option (Item β))
  | [], _ => []
  | item :: items, opens =>
    (if opens 0 then some item else none) :: openRecords items fun i => opens (i + 1)

def Env.disk (env : Env β) (files : Files β) : Disk β :=
  ⟨if env.stateReadable then files.state else none,
    if env.recordsReadable then openRecords files.records env.opens else []⟩

def saveState (q : Queue β) : Write β := .state (q.epoch, q.nextSeq, q.dropped)

def saveQueue (env : Env β) (q : Queue β) : Write β := .records (q.items.filter env.seals)

structure Device (β : Type*) where
  queue : Queue β
  files : Files β
  entered : List (Item β)
  taken : List (Item β)
  reported : ℕ

def newQueue : Queue β := ⟨false, "", 0, 0, []⟩

def start : Device β := ⟨newQueue, ⟨none, []⟩, [], [], 0⟩

/-- What a call does when nothing stops it, and what it adds to the account. With the write
`decisive` it has happened as far as the account goes. -/
structure Outcome (β : Type*) where
  queue : Queue β
  writes : List (Write β)
  decisive : ℕ
  entered : List (Item β)
  taken : List (Item β)
  reported : ℕ

/-- The first part of `load`: what the state file says. -/
def readState (disk : Disk β) (q : Queue β) : Queue β :=
  match disk.state with
  | some (epoch, nextSeq, dropped) =>
    { q with epoch := epoch, nextSeq := nextSeq, dropped := dropped }
  | none => q

def loadCall (s : Device β) (env : Env β) : Queue β × List (Write β) :=
  if s.queue.loaded then (s.queue, [])
  else
    let q := { s.queue with loaded := true }
    (load (env.disk s.files) env.newEpoch s.queue,
      if (readState (env.disk s.files) q).epoch.isEmpty then
        [saveState (loadState (env.disk s.files) env.newEpoch q)]
      else [])

inductive Call (β : Type*)
  | stamp
  /-- `dropped`, and the look of the worker at the front of the queue. -/
  | load
  | push (url : String) (v : β) (enrolled : Bool)
  /-- The worker takes the front off after an answer. -/
  | remove
  | droppedReported (count : UInt64)

def pushCall (kind : String) (v : β) (s : Device β) (env : Env β) : Outcome β :=
  let (q, writes) := loadCall s env
  let q := pushLoaded kind v q
  ⟨q, writes ++ [saveQueue env q, saveState q], writes.length, [(kind, v)], [], 0⟩

def call (urlPath : String → Option String) (s : Device β) (env : Env β) : Call β → Outcome β
  | .stamp =>
    let (q, writes) := loadCall s env
    let q := { q with nextSeq := q.nextSeq + 1 }
    ⟨q, writes ++ [saveState q], writes.length, [], [], 0⟩
  | .load =>
    let (q, writes) := loadCall s env
    ⟨q, writes, writes.length, [], [], 0⟩
  | .push url v enrolled =>
    match kindOf urlPath url with
    | none => ⟨s.queue, [], 0, [], [], 0⟩
    | some kind => if enrolled then pushCall kind v s env else ⟨s.queue, [], 0, [], [], 0⟩
  | .remove =>
    let q := { s.queue with items := s.queue.items.tail }
    ⟨q, [saveQueue env q], 0, [], s.queue.items.head?.toList, 0⟩
  | .droppedReported count =>
    let q :=
      { s.queue with dropped := if count ≤ s.queue.dropped then s.queue.dropped - count else 0 }
    ⟨q, [saveState q], 0, [], [], count.toNat⟩

inductive Event (β : Type*)
  | call (c : Call β) (env : Env β)
  /-- The process ends inside the call, when it has attempted so many of its writes. -/
  | crash (c : Call β) (env : Env β) (attempted : ℕ)
  /-- The process ends between two calls. -/
  | restart

def Device.returned (s : Device β) (out : Outcome β) (env : Env β) : Device β :=
  { queue := out.queue
    files := land s.files out.writes env.effect
    entered := s.entered ++ out.entered
    taken := s.taken ++ out.taken
    reported := s.reported + out.reported }

def Device.ended (s : Device β) (out : Outcome β) (happened : Bool) (files : Files β) : Device β :=
  if happened then
    { queue := newQueue
      files := files
      entered := s.entered ++ out.entered
      taken := s.taken ++ out.taken
      reported := s.reported + out.reported }
  else { s with queue := newQueue, files := files }

def Outcome.happened (out : Outcome β) (env : Env β) (attempted : ℕ) : Bool :=
  decide (out.decisive < attempted ∧ out.decisive < out.writes.length) && env.effect out.decisive

def Call.possible (s : Device β) : Call β → Bool
  | .remove => s.queue.loaded
  | _ => true

def step (urlPath : String → Option String) (s : Device β) : Event β → Option (Device β)
  | .call c env =>
    if c.possible s then some (s.returned (call urlPath s env c) env) else none
  | .crash c env attempted =>
    if c.possible s then
      let out := call urlPath s env c
      some (s.ended out (out.happened env attempted)
        (land s.files (out.writes.take attempted) env.effect))
    else none
  | .restart => some { s with queue := newQueue }

/-! ### The account -/

def Balanced (entered held taken : List (Item β)) (dropped : UInt64) (reported : ℕ) : Prop :=
  ∃ lost, entered.Perm (held ++ taken ++ lost) ∧ dropped.toNat + reported = lost.length

def Device.held (s : Device β) : List (Item β) :=
  if s.queue.loaded then s.queue.items else s.files.records

def Device.dropped (s : Device β) : UInt64 :=
  if s.queue.loaded then s.queue.dropped else s.files.dropped

/-- Every event that entered is held, was taken off by the worker, or is lost, and the count of
dropped events with what the server was told is the number of the lost ones. -/
def Accounted (s : Device β) : Prop :=
  Balanced s.entered s.held s.taken s.dropped s.reported

def Holds (files : Files β) (q : Queue β) : Prop :=
  files.records = q.items ∧ files.dropped = q.dropped

def Kept (s : Device β) (files : Files β) : Prop :=
  if s.queue.loaded then Holds files s.queue
  else files.records = s.files.records ∧ files.dropped = s.files.dropped

def Call.Reports (s : Device β) : Call β → Prop
  | .droppedReported count => s.queue.loaded = true ∧ count ≤ s.queue.dropped
  | _ => True

/-- What a call meets on its way: a process that has to load can read both files, and a count is
reported that was there. -/
def Ordinary (s : Device β) (c : Call β) (env : Env β) : Prop :=
  (s.queue.loaded = false → env.stateReadable = true ∧ env.recordsReadable = true) ∧
    c.Reports s ∧ s.entered.length + 1 < UInt64.size

/-- When the process ends, the two files are in step with its memory: as it is after the call if
the call has happened, and as it was before otherwise. -/
def InStep (urlPath : String → Option String) (s : Device β) : Event β → Prop
  | .call c env => Ordinary s c env
  | .crash c env attempted =>
    Ordinary s c env ∧
      let out := call urlPath s env c
      let files := land s.files (out.writes.take attempted) env.effect
      if out.happened env attempted then Holds files out.queue else Kept s files
  | .restart => Kept s s.files

variable (urlPath : String → Option String) (s : Device β) (files : Files β) (env : Env β)
  (kind : String)

theorem toNat_add_ofNat (dropped : UInt64) (k : ℕ) (h : dropped.toNat + k < UInt64.size) :
    (dropped + UInt64.ofNat k).toNat = dropped.toNat + k := by
  have hk : (UInt64.ofNat k).toNat = k := UInt64.toNat_ofNat_of_lt (by omega)
  rw [UInt64.toNat_add, hk]
  exact Nat.mod_eq_of_lt h

theorem Balanced.lose {entered held taken : List (Item β)} {dropped : UInt64} {reported : ℕ}
    (h : Balanced entered held taken dropped reported) (kept gone : List (Item β))
    (hheld : held.Perm (kept ++ gone)) (hroom : entered.length < UInt64.size) :
    Balanced entered kept taken (dropped + UInt64.ofNat gone.length) reported := by
  obtain ⟨lost, hperm, hcount⟩ := h
  have hall : entered.Perm (kept ++ taken ++ (lost ++ gone)) := by
    refine hperm.trans ?_
    classical
    rw [List.perm_iff_count] at hheld ⊢
    intro a
    have hcounts := hheld a
    simp only [List.count_append] at hcounts ⊢
    omega
  have hlength := hall.length_eq
  simp only [List.length_append] at hlength
  refine ⟨lost ++ gone, hall, ?_⟩
  rw [toNat_add_ofNat dropped gone.length (by omega), List.length_append]
  omega

theorem Balanced.enter {entered held taken : List (Item β)} {dropped : UInt64} {reported : ℕ}
    (h : Balanced entered held taken dropped reported) (item : Item β) :
    Balanced (entered ++ [item]) (held ++ [item]) taken dropped reported := by
  obtain ⟨lost, hperm, hcount⟩ := h
  refine ⟨lost, ?_, hcount⟩
  classical
  rw [List.perm_iff_count] at hperm ⊢
  intro a
  have hcounts := hperm a
  simp only [List.count_append] at hcounts ⊢
  omega

theorem Balanced.take {entered held taken : List (Item β)} {dropped : UInt64} {reported : ℕ}
    (h : Balanced entered held taken dropped reported) :
    Balanced entered held.tail (taken ++ held.head?.toList) dropped reported := by
  obtain ⟨lost, hperm, hcount⟩ := h
  refine ⟨lost, ?_, hcount⟩
  cases held with
  | nil => simpa using hperm
  | cons front rest =>
    classical
    rw [List.perm_iff_count] at hperm ⊢
    intro a
    have hcounts := hperm a
    simp only [List.head?_cons, Option.toList_some, List.tail_cons, List.count_append,
      List.count_cons, List.count_nil] at hcounts ⊢
    omega

/-- The server was told of some of the dropped events. -/
theorem Balanced.report {entered held taken : List (Item β)} {dropped : UInt64} {reported : ℕ}
    (h : Balanced entered held taken dropped reported) (count : UInt64) (hle : count ≤ dropped) :
    Balanced entered held taken (dropped - count) (reported + count.toNat) := by
  obtain ⟨lost, hperm, hcount⟩ := h
  refine ⟨lost, hperm, ?_⟩
  have hle' : count.toNat ≤ dropped.toNat := UInt64.le_iff_toNat_le.mp hle
  rw [UInt64.toNat_sub_of_le _ _ hle]
  omega

/-! ### Loading -/

theorem foldl_openRecords (items : List (Item β)) (hkinds : ∀ item ∈ items, item.1 ∈ kinds)
    (opens : ℕ → Bool) (q : Queue β) :
    ∃ read unread, items.Perm (read ++ unread) ∧
      (openRecords items opens).foldl loadRecord q =
        { q with
          items := q.items ++ read
          dropped := q.dropped + UInt64.ofNat unread.length } := by
  induction items generalizing opens q with
  | nil => exact ⟨[], [], List.Perm.refl _, by simp [openRecords]⟩
  | cons item items ih =>
    obtain ⟨hkind, hrest⟩ := List.forall_mem_cons.mp hkinds
    rw [openRecords, List.foldl_cons]
    by_cases hopens : opens 0 = true
    · have hload : loadRecord q (some item) = { q with items := q.items ++ [item] } := if_pos hkind
      obtain ⟨read, unread, hperm, hfold⟩ :=
        ih hrest (fun i => opens (i + 1)) { q with items := q.items ++ [item] }
      refine ⟨item :: read, unread, hperm.cons item, ?_⟩
      rw [if_pos hopens, hload, hfold]
      simp
    · obtain ⟨read, unread, hperm, hfold⟩ :=
        ih hrest (fun i => opens (i + 1)) { q with dropped := q.dropped + 1 }
      refine ⟨read, item :: unread, (hperm.cons item).trans List.perm_middle.symm, ?_⟩
      rw [if_neg hopens]
      show (openRecords items fun i => opens (i + 1)).foldl loadRecord
        { q with dropped := q.dropped + 1 } = _
      rw [hfold, List.length_cons, UInt64.ofNat_add, UInt64.add_assoc]
      simp only [Queue.mk.injEq, true_and, and_true]
      rw [UInt64.add_comm 1]
      rfl

theorem loadState_dropped (disk : Disk β) (newEpoch : String) (files : Files β)
    (hstate : disk.state = files.state) :
    (loadState disk newEpoch { newQueue with loaded := true }).dropped = files.dropped ∧
      (loadState disk newEpoch { newQueue with loaded := true }).items = [] ∧
      (loadState disk newEpoch { newQueue with loaded := true }).loaded = true := by
  unfold loadState Files.dropped
  rw [hstate]
  cases files.state with
  | none => exact ⟨rfl, rfl, rfl⟩
  | some content =>
    simp only
    split <;> exact ⟨rfl, rfl, rfl⟩

/-- A process that can read both files holds the records it can open and counts the others. -/
theorem load_newQueue (hkinds : ∀ item ∈ files.records, item.1 ∈ kinds)
    (hstate : env.stateReadable = true) (hrecords : env.recordsReadable = true) :
    ∃ unread, files.records.Perm ((load (env.disk files) env.newEpoch newQueue).items ++ unread) ∧
      (load (env.disk files) env.newEpoch newQueue).dropped =
        files.dropped + UInt64.ofNat unread.length ∧
      (load (env.disk files) env.newEpoch newQueue).loaded = true := by
  have hdisk : env.disk files = ⟨files.state, openRecords files.records env.opens⟩ := by
    simp [Env.disk, hstate, hrecords]
  obtain ⟨hdropped, hitems, hloaded⟩ := loadState_dropped (env.disk files) env.newEpoch files
    (by rw [hdisk])
  obtain ⟨read, unread, hperm, hfold⟩ := foldl_openRecords files.records hkinds env.opens
    (loadState (env.disk files) env.newEpoch { newQueue with loaded := true })
  have hload : load (env.disk files) env.newEpoch newQueue =
      (openRecords files.records env.opens).foldl loadRecord
        (loadState (env.disk files) env.newEpoch { newQueue with loaded := true }) := by
    rw [load, if_neg (by exact Bool.false_ne_true)]
    rw [hdisk]
  rw [hload, hfold]
  refine ⟨unread, ?_, ?_, hloaded⟩
  · simpa [hitems] using hperm
  · simp [hdropped]

instance (files : Files β) (q : Queue β) [DecidableEq β] : Decidable (Holds files q) :=
  inferInstanceAs (Decidable (_ ∧ _))

instance (s : Device β) (files : Files β) [DecidableEq β] : Decidable (Kept s files) :=
  inferInstanceAs (Decidable (if s.queue.loaded = true then Holds files s.queue
    else files.records = s.files.records ∧ files.dropped = s.files.dropped))

instance (s : Device β) : ∀ c : Call β, Decidable (c.Reports s)
  | .droppedReported _ => inferInstanceAs (Decidable (_ ∧ _))
  | .stamp => isTrue trivial
  | .load => isTrue trivial
  | .push _ _ _ => isTrue trivial
  | .remove => isTrue trivial

instance (s : Device β) (c : Call β) (env : Env β) : Decidable (Ordinary s c env) :=
  inferInstanceAs (Decidable (_ ∧ _))

instance (urlPath : String → Option String) (s : Device β) [DecidableEq β] :
    ∀ e, Decidable (InStep urlPath s e)
  | .call c env => inferInstanceAs (Decidable (Ordinary s c env))
  | .crash c env attempted =>
    inferInstanceAs (Decidable (Ordinary s c env ∧
      if (call urlPath s env c).happened env attempted = true then
        Holds (land s.files ((call urlPath s env c).writes.take attempted) env.effect)
          (call urlPath s env c).queue
      else Kept s (land s.files ((call urlPath s env c).writes.take attempted) env.effect)))
  | .restart => inferInstanceAs (Decidable (Kept s s.files))

/-! ### Calls -/

/-- The account is right, every event has a kind that is read back, and a process that has not
loaded holds nothing of its own. -/
structure Inv (s : Device β) : Prop where
  accounted : Accounted s
  held : ∀ item ∈ s.held, item.1 ∈ kinds
  records : ∀ item ∈ s.files.records, item.1 ∈ kinds
  unloaded : s.queue.loaded = false → s.queue = newQueue

/-- The account a call that has loaded leaves when it has happened. -/
structure Settled (s : Device β) (out : Outcome β) : Prop where
  loaded : out.queue.loaded = true
  balanced : Balanced (s.entered ++ out.entered) out.queue.items (s.taken ++ out.taken)
    out.queue.dropped (s.reported + out.reported)
  kinds : ∀ item ∈ out.queue.items, item.1 ∈ kinds
  writes : ∀ items, .records items ∈ out.writes → ∀ item ∈ items, item.1 ∈ AuditQueue.kinds

theorem Inv.balanced_loaded {s : Device β} (h : Inv s) (hloaded : s.queue.loaded = true) :
    Balanced s.entered s.queue.items s.taken s.queue.dropped s.reported := by
  have haccounted := h.accounted
  simp only [Accounted, Device.held, Device.dropped, hloaded, if_true] at haccounted
  exact haccounted

theorem Inv.kinds_loaded {s : Device β} (h : Inv s) (hloaded : s.queue.loaded = true) :
    ∀ item ∈ s.queue.items, item.1 ∈ kinds := by
  have hheld := h.held
  simp only [Device.held, hloaded, if_true] at hheld
  exact hheld

/-- The queue after loading; only the state file is written. -/
theorem loadCall_spec (h : Inv s)
    (hreads : s.queue.loaded = false → env.stateReadable = true ∧ env.recordsReadable = true)
    (hroom : s.entered.length < UInt64.size) :
    (loadCall s env).1.loaded = true ∧
      Balanced s.entered (loadCall s env).1.items s.taken (loadCall s env).1.dropped s.reported ∧
      (∀ item ∈ (loadCall s env).1.items, item.1 ∈ kinds) ∧
      ∀ items, .records items ∉ (loadCall s env).2 := by
  unfold loadCall
  by_cases hloaded : s.queue.loaded = true
  · rw [if_pos hloaded]
    exact ⟨hloaded, h.balanced_loaded hloaded, h.kinds_loaded hloaded,
      fun items => List.not_mem_nil⟩
  · have hfalse : s.queue.loaded = false := by simpa using hloaded
    obtain ⟨hstate, hrecords⟩ := hreads hfalse
    obtain ⟨unread, hperm, hdropped, hnow⟩ := load_newQueue s.files env h.records hstate hrecords
    have hbalanced := h.accounted
    simp only [Accounted, Device.held, Device.dropped, hfalse, Bool.false_eq_true, if_false]
      at hbalanced
    rw [if_neg hloaded]
    simp only [h.unloaded hfalse]
    refine ⟨hnow, ?_, fun item hitem => ?_, fun items hitems => ?_⟩
    · rw [hdropped]
      exact hbalanced.lose _ unread hperm hroom
    · exact h.records item (hperm.mem_iff.mpr (List.mem_append_left _ hitem))
    · split at hitems
      · cases List.mem_singleton.mp hitems
      · cases hitems

theorem kindOf_mem (url kind : String) (h : kindOf urlPath url = some kind) : kind ∈ kinds := by
  obtain ⟨path, -, hfind⟩ := Option.bind_eq_some_iff.mp h
  exact List.mem_of_find?_eq_some hfind

theorem pushLoaded_eq (v : β) (q : Queue β) :
    pushLoaded kind v q =
      { q with
        items := q.items.drop (overflow q.items) ++ [(kind, v)]
        dropped := q.dropped + UInt64.ofNat (overflow q.items) } := by
  simp only [pushLoaded, evictFull_eq]

/-- A push evicts from the front, counts what it evicts and adds the new event. -/
theorem settled_push (v : β) (h : Inv s) (hkind : kind ∈ kinds)
    (hreads : s.queue.loaded = false → env.stateReadable = true ∧ env.recordsReadable = true)
    (hroom : s.entered.length < UInt64.size) : Settled s (pushCall kind v s env) := by
  obtain ⟨hloaded, hbalanced, hkinds, hwrites⟩ := loadCall_spec s env h hreads hroom
  have hsplit : (loadCall s env).1.items.Perm
      ((loadCall s env).1.items.drop (overflow (loadCall s env).1.items) ++
        (loadCall s env).1.items.take (overflow (loadCall s env).1.items)) := by
    refine List.Perm.trans ?_ List.perm_append_comm
    rw [List.take_append_drop]
  have hlength : ((loadCall s env).1.items.take (overflow (loadCall s env).1.items)).length =
      overflow (loadCall s env).1.items := by
    rw [List.length_take]
    simp only [overflow, maxQueued]
    omega
  have hlost := (hbalanced.lose _ _ hsplit hroom).enter (kind, v)
  rw [hlength] at hlost
  have hitems : ∀ item ∈ (pushLoaded kind v (loadCall s env).1).items, item.1 ∈ kinds := by
    intro item hitem
    rw [pushLoaded_eq] at hitem
    rcases List.mem_append.mp hitem with hold | hnew
    · exact hkinds item (List.mem_of_mem_drop hold)
    · rw [List.mem_singleton.mp hnew]
      exact hkind
  refine ⟨?_, ?_, hitems, fun items hmem => ?_⟩
  · show (pushLoaded kind v (loadCall s env).1).loaded = true
    rw [pushLoaded_eq]
    exact hloaded
  · show Balanced _ (pushLoaded kind v (loadCall s env).1).items (s.taken ++ [])
      (pushLoaded kind v (loadCall s env).1).dropped _
    rw [pushLoaded_eq, List.append_nil]
    exact hlost
  · rcases List.mem_append.mp hmem with hold | hnew
    · exact absurd hold (hwrites items)
    · rcases List.mem_cons.mp hnew with heq | hstate
      · obtain rfl := Write.records.inj heq
        exact fun item hitem => hitems item (List.mem_filter.mp hitem).1
      · cases List.mem_singleton.mp hstate

theorem settled_remove (h : Inv s)
    (hloaded : s.queue.loaded = true) : Settled s (call urlPath s env .remove) := by
  have hkinds : ∀ item ∈ s.queue.items.tail, item.1 ∈ kinds :=
    fun item hitem => h.kinds_loaded hloaded item (List.mem_of_mem_tail hitem)
  refine ⟨hloaded, ?_, hkinds, fun items hmem => ?_⟩
  · show Balanced (s.entered ++ []) s.queue.items.tail _ s.queue.dropped s.reported
    rw [List.append_nil]
    exact (h.balanced_loaded hloaded).take
  · obtain rfl := Write.records.inj (List.mem_singleton.mp hmem)
    exact fun item hitem => hkinds item (List.mem_filter.mp hitem).1

theorem settled_droppedReported (count : UInt64) (h : Inv s) (hloaded : s.queue.loaded = true)
    (hle : count ≤ s.queue.dropped) : Settled s (call urlPath s env (.droppedReported count)) := by
  refine ⟨hloaded, ?_, h.kinds_loaded hloaded, fun items hmem => ?_⟩
  · show Balanced (s.entered ++ []) s.queue.items (s.taken ++ [])
      (if count ≤ s.queue.dropped then s.queue.dropped - count else 0) (s.reported + count.toNat)
    rw [List.append_nil, List.append_nil, if_pos hle]
    exact (h.balanced_loaded hloaded).report count hle
  · cases List.mem_singleton.mp hmem

/-- Every possible call leaves a right account, or does nothing at all. -/
theorem call_cases (c : Call β) (env : Env β)
    (h : Inv s) (hpossible : c.possible s = true) (hordinary : Ordinary s c env) :
    Settled s (call urlPath s env c) ∨ call urlPath s env c = ⟨s.queue, [], 0, [], [], 0⟩ := by
  obtain ⟨hreads, hreported, hroom⟩ := hordinary
  have hroom : s.entered.length < UInt64.size := by omega
  obtain ⟨hloaded, hbalanced, hkinds, hwrites⟩ := loadCall_spec s env h hreads hroom
  cases c with
  | stamp =>
    refine Or.inl ⟨hloaded, by simpa [call] using hbalanced, hkinds, fun items hmem => ?_⟩
    rcases List.mem_append.mp hmem with hold | hnew
    · exact absurd hold (hwrites items)
    · cases List.mem_singleton.mp hnew
  | load =>
    exact Or.inl ⟨hloaded, by simpa [call] using hbalanced, hkinds,
      fun items hmem => absurd hmem (hwrites items)⟩
  | push url v enrolled =>
    simp only [call]
    cases hkind : kindOf urlPath url with
    | none => exact Or.inr rfl
    | some kind =>
      by_cases henrolled : enrolled = true
      · left
        simp only [henrolled, if_true]
        exact settled_push s env kind v h (kindOf_mem urlPath url kind hkind) hreads hroom
      · right
        simp only [henrolled, Bool.false_eq_true, if_false]
  | remove => exact Or.inl (settled_remove urlPath s env h hpossible)
  | droppedReported count =>
    obtain ⟨hloaded, hle⟩ := hreported
    exact Or.inl (settled_droppedReported urlPath s env count h hloaded hle)

/-! ### Runs -/

/-- The queue file has what it had, or what some write put there. -/
theorem land_records (writes : List (Write β)) (effect : ℕ → Bool) :
    (land files writes effect).records = files.records ∨
      ∃ items, .records items ∈ writes ∧ (land files writes effect).records = items := by
  induction writes generalizing files effect with
  | nil => exact Or.inl rfl
  | cons w writes ih =>
    rw [land]
    rcases ih (if effect 0 then files.put w else files) (fun i => effect (i + 1)) with
      h | ⟨items, hitems, h⟩
    · rw [h]
      by_cases heffect : effect 0 = true
      · rw [if_pos heffect]
        cases w with
        | state content => exact Or.inl rfl
        | records items => exact Or.inr ⟨items, List.mem_cons_self, rfl⟩
      · rw [if_neg heffect]
        exact Or.inl rfl
    · exact Or.inr ⟨items, List.mem_cons_of_mem _ hitems, h⟩

theorem inv_returned (out : Outcome β) (env : Env β) (h : Inv s)
    (hout : Settled s out) : Inv (s.returned out env) := by
  have hloaded : (s.returned out env).queue.loaded = true := hout.loaded
  refine ⟨?_, ?_, ?_, ?_⟩
  · simp only [Accounted, Device.held, Device.dropped, hloaded, if_true]
    exact hout.balanced
  · simp only [Device.held, hloaded, if_true]
    exact hout.kinds
  · intro item hitem
    rcases land_records s.files out.writes env.effect with hold | ⟨items, hmem, hnew⟩
    · exact h.records item (hold ▸ hitem)
    · exact hout.writes items hmem item (hnew ▸ hitem)
  · intro hfalse
    rw [hloaded] at hfalse
    cases hfalse

theorem returned_nothing : s.returned ⟨s.queue, [], 0, [], [], 0⟩ env = s := by
  simp [Device.returned, land]

/-- A process whose files held its memory is found again by the next one. -/
theorem inv_kept (h : Inv s) (hkept : Kept s files) :
    Inv { s with queue := newQueue, files := files } := by
  have hheld : files.records = s.held ∧ files.dropped = s.dropped := by
    unfold Kept at hkept
    unfold Device.held Device.dropped
    by_cases hloaded : s.queue.loaded = true
    · rw [if_pos hloaded] at hkept
      rw [if_pos hloaded, if_pos hloaded]
      exact hkept
    · rw [if_neg hloaded] at hkept
      rw [if_neg hloaded, if_neg hloaded]
      exact hkept
  refine ⟨?_, ?_, ?_, fun _ => rfl⟩
  · show Balanced s.entered files.records s.taken files.dropped s.reported
    rw [hheld.1, hheld.2]
    exact h.accounted
  · show ∀ item ∈ files.records, item.1 ∈ kinds
    rw [hheld.1]
    exact h.held
  · show ∀ item ∈ files.records, item.1 ∈ kinds
    rw [hheld.1]
    exact h.held

/-- The files that hold the memory after a call are what the next process finds. -/
theorem inv_happened (out : Outcome β) (files : Files β) (hout : Settled s out)
    (hholds : Holds files out.queue) : Inv (s.ended out true files) := by
  obtain ⟨hrecords, hdropped⟩ := hholds
  refine ⟨?_, ?_, ?_, fun _ => rfl⟩
  · show Balanced _ files.records _ files.dropped _
    rw [hrecords, hdropped]
    exact hout.balanced
  · show ∀ item ∈ files.records, item.1 ∈ kinds
    rw [hrecords]
    exact hout.kinds
  · show ∀ item ∈ files.records, item.1 ∈ kinds
    rw [hrecords]
    exact hout.kinds

theorem inv_step (e : Event β) (t : Device β)
    (hguard : InStep urlPath s e) (h : Inv s) (hstep : step urlPath s e = some t) : Inv t := by
  cases e with
  | call c env =>
    obtain ⟨hpossible, rfl⟩ := of_guard hstep
    rcases call_cases urlPath s c env h hpossible hguard with hout | hnothing
    · exact inv_returned s _ env h hout
    · rw [hnothing, returned_nothing]
      exact h
  | crash c env attempted =>
    obtain ⟨hpossible, rfl⟩ := of_guard hstep
    obtain ⟨hordinary, hfiles⟩ := hguard
    simp only at hfiles ⊢
    cases hhappened : (call urlPath s env c).happened env attempted with
    | false =>
      rw [hhappened, if_neg Bool.false_ne_true] at hfiles
      exact inv_kept s _ h hfiles
    | true =>
      rw [hhappened, if_pos rfl] at hfiles
      rcases call_cases urlPath s c env h hpossible hordinary with hout | hnothing
      · exact inv_happened s _ _ hout hfiles
      · rw [hnothing, Outcome.happened] at hhappened
        simp at hhappened
  | restart =>
    obtain rfl := Option.some.inj hstep
    exact inv_kept s s.files h hguard

theorem inv_start : Inv (start : Device β) := by
  refine ⟨⟨[], List.Perm.refl _, rfl⟩, ?_, ?_, fun _ => rfl⟩
  · exact fun item hitem => absurd hitem List.not_mem_nil
  · exact fun item hitem => absurd hitem List.not_mem_nil

/-- As long as every process ends with its files in step with its memory, reads what it finds and
reports what was counted, every lost event is counted once. -/
theorem losses_counted (urlPath : String → Option String) (es : List (Event β))
    (hmeets : Runs.Meets (InStep urlPath) (step urlPath) start es) :
    Runs.Along Accounted (step urlPath) start es :=
  Runs.along_of_meets (InStep urlPath) (step urlPath) Inv Accounted (inv_step urlPath)
    (fun _ h => h.accounted) start es inv_start hmeets

/-- The files that a process meets when nothing goes wrong, except for the record at one place. -/
def sampleEnv (unreadable : Option ℕ) : Env ℕ :=
  { stateReadable := true
    recordsReadable := true
    opens := fun i => decide (unreadable ≠ some i)
    seals := fun _ => true
    newEpoch := "0b4f1c2e-9d3a-4e57-8a61-2f7c5d9e0a13"
    effect := fun _ => true }

def samplePush (v : ℕ) (unreadable : Option ℕ) : Event ℕ :=
  .call (.push sampleUrl v true) (sampleEnv unreadable)

/-- One of two events cannot be read back: it is counted, and reported, once. -/
theorem losses_counted_sample :
    Runs.Along Accounted (step samplePath) start
      [samplePush 1 none, samplePush 2 none, .restart, samplePush 3 (some 0), .restart,
        .call .load (sampleEnv none), .call (.droppedReported 1) (sampleEnv none)] :=
  losses_counted samplePath _ (by decide)

/-- With one event, neither held nor taken off, the count is one. -/
theorem not_accounted (item : Item β) (hentered : s.entered = [item])
    (hheld : s.held = []) (htaken : s.taken = []) (hcount : s.dropped.toNat + s.reported ≠ 1) :
    ¬ Accounted s := by
  rintro ⟨lost, hperm, hlost⟩
  rw [hentered, hheld, htaken] at hperm
  have hlength : 1 = lost.length := hperm.length_eq
  exact hcount (hlost.trans hlength.symm)

/-- What is left of one event after a run. -/
theorem lost_in_run (es : List (Event ℕ)) (dropped : UInt64)
    (hrun : (Runs.exec (step samplePath) start es).map
      (fun s => (s.entered, s.held, s.taken, s.dropped, s.reported)) =
        some ([("conn", 1)], [], [], dropped, 0)) (hne : dropped.toNat ≠ 1) :
    ∃ s, Runs.exec (step samplePath) start es = some s ∧ s.entered = [("conn", 1)] ∧
      s.held = [] ∧ s.taken = [] ∧ s.dropped = dropped ∧ ¬ Accounted s := by
  obtain ⟨s, hexec, hs⟩ := Option.map_eq_some_iff.mp hrun
  simp only [Prod.mk.injEq] at hs
  obtain ⟨hentered, hheld, htaken, hdropped, hreported⟩ := hs
  refine ⟨s, hexec, hentered, hheld, htaken, hdropped, ?_⟩
  refine not_accounted s ("conn", 1) hentered hheld htaken ?_
  rw [hdropped, hreported]
  exact hne

/-- A record that cannot be read is counted by every process that reads it, and an event that
cannot be sealed is counted by none. -/
theorem lost_counted_twice_or_never :
    (∃ s, Runs.exec (step samplePath) start
        [samplePush 1 none, .restart, .call .stamp (sampleEnv (some 0)), .restart,
          .call .load (sampleEnv (some 0))] = some s ∧
      s.entered = [("conn", 1)] ∧ s.held = [] ∧ s.taken = [] ∧ s.dropped = 2 ∧ ¬ Accounted s) ∧
    ∃ s, Runs.exec (step samplePath) start
        [.call (.push sampleUrl 1 true) { sampleEnv none with seals := fun _ => false }, .restart,
          .call .load (sampleEnv none)] = some s ∧
      s.entered = [("conn", 1)] ∧ s.held = [] ∧ s.taken = [] ∧ s.dropped = 0 ∧ ¬ Accounted s :=
  ⟨lost_in_run _ 2 (by decide) (by decide), lost_in_run _ 0 (by decide) (by decide)⟩

end ClantoDesk.AuditLosses
