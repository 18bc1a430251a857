import ClantoDesk.TerminalCleanup

/-!
The registry of the terminal services, src/server/terminal_service.rs. Connections create
services or come back to them, the loop of a connection removes its service at its end when it
is not persistent, and a thread removes services that are idle: it decides on all of them
under the lock of the registry, and removes them one by one by their ids under it again. The
actions, and the loops of each service, have the service at hand and do not take that lock. Times
are in nanoseconds.
-/
namespace ClantoDesk.TerminalRegistry

open Text TerminalStream TerminalCleanup

def MAX_SERVICES : ℕ := 100
def SERVICE_IDLE_TIMEOUT : ℕ := 3600 * 1000000000

/-- `PersistentTerminalService`, with its sessions and loops as before. -/
structure Service where
  terminals : TerminalCleanup.System
  lastActivity : ℕ
  isSpecifiedUser : Bool

/-- `HashMap<String, Arc<Mutex<PersistentTerminalService>>>`. -/
abbrev Services := AList fun _ : Str => ℕ

/-- The thread that cleans up: asleep, deciding with the registry locked, between two removals,
and stopping the terminals of a service it removed, with the registry locked. -/
inductive Cleanup
  | sleeping
  | deciding (now : ℕ) (todo : List (Str × ℕ)) (toRemove : List Str)
  | removing (toRemove : List Str)
  | stopping (arc : ℕ) (toRemove : List Str)
  deriving DecidableEq

inductive End
  | checking (serviceId : Str) (arc : ℕ)
  | removing (serviceId : Str)
  | stopping (arc : ℕ)
  | done

/-- A removal by the idle clean-up, with the time and the service as it was, for the statements
only. -/
structure Removal where
  arc : ℕ
  now : ℕ
  service : Service

/-- The clock, the registry, the services, and the threads that are in the middle of something;
for the statements also the removals by the clean-up, and the services it stopped. -/
structure State where
  now : ℕ
  services : Services
  heap : List Service
  cleanup : Cleanup
  ends : List End
  removals : List Removal
  stopped : List ℕ

def start : State := ⟨0, ∅, [], .sleeping, [], [], []⟩

def Cleanup.holdsLock : Cleanup → Bool
  | .deciding _ _ _ | .stopping _ _ => true
  | _ => false

def End.holdsLock : End → Bool
  | .stopping _ => true
  | _ => false

def State.locked (s : State) : Bool := s.cleanup.holdsLock || s.ends.any End.holdsLock

/-- What the clean-up removes. -/
def Service.idle (now : ℕ) (svc : Service) : Bool :=
  (!svc.terminals.isPersistent && decide (SERVICE_IDLE_TIMEOUT < now - svc.lastActivity)) ||
    (svc.terminals.isPersistent && svc.terminals.sessions.keys.isEmpty &&
      decide (SERVICE_IDLE_TIMEOUT * 2 < now - svc.lastActivity))

def Service.withTerminals (svc : Service) (terminals : TerminalCleanup.System) : Service :=
  { svc with terminals := terminals }

def Service.withPersistent (svc : Service) (isPersistent : Bool) : Service :=
  svc.withTerminals { svc.terminals with isPersistent := isPersistent }

def Service.touch (svc : Service) (now : ℕ) : Service := { svc with lastActivity := now }

/-- `reset_status`, which leaves the time of the last activity as it is. -/
def Service.reset (svc : Service) (isPersistent : Bool) : Service :=
  svc.withTerminals (resetStatus svc.terminals isPersistent)

def Service.stopAll (svc : Service) : Service :=
  svc.withTerminals { svc.terminals with
    heap := (Table.pairs svc.terminals.sessions).foldl
      (fun heap e => heap.modify e.2 TerminalSession.stop) svc.terminals.heap }

def State.withHeap (s : State) (heap : List Service) : State := { s with heap := heap }

def State.withCleanup (s : State) (cleanup : Cleanup) : State := { s with cleanup := cleanup }

/-- `get_or_create_service`. At the limit a new service is refused. -/
def getOrCreateService (s : State) (serviceId : Str) (isPersistent isSpecifiedUser : Bool) :
    State :=
  match s.services.lookup serviceId with
  | some arc => s.withHeap (s.heap.modify arc fun svc => svc.reset isPersistent)
  | none =>
    if MAX_SERVICES ≤ s.services.keys.length then s
    else
      let svc : Service := ⟨TerminalCleanup.start serviceId isPersistent, s.now, isSpecifiedUser⟩
      { s with
        services := s.services.insert serviceId s.heap.length
        heap := s.heap ++ [svc.reset isPersistent] }

def State.erase (s : State) (serviceId : Str) : State :=
  { s with services := s.services.erase serviceId }

/-- The first part of `remove_service` for the clean-up. -/
def removeIdle (s : State) (serviceId : Str) (rest : List Str) : State :=
  match s.services.lookup serviceId with
  | none => s.withCleanup (.removing rest)
  | some arc => match s.heap[arc]? with
    | none => s.withCleanup (.removing rest)
    | some svc =>
      { s.erase serviceId with
        cleanup := .stopping arc rest
        removals := s.removals ++ [⟨arc, s.now, svc⟩] }

/-- The next part of `cleanup_inactive_services`. -/
def cleanupNext (s : State) : Option State :=
  match s.cleanup with
  | .sleeping => none
  | .deciding _ [] toRemove => some (s.withCleanup (.removing toRemove))
  | .deciding now ((serviceId, arc) :: todo) toRemove => s.heap[arc]?.map fun svc =>
    s.withCleanup (.deciding now todo
      (if svc.idle now then toRemove ++ [serviceId] else toRemove))
  | .removing [] => some (s.withCleanup .sleeping)
  | .removing (serviceId :: rest) => if s.locked then none else some (removeIdle s serviceId rest)
  | .stopping arc rest =>
    some { s.withHeap (s.heap.modify arc Service.stopAll) with
      cleanup := .removing rest
      stopped := s.stopped ++ [arc] }

def State.setEnd (s : State) (k : ℕ) (e : End) : State := { s with ends := s.ends.set k e }

def endNext (s : State) (k : ℕ) : End → Option State
  | .checking serviceId arc => s.heap[arc]?.map fun svc =>
    s.setEnd k (if svc.terminals.isPersistent then .done else .removing serviceId)
  | .removing serviceId =>
    if s.locked then none
    else match s.services.lookup serviceId with
      | none => some (s.setEnd k .done)
      | some arc => some ((s.erase serviceId).setEnd k (.stopping arc))
  | .stopping arc => some ((s.withHeap (s.heap.modify arc Service.stopAll)).setEnd k .done)
  | .done => none

/-- `terminal` is a step of the sessions and loops of a service; a reset comes from `connect`. -/
inductive Event
  | tick (nanos : ℕ)
  | connect (serviceId : Str) (isPersistent isSpecifiedUser : Bool)
  | updateActivity (arc : ℕ)
  | terminal (arc : ℕ) (event : TerminalCleanup.Event)
  | beginCleanup (order : List (Str × ℕ))
  | cleanupNext
  | endRun (serviceId : Str)
  | endNext (k : ℕ)

def Services.pairs (t : Services) : List (Str × ℕ) := t.entries.map fun e => (e.1, e.2)

def isReset : TerminalCleanup.Event → Bool
  | .resetStatus _ => true
  | _ => false

def step (compress : LittleEndian.Bytes → LittleEndian.Bytes) (s : State) : Event → Option State
  | .tick nanos => some { s with now := s.now + nanos }
  | .connect serviceId isPersistent isSpecifiedUser =>
    if s.locked then none
    else some (getOrCreateService s serviceId isPersistent isSpecifiedUser)
  | .updateActivity arc => some (s.withHeap (s.heap.modify arc fun svc => svc.touch s.now))
  | .terminal arc event =>
    if isReset event then none
    else s.heap[arc]?.bind fun svc =>
      (TerminalCleanup.step compress svc.terminals event).map fun terminals =>
        s.withHeap (s.heap.set arc (svc.withTerminals terminals))
  | .beginCleanup order =>
    if s.locked = false ∧ s.cleanup = .sleeping ∧ order.Perm (Services.pairs s.services) then
      some (s.withCleanup (.deciding s.now order []))
    else none
  | .cleanupNext => TerminalRegistry.cleanupNext s
  | .endRun serviceId =>
    if s.locked then none
    else match s.services.lookup serviceId with
      | none => some s
      | some arc => some { s with ends := s.ends ++ [.checking serviceId arc] }
  | .endNext k => s.ends[k]?.bind fun e => TerminalRegistry.endNext s k e

/-! ### What the clean-up removes -/

def Cleanup.due : Cleanup → List Str
  | .sleeping => []
  | .deciding _ _ toRemove => toRemove
  | .removing toRemove => toRemove
  | .stopping _ toRemove => toRemove

def Due (s : State) (arc : ℕ) : Prop := ∃ serviceId ∈ s.cleanup.due,
    s.services.lookup serviceId = some arc

/-- What happens to a service that the clean-up has decided on leaves it idle: no new
service gets its id, no action comes, and its persistence and its terminals do not change so
that it would be kept. -/
def Guarded (s : State) : Event → Prop
  | .connect serviceId isPersistent _ => serviceId ∈ s.cleanup.due →
    serviceId ∈ s.services ∧ ∀ arc ∈ s.services.lookup serviceId, ∀ svc ∈ s.heap[arc]?,
      (svc.withPersistent isPersistent).idle s.now = true
  | .updateActivity arc => ¬ Due s arc
  | .terminal arc (.setPersistent isPersistent) => Due s arc → ∀ svc ∈ s.heap[arc]?,
    (svc.withPersistent isPersistent).idle s.now = true
  | .terminal arc (.openTerminal _ _ spawned) => Due s arc → spawned = none ∨
    ∀ svc ∈ s.heap[arc]?, svc.terminals.isPersistent = false
  | _ => True

/-! ### The size of the registry -/

variable (svc : Service) {s : State}

theorem length_keys_erase (services : Services) (serviceId : Str) :
    (services.erase serviceId).keys.length ≤ services.keys.length :=
  ((List.kerase_sublist serviceId services.entries).map Sigma.fst).length_le

theorem length_keys_insert (services : Services) (serviceId : Str) (arc : ℕ) :
    (services.insert serviceId arc).keys.length ≤ services.keys.length + 1 :=
  Nat.succ_le_succ (length_keys_erase services serviceId)

/-- Only `get_or_create_service` adds an entry, below the limit. -/
theorem small_step (compress : LittleEndian.Bytes → LittleEndian.Bytes) (s : State) (event : Event)
    (t : State) (h : s.services.keys.length ≤ MAX_SERVICES)
    (hstep : step compress s event = some t) :
    t.services.keys.length ≤ MAX_SERVICES := by
  cases event with
  | tick nanos =>
    obtain rfl := Option.some.inj hstep
    exact h
  | connect serviceId isPersistent isSpecifiedUser =>
    simp only [step] at hstep
    obtain ⟨-, rfl⟩ := of_guard_not hstep
    unfold getOrCreateService
    split
    · exact h
    · split
      · exact h
      case isFalse hnone hroom =>
        have hle := length_keys_insert s.services serviceId s.heap.length
        change ((s.services.insert serviceId s.heap.length).keys).length ≤ MAX_SERVICES
        omega
  | updateActivity arc =>
    obtain rfl := Option.some.inj hstep
    exact h
  | terminal arc event =>
    simp only [step] at hstep
    split at hstep
    · cases hstep
    · obtain ⟨svc, -, hrest⟩ := Option.bind_eq_some_iff.mp hstep
      obtain ⟨terminals, -, rfl⟩ := Option.map_eq_some_iff.mp hrest
      exact h
  | beginCleanup order =>
    simp only [step] at hstep
    obtain ⟨-, rfl⟩ := of_guard hstep
    exact h
  | cleanupNext =>
    replace hstep : cleanupNext s = some t := hstep
    unfold cleanupNext at hstep
    split at hstep
    · cases hstep
    · obtain rfl := Option.some.inj hstep
      exact h
    · obtain ⟨svc, -, rfl⟩ := Option.map_eq_some_iff.mp hstep
      exact h
    · obtain rfl := Option.some.inj hstep
      exact h
    case h_5 serviceId rest _ =>
      obtain ⟨-, rfl⟩ := of_guard_not hstep
      unfold removeIdle
      split
      · exact h
      · split
        · exact h
        · exact (length_keys_erase s.services serviceId).trans h
    · obtain rfl := Option.some.inj hstep
      exact h
  | endRun serviceId =>
    simp only [step] at hstep
    split at hstep
    · cases hstep
    · split at hstep
      · obtain rfl := Option.some.inj hstep
        exact h
      · obtain rfl := Option.some.inj hstep
        exact h
  | endNext k =>
    obtain ⟨e, -, hrest⟩ := Option.bind_eq_some_iff.mp hstep
    cases e with
    | checking serviceId arc =>
      obtain ⟨svc, -, rfl⟩ := Option.map_eq_some_iff.mp hrest
      exact h
    | removing serviceId =>
      unfold endNext at hrest
      simp only at hrest
      split at hrest
      · cases hrest
      · split at hrest
        · obtain rfl := Option.some.inj hrest
          exact h
        · obtain rfl := Option.some.inj hrest
          exact (length_keys_erase s.services serviceId).trans h
    | stopping arc =>
      obtain rfl := Option.some.inj hrest
      exact h
    | done => cases hrest

/-! ### The invariant -/

structure Inv (s : State) : Prop where
  apart : ∀ i j arc, s.services.lookup i = some arc → s.services.lookup j = some arc → i = j
  known : ∀ serviceId arc, s.services.lookup serviceId = some arc → arc < s.heap.length
  deciding : ∀ now todo toRemove, s.cleanup = .deciding now todo toRemove →
    now ≤ s.now ∧ ∀ e ∈ todo, s.services.lookup e.1 = some e.2
  due : ∀ arc svc, Due s arc → s.heap[arc]? = some svc → svc.idle s.now = true
  removed : ∀ r ∈ s.removals, r.service.idle r.now = true
  stopping : ∀ arc rest, s.cleanup = .stopping arc rest → ∃ r ∈ s.removals, r.arc = arc
  stopped : ∀ arc ∈ s.stopped, ∃ r ∈ s.removals, r.arc = arc

theorem idle_iff (now : ℕ) :
    svc.idle now = true ↔
      (svc.terminals.isPersistent = false ∧ SERVICE_IDLE_TIMEOUT < now - svc.lastActivity) ∨
        (svc.terminals.isPersistent = true ∧ svc.terminals.sessions.keys = [] ∧
          SERVICE_IDLE_TIMEOUT * 2 < now - svc.lastActivity) := by
  simp [Service.idle, and_assoc]

theorem idle_mono (now now' : ℕ) (hle : now ≤ now') (h : svc.idle now = true) :
    svc.idle now' = true := by
  rw [idle_iff] at h ⊢
  rcases h with ⟨hkind, hidle⟩ | ⟨hkind, hnone, hidle⟩
  · exact Or.inl ⟨hkind, by omega⟩
  · exact Or.inr ⟨hkind, hnone, by omega⟩

/-- A service stays idle with the same persistence, and no sessions if it has to have none. -/
theorem idle_of_keeps (terminals : TerminalCleanup.System) (now : ℕ)
    (hpersistent : terminals.isPersistent = svc.terminals.isPersistent)
    (hempty : svc.terminals.isPersistent = true → svc.terminals.sessions.keys = [] →
      terminals.sessions.keys = [])
    (h : svc.idle now = true) : (svc.withTerminals terminals).idle now = true := by
  rw [idle_iff] at h ⊢
  rcases h with ⟨hkind, hidle⟩ | ⟨hkind, hnone, hidle⟩
  · exact Or.inl ⟨hpersistent.trans hkind, hidle⟩
  · exact Or.inr ⟨hpersistent.trans hkind, hempty hkind hnone, hidle⟩

theorem Inv.withHeap (h : Inv s) (heap : List Service) (hlength : s.heap.length ≤ heap.length)
    (hdue : ∀ arc svc, Due s arc → heap[arc]? = some svc → svc.idle s.now = true) :
    Inv (s.withHeap heap) :=
  ⟨h.apart, fun serviceId arc harc => (h.known serviceId arc harc).trans_le hlength, h.deciding,
    hdue, h.removed, h.stopping, h.stopped⟩

/-- A service changes; if the clean-up is going to remove it, it stays idle. -/
theorem Inv.modify (h : Inv s) (arc : ℕ) (f : Service → Service)
    (hidle : Due s arc → ∀ svc ∈ s.heap[arc]?, svc.idle s.now = true → (f svc).idle s.now = true) :
    Inv (s.withHeap (s.heap.modify arc f)) := by
  refine h.withHeap _ (by rw [List.length_modify]) ?_
  intro b svc' hdue hget
  rw [List.getElem?_modify] at hget
  obtain ⟨svc, hsvc, rfl⟩ := Option.map_eq_some_iff.mp hget
  have hold := h.due b svc hdue hsvc
  by_cases hb : arc = b
  · subst hb
    simpa using hidle hdue svc hsvc hold
  · simpa [hb] using hold

theorem Inv.stopAll (h : Inv s) (arc : ℕ) : Inv (s.withHeap (s.heap.modify arc Service.stopAll)) :=
  h.modify arc _ (fun _ svc _ hidle => idle_of_keeps svc _ s.now rfl (fun _ hnone => hnone) hidle)

/-- An entry leaves the registry while no decision is under way. -/
theorem Inv.erase (h : Inv s) (serviceId : Str) (hlocked : s.cleanup.holdsLock = false) :
    Inv (s.erase serviceId) := by
  have hold : ∀ id arc, (s.services.erase serviceId).lookup id = some arc →
      s.services.lookup id = some arc := by
    intro id arc harc
    by_cases heq : id = serviceId
    · rw [heq, AList.lookup_erase] at harc
      cases harc
    · rwa [AList.lookup_erase_ne heq] at harc
  refine ⟨?_, ?_, ?_, ?_, h.removed, h.stopping, h.stopped⟩
  · intro i j arc hi hj
    exact h.apart i j arc (hold i arc hi) (hold j arc hj)
  · intro id arc harc
    exact h.known id arc (hold id arc harc)
  · intro now todo toRemove hcleanup
    rw [show s.cleanup = .deciding now todo toRemove from hcleanup] at hlocked
    cases hlocked
  · rintro arc svc ⟨id, hid, harc⟩ hsvc
    exact h.due arc svc ⟨id, hid, hold id arc harc⟩ hsvc

theorem Inv.withCleanup (h : Inv s) (cleanup : Cleanup)
    (hdeciding : ∀ now todo toRemove, cleanup ≠ .deciding now todo toRemove)
    (hstopping : ∀ arc rest, cleanup = .stopping arc rest → ∃ r ∈ s.removals, r.arc = arc)
    (hdue : ∀ id ∈ cleanup.due, id ∈ s.cleanup.due) : Inv (s.withCleanup cleanup) := by
  refine ⟨h.apart, h.known, ?_, ?_, h.removed, hstopping, h.stopped⟩
  · intro now todo toRemove heq
    exact absurd heq (hdeciding now todo toRemove)
  · rintro arc svc ⟨id, hid, harc⟩ hsvc
    exact h.due arc svc ⟨id, hdue id hid, harc⟩ hsvc

theorem inv_removeIdle (h : Inv s) (serviceId : Str) (rest : List Str)
    (hcleanup : s.cleanup = .removing (serviceId :: rest)) : Inv (removeIdle s serviceId rest) := by
  have hskip : Inv (s.withCleanup (.removing rest)) := by
    refine h.withCleanup _ (fun _ _ _ heq => by cases heq) (fun _ _ heq => by cases heq) ?_
    intro id hid
    rw [hcleanup]
    exact List.mem_cons_of_mem serviceId hid
  unfold removeIdle
  cases harc : s.services.lookup serviceId with
  | none => exact hskip
  | some arc =>
    simp only
    cases hsvc : s.heap[arc]? with
    | none => exact hskip
    | some svc =>
      have hidle : svc.idle s.now = true := by
        refine h.due arc svc ⟨serviceId, ?_, harc⟩ hsvc
        rw [hcleanup]
        exact List.mem_cons_self
      have herased := hskip.erase serviceId rfl
      refine ⟨herased.apart, herased.known, fun _ _ _ heq => (by cases heq), ?_, ?_, ?_, ?_⟩
      · rintro b svc' ⟨id, hid, hb⟩ hsvc'
        exact herased.due b svc' ⟨id, hid, hb⟩ hsvc'
      · intro r hr
        rcases List.mem_append.mp hr with hold | hnew
        · exact h.removed r hold
        · rw [List.mem_singleton.mp hnew]
          exact hidle
      · intro b later heq
        obtain ⟨rfl, -⟩ := Cleanup.stopping.inj heq
        exact ⟨_, List.mem_append_right _ (List.mem_singleton_self _), rfl⟩
      · intro b hb
        obtain ⟨r, hr, hrb⟩ := h.stopped b hb
        exact ⟨r, List.mem_append_left _ hr, hrb⟩

theorem inv_cleanupNext {t : State} (h : Inv s) (hstep : cleanupNext s = some t) : Inv t := by
  cases hcleanup : s.cleanup with
  | sleeping => simp [cleanupNext, hcleanup] at hstep
  | deciding now todo toRemove =>
    obtain ⟨hnow, htodo⟩ := h.deciding now todo toRemove hcleanup
    cases todo with
    | nil =>
      simp only [cleanupNext, hcleanup, Option.some.injEq] at hstep
      subst hstep
      refine h.withCleanup _ (fun _ _ _ heq => by cases heq) (fun _ _ heq => by cases heq) ?_
      intro id hid
      rw [hcleanup]
      exact hid
    | cons e todo =>
      obtain ⟨serviceId, arc⟩ := e
      simp only [cleanupNext, hcleanup, Option.map_eq_some_iff] at hstep
      obtain ⟨svc, hsvc, rfl⟩ := hstep
      have harc := htodo (serviceId, arc) List.mem_cons_self
      refine ⟨h.apart, h.known, ?_, ?_, h.removed, fun _ _ heq => (by cases heq), h.stopped⟩
      · intro now' todo' toRemove' heq
        obtain ⟨rfl, rfl, -⟩ := Cleanup.deciding.inj heq
        exact ⟨hnow, fun d hd => htodo d (List.mem_cons_of_mem _ hd)⟩
      · rintro b svc' ⟨id, hid, hb⟩ hsvc'
        change id ∈ (if svc.idle now then toRemove ++ [serviceId] else toRemove) at hid
        have hcase : id ∈ toRemove ∨ (id = serviceId ∧ svc.idle now = true) := by
          split at hid
          case isTrue hidle =>
            rcases List.mem_append.mp hid with hold | hnew
            · exact Or.inl hold
            · exact Or.inr ⟨List.mem_singleton.mp hnew, hidle⟩
          case isFalse => exact Or.inl hid
        rcases hcase with hold | ⟨rfl, hidle⟩
        · exact h.due b svc' ⟨id, by rw [hcleanup]; exact hold, hb⟩ hsvc'
        · -- the service just decided on
          obtain rfl := Option.some.inj (harc.symm.trans hb)
          obtain rfl := Option.some.inj (hsvc.symm.trans hsvc')
          exact idle_mono svc now s.now hnow hidle
  | removing toRemove =>
    cases toRemove with
    | nil =>
      simp only [cleanupNext, hcleanup, Option.some.injEq] at hstep
      subst hstep
      exact h.withCleanup _ (fun _ _ _ heq => by cases heq) (fun _ _ heq => by cases heq)
        (fun id hid => by cases hid)
    | cons serviceId rest =>
      simp only [cleanupNext, hcleanup] at hstep
      obtain ⟨-, rfl⟩ := of_guard_not hstep
      exact inv_removeIdle h serviceId rest hcleanup
  | stopping arc rest =>
    simp only [cleanupNext, hcleanup, Option.some.injEq] at hstep
    subst hstep
    have hstopped := h.stopAll arc
    refine ⟨hstopped.apart, hstopped.known, fun _ _ _ heq => (by cases heq), ?_, h.removed,
      fun _ _ heq => (by cases heq), ?_⟩
    · rintro b svc ⟨id, hid, hb⟩ hsvc
      refine hstopped.due b svc ⟨id, ?_, hb⟩ hsvc
      change id ∈ s.cleanup.due
      rw [hcleanup]
      exact hid
    · intro b hb
      rcases List.mem_append.mp hb with hold | hnew
      · exact h.stopped b hold
      · obtain rfl := List.mem_singleton.mp hnew
        exact h.stopping b rest hcleanup

theorem inv_connect (h : Inv s) (serviceId : Str) (isPersistent isSpecifiedUser : Bool)
    (hlocked : s.locked = false)
    (hguard : Guarded s (.connect serviceId isPersistent isSpecifiedUser)) :
    Inv (getOrCreateService s serviceId isPersistent isSpecifiedUser) := by
  unfold getOrCreateService
  cases harc : s.services.lookup serviceId with
  | some arc =>
    refine h.modify arc _ ?_
    rintro ⟨id, hid, hlookup⟩ svc hsvc -
    obtain rfl := h.apart id serviceId arc hlookup harc
    obtain ⟨-, hidle⟩ := hguard hid
    exact hidle arc harc svc hsvc
  | none =>
    have hnot : serviceId ∉ s.services := AList.lookup_eq_none.mp harc
    have hnotDue : serviceId ∉ s.cleanup.due := fun hdue => hnot (hguard hdue).1
    have hdeciding : ∀ now todo toRemove, s.cleanup ≠ .deciding now todo toRemove := by
      intro now todo toRemove hcleanup
      simp [State.locked, hcleanup, Cleanup.holdsLock] at hlocked
    simp only
    split
    · exact h
    · have hsame : ∀ id, id ≠ serviceId →
          (s.services.insert serviceId s.heap.length).lookup id = s.services.lookup id :=
        fun id hid => AList.lookup_insert_ne hid
      have hnew : (s.services.insert serviceId s.heap.length).lookup serviceId =
          some s.heap.length := AList.lookup_insert _
      have hstrange : ∀ id, s.services.lookup id ≠ some s.heap.length :=
        fun id hid => absurd (h.known id _ hid) (lt_irrefl _)
      refine ⟨?_, ?_, ?_, ?_, h.removed, h.stopping, h.stopped⟩
      · intro i j arc hi hj
        by_cases hi' : i = serviceId
        · by_cases hj' : j = serviceId
          · exact hi'.trans hj'.symm
          · rw [hi', hnew] at hi
            rw [hsame j hj', ← hi] at hj
            exact absurd hj (hstrange j)
        · rw [hsame i hi'] at hi
          by_cases hj' : j = serviceId
          · rw [hj', hnew] at hj
            rw [← hj] at hi
            exact absurd hi (hstrange i)
          · rw [hsame j hj'] at hj
            exact h.apart i j arc hi hj
      · intro id arc hid
        rw [List.length_append, List.length_singleton]
        by_cases heq : id = serviceId
        · rw [heq, hnew] at hid
          obtain rfl := Option.some.inj hid
          exact Nat.lt_succ_self _
        · rw [hsame id heq] at hid
          exact Nat.lt_succ_of_lt (h.known id arc hid)
      · intro now todo toRemove hcleanup
        exact absurd hcleanup (hdeciding now todo toRemove)
      · rintro arc svc ⟨id, hid, hlookup⟩ hsvc
        have hne : id ≠ serviceId := by
          rintro rfl
          exact hnotDue hid
        rw [hsame id hne] at hlookup
        rw [List.getElem?_append_left (h.known id arc hlookup)] at hsvc
        exact h.due arc svc ⟨id, hid, hlookup⟩ hsvc

theorem inv_terminal {compress : LittleEndian.Bytes → LittleEndian.Bytes} {s : State} (h : Inv s)
    (arc : ℕ) (event : TerminalCleanup.Event) (svc : Service) (terminals : TerminalCleanup.System)
    (hreset : isReset event = false) (hguard : Guarded s (.terminal arc event))
    (hsvc : s.heap[arc]? = some svc)
    (hstep : TerminalCleanup.step compress svc.terminals event = some terminals) :
    Inv (s.withHeap (s.heap.set arc (svc.withTerminals terminals))) := by
  refine h.withHeap _ (by rw [List.length_set]) ?_
  intro b svc' hdue hget
  by_cases hb : arc = b
  · subst hb
    rw [List.getElem?_set_self (List.getElem?_eq_some_iff.mp hsvc).1] at hget
    obtain rfl := Option.some.inj hget
    have hidle := h.due arc svc hdue hsvc
    by_cases hset : ∃ isPersistent, event = .setPersistent isPersistent
    · obtain ⟨isPersistent, rfl⟩ := hset
      obtain rfl := Option.some.inj hstep
      exact hguard hdue svc hsvc
    · have hnoReset : ∀ p, event ≠ .resetStatus p := by
        rintro p rfl
        cases hreset
      obtain ⟨hpersistent, hempty⟩ := keeps_step compress svc.terminals terminals event hnoReset
        (fun p hp => hset ⟨p, hp⟩) hstep
      refine idle_of_keeps svc terminals s.now hpersistent (fun hkind hnone => ?_) hidle
      refine hempty ?_ hnone
      rintro o arriving spawned rfl
      rcases hguard hdue with hspawned | hnot
      · exact hspawned
      · rw [hnot svc hsvc] at hkind
        cases hkind
  · rw [List.getElem?_set_ne hb] at hget
    exact h.due b svc' hdue hget

theorem inv_step (compress : LittleEndian.Bytes → LittleEndian.Bytes) (s : State) (event : Event)
    (t : State) (hguard : Guarded s event) (h : Inv s) (hstep : step compress s event = some t) :
    Inv t := by
  cases event with
  | tick nanos =>
    obtain rfl := Option.some.inj hstep
    refine ⟨h.apart, h.known, ?_, ?_, h.removed, h.stopping, h.stopped⟩
    · intro now todo toRemove hcleanup
      obtain ⟨hnow, htodo⟩ := h.deciding now todo toRemove hcleanup
      exact ⟨Nat.le_add_right_of_le hnow, htodo⟩
    · intro arc svc hdue hsvc
      exact idle_mono svc s.now _ (Nat.le_add_right _ _) (h.due arc svc hdue hsvc)
  | connect serviceId isPersistent isSpecifiedUser =>
    simp only [step] at hstep
    split at hstep
    · cases hstep
    case isFalse hlocked =>
      obtain rfl := Option.some.inj hstep
      exact inv_connect h serviceId isPersistent isSpecifiedUser (by simpa using hlocked) hguard
  | updateActivity arc =>
    obtain rfl := Option.some.inj hstep
    exact h.modify arc _ (fun hdue => absurd hdue hguard)
  | terminal arc event =>
    simp only [step] at hstep
    split at hstep
    · cases hstep
    case isFalse hreset =>
      obtain ⟨svc, hsvc, hrest⟩ := Option.bind_eq_some_iff.mp hstep
      obtain ⟨terminals, hterminals, rfl⟩ := Option.map_eq_some_iff.mp hrest
      exact inv_terminal h arc event svc terminals (by simpa using hreset) hguard hsvc hterminals
  | beginCleanup order =>
    simp only [step] at hstep
    split at hstep
    case isTrue hcond =>
      obtain ⟨-, -, hperm⟩ := hcond
      obtain rfl := Option.some.inj hstep
      refine ⟨h.apart, h.known, ?_, ?_, h.removed, fun _ _ heq => (by cases heq), h.stopped⟩
      · intro now todo toRemove heq
        obtain ⟨rfl, rfl, -⟩ := Cleanup.deciding.inj heq
        refine ⟨le_rfl, fun e he => ?_⟩
        obtain ⟨entry, hentry, rfl⟩ := List.mem_map.mp (hperm.mem_iff.mp he)
        exact AList.mem_lookup_iff.mpr hentry
      · rintro arc svc ⟨id, hid, -⟩ -
        cases hid
    case isFalse => cases hstep
  | cleanupNext => exact inv_cleanupNext h hstep
  | endRun serviceId =>
    simp only [step] at hstep
    split at hstep
    · cases hstep
    · split at hstep
      · obtain rfl := Option.some.inj hstep
        exact h
      · obtain rfl := Option.some.inj hstep
        exact ⟨h.apart, h.known, h.deciding, h.due, h.removed, h.stopping, h.stopped⟩
  | endNext k =>
    have hset : ∀ (u : State) (e : End), Inv u → Inv (u.setEnd k e) := fun u e hu =>
      ⟨hu.apart, hu.known, hu.deciding, hu.due, hu.removed, hu.stopping, hu.stopped⟩
    obtain ⟨e, -, hrest⟩ := Option.bind_eq_some_iff.mp hstep
    cases e with
    | checking serviceId arc =>
      obtain ⟨svc, -, rfl⟩ := Option.map_eq_some_iff.mp hrest
      exact hset s _ h
    | removing serviceId =>
      simp only [endNext] at hrest
      split at hrest
      · cases hrest
      case isFalse hlocked =>
        have hfree : s.cleanup.holdsLock = false := by
          simp only [State.locked, Bool.or_eq_true, not_or, Bool.not_eq_true] at hlocked
          exact hlocked.1
        split at hrest
        · obtain rfl := Option.some.inj hrest
          exact hset s _ h
        · obtain rfl := Option.some.inj hrest
          exact hset _ _ (h.erase serviceId hfree)
    | stopping arc =>
      obtain rfl := Option.some.inj hrest
      exact hset _ _ (h.stopAll arc)
    | done => cases hrest

/-- The registry never exceeds its limit; and in a run in which nothing happens to a service
between the decision on it and its removal that would keep it, the idle clean-up removes and stops
only services that are idle when they are removed. -/
theorem clean_up_idle (compress : LittleEndian.Bytes → LittleEndian.Bytes) (events : List Event)
    (s : State) (hexec : Runs.exec (step compress) start events = some s) :
    s.services.keys.length ≤ MAX_SERVICES ∧
      (Runs.Meets Guarded (step compress) start events →
        (∀ r ∈ s.removals, r.service.idle r.now = true) ∧
          ∀ arc ∈ s.stopped, ∃ r ∈ s.removals, r.arc = arc) := by
  refine ⟨?_, fun hmeets => ?_⟩
  · exact Runs.invariant_of_exec (step compress) (fun t => t.services.keys.length ≤ MAX_SERVICES)
      (fun t e u ht hu => small_step compress t e u ht hu) start s events (Nat.zero_le _) hexec
  · have hstart : Inv start := by
      refine ⟨?_, ?_, ?_, ?_, ?_, ?_, ?_⟩
      · intro i j arc hi
        cases hi
      · intro id arc hid
        cases hid
      · intro now todo toRemove hcleanup
        cases hcleanup
      · rintro arc svc ⟨id, hid, -⟩ -
        cases hid
      · intro r hr
        cases hr
      · intro arc rest hcleanup
        cases hcleanup
      · intro arc harc
        cases harc
    have hinv := Runs.invariant_of_meets Guarded (step compress) Inv (inv_step compress) start s
      events hstart hmeets hexec
    exact ⟨hinv.removed, hinv.stopped⟩

instance decidableGuarded (s : State) (event : Event) : Decidable (Guarded s event) := by
  unfold Guarded Due
  split <;> infer_instance

/-- A service with a terminal is left alone for more than an hour; the clean-up decides on it. -/
def decidedRun : List Event :=
  [.connect ['t', 's'] false false, .updateActivity 0,
    .terminal 0 (.openTerminal ⟨1, 24, 80⟩ [] (some 100)), .tick 3601000000000,
    .beginCleanup [(['t', 's'], 0)], .cleanupNext, .cleanupNext]

def sampleRun : List Event := decidedRun ++ [.cleanupNext, .cleanupNext, .cleanupNext]

theorem clean_up_idle_sample :
    ∃ s, Runs.exec (step id) start sampleRun = some s ∧ s.services.keys = [] ∧
      s.heap.map (fun svc => svc.terminals.heap.map TerminalSession.child) = [[none]] ∧
      s.removals.map Removal.arc = [0] ∧ s.stopped = [0] ∧
      s.services.keys.length ≤ MAX_SERVICES ∧
      (∀ r ∈ s.removals, r.service.idle r.now = true) ∧
      ∀ arc ∈ s.stopped, ∃ r ∈ s.removals, r.arc = arc := by
  have hrun : (Runs.exec (step id) start sampleRun).map (fun s =>
      (s.services.keys, s.heap.map (fun svc => svc.terminals.heap.map TerminalSession.child),
        s.removals.map Removal.arc, s.stopped)) = some ([], [[none]], [0], [0]) := by
    decide
  obtain ⟨s, hs, hresult⟩ := Option.map_eq_some_iff.mp hrun
  rw [Prod.mk.injEq, Prod.mk.injEq, Prod.mk.injEq] at hresult
  obtain ⟨hkeys, hchildren, hremovals, hstopped⟩ := hresult
  obtain ⟨hsmall, hidle⟩ := clean_up_idle id sampleRun s hs
  exact ⟨s, hs, hkeys, hchildren, hremovals, hstopped, hsmall, hidle (by decide)⟩

/-- After the decision the user comes back, keeps the service, and works in its terminal. -/
def returnedRun : List Event :=
  decidedRun ++ [.connect ['t', 's'] true false, .updateActivity 0,
    .terminal 0 (.openTerminal ⟨1, 24, 80⟩ [] none), .cleanupNext, .cleanupNext]

/-- The service is removed and its terminal stopped, though it is persistent, has a terminal and
was just used. -/
theorem returned_service_removed :
    ∃ s, Runs.exec (step id) start returnedRun = some s ∧ s.stopped = [0] ∧
      s.removals.map (fun r => (r.service.terminals.isPersistent,
        r.service.terminals.sessions.keys, r.now - r.service.lastActivity)) = [(true, [1], 0)] ∧
      ¬ ∀ r ∈ s.removals, r.service.idle r.now = true := by
  have hrun : (Runs.exec (step id) start returnedRun).map (fun s =>
      (s.stopped, s.removals.map (fun r => (r.service.terminals.isPersistent,
        r.service.terminals.sessions.keys, r.now - r.service.lastActivity)))) =
      some ([0], [(true, [1], 0)]) := by
    decide
  obtain ⟨s, hs, hresult⟩ := Option.map_eq_some_iff.mp hrun
  obtain ⟨hstopped, hremovals⟩ := Prod.mk.inj hresult
  refine ⟨s, hs, hstopped, hremovals, fun hidle => ?_⟩
  have hmem : (true, [1], 0) ∈ s.removals.map (fun r => (r.service.terminals.isPersistent,
      r.service.terminals.sessions.keys, r.now - r.service.lastActivity)) := by
    rw [hremovals]
    exact List.mem_cons_self
  obtain ⟨r, hr, heq⟩ := List.mem_map.mp hmem
  rw [Prod.mk.injEq, Prod.mk.injEq] at heq
  obtain ⟨hpersistent, -, hnow⟩ := heq
  rcases (idle_iff r.service r.now).mp (hidle r hr) with ⟨hnot, -⟩ | ⟨-, -, hlong⟩
  · rw [hpersistent] at hnot
    cases hnot
  · omega

end ClantoDesk.TerminalRegistry
