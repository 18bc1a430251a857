import ClantoDesk.ForwardEngine

/-!
The listeners of the forwards. On the host, `on_listen` and the `Unlisten` branch of
src/clanto/forwarding/engine.rs; on the controller, `add`, `remove` and `close` of
src/clanto/forwarding/controller.rs. A listener has a task that accepts connections: for
each it opens a channel, and then notes the channel under the listener. Opening, noting and the two
halves of a removal are separate critical sections, and each is one event below. Aborting a
task stops it only where it waits for a connection.
-/
namespace ClantoDesk.ForwardListeners

open FlowControl ChannelTable ForwardEngine

def maxListeners : ℕ := 32
def maxForwards : ℕ := 32

/-- Where the task of a listener is: parked, being polled and about to accept, with a
connection in hand, with a channel opened for it and not yet noted, or at its end. -/
inductive Phase
  | idle | polled | accepted
  | opened (channel : ℤ)
  | stopped
  deriving DecidableEq

structure AcceptTask where
  listener : ℤ
  phase : Phase
  aborted : Bool

/-- A removal between its first critical section and its last. `task` is the handle still to
be aborted. -/
structure Removal where
  listener : ℤ
  task : Option ℕ
  channels : List ℤ

/-- `listed` is `listeners` of the host and `items` of the controller, with the handles of the
tasks. Only the host writes `listenerChannels`, only the controller `channels`, `adding` and
`refusals`. What the code does not keep: which listener opened a channel, and which listeners were
removed and not added again. -/
structure State where
  engine : Engine
  listed : List (ℤ × Option ℕ)
  accepts : List AcceptTask
  listenerChannels : List (ℤ × List ℤ)
  channels : List (ℤ × ℤ)
  nextForward : ℤ
  adding : List (ℤ × Option ℕ)
  refusals : List ℤ
  removals : List Removal
  openers : List (ℕ × ℤ)
  removed : List ℤ

def start (side : Side) : State :=
  ⟨ForwardEngine.start (.engine side), [], [], [], [], 1, [], [], [], [], []⟩

/-- The answer to `Listen`. -/
structure Listening where
  listenId : ℤ
  success : Bool
  message : String
  port : ℤ

namespace State

def setPhase (s : State) (k : ℕ) (phase : Phase) : State :=
  { s with accepts := s.accepts.modify k fun task => { task with phase := phase } }

/-- `JoinHandle::abort`. -/
def abort (s : State) (handle : Option ℕ) : State :=
  match handle with
  | none => s
  | some k => { s with accepts := s.accepts.modify k fun task => { task with aborted := true } }

def handle (s : State) (id : ℤ) : Option ℕ :=
  (s.listed.find? fun p => decide (p.1 = id)).bind Prod.snd

/-- `HashMap::insert` of a listener or a forward. -/
def list (s : State) (id : ℤ) (handle : Option ℕ) : State :=
  { s with
    listed := (id, handle) :: s.listed.filter fun p => decide (p.1 ≠ id)
    removed := s.removed.filter fun r => decide (r ≠ id) }

def unlist (s : State) (id : ℤ) : State :=
  { s with listed := s.listed.filter fun p => decide (p.1 ≠ id) }

end State

def channelsOf (listenerChannels : List (ℤ × List ℤ)) (id : ℤ) : List ℤ :=
  ((listenerChannels.find? fun p => decide (p.1 = id)).map Prod.snd).getD []

/-- `Engine::on_listen`. A second listener under the same id replaces the first. -/
def onListen (s : State) (id : ℤ) (authorize : Except String Unit) (port : ℤ)
    (bind : Except String ℤ) : Listening × State :=
  match authorize with
  | .error e => (⟨id, false, e, 0⟩, s)
  | .ok () =>
    if ¬ (port = 0 ∨ 1024 ≤ port ∧ port ≤ 65535) then (⟨id, false, "Invalid port", 0⟩, s)
    else if maxListeners ≤ s.listed.length then
      (⟨id, false, "Too many forwarding listeners", 0⟩, s)
    else
      match bind with
      | .error e => (⟨id, false, "Cannot listen on port " ++ toString port ++ ": " ++ e, 0⟩, s)
      | .ok bound =>
        let s' : State := { s with accepts := s.accepts ++ [⟨id, .idle, false⟩] }
        (⟨id, true, "", bound⟩, (s'.list id (some s.accepts.length)).abort (s.handle id))

/-- The first half of `Unlisten` on the host. -/
def unlisten (s : State) (id : ℤ) : State :=
  let s' := (s.unlist id).abort (s.handle id)
  { s' with
    listenerChannels := s.listenerChannels.filter fun p => decide (p.1 ≠ id)
    removals := s.removals ++ [⟨id, none, channelsOf s.listenerChannels id⟩]
    removed := id :: s.removed }

/-- `reserve` on the controller; only a forward to the host gets a listener here. -/
def reserve (s : State) (toHost : Bool) : Except String (ℤ × State) :=
  if maxForwards ≤ s.listed.length then .error "Too many forwards"
  else
    let id := s.nextForward
    let s' : State := { s with nextForward := if id + 1 ≤ i32Max then id + 1 else i32Min }
    .ok (id, { s'.list id none with
      adding := if toHost then s.adding ++ [(id, none)] else s.adding })

/-- The end of `add`: the handle goes into the item, if that is still there. -/
def register (s : State) (id : ℤ) (k : ℕ) : Except String State :=
  if ∃ p ∈ s.listed, p.1 = id then
    .ok { s with
      listed := s.listed.map fun p => if p.1 = id then (p.1, some k) else p }
  else .error "Forward removed"

/-- The first half of `remove` on the controller. -/
def remove (s : State) (id : ℤ) : State :=
  if ∃ p ∈ s.listed, p.1 = id then
    let channels := (s.channels.filter fun p => decide (p.2 = id)).map Prod.fst
    { s.unlist id with
      channels := s.channels.filter fun p => decide (p.2 ≠ id)
      removals := s.removals ++ [⟨id, s.handle id, channels⟩]
      removed := id :: s.removed }
  else s

def note (side : Side) (s : State) (id channel : ℤ) : State :=
  match side with
  | .host =>
    let live := (channelsOf s.listenerChannels id).filter fun c => decide (c ∈ s.engine.ids)
    { s with
      listenerChannels :=
        (id, live ++ [channel]) :: s.listenerChannels.filter fun p => decide (p.1 ≠ id) }
  | .controller =>
    let live := s.channels.filter fun p => decide (p.1 ∈ s.engine.ids)
    { s with channels := (channel, id) :: live.filter fun p => decide (p.1 ≠ channel) }

/-- `wake` to `cancel` are steps of an accept task, the first number being the task's;
`failAccept` also stands for an engine that is gone. `abortRemoved` and `closeRemoved` finish the
removal at this place. -/
inductive Event
  | listen (id : ℤ) (authorize : Except String Unit) (port : ℤ) (bind : Except String ℤ)
  | unlisten (id : ℤ)
  | reserve (toHost : Bool)
  | spawn (place : ℕ)
  | register (place : ℕ)
  | remove (id : ℤ)
  | abortRemoved (place : ℕ)
  | closeRemoved (place : ℕ)
  | reportRefused (place : ℕ)
  | closeForwards
  | wake (k : ℕ) | accept (k : ℕ) | failAccept (k : ℕ)
  | «open» (k : ℕ) (gone : Bool)
  | note (k : ℕ)
  | park (k : ℕ) | cancel (k : ℕ)
  | frame (frame : Frame)
  | task (channel : ℕ) (action : Local)
  | endTask (channel : ℕ)
  | closeAll

def drain (s : State) : State :=
  { s.listed.foldl (fun s p => s.abort p.2) s with listed := [] }

/-- What the frame of the peer leaves for `on_refused`, which runs after the table is
unlocked. -/
def refusedBy (side : Side) (s : State) : Frame → List ℤ
  | .opened id false _ => if side = .controller ∧ id ∈ s.engine.ids then [id] else []
  | _ => []

def step (side : Side) (s : State) : Event → Option State
  | .listen id authorize port bind =>
    if side = .host ∧ s.removals = [] then some (onListen s id authorize port bind).2 else none
  | .unlisten id => if side = .host ∧ s.removals = [] then some (unlisten s id) else none
  | .reserve toHost =>
    if side = .controller then
      match reserve s toHost with
      | .error _ => some s
      | .ok (_, t) => some t
    else none
  | .spawn place =>
    match s.adding[place]? with
    | some (id, none) => some { s with
        accepts := s.accepts ++ [⟨id, .idle, false⟩]
        adding := s.adding.set place (id, some s.accepts.length) }
    | _ => none
  | .register place =>
    match s.adding[place]? with
    | some (id, some k) =>
      let s' : State := { s with adding := s.adding.eraseIdx place }
      match register s' id k with
      | .error _ => some s'
      | .ok t => some t
    | _ => none
  | .remove id => if side = .controller then some (remove s id) else none
  | .abortRemoved place =>
    match s.removals[place]? with
    | some r =>
      some { s.abort r.task with removals := s.removals.set place { r with task := none } }
    | none => none
  | .closeRemoved place =>
    match s.removals[place]? with
    | some ⟨_, none, channels⟩ =>
      (ForwardEngine.step (.engine side) s.engine (.closeChannels channels)).map fun engine =>
        { s with engine := engine, removals := s.removals.eraseIdx place }
    | _ => none
  | .reportRefused place =>
    match s.refusals[place]? with
    | some channel => some { s with
        refusals := s.refusals.eraseIdx place
        channels := s.channels.filter fun p => decide (p.1 ≠ channel) }
    | none => none
  | .closeForwards => if side = .controller then some (drain s) else none
  | .wake k =>
    match s.accepts[k]? with
    | some ⟨_, .idle, false⟩ => some (s.setPhase k .polled)
    | _ => none
  | .accept k =>
    match s.accepts[k]? with
    | some ⟨_, .polled, _⟩ => some (s.setPhase k .accepted)
    | _ => none
  | .failAccept k =>
    match s.accepts[k]? with
    | some ⟨_, .polled, _⟩ => some (s.setPhase k .stopped)
    | some ⟨_, .accepted, _⟩ => some (s.setPhase k .stopped)
    | _ => none
  | .open k gone =>
    match s.accepts[k]? with
    | some ⟨listener, .accepted, _⟩ =>
      (openOutgoing (.engine side) s.engine gone).map fun
        | .error _ => s.setPhase k .polled
        | .ok (id, engine) =>
          { s.setPhase k (.opened id) with
            engine := engine
            openers := (s.engine.table.made.length, listener) :: s.openers }
    | _ => none
  | .note k =>
    match s.accepts[k]? with
    | some ⟨listener, .opened channel, _⟩ =>
      some ((note side s listener channel).setPhase k .polled)
    | _ => none
  | .park k =>
    match s.accepts[k]? with
    | some ⟨_, .polled, aborted⟩ => some (s.setPhase k (if aborted then .stopped else .idle))
    | _ => none
  | .cancel k =>
    match s.accepts[k]? with
    | some ⟨_, .idle, true⟩ => some (s.setPhase k .stopped)
    | _ => none
  | .frame frame =>
    if side = .host ∧ s.removals ≠ [] then none
    else
      (ForwardEngine.step (.engine side) s.engine (.frame frame)).map fun engine =>
        { s with engine := engine, refusals := s.refusals ++ refusedBy side s frame }
  | .task k action =>
    (ForwardEngine.step (.engine side) s.engine (.task k action)).map fun engine =>
      { s with engine := engine }
  | .endTask k =>
    (ForwardEngine.step (.engine side) s.engine (.endTask k)).map fun engine =>
      { s with engine := engine }
  | .closeAll =>
    (ForwardEngine.step (.engine side) s.engine .closeAll).map fun engine =>
      { (if side = .host then drain s else s) with engine := engine }

def AcceptTask.Busy (task : AcceptTask) : Prop :=
  task.phase = .accepted ∨ ∃ channel, task.phase = .opened channel

def Listed (s : State) (id : ℤ) : Prop := ∃ p ∈ s.listed, p.1 = id

def Kept (side : Side) (s : State) (id : ℤ) : Prop :=
  match side with
  | .host => ∃ p ∈ s.listenerChannels, p.1 = id
  | .controller => ∃ p ∈ s.channels, p.2 = id

def Live (s : State) (id : ℤ) : Prop :=
  ∃ entry ∈ s.engine.table.entries, (entry.channel, id) ∈ s.openers

/-- Of a listener whose removal is through and whose tasks have stopped, nothing is left. -/
def RemovedClosed (side : Side) (s : State) : Prop :=
  ∀ id ∈ s.removed, (∀ r ∈ s.removals, r.listener ≠ id) →
    (∀ task ∈ s.accepts, task.listener = id → task.phase = .stopped) →
      ¬ Live s id ∧ ¬ Kept side s id

/-- No task of the listener has a connection in hand when the listener is removed, and none accepts
one while the listener is not listed. On the controller the counter does not come round to an
id that is still to be noted or whose refusal is still to be reported. -/
def Unraced (side : Side) (s : State) : Event → Prop
  | .unlisten id => ∀ task ∈ s.accepts, task.listener = id → ¬ task.Busy
  | .remove id => Listed s id → ∀ task ∈ s.accepts, task.listener = id → ¬ task.Busy
  | .accept k => ∀ task, s.accepts[k]? = some task → Listed s task.listener
  | .open _ gone => side = .controller →
      ∀ id, takenId (.engine side) s.engine (.openOutgoing gone) = some id →
        id ∉ s.refusals ∧ ∀ task ∈ s.accepts, task.phase ≠ .opened id
  | _ => True

instance (task : AcceptTask) : Decidable task.Busy :=
  match h : task.phase with
  | .accepted => isTrue (Or.inl h)
  | .opened channel => isTrue (Or.inr ⟨channel, h⟩)
  | .idle | .polled | .stopped => isFalse (by simp [AcceptTask.Busy, h])

instance (s : State) (id : ℤ) : Decidable (Listed s id) :=
  inferInstanceAs (Decidable (∃ p ∈ s.listed, p.1 = id))

instance (side : Side) (s : State) (e : Event) : Decidable (Unraced side s e) :=
  match e with
  | .unlisten id =>
    inferInstanceAs (Decidable (∀ task ∈ s.accepts, task.listener = id → ¬ task.Busy))
  | .remove id =>
    inferInstanceAs (Decidable (Listed s id →
      ∀ task ∈ s.accepts, task.listener = id → ¬ task.Busy))
  | .accept k =>
    match h : s.accepts[k]? with
    | none => isTrue (by simp [Unraced, h])
    | some task => decidable_of_iff (Listed s task.listener) (by simp [Unraced, h])
  | .open k gone =>
    match h : takenId (.engine side) s.engine (.openOutgoing gone) with
    | none => isTrue (by simp [Unraced, h])
    | some id =>
      decidable_of_iff (side = .controller →
        id ∉ s.refusals ∧ ∀ task ∈ s.accepts, task.phase ≠ .opened id) (by simp [Unraced, h])
  | .listen .. | .reserve _ | .spawn _ | .register _ | .abortRemoved _ | .closeRemoved _
  | .reportRefused _ | .closeForwards | .wake _ | .failAccept _ | .note _ | .park _ | .cancel _
  | .frame _ | .task .. | .endTask _ | .closeAll => isTrue trivial

def Noted (side : Side) (s : State) (id channel : ℤ) : Prop :=
  match side with
  | .host => channel ∈ channelsOf s.listenerChannels id
  | .controller => (channel, id) ∈ s.channels

def Held (s : State) (id channel : ℤ) : Prop :=
  ∃ task ∈ s.accepts, task.listener = id ∧ task.phase = .opened channel

def Closing (s : State) (id channel : ℤ) : Prop :=
  ∃ r ∈ s.removals, r.listener = id ∧ channel ∈ r.channels

/-- What holds in a run without the race. Every live channel of a listener is noted, in a task's
hand or about to be closed. -/
structure Inv (side : Side) (s : State) : Prop where
  engine : ForwardEngine.Inv (.engine side) s.engine
  openers_lt : ∀ p ∈ s.openers, p.1 < s.engine.table.made.length
  opener : ∀ p ∈ s.openers, ∀ q ∈ s.openers, p.1 = q.1 → p.2 = q.2
  reached : ∀ p ∈ keys s.engine.table, ∀ id, (p.2, id) ∈ s.openers →
    Noted side s id p.1 ∨ Held s id p.1 ∨ Closing s id p.1
  removed : ∀ id ∈ s.removed, ¬ Listed s id ∧ ¬ Kept side s id ∧
    ∀ task ∈ s.accepts, task.listener = id → ¬ task.Busy
  held : side = .controller → ∀ task ∈ s.accepts, ∀ p ∈ keys s.engine.table,
    task.phase = .opened p.1 → ∀ id, (p.2, id) ∈ s.openers → id = task.listener
  refused : side = .controller → ∀ p ∈ keys s.engine.table, p.1 ∈ s.refusals →
    ∀ id, (p.2, id) ∉ s.openers

variable (side : Side) (s : State)

theorem inv_start : Inv side (start side) := by
  refine ⟨ForwardEngine.inv_start _, ?_, ?_, ?_, ?_, ?_, ?_⟩ <;> simp [start, ForwardEngine.start,
    ChannelTable.start, keys]

theorem kept_of_noted (id channel : ℤ) (h : Noted side s id channel) : Kept side s id := by
  cases side with
  | host =>
    simp only [Noted, channelsOf] at h
    cases hfind : s.listenerChannels.find? fun p => decide (p.1 = id) with
    | none => simp [hfind] at h
    | some p =>
      exact ⟨p, List.mem_of_find?_eq_some hfind, by simpa using List.find?_some hfind⟩
  | controller => exact ⟨(channel, id), h, rfl⟩

theorem removedClosed_of_inv (hinv : Inv side s) : RemovedClosed side s := by
  intro id hid hpending hstopped
  obtain ⟨-, hkept, hidle⟩ := hinv.removed id hid
  refine ⟨?_, hkept⟩
  rintro ⟨entry, hmem, hopener⟩
  rcases hinv.reached _ (mem_keys _ entry hmem) id hopener with hnoted | hheld | hclosing
  · exact hkept (kept_of_noted side s id _ hnoted)
  · obtain ⟨task, htask, hlistener, hphase⟩ := hheld
    exact hidle task htask hlistener (Or.inr ⟨_, hphase⟩)
  · obtain ⟨r, hr, hlistener, -⟩ := hclosing
    exact hpending r hr hlistener

/-- The engine took a step; the entries of the listeners' channels can only become fewer. -/
theorem Inv.engineStep {side : Side} {s : State} (h : Inv side s) (e : ForwardEngine.Event)
    (engine : Engine) (hstep : ForwardEngine.step (.engine side) s.engine e = some engine) :
    Inv side { s with engine := engine } := by
  have hchange := change_of_step _ s.engine engine e hstep
  obtain ⟨hkeys, hmade⟩ := keys_of_change _ s.engine engine _ hchange
  have hold : ∀ p ∈ keys engine.table, ∀ id, (p.2, id) ∈ s.openers → p ∈ keys s.engine.table := by
    intro p hp id hopener
    rcases hkeys p hp with hmem | hnew
    · exact hmem
    · have hlt := h.openers_lt _ hopener
      simp only [hnew] at hlt
      omega
  refine ⟨inv_change _ s.engine engine _ h.engine hchange, ?_, h.opener, ?_, h.removed, ?_, ?_⟩
  · intro p hp
    exact Nat.lt_of_lt_of_le (h.openers_lt p hp) hmade
  · intro p hp id hopener
    exact h.reached p (hold p hp id hopener) id hopener
  · intro hside task htask p hp hphase id hopener
    exact h.held hside task htask p (hold p hp id hopener) hphase id hopener
  · intro hside p hp hrefused id hopener
    exact h.refused hside p (hold p hp id hopener) hrefused id hopener

/-- The accept tasks changed: those with a connection in hand had it before, or have just accepted
it for a listener that is listed, and none has lost a channel. -/
theorem Inv.setAccepts {side : Side} {s : State} (h : Inv side s) (accepts : List AcceptTask)
    (hbusy : ∀ task ∈ accepts, task.Busy →
      (∃ old ∈ s.accepts, old.listener = task.listener ∧ old.phase = task.phase) ∨
        task.phase = .accepted ∧ Listed s task.listener)
    (hheld : ∀ old ∈ s.accepts, ∀ channel, old.phase = .opened channel →
      ∃ task ∈ accepts, task.listener = old.listener ∧ task.phase = old.phase) :
    Inv side { s with accepts := accepts } := by
  refine ⟨h.engine, h.openers_lt, h.opener, ?_, ?_, ?_, h.refused⟩
  · intro p hp id hopener
    rcases h.reached p hp id hopener with hnoted | ⟨old, hold, hlistener, hphase⟩ | hclosing
    · exact Or.inl hnoted
    · obtain ⟨task, htask, hsame, hphase'⟩ := hheld old hold _ hphase
      exact Or.inr (Or.inl ⟨task, htask, hsame.trans hlistener, hphase'.trans hphase⟩)
    · exact Or.inr (Or.inr hclosing)
  · intro id hid
    obtain ⟨hlisted, hkept, hidle⟩ := h.removed id hid
    refine ⟨hlisted, hkept, ?_⟩
    intro task htask hlistener hbusy'
    rcases hbusy task htask hbusy' with ⟨old, hold, hsame, hphase⟩ | ⟨-, hin⟩
    · refine hidle old hold (hsame.trans hlistener) ?_
      unfold AcceptTask.Busy at hbusy' ⊢
      rwa [hphase]
    · exact hlisted (hlistener ▸ hin)
  · intro hside task htask p hp hphase id hopener
    rcases hbusy task htask (Or.inr ⟨_, hphase⟩) with ⟨old, hold, hsame, hphase'⟩ | ⟨haccepted, -⟩
    · exact (h.held hside old hold p hp (hphase'.trans hphase) id hopener).trans hsame
    · rw [hphase] at haccepted
      cases haccepted

theorem Inv.setListed {side : Side} {s : State} (h : Inv side s) (listed : List (ℤ × Option ℕ))
    (removed : List ℤ) (hremoved : ∀ id ∈ removed, id ∈ s.removed ∧ ∀ p ∈ listed, p.1 ≠ id) :
    Inv side { s with listed := listed, removed := removed } := by
  refine ⟨h.engine, h.openers_lt, h.opener, h.reached, ?_, h.held, h.refused⟩
  intro id hid
  obtain ⟨hold, hnot⟩ := hremoved id hid
  refine ⟨?_, (h.removed id hold).2⟩
  rintro ⟨p, hp, hpid⟩
  exact hnot p hp hpid

theorem mem_modify {α : Type} (l : List α) (k : ℕ) (f : α → α) (x : α) (h : x ∈ l.modify k f) :
    x ∈ l ∨ ∃ y, l[k]? = some y ∧ x = f y := by
  obtain ⟨i, hi⟩ := List.mem_iff_getElem?.mp h
  rw [List.getElem?_modify] at hi
  obtain ⟨y, hy, rfl⟩ := Option.map_eq_some_iff.mp hi
  by_cases hk : k = i
  · subst hk
    exact Or.inr ⟨y, hy, by simp⟩
  · rw [if_neg hk]
    exact Or.inl (List.mem_of_getElem? hy)

theorem mem_modify_of_mem {α : Type} (l : List α) (k : ℕ) (f : α → α) (y : α) (h : y ∈ l) :
    y ∈ l.modify k f ∨ l[k]? = some y ∧ f y ∈ l.modify k f := by
  obtain ⟨i, hi⟩ := List.mem_iff_getElem?.mp h
  by_cases hk : k = i
  · subst hk
    refine Or.inr ⟨hi, List.mem_iff_getElem?.mpr ⟨k, ?_⟩⟩
    simp [hi]
  · refine Or.inl (List.mem_iff_getElem?.mpr ⟨i, ?_⟩)
    simp [hi, hk]

theorem Inv.abort {side : Side} {s : State} (h : Inv side s) (handle : Option ℕ) :
    Inv side (s.abort handle) := by
  cases handle with
  | none => exact h
  | some k =>
    refine h.setAccepts _ ?_ ?_
    · intro task htask _
      rcases mem_modify _ k _ task htask with hold | ⟨old, hold, rfl⟩
      · exact Or.inl ⟨task, hold, rfl, rfl⟩
      · exact Or.inl ⟨old, List.mem_of_getElem? hold, rfl, rfl⟩
    · intro old hold channel hphase
      rcases mem_modify_of_mem _ k (fun task => { task with aborted := true }) old hold with
        hmem | ⟨-, hmem⟩
      · exact ⟨old, hmem, rfl, rfl⟩
      · exact ⟨_, hmem, rfl, rfl⟩

theorem Inv.setPhase {side : Side} {s : State} (h : Inv side s) (k : ℕ) (phase : Phase)
    (task : AcceptTask) (htask : s.accepts[k]? = some task)
    (hfree : ∀ channel, task.phase ≠ .opened channel)
    (hnext : phase = .accepted → Listed s task.listener)
    (hopened : ∀ channel, phase ≠ .opened channel) : Inv side (s.setPhase k phase) := by
  refine h.setAccepts _ ?_ ?_
  · intro task' htask' hbusy
    rcases mem_modify _ k _ task' htask' with hold | ⟨old, hold, rfl⟩
    · exact Or.inl ⟨task', hold, rfl, rfl⟩
    · obtain rfl := Option.some.inj (htask.symm.trans hold)
      rcases hbusy with haccepted | ⟨channel, hphase⟩
      · exact Or.inr ⟨haccepted, hnext haccepted⟩
      · exact absurd hphase (hopened channel)
  · intro old hold channel hphase
    rcases mem_modify_of_mem _ k (fun task => { task with phase := phase }) old hold with
      hmem | ⟨hk, -⟩
    · exact ⟨old, hmem, rfl, rfl⟩
    · obtain rfl := Option.some.inj (htask.symm.trans hk)
      exact absurd hphase (hfree channel)

theorem Inv.list {side : Side} {s : State} (h : Inv side s) (id : ℤ) (handle : Option ℕ) :
    Inv side (s.list id handle) := by
  refine h.setListed _ _ ?_
  intro id' hid'
  obtain ⟨hremoved, hne⟩ := List.mem_filter.mp hid'
  refine ⟨hremoved, ?_⟩
  intro p hp hpid
  rcases List.mem_cons.mp hp with rfl | hold
  · exact of_decide_eq_true hne hpid.symm
  · exact (h.removed id' hremoved).1 ⟨p, (List.mem_filter.mp hold).1, hpid⟩

theorem Inv.addTask {side : Side} {s : State} (h : Inv side s) (id : ℤ) :
    Inv side { s with accepts := s.accepts ++ [⟨id, .idle, false⟩] } := by
  refine h.setAccepts _ ?_ ?_
  · intro task htask hbusy
    rcases List.mem_append.mp htask with hold | hnew
    · exact Or.inl ⟨task, hold, rfl, rfl⟩
    · obtain rfl := List.mem_singleton.mp hnew
      simp [AcceptTask.Busy] at hbusy
  · intro old hold channel _
    exact ⟨old, List.mem_append_left _ hold, rfl, rfl⟩

theorem Inv.onListen {side : Side} {s : State} (h : Inv side s) (id : ℤ)
    (authorize : Except String Unit) (port : ℤ) (bind : Except String ℤ) :
    Inv side (onListen s id authorize port bind).2 := by
  unfold ForwardListeners.onListen
  split
  · exact h
  · split
    · exact h
    · split
      · exact h
      · split
        · exact h
        · exact ((h.addTask id).list id _).abort _

theorem Inv.foldAbort {side : Side} (l : List (ℤ × Option ℕ)) (s : State) (h : Inv side s) :
    Inv side (l.foldl (fun s p => s.abort p.2) s) := by
  induction l generalizing s with
  | nil => exact h
  | cons p l ih => exact ih _ (h.abort p.2)

theorem Inv.drain {side : Side} {s : State} (h : Inv side s) : Inv side (drain s) := by
  refine (Inv.foldAbort s.listed s h).setListed [] _ ?_
  intro id hid
  exact ⟨hid, fun p hp => by cases hp⟩

theorem abort_engine (handle : Option ℕ) : (s.abort handle).engine = s.engine := by
  cases handle <;> rfl

theorem drain_engine : (drain s).engine = s.engine := by
  have hfold : ∀ (l : List (ℤ × Option ℕ)) (s : State),
      (l.foldl (fun s p => s.abort p.2) s).engine = s.engine := by
    intro l
    induction l with
    | nil => exact fun _ => rfl
    | cons p l ih => exact fun s => (ih _).trans (abort_engine s p.2)
  exact hfold s.listed s

theorem Inv.reportRefused {s : State} {side : Side} (h : Inv side s) (place : ℕ) (channel : ℤ)
    (hplace : s.refusals[place]? = some channel) :
    Inv side { s with
      refusals := s.refusals.eraseIdx place
      channels := s.channels.filter fun p => decide (p.1 ≠ channel) } := by
  refine ⟨h.engine, h.openers_lt, h.opener, ?_, ?_, h.held, ?_⟩
  · intro p hp id hopener
    rcases h.reached p hp id hopener with hnoted | hrest
    · refine Or.inl ?_
      cases side with
      | host => exact hnoted
      | controller =>
        refine List.mem_filter.mpr ⟨hnoted, decide_eq_true ?_⟩
        intro heq
        have hin : p.1 ∈ s.refusals := heq ▸ List.mem_of_getElem? hplace
        exact h.refused rfl p hp hin id hopener
    · exact Or.inr hrest
  · intro id hid
    obtain ⟨hlisted, hkept, hidle⟩ := h.removed id hid
    refine ⟨hlisted, ?_, hidle⟩
    cases side with
    | host => exact hkept
    | controller =>
      rintro ⟨p, hp, hpid⟩
      exact hkept ⟨p, (List.mem_filter.mp hp).1, hpid⟩
  · intro hside p hp hin
    exact h.refused hside p hp (List.mem_of_mem_eraseIdx hin)

theorem Inv.addRefused {side : Side} {s : State} (h : Inv side s) (ids : List ℤ)
    (hgone : ∀ id ∈ ids, id ∉ s.engine.ids) :
    Inv side { s with refusals := s.refusals ++ ids } := by
  refine ⟨h.engine, h.openers_lt, h.opener, h.reached, h.removed, h.held, ?_⟩
  intro hside p hp hin id
  rcases List.mem_append.mp hin with hold | hnew
  · exact h.refused hside p hp hold id
  · refine absurd ?_ (hgone p.1 hnew)
    rw [Engine.ids, ← keys_ids]
    exact List.mem_map_of_mem hp

theorem channelsOf_filter (listenerChannels : List (ℤ × List ℤ)) (id id' : ℤ) (hne : id' ≠ id) :
    channelsOf (listenerChannels.filter fun p => decide (p.1 ≠ id)) id' =
      channelsOf listenerChannels id' := by
  unfold channelsOf
  rw [List.find?_filter]
  congr 3
  funext p
  by_cases hp : p.1 = id'
  · simp [hp, hne]
  · simp [hp]

/-- The first half of a removal: what was noted under the listener is about to be closed. -/
theorem Inv.takeNotes {side : Side} {s t : State} (h : Inv side s) (id : ℤ) (r : Removal)
    (hidle : ∀ task ∈ s.accepts, task.listener = id → ¬ task.Busy)
    (hengine : t.engine = s.engine) (hopeners : t.openers = s.openers)
    (haccepts : t.accepts = s.accepts) (hrefusals : t.refusals = s.refusals)
    (hlisted : ∀ id', Listed t id' → Listed s id' ∧ id' ≠ id)
    (hkept : ∀ id', Kept side t id' → Kept side s id' ∧ id' ≠ id)
    (hnoted : ∀ id' channel, Noted side s id' channel →
      Noted side t id' channel ∨ id' = id ∧ channel ∈ r.channels)
    (hr : r.listener = id) (hremovals : t.removals = s.removals ++ [r])
    (hremoved : t.removed = id :: s.removed) : Inv side t := by
  refine ⟨hengine ▸ h.engine, ?_, ?_, ?_, ?_, ?_, ?_⟩
  · rw [hengine, hopeners]
    exact h.openers_lt
  · rw [hopeners]
    exact h.opener
  · rw [hengine, hopeners]
    intro p hp id' hopener
    rcases h.reached p hp id' hopener with hin | ⟨task, htask, hheld⟩ | ⟨r', hr', hclosing⟩
    · rcases hnoted id' p.1 hin with hin | ⟨rfl, hin⟩
      · exact Or.inl hin
      · exact Or.inr (Or.inr ⟨r, by simp [hremovals], hr, hin⟩)
    · exact Or.inr (Or.inl ⟨task, haccepts ▸ htask, hheld⟩)
    · exact Or.inr (Or.inr ⟨r', by simp [hremovals, hr'], hclosing⟩)
  · rw [hremoved, haccepts]
    intro id' hid'
    rcases List.mem_cons.mp hid' with rfl | hold
    · exact ⟨fun hin => (hlisted id' hin).2 rfl, fun hin => (hkept id' hin).2 rfl, hidle⟩
    · obtain ⟨hnot, hnokept, hfree⟩ := h.removed id' hold
      exact ⟨fun hin => hnot (hlisted id' hin).1, fun hin => hnokept (hkept id' hin).1, hfree⟩
  · rw [hengine, hopeners, haccepts]
    exact h.held
  · rw [hengine, hopeners, hrefusals]
    exact h.refused

theorem Inv.unlisten {s : State} (h : Inv .host s) (id : ℤ)
    (hidle : ∀ task ∈ s.accepts, task.listener = id → ¬ task.Busy) : Inv .host (unlisten s id) := by
  have hsplit : ForwardListeners.unlisten s id = State.abort { s.unlist id with
      listenerChannels := s.listenerChannels.filter fun p => decide (p.1 ≠ id)
      removals := s.removals ++ [⟨id, none, channelsOf s.listenerChannels id⟩]
      removed := id :: s.removed } (s.handle id) := by
    unfold ForwardListeners.unlisten State.abort
    cases s.handle id <;> rfl
  rw [hsplit]
  apply Inv.abort
  refine h.takeNotes id ⟨id, none, channelsOf s.listenerChannels id⟩ hidle rfl rfl rfl rfl ?_ ?_ ?_
    rfl rfl rfl
  · rintro id' ⟨p, hp, rfl⟩
    obtain ⟨hold, hne⟩ := List.mem_filter.mp hp
    exact ⟨⟨p, hold, rfl⟩, of_decide_eq_true hne⟩
  · rintro id' ⟨p, hp, rfl⟩
    obtain ⟨hold, hne⟩ := List.mem_filter.mp hp
    exact ⟨⟨p, hold, rfl⟩, of_decide_eq_true hne⟩
  · intro id' channel hnoted
    by_cases hid : id' = id
    · subst hid
      exact Or.inr ⟨rfl, hnoted⟩
    · refine Or.inl ?_
      simp only [Noted]
      rw [channelsOf_filter _ id id' hid]
      exact hnoted

theorem Inv.remove {s : State} (h : Inv .controller s) (id : ℤ)
    (hidle : Listed s id → ∀ task ∈ s.accepts, task.listener = id → ¬ task.Busy) :
    Inv .controller (remove s id) := by
  unfold ForwardListeners.remove
  split
  · rename_i hlisted
    refine h.takeNotes id ⟨id, s.handle id, _⟩ (hidle hlisted) rfl rfl rfl rfl ?_ ?_ ?_ rfl rfl rfl
    · rintro id' ⟨p, hp, rfl⟩
      obtain ⟨hold, hne⟩ := List.mem_filter.mp hp
      exact ⟨⟨p, hold, rfl⟩, of_decide_eq_true hne⟩
    · rintro id' ⟨p, hp, rfl⟩
      obtain ⟨hold, hne⟩ := List.mem_filter.mp hp
      exact ⟨⟨p, hold, rfl⟩, of_decide_eq_true hne⟩
    · intro id' channel hnoted
      by_cases hid : id' = id
      · subst hid
        exact Or.inr ⟨rfl, List.mem_map.mpr ⟨_, List.mem_filter.mpr ⟨hnoted, by simp⟩, rfl⟩⟩
      · exact Or.inl (List.mem_filter.mpr ⟨hnoted, decide_eq_true hid⟩)
  · exact h

theorem Inv.setRemovals {side : Side} {s : State} (h : Inv side s) (removals : List Removal)
    (hkeep : ∀ p ∈ keys s.engine.table, ∀ r ∈ s.removals, p.1 ∈ r.channels →
      ∃ r' ∈ removals, r'.listener = r.listener ∧ r'.channels = r.channels) :
    Inv side { s with removals := removals } := by
  refine ⟨h.engine, h.openers_lt, h.opener, ?_, h.removed, h.held, h.refused⟩
  intro p hp id hopener
  rcases h.reached p hp id hopener with hnoted | hheld | ⟨r, hr, hlistener, hin⟩
  · exact Or.inl hnoted
  · exact Or.inr (Or.inl hheld)
  · obtain ⟨r', hr', hsame, hchannels⟩ := hkeep p hp r hr hin
    exact Or.inr (Or.inr ⟨r', hr', hsame.trans hlistener, hchannels ▸ hin⟩)

theorem Inv.abortRemoved {side : Side} {s : State} (h : Inv side s) (place : ℕ) (r : Removal)
    (hplace : s.removals[place]? = some r) :
    Inv side { s.abort r.task with removals := s.removals.set place { r with task := none } } := by
  refine (h.abort r.task).setRemovals _ ?_
  intro p _ r' hr' _
  have hremovals : (s.abort r.task).removals = s.removals := by
    unfold State.abort
    cases r.task <;> rfl
  rw [hremovals] at hr'
  obtain ⟨i, hi⟩ := List.mem_iff_getElem?.mp hr'
  by_cases hplace' : place = i
  · subst hplace'
    obtain rfl := Option.some.inj (hplace.symm.trans hi)
    refine ⟨_, List.mem_iff_getElem?.mpr ⟨place, List.getElem?_set_self ?_⟩, rfl, rfl⟩
    exact (List.getElem?_eq_some_iff.mp hplace).1
  · exact ⟨r', List.mem_iff_getElem?.mpr ⟨i, by rw [List.getElem?_set_ne hplace', hi]⟩, rfl, rfl⟩

theorem not_mem_closeChannels (t : Table) (ids : List ℤ) (p : ℤ × ℕ)
    (hp : p ∈ keys (ids.foldl (fun t id => dropEntry t id .close) t)) : p.1 ∉ ids := by
  induction ids generalizing t with
  | nil => exact List.not_mem_nil
  | cons id ids ih =>
    intro hin
    rcases List.mem_cons.mp hin with heq | hrest
    · have hmem := (shrunk_closeChannels (dropEntry t id .close) ids).1.subset hp
      rw [keys_dropEntry] at hmem
      exact of_decide_eq_true (List.mem_filter.mp hmem).2 heq
    · exact ih _ hp hrest

theorem Inv.closeRemoved {side : Side} {s : State} (h : Inv side s) (place : ℕ) (r : Removal)
    (engine : Engine) (hplace : s.removals[place]? = some r)
    (hstep : ForwardEngine.step (.engine side) s.engine (.closeChannels r.channels) = some engine) :
    Inv side { s with engine := engine, removals := s.removals.eraseIdx place } := by
  refine (h.engineStep _ engine hstep).setRemovals _ ?_
  intro p hp r' hr' hin
  obtain ⟨i, hi⟩ := List.mem_iff_getElem?.mp hr'
  by_cases hplace' : i = place
  · subst hplace'
    obtain rfl := Option.some.inj (hplace.symm.trans hi)
    obtain rfl := Option.some.inj hstep
    exact absurd hin (not_mem_closeChannels _ _ p hp)
  · exact ⟨r', List.mem_eraseIdx_iff_getElem?.mpr ⟨i, hplace', hi⟩, rfl, rfl⟩

theorem refusedBy_gone (frame : Frame) (engine : Engine)
    (hstep : ForwardEngine.step (.engine side) s.engine (.frame frame) = some engine) :
    ∀ id ∈ refusedBy side s frame, id ∉ engine.ids := by
  intro id hid
  unfold refusedBy at hid
  split at hid
  · rename_i id' window
    split at hid
    · obtain rfl := List.mem_singleton.mp hid
      obtain rfl := Option.some.inj hstep
      rw [Engine.ids, ← keys_ids]
      have hkeys := keys_dropEntry s.engine.table id .close
      intro hin
      obtain ⟨p, hp, rfl⟩ := List.mem_map.mp hin
      have hp' : p ∈ keys (dropEntry s.engine.table p.1 .close) := hp
      rw [hkeys] at hp'
      exact of_decide_eq_true (List.mem_filter.mp hp').2 rfl
    · cases hid
  · cases hid

theorem Inv.openChannel {side : Side} {s : State} (h : Inv side s) (k : ℕ) (task : AcceptTask)
    (htask : s.accepts[k]? = some task) (haccepted : task.phase = .accepted) (gone : Bool) (id : ℤ)
    (engine : Engine) (hopen : openOutgoing (.engine side) s.engine gone = some (.ok (id, engine)))
    (hfresh : side = .controller → id ∉ s.refusals ∧ ∀ task ∈ s.accepts, task.phase ≠ .opened id) :
    Inv side { s.setPhase k (.opened id) with
      engine := engine
      openers := (s.engine.table.made.length, task.listener) :: s.openers } := by
  obtain ⟨-, hroom, halloc, rfl⟩ := openOutgoing_ok _ s.engine engine gone id hopen
  have hnew := inv_change _ s.engine _ _ h.engine (.outgoing id hroom halloc)
  have hnotin : id ∉ (keys s.engine.table).map Prod.fst := (List.nodup_cons.mp hnew.distinct).1
  -- an opener on record with the new channel's number is the task's listener
  have hopener : ∀ id', (s.engine.table.made.length, id') ∈
      (s.engine.table.made.length, task.listener) :: s.openers → id' = task.listener := by
    intro id' hin
    rcases List.mem_cons.mp hin with heq | hold
    · exact (Prod.mk.inj heq).2
    · exact absurd (h.openers_lt _ hold) (Nat.lt_irrefl _)
  have hold : ∀ p ∈ keys s.engine.table, ∀ id', (p.2, id') ∈
      (s.engine.table.made.length, task.listener) :: s.openers → (p.2, id') ∈ s.openers := by
    intro p hp id' hin
    rcases List.mem_cons.mp hin with heq | hin
    · obtain ⟨old, hold, -⟩ := h.engine.running p hp
      have hlt := (List.getElem?_eq_some_iff.mp hold).1
      rw [h.engine.matched, (Prod.mk.inj heq).1] at hlt
      exact absurd hlt (Nat.lt_irrefl _)
    · exact hin
  have hholds : (⟨task.listener, .opened id, task.aborted⟩ : AcceptTask) ∈
      s.accepts.modify k fun task => { task with phase := .opened id } :=
    List.mem_iff_getElem?.mpr ⟨k, by simp [htask]⟩
  refine ⟨hnew, ?_, ?_, ?_, ?_, ?_, ?_⟩
  · intro p hp
    simp only [Engine.insert, Table.insert, List.length_append, List.length_singleton]
    rcases List.mem_cons.mp hp with rfl | hin
    · exact Nat.lt_succ_self _
    · have hlt := h.openers_lt p hin
      omega
  · intro p hp q hq heq
    rcases List.mem_cons.mp hp with rfl | hp'
    · obtain ⟨n, id'⟩ := q
      obtain rfl : s.engine.table.made.length = n := heq
      exact (hopener id' hq).symm
    · rcases List.mem_cons.mp hq with rfl | hq'
      · have hlt := h.openers_lt p hp'
        simp only at heq
        omega
      · exact h.opener p hp' q hq' heq
  · intro p hp id' hin
    rcases List.mem_cons.mp hp with rfl | hp'
    · exact Or.inr (Or.inl ⟨_, hholds, (hopener id' hin).symm, rfl⟩)
    · rcases h.reached p hp' id' (hold p hp' id' hin) with hnoted | ⟨old, hmem, hsame⟩ | hclosing
      · exact Or.inl hnoted
      · rcases mem_modify_of_mem _ k (fun task => { task with phase := .opened id }) old hmem with
          hmem' | ⟨hk, -⟩
        · exact Or.inr (Or.inl ⟨old, hmem', hsame⟩)
        · obtain rfl := Option.some.inj (htask.symm.trans hk)
          rw [haccepted] at hsame
          exact absurd hsame.2 (by simp)
      · exact Or.inr (Or.inr hclosing)
  · intro id' hid'
    obtain ⟨hlisted, hkept, hidle⟩ := h.removed id' hid'
    refine ⟨hlisted, hkept, ?_⟩
    intro task' htask' hlistener hbusy
    rcases mem_modify _ k _ task' htask' with hmem | ⟨old, hk, rfl⟩
    · exact hidle task' hmem hlistener hbusy
    · obtain rfl := Option.some.inj (htask.symm.trans hk)
      exact hidle task (List.mem_of_getElem? htask) hlistener (Or.inl haccepted)
  · intro hside task' htask' p hp hphase id' hin
    rcases List.mem_cons.mp hp with rfl | hp'
    · rw [hopener id' hin]
      rcases mem_modify _ k _ task' htask' with hmem | ⟨old, hk, rfl⟩
      · exact absurd hphase ((hfresh hside).2 task' hmem)
      · obtain rfl := Option.some.inj (htask.symm.trans hk)
        rfl
    · rcases mem_modify _ k _ task' htask' with hmem | ⟨old, hk, rfl⟩
      · exact h.held hside task' hmem p hp' hphase id' (hold p hp' id' hin)
      · have heq : id = p.1 := Phase.opened.inj hphase
        have hin' : p.1 ∈ (keys s.engine.table).map Prod.fst := List.mem_map_of_mem hp'
        exact absurd (heq ▸ hin') hnotin
  · intro hside p hp hrefused id' hin
    rcases List.mem_cons.mp hp with rfl | hp'
    · exact (hfresh hside).1 hrefused
    · exact h.refused hside p hp' hrefused id' (hold p hp' id' hin)

/-- Noting a channel keeps the notes of the channels in the table. On the controller a
note under the same id is replaced. -/
theorem noted_note (id channel id' channel' : ℤ)
    (hlive : channel' ∈ s.engine.ids) (hnoted : Noted side s id' channel')
    (hsame : side = .controller → channel' = channel → id' = id) :
    Noted side (note side s id channel) id' channel' := by
  cases side with
  | host =>
    simp only [Noted, note] at hnoted ⊢
    by_cases hid : id' = id
    · subst hid
      simp only [channelsOf, List.find?_cons, decide_true, Option.map_some, Option.getD_some]
      exact List.mem_append_left _ (List.mem_filter.mpr ⟨hnoted, decide_eq_true hlive⟩)
    · have hskip : channelsOf ((id, (channelsOf s.listenerChannels id).filter
          (fun c => decide (c ∈ s.engine.ids)) ++ [channel]) ::
          s.listenerChannels.filter fun p => decide (p.1 ≠ id)) id' =
          channelsOf s.listenerChannels id' := by
        rw [← channelsOf_filter s.listenerChannels id id' hid]
        simp only [channelsOf, List.find?_cons, decide_eq_false (Ne.symm hid)]
      rw [hskip]
      exact hnoted
  | controller =>
    simp only [Noted, note] at hnoted ⊢
    by_cases hchannel : channel' = channel
    · rw [hchannel, hsame rfl hchannel]
      exact List.mem_cons_self ..
    · refine List.mem_cons_of_mem _ (List.mem_filter.mpr ⟨?_, decide_eq_true hchannel⟩)
      exact List.mem_filter.mpr ⟨hnoted, decide_eq_true hlive⟩

theorem noted_note_self (id channel : ℤ) : Noted side (note side s id channel) id channel := by
  cases side with
  | host => simp [Noted, note, channelsOf]
  | controller => exact List.mem_cons_self ..

theorem kept_note (id channel id' : ℤ) (hne : id' ≠ id)
    (hkept : Kept side (note side s id channel) id') : Kept side s id' := by
  cases side with
  | host =>
    obtain ⟨p, hp, rfl⟩ := hkept
    rcases List.mem_cons.mp hp with rfl | hold
    · exact absurd rfl hne
    · exact ⟨p, (List.mem_filter.mp hold).1, rfl⟩
  | controller =>
    obtain ⟨p, hp, rfl⟩ := hkept
    rcases List.mem_cons.mp hp with rfl | hold
    · exact absurd rfl hne
    · exact ⟨p, (List.mem_filter.mp (List.mem_filter.mp hold).1).1, rfl⟩

theorem Inv.noteChannel {side : Side} {s : State} (h : Inv side s) (k : ℕ) (task : AcceptTask)
    (channel : ℤ) (htask : s.accepts[k]? = some task) (hopened : task.phase = .opened channel) :
    Inv side ((note side s task.listener channel).setPhase k .polled) := by
  have hmem := List.mem_of_getElem? htask
  have hframe : ∀ (t : State), t = note side s task.listener channel → t.engine = s.engine ∧
      t.openers = s.openers ∧ t.accepts = s.accepts ∧ t.removed = s.removed ∧
      t.listed = s.listed ∧ t.removals = s.removals ∧ t.refusals = s.refusals := by
    rintro t rfl
    cases side <;> exact ⟨rfl, rfl, rfl, rfl, rfl, rfl, rfl⟩
  have hnoted := noted_note side s task.listener channel
  have hself := noted_note_self side s task.listener channel
  have hkept := kept_note side s task.listener channel
  generalize hnote : note side s task.listener channel = t at hnoted hself hkept ⊢
  obtain ⟨hengine, hopeners, haccepts, hremoved, hlisted, hremovals, hrefusals⟩ :=
    hframe t hnote.symm
  have htasks : ∀ task' ∈ t.accepts.modify k fun task => { task with phase := Phase.polled },
      task' ∈ s.accepts ∨ task'.phase = .polled := by
    intro task' htask'
    rcases mem_modify _ k _ task' htask' with hin | ⟨old, -, rfl⟩
    · exact Or.inl (haccepts ▸ hin)
    · exact Or.inr rfl
  refine ⟨?_, ?_, ?_, ?_, ?_, ?_, ?_⟩
  · exact hengine ▸ h.engine
  · simp only [State.setPhase, hengine, hopeners]
    exact h.openers_lt
  · simp only [State.setPhase, hopeners]
    exact h.opener
  · simp only [State.setPhase, hengine, hopeners]
    intro p hp id' hopener
    have hlive : p.1 ∈ s.engine.ids := by
      rw [Engine.ids, ← keys_ids]
      exact List.mem_map_of_mem hp
    rcases h.reached p hp id' hopener with hin | ⟨old, hold, hlistener, hphase⟩ | hclosing
    · refine Or.inl (hnoted id' p.1 hlive hin ?_)
      intro hside heq
      exact h.held hside task hmem p hp (heq ▸ hopened) id' hopener
    · rcases mem_modify_of_mem t.accepts k (fun task => { task with phase := .polled }) old
          (haccepts ▸ hold) with hin | ⟨hk, -⟩
      · exact Or.inr (Or.inl ⟨old, hin, hlistener, hphase⟩)
      · rw [haccepts] at hk
        obtain rfl := Option.some.inj (htask.symm.trans hk)
        obtain rfl := Phase.opened.inj (hopened.symm.trans hphase)
        exact Or.inl (hlistener ▸ hself)
    · exact Or.inr (Or.inr (by rw [Closing, hremovals]; exact hclosing))
  · intro id' hid'
    obtain ⟨hnot, hnokept, hidle⟩ := h.removed id' (hremoved ▸ hid')
    have hne : id' ≠ task.listener := by
      rintro rfl
      exact hidle task hmem rfl (Or.inr ⟨channel, hopened⟩)
    refine ⟨?_, fun hin => hnokept (hkept id' hne hin), ?_⟩
    · rw [Listed, State.setPhase, hlisted]
      exact hnot
    · intro task' htask' hlistener hbusy
      rcases htasks task' htask' with hin | hpolled
      · exact hidle task' hin hlistener hbusy
      · simp [AcceptTask.Busy, hpolled] at hbusy
  · simp only [State.setPhase, hengine, hopeners]
    intro hside task' htask' p hp hphase id' hopener
    rcases htasks task' htask' with hin | hpolled
    · exact h.held hside task' hin p hp hphase id' hopener
    · rw [hpolled] at hphase
      cases hphase
  · simp only [State.setPhase, hengine, hopeners, hrefusals]
    exact h.refused

/-- The handle of the task goes into an item; the items stay the same. -/
theorem inv_register (id : ℤ) (k : ℕ) (t : State) (hinv : Inv side s)
    (h : (match register s id k with
      | .error _ => some s
      | .ok t => some t) = some t) : Inv side t := by
  unfold register at h
  by_cases hlisted : ∃ p ∈ s.listed, p.1 = id
  · rw [if_pos hlisted] at h
    obtain rfl := Option.some.inj h
    refine hinv.setListed _ _ ?_
    intro id' hid'
    refine ⟨hid', ?_⟩
    intro p hp hpid
    obtain ⟨q, hq, rfl⟩ := List.mem_map.mp hp
    refine (hinv.removed id' hid').1 ⟨q, hq, ?_⟩
    split at hpid <;> exact hpid
  · rw [if_neg hlisted] at h
    obtain rfl := Option.some.inj h
    exact hinv

theorem inv_step (t : State) (e : Event) (hguard : Unraced side s e)
    (hinv : Inv side s) (h : step side s e = some t) : Inv side t := by
  cases e with
  | listen id authorize port bind =>
    simp only [step] at h
    obtain ⟨-, rfl⟩ := of_guard h
    exact hinv.onListen id authorize port bind
  | unlisten id =>
    simp only [step] at h
    obtain ⟨⟨rfl, -⟩, rfl⟩ := of_guard h
    exact hinv.unlisten id hguard
  | reserve toHost =>
    simp only [step] at h
    split at h
    · unfold reserve at h
      by_cases hfull : maxForwards ≤ s.listed.length
      · rw [if_pos hfull] at h
        obtain rfl := Option.some.inj h
        exact hinv
      · rw [if_neg hfull] at h
        obtain rfl := Option.some.inj h
        have hlist := hinv.list s.nextForward none
        exact ⟨hlist.engine, hlist.openers_lt, hlist.opener, hlist.reached, hlist.removed,
          hlist.held, hlist.refused⟩
    · cases h
  | spawn place =>
    simp only [step] at h
    split at h
    · rename_i id _
      obtain rfl := Option.some.inj h
      have hadd := hinv.addTask id
      exact ⟨hadd.engine, hadd.openers_lt, hadd.opener, hadd.reached, hadd.removed, hadd.held,
        hadd.refused⟩
    · cases h
  | register place =>
    simp only [step] at h
    split at h
    · rename_i id k _
      have hless : Inv side { s with adding := s.adding.eraseIdx place } :=
        ⟨hinv.engine, hinv.openers_lt, hinv.opener, hinv.reached, hinv.removed, hinv.held,
          hinv.refused⟩
      exact inv_register side _ id k t hless h
    · cases h
  | remove id =>
    simp only [step] at h
    split at h
    · rename_i hside
      subst hside
      obtain rfl := Option.some.inj h
      exact hinv.remove id hguard
    · cases h
  | abortRemoved place =>
    simp only [step] at h
    split at h
    · rename_i r hplace
      obtain rfl := Option.some.inj h
      exact hinv.abortRemoved place r hplace
    · cases h
  | closeRemoved place =>
    simp only [step] at h
    split at h
    · rename_i id channels hplace
      obtain ⟨engine, hstep, rfl⟩ := Option.map_eq_some_iff.mp h
      exact hinv.closeRemoved place ⟨id, none, channels⟩ engine hplace hstep
    · cases h
  | reportRefused place =>
    simp only [step] at h
    split at h
    · rename_i channel hplace
      obtain rfl := Option.some.inj h
      exact hinv.reportRefused place channel hplace
    · cases h
  | closeForwards =>
    simp only [step] at h
    obtain ⟨-, rfl⟩ := of_guard h
    exact hinv.drain
  | wake k =>
    simp only [step] at h
    split at h
    · rename_i listener htask
      obtain rfl := Option.some.inj h
      exact hinv.setPhase k .polled _ htask (by simp) (by simp) (by simp)
    · cases h
  | accept k =>
    simp only [step] at h
    split at h
    · rename_i listener aborted htask
      obtain rfl := Option.some.inj h
      exact hinv.setPhase k .accepted _ htask (by simp) (fun _ => hguard _ htask) (by simp)
    · cases h
  | failAccept k =>
    simp only [step] at h
    split at h
    · rename_i listener aborted htask
      obtain rfl := Option.some.inj h
      exact hinv.setPhase k .stopped _ htask (by simp) (by simp) (by simp)
    · rename_i listener aborted htask
      obtain rfl := Option.some.inj h
      exact hinv.setPhase k .stopped _ htask (by simp) (by simp) (by simp)
    · cases h
  | «open» k gone =>
    simp only [step] at h
    split at h
    · rename_i listener aborted htask
      obtain ⟨result, hresult, rfl⟩ := Option.map_eq_some_iff.mp h
      cases result with
      | error text => exact hinv.setPhase k .polled _ htask (by simp) (by simp) (by simp)
      | ok opened =>
        refine hinv.openChannel k _ htask rfl gone opened.1 opened.2 hresult ?_
        intro hside
        exact hguard hside opened.1 (takenId_of_ok _ _ opened.2 gone opened.1 hresult)
    · cases h
  | note k =>
    simp only [step] at h
    split at h
    · rename_i listener channel aborted htask
      obtain rfl := Option.some.inj h
      exact hinv.noteChannel k _ channel htask rfl
    · cases h
  | park k =>
    simp only [step] at h
    split at h
    · rename_i listener aborted htask
      obtain rfl := Option.some.inj h
      refine hinv.setPhase k _ _ htask (by simp) ?_ ?_ <;> cases aborted <;> simp
    · cases h
  | cancel k =>
    simp only [step] at h
    split at h
    · rename_i listener htask
      obtain rfl := Option.some.inj h
      exact hinv.setPhase k .stopped _ htask (by simp) (by simp) (by simp)
    · cases h
  | frame frame =>
    simp only [step] at h
    split at h
    · cases h
    · obtain ⟨engine, hstep, rfl⟩ := Option.map_eq_some_iff.mp h
      exact (hinv.engineStep _ engine hstep).addRefused _ (refusedBy_gone side s frame engine hstep)
  | task k action =>
    obtain ⟨engine, hstep, rfl⟩ := Option.map_eq_some_iff.mp h
    exact hinv.engineStep _ engine hstep
  | endTask k =>
    obtain ⟨engine, hstep, rfl⟩ := Option.map_eq_some_iff.mp h
    exact hinv.engineStep _ engine hstep
  | closeAll =>
    obtain rfl := Option.some.inj h
    split
    · exact hinv.drain.engineStep .closeAll _ (by rw [drain_engine]; rfl)
    · exact hinv.engineStep .closeAll _ rfl

/-- In every run in which a removal does not meet a connection that is being accepted, nothing
is left of a listener once its removal is through and its tasks have stopped. -/
theorem removed_listener_closed (side : Side) (es : List Event) (s : State)
    (hmeets : Runs.Meets (Unraced side) (step side) (start side) es)
    (hexec : Runs.exec (step side) (start side) es = some s) : RemovedClosed side s := by
  apply removedClosed_of_inv
  exact Runs.invariant_of_meets (Unraced side) (step side) (Inv side)
    (fun s e t hguard hinv hstep => inv_step side s t e hguard hinv hstep) _ s es (inv_start side)
    hmeets hexec

def sampleRun : List Event :=
  [.listen 1 (.ok ()) 8080 (.ok 8080), .wake 0, .accept 0, .open 0 false, .note 0, .park 0,
    .unlisten 1, .closeRemoved 0, .cancel 0]

theorem removed_listener_closed_sample :
    ∃ s, Runs.exec (step .host) (start .host) sampleRun = some s ∧ s.removed = [1] ∧
      s.removals = [] ∧ s.accepts = [⟨1, .stopped, true⟩] ∧ ¬ Live s 1 ∧ ¬ Kept .host s 1 := by
  have hrun : ∃ s, Runs.exec (step .host) (start .host) sampleRun = some s ∧ s.removed = [1] ∧
      s.removals = [] ∧ s.accepts = [⟨1, .stopped, true⟩] :=
    ⟨_, rfl, rfl, rfl, rfl⟩
  obtain ⟨s, hs, hremoved, hremovals, haccepts⟩ := hrun
  have hclosed := removed_listener_closed .host sampleRun s (by decide) hs 1
    (by simp [hremoved]) (by simp [hremovals]) (by simp [haccepts])
  exact ⟨s, hs, hremoved, hremovals, haccepts, hclosed⟩

def racedRun : List Event :=
  [.listen 1 (.ok ()) 8080 (.ok 8080), .wake 0, .accept 0, .unlisten 1, .closeRemoved 0,
    .open 0 false, .note 0, .park 0]

def racedControllerRun : List Event :=
  [.reserve true, .spawn 0, .register 0, .wake 0, .accept 0, .open 0 false, .remove 1,
    .abortRemoved 0, .closeRemoved 0, .note 0, .park 0]

/-- A connection accepted before the removal and opened or noted after it stays open, on either
side. -/
theorem raced_listener_left_open :
    (¬ ∀ es s, Runs.exec (step .host) (start .host) es = some s → RemovedClosed .host s) ∧
      ¬ ∀ es s, Runs.exec (step .controller) (start .controller) es = some s →
        RemovedClosed .controller s := by
  constructor
  · intro hall
    have hrun : ∃ s, Runs.exec (step .host) (start .host) racedRun = some s ∧ s.removed = [1] ∧
        s.removals = [] ∧ s.accepts = [⟨1, .stopped, true⟩] ∧
        s.engine.table.entries = [⟨2, 0, false⟩] ∧ s.openers = [(0, 1)] :=
      ⟨_, rfl, rfl, rfl, rfl, rfl, rfl⟩
    obtain ⟨s, hs, hremoved, hremovals, haccepts, hentries, hopeners⟩ := hrun
    refine (hall racedRun s hs 1 (by simp [hremoved]) (by simp [hremovals])
      (by simp [haccepts])).1 ?_
    exact ⟨⟨2, 0, false⟩, by simp [hentries], by simp [hopeners]⟩
  · intro hall
    have hrun : ∃ s, Runs.exec (step .controller) (start .controller) racedControllerRun = some s ∧
        s.removed = [1] ∧ s.removals = [] ∧ s.accepts = [⟨1, .stopped, true⟩] ∧
        s.engine.table.entries = [⟨1, 0, false⟩] ∧ s.openers = [(0, 1)] :=
      ⟨_, rfl, rfl, rfl, rfl, rfl, rfl⟩
    obtain ⟨s, hs, hremoved, hremovals, haccepts, hentries, hopeners⟩ := hrun
    refine (hall racedControllerRun s hs 1 (by simp [hremoved]) (by simp [hremovals])
      (by simp [haccepts])).1 ?_
    exact ⟨⟨1, 0, false⟩, by simp [hentries], by simp [hopeners]⟩

end ClantoDesk.ForwardListeners
