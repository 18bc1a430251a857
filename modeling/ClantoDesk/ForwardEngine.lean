import ClantoDesk.ChannelTable
import ClantoDesk.CyclicSearch

/-!
The ids of the forwarding channels, src/clanto/forwarding/engine.rs, with the tunnel of
src/port_forward_mux.rs beside it. Either side opens channels of its own: the counter walks over
the ids of the side's parity and skips those in the table, while the peer names the ids of the
channels it opens. Every channel has a task, which takes the entry of its id out of the
table when it ends, whatever channel that entry is then for.
-/
namespace ClantoDesk.ForwardEngine

open FlowControl ChannelTable CyclicSearch

def i32Max : ℤ := 2147483647
def i32Min : ℤ := -2147483648

inductive Kind
  | engine (side : Side)
  | tunnel

def Side.firstId : Side → ℤ
  | .controller => 1
  | .host => 2

namespace Kind

def dispatcher : Kind → Dispatcher
  | .engine side => .engine side
  | .tunnel => .controller

def firstId : Kind → ℤ
  | .engine side => Side.firstId side
  | .tunnel => 1

/-- `checked_add(2)` with the first id in place of an overflow; `fetch_add(1)` of the tunnel
wraps. -/
def next : Kind → ℤ → ℤ
  | .engine side, id => if id + 2 ≤ i32Max then id + 2 else Side.firstId side
  | .tunnel, id => if id + 1 ≤ i32Max then id + 1 else i32Min

def goneText : Kind → String
  | .engine _ => "forwarding session is gone"
  | .tunnel => "port forward tunnel is gone"

def fullText : Kind → String
  | .engine _ => "too many forwarding channels"
  | .tunnel => "too many port forward channels"

def Owns : Kind → ℤ → Prop
  | .engine side, id => 0 < id ∧ id ≤ i32Max ∧ id % 2 = Side.firstId side % 2
  | .tunnel, id => i32Min ≤ id ∧ id ≤ i32Max

def PeerOwns : Kind → ℤ → Prop
  | .engine side, id => side.peerOwns id = true
  | .tunnel, _ => False

end Kind

/-- The task of a channel; it is on record also after its end. -/
structure Task where
  id : ℤ
  outgoing : Bool
  running : Bool

/-- The tasks stand in the order of the channels they are for. -/
structure Engine where
  table : Table
  nextId : ℤ
  tasks : List Task

def start (kind : Kind) : Engine := ⟨ChannelTable.start, kind.firstId, []⟩

namespace Engine

def ids (s : Engine) : List ℤ := s.table.entries.map Entry.id

def insert (s : Engine) (table : Table) (nextId id : ℤ) (outgoing : Bool) (e : ChannelEnd) :
    Engine :=
  ⟨table.insert id outgoing.not e, nextId, s.tasks ++ [⟨id, outgoing, true⟩]⟩

end Engine

/-- The loop of `open_outgoing` over the ids; `none` while it is still running. -/
def allocate (kind : Kind) (s : Engine) (fuel : ℕ) : Option ℤ :=
  search kind.next (fun id => decide (id ∈ s.ids)) fuel s.nextId

/-- `Engine::open_outgoing` and `TunnelHandle::open`. -/
def openOutgoing (kind : Kind) (s : Engine) (gone : Bool) : Option (Except String (ℤ × Engine)) :=
  if gone then some (.error kind.goneText)
  else if maxChannels ≤ s.table.entries.length then some (.error kind.fullText)
  else
    (allocate kind s maxChannels).map fun id =>
      .ok (id, s.insert s.table (kind.next id) id true ChannelEnd.outgoing)

/-- `Engine::on_open`. -/
def onOpen (side : Side) (s : Engine) (id : ℤ) (window : UInt32) : Engine :=
  if !side.peerOwns id then s
  else
    let table := s.table.retain
    if (table.find id).isSome then { s with table := table }
    else if maxChannels ≤ table.entries.length then { s with table := table }
    else s.insert table s.nextId id false (ChannelEnd.incoming window.toNat)

inductive Event
  | openOutgoing (gone : Bool)
  | frame (frame : Frame)
  | task (channel : ℕ) (action : Local)
  | endTask (channel : ℕ)
  | closeChannels (ids : List ℤ)
  | closeAll

def endTask (s : Engine) (k : ℕ) : Option Engine :=
  match s.tasks[k]?, s.table.made[k]? with
  | some task, some c =>
    if task.running = true ∧ c.state.sending = false ∧ c.state.receiving = false then
      some { s with
        table := s.table.remove task.id
        tasks := s.tasks.modify k fun task => { task with running := false } }
    else none
  | _, _ => none

def step (kind : Kind) (s : Engine) : Event → Option Engine
  | .openOutgoing gone =>
    (openOutgoing kind s gone).map fun
      | .error _ => s
      | .ok (_, t) => t
  | .frame (.open id window permitted authorized) =>
    match kind with
    | .engine side => some (onOpen side s id window)
    | .tunnel => some { s with
        table := onFrame kind.dispatcher s.table (.open id window permitted authorized) }
  | .frame frame => some { s with table := onFrame kind.dispatcher s.table frame }
  | .task k action =>
    (ChannelTable.step kind.dispatcher s.table (.task k action)).map fun table =>
      { s with table := table }
  | .endTask k => endTask s k
  | .closeChannels ids =>
    (ChannelTable.step kind.dispatcher s.table (.closeChannels ids)).map fun table =>
      { s with table := table }
  | .closeAll =>
    (ChannelTable.step kind.dispatcher s.table .closeAll).map fun table => { s with table := table }

def takenId (kind : Kind) (s : Engine) : Event → Option ℤ
  | .openOutgoing gone =>
    if gone = false ∧ s.table.entries.length < maxChannels then allocate kind s maxChannels
    else none
  | .frame (.open id _ _ _) =>
    match kind with
    | .engine side =>
      if side.peerOwns id = true ∧ s.table.retain.find id = none ∧
        s.table.retain.entries.length < maxChannels then some id
      else none
    | .tunnel => none
  | _ => none

def keys (t : Table) : List (ℤ × ℕ) := t.entries.map fun e => (e.id, e.channel)

variable (kind : Kind) (s : Engine) (t : Table) (entry : Entry) (id : ℤ) (cmd : Inbound)

theorem keys_length : (keys t).length = t.entries.length := List.length_map _

theorem keys_ids : (keys t).map Prod.fst = t.entries.map Entry.id := by
  simp only [keys, List.map_map]
  rfl

theorem mem_keys (e : Entry) (he : e ∈ t.entries) : (e.id, e.channel) ∈ keys t :=
  List.mem_map.mpr ⟨e, he, rfl⟩

theorem keys_remove : keys (t.remove id) = (keys t).filter fun p => decide (p.1 ≠ id) := by
  rw [keys, Table.remove, keys, List.filter_map]
  rfl

theorem keys_retain : (keys t.retain).Sublist (keys t) :=
  List.filter_sublist.map _

theorem keys_raise (e : Entry) (window : UInt32) : keys (t.raise e window) = keys t := by
  simp only [keys, Table.raise, List.map_map]
  apply List.map_congr_left
  intro e' _
  simp only [Function.comp_apply]
  split <;> rfl

theorem keys_dropEntry :
    keys (dropEntry t id cmd) = (keys t).filter fun p => decide (p.1 ≠ id) := by
  unfold dropEntry
  split
  · rename_i hfind
    symm
    rw [List.filter_eq_self]
    intro p hp
    obtain ⟨e, he, rfl⟩ := List.mem_map.mp hp
    simpa [Table.find] using List.find?_eq_none.mp hfind e he
  · rw [← keys_remove]
    rfl

theorem made_dropEntry : (dropEntry t id cmd).made.length = t.made.length := by
  unfold dropEntry
  split
  · rfl
  · simp [Table.update, Table.remove]

def Shrunk (t t' : Table) : Prop :=
  (keys t').Sublist (keys t) ∧ t'.made.length = t.made.length

theorem shrunk_refl : Shrunk t t := ⟨List.Sublist.refl _, rfl⟩

theorem Shrunk.trans {t t' t'' : Table} (h : Shrunk t t') (h' : Shrunk t' t'') : Shrunk t t'' :=
  ⟨h'.1.trans h.1, h'.2.trans h.2⟩

theorem shrunk_update (k : ℕ) (f : ChannelEnd → ChannelEnd) : Shrunk t (t.update k f) :=
  ⟨List.Sublist.refl _, by simp [Table.update]⟩

theorem shrunk_remove : Shrunk t (t.remove id) :=
  ⟨List.filter_sublist.map _, rfl⟩

theorem shrunk_retain : Shrunk t t.retain := ⟨keys_retain t, rfl⟩

theorem shrunk_dropEntry : Shrunk t (dropEntry t id cmd) :=
  ⟨keys_dropEntry t id cmd ▸ List.filter_sublist, made_dropEntry t id cmd⟩

theorem shrunk_onOpened (success : Bool) (window : UInt32) :
    Shrunk t (onOpened t id success window) := by
  unfold onOpened
  split
  · split
    · exact shrunk_refl t
    · rename_i e _
      split
      · exact shrunk_refl t
      · exact ⟨keys_raise t e window ▸ List.Sublist.refl _, by simp [Table.raise]⟩
  · exact shrunk_dropEntry t id .close

theorem shrunk_onData (bytes : Bytes) : Shrunk t (onData t id bytes) := by
  unfold onData
  split
  · exact shrunk_refl t
  · rename_i e _
    split
    · exact shrunk_refl t
    · simp only
      have hupdate := shrunk_update t e.channel fun c => (c.receive bytes).2.2
      split
      · exact hupdate
      · split
        · exact hupdate.trans (shrunk_remove _ id)
        · exact hupdate.trans (shrunk_dropEntry _ id .violation)

theorem shrunk_onWindowUpdate (add : UInt32) : Shrunk t (onWindowUpdate t id add) := by
  unfold onWindowUpdate
  split
  · exact shrunk_refl t
  · exact shrunk_update t _ _

theorem shrunk_closeChannels (ids : List ℤ) :
    Shrunk t (ids.foldl (fun t id => dropEntry t id .close) t) := by
  induction ids generalizing t with
  | nil => exact shrunk_refl t
  | cons id ids ih => exact (shrunk_dropEntry t id .close).trans (ih _)

theorem openOutgoing_ok (t : Engine) (gone : Bool) (id : ℤ)
    (h : openOutgoing kind s gone = some (.ok (id, t))) :
    gone = false ∧ s.table.entries.length < maxChannels ∧ allocate kind s maxChannels = some id ∧
      t = s.insert s.table (kind.next id) id true ChannelEnd.outgoing := by
  unfold openOutgoing at h
  split at h
  · cases h
  · rename_i hgone
    split at h
    · cases h
    · rename_i hroom
      obtain ⟨id', halloc, hok⟩ := Option.map_eq_some_iff.mp h
      obtain ⟨rfl, rfl⟩ := Prod.mk.inj (Except.ok.inj hok)
      exact ⟨by simpa using hgone, Nat.not_le.mp hroom, halloc, rfl⟩

theorem takenId_of_ok (t : Engine) (gone : Bool) (id : ℤ)
    (h : openOutgoing kind s gone = some (.ok (id, t))) :
    takenId kind s (.openOutgoing gone) = some id := by
  obtain ⟨hgone, hroom, halloc, -⟩ := openOutgoing_ok kind s t gone id h
  rw [takenId, if_pos ⟨hgone, hroom⟩, halloc]

inductive Change (kind : Kind) (s : Engine) : Option ℤ → Engine → Prop
  | outgoing (id : ℤ) (hroom : s.table.entries.length < maxChannels)
      (halloc : allocate kind s maxChannels = some id) :
      Change kind s (some id) (s.insert s.table (kind.next id) id true ChannelEnd.outgoing)
  | incoming (id : ℤ) (window : UInt32) (hpeer : kind.PeerOwns id)
      (hfree : s.table.retain.find id = none)
      (hroom : s.table.retain.entries.length < maxChannels) :
      Change kind s (some id)
        (s.insert s.table.retain s.nextId id false (ChannelEnd.incoming window.toNat))
  | shrunk (table : Table) (hshrunk : Shrunk s.table table) :
      Change kind s none { s with table := table }
  | ended (k : ℕ) (task : Task) (htask : s.tasks[k]? = some task) (hrunning : task.running = true) :
      Change kind s none { s with
        table := s.table.remove task.id
        tasks := s.tasks.modify k fun task => { task with running := false } }

theorem change_openOutgoing (t : Engine) (gone : Bool)
    (h : step kind s (.openOutgoing gone) = some t) :
    Change kind s (takenId kind s (.openOutgoing gone)) t := by
  obtain ⟨result, hresult, rfl⟩ := Option.map_eq_some_iff.mp h
  cases result with
  | ok opened =>
    rw [takenId_of_ok kind s opened.2 gone opened.1 hresult]
    obtain ⟨-, hroom, halloc, hopened⟩ := openOutgoing_ok kind s opened.2 gone opened.1 hresult
    simp only [hopened]
    exact .outgoing opened.1 hroom halloc
  | error text =>
    have hnone : takenId kind s (.openOutgoing gone) = none := by
      unfold openOutgoing at hresult
      split at hresult
      · rename_i hgone
        simp [takenId, hgone]
      · split at hresult
        · rename_i hfull
          simp [takenId, Nat.not_lt.mpr hfull]
        · obtain ⟨id, -, hok⟩ := Option.map_eq_some_iff.mp hresult
          cases hok
    rw [hnone]
    exact .shrunk s.table (shrunk_refl _)

theorem change_onOpen (side : Side) (s : Engine) (id : ℤ) (window : UInt32)
    (permitted authorized : Bool) :
    Change (.engine side) s (takenId (.engine side) s
    (.frame (.open id window permitted authorized)))
      (onOpen side s id window) := by
  simp only [onOpen, takenId]
  by_cases hpeer : side.peerOwns id = true
  · simp only [hpeer, Bool.not_true, Bool.false_eq_true, if_false, true_and]
    cases hfind : s.table.retain.find id with
    | some e =>
      rw [if_neg (by simp), if_pos (by rfl)]
      exact .shrunk _ (shrunk_retain _)
    | none =>
      simp only [Option.isSome_none, Bool.false_eq_true, if_false, true_and]
      by_cases hroom : s.table.retain.entries.length < maxChannels
      · rw [if_pos hroom, if_neg (Nat.not_le.mpr hroom)]
        exact .incoming id window hpeer hfind hroom
      · rw [if_neg hroom, if_pos (Nat.not_lt.mp hroom)]
        exact .shrunk _ (shrunk_retain _)
  · rw [if_neg (fun hcond => hpeer hcond.1), if_pos (by simpa using hpeer)]
    exact .shrunk s.table (shrunk_refl _)

theorem change_of_step (t : Engine) (e : Event) (h : step kind s e = some t) :
    Change kind s (takenId kind s e) t := by
  cases e with
  | openOutgoing gone => exact change_openOutgoing kind s t gone h
  | frame frame =>
    cases frame with
    | «open» id window permitted authorized =>
      cases kind with
      | engine side =>
        obtain rfl := Option.some.inj h
        exact change_onOpen side s id window permitted authorized
      | tunnel =>
        obtain rfl := Option.some.inj h
        exact .shrunk _ (shrunk_refl _)
    | opened id success window =>
      obtain rfl := Option.some.inj h
      refine .shrunk _ ?_
      simp only [onFrame]
      split
      · exact shrunk_refl _
      · exact shrunk_onOpened s.table id success window
    | data id bytes =>
      obtain rfl := Option.some.inj h
      exact .shrunk _ (shrunk_onData s.table id bytes)
    | close id =>
      obtain rfl := Option.some.inj h
      exact .shrunk _ (shrunk_dropEntry s.table id .close)
    | windowUpdate id add =>
      obtain rfl := Option.some.inj h
      exact .shrunk _ (shrunk_onWindowUpdate s.table id add)
  | task k action =>
    obtain ⟨table, htable, rfl⟩ := Option.map_eq_some_iff.mp h
    refine .shrunk table ?_
    simp only [ChannelTable.step] at htable
    split at htable
    · cases htable
    · obtain ⟨e, -, rfl⟩ := Option.map_eq_some_iff.mp htable
      exact shrunk_update s.table k _
  | endTask k =>
    simp only [step, endTask] at h
    split at h
    · rename_i task c htask hc
      obtain ⟨hcond, rfl⟩ := of_guard h
      exact .ended k task htask hcond.1
    · cases h
  | closeChannels ids =>
    obtain ⟨table, htable, rfl⟩ := Option.map_eq_some_iff.mp h
    refine .shrunk table ?_
    simp only [ChannelTable.step] at htable
    split at htable
    · obtain rfl := Option.some.inj htable
      exact shrunk_closeChannels s.table ids
    · cases htable
  | closeAll =>
    obtain rfl := Option.some.inj h
    exact .shrunk _ ⟨List.nil_sublist _, rfl⟩

def Kind.cycleLength : Kind → ℕ
  | .engine .host => 1073741823
  | .engine .controller => 1073741824
  | .tunnel => 4294967296

def Kind.position : Kind → ℤ → ℕ
  | .engine side, id => ((id - Side.firstId side) / 2).toNat
  | .tunnel, id => (id - i32Min).toNat

def cycle (kind : Kind) : Cycle kind.next kind.Owns kind.cycleLength where
  pos := kind.position
  pos_next := by
    intro id hid
    cases kind with
    | engine side =>
      cases side <;>
        simp only [Kind.Owns, Kind.position, Kind.next, Kind.cycleLength, Side.firstId, i32Max]
          at hid ⊢ <;>
        omega
    | tunnel =>
      simp only [Kind.Owns, Kind.position, Kind.next, Kind.cycleLength, i32Max, i32Min] at hid ⊢
      omega
  mem_next := by
    intro id hid
    cases kind with
    | engine side =>
      cases side <;> simp only [Kind.Owns, Kind.next, Side.firstId, i32Max] at hid ⊢ <;> omega
    | tunnel =>
      simp only [Kind.Owns, Kind.next, i32Max, i32Min] at hid ⊢
      omega

theorem maxChannels_lt_cycleLength : maxChannels < kind.cycleLength := by
  cases kind with
  | engine side => cases side <;> decide
  | tunnel => decide

structure Inv (kind : Kind) (s : Engine) : Prop where
  room : s.table.entries.length ≤ maxChannels
  distinct : ((keys s.table).map Prod.fst).Nodup
  next_owned : kind.Owns s.nextId
  matched : s.tasks.length = s.table.made.length
  owned : ∀ task ∈ s.tasks, (task.outgoing = true → kind.Owns task.id) ∧
    (task.outgoing = false → kind.PeerOwns task.id)
  running : ∀ p ∈ keys s.table, ∃ task, s.tasks[p.2]? = some task ∧ task.id = p.1 ∧
    task.running = true

theorem inv_start : Inv kind (start kind) := by
  refine ⟨Nat.zero_le _, List.nodup_nil, ?_, rfl, ?_, ?_⟩
  · cases kind with
    | engine side => cases side <;> simp [start, Kind.firstId, Kind.Owns, Side.firstId, i32Max]
    | tunnel => simp [start, Kind.firstId, Kind.Owns, i32Max, i32Min]
  · intro task htask
    cases htask
  · intro p hp
    cases hp

/-- An engine with room ends its search at an id that is its own and not in the table. -/
theorem allocate_spec (hinv : Inv kind s) (hroom : s.table.entries.length < maxChannels) :
    ∃ id, (∀ fuel, s.table.entries.length < fuel → allocate kind s fuel = some id) ∧
      id ∉ s.ids ∧ kind.Owns id := by
  have hlen : s.ids.length = s.table.entries.length := List.length_map _
  have hcycle := maxChannels_lt_cycleLength kind
  obtain ⟨id, hid⟩ := (cycle kind).search_ends s.nextId hinv.next_owned s.ids (by omega)
  rw [hlen] at hid
  obtain ⟨hfree, hown⟩ := search_spec kind.next _ kind.Owns (cycle kind).mem_next _ s.nextId id
    hinv.next_owned (hid maxChannels hroom)
  exact ⟨id, hid, by simpa using hfree, hown⟩

theorem Shrunk.entries_length {t t' : Table} (h : Shrunk t t') :
    t'.entries.length ≤ t.entries.length := by
  have hlen := h.1.length_le
  rwa [keys_length, keys_length] at hlen

theorem Inv.shrunk {kind : Kind} {s : Engine} (h : Inv kind s) (table : Table)
    (hshrunk : Shrunk s.table table) : Inv kind { s with table := table } := by
  refine ⟨hshrunk.entries_length.trans h.room, ?_, h.next_owned, ?_, h.owned, ?_⟩
  · exact h.distinct.sublist (hshrunk.1.map _)
  · exact h.matched.trans hshrunk.2.symm
  · intro p hp
    exact h.running p (hshrunk.1.subset hp)

theorem Inv.insert {kind : Kind} {s : Engine} (h : Inv kind s) (nextId id : ℤ) (outgoing : Bool)
    (e : ChannelEnd) (hroom : s.table.entries.length < maxChannels)
    (hfree : id ∉ (keys s.table).map Prod.fst) (hnext : kind.Owns nextId)
    (howned : (outgoing = true → kind.Owns id) ∧ (outgoing = false → kind.PeerOwns id)) :
    Inv kind (s.insert s.table nextId id outgoing e) := by
  refine ⟨hroom, ?_, hnext, ?_, ?_, ?_⟩
  · exact List.nodup_cons.mpr ⟨hfree, h.distinct⟩
  · simp [Engine.insert, Table.insert, h.matched]
  · intro task htask
    rcases List.mem_append.mp htask with hold | hnew
    · exact h.owned task hold
    · obtain rfl := List.mem_singleton.mp hnew
      exact howned
  · intro p hp
    rcases List.mem_cons.mp hp with rfl | hold
    · refine ⟨⟨id, outgoing, true⟩, ?_, rfl, rfl⟩
      simp [Engine.insert, ← h.matched]
    · obtain ⟨task, htask, hid, hrunning⟩ := h.running p hold
      refine ⟨task, ?_, hid, hrunning⟩
      exact List.getElem?_append_left (List.getElem?_eq_some_iff.mp htask).1 ▸ htask

theorem Inv.ended {kind : Kind} {s : Engine} (h : Inv kind s) (k : ℕ) (task : Task)
    (htask : s.tasks[k]? = some task) :
    Inv kind { s with
      table := s.table.remove task.id
      tasks := s.tasks.modify k fun task => { task with running := false } } := by
  have hshrunk := h.shrunk _ (shrunk_remove s.table task.id)
  refine ⟨hshrunk.room, hshrunk.distinct, h.next_owned, ?_, ?_, ?_⟩
  · simpa using hshrunk.matched
  · intro task' htask'
    obtain ⟨i, hi⟩ := List.mem_iff_getElem?.mp htask'
    rw [List.getElem?_modify] at hi
    obtain ⟨old, hold, rfl⟩ := Option.map_eq_some_iff.mp hi
    have howned := h.owned old (List.mem_of_getElem? hold)
    split <;> exact howned
  · intro p hp
    rw [keys_remove] at hp
    obtain ⟨hp, hne⟩ := List.mem_filter.mp hp
    obtain ⟨task', htask', hid, hrunning⟩ := h.running p hp
    refine ⟨task', ?_, hid, hrunning⟩
    have hk : k ≠ p.2 := by
      rintro rfl
      obtain rfl := Option.some.inj (htask.symm.trans htask')
      exact of_decide_eq_true hne hid.symm
    simp [hk, htask']

theorem find_none (h : t.find id = none) : id ∉ (keys t).map Prod.fst := by
  rw [keys_ids]
  intro hmem
  obtain ⟨e, he, hid⟩ := List.mem_map.mp hmem
  have hne := List.find?_eq_none.mp h e he
  simp [hid] at hne

theorem inv_change (t : Engine) (taken : Option ℤ) (hinv : Inv kind s)
    (h : Change kind s taken t) : Inv kind t := by
  cases h with
  | outgoing id hroom halloc =>
    obtain ⟨id', hfuel, hfree, hown⟩ := allocate_spec kind s hinv hroom
    obtain rfl := Option.some.inj ((hfuel maxChannels hroom).symm.trans halloc)
    refine hinv.insert _ id' true _ hroom ?_ ((cycle kind).mem_next id' hown)
      ⟨fun _ => hown, fun hfalse => absurd hfalse.symm Bool.false_ne_true⟩
    rwa [keys_ids]
  | incoming id window hpeer hfree hroom =>
    have hretain := hinv.shrunk _ (shrunk_retain s.table)
    exact hretain.insert _ id false _ hroom (find_none _ id hfree) hinv.next_owned
      ⟨fun hfalse => absurd hfalse Bool.false_ne_true, fun _ => hpeer⟩
  | shrunk table hshrunk => exact hinv.shrunk table hshrunk
  | ended k task htask hrunning => exact hinv.ended k task htask

theorem keys_of_change (t : Engine) (taken : Option ℤ) (h : Change kind s taken t) :
    (∀ p ∈ keys t.table, p ∈ keys s.table ∨ p.2 = s.table.made.length) ∧
      s.table.made.length ≤ t.table.made.length := by
  cases h with
  | outgoing id hroom halloc =>
    refine ⟨?_, by simp [Engine.insert, Table.insert]⟩
    intro p hp
    rcases List.mem_cons.mp hp with rfl | hold
    · exact Or.inr rfl
    · exact Or.inl hold
  | incoming id window hpeer hfree hroom =>
    refine ⟨?_, by simp [Engine.insert, Table.insert, Table.retain]⟩
    intro p hp
    rcases List.mem_cons.mp hp with rfl | hold
    · exact Or.inr rfl
    · exact Or.inl ((keys_retain s.table).subset hold)
  | shrunk table hshrunk =>
    exact ⟨fun p hp => Or.inl (hshrunk.1.subset hp), hshrunk.2.ge⟩
  | ended k task htask hrunning =>
    exact ⟨fun p hp => Or.inl ((shrunk_remove s.table task.id).1.subset hp), Nat.le_refl _⟩

theorem inv_of_exec (es : List Event)
    (h : Runs.exec (step kind) (start kind) es = some s) : Inv kind s := by
  refine Runs.invariant_of_exec (step kind) (Inv kind) ?_ _ s es (inv_start kind) h
  intro s e t hinv hstep
  exact inv_change kind s t _ hinv (change_of_step kind s t e hstep)

/-- In every run of a side of the engine the channels opened from here have ids of its
parity and those opened by the peer ids of the other, the table stays within its bound, and
a channel can always be opened while there is room: the loop then ends, at an id of
the side that is not in the table. -/
theorem engine_ids_allocated (side : Side) (es : List Event) (s : Engine)
    (h : Runs.exec (step (.engine side)) (start (.engine side)) es = some s) :
    s.table.entries.length ≤ maxChannels ∧ s.ids.Nodup ∧
      (∀ task ∈ s.tasks, task.outgoing = true →
        0 < task.id ∧ task.id ≤ i32Max ∧ task.id % 2 = Side.firstId side % 2) ∧
      (∀ task ∈ s.tasks, task.outgoing = false →
        0 < task.id ∧ task.id % 2 ≠ Side.firstId side % 2) ∧
      (s.table.entries.length < maxChannels →
        ∃ id, (∀ fuel, s.table.entries.length < fuel →
            allocate (.engine side) s fuel = some id) ∧
          id ∉ s.ids ∧ 0 < id ∧ id ≤ i32Max ∧ id % 2 = Side.firstId side % 2 ∧
          ∃ t, openOutgoing (.engine side) s false = some (.ok (id, t)) ∧
            t.tasks = s.tasks ++ [⟨id, true, true⟩]) := by
  have hinv := inv_of_exec (.engine side) s es h
  refine ⟨hinv.room, ?_, ?_, ?_, ?_⟩
  · have hdistinct := hinv.distinct
    rwa [keys_ids] at hdistinct
  · intro task htask hout
    exact (hinv.owned task htask).1 hout
  · intro task htask hin
    have hpeer := (hinv.owned task htask).2 hin
    cases side <;> simp only [Kind.PeerOwns, Side.peerOwns, decide_eq_true_eq] at hpeer <;>
      simp only [Side.firstId] <;> omega
  · intro hroom
    obtain ⟨id, hfuel, hfree, hown⟩ := allocate_spec (.engine side) s hinv hroom
    refine ⟨id, hfuel, hfree, hown.1, hown.2.1, hown.2.2,
      s.insert s.table (Kind.next (.engine side) id) id true ChannelEnd.outgoing, ?_, rfl⟩
    rw [openOutgoing, if_neg Bool.false_ne_true, if_neg (Nat.not_le.mpr hroom),
      hfuel maxChannels hroom]
    rfl

/-- The host opens a channel, the peer opens two and takes one id of the host, the first is refused
and its task ends, and the peer closes one of its own. -/
def sampleRun : List Event :=
  [.openOutgoing false, .frame (.open 1 65536 true true), .frame (.open 7 0 true true),
    .frame (.open 4 0 true true), .frame (.opened 2 false 0), .task 0 .sendOpen,
    .task 0 .nextChunk, .task 0 .stopSending, .endTask 0, .frame (.close 7)]

theorem engine_ids_allocated_sample :
    ∃ s, Runs.exec (step (.engine .host)) (start (.engine .host)) sampleRun = some s ∧
      s.table.entries.length ≤ maxChannels ∧
      ∀ task ∈ s.tasks, task.outgoing = false → 0 < task.id ∧ task.id % 2 ≠ 2 % 2 := by
  have hrun : (Runs.exec (step (.engine .host)) (start (.engine .host)) sampleRun).isSome =
      true := by
    decide
  obtain ⟨s, hs⟩ := Option.isSome_iff_exists.mp hrun
  obtain ⟨hroom, -, -, hpeer, -⟩ := engine_ids_allocated .host sampleRun s hs
  exact ⟨s, hs, hroom, hpeer⟩

/-- A close addressed to the channel of the entry: the peer's `close` or its refusal, data
beyond the window, or one of the two local closes. -/
def ClosedBy (s : Engine) (entry : Entry) : Event → Prop
  | .frame (.close id) => id = entry.id
  | .frame (.opened id success _) => id = entry.id ∧ success = false
  | .frame (.data id bytes) => id = entry.id ∧
      ∃ c, s.table.made[entry.channel]? = some c ∧ c.state.window.accept bytes.length = none
  | .closeChannels ids => entry.id ∈ ids
  | .closeAll => True
  | _ => False

/-- Whatever entry the step takes out of the table is closed by it, is the one of the task that
ends, or belongs to a channel that no longer reads. A task that ends takes
no other channel's entry with it. -/
def TakesOwn (kind : Kind) (s : Engine) (e : Event) : Prop :=
  ∀ t, step kind s e = some t → ∀ entry ∈ s.table.entries,
    (∀ entry' ∈ t.table.entries, entry'.channel ≠ entry.channel) →
      ClosedBy s entry e ∨ e = .endTask entry.channel ∨
        s.table.listening entry = false ∧ ∀ k, e ≠ .endTask k

/-- A new channel takes an id only when no task of an earlier channel with it still runs. -/
def FreshId (kind : Kind) (s : Engine) (e : Event) : Prop :=
  ∀ id, takenId kind s e = some id → ∀ task ∈ s.tasks, task.running = true → task.id ≠ id

instance (kind : Kind) (s : Engine) (e : Event) : Decidable (FreshId kind s e) :=
  match h : takenId kind s e with
  | none => isTrue (by simp [FreshId, h])
  | some id =>
    decidable_of_iff (∀ task ∈ s.tasks, task.running = true → task.id ≠ id) (by simp [FreshId, h])

def Alone (s : Engine) : Prop :=
  ∀ (i j : ℕ) (task task' : Task), s.tasks[i]? = some task → s.tasks[j]? = some task' →
    task.running = true → task'.running = true → task.id = task'.id → i = j

theorem alone_insert (table : Table) (nextId id : ℤ) (outgoing : Bool)
    (e : ChannelEnd) (halone : Alone s)
    (hfresh : ∀ task ∈ s.tasks, task.running = true → task.id ≠ id) :
    Alone (s.insert table nextId id outgoing e) := by
  have hcases : ∀ (i : ℕ) (task : Task), (s.insert table nextId id outgoing e).tasks[i]? =
      some task →
      s.tasks[i]? = some task ∨ i = s.tasks.length ∧ task.id = id := by
    intro i task htask
    simp only [Engine.insert] at htask
    by_cases hi : i < s.tasks.length
    · rw [List.getElem?_append_left hi] at htask
      exact Or.inl htask
    · rw [List.getElem?_append_right (Nat.not_lt.mp hi)] at htask
      obtain ⟨hlt, rfl⟩ := List.getElem?_eq_some_iff.mp htask
      rw [List.length_singleton] at hlt
      exact Or.inr ⟨by omega, by simp⟩
  intro i j task task' hi hj hrun hrun' hid
  rcases hcases i task hi with hi | ⟨hi, hnew⟩ <;> rcases hcases j task' hj with hj | ⟨hj, hnew'⟩
  · exact halone i j task task' hi hj hrun hrun' hid
  · exact absurd (hid.trans hnew') (hfresh task (List.mem_of_getElem? hi) hrun)
  · exact absurd (hid.symm.trans hnew) (hfresh task' (List.mem_of_getElem? hj) hrun')
  · omega

theorem alone_ended (k : ℕ) (table : Table) (halone : Alone s) :
    Alone { s with
      table := table, tasks := s.tasks.modify k fun task => { task with running := false } } := by
  -- a task that runs afterwards ran before, unchanged
  have hcases : ∀ (i : ℕ) (task : Task),
      (s.tasks.modify k fun task => { task with running := false })[i]? = some task →
        task.running = true → s.tasks[i]? = some task := by
    intro i task htask hrun
    rw [List.getElem?_modify] at htask
    obtain ⟨old, hold, rfl⟩ := Option.map_eq_some_iff.mp htask
    by_cases hk : k = i
    · rw [if_pos hk] at hrun
      cases hrun
    · rw [if_neg hk]
      exact hold
  intro i j task task' hi hj hrun hrun' hid
  exact halone i j task task' (hcases i task hi hrun) (hcases j task' hj hrun') hrun hrun' hid

theorem alone_step (t : Engine) (e : Event) (hfresh : FreshId kind s e)
    (halone : Alone s) (h : step kind s e = some t) : Alone t := by
  have hchange := change_of_step kind s t e h
  unfold FreshId at hfresh
  generalize takenId kind s e = taken at hfresh hchange
  cases hchange with
  | outgoing id hroom halloc => exact alone_insert s _ _ id true _ halone (hfresh id rfl)
  | incoming id window hpeer hfree hroom =>
    exact alone_insert s _ _ id false _ halone (hfresh id rfl)
  | shrunk table hshrunk => exact halone
  | ended k task htask hrunning => exact alone_ended s k _ halone

theorem id_of_filtered (t' : Table) (id : ℤ) (entry : Entry) (hmem : entry ∈ t.entries)
    (hkeys : keys t' = (keys t).filter fun p => decide (p.1 ≠ id))
    (hgone : ∀ entry' ∈ t'.entries, entry'.channel ≠ entry.channel) : id = entry.id := by
  by_contra hne
  have hkept : (entry.id, entry.channel) ∈ keys t' := by
    rw [hkeys]
    exact List.mem_filter.mpr ⟨mem_keys t entry hmem, decide_eq_true (Ne.symm hne)⟩
  obtain ⟨entry', hmem', heq⟩ := List.mem_map.mp hkept
  exact hgone entry' hmem' (congrArg Prod.snd heq)

theorem not_gone_of_keys (t' : Table) (entry : Entry) (hmem : entry ∈ t.entries)
    (hkeys : keys t' = keys t)
    (hgone : ∀ entry' ∈ t'.entries, entry'.channel ≠ entry.channel) : False := by
  have hkept : (entry.id, entry.channel) ∈ keys t' := hkeys ▸ mem_keys t entry hmem
  obtain ⟨entry', hmem', heq⟩ := List.mem_map.mp hkept
  exact hgone entry' hmem' (congrArg Prod.snd heq)

theorem find_of_mem (hdistinct : ((keys t).map Prod.fst).Nodup)
    (hmem : entry ∈ t.entries) : t.find entry.id = some entry := by
  rw [keys_ids] at hdistinct
  cases hfind : t.find entry.id with
  | none =>
    have hne := List.find?_eq_none.mp hfind entry hmem
    simp at hne
  | some e =>
    obtain ⟨he, hid⟩ := find_mem t entry.id e hfind
    exact congrArg some (List.inj_on_of_nodup_map hdistinct he hmem hid)

/-- A data frame only takes out the entry it is for, when it overruns the window or the
channel no longer reads. -/
theorem gone_onData (bytes : Bytes) (entry : Entry)
    (hdistinct : ((keys t).map Prod.fst).Nodup) (hmem : entry ∈ t.entries)
    (hgone : ∀ entry' ∈ (onData t id bytes).entries, entry'.channel ≠ entry.channel) :
    id = entry.id ∧ ((∃ c, t.made[entry.channel]? = some c ∧
      c.state.window.accept bytes.length = none) ∨ t.listening entry = false) := by
  have hid : id = entry.id := by
    unfold onData at hgone
    split at hgone
    · exact absurd rfl (hgone entry hmem)
    · rename_i e _
      split at hgone
      · exact absurd rfl (hgone entry hmem)
      · simp only at hgone
        split at hgone
        · exact (not_gone_of_keys t _ entry hmem rfl hgone).elim
        · split at hgone
          · exact id_of_filtered t _ id entry hmem (keys_remove _ id) hgone
          · exact id_of_filtered (t.update e.channel fun c => (c.receive bytes).2.2) _ id entry hmem
              (keys_dropEntry _ id .violation) hgone
  refine ⟨hid, ?_⟩
  subst hid
  unfold onData at hgone
  rw [find_of_mem t entry hdistinct hmem] at hgone
  simp only at hgone
  cases hc : t.made[entry.channel]? with
  | none =>
    rw [hc] at hgone
    exact absurd rfl (hgone entry hmem)
  | some c =>
    cases haccept : c.state.window.accept bytes.length with
    | none => exact Or.inl ⟨c, rfl, haccept⟩
    | some window =>
      right
      cases hreceiving : c.state.receiving with
      | false => simp [Table.listening, hc, hreceiving]
      | true =>
        exfalso
        simp only [hc, ChannelEnd.receive, haccept, hreceiving, if_true] at hgone
        exact not_gone_of_keys t _ entry hmem rfl hgone

theorem gone_closeChannels (ids : List ℤ) (entry : Entry) (hmem : entry ∈ t.entries)
    (hgone : ∀ entry' ∈ (ids.foldl (fun t id => dropEntry t id .close) t).entries,
      entry'.channel ≠ entry.channel) : entry.id ∈ ids := by
  by_contra hnot
  have hkept : ∀ (t : Table), (entry.id, entry.channel) ∈ keys t →
      (entry.id, entry.channel) ∈ keys (ids.foldl (fun t id => dropEntry t id .close) t) := by
    clear hgone
    induction ids with
    | nil => exact fun _ hp => hp
    | cons id ids ih =>
      intro t hp
      have hne : entry.id ≠ id := fun heq => hnot (heq ▸ List.mem_cons_self ..)
      refine ih (fun hin => hnot (List.mem_cons_of_mem _ hin)) _ ?_
      rw [keys_dropEntry]
      exact List.mem_filter.mpr ⟨hp, decide_eq_true hne⟩
  obtain ⟨entry', hmem', heq⟩ := List.mem_map.mp (hkept t (mem_keys t entry hmem))
  exact hgone entry' hmem' (congrArg Prod.snd heq)

theorem gone_retain (hmem : entry ∈ t.entries)
    (hgone : ∀ entry' ∈ t.retain.entries, entry'.channel ≠ entry.channel) :
    t.listening entry = false := by
  by_contra hlistening
  have hkept : entry ∈ t.retain.entries :=
    List.mem_filter.mpr ⟨hmem, by simpa using hlistening⟩
  exact hgone entry hkept rfl

theorem mem_openOutgoing (t : Engine) (gone : Bool) (entry : Entry)
    (h : step kind s (.openOutgoing gone) = some t) (hmem : entry ∈ s.table.entries) :
    entry ∈ t.table.entries := by
  obtain ⟨result, hresult, rfl⟩ := Option.map_eq_some_iff.mp h
  cases result with
  | error text => exact hmem
  | ok opened =>
    obtain ⟨-, -, -, hopened⟩ := openOutgoing_ok kind s opened.2 gone opened.1 hresult
    simp only [hopened]
    exact List.mem_cons_of_mem _ hmem

theorem gone_onOpen (side : Side) (s : Engine) (id : ℤ) (window : UInt32) (entry : Entry)
    (hmem : entry ∈ s.table.entries)
    (hgone : ∀ entry' ∈ (onOpen side s id window).table.entries, entry'.channel ≠ entry.channel) :
    s.table.listening entry = false := by
  refine gone_retain s.table entry hmem ?_
  intro entry' hmem'
  apply hgone
  unfold onOpen
  simp only
  repeat' split
  · exact (List.mem_filter.mp hmem').1
  · exact hmem'
  · exact hmem'
  · exact List.mem_cons_of_mem _ hmem'

/-- While no two running tasks share an id, a task that ends takes its own entry only. -/
theorem gone_endTask (t : Engine) (k : ℕ) (entry : Entry) (hinv : Inv kind s)
    (halone : Alone s) (h : endTask s k = some t) (hmem : entry ∈ s.table.entries)
    (hgone : ∀ entry' ∈ t.table.entries, entry'.channel ≠ entry.channel) : k = entry.channel := by
  unfold endTask at h
  split at h
  · rename_i task c htask hc
    obtain ⟨hcond, rfl⟩ := of_guard h
    have hid := id_of_filtered s.table _ task.id entry hmem (keys_remove _ _) hgone
    obtain ⟨task', htask', hid', hrunning⟩ := hinv.running _ (mem_keys s.table entry hmem)
    exact halone k entry.channel task task' htask htask' hcond.1 hrunning (hid.trans hid'.symm)
  · cases h

theorem takesOwn_of_alone (e : Event) (hinv : Inv kind s)
    (halone : Alone s) : TakesOwn kind s e := by
  intro t h entry hmem hgone
  cases e with
  | openOutgoing gone =>
    exact absurd rfl (hgone entry (mem_openOutgoing kind s t gone entry h hmem))
  | frame frame =>
    cases frame with
    | «open» id window permitted authorized =>
      cases kind with
      | engine side =>
        obtain rfl := Option.some.inj h
        exact Or.inr (Or.inr ⟨gone_onOpen side s id window entry hmem hgone, by simp⟩)
      | tunnel =>
        obtain rfl := Option.some.inj h
        exact absurd rfl (hgone entry hmem)
    | opened id success window =>
      obtain rfl := Option.some.inj h
      left
      simp only [onFrame] at hgone
      split at hgone
      · exact absurd rfl (hgone entry hmem)
      · cases success with
        | false => exact ⟨id_of_filtered s.table _ id entry hmem (keys_dropEntry _ _ _) hgone, rfl⟩
        | true =>
          exfalso
          simp only [onOpened, if_true] at hgone
          split at hgone
          · exact hgone entry hmem rfl
          · split at hgone
            · exact hgone entry hmem rfl
            · exact not_gone_of_keys s.table _ entry hmem (keys_raise _ _ _) hgone
    | data id bytes =>
      obtain rfl := Option.some.inj h
      obtain ⟨hid, hover | hlistening⟩ := gone_onData s.table id bytes entry hinv.distinct
        hmem hgone
      · exact Or.inl ⟨hid, hover⟩
      · exact Or.inr (Or.inr ⟨hlistening, by simp⟩)
    | close id =>
      obtain rfl := Option.some.inj h
      exact Or.inl (id_of_filtered s.table _ id entry hmem (keys_dropEntry _ _ _) hgone)
    | windowUpdate id add =>
      obtain rfl := Option.some.inj h
      simp only [onFrame, onWindowUpdate] at hgone
      split at hgone
      · exact absurd rfl (hgone entry hmem)
      · exact absurd rfl (hgone entry hmem)
  | task k action =>
    obtain ⟨table, htable, rfl⟩ := Option.map_eq_some_iff.mp h
    simp only [ChannelTable.step] at htable
    split at htable
    · cases htable
    · obtain ⟨e, -, rfl⟩ := Option.map_eq_some_iff.mp htable
      exact absurd rfl (hgone entry hmem)
  | endTask k =>
    exact Or.inr (Or.inl (gone_endTask kind s t k entry hinv halone h hmem hgone ▸ rfl))
  | closeChannels ids =>
    obtain ⟨table, htable, rfl⟩ := Option.map_eq_some_iff.mp h
    simp only [ChannelTable.step] at htable
    split at htable
    · obtain rfl := Option.some.inj htable
      exact Or.inl (gone_closeChannels s.table ids entry hmem hgone)
    · cases htable
  | closeAll => exact Or.inl trivial

/-- In every run in which new channels take only ids that no running task has, a table entry is
removed by its own channel's end or by a close addressed to it. -/
theorem entry_removed_by_own_end (kind : Kind) (es : List Event)
    (hfresh : Runs.Meets (FreshId kind) (step kind) (start kind) es) :
    Runs.Meets (TakesOwn kind) (step kind) (start kind) es := by
  refine Runs.meets_of_invariant (FreshId kind) (TakesOwn kind) (step kind)
    (fun s => Inv kind s ∧ Alone s) ?_ ?_ _ es ⟨inv_start kind, ?_⟩ hfresh
  · intro s e t hfresh hinv hstep
    exact ⟨inv_change kind s t _ hinv.1 (change_of_step kind s t e hstep),
      alone_step kind s t e hfresh hinv.2 hstep⟩
  · intro s e _ hinv
    exact takesOwn_of_alone kind s e hinv.1 hinv.2
  · intro i j task task' hi
    cases hi

theorem entry_removed_by_own_end_sample :
    Runs.Meets (FreshId (.engine .host)) (step (.engine .host)) (start (.engine .host)) sampleRun ∧
      Runs.Meets (TakesOwn (.engine .host)) (step (.engine .host)) (start (.engine .host))
        sampleRun := by
  have hfresh : Runs.Meets (FreshId (.engine .host)) (step (.engine .host)) (start (.engine .host))
      sampleRun := by
    decide
  exact ⟨hfresh, entry_removed_by_own_end (.engine .host) sampleRun hfresh⟩

/-- The peer opens, closes and opens again; the task of the first channel ends last. -/
def reopenRun : List Event :=
  [.frame (.open 1 65536 true true), .frame (.close 1), .frame (.open 1 65536 true true),
    .task 0 .setupCommand]

theorem reopened_entry_removed :
    ¬ ∀ es, Runs.Meets (TakesOwn (.engine .host)) (step (.engine .host)) (start (.engine .host))
      es := by
  intro hall
  have hend : ∃ s t, Runs.exec (step (.engine .host)) (start (.engine .host)) reopenRun = some s ∧
      step (.engine .host) s (.endTask 0) = some t ∧ s.table.entries = [⟨1, 1, true⟩] ∧
      t.table.entries = [] :=
    ⟨_, _, rfl, rfl, rfl, rfl⟩
  obtain ⟨s, t, hs, ht, hbefore, hafter⟩ := hend
  have hmeets := Runs.meets_append _ _ _ s reopenRun [.endTask 0] (hall _) hs
  have htakes := hmeets.1 t ht ⟨1, 1, true⟩ (by simp [hbefore]) (by simp [hafter])
  simp [ClosedBy] at htakes

end ClantoDesk.ForwardEngine
