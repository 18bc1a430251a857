import ClantoDesk.ChannelTask
import ClantoDesk.ForwardEngine

/-!
All the channels of one tunnel, src/port_forward_mux.rs on the side that opens them and
src/server/port_forward_mux.rs on the other. On either side the tasks share an ordered
queue, the connection's loop moves it to the wire, and the dispatcher of the far side takes the
frames off and finds their channel by its id. What a task writes to its socket
comes in order from what the task at the other end has read from its own.
-/
namespace ClantoDesk.TunnelTraffic

open FlowControl ChannelTask
open TunnelChannel (Side Both)
open ChannelTable (Frame Table Tracked)

/-- A frame on its way, with the number of the channel whose task sent it, which nobody reads. The
dispatcher's own answers have none. -/
structure Packet where
  sender : Option ℕ
  frame : Frame
  deriving DecidableEq

/-- One side. `wire` is what has left it and `delivered` what the far side has taken of it. -/
structure Station where
  table : Table
  tasks : List Task
  queue : List Packet
  control : List Packet
  wire : List Packet
  delivered : List Packet
  down : Bool
  deriving DecidableEq

def Station.new : Station := ⟨ChannelTable.start, [], [], [], [], [], false⟩

structure Tunnel where
  stations : Both Station
  nextId : ℤ
  deriving DecidableEq

def start : Tunnel := ⟨⟨Station.new, Station.new⟩, 1⟩

def dataQueueFrames : ℕ := 128

/-- `gone` is the answer of `is_closed`; the queue is closed only after the tunnel went down. -/
inductive Event
  | open (gone : Bool) (prebuf : Bytes)
  | act (side : Side) (channel : ℕ) (action : Action)
  | transmit (side : Side)
  | transmitControl
  | deliver (side : Side) (permitted authorized : Bool)
  | goDown (side : Side)

namespace Station

def context (st : Station) (side : Side) (k : ℕ) : Context :=
  { side := side
    down := st.down
    room := decide (side = .acceptor ∨ st.queue.length < dataQueueFrames)
    listed := decide (∃ e ∈ st.table.entries, e.channel = k) }

def emit (st : Station) (side : Side) (channel : ℕ) : Output → Station
  | .silent => st
  | .ordered frame => { st with queue := st.queue ++ [⟨some channel, frame⟩] }
  | .control frame =>
    match side with
    | .opener => { st with control := st.control ++ [⟨some channel, frame⟩] }
    | .acceptor => { st with queue := st.queue ++ [⟨some channel, frame⟩] }

def leaveTable (st : Station) (side : Side) (id : ℤ) (action : Action) : Station :=
  if side = .opener ∧ action = .finish then { st with table := st.table.remove id } else st

def act (st : Station) (side : Side) (k : ℕ) (action : Action) : Option Station :=
  match st.tasks[k]?, st.table.made[k]? with
  | some task, some c =>
    (ChannelTask.act (st.context side k) task c.state action).map fun (task', e, out) =>
      ({ st with
        tasks := st.tasks.set k task'
        table := st.table.update k fun _ => e }.emit side task.channel out).leaveTable side task.id
          action
  | _, _ => none

/-- `close_all`. -/
def goDown (st : Station) : Station :=
  { st with table := { st.table with entries := [] }, down := true }

end Station

def dispatcher : Side → ChannelTable.Dispatcher
  | .opener => .controller
  | .acceptor => .controlled

def decided (permitted authorized : Bool) : Frame → Frame
  | .open id window _ _ => .open id window permitted authorized
  | frame => frame

/-- The answer of `PortForwardMux::on_open` to an `open` that it refuses. -/
def refusal (t : Table) : Frame → List Packet
  | .open id _ permitted authorized =>
    let t := t.retain
    let refused : Packet := ⟨none, .opened id false 0⟩
    if !permitted then [refused]
    else if maxChannels ≤ t.entries.length then [refused]
    else if (t.find id).isSome then []
    else if !authorized then [refused]
    else []
  | _ => []

def receive (st : Station) (side : Side) (p : Packet) : Station :=
  let table := ChannelTable.onFrame (dispatcher side) st.table p.frame
  { st with
    table := table
    tasks :=
      if st.table.made.length < table.made.length then
        st.tasks ++ [Task.new (frameId p.frame) (p.sender.getD 0) []]
      else st.tasks
    queue := if side = .acceptor then st.queue ++ refusal st.table p.frame else st.queue }

def station (s : Tunnel) (side : Side) : Station := s.stations.get side

def setStation (s : Tunnel) (side : Side) (st : Station) : Tunnel :=
  { s with stations := s.stations.set side st }

/-- `TunnelHandle::open`; on an error nothing has changed. -/
def openChannel (s : Tunnel) (gone : Bool) (prebuf : Bytes) : Option Tunnel :=
  let st := station s .opener
  match ForwardEngine.openOutgoing .tunnel ⟨st.table, s.nextId, []⟩ gone with
  | some (.ok (id, engine)) =>
    some { setStation s .opener { st with
        table := engine.table
        tasks := st.tasks ++ [Task.new id st.tasks.length prebuf] } with
      nextId := engine.nextId }
  | some (.error _) => some s
  | none => none

def step (s : Tunnel) : Event → Option Tunnel
  | .open gone prebuf =>
    if gone = true → (station s .opener).down = true then openChannel s gone prebuf else none
  | .act side k action => ((station s side).act side k action).map (setStation s side)
  | .transmit side =>
    let st := station s side
    match st.down, st.queue with
    | false, p :: rest => some (setStation s side { st with queue := rest, wire := st.wire ++ [p] })
    | _, _ => none
  | .transmitControl =>
    let st := station s .opener
    match st.down, st.control with
    | false, p :: rest =>
      some (setStation s .opener { st with control := rest, wire := st.wire ++ [p] })
    | _, _ => none
  | .deliver side permitted authorized =>
    let far := station s side.other
    match (station s side).down, far.wire with
    | false, p :: rest =>
      let s := setStation s side.other { far with wire := rest, delivered := far.delivered ++ [p] }
      let p := { p with frame := decided permitted authorized p.frame }
      some (setStation s side (receive (station s side) side p))
    | _, _ => none
  | .goDown side => some (setStation s side (station s side).goDown)

/-- A dispatcher has put this data into the end's queue, and left its relays alone. -/
structure Told (e e' : ChannelEnd) (data : Bytes) : Prop where
  phase : e'.phase = e.phase
  held : e'.held = e.held
  sending : e'.sending = e.sending
  receiving : e'.receiving = e.receiving
  pending : e'.pending = e.pending
  chunk : e'.chunk = e.chunk
  inbound : e'.inbound.flatMap inboundBytes = e.inbound.flatMap inboundBytes ++ data

variable (e : ChannelEnd) (t : Table) (entries : List ChannelTable.Entry) (k : ℕ) (id : ℤ)
  (bytes : Bytes)

theorem Told.refl : Told e e [] :=
  ⟨rfl, rfl, rfl, rfl, rfl, rfl, (List.append_nil _).symm⟩

theorem Told.unwritten_eq {e e' : ChannelEnd} {data : Bytes} (h : Told e e' data) (t : Task) :
    unwritten t e' = unwritten t e ++ data := by
  simp only [unwritten, h.chunk, h.pending, h.inbound, List.append_assoc]

theorem told_credit (credit : ℕ) : Told e { e with credit := credit } [] :=
  ⟨rfl, rfl, rfl, rfl, rfl, rfl, (List.append_nil _).symm⟩

theorem told_command (cmd : Inbound) (hcmd : inboundBytes cmd = []) :
    Told e (e.command cmd) [] := by
  unfold ChannelEnd.command
  split
  · exact ⟨rfl, rfl, rfl, rfl, rfl, rfl, by simp [hcmd]⟩
  · exact Told.refl e

/-- The data frame is in the queue, or the end has stopped listening or is over its window. -/
theorem told_receive :
    ∃ data, Told e (e.receive bytes).2.2 data ∧
      (data ≠ [] → e.receiving = true ∧ data = bytes) ∧
      ((e.receive bytes).2.1 = true → data = bytes) := by
  unfold ChannelEnd.receive
  split
  · exact ⟨[], Told.refl e, fun h => absurd rfl h, fun h => absurd h Bool.false_ne_true⟩
  · split
    · rename_i hreceiving
      exact ⟨bytes, ⟨rfl, rfl, rfl, rfl, rfl, rfl, by simp [inboundBytes]⟩,
        fun _ => ⟨hreceiving, rfl⟩, fun _ => rfl⟩
    · exact ⟨[], ⟨rfl, rfl, rfl, rfl, rfl, rfl, by simp⟩, fun h => absurd rfl h,
        fun h => absurd h Bool.false_ne_true⟩

def Listed (t : Table) (k : ℕ) (id : ℤ) : Prop := ∃ e ∈ t.entries, e.channel = k ∧ e.id = id

/-- What a dispatcher does with a frame that makes no channel: it takes entries out of the table,
and only the end that the frame's id stands for gets its data. While that end stays in the table it
gets all of it. -/
structure Handled (t t' : Table) (f : Frame) : Prop where
  length : t'.made.length = t.made.length
  entries : (t'.entries.map fun e => (e.id, e.channel)).Sublist
    (t.entries.map fun e => (e.id, e.channel))
  told : ∀ (k : ℕ) (c : Tracked), t.made[k]? = some c → ∃ c' data,
    t'.made[k]? = some c' ∧ Told c.state c'.state data ∧
      (data ≠ [] → c.state.receiving = true ∧ data = payload f ∧ ∃ e,
        t.find (frameId f) = some e ∧ e.channel = k) ∧
      (∀ e, t.find (frameId f) = some e → e.channel = k → Listed t' k (frameId f) →
        data = payload f)

theorem handled_of_entries (f : Frame) (hentries : (entries.map fun e => (e.id, e.channel)).Sublist
      (t.entries.map fun e => (e.id, e.channel))) (hf : payload f = []) :
    Handled t { t with entries := entries } f :=
  ⟨rfl, hentries, fun _ c hc => ⟨c, [], hc, Told.refl _, fun h => absurd rfl h,
    fun _ _ _ _ => hf.symm⟩⟩

theorem update_made (j : ℕ) (g : ChannelEnd → ChannelEnd) (c : Tracked) (hc : t.made[j]? = some c) :
    (t.update k g).made[j]? = some (if k = j then { c with state := g c.state } else c) := by
  simp only [Table.update, List.getElem?_modify, hc, Option.map_eq_map, Option.map_some]

theorem handled_update (g : ChannelEnd → ChannelEnd) (f : Frame)
    (hentries : (entries.map fun e => (e.id, e.channel)).Sublist
      (t.entries.map fun e => (e.id, e.channel))) (hf : payload f = [])
    (hg : ∀ e, Told e (g e) []) : Handled t { t.update k g with entries := entries } f := by
  refine ⟨by simp [Table.update], hentries, ?_⟩
  intro j c hc
  refine ⟨_, [], update_made t k j g c hc, ?_, fun h => absurd rfl h, fun _ _ _ _ => hf.symm⟩
  split
  · exact hg c.state
  · exact Told.refl c.state

theorem remove_sublist :
    ((t.remove id).entries.map fun e => (e.id, e.channel)).Sublist
      (t.entries.map fun e => (e.id, e.channel)) :=
  List.filter_sublist.map _

theorem handled_dropEntry (cmd : Inbound) (f : Frame) (hf : payload f = [])
    (hcmd : inboundBytes cmd = []) : Handled t (ChannelTable.dropEntry t id cmd) f := by
  unfold ChannelTable.dropEntry
  split
  · exact handled_of_entries t t.entries f (List.Sublist.refl _) hf
  · rename_i e he
    exact handled_update t (t.remove id).entries e.channel (fun c => c.command cmd) f
      (remove_sublist t id) hf fun e => told_command e cmd hcmd

theorem Told.trans {e e' e'' : ChannelEnd} {data data' : Bytes} (h : Told e e' data)
    (h' : Told e' e'' data') : Told e e'' (data ++ data') :=
  ⟨h'.phase.trans h.phase, h'.held.trans h.held, h'.sending.trans h.sending,
    h'.receiving.trans h.receiving, h'.pending.trans h.pending, h'.chunk.trans h.chunk, by
      rw [h'.inbound, h.inbound, List.append_assoc]⟩

theorem not_listed_remove : ¬ Listed (t.remove id) k id := by
  rintro ⟨e, he, -, hid⟩
  have hne := (List.mem_filter.mp he).2
  simp [hid] at hne

/-- The end that a data frame is for gets it through `update`, and loses its entry unless it has
taken it. -/
theorem handled_deliver (e : ChannelTable.Entry)
    (entries : List ChannelTable.Entry) (g : ChannelEnd → ChannelEnd)
    (he : t.find id = some e)
    (hentries : (entries.map fun e => (e.id, e.channel)).Sublist
      (t.entries.map fun e => (e.id, e.channel)))
    (hg : ∀ c, t.made[e.channel]? = some c → ∃ data, Told c.state (g c.state) data ∧
      (data ≠ [] → c.state.receiving = true ∧ data = bytes) ∧
      ((∃ e' ∈ entries, e'.id = id) → data = bytes)) :
    Handled t { t.update e.channel g with entries := entries } (.data id bytes) := by
  refine ⟨by simp [Table.update], hentries, ?_⟩
  intro j c hc
  by_cases hj : e.channel = j
  · subst hj
    obtain ⟨data, htold, hsome, hall⟩ := hg c hc
    refine ⟨_, data, (update_made t _ _ g c hc).trans (by rw [if_pos rfl]), htold, ?_, ?_⟩
    · intro hne
      exact ⟨(hsome hne).1, (hsome hne).2, e, he, rfl⟩
    · rintro - - - ⟨e', he', -, hid⟩
      exact hall ⟨e', he', hid⟩
  · refine ⟨_, [], (update_made t _ _ g c hc).trans (by rw [if_neg hj]), Told.refl _,
      fun h => absurd rfl h, ?_⟩
    intro e' he' hchannel
    obtain rfl := Option.some.inj (he.symm.trans he')
    exact absurd hchannel hj

theorem handled_onData : Handled t (ChannelTable.onData t id bytes) (.data id bytes) := by
  unfold ChannelTable.onData
  cases he : t.find id with
  | none =>
    refine ⟨rfl, List.Sublist.refl _, fun k c hc => ⟨c, [], hc, Told.refl _,
      fun h => absurd rfl h, ?_⟩⟩
    intro e he'
    exact absurd (he.symm.trans he') nofun
  | some e =>
    cases hc : t.made[e.channel]? with
    | none =>
      simp only [hc]
      refine ⟨rfl, List.Sublist.refl _, fun k c hk => ⟨c, [], hk, Told.refl _,
        fun h => absurd rfl h, ?_⟩⟩
      rintro e' he' rfl
      obtain rfl := Option.some.inj (he.symm.trans he')
      exact absurd (hc.symm.trans hk) nofun
    | some c =>
      simp only [hc]
      obtain ⟨data, htold, hsome, hall⟩ := told_receive c.state bytes
      cases hreceive : c.state.receive bytes with
      | mk accepted rest =>
        cases rest with
        | mk delivered e1 =>
          rw [hreceive] at hall
          simp only
          cases delivered with
          | true =>
            simp only [if_true]
            change Handled t { t.update e.channel fun c => (c.receive bytes).2.2 with
              entries := t.entries } _
            refine handled_deliver t id bytes e t.entries _ he (List.Sublist.refl _) ?_
            intro c' hc'
            obtain rfl := Option.some.inj (hc.symm.trans hc')
            exact ⟨data, htold, hsome, fun _ => hall rfl⟩
          | false =>
            cases accepted with
            | true =>
              simp only [if_true, Bool.false_eq_true, if_false]
              refine handled_deliver t id bytes e (t.remove id).entries _ he
                (remove_sublist t id) ?_
              intro c' hc'
              obtain rfl := Option.some.inj (hc.symm.trans hc')
              refine ⟨data, htold, hsome, ?_⟩
              rintro ⟨e', he', hid⟩
              exact absurd ⟨e', he', rfl, hid⟩ (not_listed_remove t e'.channel id)
            | false =>
              simp only [Bool.false_eq_true, if_false]
              have hdrop : ChannelTable.dropEntry
                  (t.update e.channel fun c => (c.receive bytes).2.2) id .violation =
                  { t.update e.channel fun c => (c.receive bytes).2.2.command .violation with
                    entries := (t.remove id).entries } := by
                have hfind : (t.update e.channel fun c => (c.receive bytes).2.2).find id = some e :=
                    he
                unfold ChannelTable.dropEntry
                rw [hfind]
                simp only [Table.update, Table.remove, List.modify_modify_eq]
                rfl
              rw [hdrop]
              refine handled_deliver t id bytes e (t.remove id).entries _ he
                (remove_sublist t id) ?_
              intro c' hc'
              obtain rfl := Option.some.inj (hc.symm.trans hc')
              refine ⟨data, ?_, hsome, ?_⟩
              · rw [← List.append_nil data]
                exact htold.trans (told_command _ .violation rfl)
              · rintro ⟨e', he', hid⟩
                exact absurd ⟨e', he', rfl, hid⟩ (not_listed_remove t e'.channel id)

theorem handled_onOpened (success : Bool) (window : UInt32) :
    Handled t (ChannelTable.onOpened t id success window) (.opened id success window) := by
  unfold ChannelTable.onOpened
  split
  · split
    · exact handled_of_entries t t.entries _ (List.Sublist.refl _) rfl
    · rename_i e he
      split
      · exact handled_of_entries t t.entries _ (List.Sublist.refl _) rfl
      · have hmap : ((t.raise e window).entries.map fun e => (e.id, e.channel)) =
            t.entries.map fun e => (e.id, e.channel) := by
          simp only [Table.raise, List.map_map]
          refine List.map_congr_left fun e' _ => ?_
          simp only [Function.comp]
          split <;> rfl
        refine ⟨by simp [Table.raise], by rw [hmap], ?_⟩
        intro k c hc
        refine ⟨if e.channel = k then
          ⟨{ c.state with credit := raiseInitial c.state.credit window.toNat },
            c.raises + 1⟩ else c,
          [], ?_, ?_, fun h => absurd rfl h, fun _ _ _ _ => rfl⟩
        · simp only [Table.raise, List.getElem?_modify, hc, Option.map_eq_map, Option.map_some]
        · split
          · exact told_credit _ _
          · exact Told.refl _
  · exact handled_dropEntry t id .close _ rfl rfl

/-- The dispatchers of the two sides either handle a frame for the channels there are, or, at an
`open` on the accepting side, make a new one. -/
theorem onFrame_cases (side : Side) (t : Table) (f : Frame) :
    Handled t (ChannelTable.onFrame (dispatcher side) t f) f ∨
      side = .acceptor ∧ ∃ id window, f = .open id window true true ∧ t.retain.find id = none ∧
        ChannelTable.onFrame (dispatcher side) t f =
          t.retain.insert id true (ChannelEnd.incoming window.toNat) := by
  cases f with
  | opened id success window =>
    cases side with
    | opener => exact Or.inl (handled_onOpened t id success window)
    | acceptor => exact Or.inl (handled_of_entries t t.entries _ (List.Sublist.refl _) rfl)
  | data id bytes => exact Or.inl (handled_onData t id bytes)
  | close id => exact Or.inl (handled_dropEntry t id .close _ rfl rfl)
  | windowUpdate id add =>
    refine Or.inl ?_
    change Handled t (ChannelTable.onWindowUpdate t id add) _
    unfold ChannelTable.onWindowUpdate
    split
    · exact handled_of_entries t t.entries _ (List.Sublist.refl _) rfl
    · rename_i e he
      exact handled_update t t.entries e.channel
        (fun c => { c with credit := addCredit c.credit add.toNat }) (.windowUpdate id add)
        (List.Sublist.refl _) rfl fun e => told_credit e _
  | «open» id window permitted authorized =>
    cases side with
    | opener => exact Or.inl (handled_of_entries t t.entries _ (List.Sublist.refl _) rfl)
    | acceptor =>
      have hretain : Handled t t.retain (.open id window permitted authorized) :=
        handled_of_entries t t.retain.entries _ (List.filter_sublist.map _) rfl
      change Handled t (ChannelTable.onOpenControlled t id window permitted authorized) _ ∨ _ ∧
        ∃ id' window', _ ∧ _ ∧ ChannelTable.onOpenControlled t id window permitted authorized = _
      unfold ChannelTable.onOpenControlled
      cases permitted with
      | false => exact Or.inl hretain
      | true =>
        by_cases hfull : maxChannels ≤ t.retain.entries.length
        · simp only [Bool.not_true, Bool.false_eq_true, if_false, if_pos hfull]
          exact Or.inl hretain
        · cases hfind : t.retain.find id with
          | some e =>
            simp only [Bool.not_true, Bool.false_eq_true, if_false, if_neg hfull, hfind,
              Option.isSome_some, if_true]
            exact Or.inl hretain
          | none =>
            cases authorized with
            | false =>
              simp only [Bool.not_true, Bool.not_false, Bool.false_eq_true, if_false, if_neg hfull,
                hfind, Option.isSome_none, if_true]
              exact Or.inl hretain
            | true =>
              simp only [Bool.not_true, Bool.false_eq_true, if_false, if_neg hfull, hfind,
                Option.isSome_none]
              exact Or.inr ⟨trivial, id, window, rfl, hfind, rfl⟩

end ClantoDesk.TunnelTraffic
