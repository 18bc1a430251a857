import ClantoDesk.TunnelTraffic

/-!
The bytes of the channels of a tunnel in every run in which no id is taken again while its
last channel is still at work. What has left a side is one history, of which the far side has
read the front; the frames of a channel in it are the log of its task. An end that is in the table
and listens has got all the data of its channel so far.
-/
namespace ClantoDesk.ChannelBytes

open FlowControl ChannelTask TunnelTraffic
open TunnelChannel (Side Both)
open ChannelTable (Frame Table Tracked)

def framesOf (c : ℕ) (ps : List Packet) : List Frame :=
  ps.filterMap fun p =>
    if p.sender = some c ∧ ordered p.frame = true then some p.frame else none

variable (c : ℕ) (s s' t : Tunnel) (side : Side) (st st' : Station)

theorem framesOf_append (ps qs : List Packet) :
    framesOf c (ps ++ qs) = framesOf c ps ++ framesOf c qs :=
  List.filterMap_append

theorem mem_framesOf (ps : List Packet) (f : Frame) :
    f ∈ framesOf c ps ↔ ∃ p ∈ ps, p.sender = some c ∧ ordered p.frame = true ∧ p.frame = f := by
  simp only [framesOf, List.mem_filterMap, Option.ite_none_right_eq_some, Option.some.injEq,
    and_assoc]

def sent (st : Station) : List Packet := st.delivered ++ st.wire ++ st.queue

def carried (st : Station) : List Packet := st.delivered ++ st.wire

/-- The task of the channel has finished at both ends, and no frame of it is under way, window
updates apart. -/
def Silent (s : Tunnel) (c : ℕ) : Prop :=
  ∀ side, (∀ t ∈ (station s side).tasks, t.channel = c → t.finished = true) ∧
    ∀ p ∈ (station s side).wire ++ (station s side).queue,
      p.sender = some c → ordered p.frame = false

/-- The id that a new channel is given has no channel any more that is still at work. -/
def FreshId (s : Tunnel) : Event → Prop
  | .open gone _ =>
    match ForwardEngine.openOutgoing .tunnel ⟨(station s .opener).table, s.nextId, []⟩ gone with
    | some (.ok (id, _)) => ∀ t ∈ (station s .opener).tasks, t.id = id → Silent s t.channel
    | _ => True
  | _ => True

/-- What an end has got of the data `data` that the far side has delivered. -/
structure Received (data : Bytes) (listed : Prop) (t : Task) (e : ChannelEnd) : Prop where
  written : t.written <+: data
  kept : e.receiving = true → t.written ++ unwritten t e <+: data
  all : e.receiving = true → listed → t.written ++ unwritten t e = data

/-- The tasks and the tables. The opening side numbers its channels in order; a task of the
accepting side belongs to the channel whose `open` made it. -/
structure Registry (s : Tunnel) : Prop where
  aligned : ∀ side, (station s side).tasks.length = (station s side).table.made.length
  numbered : ∀ (i : ℕ) (t : Task), (station s .opener).tasks[i]? = some t → t.channel = i
  paired : ∀ t ∈ (station s .acceptor).tasks,
    ∃ u, (station s .opener).tasks[t.channel]? = some u ∧ u.id = t.id
  single : ∀ (side : Side) (i j : ℕ) (t u : Task), (station s side).tasks[i]? = some t →
    (station s side).tasks[j]? = some u → t.channel = u.channel → i = j
  entries : ∀ side, ∀ e ∈ (station s side).table.entries,
    ∃ t, (station s side).tasks[e.channel]? = some t ∧ t.id = e.id
  ids : ∀ side, ((station s side).table.entries.map ChannelTable.Entry.id).Nodup

structure Inv (s : Tunnel) : Prop where
  registry : Registry s
  sane : ∀ (side : Side) (k : ℕ) (t : Task) (c : Tracked), (station s side).tasks[k]? = some t →
    (station s side).table.made[k]? = some c → Sane side t c.state
  log : ∀ side, ∀ t ∈ (station s side).tasks, framesOf t.channel (sent (station s side)) = t.log
  unused : ∀ side c, (∀ t ∈ (station s side).tasks, t.channel ≠ c) →
    framesOf c (sent (station s side)) = []
  control : ∀ p ∈ (station s .opener).control, ordered p.frame = false
  answers : ∀ side, ∀ p ∈ (station s side).wire ++ (station s side).queue,
    p.sender = none → isHello .opener p.frame = false ∧ payload p.frame = []
  arrived : ∀ t ∈ (station s .acceptor).tasks,
    ∃ f ∈ framesOf t.channel (station s .opener).delivered, isHello .opener f = true
  stale : ∀ (i j : ℕ) (u v : Task), (station s .opener).tasks[i]? = some u →
    (station s .opener).tasks[j]? = some v → i < j → u.id = v.id → Silent s i
  received : ∀ (side : Side) (k : ℕ) (t : Task) (c : Tracked), (station s side).tasks[k]? = some t →
    (station s side).table.made[k]? = some c →
    Received (bytesOf (framesOf t.channel (station s side.other).delivered))
      (Listed (station s side).table k t.id) t c.state

theorem station_set_self : station (setStation s side st) side = st :=
  Both.get_set_self _ _ _

theorem station_set_other : station (setStation s side st) side.other = station s side.other :=
  Both.get_set_other _ _ _

theorem Side.eq_or_other (side' : Side) : side = side' ∨ side.other = side' := by
  cases side <;> cases side' <;> simp [TunnelChannel.Side.other]

/-- The tasks keep their ids and channels, and entries are only taken out. -/
structure Keeps (st st' : Station) : Prop where
  tasks : (st'.tasks.map fun t => (t.id, t.channel)) = st.tasks.map fun t => (t.id, t.channel)
  made : st'.table.made.length = st.table.made.length
  entries : (st'.table.entries.map fun e => (e.id, e.channel)).Sublist
    (st.table.entries.map fun e => (e.id, e.channel))

theorem Keeps.refl : Keeps st st := ⟨rfl, rfl, List.Sublist.refl _⟩

theorem Keeps.task {st st' : Station} (h : Keeps st st') (i : ℕ) (t' : Task)
    (ht : st'.tasks[i]? = some t') :
    ∃ t : Task, st.tasks[i]? = some t ∧ t.id = t'.id ∧ t.channel = t'.channel := by
  have hi := congrArg (·[i]?) h.tasks
  simp only [List.getElem?_map, ht, Option.map_some] at hi
  obtain ⟨t, ht, heq⟩ := Option.map_eq_some_iff.mp hi.symm
  exact ⟨t, ht, (Prod.mk.inj heq).1, (Prod.mk.inj heq).2⟩

theorem Keeps.symm_task {st st' : Station} (h : Keeps st st') (i : ℕ) (t : Task)
    (ht : st.tasks[i]? = some t) :
    ∃ t' : Task, st'.tasks[i]? = some t' ∧ t'.id = t.id ∧ t'.channel = t.channel := by
  have hi := congrArg (·[i]?) h.tasks
  simp only [List.getElem?_map, ht, Option.map_some] at hi
  obtain ⟨t', ht', heq⟩ := Option.map_eq_some_iff.mp hi
  exact ⟨t', ht', (Prod.mk.inj heq).1, (Prod.mk.inj heq).2⟩

theorem Keeps.length_eq {st st' : Station} (h : Keeps st st') :
    st'.tasks.length = st.tasks.length := by
  simpa using congrArg List.length h.tasks

theorem Keeps.entry {st st' : Station} (h : Keeps st st') (e' : ChannelTable.Entry)
    (he : e' ∈ st'.table.entries) :
    ∃ e ∈ st.table.entries, e.id = e'.id ∧ e.channel = e'.channel := by
  have hmem := h.entries.subset (List.mem_map_of_mem he)
  obtain ⟨e, hin, heq⟩ := List.mem_map.mp hmem
  exact ⟨e, hin, (Prod.mk.inj heq).1, (Prod.mk.inj heq).2⟩

theorem Registry.of_keeps {s s' : Tunnel} (h : Registry s)
    (hkeeps : ∀ side, Keeps (station s side) (station s' side)) : Registry s' := by
  refine ⟨?_, ?_, ?_, ?_, ?_, ?_⟩
  · intro side
    rw [(hkeeps side).length_eq, (hkeeps side).made, h.aligned side]
  · intro i t' ht'
    obtain ⟨t, ht, -, hchannel⟩ := (hkeeps .opener).task i t' ht'
    rw [← hchannel, h.numbered i t ht]
  · intro t' hmem
    obtain ⟨j, hj⟩ := List.getElem?_of_mem hmem
    obtain ⟨t, ht, hid, hchannel⟩ := (hkeeps .acceptor).task j t' hj
    obtain ⟨u, hu, heq⟩ := h.paired t (List.mem_of_getElem? ht)
    obtain ⟨u', hu', hid', -⟩ := (hkeeps .opener).symm_task _ u hu
    exact ⟨u', hchannel ▸ hu', hid'.trans (heq.trans hid)⟩
  · intro side i j t' u' ht' hu' hchannel
    obtain ⟨t, ht, -, hct⟩ := (hkeeps side).task i t' ht'
    obtain ⟨u, hu, -, hcu⟩ := (hkeeps side).task j u' hu'
    exact h.single side i j t u ht hu (hct.trans (hchannel.trans hcu.symm))
  · intro side e' he'
    obtain ⟨e, he, hid, hchannel⟩ := (hkeeps side).entry e' he'
    obtain ⟨t, ht, heq⟩ := h.entries side e he
    obtain ⟨t', ht', hid', -⟩ := (hkeeps side).symm_task _ t ht
    exact ⟨t', hchannel ▸ ht', hid'.trans (heq.trans hid)⟩
  · intro side
    have hsub := (hkeeps side).entries.map Prod.fst
    simp only [List.map_map] at hsub
    exact (h.ids side).sublist hsub

theorem Inv.source {s : Tunnel} (h : Inv s) (side : Side) (p : Packet) (c : ℕ)
    (hp : p ∈ sent (station s side)) (hsender : p.sender = some c)
    (hordered : ordered p.frame = true) :
    ∃ t ∈ (station s side).tasks, t.channel = c ∧ p.frame ∈ t.log := by
  have hmem : p.frame ∈ framesOf c (sent (station s side)) :=
    (mem_framesOf _ _ _).mpr ⟨p, hp, hsender, hordered, rfl⟩
  by_cases hnone : ∀ t ∈ (station s side).tasks, t.channel ≠ c
  · rw [h.unused side c hnone] at hmem
    cases hmem
  · push Not at hnone
    obtain ⟨t, ht, rfl⟩ := hnone
    exact ⟨t, ht, rfl, h.log side t ht ▸ hmem⟩

theorem Registry.made {s : Tunnel} (h : Registry s) (side : Side) (k : ℕ) (t : Task)
    (ht : (station s side).tasks[k]? = some t) :
    ∃ c : Tracked, (station s side).table.made[k]? = some c := by
  have hk := (List.getElem?_eq_some_iff.mp ht).1
  rw [h.aligned side] at hk
  exact ⟨_, List.getElem?_eq_getElem hk⟩

theorem Registry.opener {s : Tunnel} (h : Registry s) (side : Side) (t : Task)
    (ht : t ∈ (station s side).tasks) :
    ∃ u : Task, (station s .opener).tasks[t.channel]? = some u ∧ u.id = t.id := by
  cases side with
  | acceptor => exact h.paired t ht
  | opener =>
    obtain ⟨i, hi⟩ := List.getElem?_of_mem ht
    rw [h.numbered i t hi]
    exact ⟨t, hi, rfl⟩

theorem Inv.frame_id {s : Tunnel} (h : Inv s) (side : Side) (t : Task)
    (ht : t ∈ (station s side).tasks) (f : Frame) (hf : f ∈ t.log) : frameId f = t.id := by
  obtain ⟨k, hk⟩ := List.getElem?_of_mem ht
  obtain ⟨c, hc⟩ := h.registry.made side k t hk
  exact (h.sane side k t c hk hc).ids f hf

structure Acted (st st' : Station) (k : ℕ) (t' : Task) (e : ChannelEnd) (channel : ℕ)
    (out : Output) : Prop where
  tasks : st'.tasks = st.tasks.set k t'
  made : st'.table.made = (st.table.update k fun _ => e).made
  entries : st'.table.entries.Sublist st.table.entries
  delivered : st'.delivered = st.delivered
  wire : st'.wire = st.wire
  queue : ∃ qs, st'.queue = st.queue ++ qs ∧
    (∀ p ∈ qs, p.sender = some channel ∧ (out = .ordered p.frame ∨ out = .control p.frame)) ∧
    ∀ c, framesOf c qs = if c = channel then out.frames.filter ordered else []
  control : ∃ cs, st'.control = st.control ++ cs ∧ ∀ p ∈ cs, out = .control p.frame

theorem framesOf_single (channel : ℕ) (f : Frame) :
    framesOf c [⟨some channel, f⟩] = if c = channel then [f].filter ordered else [] := by
  by_cases hc : c = channel
  · subst hc
    cases hordered : ordered f <;> simp [framesOf, hordered]
  · have hne : channel ≠ c := fun heq => hc heq.symm
    simp [framesOf, hc, hne]

theorem acted_emit (side : Side) (k channel : ℕ) (t' : Task) (e : ChannelEnd)
    (out : Output) (hcontrol : ∀ f, out = .control f → ordered f = false) :
    Acted st (Station.emit { st with
      tasks := st.tasks.set k t'
      table := st.table.update k fun _ => e } side channel out) k t' e channel out := by
  cases out with
  | silent =>
    refine ⟨rfl, rfl, List.Sublist.refl _, rfl, rfl, ⟨[], (List.append_nil _).symm, nofun, ?_⟩,
      [], (List.append_nil _).symm, nofun⟩
    intro c
    simp [framesOf, Output.frames]
  | ordered f =>
    refine ⟨rfl, rfl, List.Sublist.refl _, rfl, rfl, ⟨_, rfl, ?_, fun c => framesOf_single c _ f⟩,
      [], (List.append_nil _).symm, nofun⟩
    intro p hp
    obtain rfl := List.mem_singleton.mp hp
    exact ⟨rfl, Or.inl rfl⟩
  | control f =>
    cases side with
    | opener =>
      refine ⟨rfl, rfl, List.Sublist.refl _, rfl, rfl, ⟨[], (List.append_nil _).symm, nofun, ?_⟩,
        _, rfl, ?_⟩
      · intro c
        simp [framesOf, Output.frames]
      · intro p hp
        obtain rfl := List.mem_singleton.mp hp
        rfl
    | acceptor =>
      refine ⟨rfl, rfl, List.Sublist.refl _, rfl, rfl, ⟨_, rfl, ?_, ?_⟩,
        [], (List.append_nil _).symm, nofun⟩
      · intro p hp
        obtain rfl := List.mem_singleton.mp hp
        exact ⟨rfl, Or.inr rfl⟩
      · intro c
        rw [framesOf_single]
        simp [Output.frames, hcontrol f rfl]

theorem acted_leaveTable (side : Side) (k channel : ℕ) (t' : Task)
    (e : ChannelEnd) (out : Output) (id : ℤ) (action : Action)
    (h : Acted st st' k t' e channel out) :
    Acted st (st'.leaveTable side id action) k t' e channel out := by
  unfold Station.leaveTable
  split
  · exact ⟨h.tasks, h.made, List.filter_sublist.trans h.entries, h.delivered, h.wire, h.queue,
      h.control⟩
  · exact h

theorem acted_of_act (k : ℕ) (action : Action) (st' : Station)
    (h : Inv s) (hact : (station s side).act side k action = some st') :
    ∃ (t t' : Task) (c : Tracked) (e : ChannelEnd) (out : Output),
      (station s side).tasks[k]? = some t ∧ (station s side).table.made[k]? = some c ∧
      Sane side t c.state ∧ Move side t c.state t' e out ∧
      Acted (station s side) st' k t' e t.channel out := by
  unfold Station.act at hact
  split at hact
  · rename_i t c ht hc
    obtain ⟨⟨t', e, out⟩, hstep, rfl⟩ := Option.map_eq_some_iff.mp hact
    have hsane := h.sane side k t c ht hc
    have hmove := move_of_act ((station s side).context side k) t t' c.state e action
        out hsane hstep
    refine ⟨t, t', c, e, out, ht, hc, hsane, hmove, ?_⟩
    exact acted_leaveTable _ _ side k t.channel t' e out t.id action
      (acted_emit _ side k t.channel t' e out hmove.output_ordered.2)
  · cases hact

theorem arrived_of_keeps {s s' : Tunnel} (h : Inv s)
    (hkeeps : ∀ side, Keeps (station s side) (station s' side))
    (hdelivered : (station s .opener).delivered <+: (station s' .opener).delivered) :
    ∀ t ∈ (station s' .acceptor).tasks,
      ∃ f ∈ framesOf t.channel (station s' .opener).delivered, isHello .opener f = true := by
  intro t' ht'
  obtain ⟨j, hj⟩ := List.getElem?_of_mem ht'
  obtain ⟨t, ht, -, hchannel⟩ := (hkeeps .acceptor).task j t' hj
  obtain ⟨f, hf, hhello⟩ := h.arrived t (List.mem_of_getElem? ht)
  refine ⟨f, ?_, hhello⟩
  obtain ⟨more, hmore⟩ := hdelivered
  rw [← hmore, framesOf_append, ← hchannel]
  exact List.mem_append_left _ hf

theorem stale_of_keeps {s s' : Tunnel} (h : Inv s)
    (hkeeps : ∀ side, Keeps (station s side) (station s' side))
    (hsilent : ∀ c, Silent s c → Silent s' c) :
    ∀ (i j : ℕ) (u v : Task), (station s' .opener).tasks[i]? = some u →
      (station s' .opener).tasks[j]? = some v → i < j → u.id = v.id → Silent s' i := by
  intro i j u' v' hu' hv' hij hid
  obtain ⟨u, hu, hidu, -⟩ := (hkeeps .opener).task i u' hu'
  obtain ⟨v, hv, hidv, -⟩ := (hkeeps .opener).task j v' hv'
  exact hsilent i (h.stale i j u v hu hv hij (hidu.trans (hid.trans hidv.symm)))

theorem Acted.keeps {st st' : Station} {k : ℕ} {t t' : Task} {e : ChannelEnd} {channel : ℕ}
    {out : Output} (h : Acted st st' k t' e channel out) (ht : st.tasks[k]? = some t)
    (hid : t'.id = t.id) (hchannel : t'.channel = t.channel) : Keeps st st' := by
  refine ⟨?_, ?_, h.entries.map _⟩
  · rw [h.tasks, List.map_set]
    refine List.ext_getElem? fun j => ?_
    rw [List.getElem?_set]
    split
    · rename_i hj
      subst hj
      rw [List.getElem?_map, ht, List.length_map, if_pos (List.getElem?_eq_some_iff.mp ht).1, hid,
        hchannel]
      rfl
    · rfl
  · rw [h.made]
    simp [Table.update]

theorem Acted.sent_eq {st st' : Station} {k : ℕ} {t' : Task} {e : ChannelEnd} {channel : ℕ}
    {out : Output} (h : Acted st st' k t' e channel out) (hout : ∀ f, out = .ordered f → ordered f)
    (c : ℕ) :
    framesOf c (sent st') = framesOf c (sent st) ++ if c = channel then out.frames else [] := by
  obtain ⟨qs, hqs, -, hframes⟩ := h.queue
  have hall : out.frames.filter ordered = out.frames := by
    cases out with
    | silent | control => rfl
    | ordered f => simp [Output.frames, hout f rfl]
  rw [sent, sent, h.delivered, h.wire, hqs, ← List.append_assoc, framesOf_append, hframes, hall]

/-- The task of an index after a step of the task `k`. -/
theorem Acted.task {st st' : Station} {k : ℕ} {t' : Task} {e : ChannelEnd} {channel : ℕ}
    {out : Output} (h : Acted st st' k t' e channel out) (j : ℕ) (u : Task)
    (hu : st'.tasks[j]? = some u) : (j = k ∧ u = t') ∨ j ≠ k ∧ st.tasks[j]? = some u := by
  rw [h.tasks, List.getElem?_set] at hu
  split at hu
  · rename_i hj
    split at hu
    · exact Or.inl ⟨hj.symm, (Option.some.inj hu).symm⟩
    · cases hu
  · rename_i hj
    exact Or.inr ⟨fun heq => hj heq.symm, hu⟩

theorem silent_act {s : Tunnel} (side : Side) (k : ℕ) (st' : Station) (t t' : Task)
    (c : Tracked) (e : ChannelEnd) (out : Output) (ht : (station s side).tasks[k]? = some t)
    (hsane : Sane side t c.state) (hmove : Move side t c.state t' e out)
    (hacted : Acted (station s side) st' k t' e t.channel out) (ch : ℕ) (hsilent : Silent s ch) :
    Silent (setStation s side st') ch := by
  intro side'
  rcases Side.eq_or_other side side' with rfl | rfl
  · obtain ⟨hfinished, hpackets⟩ := hsilent side
    rw [station_set_self]
    refine ⟨?_, ?_⟩
    · intro u hu hchannel
      obtain ⟨j, hj⟩ := List.getElem?_of_mem hu
      rcases hacted.task j u hj with ⟨-, rfl⟩ | ⟨-, hold⟩
      · rw [hmove.log_eq.2.1] at hchannel
        exact (hmove.finished hsane (hfinished t (List.mem_of_getElem? ht) hchannel)).1
      · exact hfinished u (List.mem_of_getElem? hold) hchannel
    · obtain ⟨qs, hqs, hsender, -⟩ := hacted.queue
      rw [hacted.wire, hqs, ← List.append_assoc]
      intro p hp hch
      rcases List.mem_append.mp hp with hold | hnew
      · exact hpackets p hold hch
      · obtain ⟨hfrom, hout⟩ := hsender p hnew
        have hchannel : t.channel = ch := Option.some.inj (hfrom.symm.trans hch)
        obtain ⟨-, rfl⟩ := hmove.finished hsane (hfinished t (List.mem_of_getElem? ht) hchannel)
        rcases hout with hbad | hbad <;> cases hbad
  · rw [station_set_other]
    exact hsilent side.other

theorem keeps_setStation (h : Keeps (station s side) st') (side' : Side) :
    Keeps (station s side') (station (setStation s side st') side') := by
  rcases Side.eq_or_other side side' with rfl | rfl
  · rw [station_set_self]
    exact h
  · rw [station_set_other]
    exact Keeps.refl _

theorem received_act {s : Tunnel} (h : Inv s) (side : Side) (k : ℕ) (st' : Station)
    (t t' : Task) (c : Tracked) (e : ChannelEnd) (out : Output)
    (ht : (station s side).tasks[k]? = some t) (hc : (station s side).table.made[k]? = some c)
    (hsane : Sane side t c.state) (hmove : Move side t c.state t' e out)
    (hacted : Acted (station s side) st' k t' e t.channel out) (j : ℕ) (u : Task) (d : Tracked)
    (hu : st'.tasks[j]? = some u) (hd : st'.table.made[j]? = some d) :
    Received (bytesOf (framesOf u.channel (station s side.other).delivered))
      (Listed st'.table j u.id) u d.state := by
  obtain ⟨hid, hchannel, -⟩ := hmove.log_eq
  have hlisted : ∀ id, Listed st'.table j id → Listed (station s side).table j id := by
    rintro id ⟨e', he', heq⟩
    exact ⟨e', hacted.entries.subset he', heq⟩
  rw [hacted.made] at hd
  rcases hacted.task j u hu with ⟨rfl, rfl⟩ | ⟨hj, hold⟩
  · rw [update_made _ _ _ _ c hc, if_pos rfl] at hd
    obtain rfl := Option.some.inj hd
    have hreceived := h.received side j t c ht hc
    obtain ⟨hkept, hwritten⟩ := hmove.received hsane
    rw [hchannel]
    refine ⟨?_, ?_, ?_⟩
    · rcases hwritten with heq | ⟨hr, hprefix⟩
      · exact heq ▸ hreceived.written
      · exact hprefix.trans (hreceived.kept hr)
    · intro hr'
      obtain ⟨hr, heq⟩ := hkept hr'
      rw [heq]
      exact hreceived.kept hr
    · intro hr' hin
      obtain ⟨hr, heq⟩ := hkept hr'
      rw [heq]
      exact hreceived.all hr (hid ▸ hlisted _ hin)
  · obtain ⟨d', hd'⟩ := h.registry.made side j u hold
    rw [update_made _ _ _ _ d' hd', if_neg fun heq => hj heq.symm] at hd
    obtain rfl := Option.some.inj hd
    have hreceived := h.received side j u d' hold hd'
    exact ⟨hreceived.written, hreceived.kept, fun hr hin => hreceived.all hr (hlisted _ hin)⟩

theorem sane_act {s : Tunnel} (h : Inv s) (side : Side) (k : ℕ) (st' : Station)
    (t t' : Task) (c : Tracked) (e : ChannelEnd) (out : Output)
    (hc : (station s side).table.made[k]? = some c)
    (hsane : Sane side t c.state) (hmove : Move side t c.state t' e out)
    (hacted : Acted (station s side) st' k t' e t.channel out) (j : ℕ) (u : Task) (d : Tracked)
    (hu : st'.tasks[j]? = some u) (hd : st'.table.made[j]? = some d) : Sane side u d.state := by
  rw [hacted.made] at hd
  rcases hacted.task j u hu with ⟨rfl, rfl⟩ | ⟨hj, hold⟩
  · rw [update_made _ _ _ _ c hc, if_pos rfl] at hd
    obtain rfl := Option.some.inj hd
    exact hmove.sane hsane
  · obtain ⟨d', hd'⟩ := h.registry.made side j u hold
    rw [update_made _ _ _ _ d' hd', if_neg fun heq => hj heq.symm] at hd
    obtain rfl := Option.some.inj hd
    exact h.sane side j u d' hold hd'

theorem inv_act (k : ℕ) (action : Action) (st' : Station) (h : Inv s)
    (hact : (station s side).act side k action = some st') : Inv (setStation s side st') := by
  obtain ⟨t, t', c, e, out, ht, hc, hsane, hmove, hacted⟩ := acted_of_act s side k action st' h hact
  obtain ⟨hid, hchannel, hlog⟩ := hmove.log_eq
  have hkeeps := keeps_setStation s side st' (hacted.keeps ht hid hchannel)
  have hdelivered (side' : Side) :
      (station (setStation s side st') side').delivered = (station s side').delivered := by
    rcases Side.eq_or_other side side' with rfl | rfl
    · rw [station_set_self, hacted.delivered]
    · rw [station_set_other]
  obtain ⟨qs, hqs, hfrom, -⟩ := hacted.queue
  obtain ⟨cs, hcs, hout⟩ := hacted.control
  refine ⟨h.registry.of_keeps hkeeps, ?_, ?_, ?_, ?_, ?_, ?_, ?_, ?_⟩
  · intro side' j u d hu hd
    rcases Side.eq_or_other side side' with rfl | rfl
    · rw [station_set_self] at hu hd
      exact sane_act h side k st' t t' c e out hc hsane hmove hacted j u d hu hd
    · rw [station_set_other] at hu hd
      exact h.sane side.other j u d hu hd
  · intro side' u hu
    rcases Side.eq_or_other side side' with rfl | rfl
    · rw [station_set_self] at hu ⊢
      rw [hacted.sent_eq hmove.output_ordered.1]
      obtain ⟨j, hj⟩ := List.getElem?_of_mem hu
      rcases hacted.task j u hj with ⟨rfl, rfl⟩ | ⟨hne, hold⟩
      · rw [hchannel, if_pos rfl, h.log side t (List.mem_of_getElem? ht), hlog]
      · have hchannels : u.channel ≠ t.channel := fun heq =>
          hne (h.registry.single side j k u t hold ht heq)
        rw [if_neg hchannels, List.append_nil, h.log side u (List.mem_of_getElem? hold)]
    · rw [station_set_other] at hu ⊢
      exact h.log side.other u hu
  · intro side' ch hnone
    rcases Side.eq_or_other side side' with rfl | rfl
    · rw [station_set_self] at hnone ⊢
      have hold : ∀ u ∈ (station s side).tasks, u.channel ≠ ch := by
        intro u hu heq
        obtain ⟨j, hj⟩ := List.getElem?_of_mem hu
        obtain ⟨u', hu', -, hch⟩ := (hacted.keeps ht hid hchannel).symm_task j u hj
        exact hnone u' (List.mem_of_getElem? hu') (hch.trans heq)
      rw [hacted.sent_eq hmove.output_ordered.1, h.unused side ch hold,
        if_neg fun heq => hold t (List.mem_of_getElem? ht) heq.symm, List.append_nil]
    · rw [station_set_other] at hnone ⊢
      exact h.unused side.other ch hnone
  · intro p hp
    rcases Side.eq_or_other side .opener with heq | heq
    · subst heq
      rw [station_set_self, hcs] at hp
      rcases List.mem_append.mp hp with hold | hnew
      · exact h.control p hold
      · exact hmove.output_ordered.2 _ (hout p hnew)
    · rw [← heq, station_set_other] at hp
      exact h.control p (heq ▸ hp)
  · intro side' p hp hnone
    rcases Side.eq_or_other side side' with rfl | rfl
    · rw [station_set_self, hacted.wire, hqs, ← List.append_assoc] at hp
      rcases List.mem_append.mp hp with hold | hnew
      · exact h.answers side p hold hnone
      · exact absurd (hnone.symm.trans (hfrom p hnew).1) nofun
    · rw [station_set_other] at hp
      exact h.answers side.other p hp hnone
  · refine arrived_of_keeps h hkeeps ?_
    rw [hdelivered]
  · exact stale_of_keeps h hkeeps fun ch hs =>
      silent_act side k st' t t' c e out ht hsane hmove hacted ch hs
  · intro side' j u d hu hd
    rw [hdelivered]
    rcases Side.eq_or_other side side' with rfl | rfl
    · rw [station_set_self] at hu hd ⊢
      exact received_act h side k st' t t' c e out ht hc hsane hmove hacted j u d hu hd
    · rw [station_set_other] at hu hd ⊢
      exact h.received side.other j u d hu hd

theorem unordered_plain (f : Frame) (hf : ordered f = false) :
    isHello .opener f = false ∧ payload f = [] := by
  cases f <;> simp_all [ordered, isHello, payload]

/-- A side moves its frames on, or goes down. -/
theorem inv_station (h : Inv s) (htasks : st'.tasks = (station s side).tasks)
    (hmade : st'.table.made = (station s side).table.made)
    (hentries : st'.table.entries.Sublist (station s side).table.entries)
    (hdelivered : st'.delivered = (station s side).delivered)
    (hsent : ∀ c, framesOf c (sent st') = framesOf c (sent (station s side)))
    (hpackets : ∀ p ∈ st'.wire ++ st'.queue,
      p ∈ (station s side).wire ++ (station s side).queue ∨ ordered p.frame = false)
    (hcontrol : ∀ p ∈ st'.control, p ∈ (station s side).control) :
    Inv (setStation s side st') := by
  have hkeeps := keeps_setStation s side st' ⟨by rw [htasks], by rw [hmade], hentries.map _⟩
  have hsame (side' : Side) : (station (setStation s side st') side').tasks =
      (station s side').tasks ∧ (station (setStation s side st') side').table.made =
      (station s side').table.made ∧ (station (setStation s side st') side').delivered =
      (station s side').delivered ∧
      ∀ c, framesOf c (sent (station (setStation s side st') side')) =
        framesOf c (sent (station s side')) := by
    rcases Side.eq_or_other side side' with rfl | rfl
    · rw [station_set_self]
      exact ⟨htasks, hmade, hdelivered, hsent⟩
    · rw [station_set_other]
      exact ⟨rfl, rfl, rfl, fun _ => rfl⟩
  have hunder (side' : Side) (p : Packet)
      (hp : p ∈ (station (setStation s side st') side').wire ++
        (station (setStation s side st') side').queue) :
      p ∈ (station s side').wire ++ (station s side').queue ∨ ordered p.frame = false := by
    rcases Side.eq_or_other side side' with rfl | rfl
    · rw [station_set_self] at hp
      exact hpackets p hp
    · rw [station_set_other] at hp
      exact Or.inl hp
  refine ⟨h.registry.of_keeps hkeeps, ?_, ?_, ?_, ?_, ?_, ?_, ?_, ?_⟩
  · intro side' j u d hu hd
    rw [(hsame side').1] at hu
    rw [(hsame side').2.1] at hd
    exact h.sane side' j u d hu hd
  · intro side' u hu
    rw [(hsame side').1] at hu
    rw [(hsame side').2.2.2]
    exact h.log side' u hu
  · intro side' ch hnone
    rw [(hsame side').1] at hnone
    rw [(hsame side').2.2.2]
    exact h.unused side' ch hnone
  · intro p hp
    rcases Side.eq_or_other side .opener with heq | heq
    · subst heq
      rw [station_set_self] at hp
      exact h.control p (hcontrol p hp)
    · rw [← heq, station_set_other] at hp
      exact h.control p (heq ▸ hp)
  · intro side' p hp hnone
    rcases hunder side' p hp with hold | hplain
    · exact h.answers side' p hold hnone
    · exact unordered_plain p.frame hplain
  · refine arrived_of_keeps h hkeeps ?_
    rw [(hsame .opener).2.2.1]
  · refine stale_of_keeps h hkeeps fun ch hs side' => ?_
    rw [(hsame side').1]
    refine ⟨(hs side').1, fun p hp hsender => ?_⟩
    rcases hunder side' p hp with hold | hplain
    · exact (hs side').2 p hold hsender
    · exact hplain
  · intro side' j u d hu hd
    rw [(hsame side').1] at hu
    rw [(hsame side').2.1] at hd
    rw [(hsame side'.other).2.2.1]
    have hreceived := h.received side' j u d hu hd
    refine ⟨hreceived.written, hreceived.kept, fun hr hin => hreceived.all hr ?_⟩
    obtain ⟨e', he', hch, hid⟩ := hin
    obtain ⟨e, he, hid', hch'⟩ := (hkeeps side').entry e' he'
    exact ⟨e, he, hch'.trans hch, hid'.trans hid⟩

theorem inv_transmit (h : Inv s) (hstep : step s (.transmit side) = some t) : Inv t := by
  simp only [step] at hstep
  split at hstep
  · rename_i p rest _ hqueue
    obtain rfl := Option.some.inj hstep
    refine inv_station s side _ h rfl rfl (List.Sublist.refl _) rfl ?_ ?_ fun _ hp => hp
    · intro c
      simp [sent, hqueue]
    · intro q hq
      refine Or.inl ?_
      simpa [hqueue] using hq
  · cases hstep

theorem inv_transmitControl (h : Inv s) (hstep : step s .transmitControl = some t) : Inv t := by
  simp only [step] at hstep
  split at hstep
  · rename_i p rest _ hcontrol
    obtain rfl := Option.some.inj hstep
    have hplain : ordered p.frame = false := h.control p (by simp [hcontrol])
    refine inv_station s .opener _ h rfl rfl (List.Sublist.refl _) rfl ?_ ?_ ?_
    · intro c
      simp [sent, framesOf, hplain]
    · intro q hq
      simp only [List.mem_append, List.mem_singleton] at hq
      rcases hq with (hq | rfl) | hq
      · exact Or.inl (List.mem_append_left _ hq)
      · exact Or.inr hplain
      · exact Or.inl (List.mem_append_right _ hq)
    · intro q hq
      rw [hcontrol]
      exact List.mem_cons_of_mem _ hq
  · cases hstep

theorem inv_goDown (h : Inv s) : Inv (setStation s side (station s side).goDown) :=
  inv_station s side _ h rfl rfl (List.nil_sublist _) rfl (fun _ => rfl) (fun _ hp => Or.inl hp)
    fun _ hp => hp

/-- A side gets a new channel, with its task at the end and its entry in front. -/
structure Enters (st st' : Station) (new : Task) (e : ChannelEnd) : Prop where
  tasks : st'.tasks = st.tasks ++ [new]
  made : st'.table.made = st.table.made ++ [⟨e, 0⟩]
  entries : ∃ opened kept, st'.table.entries = ⟨new.id, st.table.made.length, opened⟩ :: kept ∧
    kept.Sublist st.table.entries ∧ new.id ∉ kept.map ChannelTable.Entry.id

theorem Enters.task {st st' : Station} {new : Task} {e : ChannelEnd} (h : Enters st st' new e)
    (i : ℕ) (t : Task) (ht : st'.tasks[i]? = some t) :
    st.tasks[i]? = some t ∨ i = st.tasks.length ∧ t = new := by
  rw [h.tasks] at ht
  by_cases hi : i < st.tasks.length
  · rw [List.getElem?_append_left hi] at ht
    exact Or.inl ht
  · rw [List.getElem?_append_right (by omega)] at ht
    obtain ⟨hlt, rfl⟩ := List.getElem?_eq_some_iff.mp ht
    simp only [List.length_singleton] at hlt
    exact Or.inr ⟨by omega, by simp⟩

theorem Enters.old {st st' : Station} {new : Task} {e : ChannelEnd} (h : Enters st st' new e)
    (i : ℕ) (t : Task) (ht : st.tasks[i]? = some t) : st'.tasks[i]? = some t := by
  rw [h.tasks, List.getElem?_append_left (List.getElem?_eq_some_iff.mp ht).1]
  exact ht

theorem Registry.enter {s s' : Tunnel} (h : Registry s) (side : Side) (new : Task) (e : ChannelEnd)
    (henters : Enters (station s side) (station s' side) new e)
    (hother : (station s' side.other).tasks = (station s side.other).tasks ∧
      (station s' side.other).table = (station s side.other).table)
    (hnumbered : side = .opener → new.channel = (station s .opener).tasks.length)
    (hpaired : side = .acceptor →
      ∃ u, (station s .opener).tasks[new.channel]? = some u ∧ u.id = new.id)
    (hsingle : ∀ t ∈ (station s side).tasks, t.channel ≠ new.channel) : Registry s' := by
  obtain ⟨hot, hob⟩ := hother
  obtain ⟨opened, kept, hentries, hkept, hfresh⟩ := henters.entries
  have hopener (i : ℕ) (u : Task) (hu : (station s .opener).tasks[i]? = some u) :
      (station s' .opener).tasks[i]? = some u := by
    cases side with
    | opener => exact henters.old i u hu
    | acceptor => exact hot ▸ hu
  refine ⟨?_, ?_, ?_, ?_, ?_, ?_⟩
  · intro side'
    rcases Side.eq_or_other side side' with rfl | rfl
    · simp [henters.tasks, henters.made, h.aligned side]
    · rw [hot, hob, h.aligned side.other]
  · intro i t ht
    cases side with
    | opener =>
      rcases henters.task i t ht with hold | ⟨rfl, rfl⟩
      · exact h.numbered i t hold
      · exact hnumbered rfl
    | acceptor => exact h.numbered i t (hot ▸ ht)
  · intro t ht
    have hold (ht : t ∈ (station s .acceptor).tasks) :
        ∃ u, (station s' .opener).tasks[t.channel]? = some u ∧ u.id = t.id := by
      obtain ⟨u, hu, hid⟩ := h.paired t ht
      exact ⟨u, hopener _ u hu, hid⟩
    cases side with
    | opener => exact hold (hot ▸ ht)
    | acceptor =>
      rw [henters.tasks] at ht
      rcases List.mem_append.mp ht with hmem | hnew
      · exact hold hmem
      · obtain rfl := List.mem_singleton.mp hnew
        obtain ⟨u, hu, hid⟩ := hpaired rfl
        exact ⟨u, hopener _ u hu, hid⟩
  · intro side' i j t u ht hu hchannel
    rcases Side.eq_or_other side side' with rfl | rfl
    · rcases henters.task i t ht with hti | ⟨rfl, rfl⟩
      · rcases henters.task j u hu with huj | ⟨rfl, rfl⟩
        · exact h.single side i j t u hti huj hchannel
        · exact absurd hchannel (hsingle t (List.mem_of_getElem? hti))
      · rcases henters.task j u hu with huj | ⟨rfl, -⟩
        · exact absurd hchannel.symm (hsingle u (List.mem_of_getElem? huj))
        · rfl
    · rw [hot] at ht hu
      exact h.single side.other i j t u ht hu hchannel
  · intro side' e' he'
    rcases Side.eq_or_other side side' with rfl | rfl
    · rw [hentries] at he'
      rcases List.mem_cons.mp he' with rfl | hold
      · refine ⟨new, ?_, rfl⟩
        rw [henters.tasks, ← h.aligned side, List.getElem?_concat_length]
      · obtain ⟨t, ht, hid⟩ := h.entries side e' (hkept.subset hold)
        exact ⟨t, henters.old _ t ht, hid⟩
    · rw [hob] at he'
      rw [hot]
      exact h.entries side.other e' he'
  · intro side'
    rcases Side.eq_or_other side side' with rfl | rfl
    · rw [hentries, List.map_cons]
      exact List.nodup_cons.mpr ⟨hfresh, (h.ids side).sublist (hkept.map _)⟩
    · rw [hob]
      exact h.ids side.other

/-- A new end has got nothing yet, and nothing is asked of it. -/
theorem received_new (id : ℤ) (channel : ℕ) (prebuf : Bytes) (listed : Prop) (phase : Phase)
    (credit granted : ℕ) :
    Received [] listed (Task.new id channel prebuf) (ChannelEnd.new phase credit granted) :=
  ⟨List.nil_prefix, fun _ => List.nil_prefix, fun _ _ => rfl⟩

/-- No task has this number, so no frame of it has been seen. -/
theorem Inv.unused_delivered {s : Tunnel} (h : Inv s) (side : Side) (c : ℕ)
    (hnone : ∀ t ∈ (station s side).tasks, t.channel ≠ c) :
    framesOf c (station s side).delivered = [] := by
  have hall := h.unused side c hnone
  rw [sent, List.append_assoc, framesOf_append] at hall
  exact (List.append_eq_nil_iff.mp hall).1

theorem Enters.end_cases {st st' : Station} {new : Task} {e : ChannelEnd}
    (h : Enters st st' new e) (haligned : st.tasks.length = st.table.made.length) (i : ℕ) (t : Task)
    (c : Tracked) (ht : st'.tasks[i]? = some t) (hc : st'.table.made[i]? = some c) :
    (i ≠ st.table.made.length ∧ st.tasks[i]? = some t ∧ st.table.made[i]? = some c) ∨
      t = new ∧ c = ⟨e, 0⟩ := by
  rw [h.made] at hc
  rcases h.task i t ht with hold | ⟨rfl, rfl⟩
  · have hi := (List.getElem?_eq_some_iff.mp hold).1
    rw [List.getElem?_append_left (by omega)] at hc
    exact Or.inl ⟨by omega, hold, hc⟩
  · rw [haligned, List.getElem?_concat_length] at hc
    exact Or.inr ⟨rfl, (Option.some.inj hc).symm⟩

theorem inv_enter (new : Task) (e : ChannelEnd) (h : Inv s)
    (henters : Enters (station s side) (station s' side) new e)
    (hother : station s' side.other = station s side.other)
    (htraffic : (station s' side).wire = (station s side).wire ∧
      (station s' side).queue = (station s side).queue ∧
      (station s' side).control = (station s side).control ∧
      (station s' side).delivered = (station s side).delivered)
    (hnumbered : side = .opener → new.channel = (station s .opener).tasks.length)
    (hpaired : side = .acceptor →
      ∃ u, (station s .opener).tasks[new.channel]? = some u ∧ u.id = new.id)
    (hsingle : ∀ t ∈ (station s side).tasks, t.channel ≠ new.channel)
    (hsane : Sane side new e) (hlog : new.log = [])
    (hreceived : ∀ listed, Received
      (bytesOf (framesOf new.channel (station s side.other).delivered)) listed new e)
    (harrived : side = .acceptor →
      ∃ f ∈ framesOf new.channel (station s .opener).delivered, isHello .opener f = true)
    (hstale : ∀ (i j : ℕ) (u v : Task), (station s' .opener).tasks[i]? = some u →
      (station s' .opener).tasks[j]? = some v → i < j → u.id = v.id →
        Silent s i ∧ i ≠ new.channel) : Inv s' := by
  obtain ⟨hwire, hqueue, hcontrol, hdel⟩ := htraffic
  have htraffic (side' : Side) : (station s' side').wire = (station s side').wire ∧
      (station s' side').queue = (station s side').queue ∧
      (station s' side').control = (station s side').control ∧
      (station s' side').delivered = (station s side').delivered := by
    rcases Side.eq_or_other side side' with rfl | rfl
    · exact ⟨hwire, hqueue, hcontrol, hdel⟩
    · rw [hother]
      exact ⟨rfl, rfl, rfl, rfl⟩
  have hsent (side' : Side) : sent (station s' side') = sent (station s side') := by
    obtain ⟨hw, hq, -, hd⟩ := htraffic side'
    rw [sent, sent, hw, hq, hd]
  refine ⟨h.registry.enter side new e henters ⟨by rw [hother], by rw [hother]⟩ hnumbered hpaired
    hsingle, ?_, ?_, ?_, ?_, ?_, ?_, ?_, ?_⟩
  · intro side' k t c ht hc
    rcases Side.eq_or_other side side' with rfl | rfl
    · rcases henters.end_cases (h.registry.aligned side) k t c ht hc with ⟨-, hkt, hkc⟩ | ⟨rfl, rfl⟩
      · exact h.sane side k t c hkt hkc
      · exact hsane
    · rw [hother] at ht hc
      exact h.sane side.other k t c ht hc
  · intro side' t ht
    rw [hsent]
    rcases Side.eq_or_other side side' with rfl | rfl
    · rw [henters.tasks] at ht
      rcases List.mem_append.mp ht with hold | hnew
      · exact h.log side t hold
      · obtain rfl := List.mem_singleton.mp hnew
        rw [h.unused side t.channel hsingle, hlog]
    · rw [hother] at ht
      exact h.log side.other t ht
  · intro side' c hnone
    rw [hsent]
    rcases Side.eq_or_other side side' with rfl | rfl
    · rw [henters.tasks] at hnone
      exact h.unused side c fun t ht => hnone t (List.mem_append_left _ ht)
    · rw [hother] at hnone
      exact h.unused side.other c hnone
  · rw [(htraffic .opener).2.2.1]
    exact h.control
  · intro side'
    rw [(htraffic side').1, (htraffic side').2.1]
    exact h.answers side'
  · rw [(htraffic .opener).2.2.2]
    intro t ht
    cases side with
    | opener => exact h.arrived t (hother ▸ ht)
    | acceptor =>
      rw [henters.tasks] at ht
      rcases List.mem_append.mp ht with hold | hnew
      · exact h.arrived t hold
      · obtain rfl := List.mem_singleton.mp hnew
        exact harrived rfl
  · intro i j u v hu hv hij hid
    obtain ⟨hsilent, hne⟩ := hstale i j u v hu hv hij hid
    intro side'
    rw [(htraffic side').1, (htraffic side').2.1]
    refine ⟨?_, (hsilent side').2⟩
    rcases Side.eq_or_other side side' with rfl | rfl
    · rw [henters.tasks]
      intro t ht hchannel
      rcases List.mem_append.mp ht with hold | hnew
      · exact (hsilent side).1 t hold hchannel
      · rw [List.mem_singleton.mp hnew] at hchannel
        exact absurd hchannel.symm hne
    · rw [hother]
      exact (hsilent side.other).1
  · intro side' k t c ht hc
    rw [(htraffic side'.other).2.2.2]
    rcases Side.eq_or_other side side' with rfl | rfl
    · rcases henters.end_cases (h.registry.aligned side) k t c ht hc with ⟨hk, hkt,
        hkc⟩ | ⟨rfl, rfl⟩
      · have hold := h.received side k t c hkt hkc
        refine ⟨hold.written, hold.kept, fun hr hin => hold.all hr ?_⟩
        obtain ⟨e', he', hchannel, hid⟩ := hin
        obtain ⟨opened, kept, hentries, hkept, -⟩ := henters.entries
        rw [hentries] at he'
        rcases List.mem_cons.mp he' with rfl | hin
        · exact absurd hchannel.symm hk
        · exact ⟨e', hkept.subset hin, hchannel, hid⟩
      · exact hreceived _
    · rw [hother] at ht hc ⊢
      exact h.received side.other k t c ht hc

theorem allocate_free (nextId id : ℤ)
    (h : ForwardEngine.allocate .tunnel ⟨st.table, nextId, []⟩ maxChannels = some id) :
    id ∉ st.table.entries.map ChannelTable.Entry.id := by
  have hfree := (CyclicSearch.search_spec _ _ (fun _ => True)
      (fun _ _ => trivial) _ _ _ trivial h).1
  simpa [ForwardEngine.Engine.ids] using hfree

theorem inv_open (gone : Bool) (prebuf : Bytes) (h : Inv s)
    (hfresh : FreshId s (.open gone prebuf)) (hstep : openChannel s gone prebuf = some t) :
    Inv t := by
  simp only [openChannel] at hstep
  simp only [FreshId] at hfresh
  split at hstep
  · rename_i id engine hopen
    rw [hopen] at hfresh
    obtain ⟨-, -, halloc, rfl⟩ := ForwardEngine.openOutgoing_ok _ _ _ _ _ hopen
    obtain rfl := Option.some.inj hstep
    have hopener : ∀ side, ∀ u ∈ (station s side).tasks,
        u.channel < (station s .opener).tasks.length := by
      intro side u hu
      obtain ⟨v, hv, -⟩ := h.registry.opener side u hu
      exact (List.getElem?_eq_some_iff.mp hv).1
    have hsingle (side : Side) : ∀ u ∈ (station s side).tasks,
        u.channel ≠ (station s .opener).tasks.length := by
      intro u hu heq
      exact absurd (hopener side u hu) (by omega)
    refine inv_enter s _ .opener (Task.new id (station s .opener).tasks.length prebuf)
      ChannelEnd.outgoing h ⟨rfl, rfl, false, _, rfl, List.Sublist.refl _, ?_⟩ rfl ⟨rfl,
        rfl, rfl, rfl⟩
      (fun _ => rfl) nofun (hsingle .opener) ?_ rfl ?_ nofun ?_
    · exact allocate_free _ _ _ halloc
    · exact sane_new .opener id _ prebuf .opening _ _ nofun
    · intro listed
      have hnone := h.unused_delivered .acceptor _ (hsingle .acceptor)
      change Received (bytesOf (framesOf _ (station s .acceptor).delivered)) _ _ _
      rw [Task.new, hnone]
      exact received_new id _ prebuf listed .opening initialWindow channelWindow
    · intro i j u v hu hv hij hid
      change ((station s .opener).tasks ++ [_])[i]? = some u at hu
      change ((station s .opener).tasks ++ [_])[j]? = some v at hv
      have hj := (List.getElem?_eq_some_iff.mp hv).1
      rw [List.length_append, List.length_singleton] at hj
      have hi : i < (station s .opener).tasks.length := by omega
      rw [List.getElem?_append_left hi] at hu
      refine ⟨?_, by simp only [Task.new]; omega⟩
      by_cases hold : j < (station s .opener).tasks.length
      · rw [List.getElem?_append_left hold] at hv
        exact h.stale i j u v hu hv hij hid
      · obtain rfl : j = (station s .opener).tasks.length := by omega
        rw [List.getElem?_concat_length] at hv
        obtain rfl := Option.some.inj hv
        have hs := hfresh u (List.mem_of_getElem? hu) hid
        rwa [h.registry.numbered i u hu] at hs
  · obtain rfl := Option.some.inj hstep
    exact h
  · cases hstep

theorem find_of_mem (t : Table) (e : ChannelTable.Entry)
    (hnodup : (t.entries.map ChannelTable.Entry.id).Nodup) (he : e ∈ t.entries) :
    t.find e.id = some e := by
  cases hfind : t.find e.id with
  | none =>
    have hnot := List.find?_eq_none.mp hfind e he
    simp at hnot
  | some e' =>
    obtain ⟨hmem, hid⟩ := ChannelTable.find_mem t e.id e' hfind
    rw [List.inj_on_of_nodup_map hnodup hmem he hid]

theorem Inv.own_channel {s : Tunnel} (h : Inv s) (side : Side) (p : Packet) (k : ℕ) (t : Task)
    (c : Tracked) (hp : p ∈ (station s side.other).wire) (hdata : payload p.frame ≠ [])
    (ht : (station s side).tasks[k]? = some t) (hc : (station s side).table.made[k]? = some c)
    (hreceiving : c.state.receiving = true) (hid : t.id = frameId p.frame) :
    p.sender = some t.channel := by
  have hwire : p ∈ (station s side.other).wire ++ (station s side.other).queue :=
    List.mem_append_left _ hp
  have hsent : p ∈ sent (station s side.other) := by
    rw [sent, List.append_assoc]
    exact List.mem_append_right _ hwire
  have hordered : ordered p.frame = true := by
    cases hordered : ordered p.frame with
    | true => rfl
    | false => exact absurd (unordered_plain p.frame hordered).2 hdata
  cases hsender : p.sender with
  | none => exact absurd (h.answers side.other p hwire hsender).2 hdata
  | some ch =>
    obtain ⟨t0, ht0, rfl, hlog⟩ := h.source side.other p ch hsent hsender hordered
    have hsame : t.id = t0.id := hid.trans (h.frame_id side.other t0 ht0 p.frame hlog)
    obtain ⟨u, hu, hidu⟩ := h.registry.opener side.other t0 ht0
    obtain ⟨v, hv, hidv⟩ := h.registry.opener side t (List.mem_of_getElem? ht)
    rcases Nat.lt_trichotomy t0.channel t.channel with hlt | heq | hlt
    · have hsilent := h.stale _ _ u v hu hv hlt (hidu.trans (hsame.symm.trans hidv.symm))
      have hbad := (hsilent side.other).2 p hwire hsender
      rw [hordered] at hbad
      cases hbad
    · rw [heq]
    · have hsilent := h.stale _ _ v u hv hu hlt (hidv.trans (hsame.trans hidu.symm))
      have hfinished := (hsilent side).1 t (List.mem_of_getElem? ht) rfl
      have hsane := h.sane side k t c ht hc
      have hended := hsane.finished hfinished
      rw [hsane.receiving] at hreceiving
      simp [Task.ended, Option.isNone_iff_eq_none.mp hreceiving] at hended

/-- An end gets the data that the dispatcher finds it for. -/
theorem received_handled {s : Tunnel} (h : Inv s) (side : Side) (p : Packet) (rest : List Packet)
    (table : Table) (f : Frame) (hwire : (station s side.other).wire = p :: rest)
    (hf : frameId f = frameId p.frame ∧ payload f = payload p.frame)
    (hhandled : Handled (station s side).table table f) (k : ℕ) (t : Task) (c' : Tracked)
    (ht : (station s side).tasks[k]? = some t) (hc' : table.made[k]? = some c') :
    Received (bytesOf (framesOf t.channel ((station s side.other).delivered ++ [p])))
      (Listed table k t.id) t c'.state := by
  have hp : p ∈ (station s side.other).wire := hwire ▸ List.mem_cons_self ..
  obtain ⟨c, hc⟩ := h.registry.made side k t ht
  obtain ⟨c'', data, hc'', htold, hsome, hall⟩ := hhandled.told k c hc
  obtain rfl := Option.some.inj (hc'.symm.trans hc'')
  have hold := h.received side k t c ht hc
  have hlisted : Listed table k t.id → Listed (station s side).table k t.id := by
    rintro ⟨e', he', hchannel, hid⟩
    obtain ⟨e, he, heq⟩ := List.mem_map.mp (hhandled.entries.subset (List.mem_map_of_mem he'))
    obtain ⟨hid', hchannel'⟩ := Prod.mk.inj heq
    exact ⟨e, he, hchannel'.trans hchannel, hid'.trans hid⟩
  have harrival : bytesOf (framesOf t.channel [p]) =
      if p.sender = some t.channel then payload p.frame else [] := by
    by_cases hsender : p.sender = some t.channel
    · cases hordered : ordered p.frame with
      | true => simp [framesOf, hsender, hordered, bytesOf]
      | false => simp [framesOf, hordered, bytesOf, (unordered_plain p.frame hordered).2]
    · simp [framesOf, hsender, bytesOf]
  have hunwritten : t.written ++ unwritten t c'.state = t.written ++ unwritten t c.state ++
      data := by
    rw [htold.unwritten_eq t, List.append_assoc]
  rw [framesOf_append, bytesOf_append, harrival]
  by_cases hdata : data = []
  · rw [hdata, List.append_nil] at hunwritten
    refine ⟨hold.written.trans (List.prefix_append _ _), fun hr => ?_, fun hr hin => ?_⟩
    all_goals
      rw [htold.receiving] at hr
      rw [hunwritten]
    · exact (hold.kept hr).trans (List.prefix_append _ _)
    rw [hold.all hr (hlisted hin)]
    split
    · -- the entry is still there, so it has got the whole frame
      rename_i hsender
      obtain ⟨e, he, hchannel, hid⟩ := hlisted hin
      by_cases hempty : payload p.frame = []
      · rw [hempty, List.append_nil]
      · have hordered : ordered p.frame = true := by
          cases hordered : ordered p.frame with
          | true => rfl
          | false => exact absurd (unordered_plain p.frame hordered).2 hempty
        have hsent : p ∈ sent (station s side.other) := by
          rw [sent]
          exact List.mem_append_left _ (List.mem_append_right _ hp)
        obtain ⟨t0, ht0, hch, hlog⟩ := h.source side.other p t.channel hsent hsender hordered
        obtain ⟨u, hu, hidu⟩ := h.registry.opener side.other t0 ht0
        obtain ⟨v, hv, hidv⟩ := h.registry.opener side t (List.mem_of_getElem? ht)
        obtain rfl := Option.some.inj (hu.symm.trans (hch ▸ hv))
        have heid : e.id = frameId f := by
          rw [hid, ← hidv, hidu, hf.1, h.frame_id side.other t0 ht0 p.frame hlog]
        have hfind := find_of_mem _ e (h.registry.ids side) he
        have hnone := hall e (heid ▸ hfind) hchannel (heid ▸ hid ▸ hin)
        exact absurd (hf.2.symm.trans (hnone.symm.trans hdata)) hempty
    · rw [List.append_nil]
  · obtain ⟨hr, hpayload, e, hfind, hchannel⟩ := hsome hdata
    obtain ⟨he, hid⟩ := ChannelTable.find_mem _ _ _ hfind
    obtain ⟨t1, ht1, hid1⟩ := h.registry.entries side e he
    obtain rfl := Option.some.inj (ht.symm.trans (hchannel ▸ ht1))
    have hsender := h.own_channel side p k t c hp (hf.2 ▸ hpayload ▸ hdata) ht hc hr
      (hid1.trans (hid.trans hf.1))
    have heq := hold.all hr ⟨e, he, hchannel, hid1.symm⟩
    rw [heq] at hunwritten
    rw [if_pos hsender, ← hf.2, ← hpayload]
    exact ⟨hold.written.trans (List.prefix_append _ _),
      fun _ => hunwritten ▸ List.prefix_refl _, fun _ _ => hunwritten⟩

theorem framesOf_answers (answers : List Packet) (h : ∀ q ∈ answers, q.sender = none) :
    framesOf c answers = [] := by
  rw [framesOf, List.filterMap_eq_nil_iff]
  intro q hq
  simp [h q hq]

/-- A frame is taken off the wire and handled for the channels there are. -/
theorem inv_handled (p : Packet) (rest answers : List Packet)
    (table : Table) (f : Frame) (h : Inv s) (hwire : (station s side.other).wire = p :: rest)
    (hfar : station s' side.other = { station s side.other with
      wire := rest
      delivered := (station s side.other).delivered ++ [p] })
    (hown : station s' side = { station s side with
      table := table
      queue := (station s side).queue ++ answers })
    (hf : frameId f = frameId p.frame ∧ payload f = payload p.frame)
    (hhandled : Handled (station s side).table table f)
    (hanswers : ∀ q ∈ answers,
      q.sender = none ∧ isHello .opener q.frame = false ∧ payload q.frame = []) : Inv s' := by
  have hkeeps (side' : Side) : Keeps (station s side') (station s' side') := by
    rcases Side.eq_or_other side side' with rfl | rfl
    · rw [hown]
      exact ⟨rfl, hhandled.length, hhandled.entries⟩
    · rw [hfar]
      exact ⟨rfl, rfl, List.Sublist.refl _⟩
  have htasks (side' : Side) : (station s' side').tasks = (station s side').tasks := by
    rcases Side.eq_or_other side side' with rfl | rfl
    · rw [hown]
    · rw [hfar]
  have hsent (side' : Side) (c : ℕ) :
      framesOf c (sent (station s' side')) = framesOf c (sent (station s side')) := by
    rcases Side.eq_or_other side side' with rfl | rfl
    · rw [hown]
      simp only [sent]
      rw [← List.append_assoc, framesOf_append,
        framesOf_answers c answers fun q hq => (hanswers q hq).1, List.append_nil]
    · rw [hfar]
      simp [sent, hwire]
  have hunder (side' : Side) (q : Packet)
      (hq : q ∈ (station s' side').wire ++ (station s' side').queue) :
      q ∈ (station s side').wire ++ (station s side').queue ∨ q ∈ answers := by
    rcases Side.eq_or_other side side' with rfl | rfl
    · rw [hown] at hq
      simp only [← List.append_assoc] at hq
      exact List.mem_append.mp hq
    · rw [hfar] at hq
      rw [hwire]
      exact Or.inl (List.mem_cons_of_mem _ hq)
  have hdelivered (side' : Side) : (station s side').delivered <+:
      (station s' side').delivered := by
    rcases Side.eq_or_other side side' with rfl | rfl
    · rw [hown]
    · rw [hfar]
      exact List.prefix_append _ _
  refine ⟨h.registry.of_keeps hkeeps, ?_, ?_, ?_, ?_, ?_, ?_, ?_, ?_⟩
  · intro side' k t c ht hc
    rcases Side.eq_or_other side side' with rfl | rfl
    · rw [hown] at ht hc
      obtain ⟨d, hd⟩ := h.registry.made side k t ht
      obtain ⟨c', data, hc', htold, -⟩ := hhandled.told k d hd
      obtain rfl := Option.some.inj (hc.symm.trans hc')
      have hsane := h.sane side k t d ht hd
      exact { hsane with
        sending := htold.sending.trans hsane.sending
        receiving := htold.receiving.trans hsane.receiving
        unsent := fun hne => hsane.unsent (htold.phase ▸ hne)
        greeted := fun heq => hsane.greeted (htold.phase ▸ heq)
        outgoing := fun hout => htold.phase ▸ hsane.outgoing hout
        held := fun hne => htold.phase ▸ hsane.held (htold.held ▸ hne) }
    · rw [hfar] at ht hc
      exact h.sane side.other k t c ht hc
  · intro side' t ht
    rw [htasks] at ht
    rw [hsent]
    exact h.log side' t ht
  · intro side' c hnone
    rw [htasks] at hnone
    rw [hsent]
    exact h.unused side' c hnone
  · cases side with
    | opener =>
      rw [hown]
      exact h.control
    | acceptor =>
      change ∀ q ∈ (station s' (Side.other .acceptor)).control, _
      rw [hfar]
      exact h.control
  · intro side' q hq hnone
    rcases hunder side' q hq with hold | hnew
    · exact h.answers side' q hold hnone
    · exact (hanswers q hnew).2
  · exact arrived_of_keeps h hkeeps (hdelivered .opener)
  · refine stale_of_keeps h hkeeps fun c hs side' => ?_
    rw [htasks]
    refine ⟨(hs side').1, fun q hq hsender => ?_⟩
    rcases hunder side' q hq with hold | hnew
    · exact (hs side').2 q hold hsender
    · exact absurd (hsender.symm.trans (hanswers q hnew).1) nofun
  · intro side' k t c ht hc
    rcases Side.eq_or_other side side' with rfl | rfl
    · rw [hfar]
      rw [hown] at ht hc ⊢
      exact received_handled h side p rest table f hwire hf hhandled k t c ht hc
    · rw [hfar] at ht hc ⊢
      rw [TunnelChannel.Side.other_other, hown]
      have hold := h.received side.other k t c ht hc
      rwa [TunnelChannel.Side.other_other] at hold

theorem decided_eq (permitted authorized : Bool) (f : Frame) :
    frameId (decided permitted authorized f) = frameId f ∧
      payload (decided permitted authorized f) = payload f := by
  cases f <;> exact ⟨rfl, rfl⟩

theorem refusal_answers (t : Table) (f : Frame) :
    ∀ q ∈ refusal t f, q.sender = none ∧ isHello .opener q.frame = false ∧
    payload q.frame = [] := by
  have hone (id : ℤ) (q : Packet) (hq : q ∈ [(⟨none, .opened id false 0⟩ : Packet)]) :
      q.sender = none ∧ isHello .opener q.frame = false ∧ payload q.frame = [] := by
    obtain rfl := List.mem_singleton.mp hq
    exact ⟨rfl, rfl, rfl⟩
  intro q hq
  cases f with
  | «open» id window permitted authorized =>
    simp only [refusal] at hq
    split at hq
    · exact hone id q hq
    · split at hq
      · exact hone id q hq
      · split at hq
        · cases hq
        · split at hq
          · exact hone id q hq
          · cases hq
  | opened | data | close | windowUpdate => cases hq

/-- The `open` of a channel is the first of its frames, and its task is there. -/
theorem Inv.open_first {s : Tunnel} (h : Inv s) (p : Packet) (rest : List Packet)
    (hwire : (station s .opener).wire = p :: rest) (hhello : isHello .opener p.frame = true) :
    ∃ c u, p.sender = some c ∧ (station s .opener).tasks[c]? = some u ∧ frameId p.frame = u.id ∧
      framesOf c (station s .opener).delivered = [] := by
  have hp : p ∈ (station s .opener).wire := hwire ▸ List.mem_cons_self ..
  have hordered : ordered p.frame = true := by
    cases hframe : p.frame <;> simp_all [isHello, ordered]
  cases hsender : p.sender with
  | none =>
    have hanswer := (h.answers .opener p (List.mem_append_left _ hp) hsender).1
    rw [hhello] at hanswer
    cases hanswer
  | some c =>
    have hsent : p ∈ sent (station s .opener) :=
      List.mem_append_left _ (List.mem_append_right _ hp)
    obtain ⟨u, hu, hchannel, hlog⟩ := h.source .opener p c hsent hsender hordered
    obtain ⟨i, hi⟩ := List.getElem?_of_mem hu
    obtain rfl : i = c := (h.registry.numbered i u hi).symm.trans hchannel
    obtain ⟨d, hd⟩ := h.registry.made .opener i u hi
    refine ⟨i, u, rfl, hi, h.frame_id .opener u hu p.frame hlog, ?_⟩
    have horder := (h.sane .opener i u d hi hd).inOrder
    rw [← h.log .opener u hu, hchannel] at horder
    refine horder.hello_first _ (framesOf i (rest ++ (station s .opener).queue)) p.frame hhello ?_
    simp only [sent, hwire, framesOf_append, List.append_assoc]
    rw [← List.singleton_append, framesOf_append]
    simp [framesOf, hsender, hordered]

/-- The accepting side makes a channel for an `open`. -/
theorem inv_accept (s1 s' : Tunnel) (p : Packet) (rest : List Packet) (id : ℤ) (window : UInt32)
    (h : Inv s) (h1 : Inv s1) (hwire : (station s .opener).wire = p :: rest)
    (hhello : isHello .opener p.frame = true) (hid : frameId p.frame = id)
    (hfind : (station s1 .acceptor).table.find id = none)
    (hfar : station s1 .opener = { station s .opener with
      wire := rest
      delivered := (station s .opener).delivered ++ [p] })
    (htasks : (station s1 .acceptor).tasks = (station s .acceptor).tasks)
    (hother : station s' .opener = station s1 .opener)
    (hown : station s' .acceptor = { station s1 .acceptor with
      table := (station s1 .acceptor).table.insert id true (ChannelEnd.incoming window.toNat)
      tasks := (station s1 .acceptor).tasks ++ [Task.new id (p.sender.getD 0) []] }) : Inv s' := by
  obtain ⟨c, u, hsender, hu, hidu, hnone⟩ := h.open_first p rest hwire hhello
  have hp : p ∈ (station s .opener).wire ++ (station s .opener).queue :=
    List.mem_append_left _ (hwire ▸ List.mem_cons_self ..)
  have hordered : ordered p.frame = true := by
    cases hframe : p.frame <;> simp_all [isHello, ordered]
  have hframes : framesOf c (station s1 .opener).delivered = [p.frame] := by
    rw [hfar]
    simp only [framesOf_append, hnone]
    simp [framesOf, hsender, hordered]
  have hplain : bytesOf [p.frame] = [] := by
    cases hframe : p.frame <;> simp_all [isHello, bytesOf, payload]
  have hopener : (station s1 .opener).tasks = (station s .opener).tasks := by rw [hfar]
  rw [hsender, Option.getD_some] at hown
  refine inv_enter s1 s' .acceptor (Task.new id c []) (ChannelEnd.incoming window.toNat) h1
    ⟨by rw [hown], by rw [hown]; rfl, true, (station s1 .acceptor).table.entries, by rw [hown]; rfl,
      List.Sublist.refl _, ?_⟩ hother (by rw [hown]; exact ⟨rfl, rfl, rfl, rfl⟩)
    (fun h => absurd h (by decide)) ?_ ?_ ?_ rfl ?_ ?_ ?_
  · intro hmem
    obtain ⟨e, he, heid⟩ := List.mem_map.mp hmem
    have hnot := List.find?_eq_none.mp hfind e he
    exact hnot (by simpa [Task.new] using heid)
  · intro _
    rw [hopener]
    exact ⟨u, hu, hidu.symm.trans hid⟩
  · intro t ht heq
    rw [htasks] at ht
    obtain ⟨f, hf, -⟩ := h.arrived t ht
    rw [show t.channel = c from heq, hnone] at hf
    cases hf
  · exact sane_new .acceptor id c [] .connecting _ _ (by decide)
  · intro listed
    change Received (bytesOf (framesOf c (station s1 .opener).delivered)) _ _ _
    rw [hframes, hplain]
    exact received_new id c [] listed .connecting _ initialWindow
  · intro _
    change ∃ f ∈ framesOf c _, _
    rw [hframes]
    exact ⟨p.frame, List.mem_singleton_self _, hhello⟩
  · intro i j v w hv hw hij hvw
    rw [hother] at hv hw
    refine ⟨h1.stale i j v w hv hw hij hvw, ?_⟩
    rintro rfl
    rw [hopener] at hv hw
    have hbad := (h.stale _ j v w hv hw hij hvw .opener).2 p hp hsender
    rw [hordered] at hbad
    cases hbad

theorem inv_deliver (permitted authorized : Bool) (h : Inv s)
    (hstep : step s (.deliver side permitted authorized) = some t) : Inv t := by
  simp only [step] at hstep
  split at hstep
  · rename_i p rest _ hwire
    obtain rfl := Option.some.inj hstep
    have hsame (far : Station) : station (setStation s side.other far) side = station s side :=
      Both.get_set_of_other _ _ _
    have hf := decided_eq permitted authorized p.frame
    rw [hsame]
    rcases onFrame_cases side (station s side).table (decided permitted authorized p.frame) with
      hhandled | ⟨rfl, id, window, hopen, hfind, heq⟩
    · cases side with
      | opener =>
        refine inv_handled s _ .opener p rest [] _ _ h hwire ?_ ?_ hf hhandled nofun
        · rw [station_set_other]
          exact station_set_self _ _ _
        · rw [station_set_self, receive, if_neg (by rw [hhandled.length]; omega)]
          simp
      | acceptor =>
        refine inv_handled s _ .acceptor p rest _ _ _ h hwire ?_ ?_ hf hhandled
          (refusal_answers (station s .acceptor).table (decided permitted authorized p.frame))
        · rw [station_set_other]
          exact station_set_self _ _ _
        · rw [station_set_self, receive, if_neg (by rw [hhandled.length]; omega)]
          rfl
    · have hhello : isHello .opener p.frame = true := by
        cases hframe : p.frame <;> simp_all [isHello, decided]
      have hid : frameId p.frame = id := by
        rw [← hf.1, hopen]
        rfl
      have hretain : Handled (station s .acceptor).table (station s .acceptor).table.retain
          (decided permitted authorized p.frame) :=
        handled_of_entries _ _ _ (List.filter_sublist.map _) (by rw [hopen]; rfl)
      have hmiddle := inv_handled s
        (setStation (setStation s .opener { station s .opener with
            wire := rest
            delivered := (station s .opener).delivered ++ [p] }) .acceptor
          { station s .acceptor with
            table := (station s .acceptor).table.retain
            queue := (station s .acceptor).queue ++
              refusal (station s .acceptor).table (decided permitted authorized p.frame) })
        .acceptor p rest _ _ _ h hwire rfl rfl hf hretain
        (refusal_answers (station s .acceptor).table (decided permitted authorized p.frame))
      refine inv_accept s _ _ p rest id window h hmiddle hwire hhello hid hfind rfl rfl rfl ?_
      rw [station_set_self, receive, heq, hf.1, hid, if_pos (by simp [Table.insert, Table.retain])]
      rfl
  · cases hstep

theorem inv_step (e : Event) (h : Inv s) (hfresh : FreshId s e)
    (hstep : step s e = some t) : Inv t := by
  cases e with
  | «open» gone prebuf =>
    obtain ⟨-, hopen⟩ := Option.ite_none_right_eq_some.mp hstep
    exact inv_open s t gone prebuf h hfresh hopen
  | act side k action =>
    obtain ⟨st', hact, rfl⟩ := Option.map_eq_some_iff.mp hstep
    exact inv_act s side k action st' h hact
  | transmit side => exact inv_transmit s t side h hstep
  | transmitControl => exact inv_transmitControl s t h hstep
  | deliver side permitted authorized => exact inv_deliver s t side permitted authorized h hstep
  | goDown side =>
    obtain rfl := Option.some.inj hstep
    exact inv_goDown s side h

theorem inv_start : Inv start := by
  have htasks (side : Side) : (station start side).tasks = [] := by cases side <;> rfl
  have hentries (side : Side) : (station start side).table.entries = [] := by cases side <;> rfl
  have hsent (side : Side) : sent (station start side) = [] := by cases side <;> rfl
  have hempty (side : Side) : (station start side).wire ++ (station start side).queue = [] := by
    cases side <;> rfl
  have hnone (side : Side) (k : ℕ) (t : Task) : (station start side).tasks[k]? ≠ some t := by
    rw [htasks]
    simp
  refine ⟨⟨?_, ?_, ?_, ?_, ?_, ?_⟩, ?_, ?_, ?_, nofun, ?_, ?_, ?_, ?_⟩
  · intro side
    cases side <;> rfl
  · exact fun i t ht => absurd ht (hnone _ i t)
  · intro t ht
    rw [htasks] at ht
    cases ht
  · exact fun side i j t u ht => absurd ht (hnone side i t)
  · intro side e he
    rw [hentries] at he
    cases he
  · intro side
    rw [hentries]
    exact List.nodup_nil
  · exact fun side k t c ht => absurd ht (hnone side k t)
  · intro side t ht
    rw [htasks] at ht
    cases ht
  · intro side c _
    rw [hsent]
    rfl
  · intro side p hp
    rw [hempty] at hp
    cases hp
  · intro t ht
    rw [htasks] at ht
    cases ht
  · exact fun i j u v hu => absurd hu (hnone _ i u)
  · exact fun side k t c ht => absurd ht (hnone side k t)

end ClantoDesk.ChannelBytes
