import ClantoDesk.Runs
import Mathlib.Data.List.Nodup

/-!
The subscribers of a service, src/server/service.rs. A service that needs a snapshot keeps new
subscribers apart until a snapshot has been sent to them. A snapshot takes the lock once to see
whether there is somebody new, once for each message that its callback sends and once more
when its `ServiceSwap` is dropped, which makes every new subscriber a regular one. Connections come
and go between these steps. The marks of the trace, the numbers of subscriptions and snapshots
and the list of running snapshots record what happens and decide nothing.
-/
namespace ClantoDesk.ServiceSubscriptions

open Runs

/-- A subscription of a connection. `late` are the snapshots that had sent something before it. -/
structure Subscriber where
  id : Int32
  token : ℕ
  late : List ℕ
  deriving DecidableEq

/-- `HashMap<i32, T>`, in one order of iteration. -/
structure Subscribers where
  list : List Subscriber
  nodup : (list.map fun s => s.id).Nodup

theorem nodup_filter (list : List Subscriber) (f : Subscriber → Bool)
    (h : (list.map fun s => s.id).Nodup) : ((list.filter f).map fun s => s.id).Nodup :=
  h.sublist (List.Sublist.map _ List.filter_sublist)

theorem nodup_insert (list : List Subscriber) (s : Subscriber)
    (h : (list.map fun s => s.id).Nodup) :
    (((list.filter fun t => t.id ≠ s.id) ++ [s]).map fun s => s.id).Nodup := by
  rw [List.map_append, List.nodup_append]
  refine ⟨nodup_filter list _ h, List.nodup_singleton _, ?_⟩
  intro a ha b hb
  obtain ⟨t, ht, rfl⟩ := List.mem_map.mp ha
  rw [List.map_singleton, List.mem_singleton] at hb
  have hne := (List.mem_filter.mp ht).2
  rw [hb]
  simpa using hne

namespace Subscribers

def empty : Subscribers := ⟨[], List.nodup_nil⟩

def has (m : Subscribers) (id : Int32) : Bool := m.list.any fun s => s.id == id

def insert (m : Subscribers) (s : Subscriber) : Subscribers :=
  ⟨(m.list.filter fun t => t.id ≠ s.id) ++ [s], nodup_insert m.list s m.nodup⟩

def remove (m : Subscribers) (id : Int32) : Subscribers :=
  ⟨m.list.filter fun t => t.id ≠ id, nodup_filter m.list _ m.nodup⟩

end Subscribers

inductive Mark (M : Type) where
  | subscribed (id : Int32)
  | unsubscribed (id : Int32)
  | sent (snapshot : ℕ) (msg : M)
  | closed (snapshot : ℕ) (ok : Bool)
  | got (sub : Subscriber) (snapshot : Option ℕ) (msg : M)
  deriving DecidableEq

variable {M : Type}

def sentBy (k : ℕ) (trace : List (Mark M)) : List M :=
  trace.filterMap fun mark =>
    match mark with
    | .sent j msg => if j = k then some msg else none
    | _ => none

def received (token k : ℕ) (trace : List (Mark M)) : List M :=
  trace.filterMap fun mark =>
    match mark with
    | .got sub (some j) msg => if sub.token = token ∧ j = k then some msg else none
    | _ => none

structure Service (M : Type) where
  needSnapshot : Bool
  subscribes : Subscribers
  newSubscribes : Subscribers
  running : List ℕ
  tokens : ℕ
  snapshots : ℕ
  trace : List (Mark M)

namespace Service

def new (needSnapshot : Bool) : Service M :=
  ⟨needSnapshot, .empty, .empty, [], 0, 0, []⟩

def note (s : Service M) (marks : List (Mark M)) : Service M :=
  { s with trace := s.trace ++ marks }

def sendNewSubscribes (s : Service M) (k : ℕ) (msg : M) : Service M :=
  s.note (.sent k msg :: s.newSubscribes.list.map fun sub => .got sub (some k) msg)

def swapNewSubscribes (s : Service M) : Service M :=
  { s with
    subscribes := s.newSubscribes.list.foldl Subscribers.insert s.subscribes
    newSubscribes := .empty }

def hasSubscribes (s : Service M) : Bool :=
  !s.subscribes.list.isEmpty || !s.newSubscribes.list.isEmpty

def isSubed (s : Service M) (id : Int32) : Bool := s.subscribes.has id || s.newSubscribes.has id

def subscriber (s : Service M) (id : Int32) : Subscriber :=
  ⟨id, s.tokens, s.running.filter fun k => !(sentBy k s.trace).isEmpty⟩

def onSubscribe (s : Service M) (id : Int32) : Service M :=
  if s.subscribes.has id then s.note [.subscribed id]
  else if s.needSnapshot then
    { s.note [.subscribed id] with
      newSubscribes := s.newSubscribes.insert (s.subscriber id)
      tokens := s.tokens + 1 }
  else
    { s.note [.subscribed id] with
      subscribes := s.subscribes.insert (s.subscriber id)
      tokens := s.tokens + 1 }

def onUnsubscribe (s : Service M) (id : Int32) : Service M :=
  if s.subscribes.has id then
    { s.note [.unsubscribed id] with subscribes := s.subscribes.remove id }
  else { s.note [.unsubscribed id] with newSubscribes := s.newSubscribes.remove id }

/-- The check that begins `snapshot`. -/
def snapshot (s : Service M) : Service M :=
  if s.newSubscribes.list.isEmpty then s
  else { s with running := s.running ++ [s.snapshots], snapshots := s.snapshots + 1 }

/-- The callback returns, and its `ServiceSwap` is dropped. -/
def snapshotEnd (s : Service M) (k : ℕ) (ok : Bool) : Service M :=
  { s.swapNewSubscribes.note [.closed k ok] with running := s.running.filter fun j => j ≠ k }

/-- A regular message to the subscribers that `f` lets through. -/
def sendWhere (s : Service M) (f : Int32 → Bool) (msg : M) : Service M :=
  s.note ((s.subscribes.list.filter fun sub => f sub.id).map fun sub => .got sub none msg)

def sendShared (s : Service M) (msg : M) : Service M := s.sendWhere (fun _ => true) msg

def sendTo (s : Service M) (msg : M) (id : Int32) : Service M := s.sendWhere (fun i => i == id) msg

def sendToOthers (s : Service M) (msg : M) (id : Int32) : Service M :=
  s.sendWhere (fun i => i != id) msg

def sendWithout (s : Service M) (msg : M) (sub : Int32) : Service M :=
  s.sendWhere (fun i => sub != i) msg

def sendVideoFrameShared (s : Service M) (msg : M) : Service M × List Int32 :=
  (s.sendShared msg, s.subscribes.list.map fun sub => sub.id)

end Service

inductive Event (M : Type) where
  | onSubscribe (id : Int32)
  | onUnsubscribe (id : Int32)
  | snapshot
  | snapshotSend (k : ℕ) (msg : M)
  | snapshotEnd (k : ℕ) (ok : Bool)
  | send (msg : M)
  | sendTo (msg : M) (id : Int32)
  | sendToOthers (msg : M) (id : Int32)
  | sendWithout (msg : M) (sub : Int32)
  | sendVideoFrame (msg : M)

/-- Every step is one critical section of the service's lock. A callback sends and returns only
while it runs. -/
def step (s : Service M) : Event M → Option (Service M)
  | .onSubscribe id => some (s.onSubscribe id)
  | .onUnsubscribe id => some (s.onUnsubscribe id)
  | .snapshot => some s.snapshot
  | .snapshotSend k msg => if k ∈ s.running then some (s.sendNewSubscribes k msg) else none
  | .snapshotEnd k ok => if k ∈ s.running then some (s.snapshotEnd k ok) else none
  | .send msg => some (s.sendShared msg)
  | .sendTo msg id => some (s.sendTo msg id)
  | .sendToOthers msg id => some (s.sendToOthers msg id)
  | .sendWithout msg sub => some (s.sendWithout msg sub)
  | .sendVideoFrame msg => some (s.sendVideoFrameShared msg).1

/-! ### The maps -/

namespace Subscribers

variable (m : Subscribers)

theorem has_iff (id : Int32) : m.has id = true ↔ ∃ u ∈ m.list, u.id = id := by
  simp [has]

theorem mem_insert (s u : Subscriber) :
    u ∈ (m.insert s).list ↔ (u ∈ m.list ∧ u.id ≠ s.id) ∨ u = s := by
  simp [insert]

theorem mem_remove (id : Int32) (u : Subscriber) :
    u ∈ (m.remove id).list ↔ u ∈ m.list ∧ u.id ≠ id := by
  simp [remove]

theorem has_insert (s : Subscriber) (id : Int32) :
    (m.insert s).has id = true ↔ m.has id = true ∨ s.id = id := by
  simp only [has_iff, mem_insert]
  constructor
  · rintro ⟨u, ⟨hu, -⟩ | rfl, hid⟩
    · exact Or.inl ⟨u, hu, hid⟩
    · exact Or.inr hid
  · intro h
    by_cases hs : s.id = id
    · exact ⟨s, Or.inr rfl, hs⟩
    · rcases h with ⟨u, hu, hid⟩ | hid
      · exact ⟨u, Or.inl ⟨hu, fun heq => hs (heq.symm.trans hid)⟩, hid⟩
      · exact absurd hid hs

theorem has_remove (i id : Int32) : (m.remove i).has id = true ↔ m.has id = true ∧ id ≠ i := by
  simp only [has_iff, mem_remove]
  constructor
  · rintro ⟨u, ⟨hu, hne⟩, rfl⟩
    exact ⟨⟨u, hu, rfl⟩, hne⟩
  · rintro ⟨⟨u, hu, rfl⟩, hne⟩
    exact ⟨u, ⟨hu, hne⟩, rfl⟩

theorem mem_of_mem_foldl (l : List Subscriber) (m : Subscribers) (u : Subscriber)
    (h : u ∈ (l.foldl insert m).list) : u ∈ m.list ∨ u ∈ l := by
  induction l generalizing m with
  | nil => exact Or.inl h
  | cons s l ih =>
    rcases ih (m.insert s) h with hold | hnew
    · rcases (mem_insert m s u).mp hold with ⟨hm, -⟩ | rfl
      · exact Or.inl hm
      · exact Or.inr (List.mem_cons_self ..)
    · exact Or.inr (List.mem_cons_of_mem _ hnew)

theorem has_foldl (l : List Subscriber) (m : Subscribers) (id : Int32) :
    (l.foldl insert m).has id = true ↔ m.has id = true ∨ ∃ u ∈ l, u.id = id := by
  induction l generalizing m with
  | nil => simp
  | cons s l ih =>
    rw [List.foldl_cons, ih, has_insert]
    simp [or_assoc]

end Subscribers

/-! ### What holds in every run -/

def activeNext (id : Int32) (now : Bool) : Mark M → Bool
  | .subscribed i => if i = id then true else now
  | .unsubscribed i => if i = id then false else now
  | _ => now

/-- The last call about the connection was `on_subscribe`. -/
def active (id : Int32) (trace : List (Mark M)) : Bool := trace.foldl (activeNext id) false

/-- Messages are for connections that have subscribed and not unsubscribed since. -/
def Wanted (before : List (Mark M)) : Mark M → Prop
  | .got sub _ _ => active sub.id before = true
  | _ => True

structure Sound (s : Service M) : Prop where
  disjoint : ∀ u ∈ s.subscribes.list, ∀ v ∈ s.newSubscribes.list, u.id ≠ v.id
  active_iff : ∀ id, active id s.trace = true ↔
    s.subscribes.has id = true ∨ s.newSubscribes.has id = true
  wanted : Always Wanted s.trace
  plain : s.needSnapshot = false → s.newSubscribes.list = []

variable (subs : List Subscriber) (s s' : Service M) (e : Event M) (msg : M) (f : Int32 → Bool)

theorem active_note_quiet (id : Int32) (trace block : List (Mark M))
    (h : ∀ mark ∈ block, (∀ i, mark ≠ .subscribed i) ∧ ∀ i, mark ≠ .unsubscribed i) :
    active id (trace ++ block) = active id trace := by
  rw [active, List.foldl_append, ← active]
  generalize active id trace = now
  induction block with
  | nil => rfl
  | cons mark block ih =>
    obtain ⟨hsub, hunsub⟩ := h mark (List.mem_cons_self ..)
    have hmark : activeNext id now mark = now := by
      cases mark with
      | subscribed i => exact absurd rfl (hsub i)
      | unsubscribed i => exact absurd rfl (hunsub i)
      | sent k msg => rfl
      | closed k ok => rfl
      | got sub k msg => rfl
    rw [List.foldl_cons, hmark]
    exact ih fun m hm => h m (List.mem_cons_of_mem _ hm)

@[simp] theorem active_subscribed (id i : Int32) (trace : List (Mark M)) :
    active id (trace ++ [.subscribed i]) = if i = id then true else active id trace := by
  rw [active, List.foldl_append]
  rfl

@[simp] theorem active_unsubscribed (id i : Int32) (trace : List (Mark M)) :
    active id (trace ++ [.unsubscribed i]) = if i = id then false else active id trace := by
  rw [active, List.foldl_append]
  rfl

theorem Sound.deliver (h : Sound s) (block : List (Mark M))
    (hblock : ∀ mark ∈ block, (∃ k msg, mark = .sent k msg) ∨ ∃ sub k msg, mark = .got sub k msg ∧
      (s.subscribes.has sub.id = true ∨ s.newSubscribes.has sub.id = true)) :
    Sound (s.note block) := by
  have hquiet : ∀ mark ∈ block, (∀ i, mark ≠ .subscribed i) ∧ ∀ i, mark ≠ .unsubscribed i := by
    intro mark hmark
    rcases hblock mark hmark with ⟨k, msg, rfl⟩ | ⟨sub, k, msg, rfl, -⟩ <;> simp
  refine ⟨h.disjoint, fun id => ?_, always_append Wanted s.trace block h.wanted ?_, h.plain⟩
  · rw [Service.note, active_note_quiet id s.trace block hquiet]
    exact h.active_iff id
  · intro front mark rest heq
    rcases hblock mark (by simp [heq]) with ⟨k, msg, rfl⟩ | ⟨sub, k, msg, rfl, hhas⟩
    · trivial
    · rw [Wanted, active_note_quiet sub.id s.trace front fun m hm => hquiet m (by simp [heq, hm])]
      exact (h.active_iff sub.id).mpr hhas

theorem sound_onSubscribe (h : Sound s) (i : Int32) : Sound (s.onSubscribe i) := by
  have hwanted : Always Wanted (s.trace ++ [.subscribed i]) :=
    always_concat Wanted s.trace _ h.wanted trivial
  rw [Service.onSubscribe]
  split
  · rename_i hhas
    refine ⟨h.disjoint, fun id => ?_, hwanted, h.plain⟩
    simp only [Service.note, active_subscribed]
    split
    · rename_i heq
      simp [← heq, hhas]
    · exact h.active_iff id
  · rename_i hhas
    split
    · rename_i hneed
      refine ⟨fun u hu v hv => ?_, fun id => ?_, hwanted, fun hplain => ?_⟩
      · rcases (s.newSubscribes.mem_insert (s.subscriber i) v).mp hv with ⟨hold, -⟩ | rfl
        · exact h.disjoint u hu v hold
        · exact fun heq => hhas ((s.subscribes.has_iff i).mpr ⟨u, hu, heq⟩)
      · simp only [Service.note, active_subscribed, Subscribers.has_insert]
        split
        · rename_i heq
          simp [Service.subscriber, heq]
        · rename_i hne
          simp [Service.subscriber, hne, h.active_iff id]
      · exact absurd (hneed.symm.trans hplain) (by decide)
    · rename_i hneed
      have hempty : s.newSubscribes.list = [] := h.plain (by simpa using hneed)
      refine ⟨fun u _ v hv => ?_, fun id => ?_, hwanted, h.plain⟩
      · have hmem : v ∈ s.newSubscribes.list := hv
        rw [hempty] at hmem
        cases hmem
      · simp only [Service.note, active_subscribed, Subscribers.has_insert]
        split
        · rename_i heq
          simp [Service.subscriber, heq]
        · rename_i hne
          simp [Service.subscriber, hne, h.active_iff id]

theorem sound_onUnsubscribe (h : Sound s) (i : Int32) : Sound (s.onUnsubscribe i) := by
  have hwanted : Always Wanted (s.trace ++ [.unsubscribed i]) :=
    always_concat Wanted s.trace _ h.wanted trivial
  rw [Service.onUnsubscribe]
  split
  · rename_i hhas
    obtain ⟨w, hw, hwid⟩ := (s.subscribes.has_iff i).mp hhas
    have hnew : ¬ s.newSubscribes.has i = true := by
      intro hnew
      obtain ⟨v, hv, hvid⟩ := (s.newSubscribes.has_iff i).mp hnew
      exact h.disjoint w hw v hv (hwid.trans hvid.symm)
    refine ⟨fun u hu v hv => h.disjoint u ((s.subscribes.mem_remove i u).mp hu).1 v hv,
      fun id => ?_, hwanted, h.plain⟩
    simp only [Service.note, active_unsubscribed, Subscribers.has_remove]
    split
    · rename_i heq
      simp [← heq, hnew]
    · rename_i hne
      simp [h.active_iff id, Ne.symm hne]
  · rename_i hhas
    refine ⟨fun u hu v hv => h.disjoint u hu v ((s.newSubscribes.mem_remove i v).mp hv).1,
      fun id => ?_, hwanted, fun hplain => ?_⟩
    · simp only [Service.note, active_unsubscribed, Subscribers.has_remove]
      split
      · rename_i heq
        simp [← heq, hhas]
      · rename_i hne
        simp [h.active_iff id, Ne.symm hne]
    · simp [Subscribers.remove, h.plain hplain]

theorem sound_snapshotEnd (h : Sound s) (k : ℕ) (ok : Bool) : Sound (s.snapshotEnd k ok) := by
  refine ⟨fun u _ v hv => (by cases hv), fun id => ?_,
    always_concat Wanted s.trace _ h.wanted trivial, fun _ => rfl⟩
  have hactive : active id (s.trace ++ [.closed k ok]) = active id s.trace :=
    active_note_quiet id s.trace _ (by simp)
  have hnew : s.newSubscribes.has id = true ↔ ∃ u ∈ s.newSubscribes.list, u.id = id :=
    s.newSubscribes.has_iff id
  simp only [Service.snapshotEnd, Service.note, Service.swapNewSubscribes, hactive,
    Subscribers.has_foldl, h.active_iff id, hnew]
  simp [Subscribers.empty, Subscribers.has]

theorem sound_sendWhere (h : Sound s) (f : Int32 → Bool) (msg : M) : Sound (s.sendWhere f msg) := by
  refine h.deliver s _ fun mark hmark => Or.inr ?_
  obtain ⟨sub, hsub, rfl⟩ := List.mem_map.mp hmark
  exact ⟨sub, none, msg, rfl, Or.inl ((s.subscribes.has_iff sub.id).mpr
    ⟨sub, (List.mem_filter.mp hsub).1, rfl⟩)⟩

theorem sound_step (s' : Service M) (h : Sound s) (hstep : step s e = some s') : Sound s' := by
  cases e with
  | onSubscribe id =>
    obtain rfl := Option.some.inj hstep
    exact sound_onSubscribe s h id
  | onUnsubscribe id =>
    obtain rfl := Option.some.inj hstep
    exact sound_onUnsubscribe s h id
  | snapshot =>
    obtain rfl := Option.some.inj hstep
    rw [Service.snapshot]
    split
    · exact h
    · exact ⟨h.disjoint, h.active_iff, h.wanted, h.plain⟩
  | snapshotSend k msg =>
    simp only [step] at hstep
    obtain ⟨-, rfl⟩ := of_guard hstep
    refine h.deliver s _ fun mark hmark => ?_
    rcases List.mem_cons.mp hmark with rfl | hgot
    · exact Or.inl ⟨k, msg, rfl⟩
    · obtain ⟨sub, hsub, rfl⟩ := List.mem_map.mp hgot
      exact Or.inr ⟨sub, some k, msg, rfl, Or.inr ((s.newSubscribes.has_iff sub.id).mpr
        ⟨sub, hsub, rfl⟩)⟩
  | snapshotEnd k ok =>
    simp only [step] at hstep
    obtain ⟨-, rfl⟩ := of_guard hstep
    exact sound_snapshotEnd s h k ok
  | send msg =>
    obtain rfl := Option.some.inj hstep
    exact sound_sendWhere s h _ msg
  | sendTo msg id =>
    obtain rfl := Option.some.inj hstep
    exact sound_sendWhere s h _ msg
  | sendToOthers msg id =>
    obtain rfl := Option.some.inj hstep
    exact sound_sendWhere s h _ msg
  | sendWithout msg id =>
    obtain rfl := Option.some.inj hstep
    exact sound_sendWhere s h _ msg
  | sendVideoFrame msg =>
    obtain rfl := Option.some.inj hstep
    exact sound_sendWhere s h (fun _ => true) msg

theorem sound_new (needSnapshot : Bool) : Sound (Service.new (M := M) needSnapshot) := by
  refine ⟨fun u hu => (by cases hu), fun id => ?_, ?_, fun _ => rfl⟩
  · simp [Service.new, active, Subscribers.has, Subscribers.empty]
  · exact always_nil Wanted

theorem sound_of_exec (needSnapshot : Bool) (events : List (Event M)) (s : Service M)
    (hexec : Runs.exec step (Service.new needSnapshot) events = some s) : Sound s :=
  Runs.invariant_of_exec step Sound (fun s e s' => sound_step s e s') _ s events
    (sound_new needSnapshot) hexec

/-! ### Regular messages -/

def regular : Event M → Option (M × (Int32 → Bool))
  | .send msg => some (msg, fun _ => true)
  | .sendTo msg id => some (msg, fun i => i == id)
  | .sendToOthers msg id => some (msg, fun i => i != id)
  | .sendWithout msg sub => some (msg, fun i => i != sub)
  | .sendVideoFrame msg => some (msg, fun _ => true)
  | _ => none

/-- What a connection gets, message by message. -/
def deliveredTo (id : Int32) (marks : List (Mark M)) : List M :=
  marks.filterMap fun mark =>
    match mark with
    | .got sub _ msg => if sub.id = id then some msg else none
    | _ => none

theorem deliveredTo_map (id : Int32) (subs : List Subscriber) (msg : M)
    (hnodup : (subs.map fun s => s.id).Nodup) :
    deliveredTo id (subs.map fun sub => .got sub none msg) =
      if subs.any fun sub => sub.id == id then [msg] else [] := by
  induction subs with
  | nil => rfl
  | cons sub subs ih =>
    obtain ⟨hfresh, hrest⟩ := List.nodup_cons.mp (List.map_cons ▸ hnodup)
    rw [List.map_cons, deliveredTo, List.filterMap_cons, ← deliveredTo, ih hrest, List.any_cons]
    by_cases hid : sub.id = id
    · have hnone : (subs.any fun sub => sub.id == id) = false := by
        rw [List.any_eq_false]
        intro t ht heq
        rw [beq_iff_eq] at heq
        exact hfresh (List.mem_map.mpr ⟨t, ht, heq.trans hid.symm⟩)
      simp [hid, hnone]
    · simp [hid]

theorem step_regular (hregular : regular e = some (msg, f)) (hstep : step s e = some s') :
    s' = s.sendWhere f msg := by
  cases e with
  | send m =>
    obtain ⟨rfl, rfl⟩ := Prod.mk.inj (Option.some.inj hregular)
    exact (Option.some.inj hstep).symm
  | sendTo m id =>
    obtain ⟨rfl, rfl⟩ := Prod.mk.inj (Option.some.inj hregular)
    exact (Option.some.inj hstep).symm
  | sendToOthers m id =>
    obtain ⟨rfl, rfl⟩ := Prod.mk.inj (Option.some.inj hregular)
    exact (Option.some.inj hstep).symm
  | sendWithout m id =>
    obtain ⟨rfl, rfl⟩ := Prod.mk.inj (Option.some.inj hregular)
    have hcomm : (fun i => id != i) = fun i => i != id := funext fun i => bne_comm
    rw [← Option.some.inj hstep, Service.sendWithout, hcomm]
  | sendVideoFrame m =>
    obtain ⟨rfl, rfl⟩ := Prod.mk.inj (Option.some.inj hregular)
    exact (Option.some.inj hstep).symm
  | onSubscribe id => cases hregular
  | onUnsubscribe id => cases hregular
  | snapshot => cases hregular
  | snapshotSend k m => cases hregular
  | snapshotEnd k ok => cases hregular

/-- A regular message reaches each subscriber it is meant for once, and nobody else. -/
theorem regular_exact (hregular : regular e = some (msg, f)) (hstep : step s e = some s') :
    ∃ marks, s'.trace = s.trace ++ marks ∧ ∀ id, deliveredTo id marks =
      if s.subscribes.has id && f id then [msg] else [] := by
  obtain rfl := step_regular s s' e msg f hregular hstep
  refine ⟨_, rfl, fun id => ?_⟩
  rw [deliveredTo_map id _ msg (nodup_filter s.subscribes.list _ s.subscribes.nodup)]
  have hany : ((s.subscribes.list.filter fun sub => f sub.id).any fun sub => sub.id == id) =
      (s.subscribes.has id && f id) := by
    rw [Bool.eq_iff_iff]
    simp only [List.any_eq_true, List.mem_filter, beq_iff_eq, Bool.and_eq_true, Subscribers.has_iff]
    constructor
    · rintro ⟨u, ⟨hu, hf⟩, rfl⟩
      exact ⟨⟨u, hu, rfl⟩, hf⟩
    · rintro ⟨⟨u, hu, rfl⟩, hf⟩
      exact ⟨u, ⟨hu, hf⟩, rfl⟩
  rw [hany]

/-! ### Snapshots before regular messages -/

/-- A regular message comes to a subscription after all messages of a snapshot whose callback has
succeeded. -/
def Prepared (before : List (Mark M)) : Mark M → Prop
  | .got sub none _ => ∃ k, .closed k true ∈ before ∧ received sub.token k before = sentBy k before
  | _ => True

/-- A callback succeeds, and nobody is new who came after its first message, unless nobody is
new. -/
def Guarded (s : Service M) : Event M → Prop
  | .snapshotEnd k ok => ∀ u ∈ s.newSubscribes.list, ok = true ∧ k ∉ u.late
  | _ => True

instance decidableGuarded (s : Service M) (e : Event M) : Decidable (Guarded s e) := by
  cases e <;> unfold Guarded <;> infer_instance

theorem sentBy_append (k : ℕ) (a b : List (Mark M)) :
    sentBy k (a ++ b) = sentBy k a ++ sentBy k b := List.filterMap_append

theorem received_append (token k : ℕ) (a b : List (Mark M)) :
    received token k (a ++ b) = received token k a ++ received token k b := List.filterMap_append

def Silent (block : List (Mark M)) : Prop :=
  ∀ k, sentBy k block = [] ∧ ∀ token, received token k block = []

/-- Whoever is subscribed has had a whole snapshot; whoever is new has had all that the running
snapshots have sent, unless it came late for them. -/
structure Fed (s : Service M) : Prop where
  needs : s.needSnapshot = true
  subscribed : ∀ u ∈ s.subscribes.list, ∃ k, k < s.snapshots ∧ k ∉ s.running ∧
    .closed k true ∈ s.trace ∧ received u.token k s.trace = sentBy k s.trace
  pending : ∀ u ∈ s.newSubscribes.list, ∀ k ∈ s.running, k ∉ u.late →
    received u.token k s.trace = sentBy k s.trace
  prepared : Always Prepared s.trace
  tokens : ∀ u ∈ s.newSubscribes.list, u.token < s.tokens
  distinct : (s.newSubscribes.list.map fun u => u.token).Nodup
  unheard : ∀ token, s.tokens ≤ token → ∀ k, received token k s.trace = []
  running_lt : ∀ k ∈ s.running, k < s.snapshots
  unsent : ∀ k, s.snapshots ≤ k → sentBy k s.trace = [] ∧ ∀ token, received token k s.trace = []

theorem sentBy_silent (k : ℕ) (trace block : List (Mark M)) (h : Silent block) :
    sentBy k (trace ++ block) = sentBy k trace := by
  rw [sentBy_append, (h k).1, List.append_nil]

theorem received_silent (token k : ℕ) (trace block : List (Mark M)) (h : Silent block) :
    received token k (trace ++ block) = received token k trace := by
  rw [received_append, (h k).2 token, List.append_nil]

/-- A block without snapshot messages changes nothing of what was sent and received. -/
theorem Fed.quiet (h : Fed s) (block : List (Mark M)) (hsilent : Silent block)
    (hprepared : Always Prepared (s.trace ++ block)) : Fed (s.note block) := by
  refine ⟨h.needs, fun u hu => ?_, fun u hu k hk hlate => ?_, hprepared, h.tokens, h.distinct,
    fun token htoken k => ?_, h.running_lt, fun k hk => ?_⟩
  · obtain ⟨k, hlt, hdone, hclosed, hall⟩ := h.subscribed u hu
    refine ⟨k, hlt, hdone, List.mem_append_left _ hclosed, ?_⟩
    simp only [Service.note, received_silent _ _ _ _ hsilent, sentBy_silent _ _ _ hsilent]
    exact hall
  · simp only [Service.note, received_silent _ _ _ _ hsilent, sentBy_silent _ _ _ hsilent]
    exact h.pending u hu k hk hlate
  · simp only [Service.note, received_silent _ _ _ _ hsilent]
    exact h.unheard token htoken k
  · simp only [Service.note, received_silent _ _ _ _ hsilent, sentBy_silent _ _ _ hsilent]
    exact h.unsent k hk

theorem silent_mark (mark : Mark M) (hsent : ∀ k msg, mark ≠ .sent k msg)
    (hgot : ∀ sub k msg, mark ≠ .got sub k msg) : Silent [mark] := by
  intro k
  cases mark with
  | subscribed i => exact ⟨rfl, fun _ => rfl⟩
  | unsubscribed i => exact ⟨rfl, fun _ => rfl⟩
  | closed j ok => exact ⟨rfl, fun _ => rfl⟩
  | sent j msg => exact absurd rfl (hsent j msg)
  | got sub j msg => exact absurd rfl (hgot sub j msg)

theorem fed_call (h : Fed s) (mark : Mark M) (hsent : ∀ k msg, mark ≠ .sent k msg)
    (hgot : ∀ sub k msg, mark ≠ .got sub k msg) : Fed (s.note [mark]) := by
  refine h.quiet s [mark] (silent_mark mark hsent hgot) ?_
  refine always_concat Prepared s.trace mark h.prepared ?_
  cases mark with
  | got sub j msg => exact absurd rfl (hgot sub j msg)
  | subscribed i => trivial
  | unsubscribed i => trivial
  | closed j ok => trivial
  | sent j msg => trivial

theorem fed_onSubscribe (h : Fed s) (i : Int32) : Fed (s.onSubscribe i) := by
  have hnoted := fed_call s h (.subscribed i) (by simp) (by simp)
  rw [Service.onSubscribe]
  split
  · exact hnoted
  · rw [if_pos h.needs]
    refine ⟨h.needs, hnoted.subscribed, fun u hu k hk hlate => ?_, hnoted.prepared,
      fun u hu => ?_, ?_,
      fun token htoken k => hnoted.unheard token (Nat.le_of_succ_le htoken) k, h.running_lt,
      hnoted.unsent⟩
    · rcases (s.newSubscribes.mem_insert (s.subscriber i) u).mp hu with ⟨hold, -⟩ | rfl
      · exact hnoted.pending u hold k hk hlate
      · -- nothing was sent yet by a snapshot for which the subscription is not late
        have hnone : sentBy k s.trace = [] := by
          by_contra hsome
          refine hlate (List.mem_filter.mpr ⟨hk, ?_⟩)
          simpa using hsome
        change received s.tokens k (s.trace ++ [.subscribed i]) = sentBy k
          (s.trace ++ [.subscribed i])
        rw [received_silent _ _ _ _ (silent_mark _ (by simp) (by simp)),
          sentBy_silent _ _ _ (silent_mark _ (by simp) (by simp)), hnone]
        exact h.unheard s.tokens (Nat.le_refl _) k
    · rcases (s.newSubscribes.mem_insert (s.subscriber i) u).mp hu with ⟨hold, -⟩ | rfl
      · exact Nat.lt_succ_of_lt (h.tokens u hold)
      · exact Nat.lt_succ_self s.tokens
    · simp only [Subscribers.insert, List.map_append, List.map_cons, List.map_nil]
      rw [List.nodup_append]
      refine ⟨h.distinct.sublist (List.Sublist.map _ List.filter_sublist),
        List.nodup_singleton _, ?_⟩
      intro a ha b hb
      obtain ⟨u, hu, rfl⟩ := List.mem_map.mp ha
      rw [List.mem_singleton.mp hb]
      exact Nat.ne_of_lt (h.tokens u (List.mem_filter.mp hu).1)

theorem fed_onUnsubscribe (h : Fed s) (i : Int32) : Fed (s.onUnsubscribe i) := by
  have hnoted := fed_call s h (.unsubscribed i) (by simp) (by simp)
  rw [Service.onUnsubscribe]
  split
  · exact ⟨h.needs, fun u hu => hnoted.subscribed u ((s.subscribes.mem_remove i u).mp hu).1,
      hnoted.pending, hnoted.prepared, h.tokens, h.distinct, hnoted.unheard, h.running_lt,
      hnoted.unsent⟩
  · exact ⟨h.needs, hnoted.subscribed,
      fun u hu => hnoted.pending u ((s.newSubscribes.mem_remove i u).mp hu).1, hnoted.prepared,
      fun u hu => h.tokens u ((s.newSubscribes.mem_remove i u).mp hu).1,
      h.distinct.sublist (List.Sublist.map _ List.filter_sublist), hnoted.unheard, h.running_lt,
      hnoted.unsent⟩

theorem fed_snapshot (h : Fed s) : Fed s.snapshot := by
  rw [Service.snapshot]
  split
  · exact h
  · refine ⟨h.needs, fun u hu => ?_, fun u hu k hk hlate => ?_, h.prepared, h.tokens, h.distinct,
      h.unheard, fun k hk => ?_, fun k hk => h.unsent k (Nat.le_of_succ_le hk)⟩
    · obtain ⟨k, hlt, hdone, hclosed, hall⟩ := h.subscribed u hu
      refine ⟨k, Nat.lt_succ_of_lt hlt, ?_, hclosed, hall⟩
      simp only [List.mem_append, List.mem_singleton, not_or]
      exact ⟨hdone, Nat.ne_of_lt hlt⟩
    · rcases List.mem_append.mp hk with hold | hnew
      · exact h.pending u hu k hold hlate
      · rw [List.mem_singleton.mp hnew]
        obtain ⟨hsent, hreceived⟩ := h.unsent s.snapshots (Nat.le_refl _)
        exact (hreceived u.token).trans hsent.symm
    · rcases List.mem_append.mp hk with hold | hnew
      · exact Nat.lt_succ_of_lt (h.running_lt k hold)
      · rw [List.mem_singleton.mp hnew]
        exact Nat.lt_succ_self s.snapshots

theorem sentBy_block (k j : ℕ) (msg : M) :
    sentBy j (.sent k msg :: subs.map fun sub => .got sub (some k) msg) =
      if k = j then [msg] else [] := by
  have hgot : sentBy j (subs.map fun sub => Mark.got sub (some k) msg) = [] := by
    simp [sentBy, List.filterMap_map]
  rw [sentBy, List.filterMap_cons, ← sentBy, hgot]
  by_cases hkj : k = j <;> simp [hkj]

theorem received_block (k j token : ℕ) (msg : M) (hdistinct : (subs.map fun u => u.token).Nodup) :
    received token j (.sent k msg :: subs.map fun sub => .got sub (some k) msg) =
      if k = j ∧ token ∈ subs.map fun u => u.token then [msg] else [] := by
  rw [received, List.filterMap_cons, ← received]
  simp only
  induction subs with
  | nil => simp [received]
  | cons sub subs ih =>
    obtain ⟨hfresh, hrest⟩ := List.nodup_cons.mp (List.map_cons ▸ hdistinct)
    rw [List.map_cons, received, List.filterMap_cons, ← received, ih hrest]
    simp only [List.map_cons, List.mem_cons]
    by_cases hkj : k = j
    · by_cases htoken : sub.token = token
      · have hnot : token ∉ subs.map fun u => u.token := htoken ▸ hfresh
        simp [hkj, htoken, hnot]
      · simp [hkj, htoken, Ne.symm htoken]
    · simp [hkj]

theorem fed_snapshotSend (h : Fed s) (k : ℕ) (msg : M) (hk : k ∈ s.running) :
    Fed (s.sendNewSubscribes k msg) := by
  have hsent (j : ℕ) := sentBy_block s.newSubscribes.list k j msg
  have hgot (token j : ℕ) := received_block s.newSubscribes.list k j token msg h.distinct
  refine ⟨h.needs, fun u hu => ?_, fun u hu j hj hlate => ?_, always_append _ _ _ h.prepared ?_,
    h.tokens, h.distinct, fun token htoken j => ?_, h.running_lt, fun j hj => ?_⟩
  · obtain ⟨j, hlt, hdone, hclosed, hall⟩ := h.subscribed u hu
    have hne : k ≠ j := fun heq => hdone (heq ▸ hk)
    refine ⟨j, hlt, hdone, List.mem_append_left _ hclosed, ?_⟩
    simp only [Service.sendNewSubscribes, Service.note, sentBy_append, received_append, hsent, hgot,
      hne, false_and, if_false, List.append_nil]
    exact hall
  · have hmem : u.token ∈ s.newSubscribes.list.map fun u => u.token := List.mem_map.mpr ⟨u, hu, rfl⟩
    simp only [Service.sendNewSubscribes, Service.note, sentBy_append, received_append, hsent, hgot,
      hmem, and_true, h.pending u hu j hj hlate]
  · intro front mark rest heq
    have hmark : mark ∈ Mark.sent k msg :: s.newSubscribes.list.map fun sub =>
        Mark.got sub (some k) msg := by
      rw [heq]
      simp
    rcases List.mem_cons.mp hmark with rfl | hmap
    · trivial
    · obtain ⟨sub, -, rfl⟩ := List.mem_map.mp hmap
      trivial
  · have hnot : token ∉ s.newSubscribes.list.map fun u => u.token := by
      intro hmem
      obtain ⟨u, hu, rfl⟩ := List.mem_map.mp hmem
      exact absurd (h.tokens u hu) (Nat.not_lt.mpr htoken)
    simp only [Service.sendNewSubscribes, Service.note, received_append, hgot, hnot, and_false,
      if_false, List.append_nil]
    exact h.unheard token htoken j
  · have hne : k ≠ j := fun heq => absurd (h.running_lt k hk) (Nat.not_lt.mpr (heq ▸ hj))
    simp only [Service.sendNewSubscribes, Service.note, sentBy_append, received_append, hsent, hgot,
      hne, false_and, if_false, List.append_nil]
    exact h.unsent j hj

theorem fed_snapshotEnd (h : Fed s) (k : ℕ) (ok : Bool) (hk : k ∈ s.running)
    (hguard : Guarded s (.snapshotEnd k ok)) : Fed (s.snapshotEnd k ok) := by
  have hnoted := fed_call s h (.closed k ok) (by simp) (by simp)
  refine ⟨h.needs, fun u hu => ?_, fun u hu => (by cases hu), hnoted.prepared, fun u hu =>
    (by cases hu),
    List.nodup_nil, hnoted.unheard, fun j hj => h.running_lt j (List.mem_filter.mp hj).1,
    hnoted.unsent⟩
  rcases Subscribers.mem_of_mem_foldl _ _ u hu with hold | hnew
  · obtain ⟨j, hlt, hdone, hclosed, hall⟩ := hnoted.subscribed u hold
    exact ⟨j, hlt, fun hj => hdone (List.mem_filter.mp hj).1, hclosed, hall⟩
  · obtain ⟨rfl, hlate⟩ := hguard u hnew
    refine ⟨k, h.running_lt k hk, ?_, List.mem_append_right _ (List.mem_singleton_self _),
      hnoted.pending u hnew k hk hlate⟩
    intro hj
    simpa using (List.mem_filter.mp hj).2

theorem silent_regular : Silent (subs.map fun sub => Mark.got sub none msg) := by
  intro k
  simp [sentBy, received, List.filterMap_map]

theorem fed_sendWhere (h : Fed s) (f : Int32 → Bool) (msg : M) : Fed (s.sendWhere f msg) := by
  refine h.quiet s _ (silent_regular _ msg) (always_append _ _ _ h.prepared ?_)
  intro front mark rest heq
  obtain ⟨seen, others, hsplit, hfront, hrest⟩ := List.map_eq_append_iff.mp heq
  obtain ⟨sub, tail, rfl, rfl, -⟩ := List.map_eq_cons_iff.mp hrest
  have hmem : sub ∈ s.subscribes.list := by
    have hfilter : sub ∈ s.subscribes.list.filter fun sub => f sub.id := by
      rw [hsplit]
      simp
    exact (List.mem_filter.mp hfilter).1
  obtain ⟨k, -, -, hclosed, hall⟩ := h.subscribed sub hmem
  have hsilent : Silent front := hfront ▸ silent_regular seen msg
  refine ⟨k, List.mem_append_left _ hclosed, ?_⟩
  rw [received_silent _ _ _ _ hsilent, sentBy_silent _ _ _ hsilent, hall]

theorem fed_step (s' : Service M) (hguard : Guarded s e) (h : Fed s)
    (hstep : step s e = some s') : Fed s' := by
  cases hregular : regular e with
  | some p =>
    rw [step_regular s s' e p.1 p.2 hregular hstep]
    exact fed_sendWhere s h p.2 p.1
  | none =>
    cases e with
    | onSubscribe id =>
      obtain rfl := Option.some.inj hstep
      exact fed_onSubscribe s h id
    | onUnsubscribe id =>
      obtain rfl := Option.some.inj hstep
      exact fed_onUnsubscribe s h id
    | snapshot =>
      obtain rfl := Option.some.inj hstep
      exact fed_snapshot s h
    | snapshotSend k msg =>
      simp only [step] at hstep
      obtain ⟨hk, rfl⟩ := of_guard hstep
      exact fed_snapshotSend s h k msg hk
    | snapshotEnd k ok =>
      simp only [step] at hstep
      obtain ⟨hk, rfl⟩ := of_guard hstep
      exact fed_snapshotEnd s h k ok hk hguard
    | send msg => cases hregular
    | sendTo msg id => cases hregular
    | sendToOthers msg id => cases hregular
    | sendWithout msg sub => cases hregular
    | sendVideoFrame msg => cases hregular

theorem fed_new : Fed (Service.new (M := M) true) :=
  ⟨rfl, fun u hu => (by cases hu), fun u hu => (by cases hu), always_nil Prepared,
    fun u hu => (by cases hu), List.nodup_nil, fun _ _ _ => rfl, fun k hk => (by cases hk),
    fun _ _ => ⟨rfl, fun _ => rfl⟩⟩

/-- The two maps stay disjoint, a message is only delivered to a connection whose last call was
`on_subscribe`, and a regular one to exactly the subscribers it is meant for. In a service that
needs a snapshot every subscription has all messages of one whole snapshot before its
first regular message, as long as no callback fails or ends with subscribers that came after its
first message. -/
theorem subscriptions_sound (needSnapshot : Bool) (events : List (Event M)) (s : Service M)
    (hexec : Runs.exec step (Service.new needSnapshot) events = some s) :
    (∀ u ∈ s.subscribes.list, ∀ v ∈ s.newSubscribes.list, u.id ≠ v.id) ∧
    Always Wanted s.trace ∧
    (∀ id, active id s.trace = true ↔ s.isSubed id = true) ∧
    (∀ e s' msg f, regular e = some (msg, f) → step s e = some s' →
      ∃ marks, s'.trace = s.trace ++ marks ∧ ∀ id, deliveredTo id marks =
        if s.subscribes.has id && f id then [msg] else []) ∧
    (needSnapshot = true → Runs.Meets Guarded step (Service.new needSnapshot) events →
      Always Prepared s.trace) := by
  have hsound := sound_of_exec needSnapshot events s hexec
  refine ⟨hsound.disjoint, hsound.wanted, fun id => ?_,
    fun e s' msg f hregular hstep => regular_exact s s' e msg f hregular hstep, ?_⟩
  · rw [hsound.active_iff id, Service.isSubed, Bool.or_eq_true]
  · rintro rfl hmeets
    exact (Runs.invariant_of_meets Guarded step Fed fed_step _ s events fed_new hmeets
      hexec).prepared

def sampleRun : List (Event ℕ) :=
  [.onSubscribe 1, .snapshot, .onSubscribe 2, .snapshotSend 0 10, .snapshotSend 0 11,
    .snapshotEnd 0 true, .sendWithout 20 1, .onUnsubscribe 2, .send 21]

theorem subscriptions_sound_sample :
    ∃ s, Runs.exec step (Service.new true) sampleRun = some s ∧
      deliveredTo 1 s.trace = [10, 11, 21] ∧ deliveredTo 2 s.trace = [10, 11, 20] ∧
      Always Prepared s.trace := by
  have htrace : (Runs.exec step (Service.new true) sampleRun).map (fun s =>
      (deliveredTo 1 s.trace, deliveredTo 2 s.trace)) = some ([10, 11, 21], [10, 11, 20]) := by
    decide
  have hmeets : Runs.Meets Guarded step (Service.new true) sampleRun := by decide
  obtain ⟨s, hexec, hgot⟩ := Option.map_eq_some_iff.mp htrace
  obtain ⟨hfirst, hsecond⟩ := Prod.mk.inj hgot
  exact ⟨s, hexec, hfirst, hsecond,
    (subscriptions_sound true sampleRun s hexec).2.2.2.2 rfl hmeets⟩

def lateRun : List (Event ℕ) :=
  [.onSubscribe 1, .snapshot, .snapshotSend 0 10, .onSubscribe 2, .snapshotEnd 0 true, .send 20]

def failedRun : List (Event ℕ) :=
  [.onSubscribe 1, .snapshot, .snapshotSend 0 10, .snapshotEnd 0 false, .send 20]

/-- A subscriber that came during the snapshot, or for whom the callback failed, gets regular
messages all the same. -/
theorem promoted_without_snapshot :
    (∃ s, Runs.exec step (Service.new true) lateRun = some s ∧ ¬ Always Prepared s.trace) ∧
      ∃ s, Runs.exec step (Service.new true) failedRun = some s ∧ ¬ Always Prepared s.trace := by
  constructor
  · have htrace : (Runs.exec step (Service.new true) lateRun).map (fun s => s.trace) =
        some ([.subscribed 1, .sent 0 10, .got ⟨1, 0, []⟩ (some 0) 10, .subscribed 2,
          .closed 0 true,
          .got ⟨1, 0, []⟩ none 20] ++ [.got ⟨2, 1, [0]⟩ none 20]) := by decide
    obtain ⟨s, hexec, hs⟩ := Option.map_eq_some_iff.mp htrace
    refine ⟨s, hexec, fun halways => ?_⟩
    obtain ⟨k, hclosed, hall⟩ := halways _ _ _ hs
    have hk : k = 0 := by simpa using hclosed
    subst hk
    revert hall
    decide
  · have htrace : (Runs.exec step (Service.new true) failedRun).map (fun s => s.trace) =
        some ([.subscribed 1, .sent 0 10, .got ⟨1, 0, []⟩ (some 0) 10, .closed 0 false] ++
          [.got ⟨1, 0, []⟩ none 20]) := by decide
    obtain ⟨s, hexec, hs⟩ := Option.map_eq_some_iff.mp htrace
    refine ⟨s, hexec, fun halways => ?_⟩
    obtain ⟨k, hclosed, -⟩ := halways _ _ _ hs
    simp at hclosed

end ClantoDesk.ServiceSubscriptions
