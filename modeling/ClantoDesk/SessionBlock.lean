import ClantoDesk.Connection
import Mathlib.Data.List.Dedup

/-!
Blocking the sessions of a host, src/clanto/session_grant.rs, with any number of connections
at work. A connection reads the file of the block when it checks the grant of a login; it
enters the list of sessions and the list of authorised connections after it is authorised. The
command writes the file, copies both lists and asks the connections in them to end. Each of
these points is a step of its own, so a login and the command meet in every order.
-/
namespace ClantoDesk.SessionBlock

open Connection
open SessionGrant (Host evaluate sampleHost)

inductive Task
  | idle
  | handling (result : Conn)
  | authorized
  | registered
  deriving DecidableEq

/-- A connection and the requests to disconnect it has not read yet. -/
structure Slot where
  conn : Conn
  task : Task
  inbox : List (List ℕ)

/-- `set_sessions_blocked(true)` at work. -/
inductive Command
  | none
  | wrote
  | copied (conns : List ℕ)
  deriving DecidableEq

/-- The host. A connection is known by its place in `conns`. `returned` only records: it is what
the last command that returned asked to disconnect, while the sessions stay blocked. -/
structure System where
  conns : List Slot
  active : List (ℕ × String)
  authedConns : List ℕ
  blockedFile : Bool
  enrolled : Bool
  command : Command
  returned : Option (List ℕ)

def start (enrolled blockedFile : Bool) : System := ⟨[], [], [], blockedFile, enrolled, .none, none⟩

def capacity : ℕ := 16

def Slot.deliver (conns : List ℕ) (slot : Slot) : Slot :=
  let inbox := slot.inbox ++ [conns]
  { slot with inbox := inbox.drop (inbox.length - capacity) }

def disconnect (conns : List ℕ) (s : System) : System :=
  { s with conns := s.conns.map (Slot.deliver conns) }

def System.put (s : System) (i : ℕ) (slot : Slot) : System :=
  { s with conns := s.conns.set i slot }

def reads (s : System) : Connection.Event → Bool
  | .login env _ =>
    env.host.sessionsBlocked == s.blockedFile && env.host.enrolled.isSome == s.enrolled
  | _ => true

def register (i : ℕ) (sessionId : String) (active : List (ℕ × String)) : List (ℕ × String) :=
  (i, sessionId) :: active.filter fun a => a.1 ≠ i

def unregister (i : ℕ) (active : List (ℕ × String)) : List (ℕ × String) :=
  active.filter fun a => a.1 ≠ i

inductive ConnStep
  | take (event : Connection.Event)
  | finish
  | register
  | authed
  | receive
  | forward
  | unregister
  | drop

def onConn (lib : Libraries) (s : System) (i : ℕ) (slot : Slot) : ConnStep → Option System
  | .take event =>
    if slot.task = .idle ∧ reads s event = true then
      (Connection.step lib slot.conn event).map fun r => s.put i { slot with task := .handling r }
    else none
  | .finish =>
    match slot.task with
    | .handling r =>
      let task := if r.authorized && !slot.conn.authorized then Task.authorized else Task.idle
      some (s.put i { slot with conn := r, task := task })
    | _ => none
  | .register =>
    if slot.task = .authorized then
      let s := s.put i { slot with task := .registered }
      match slot.conn.clantoGrant with
      | some grant => some { s with active := SessionBlock.register i grant.sessionId s.active }
      | none => some s
    else none
  | .authed =>
    if slot.task = .registered then
      some { s.put i { slot with task := .idle } with authedConns := s.authedConns ++ [i] }
    else none
  | .receive =>
    if slot.task = .idle ∧ slot.conn.closed = false then
      match slot.inbox with
      | conns :: inbox =>
        if i ∈ conns then
          some (s.put i { slot with conn := { slot.conn with closed := true }, inbox := inbox })
        else some (s.put i { slot with inbox := inbox })
      | [] => none
    else none
  | .forward =>
    -- the loop of a plain port forward has a subscription of its own
    if slot.task = .idle ∧ slot.conn.closed = false ∧ slot.conn.portForwardSocket = true then
      some (s.put i { slot with inbox := [] })
    else none
  | .unregister =>
    if slot.conn.closed = true then
      some { s with active := SessionBlock.unregister i s.active }
    else none
  | .drop =>
    if slot.conn.closed = true then
      some { s with authedConns := s.authedConns.filter fun j => j ≠ i }
    else none

inductive Event
  | connect (require2fa : Bool)
  | conn (i : ℕ) (step : ConnStep)
  | blockWrite (written : Bool)
  | blockCopy
  | blockReturn
  | unblock (removed : Bool)
  | closeSession (sessionId : String)
  | maxDuration (i : ℕ) (sessionId : String)
  | serverDisconnect (conns : List ℕ)
  | enroll
  | clearEnrollment

def blockedConns (s : System) (copied : List ℕ) : List ℕ :=
  ((copied ++ s.authedConns).mergeSort fun a b => decide (a ≤ b)).dedup

def step (lib : Libraries) (s : System) : Event → Option System
  | .connect require2fa =>
    some { s with conns := s.conns ++ [⟨Connection.start require2fa, .idle, []⟩] }
  | .conn i e => (s.conns[i]?).bind fun slot => onConn lib s i slot e
  | .blockWrite written =>
    if s.command = .none then
      some { s with blockedFile := s.blockedFile || written, command := .wrote }
    else none
  | .blockCopy =>
    if s.command = .wrote then
      some { s with command := .copied (s.active.map fun a => a.1) }
    else none
  | .blockReturn =>
    match s.command with
    | .copied copied =>
      let conns := blockedConns s copied
      let s := { s with command := .none, returned := some conns }
      some (if conns.isEmpty then s else disconnect conns s)
    | _ => none
  | .unblock removed =>
    if !s.blockedFile || removed then some { s with blockedFile := false, returned := none }
    else some s
  | .closeSession sessionId =>
    let conns := (s.active.filter fun a => a.2 = sessionId).map fun a => a.1
    some (if conns.isEmpty then s else disconnect conns s)
  | .maxDuration i sessionId =>
    if (i, sessionId) ∈ s.active then some (disconnect [i] s) else none
  | .serverDisconnect conns => some (disconnect conns s)
  | .enroll => some { s with enrolled := true }
  | .clearEnrollment => some { s with enrolled := false }

def Slot.admits (slot : Slot) : Bool :=
  slot.conn.authorized ||
    match slot.task with
    | .handling r => r.authorized
    | _ => false

/-- Every connection in the list has ended, as it does when it reads the request. -/
def Ended (s : System) (conns : List ℕ) : Prop :=
  ∀ i ∈ conns, ∀ slot, s.conns[i]? = some slot → slot.conn.closed = true

/-- The message is none that can admit a login checked before the block, nor one that is not
checked at all. -/
def KeepsOut (c : Conn) : Connection.Event → Prop
  | .login env _ => env.host.enrolled.isSome = true
  | .auth2fa _ => c.awaiting2fa = false
  | .switchSidesResponse env _ => env.switchUuidMatches = false
  | .authorize _ => False
  | _ => True

def NoneBetween (s : System) (copied : List ℕ) : Prop :=
  ∀ i slot, s.conns[i]? = some slot → slot.conn.closed = false → slot.task ≠ .idle →
    slot.admits = true → i ∈ copied ∨ i ∈ s.authedConns

/-- No handler is between the check of the grant and the lists when the command copies them, and
none admits a login afterwards that was not checked against the block. -/
def NoOvertaking (s : System) : Event → Prop
  | .blockReturn =>
    s.blockedFile = true ∧
      ∀ copied, s.command = .copied copied → NoneBetween s copied
  | .conn i (.take event) =>
    s.returned ≠ none → ∀ slot, s.conns[i]? = some slot →
      slot.conn.authorized = true ∨ KeepsOut slot.conn event
  | _ => True

instance decidableForallSlots (conns : List Slot) (p : ℕ → Slot → Prop)
    [hp : ∀ i slot, Decidable (p i slot)] : Decidable (∀ i slot, conns[i]? = some slot →
    p i slot) :=
  decidable_of_iff (∀ i : Fin conns.length, p i (conns.get i)) (by
    constructor
    · intro h i slot hslot
      obtain ⟨hi, rfl⟩ := List.getElem?_eq_some_iff.mp hslot
      exact h ⟨i, hi⟩
    · intro h i
      exact h i _ (List.getElem?_eq_getElem i.2))

instance decidableNoneBetween (s : System) (copied : List ℕ) : Decidable (NoneBetween s copied) :=
  decidableForallSlots s.conns _

instance decidableKeepsOut (c : Conn) : ∀ event, Decidable (KeepsOut c event)
  | .login env _ => decEq env.host.enrolled.isSome true
  | .auth2fa _ => decEq c.awaiting2fa false
  | .switchSidesResponse env _ => decEq env.switchUuidMatches false
  | .authorize _ => isFalse id
  | .switchPermission _ _ _ => isTrue trivial
  | .portForwardOpen _ => isTrue trivial
  | .close => isTrue trivial

instance decidableCopied (command : Command) (p : List ℕ → Prop)
    [hp : ∀ conns, Decidable (p conns)] :
    Decidable (∀ copied, command = .copied copied → p copied) :=
  match command with
  | .none => isTrue fun _ h => by cases h
  | .wrote => isTrue fun _ h => by cases h
  | .copied conns =>
    decidable_of_iff (p conns) ⟨fun h _ heq => Command.copied.inj heq ▸ h, fun h => h conns rfl⟩

instance decidableNoOvertaking (s : System) : ∀ event, Decidable (NoOvertaking s event)
  | .connect _ => isTrue trivial
  | .conn i (.take event) =>
    inferInstanceAs (Decidable (s.returned ≠ none → ∀ slot, s.conns[i]? = some slot →
      slot.conn.authorized = true ∨ KeepsOut slot.conn event))
  | .conn _ .finish => isTrue trivial
  | .conn _ .register => isTrue trivial
  | .conn _ .authed => isTrue trivial
  | .conn _ .receive => isTrue trivial
  | .conn _ .forward => isTrue trivial
  | .conn _ .unregister => isTrue trivial
  | .conn _ .drop => isTrue trivial
  | .blockWrite _ => isTrue trivial
  | .blockCopy => isTrue trivial
  | .blockReturn =>
    inferInstanceAs (Decidable (s.blockedFile = true ∧
      ∀ copied, s.command = .copied copied → NoneBetween s copied))
  | .unblock _ => isTrue trivial
  | .closeSession _ => isTrue trivial
  | .maxDuration _ _ => isTrue trivial
  | .serverDisconnect _ => isTrue trivial
  | .enroll => isTrue trivial
  | .clearEnrollment => isTrue trivial

variable (lib : Libraries) (s t : System) (i : ℕ) (slot : Slot)

theorem clantoCheckGrant_blocked (env : Env) (lr : LoginRequest)
    (henrolled : env.host.enrolled.isSome = true) (hblocked : env.host.sessionsBlocked = true) :
    clantoCheckGrant lib env lr = .error (env.translated SessionGrant.msgSessionsBlocked) := by
  obtain ⟨e, he⟩ := Option.isSome_iff_exists.mp henrolled
  have hdecision : (evaluate lib.codec env.host lr.clantoGrant env.times).1 =
      .refuse "sessions_blocked" SessionGrant.msgSessionsBlocked "" "" := by
    simp only [evaluate, he, hblocked, if_true]
  rw [clantoCheckGrant, hdecision]

theorem onLogin_blocked (env : Env) (lr : LoginRequest) (c : Conn)
    (hnew : c.authorized = false) (henrolled : env.host.enrolled.isSome = true)
    (hblocked : env.host.sessionsBlocked = true) : (onLogin lib env lr c).authorized = false := by
  rcases onLogin_cases lib env lr c with ⟨hauth, -⟩ | ⟨-, hended⟩ | ⟨-, -, grant, k, hgrant, -, -⟩
  · rw [hnew] at hauth
    cases hauth
  · exact hended.authorized
  · rw [clantoCheckGrant_blocked lib env lr henrolled hblocked] at hgrant
    cases hgrant

theorem step_keepsOut (c r : Conn) (event : Connection.Event)
    (hnew : c.authorized = false) (hout : KeepsOut c event)
    (hblocked : ∀ env lr, event = .login env lr → env.host.sessionsBlocked = true)
    (hstep : Connection.step lib c event = some r) : r.authorized = false := by
  unfold Connection.step at hstep
  split at hstep
  · cases hstep
  · cases event with
    | login env lr =>
      obtain rfl := Option.some.inj hstep
      exact onLogin_blocked lib env lr c hnew hout (hblocked env lr rfl)
    | auth2fa env =>
      obtain rfl := Option.some.inj hstep
      rcases onAuth2fa_cases env c with hquiet | ⟨hawaiting, -⟩
      · exact hquiet.authorized.trans hnew
      · exact absurd (hawaiting.symm.trans hout) (by decide)
    | switchSidesResponse env lr =>
      obtain rfl := Option.some.inj hstep
      rcases onSwitchSidesResponse_cases lib env lr c with hquiet | ⟨-, hauth, -⟩ | ⟨haccepted, -⟩
      · exact hquiet.authorized.trans hnew
      · exact hauth.trans hnew
      · exact absurd (haccepted.1.symm.trans hout) (by decide)
    | authorize env => exact absurd hout id
    | switchPermission env p enabled =>
      simp only at hstep
      obtain ⟨-, rfl⟩ := of_guard hstep
      exact (quiet_onSwitchPermission env p enabled c).authorized.trans hnew
    | portForwardOpen env =>
      obtain rfl := Option.some.inj hstep
      rcases quiet_onPortForwardOpen env c with hquiet | ⟨hauth, -⟩
      · exact hquiet.authorized.trans hnew
      · exact absurd (hauth.symm.trans hnew) (by decide)
    | close =>
      obtain rfl := Option.some.inj hstep
      exact hnew

/-- What holds of one connection. A handler at work has not ended its connection; unless it is on
the way to the lists, an authorised connection is listed; a block that returned has asked
every connection that is or will be authorised to end. -/
structure SlotOk (authedConns : List ℕ) (returned : Option (List ℕ)) (i : ℕ) (slot : Slot) :
    Prop where
  handling : ∀ r, slot.task = .handling r → slot.conn.closed = false
  listed : slot.conn.closed = false → slot.conn.authorized = true → slot.task ≠ .authorized →
    slot.task ≠ .registered → i ∈ authedConns
  asked : ∀ conns, returned = some conns → slot.conn.closed = false → slot.admits = true →
    i ∈ conns

structure Sealed (s : System) : Prop where
  slots : ∀ i slot, s.conns[i]? = some slot → SlotOk s.authedConns s.returned i slot
  file : s.returned ≠ none → s.blockedFile = true

theorem sealed_start (enrolled blockedFile : Bool) : Sealed (start enrolled blockedFile) := by
  refine ⟨?_, ?_⟩
  · intro i slot hslot
    simp [start] at hslot
  · intro hne
    exact absurd rfl hne

theorem Sealed.put {s : System} (h : Sealed s) (i : ℕ) (slot : Slot)
    (hslot : SlotOk s.authedConns s.returned i slot) : Sealed (s.put i slot) := by
  refine ⟨?_, h.file⟩
  intro j other hother
  have hget : (s.conns.set i slot)[j]? = some other := hother
  rw [List.getElem?_set] at hget
  split at hget
  · rename_i hij
    subst hij
    split at hget
    · exact Option.some.inj hget ▸ hslot
    · cases hget
  · exact h.slots j other hget

theorem Sealed.disconnect {s : System} (h : Sealed s) (conns : List ℕ) :
    Sealed (disconnect conns s) := by
  refine ⟨?_, h.file⟩
  intro i slot hslot
  have hget : (s.conns.map (Slot.deliver conns))[i]? = some slot := hslot
  rw [List.getElem?_map, Option.map_eq_some_iff] at hget
  obtain ⟨old, hold, rfl⟩ := hget
  have hok := h.slots i old hold
  exact ⟨hok.handling, hok.listed, hok.asked⟩

theorem SlotOk.receive {authedConns : List ℕ} {returned : Option (List ℕ)} {i : ℕ} {slot : Slot}
    (h : SlotOk authedConns returned i slot) (hidle : slot.task = .idle) (inbox : List (List ℕ))
    (closed : Bool) (hclosed : slot.conn.closed = true → closed = true) :
    SlotOk authedConns returned i
      { slot with conn := { slot.conn with closed := closed }, inbox := inbox } := by
  have hopen : closed = false → slot.conn.closed = false := by
    intro hfalse
    cases hc : slot.conn.closed with
    | false => rfl
    | true => exact (hfalse.symm.trans (hclosed hc)).symm
  refine ⟨?_, ?_, ?_⟩
  · intro r hr
    exact absurd (hidle.symm.trans hr) (by simp)
  · intro hfalse
    exact h.listed (hopen hfalse)
  · intro conns hconns hfalse
    exact h.asked conns hconns (hopen hfalse)

theorem sealed_take
    (event : Connection.Event) (hguard : NoOvertaking s (.conn i (.take event))) (h : Sealed s)
    (hslot : s.conns[i]? = some slot) (hstep : onConn lib s i slot (.take event) = some t) :
    Sealed t := by
  have hok := h.slots i slot hslot
  simp only [onConn] at hstep
  split at hstep
  · rename_i htake
    obtain ⟨hidle, hreads⟩ := htake
    obtain ⟨r, hr, rfl⟩ := Option.map_eq_some_iff.mp hstep
    have hopen : slot.conn.closed = false := by
      by_contra hne
      have hclosed : slot.conn.closed = true := by simpa using hne
      simp [Connection.step, hclosed] at hr
    refine h.put i _ ⟨fun _ _ => hopen, ?_, ?_⟩
    · intro _ hauth _ _
      exact hok.listed hopen hauth (by simp [hidle]) (by simp [hidle])
    · intro conns hconns _ hadmits
      have hreturned : s.returned ≠ none := by simp [hconns]
      by_cases hauth : slot.conn.authorized = true
      · exact hok.asked conns hconns hopen (by simp [Slot.admits, hauth])
      · have hnew : slot.conn.authorized = false := by simpa using hauth
        have hout := (hguard hreturned slot hslot).resolve_left hauth
        have hfile := h.file hreturned
        have hblocked : ∀ env lr, event = .login env lr → env.host.sessionsBlocked = true := by
          rintro env lr rfl
          simp only [reads, Bool.and_eq_true, beq_iff_eq] at hreads
          exact hreads.1.trans hfile
        have hrefused := step_keepsOut lib slot.conn r event hnew hout hblocked hr
        simp [Slot.admits, hnew, hrefused] at hadmits
  · cases hstep

theorem sealed_finish (h : Sealed s)
    (hslot : s.conns[i]? = some slot) (hstep : onConn lib s i slot .finish = some t) :
    Sealed t := by
  have hok := h.slots i slot hslot
  cases htask : slot.task with
  | handling r =>
    simp only [onConn, htask] at hstep
    obtain rfl := Option.some.inj hstep
    have hopen := hok.handling r htask
    refine h.put i _ ⟨?_, ?_, ?_⟩
    · intro r' hr'
      simp only at hr'
      split at hr' <;> cases hr'
    · intro _ hauth hne _
      have hbefore : slot.conn.authorized = true := by
        by_contra hnot
        simp only at hauth hne
        simp [hauth, hnot] at hne
      exact hok.listed hopen hbefore (by simp [htask]) (by simp [htask])
    · intro conns hconns _ hadmits
      have hauth : r.authorized = true := by
        simp only [Slot.admits, Bool.or_eq_true] at hadmits
        rcases hadmits with hauth | hfalse
        · exact hauth
        · split at hfalse
          · rename_i hr'
            split at hr' <;> cases hr'
          · cases hfalse
      exact hok.asked conns hconns hopen (by simp [Slot.admits, htask, hauth])
  | idle => simp [onConn, htask] at hstep
  | authorized => simp [onConn, htask] at hstep
  | registered => simp [onConn, htask] at hstep

theorem SlotOk.register {authedConns : List ℕ} {returned : Option (List ℕ)} {i : ℕ} {slot : Slot}
    (h : SlotOk authedConns returned i slot) :
    SlotOk authedConns returned i { slot with task := .registered } := by
  refine ⟨?_, ?_, ?_⟩
  · intro r hr
    cases hr
  · intro _ _ _ hne
    exact absurd rfl hne
  · intro conns hconns hopen hadmits
    refine h.asked conns hconns hopen ?_
    have hauth : slot.conn.authorized = true := by simpa [Slot.admits] using hadmits
    simp [Slot.admits, hauth]

theorem Sealed.of_lists {s t : System} (h : Sealed s) (hconns : t.conns = s.conns)
    (hreturned : t.returned = s.returned) (hfile : t.blockedFile = s.blockedFile)
    (hauthed : ∀ i slot, s.conns[i]? = some slot → slot.conn.closed = false →
      i ∈ s.authedConns → i ∈ t.authedConns) : Sealed t := by
  refine ⟨?_, ?_⟩
  · intro i slot hslot
    rw [hconns] at hslot
    have hok := h.slots i slot hslot
    refine ⟨hok.handling, ?_, ?_⟩
    · intro hopen hauth hne hne'
      exact hauthed i slot hslot hopen (hok.listed hopen hauth hne hne')
    · rw [hreturned]
      exact hok.asked
  · rw [hreturned, hfile]
    exact h.file

theorem sealed_authed (h : Sealed s) (hslot : s.conns[i]? = some slot) :
    Sealed { s.put i { slot with task := .idle } with authedConns := s.authedConns ++ [i] } := by
  have hwider : Sealed { s with authedConns := s.authedConns ++ [i] } :=
    h.of_lists rfl rfl rfl fun _ _ _ _ hmem => List.mem_append_left _ hmem
  have hok := hwider.slots i slot hslot
  refine hwider.put i _ ⟨?_, ?_, ?_⟩
  · intro r hr
    cases hr
  · intro _ _ _ _
    exact List.mem_append_right _ List.mem_cons_self
  · intro conns hconns hopen hadmits
    refine hok.asked conns hconns hopen ?_
    have hauth : slot.conn.authorized = true := by simpa [Slot.admits] using hadmits
    simp [Slot.admits, hauth]

theorem sealed_drop (h : Sealed s)
    (hslot : s.conns[i]? = some slot) (hclosed : slot.conn.closed = true) :
    Sealed { s with authedConns := s.authedConns.filter fun j => j ≠ i } := by
  refine h.of_lists rfl rfl rfl ?_
  intro j other hother hopen hmem
  refine List.mem_filter.mpr ⟨hmem, ?_⟩
  rw [decide_eq_true_iff]
  rintro rfl
  obtain rfl := Option.some.inj (hother.symm.trans hslot)
  rw [hclosed] at hopen
  cases hopen

theorem sealed_receive (h : Sealed s)
    (hslot : s.conns[i]? = some slot) (hstep : onConn lib s i slot .receive = some t) :
    Sealed t := by
  have hok := h.slots i slot hslot
  simp only [onConn] at hstep
  split at hstep
  · rename_i hready
    split at hstep
    · rename_i conns inbox hinbox
      split at hstep
      · obtain rfl := Option.some.inj hstep
        exact h.put i _ (hok.receive hready.1 inbox true fun _ => rfl)
      · obtain rfl := Option.some.inj hstep
        exact h.put i _ (hok.receive hready.1 inbox slot.conn.closed id)
    · cases hstep
  · cases hstep

theorem sealed_conn (e : ConnStep)
    (hguard : NoOvertaking s (.conn i e)) (h : Sealed s) (hslot : s.conns[i]? = some slot)
    (hstep : onConn lib s i slot e = some t) : Sealed t := by
  have hok := h.slots i slot hslot
  cases e with
  | take event => exact sealed_take lib s t i slot event hguard h hslot hstep
  | finish => exact sealed_finish lib s t i slot h hslot hstep
  | register =>
    simp only [onConn] at hstep
    split at hstep
    · have hput := h.put i _ hok.register
      split at hstep
      · obtain rfl := Option.some.inj hstep
        exact hput.of_lists rfl rfl rfl fun _ _ _ _ hmem => hmem
      · exact Option.some.inj hstep ▸ hput
    · cases hstep
  | authed =>
    simp only [onConn] at hstep
    split at hstep
    · exact Option.some.inj hstep ▸ sealed_authed s i slot h hslot
    · cases hstep
  | receive => exact sealed_receive lib s t i slot h hslot hstep
  | forward =>
    simp only [onConn] at hstep
    obtain ⟨hready, rfl⟩ := of_guard hstep
    exact h.put i _ (hok.receive hready.1 [] slot.conn.closed id)
  | unregister =>
    simp only [onConn] at hstep
    obtain ⟨-, rfl⟩ := of_guard hstep
    exact h.of_lists rfl rfl rfl fun _ _ _ _ hmem => hmem
  | drop =>
    simp only [onConn] at hstep
    split at hstep
    · rename_i hclosed
      exact Option.some.inj hstep ▸ sealed_drop s i slot h hslot hclosed
    · cases hstep

theorem sealed_connect (require2fa : Bool) (h : Sealed s) :
    Sealed { s with conns := s.conns ++ [⟨Connection.start require2fa, .idle, []⟩] } := by
  refine ⟨?_, h.file⟩
  intro i slot hslot
  simp only [List.getElem?_append] at hslot
  split at hslot
  · exact h.slots i slot hslot
  · obtain rfl := List.mem_singleton.mp (List.mem_of_getElem? hslot)
    refine ⟨?_, ?_, ?_⟩
    · intro r hr
      cases hr
    · intro _ hauth
      cases hauth
    · intro _ _ _ hadmits
      cases hadmits

theorem mem_blockedConns (copied : List ℕ) (i : ℕ) :
    i ∈ blockedConns s copied ↔ i ∈ copied ∨ i ∈ s.authedConns := by
  rw [blockedConns, List.mem_dedup, List.mem_mergeSort, List.mem_append]

theorem sealed_blockReturn (copied : List ℕ) (hguard : NoOvertaking s .blockReturn)
    (h : Sealed s) (hcommand : s.command = .copied copied) :
    Sealed { s with command := .none, returned := some (blockedConns s copied) } := by
  obtain ⟨hfile, hbusy⟩ := hguard
  refine ⟨?_, fun _ => hfile⟩
  intro i slot hslot
  have hok := h.slots i slot hslot
  refine ⟨hok.handling, hok.listed, ?_⟩
  intro conns hconns hopen hadmits
  obtain rfl := Option.some.inj hconns
  rw [mem_blockedConns]
  by_cases hidle : slot.task = .idle
  · have hauth : slot.conn.authorized = true := by simpa [Slot.admits, hidle] using hadmits
    exact Or.inr (hok.listed hopen hauth (by simp [hidle]) (by simp [hidle]))
  · exact hbusy copied hcommand i slot hslot hopen hidle hadmits

theorem sealed_step (event : Event)
    (hguard : NoOvertaking s event) (h : Sealed s) (hstep : step lib s event = some t) :
    Sealed t := by
  have hsame : ∀ t, t.conns = s.conns → t.authedConns = s.authedConns →
      t.returned = s.returned → (s.blockedFile = true → t.blockedFile = true) → Sealed t := by
    intro t hconns hauthed hreturned hfile
    refine ⟨?_, ?_⟩
    · rw [hconns, hauthed, hreturned]
      exact h.slots
    · rw [hreturned]
      exact fun hne => hfile (h.file hne)
  cases event with
  | connect require2fa => exact Option.some.inj hstep ▸ sealed_connect s require2fa h
  | conn i e =>
    obtain ⟨slot, hslot, hconn⟩ := Option.bind_eq_some_iff.mp hstep
    exact sealed_conn lib s t i slot e hguard h hslot hconn
  | blockWrite written =>
    simp only [step] at hstep
    obtain ⟨-, rfl⟩ := of_guard hstep
    exact hsame _ rfl rfl rfl fun hfile => by simp [hfile]
  | blockCopy =>
    simp only [step] at hstep
    obtain ⟨-, rfl⟩ := of_guard hstep
    exact hsame _ rfl rfl rfl id
  | blockReturn =>
    simp only [step] at hstep
    split at hstep
    · rename_i copied hcommand
      obtain rfl := Option.some.inj hstep
      have hreturned := sealed_blockReturn s copied hguard h hcommand
      split
      · exact hreturned
      · exact hreturned.disconnect _
    · cases hstep
  | unblock removed =>
    simp only [step] at hstep
    split at hstep
    · obtain rfl := Option.some.inj hstep
      refine ⟨?_, fun hne => absurd rfl hne⟩
      intro i slot hslot
      have hok := h.slots i slot hslot
      refine ⟨hok.handling, hok.listed, ?_⟩
      intro conns hconns
      cases hconns
    · exact Option.some.inj hstep ▸ h
  | closeSession sessionId =>
    obtain rfl := Option.some.inj hstep
    split
    · exact h
    · exact h.disconnect _
  | maxDuration i sessionId =>
    simp only [step] at hstep
    split at hstep
    · exact Option.some.inj hstep ▸ h.disconnect _
    · cases hstep
  | serverDisconnect conns => exact Option.some.inj hstep ▸ h.disconnect conns
  | enroll => exact Option.some.inj hstep ▸ hsame _ rfl rfl rfl id
  | clearEnrollment => exact Option.some.inj hstep ▸ hsame _ rfl rfl rfl id

/-- In a run in which no login overtakes a block, a block that has returned leaves no
connection authorised once those it asked to disconnect have ended, until the sessions are
unblocked. -/
theorem blocked_no_authorized (lib : Libraries) (enrolled blockedFile : Bool)
    (events : List Event) (s : System) (conns : List ℕ)
    (hmeets : Runs.Meets NoOvertaking (step lib) (start enrolled blockedFile) events)
    (hexec : Runs.exec (step lib) (start enrolled blockedFile) events = some s)
    (hreturned : s.returned = some conns) (hended : Ended s conns) (i : ℕ) (slot : Slot)
    (hslot : s.conns[i]? = some slot) (hopen : slot.conn.closed = false) :
    slot.conn.authorized = false := by
  have hsealed : Sealed s :=
    Runs.invariant_of_meets NoOvertaking (step lib) Sealed
      (fun a event b hguard ha hstep => sealed_step lib a b event hguard ha hstep)
      (start enrolled blockedFile) s events (sealed_start enrolled blockedFile) hmeets hexec
  by_contra hne
  have hauth : slot.conn.authorized = true := by simpa using hne
  have hmem := (hsealed.slots i slot hslot).asked conns hreturned hopen
      (by simp [Slot.admits, hauth])
  have hclosed := hended i hmem slot hslot
  rw [hopen] at hclosed
  cases hclosed

section Sample

def openHost : Host := { sampleHost [] with accessMode := "password" }

def sampleTake (password : List UInt8) : Event :=
  .conn 0 (.take (.login (sampleEnv openHost) (sampleLogin .remote password "")))

def blockRun : List Event :=
  [.connect false, .connect false, sampleTake [1], .conn 0 .finish, .conn 0 .register,
    .conn 0 .authed, .blockWrite true, .blockCopy, .blockReturn, .conn 0 .receive]

theorem getElem?_of_map {α β : Type} (f : α → β) (l : List α) (m : List β) (h : l.map f = m) (i : ℕ)
    (b : β) (hb : m[i]? = some b) : ∃ a, l[i]? = some a ∧ f a = b := by
  rw [← h, List.getElem?_map] at hb
  exact Option.map_eq_some_iff.mp hb

theorem blocked_no_authorized_sample :
    ∃ s slot, Runs.exec (step sampleLib) (start true false) blockRun = some s ∧
      s.returned = some [0] ∧ s.conns[1]? = some slot ∧ slot.conn.closed = false ∧
      slot.conn.authorized = false := by
  have hrun : (Runs.exec (step sampleLib) (start true false) blockRun).map
      (fun s => (s.returned, s.conns.map fun slot => slot.conn.closed)) =
      some (some [0], [true, false]) := by
    decide +kernel
  obtain ⟨s, hexec, heq⟩ := Option.map_eq_some_iff.mp hrun
  obtain ⟨hreturned, hclosed⟩ := Prod.mk.injEq .. ▸ heq
  obtain ⟨first, hfirst, hended⟩ := getElem?_of_map _ _ _ hclosed 0 true rfl
  obtain ⟨slot, hslot, hopen⟩ := getElem?_of_map _ _ _ hclosed 1 false rfl
  refine ⟨s, slot, hexec, hreturned, hslot, hopen, ?_⟩
  refine blocked_no_authorized sampleLib true false blockRun s [0] (by decide +kernel) hexec
    hreturned ?_ 1 slot hslot hopen
  intro i hi other hother
  obtain rfl := List.mem_singleton.mp hi
  exact Option.some.inj (hfirst.symm.trans hother) ▸ hended

/-- A login without a password has been checked and waits for the click of the user when the command
comes. -/
def clickRun : List Event :=
  [.connect false, sampleTake [], .conn 0 .finish, .blockWrite true, .blockCopy, .blockReturn,
    .conn 0 (.take (.authorize (sampleEnv openHost))), .conn 0 .finish]

/-- The command has returned and has asked nobody to disconnect, and the click authorises the
connection. -/
theorem click_overtakes_block :
    ∃ s slot, Runs.exec (step sampleLib) (start true false) clickRun = some s ∧
      s.blockedFile = true ∧ s.returned = some [] ∧ Ended s [] ∧ s.conns[0]? = some slot ∧
      slot.conn.closed = false ∧ slot.conn.authorized = true := by
  have hrun : (Runs.exec (step sampleLib) (start true false) clickRun).map
      (fun s => (s.blockedFile, s.returned,
        s.conns.map fun slot => (slot.conn.closed, slot.conn.authorized))) =
      some (true, some [], [(false, true)]) := by
    decide +kernel
  obtain ⟨s, hexec, heq⟩ := Option.map_eq_some_iff.mp hrun
  simp only [Prod.mk.injEq] at heq
  obtain ⟨hfile, hreturned, hconns⟩ := heq
  obtain ⟨slot, hslot, hstate⟩ := getElem?_of_map _ _ _ hconns 0 (false, true) rfl
  obtain ⟨hopen, hauth⟩ := Prod.mk.injEq .. ▸ hstate
  refine ⟨s, slot, hexec, hfile, hreturned, ?_, hslot, hopen, hauth⟩
  intro i hi
  cases hi

end Sample

end ClantoDesk.SessionBlock
