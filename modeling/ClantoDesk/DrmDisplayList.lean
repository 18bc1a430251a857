import ClantoDesk.Runs
import Mathlib.Data.Int.Notation
import Mathlib.Logic.Function.Basic

/-!
The lists of displays that the `_drm` service sends, src/ipc/drm.rs. A worker enumerates the
displays once for each connection, and that list is sent. Later changes reach a connection
through a generation: the thread that refreshes the cache raises it after a change, and the loop
of a connection sends the cache when it finds a generation it has not seen. The generation seen
first is read after the client has chosen a display. Displays are values of any type with the
number of the controller that drives them, 0 for none. An enumeration reads the displays at one
moment.
-/
namespace ClantoDesk.DrmDisplayList

variable {α : Type}

inductive Refresher (α : Type) where
  | begin
  | enumerate
  | write (fresh : List α)
  | bump
  | finish

/-- Where a connection is: its worker enumerates, the list is to be sent, the client chooses, the
generation is to be read, the loop runs and, inside the loop, the cache is to be read and sent. -/
inductive Phase (α : Type) where
  | enumerating
  | listed (displays : List α)
  | choosing (displays : List α)
  | chosen
  | running
  | reading
  | sending (fresh : List α)
  | closed

structure Conn (α : Type) where
  phase : Phase α
  seenGen : ℕ
  lastSent : Option (List α)

/-- The service. `notices` are changes that no request has been made for yet, `announced` the
requests that have not looked for a running thread yet, `leaving` the threads that have given up
the slot and still look for a last request. -/
structure Service (α : Type) where
  displays : List α
  cache : List α
  generation : ℕ
  pending : Bool
  notices : ℕ
  announced : ℕ
  running : Option (Refresher α)
  leaving : ℕ
  conns : ℕ → Option (Conn α)

inductive Action where
  | enumerate
  | sendList
  | choose (display : ℤ)
  | sample
  | iterate
  | readCache
  | sendChanged
  | close

inductive Event (α : Type) where
  | change (displays : List α)
  | notice
  | request
  | startRefresh (spawned : Bool)
  | refresh
  | recheck
  | accept (c : ℕ)
  | conn (c : ℕ) (action : Action)

namespace Service

def put (s : Service α) (c : ℕ) (conn : Conn α) : Service α :=
  { s with conns := Function.update s.conns c (some conn) }

/-- `schedule_drm_cache_refresh` first announces that a refresh is wanted. -/
def announce (s : Service α) : Service α :=
  { s with pending := true, announced := s.announced + 1 }

def startRefresh (s : Service α) (spawned : Bool) : Service α :=
  { s with
    announced := s.announced - 1
    running := if s.running.isNone ∧ spawned then some .begin else s.running }

def refresh [DecidableEq α] (s : Service α) : Refresher α → Service α
  | .begin => { s with pending := false, running := some .enumerate }
  | .enumerate => { s with running := some (.write s.displays) }
  | .write fresh =>
    if s.cache ≠ fresh then { s with cache := fresh, running := some .bump }
    else { s with running := some .finish }
  | .bump => { s with generation := s.generation + 1, running := some .finish }
  | .finish =>
    if s.pending then { s with running := some .begin }
    else { s with running := none, leaving := s.leaving + 1 }

/-- A thread that has given up the slot takes it again when a request came in between. -/
def recheck (s : Service α) : Service α :=
  { s with
    leaving := s.leaving - 1
    running := if s.pending ∧ s.running.isNone then some .begin else s.running }

end Service

def selected (crtcId : α → ℕ) (displays : List α) (display : ℤ) : Option α :=
  if display < 0 then none
  else (displays[display.toNat]?).filter fun d => decide (crtcId d ≠ 0)

def stepConn (crtcId : α → ℕ) (s : Service α) (conn : Conn α) : Action → Option (Conn α)
  | .enumerate =>
    match conn.phase with
    | .enumerating => some { conn with phase := .listed s.displays }
    | _ => none
  | .sendList =>
    match conn.phase with
    | .listed displays => some { conn with phase := .choosing displays, lastSent := some displays }
    | _ => none
  | .choose display =>
    match conn.phase with
    | .choosing displays =>
      some { conn with
        phase := if (selected crtcId displays display).isSome then .chosen else .closed }
    | _ => none
  | .sample =>
    match conn.phase with
    | .chosen => some { conn with phase := .running, seenGen := s.generation }
    | _ => none
  | .iterate =>
    match conn.phase with
    | .running =>
      some (if s.generation ≠ conn.seenGen then
        { conn with phase := .reading, seenGen := s.generation } else conn)
    | _ => none
  | .readCache =>
    match conn.phase with
    | .reading => some { conn with phase := .sending s.cache }
    | _ => none
  | .sendChanged =>
    match conn.phase with
    | .sending fresh => some { conn with phase := .running, lastSent := some fresh }
    | _ => none
  | .close => some { conn with phase := .closed }

def step [DecidableEq α] (crtcId : α → ℕ) (s : Service α) : Event α → Option (Service α)
  | .change displays => some { s with displays := displays, notices := s.notices + 1 }
  | .notice => if 0 < s.notices then some { s.announce with notices := s.notices - 1 } else none
  | .request => some s.announce
  | .startRefresh spawned => if 0 < s.announced then some (s.startRefresh spawned) else none
  | .refresh => s.running.map s.refresh
  | .recheck => if 0 < s.leaving then some s.recheck else none
  | .accept c => if (s.conns c).isNone then some (s.put c ⟨.enumerating, 0, none⟩) else none
  | .conn c action =>
    (s.conns c).bind fun conn => (stepConn crtcId s conn action).map fun conn' => s.put c conn'

def start (displays : List α) : Service α :=
  ⟨displays, displays, 0, false, 0, 0, none, 0, fun _ => none⟩

/-! ### What has to hold -/

structure Settled (s : Service α) : Prop where
  notices : s.notices = 0
  pending : s.pending = false
  running : s.running = none

/-- The last list sent on a connection whose loop has seen the current generation is the cache. -/
def Agrees (s : Service α) : Prop :=
  Settled s → ∀ c conn, s.conns c = some conn → conn.phase = .running →
    conn.seenGen = s.generation → conn.lastSent = some s.cache

def Bumping (s : Service α) : Prop := s.running = some .bump

def Stale (s : Service α) (conn : Conn α) : Prop :=
  conn.phase = .running ∧ conn.seenGen = s.generation ∧ conn.lastSent ≠ some s.cache

/-- The generation is not read while the list of the handshake is out of date for good, and
displays do not come back to what the cache still has while a connection waits for its refresh. -/
def Guard (s : Service α) : Event α → Prop
  | .conn c .sample => ∀ conn, s.conns c = some conn →
      conn.lastSent = some s.cache ∨ s.displays ≠ s.cache ∨ Bumping s
  | .change displays => displays ≠ s.cache ∨ Bumping s ∨
      ∀ c conn, s.conns c = some conn → ¬ Stale s conn
  | _ => True

def Refreshes (s : Service α) : Prop :=
  0 < s.notices ∨ s.pending = true ∨ s.running = some .begin ∨ s.running = some .enumerate ∨
    s.running = some (.write s.displays)

structure ConnOk (s : Service α) (conn : Conn α) : Prop where
  seen : conn.seenGen ≤ s.generation
  running : conn.phase = .running → conn.seenGen = s.generation →
    conn.lastSent = some s.cache ∨ s.displays ≠ s.cache ∨ Bumping s
  sending : ∀ fresh, conn.phase = .sending fresh → conn.seenGen = s.generation →
    fresh = s.cache ∨ Bumping s

structure Inv (s : Service α) : Prop where
  refreshes : s.displays ≠ s.cache → Refreshes s
  fresh : ∀ fresh, s.running = some (.write fresh) → fresh ≠ s.displays →
    0 < s.notices ∨ s.pending = true
  conns : ∀ c conn, s.conns c = some conn → ConnOk s conn

variable (s : Service α)

theorem inv_start (displays : List α) : Inv (start displays) := by
  refine ⟨fun h => absurd rfl h, fun fresh h => ?_, fun c conn h => ?_⟩
  · cases h
  · cases h

theorem agrees_of_inv (hinv : Inv s) : Agrees s := by
  intro hsettled c conn hconn hrunning hseen
  have hrefreshes : ¬ Refreshes s := by
    rintro (h | h | h | h | h)
    · rw [hsettled.notices] at h
      omega
    · rw [hsettled.pending] at h
      cases h
    all_goals
      rw [hsettled.running] at h
      cases h
  rcases (hinv.conns c conn hconn).running hrunning hseen with hsame | hdiffer | hbump
  · exact hsame
  · exact absurd (hinv.refreshes hdiffer) hrefreshes
  · rw [Bumping, hsettled.running] at hbump
    cases hbump

theorem connOk_same (s' : Service α) (conn : Conn α) (hgen : s'.generation = s.generation)
    (hcache : s'.cache = s.cache) (hdisplays : s'.displays = s.displays)
    (hbump : Bumping s → Bumping s') (hok : ConnOk s conn) : ConnOk s' conn := by
  refine ⟨?_, fun hrunning hseen => ?_, fun fresh hsending hseen => ?_⟩
  · rw [hgen]
    exact hok.seen
  · rw [hgen] at hseen
    rw [hcache, hdisplays]
    exact (hok.running hrunning hseen).imp_right (Or.imp_right hbump)
  · rw [hgen] at hseen
    rw [hcache]
    exact (hok.sending fresh hsending hseen).imp_right hbump

/-- Displays change, and no connection that waits for the cache to change is left behind. -/
theorem inv_change (displays : List α) (hinv : Inv s) (hguard : Guard s (.change displays)) :
    Inv { s with displays := displays, notices := s.notices + 1 } := by
  refine ⟨fun _ => Or.inl (Nat.succ_pos s.notices), fun _ _ _ => Or.inl (Nat.succ_pos s.notices),
    fun c conn hconn => ?_⟩
  have hok := hinv.conns c conn hconn
  refine ⟨hok.seen, fun hrunning hseen => ?_, hok.sending⟩
  rcases hguard with hdiffer | hbump | hnone
  · exact Or.inr (Or.inl hdiffer)
  · exact Or.inr (Or.inr hbump)
  · by_cases hsame : conn.lastSent = some s.cache
    · exact Or.inl hsame
    · exact absurd ⟨hrunning, hseen, hsame⟩ (hnone c conn hconn)

/-- A request only makes more refreshes come. -/
theorem inv_announce (notices : ℕ) (hinv : Inv s) : Inv { s.announce with notices := notices } := by
  refine ⟨fun _ => Or.inr (Or.inl rfl), fun _ _ _ => Or.inr rfl, fun c conn hconn => ?_⟩
  exact connOk_same s _ conn rfl rfl rfl id (hinv.conns c conn hconn)

/-- A thread that is started reads the displays after everything that was asked for. -/
theorem inv_spawn (announced leaving : ℕ) (hnone : s.running = none) (hinv : Inv s) :
    Inv { s with announced := announced, leaving := leaving, running := some .begin } := by
  refine ⟨fun _ => Or.inr (Or.inr (Or.inl rfl)), fun fresh h => ?_, fun c conn hconn => ?_⟩
  · cases Option.some.inj h
  refine connOk_same s _ conn rfl rfl rfl (fun hbump => ?_) (hinv.conns c conn hconn)
  rw [Bumping, hnone] at hbump
  cases hbump

theorem inv_counts (announced leaving : ℕ) (hinv : Inv s) :
    Inv { s with announced := announced, leaving := leaving } := by
  refine ⟨hinv.refreshes, hinv.fresh, fun c conn hconn => ?_⟩
  exact connOk_same s _ conn rfl rfl rfl id (hinv.conns c conn hconn)

theorem inv_startRefresh (spawned : Bool) (hinv : Inv s) : Inv (s.startRefresh spawned) := by
  unfold Service.startRefresh
  split
  · rename_i hfree
    exact inv_spawn s (s.announced - 1) s.leaving (Option.isNone_iff_eq_none.mp hfree.1) hinv
  · exact inv_counts s (s.announced - 1) s.leaving hinv

theorem inv_recheck (hinv : Inv s) : Inv s.recheck := by
  unfold Service.recheck
  split
  · rename_i hfree
    exact inv_spawn s s.announced (s.leaving - 1) (Option.isNone_iff_eq_none.mp hfree.2) hinv
  · exact inv_counts s s.announced (s.leaving - 1) hinv

/-- A change to come was noticed before the displays were read, or will be. -/
theorem noticed (hrefreshes : Refreshes s) (hbegin : s.running ≠ some .begin)
    (henumerate : s.running ≠ some .enumerate) (hwrite : s.running ≠ some (.write s.displays)) :
    0 < s.notices ∨ s.pending = true := by
  rcases hrefreshes with h | h | h | h | h
  · exact Or.inl h
  · exact Or.inr h
  · exact absurd h hbegin
  · exact absurd h henumerate
  · exact absurd h hwrite

theorem refreshes_of_noticed (h : 0 < s.notices ∨ s.pending = true) :
    Refreshes s := h.imp_right Or.inl

theorem inv_write [DecidableEq α] (s : Service α) (fresh : List α) (hinv : Inv s)
    (hrunning : s.running = some (.write fresh)) : Inv (s.refresh (.write fresh)) := by
  unfold Service.refresh
  simp only
  split
  · refine ⟨fun hdiffer => refreshes_of_noticed _ (hinv.fresh fresh hrunning (Ne.symm hdiffer)),
      fun other h => ?_, fun c conn hconn => ?_⟩
    · cases Option.some.inj h
    · have hok := hinv.conns c conn hconn
      exact ⟨hok.seen, fun _ _ => Or.inr (Or.inr rfl), fun _ _ _ => Or.inr rfl⟩
  · rename_i hsame
    have hcache : s.cache = fresh := not_not.mp hsame
    refine ⟨fun hdiffer => ?_, fun other h => ?_, fun c conn hconn => ?_⟩
    · have hne : fresh ≠ s.displays := fun h => hdiffer (h.symm.trans hcache.symm)
      exact refreshes_of_noticed _ (hinv.fresh fresh hrunning hne)
    · cases Option.some.inj h
    · refine connOk_same s _ conn rfl rfl rfl (fun hbump => ?_) (hinv.conns c conn hconn)
      rw [Bumping, hrunning] at hbump
      cases Option.some.inj hbump

theorem inv_bump [DecidableEq α] (s : Service α) (hinv : Inv s)
    (hrunning : s.running = some .bump) : Inv (s.refresh .bump) := by
  refine ⟨fun hdiffer => ?_, fun fresh h => ?_, fun c conn hconn => ?_⟩
  · refine refreshes_of_noticed _ (noticed s (hinv.refreshes hdiffer) ?_ ?_ ?_) <;>
      rw [hrunning] <;> intro h <;> cases Option.some.inj h
  · cases Option.some.inj h
  · have hseen := (hinv.conns c conn hconn).seen
    have hnew : conn.seenGen ≠ s.generation + 1 := by omega
    exact ⟨Nat.le_succ_of_le hseen, fun _ h => absurd h hnew, fun _ _ h => absurd h hnew⟩

theorem inv_finish [DecidableEq α] (s : Service α) (hinv : Inv s)
    (hrunning : s.running = some .finish) : Inv (s.refresh .finish) := by
  have hbump : ∀ s' : Service α, Bumping s → Bumping s' := by
    intro s' h
    rw [Bumping, hrunning] at h
    cases Option.some.inj h
  unfold Service.refresh
  simp only
  split
  · rename_i hpending
    refine ⟨fun _ => Or.inr (Or.inl hpending), fun _ _ _ => Or.inr hpending,
      fun c conn hconn => ?_⟩
    exact connOk_same s _ conn rfl rfl rfl (hbump _) (hinv.conns c conn hconn)
  · refine ⟨fun hdiffer => ?_, fun fresh h => ?_, fun c conn hconn => ?_⟩
    · refine refreshes_of_noticed _ (noticed s (hinv.refreshes hdiffer) ?_ ?_ ?_) <;>
        rw [hrunning] <;> intro h <;> cases Option.some.inj h
    · cases h
    · exact connOk_same s _ conn rfl rfl rfl (hbump _) (hinv.conns c conn hconn)

theorem inv_refresh [DecidableEq α] (s : Service α) (at' : Refresher α) (hinv : Inv s)
    (hrunning : s.running = some at') : Inv (s.refresh at') := by
  cases at' with
  | begin =>
    refine ⟨fun _ => Or.inr (Or.inr (Or.inr (Or.inl rfl))), fun fresh h => ?_,
      fun c conn hconn => ?_⟩
    · cases Option.some.inj h
    · refine connOk_same s _ conn rfl rfl rfl (fun hbump => ?_) (hinv.conns c conn hconn)
      rw [Bumping, hrunning] at hbump
      cases Option.some.inj hbump
  | enumerate =>
    refine ⟨fun _ => Or.inr (Or.inr (Or.inr (Or.inr rfl))), fun fresh h hne => ?_,
      fun c conn hconn => ?_⟩
    · have hfresh : s.displays = fresh := Refresher.write.inj (Option.some.inj h)
      exact absurd hfresh.symm hne
    · refine connOk_same s _ conn rfl rfl rfl (fun hbump => ?_) (hinv.conns c conn hconn)
      rw [Bumping, hrunning] at hbump
      cases Option.some.inj hbump
  | write fresh => exact inv_write s fresh hinv hrunning
  | bump => exact inv_bump s hinv hrunning
  | finish => exact inv_finish s hinv hrunning

theorem inv_put (c : ℕ) (conn : Conn α) (hinv : Inv s) (hok : ConnOk s conn) :
    Inv (s.put c conn) := by
  refine ⟨hinv.refreshes, hinv.fresh, fun d other hother => ?_⟩
  simp only [Service.put] at hother
  by_cases hd : d = c
  · subst hd
    rw [Function.update_self] at hother
    rw [← Option.some.inj hother]
    exact connOk_same s _ conn rfl rfl rfl id hok
  · rw [Function.update_of_ne hd] at hother
    exact connOk_same s _ other rfl rfl rfl id (hinv.conns d other hother)

theorem connOk_outside (conn : Conn α) (hseen : conn.seenGen ≤ s.generation)
    (hrunning : conn.phase ≠ .running) (hsending : ∀ fresh, conn.phase ≠ .sending fresh) :
    ConnOk s conn :=
  ⟨hseen, fun h => absurd h hrunning, fun fresh h => absurd h (hsending fresh)⟩

theorem connOk_step (crtcId : α → ℕ) (s : Service α) (c : ℕ) (conn conn' : Conn α)
    (action : Action) (hguard : Guard s (.conn c action)) (hconn : s.conns c = some conn)
    (hok : ConnOk s conn) (hstep : stepConn crtcId s conn action = some conn') :
    ConnOk s conn' := by
  cases action with
  | enumerate =>
    simp only [stepConn] at hstep
    split at hstep
    · obtain rfl := Option.some.inj hstep
      exact connOk_outside s _ hok.seen (by simp) (by simp)
    · cases hstep
  | sendList =>
    simp only [stepConn] at hstep
    split at hstep
    · obtain rfl := Option.some.inj hstep
      exact connOk_outside s _ hok.seen (by simp) (by simp)
    · cases hstep
  | choose display =>
    simp only [stepConn] at hstep
    split at hstep
    · obtain rfl := Option.some.inj hstep
      refine connOk_outside s _ hok.seen ?_ (fun fresh => ?_) <;> simp only <;> split <;> simp
    · cases hstep
  | sample =>
    simp only [stepConn] at hstep
    split at hstep
    · obtain rfl := Option.some.inj hstep
      exact ⟨Nat.le_refl _, fun _ _ => hguard conn hconn, fun fresh h => by simp at h⟩
    · cases hstep
  | iterate =>
    simp only [stepConn] at hstep
    split at hstep
    · obtain rfl := Option.some.inj hstep
      split
      · exact connOk_outside s _ (Nat.le_refl _) (by simp) (by simp)
      · exact hok
    · cases hstep
  | readCache =>
    simp only [stepConn] at hstep
    split at hstep
    · obtain rfl := Option.some.inj hstep
      refine ⟨hok.seen, fun h => by simp at h, fun fresh h _ => Or.inl ?_⟩
      exact (Phase.sending.inj h).symm
    · cases hstep
  | sendChanged =>
    simp only [stepConn] at hstep
    split at hstep
    · rename_i fresh hsending
      obtain rfl := Option.some.inj hstep
      refine ⟨hok.seen, fun _ hseen => ?_, fun other h => by simp at h⟩
      rcases hok.sending fresh hsending hseen with hsame | hbump
      · exact Or.inl (congrArg some hsame)
      · exact Or.inr (Or.inr hbump)
    · cases hstep
  | close =>
    obtain rfl := Option.some.inj hstep
    exact connOk_outside s _ hok.seen (by simp) (by simp)

theorem inv_step [DecidableEq α] (crtcId : α → ℕ) (s s' : Service α) (e : Event α)
    (hguard : Guard s e) (hinv : Inv s) (hstep : step crtcId s e = some s') : Inv s' := by
  cases e with
  | change displays =>
    obtain rfl := Option.some.inj hstep
    exact inv_change s displays hinv hguard
  | notice =>
    obtain ⟨-, heq⟩ := Option.ite_none_right_eq_some.mp hstep
    exact Option.some.inj heq ▸ inv_announce s (s.notices - 1) hinv
  | request =>
    obtain rfl := Option.some.inj hstep
    exact inv_announce s s.notices hinv
  | startRefresh spawned =>
    obtain ⟨-, heq⟩ := Option.ite_none_right_eq_some.mp hstep
    exact Option.some.inj heq ▸ inv_startRefresh s spawned hinv
  | refresh =>
    obtain ⟨at', hrunning, heq⟩ := Option.map_eq_some_iff.mp hstep
    exact heq ▸ inv_refresh s at' hinv hrunning
  | recheck =>
    obtain ⟨-, heq⟩ := Option.ite_none_right_eq_some.mp hstep
    exact Option.some.inj heq ▸ inv_recheck s hinv
  | accept c =>
    obtain ⟨-, heq⟩ := Option.ite_none_right_eq_some.mp hstep
    exact Option.some.inj heq ▸ inv_put s c _ hinv
      (connOk_outside s _ (Nat.zero_le s.generation) (by simp) (by simp))
  | conn c action =>
    obtain ⟨conn, hconn, hrest⟩ := Option.bind_eq_some_iff.mp hstep
    obtain ⟨conn', hconn', heq⟩ := Option.map_eq_some_iff.mp hrest
    exact heq ▸ inv_put s c conn' hinv (connOk_step crtcId s c conn conn' action hguard hconn
      (hinv.conns c conn hconn) hconn')

/-- While every step meets the guard, a settled service has sent its cache to every connection that
has seen its generation. -/
theorem lists_agree [DecidableEq α] (crtcId : α → ℕ) (displays : List α) (es : List (Event α))
    (s : Service α) (hmeets : Runs.Meets Guard (step crtcId) (start displays) es)
    (hexec : Runs.exec (step crtcId) (start displays) es = some s) : Agrees s :=
  agrees_of_inv s (Runs.invariant_of_meets Guard (step crtcId) Inv
    (fun s e t hguard hinv hstep => inv_step crtcId s t e hguard hinv hstep) (start displays) s es
    (inv_start displays) hmeets hexec)

/-- The plain case of the guard, which can be checked: the cache is the list of the handshake when
the generation is read, and a change is one. -/
def upToDate [DecidableEq α] (s : Service α) : Event α → Bool
  | .conn c .sample => (s.conns c).all fun conn => decide (conn.lastSent = some s.cache)
  | .change displays => decide (displays ≠ s.cache)
  | _ => true

theorem guard_of_upToDate [DecidableEq α] (s : Service α) (e : Event α)
    (hup : upToDate s e = true) : Guard s e := by
  cases e with
  | change displays => exact Or.inl (of_decide_eq_true hup)
  | conn c action =>
    cases action with
    | sample =>
      intro conn hconn
      rw [upToDate, hconn] at hup
      exact Or.inl (of_decide_eq_true hup)
    | _ => trivial
  | _ => trivial

/-- The first of two displays goes after the displays were read for a connection and `before` has
happened, and `after` comes then. -/
def unplug (before after : List (Event ℕ)) : List (Event ℕ) :=
  [.accept 0, .conn 0 .enumerate, .conn 0 .sendList] ++ before ++
    [.change [2], .notice, .startRefresh true, .refresh, .refresh, .refresh, .refresh, .refresh,
      .recheck] ++ after

theorem lists_agree_sample :
    ∃ s, Runs.exec (step id) (start [1, 2])
        (unplug [.conn 0 (.choose 0), .conn 0 .sample]
          [.conn 0 .iterate, .conn 0 .readCache, .conn 0 .sendChanged]) = some s ∧
      Settled s ∧ (s.conns 0).map Conn.lastSent = some (some [2]) ∧ Agrees s := by
  have hmeets := Runs.meets_of_invariant (fun s e => upToDate s e = true) Guard (step id)
    (fun _ => True) (fun _ _ _ _ _ _ => trivial) (fun s e hup _ => guard_of_upToDate s e hup)
    (start [1, 2]) (unplug [.conn 0 (.choose 0), .conn 0 .sample]
      [.conn 0 .iterate, .conn 0 .readCache, .conn 0 .sendChanged]) trivial (by decide)
  exact ⟨_, rfl, ⟨rfl, rfl, rfl⟩, rfl, lists_agree id [1, 2] _ _ hmeets rfl⟩

/-- The display goes while the client chooses. The cache has no other list to send from then on. -/
theorem removed_display_kept :
    ∃ s, Runs.exec (step id) (start [1, 2])
        (unplug [] [.conn 0 (.choose 0), .conn 0 .sample, .conn 0 .iterate]) = some s ∧
      ¬ Agrees s := by
  refine ⟨_, rfl, fun h => ?_⟩
  have hsent := h ⟨rfl, rfl, rfl⟩ 0 _ rfl rfl rfl
  exact absurd hsent (by decide)

end ClantoDesk.DrmDisplayList
