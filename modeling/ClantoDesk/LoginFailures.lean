import ClantoDesk.IpAddress
import ClantoDesk.Runs
import Mathlib.Data.List.AList

/-!
Limits on wrong passwords and wrong codes of the second factor, src/server/connection.rs. Failures
are counted for the address and, for IPv6, for the /64, /56 and /48 prefixes it is in. An attempt
reads the counts one by one, compares, and counts its own failure at the end, each under the lock
of the map but not all under one: attempts of other connections run between these steps. The
trace records comparisons, failures and refusals and decides nothing.
-/
namespace ClantoDesk.LoginFailures

open IpAddress

/-- The two maps in question: passwords, and codes of the second factor. -/
inductive Kind where
  | password
  | twoFactor
  deriving DecidableEq

inductive Key where
  | ip (address : IpAddr)
  | net (length : ℕ) (front : BitVec 128)
  deriving DecidableEq

def maskU128 (bits : BitVec 128) (length : ℕ) : BitVec 128 := bits &&& netMask 128 length

def getIpv6Prefixes : IpAddr → List Key
  | .v4 _ => []
  | .v6 bits => [.net 64 (maskU128 bits 64), .net 56 (maskU128 bits 56), .net 48 (maskU128 bits 48)]

def keysOf (ip : IpAddr) : List Key := getIpv6Prefixes ip ++ [.ip ip]

/-- The minute of the last failure, the failures in that minute and all failures. -/
structure Entry where
  last : ℤ
  minute : ℕ
  total : ℕ

def Entry.none : Entry := ⟨0, 0, 0⟩

def bumpFailureEntry (cur : Entry) (time : ℤ) : Entry :=
  if cur.last = time then ⟨cur.last, cur.minute + 1, cur.total + 1⟩
  else ⟨time, 1, cur.total + 1⟩

def threshold : Key → ℕ
  | .ip _ => 30
  | .net 64 _ => 60
  | .net 56 _ => 80
  | .net _ _ => 100

def refusal (key : Key) (failure : Entry) (time : ℤ) : Option String :=
  match key with
  | .net length _ =>
    if threshold key < failure.total then
      some ("Too many wrong attempts for IPv6 prefix /" ++ toString length)
    else none
  | .ip _ =>
    if threshold key < failure.total then some "Too many wrong attempts"
    else if time = failure.last ∧ 6 < failure.minute then some "Please try 1 minute later"
    else none

inductive Stage where
  | reading (keys : List Key)
  | passed (own : Entry)
  | compared (own : Entry) (ok : Bool)

structure Attempt where
  kind : Kind
  ip : IpAddr
  time : ℤ
  stage : Stage

inductive Mark where
  | compared (kind : Kind) (ip : IpAddr) (time : ℤ) (ok : Bool)
  | failed (kind : Kind) (ip : IpAddr) (time : ℤ)
  | refused (kind : Kind) (ip : IpAddr) (time : ℤ) (key : Key) (text : String)
  deriving DecidableEq

abbrev Failures := Kind → Key → Option Entry

structure Host where
  failures : Failures
  attempts : AList fun _ : ℕ => Attempt
  now : ℤ
  trace : List Mark

namespace Host

def new : Host := ⟨fun _ _ => none, ∅, 0, []⟩

def entry (s : Host) (kind : Kind) (key : Key) : Entry := (s.failures kind key).getD .none

def bump (failures : Failures) (kind : Kind) (keys : List Key) (time : ℤ) : Failures :=
  fun k key =>
    if kind = k ∧ key ∈ keys then
      some (bumpFailureEntry ((failures k key).getD .none) time)
    else failures k key

def remove (failures : Failures) (kind : Kind) (keys : List Key) : Failures :=
  fun k key => if kind = k ∧ key ∈ keys then none else failures k key

def begin (s : Host) (conn : ℕ) (kind : Kind) (ip : IpAddr) (time : ℤ) : Host :=
  { s with
    attempts := s.attempts.insert conn ⟨kind, ip, time, .reading (keysOf ip)⟩
    now := time }

def refuse (s : Host) (conn : ℕ) (attempt : Attempt) (key : Key) (text : String) : Host :=
  { s with
    attempts := s.attempts.erase conn
    trace := s.trace ++ [.refused attempt.kind attempt.ip attempt.time key text] }

def move (s : Host) (conn : ℕ) (attempt : Attempt) (stage : Stage) : Host :=
  { s with attempts := s.attempts.insert conn { attempt with stage := stage } }

/-- The next count of `check_failure`. -/
def read (s : Host) (conn : ℕ) (attempt : Attempt) (key : Key) (rest : List Key) : Host :=
  match refusal key (s.entry attempt.kind key) attempt.time with
  | some text => s.refuse conn attempt key text
  | none =>
    s.move conn attempt
      (if rest.isEmpty then .passed (s.entry attempt.kind key) else .reading rest)

def compare (s : Host) (conn : ℕ) (attempt : Attempt) (own : Entry) : Option Bool → Host
  | none => { s with attempts := s.attempts.erase conn }
  | some ok =>
    { s.move conn attempt (.compared own ok) with
      trace := s.trace ++ [.compared attempt.kind attempt.ip attempt.time ok] }

def updateFailure (s : Host) (conn : ℕ) (attempt : Attempt) (own : Entry) (ok : Bool) : Host :=
  if ok then
    { s with
      attempts := s.attempts.erase conn
      failures := if own.last ≠ 0 then remove s.failures attempt.kind (keysOf attempt.ip)
        else s.failures }
  else
    { s with
      attempts := s.attempts.erase conn
      failures := bump s.failures attempt.kind (keysOf attempt.ip) attempt.time
      trace := s.trace ++ [.failed attempt.kind attempt.ip attempt.time] }

end Host

inductive Event where
  | begin (conn : ℕ) (kind : Kind) (ip : IpAddr) (time : ℤ)
  | read (conn : ℕ)
  | compare (conn : ℕ) (outcome : Option Bool)
  | update (conn : ℕ)

def step (s : Host) : Event → Option Host
  | .begin conn kind ip time =>
    if (s.attempts.lookup conn).isNone then some (s.begin conn kind ip time) else none
  | .read conn =>
    match s.attempts.lookup conn with
    | some attempt =>
      match attempt.stage with
      | .reading (key :: rest) => some (s.read conn attempt key rest)
      | _ => none
    | none => none
  | .compare conn outcome =>
    match s.attempts.lookup conn with
    | some attempt =>
      match attempt.stage with
      | .passed own => some (s.compare conn attempt own outcome)
      | _ => none
    | none => none
  | .update conn =>
    match s.attempts.lookup conn with
    | some attempt =>
      match attempt.stage with
      | .compared own ok => some (s.updateFailure conn attempt own ok)
      | _ => none
    | none => none

inductive Steps (s : Host) : Event → Host → Prop
  | begin (conn : ℕ) (kind : Kind) (ip : IpAddr) (time : ℤ)
      (hfree : s.attempts.lookup conn = none) :
      Steps s (.begin conn kind ip time) (s.begin conn kind ip time)
  | refuse (conn : ℕ) (attempt : Attempt) (key : Key) (rest : List Key) (text : String)
      (hat : s.attempts.lookup conn = some attempt)
        (hstage : attempt.stage = .reading (key :: rest))
      (htext : refusal key (s.entry attempt.kind key) attempt.time = some text) :
      Steps s (.read conn) (s.refuse conn attempt key text)
  | read (conn : ℕ) (attempt : Attempt) (key : Key) (rest : List Key)
      (hat : s.attempts.lookup conn = some attempt)
        (hstage : attempt.stage = .reading (key :: rest))
      (hnone : refusal key (s.entry attempt.kind key) attempt.time = none) :
      Steps s (.read conn) (s.move conn attempt
        (if rest.isEmpty then .passed (s.entry attempt.kind key) else .reading rest))
  | abandon (conn : ℕ) (attempt : Attempt) (own : Entry)
      (hat : s.attempts.lookup conn = some attempt) (hstage : attempt.stage = .passed own) :
      Steps s (.compare conn none) (s.compare conn attempt own none)
  | compare (conn : ℕ) (attempt : Attempt) (own : Entry) (ok : Bool)
      (hat : s.attempts.lookup conn = some attempt) (hstage : attempt.stage = .passed own) :
      Steps s (.compare conn (some ok)) (s.compare conn attempt own (some ok))
  | update (conn : ℕ) (attempt : Attempt) (own : Entry) (ok : Bool)
      (hat : s.attempts.lookup conn = some attempt) (hstage : attempt.stage = .compared own ok) :
      Steps s (.update conn) (s.updateFailure conn attempt own ok)

theorem steps_of_step (s s' : Host) (e : Event) (h : step s e = some s') : Steps s e s' := by
  cases e with
  | begin conn kind ip time =>
    simp only [step] at h
    obtain ⟨hfree, rfl⟩ := of_guard h
    exact .begin conn kind ip time (Option.isNone_iff_eq_none.mp hfree)
  | read conn =>
    simp only [step] at h
    split at h
    · rename_i attempt hat
      split at h
      · rename_i key rest hstage
        obtain rfl := Option.some.inj h
        rw [Host.read]
        split
        · rename_i text htext
          exact .refuse conn attempt key rest text hat hstage htext
        · rename_i hnone
          exact .read conn attempt key rest hat hstage hnone
      · cases h
    · cases h
  | compare conn outcome =>
    simp only [step] at h
    split at h
    · rename_i attempt hat
      split at h
      · rename_i own hstage
        obtain rfl := Option.some.inj h
        cases outcome with
        | none => exact .abandon conn attempt own hat hstage
        | some ok => exact .compare conn attempt own ok hat hstage
      · cases h
    · cases h
  | update conn =>
    simp only [step] at h
    split at h
    · rename_i attempt hat
      split at h
      · rename_i own ok hstage
        obtain rfl := Option.some.inj h
        exact .update conn attempt own ok hat hstage
      · cases h
    · cases h

theorem failures_updateFailure (s : Host) (kind : Kind) (key : Key) (conn : ℕ) (attempt : Attempt)
    (own : Entry) (ok : Bool) :
    (s.updateFailure conn attempt own ok).failures kind key =
      if attempt.kind = kind ∧ key ∈ keysOf attempt.ip then
        if ok then (if own.last ≠ 0 then none else s.failures kind key)
        else some (bumpFailureEntry (s.entry kind key) attempt.time)
      else s.failures kind key := by
  rw [Host.updateFailure]
  cases ok with
  | true =>
    by_cases hlast : own.last ≠ 0
    · simp only [if_true, hlast, ne_eq, not_false_eq_true, Host.remove]
    · simp only [if_true, hlast, if_false, ite_self]
  | false => simp only [Bool.false_eq_true, if_false, Host.bump, Host.entry]

theorem attempts_updateFailure (s : Host) (conn : ℕ) (attempt : Attempt) (own : Entry) (ok : Bool) :
    (s.updateFailure conn attempt own ok).attempts = s.attempts.erase conn := by
  rw [Host.updateFailure]
  split <;> rfl

/-! ### Counting -/

def wrongNext (kind : Kind) (key : Key) (counts : ℤ → Bool) (n : ℕ) : Mark → ℕ
  | .compared k ip time ok =>
    if k = kind ∧ key ∈ keysOf ip then if ok then 0 else if counts time then n + 1 else n else n
  | _ => n

/-- Wrong comparisons of addresses that share the key, since one of them succeeded last, in attempts
that began in a minute that counts. -/
def wrongs (kind : Kind) (key : Key) (counts : ℤ → Bool) (trace : List Mark) : ℕ :=
  trace.foldl (wrongNext kind key counts) 0

@[simp] theorem wrongs_concat (kind : Kind) (key : Key) (counts : ℤ → Bool) (trace : List Mark)
    (mark : Mark) : wrongs kind key counts (trace ++ [mark]) =
      wrongNext kind key counts (wrongs kind key counts trace) mark := by
  rw [wrongs, List.foldl_append]
  rfl

abbrev Attempts := AList fun _ : ℕ => Attempt

def Busy (attempts : Attempts) (kind : Kind) (key : Key) (conn : ℕ) (attempt : Attempt) : Prop :=
  attempts.lookup conn = some attempt ∧ attempt.kind = kind ∧ key ∈ keysOf attempt.ip

/-- An attempt that counts for the key begins only when no other such attempt is on its way. -/
def Serial (kind : Kind) (key : Key) (s : Host) : Event → Prop
  | .begin _ k ip _ => k = kind → key ∈ keysOf ip →
      ∀ e ∈ s.attempts.entries, ¬ (e.2.kind = kind ∧ key ∈ keysOf e.2.ip)
  | _ => True

variable (cur : Entry) (attempts : Attempts) (kind : Kind) (address : IpAddr) (minute time : ℤ)
  (e : Entry) (key : Key) (conn : ℕ) (events : List Event) (s : Host)

theorem busy_insert (c : ℕ)
    (attempt a : Attempt) (h : Busy (attempts.insert conn attempt) kind key c a) :
    (c = conn ∧ a = attempt ∧ attempt.kind = kind ∧ key ∈ keysOf attempt.ip) ∨
      (c ≠ conn ∧ Busy attempts kind key c a) := by
  obtain ⟨hlookup, hkind, hkey⟩ := h
  by_cases hc : c = conn
  · rw [hc, AList.lookup_insert] at hlookup
    obtain rfl := Option.some.inj hlookup
    exact Or.inl ⟨hc, rfl, hkind, hkey⟩
  · rw [AList.lookup_insert_ne hc] at hlookup
    exact Or.inr ⟨hc, hlookup, hkind, hkey⟩

theorem busy_erase (c : ℕ) (a : Attempt)
    (h : Busy (attempts.erase conn) kind key c a) : c ≠ conn ∧ Busy attempts kind key c a := by
  obtain ⟨hlookup, hkind, hkey⟩ := h
  by_cases hc : c = conn
  · rw [hc, AList.lookup_erase] at hlookup
    cases hlookup
  · rw [AList.lookup_erase_ne hc] at hlookup
    exact ⟨hc, hlookup, hkind, hkey⟩

theorem Busy.insert_other {attempts : Attempts} {kind : Kind} {key : Key} {c : ℕ} {a : Attempt}
    (h : Busy attempts kind key c a) (conn : ℕ) (attempt : Attempt) (hne : c ≠ conn) :
    Busy (attempts.insert conn attempt) kind key c a :=
  ⟨(AList.lookup_insert_ne hne).trans h.1, h.2⟩

theorem Busy.erase_other {attempts : Attempts} {kind : Kind} {key : Key} {c : ℕ} {a : Attempt}
    (h : Busy attempts kind key c a) (conn : ℕ) (hne : c ≠ conn) :
    Busy (attempts.erase conn) kind key c a :=
  ⟨(AList.lookup_erase_ne hne).trans h.1, h.2⟩

theorem Busy.eq_attempt {attempts : Attempts} {kind : Kind} {key : Key} {c : ℕ}
    {a attempt : Attempt}
    (h : Busy attempts kind key c a) (hat : attempts.lookup c = some attempt) : a = attempt :=
  Option.some.inj (h.1.symm.trans hat)

theorem Busy.ne_of_stage {attempts : Attempts} {kind : Kind} {key : Key} {c conn : ℕ}
    {a attempt : Attempt} (h : Busy attempts kind key c a)
    (hat : attempts.lookup conn = some attempt) (hstage : a.stage ≠ attempt.stage) : c ≠ conn := by
  rintro rfl
  exact hstage (h.eq_attempt hat ▸ rfl)

theorem Busy.mem_entries {attempts : Attempts} {kind : Kind} {key : Key} {c : ℕ} {a : Attempt}
    (h : Busy attempts kind key c a) : ⟨c, a⟩ ∈ attempts.entries :=
  AList.mem_lookup_iff.mp h.1

def Unread (key : Key) (attempt : Attempt) : Prop :=
  ∃ keys, attempt.stage = .reading keys ∧ key ∈ keys

/-- What is bounded: wrong comparisons for a key in minutes that count, by what the entry of the key
says of them. -/
structure Meter where
  kind : Kind
  key : Key
  counts : ℤ → Bool
  cap : Option Entry → ℕ
  limit : ℕ
  cap_none : cap none = 0

namespace Meter

variable (m : Meter)

def count (s : Host) : ℕ := wrongs m.kind m.key m.counts s.trace

def reading (s : Host) : ℕ := m.cap (s.failures m.kind m.key)

def weight (time : ℤ) : ℕ := if m.counts time then 1 else 0

def bumped (s : Host) (time : ℤ) : ℕ :=
  m.cap (some (bumpFailureEntry (s.entry m.kind m.key) time))

/-- The check and the counting fit the meter in this state, for attempts that count for its key. -/
structure Fits (s : Host) : Prop where
  check : ∀ c a, Busy s.attempts m.kind m.key c a → m.reading s ≤ m.limit →
    refusal m.key (s.entry m.kind m.key) a.time = none → m.reading s + m.weight a.time ≤ m.limit
  bump : ∀ c a, Busy s.attempts m.kind m.key c a → m.reading s + m.weight a.time ≤ m.limit →
    m.reading s + m.weight a.time ≤ m.bumped s a.time ∧ m.bumped s a.time ≤ m.limit

/-- At most one attempt counts for the key at a time. Once it has read the key there is room for its
failure; between its comparison and its update the entry is behind by its weight. -/
structure Tally (s : Host) : Prop where
  single : ∀ c c' a a', Busy s.attempts m.kind m.key c a → Busy s.attempts m.kind m.key c' a' →
    c = c'
  passed : ∀ c a, Busy s.attempts m.kind m.key c a →
    Unread m.key a ∨ m.reading s + m.weight a.time ≤ m.limit
  balance : m.count s ≤ m.reading s ∨
    ∃ c a own, Busy s.attempts m.kind m.key c a ∧ a.stage = .compared own false ∧
      m.count s ≤ m.reading s + m.weight a.time
  cleared : ∀ c a own, Busy s.attempts m.kind m.key c a → a.stage = .compared own true →
    m.count s = 0
  bounded : m.reading s ≤ m.limit

variable {m} {s : Host}

theorem Tally.room (h : m.Tally s) (c : ℕ) (a : Attempt) (hbusy : Busy s.attempts m.kind m.key c a)
    (hstage : ∀ keys, a.stage ≠ .reading keys) : m.reading s + m.weight a.time ≤ m.limit := by
  rcases h.passed c a hbusy with ⟨keys, hkeys, -⟩ | hroom
  · exact absurd hkeys (hstage keys)
  · exact hroom

theorem Tally.count_le (h : m.Tally s) : m.count s ≤ m.limit := by
  rcases h.balance with hle | ⟨c, a, own, hbusy, hstage, hle⟩
  · exact Nat.le_trans hle h.bounded
  · exact Nat.le_trans hle (h.room c a hbusy (by simp [hstage]))

theorem Tally.begin (h : m.Tally s) (conn : ℕ) (k : Kind) (ip : IpAddr) (time : ℤ)
    (hfree : s.attempts.lookup conn = none)
    (hguard : Serial m.kind m.key s (.begin conn k ip time)) :
    m.Tally (s.begin conn k ip time) := by
  have hother : ∀ c a, Busy s.attempts m.kind m.key c a → c ≠ conn := by
    rintro c a hbusy rfl
    exact absurd (hfree.symm.trans hbusy.1) (by simp)
  refine ⟨fun c c' a a' hc hc' => ?_, fun c a hc => ?_, ?_, fun c a own hc hstage => ?_, h.bounded⟩
  · rcases busy_insert _ _ _ _ _ _ _ hc with ⟨rfl, -, hkind, hkey⟩ | ⟨-, hold⟩
    · rcases busy_insert _ _ _ _ _ _ _ hc' with ⟨rfl, -⟩ | ⟨-, hold'⟩
      · rfl
      · exact absurd hold'.2 (hguard hkind hkey _ hold'.mem_entries)
    · rcases busy_insert _ _ _ _ _ _ _ hc' with ⟨-, -, hkind, hkey⟩ | ⟨-, hold'⟩
      · exact absurd hold.2 (hguard hkind hkey _ hold.mem_entries)
      · exact h.single c c' a a' hold hold'
  · rcases busy_insert _ _ _ _ _ _ _ hc with ⟨-, rfl, -, hkey⟩ | ⟨-, hold⟩
    · exact Or.inl ⟨_, rfl, hkey⟩
    · exact h.passed c a hold
  · rcases h.balance with hle | ⟨c, a, own, hbusy, hstage, hle⟩
    · exact Or.inl hle
    · exact Or.inr ⟨c, a, own, hbusy.insert_other conn _ (hother c a hbusy), hstage, hle⟩
  · rcases busy_insert _ _ _ _ _ _ _ hc with ⟨-, rfl, -⟩ | ⟨-, hold⟩
    · cases hstage
    · exact h.cleared c a own hold hstage

theorem Tally.leave (h : m.Tally s) (s' : Host) (conn : ℕ) (attempt : Attempt)
    (hat : s.attempts.lookup conn = some attempt)
    (hstage : Busy s.attempts m.kind m.key conn attempt →
    ∀ own ok, attempt.stage ≠ .compared own ok)
    (hattempts : s'.attempts = s.attempts.erase conn)
    (hreading : m.reading s' = m.reading s) (hcount : m.count s' = m.count s) : m.Tally s' := by
  refine ⟨fun c c' a a' hc hc' => ?_, fun c a hc => ?_, ?_, fun c a own hc hcompared => ?_, ?_⟩
  · rw [hattempts] at hc hc'
    exact h.single c c' a a' (busy_erase _ _ _ _ _ _ hc).2 (busy_erase _ _ _ _ _ _ hc').2
  · rw [hattempts] at hc
    rw [hreading]
    exact h.passed c a (busy_erase _ _ _ _ _ _ hc).2
  · rw [hattempts, hreading, hcount]
    rcases h.balance with hle | ⟨c, a, own, hbusy, hcompared, hle⟩
    · exact Or.inl hle
    · have hne : c ≠ conn := by
        rintro rfl
        obtain rfl := hbusy.eq_attempt hat
        exact hstage hbusy own false hcompared
      exact Or.inr ⟨c, a, own, hbusy.erase_other conn hne, hcompared, hle⟩
  · rw [hattempts] at hc
    rw [hcount]
    exact h.cleared c a own (busy_erase _ _ _ _ _ _ hc).2 hcompared
  · rw [hreading]
    exact h.bounded

theorem Tally.read (h : m.Tally s) (hfits : m.Fits s) (conn : ℕ) (attempt : Attempt) (next : Key)
    (rest : List Key) (hat : s.attempts.lookup conn = some attempt)
    (hstage : attempt.stage = .reading (next :: rest))
    (hnone : refusal next (s.entry attempt.kind next) attempt.time = none) :
    m.Tally (s.move conn attempt
      (if rest.isEmpty then .passed (s.entry attempt.kind next) else .reading rest)) := by
  have hnot : ∀ own ok, (if rest.isEmpty then Stage.passed (s.entry attempt.kind next)
      else .reading rest) ≠ .compared own ok := by
    intro own ok
    split <;> simp
  refine ⟨fun c c' a a' hc hc' => ?_, fun c a hc => ?_, ?_, fun c a own hc hcompared => ?_,
    h.bounded⟩
  · rcases busy_insert _ _ _ _ _ _ _ hc with ⟨rfl, -, hkind, hkey⟩ | ⟨-, hold⟩
    · rcases busy_insert _ _ _ _ _ _ _ hc' with ⟨rfl, -⟩ | ⟨-, hold'⟩
      · rfl
      · exact h.single _ _ attempt a' ⟨hat, hkind, hkey⟩ hold'
    · rcases busy_insert _ _ _ _ _ _ _ hc' with ⟨rfl, -, hkind, hkey⟩ | ⟨-, hold'⟩
      · exact h.single _ _ a attempt hold ⟨hat, hkind, hkey⟩
      · exact h.single c c' a a' hold hold'
  · rcases busy_insert _ _ _ _ _ _ _ hc with ⟨-, rfl, hkind, hkey⟩ | ⟨-, hold⟩
    · have hbusy : Busy s.attempts m.kind m.key conn attempt := ⟨hat, hkind, hkey⟩
      by_cases hnext : next = m.key
      · have hkind' : attempt.kind = m.kind := hkind
        rw [hnext, hkind'] at hnone
        exact Or.inr (hfits.check conn attempt hbusy h.bounded hnone)
      · rcases h.passed conn attempt hbusy with ⟨keys, hkeys, hmem⟩ | hroom
        · rw [hstage] at hkeys
          obtain rfl := Stage.reading.inj hkeys
          have hrest : m.key ∈ rest := by
            rcases List.mem_cons.mp hmem with heq | hrest
            · exact absurd heq.symm hnext
            · exact hrest
          have hne : rest.isEmpty = false := by
            rw [List.isEmpty_eq_false_iff]
            exact List.ne_nil_of_mem hrest
          refine Or.inl ⟨rest, ?_, hrest⟩
          simp [hne]
        · exact Or.inr hroom
    · exact h.passed c a hold
  · rcases h.balance with hle | ⟨c, a, own, hbusy, hcompared, hle⟩
    · exact Or.inl hle
    · have hne : c ≠ conn := hbusy.ne_of_stage hat (by rw [hcompared, hstage]; simp)
      exact Or.inr ⟨c, a, own, hbusy.insert_other conn _ hne, hcompared, hle⟩
  · rcases busy_insert _ _ _ _ _ _ _ hc with ⟨-, rfl, -⟩ | ⟨-, hold⟩
    · exact absurd hcompared (hnot own true)
    · exact h.cleared c a own hold hcompared

theorem Tally.compare (h : m.Tally s) (conn : ℕ) (attempt : Attempt) (own : Entry) (ok : Bool)
    (hat : s.attempts.lookup conn = some attempt) (hstage : attempt.stage = .passed own) :
    m.Tally (s.compare conn attempt own (some ok)) := by
  have hcount : m.count (s.compare conn attempt own (some ok)) = wrongNext m.kind m.key m.counts
      (m.count s) (.compared attempt.kind attempt.ip attempt.time ok) := wrongs_concat ..
  by_cases hin : attempt.kind = m.kind ∧ m.key ∈ keysOf attempt.ip
  · have hbusy : Busy s.attempts m.kind m.key conn attempt := ⟨hat, hin⟩
    have honly : ∀ c a, Busy (s.attempts.insert conn { attempt with stage := .compared own ok })
        m.kind m.key c a → c = conn ∧ a = { attempt with stage := .compared own ok } := by
      intro c a hc
      rcases busy_insert _ _ _ _ _ _ _ hc with ⟨rfl, ha, -⟩ | ⟨hne, hold⟩
      · exact ⟨rfl, ha⟩
      · exact absurd (h.single c conn a attempt hold hbusy) hne
    have hroom := h.room conn attempt hbusy (by simp [hstage])
    have hle : m.count s ≤ m.reading s := by
      rcases h.balance with hle | ⟨c, a, own', hother, hcompared, -⟩
      · exact hle
      · have hne := hother.ne_of_stage hat (by rw [hcompared, hstage]; simp)
        exact absurd (h.single c conn a attempt hother hbusy) hne
    simp only [wrongNext, hin, and_self, if_true] at hcount
    refine ⟨fun c c' a a' hc hc' => (honly c a hc).1.trans (honly c' a' hc').1.symm,
      fun c a hc => ?_, ?_, fun c a own' hc hcompared => ?_, h.bounded⟩
    · rw [(honly c a hc).2]
      exact Or.inr hroom
    · rw [hcount]
      cases ok with
      | true => exact Or.inl (Nat.zero_le _)
      | false =>
        refine Or.inr ⟨conn, { attempt with stage := .compared own false }, own,
          ⟨AList.lookup_insert _, hin⟩, rfl, ?_⟩
        change (if m.counts attempt.time = true then m.count s + 1 else m.count s) ≤
          m.reading s + if m.counts attempt.time = true then 1 else 0
        split <;> omega
    · rw [hcount]
      rw [(honly c a hc).2] at hcompared
      obtain ⟨-, rfl⟩ := Stage.compared.inj hcompared
      rfl
  · simp only [wrongNext, hin, if_false] at hcount
    have hold : ∀ c a, Busy (s.attempts.insert conn { attempt with stage := .compared own ok })
        m.kind m.key c a → Busy s.attempts m.kind m.key c a := by
      intro c a hc
      rcases busy_insert _ _ _ _ _ _ _ hc with ⟨-, -, hkind, hkey⟩ | ⟨-, hbusy⟩
      · exact absurd ⟨hkind, hkey⟩ hin
      · exact hbusy
    refine ⟨fun c c' a a' hc hc' => h.single c c' a a' (hold c a hc) (hold c' a' hc'),
      fun c a hc => h.passed c a (hold c a hc), ?_, fun c a own' hc hcompared => ?_, h.bounded⟩
    · rw [hcount]
      rcases h.balance with hle | ⟨c, a, own', hbusy, hcompared, hle⟩
      · exact Or.inl hle
      · have hne := hbusy.ne_of_stage hat (by rw [hcompared, hstage]; simp)
        exact Or.inr ⟨c, a, own', hbusy.insert_other conn _ hne, hcompared, hle⟩
    · rw [hcount]
      exact h.cleared c a own' (hold c a hc) hcompared

theorem count_updateFailure (m : Meter) (s : Host) (conn : ℕ) (attempt : Attempt) (own : Entry)
    (ok : Bool) : m.count (s.updateFailure conn attempt own ok) = m.count s := by
  rw [Host.updateFailure]
  split
  · rfl
  · simp [count, wrongNext]

theorem Tally.update (h : m.Tally s) (hfits : m.Fits s) (conn : ℕ) (attempt : Attempt) (own : Entry)
    (ok : Bool) (hat : s.attempts.lookup conn = some attempt)
    (hstage : attempt.stage = .compared own ok) :
    m.Tally (s.updateFailure conn attempt own ok) := by
  have hfailures := failures_updateFailure s m.kind m.key conn attempt own ok
  have hcount := m.count_updateFailure s conn attempt own ok
  have hattempts := attempts_updateFailure s conn attempt own ok
  by_cases hin : attempt.kind = m.kind ∧ m.key ∈ keysOf attempt.ip
  · have hbusy : Busy s.attempts m.kind m.key conn attempt := ⟨hat, hin⟩
    have hnobody : ∀ c a, ¬ Busy (s.updateFailure conn attempt own ok).attempts m.kind
        m.key c a := by
      intro c a hc
      rw [hattempts] at hc
      obtain ⟨hne, hold⟩ := busy_erase _ _ _ _ _ _ hc
      exact hne (h.single c conn a attempt hold hbusy)
    have hroom := h.room conn attempt hbusy (by simp [hstage])
    obtain ⟨hgrown, hlimit⟩ := hfits.bump conn attempt hbusy hroom
    rw [if_pos hin] at hfailures
    refine ⟨fun c _ a _ hc => absurd hc (hnobody c a), fun c a hc => absurd hc (hnobody c a), ?_,
      fun c a _ hc => absurd hc (hnobody c a), ?_⟩
    · cases ok with
      | true =>
        rw [hcount, h.cleared conn attempt own hbusy hstage]
        exact Or.inl (Nat.zero_le _)
      | false =>
        refine Or.inl ?_
        rw [hcount, reading, hfailures]
        rcases h.balance with hle | ⟨c, a, own', hother, -, hle⟩
        · exact Nat.le_trans hle (Nat.le_trans (Nat.le_add_right _ _) hgrown)
        · obtain rfl := h.single c conn a attempt hother hbusy
          rw [hother.eq_attempt hat] at hle
          exact Nat.le_trans hle hgrown
    · rw [reading, hfailures]
      cases ok with
      | true =>
        simp only [if_true]
        split
        · rw [m.cap_none]
          exact Nat.zero_le _
        · exact h.bounded
      | false => exact hlimit
  · refine h.leave _ conn attempt hat (fun hbusy => absurd hbusy.2 hin) hattempts ?_ hcount
    rw [reading, reading, hfailures, if_neg hin]

theorem tally_step (m : Meter) (s : Host) (e : Event) (s' : Host)
    (hguard : Serial m.kind m.key s e) (hfits : m.Fits s) (h : m.Tally s)
    (hsteps : Steps s e s') : m.Tally s' := by
  cases hsteps with
  | begin conn k ip time hfree => exact h.begin conn k ip time hfree hguard
  | refuse conn attempt next rest text hat hstage htext =>
    refine h.leave _ conn attempt hat (fun _ => by simp [hstage]) rfl rfl ?_
    simp [count, Host.refuse, wrongNext]
  | read conn attempt next rest hat hstage hnone =>
    exact h.read hfits conn attempt next rest hat hstage hnone
  | abandon conn attempt own hat hstage =>
    exact h.leave _ conn attempt hat (fun _ => by simp [hstage]) rfl rfl rfl
  | compare conn attempt own ok hat hstage => exact h.compare conn attempt own ok hat hstage
  | update conn attempt own ok hat hstage => exact h.update hfits conn attempt own ok hat hstage

theorem tally_new (m : Meter) : m.Tally Host.new := by
  have hnobody : ∀ c a, ¬ Busy Host.new.attempts m.kind m.key c a := by
    rintro c a ⟨hlookup, -⟩
    cases hlookup
  have hreading : m.reading Host.new = 0 := m.cap_none
  exact ⟨fun c _ a _ hc => absurd hc (hnobody c a), fun c a hc => absurd hc (hnobody c a),
    Or.inl (Nat.zero_le _), fun c a _ hc => absurd hc (hnobody c a), hreading ▸ Nat.zero_le _⟩

end Meter

/-! ### All failures of a key -/

theorem total_le_of_refusal (failure : Entry) (time : ℤ)
    (h : refusal key failure time = none) : failure.total ≤ threshold key := by
  by_contra hover
  have hlt : threshold key < failure.total := Nat.lt_of_not_le hover
  cases key with
  | ip address => simp [refusal, hlt] at h
  | net length front => simp [refusal, hlt] at h

theorem total_bump : (bumpFailureEntry cur time).total = cur.total + 1 := by
  rw [bumpFailureEntry]
  split <;> rfl

def totalMeter (kind : Kind) (key : Key) : Meter where
  kind := kind
  key := key
  counts _ := true
  cap entry := (entry.getD .none).total
  limit := threshold key + 1
  cap_none := rfl

theorem totalMeter_fits : (totalMeter kind key).Fits s := by
  constructor
  · intro c a _ _ hnone
    exact Nat.succ_le_succ (total_le_of_refusal key _ _ hnone)
  · intro c a _ hroom
    have hbumped : (totalMeter kind key).bumped s a.time = (totalMeter kind key).reading s + 1 :=
      total_bump _ _
    rw [hbumped]
    exact ⟨Nat.le_refl _, hroom⟩

/-- Attempts that count for a key and do not overlap stay within its bound. -/
theorem wrongs_bounded (hexec : Runs.exec step Host.new events = some s)
    (hserial : Runs.Meets (Serial kind key) step Host.new events) :
    wrongs kind key (fun _ => true) s.trace ≤ threshold key + 1 := by
  have htally : (totalMeter kind key).Tally s :=
    Runs.invariant_of_meets (Serial kind key) step (totalMeter kind key).Tally
      (fun s e s' hguard h hstep => (totalMeter kind key).tally_step s e s' hguard
        (totalMeter_fits kind key s) h (steps_of_step s s' e hstep)) _ s events
      (totalMeter kind key).tally_new hserial hexec
  exact htally.count_le

/-! ### The failures of a minute -/

/-- What the entry says of the failures of one minute, when time does not go back: all of an earlier
minute are over, and there are none yet of a later one. -/
def minuteCap (minute : ℤ) : Option Entry → ℕ
  | none => 0
  | some e => if minute = e.last then e.minute else if minute < e.last then 7 else 0

def minuteMeter (kind : Kind) (address : IpAddr) (minute : ℤ) : Meter where
  kind := kind
  key := .ip address
  counts time := time == minute
  cap := minuteCap minute
  limit := 7
  cap_none := rfl

def Forward (s : Host) : Event → Prop
  | .begin _ _ _ time => s.now ≤ time
  | _ => True

/-- No attempt for the key is older than the last failure counted, nor is any ahead of the clock. -/
structure Clocked (kind : Kind) (key : Key) (s : Host) : Prop where
  last_le : ∀ e, s.failures kind key = some e → e.last ≤ s.now
  times : ∀ c a, Busy s.attempts kind key c a →
    a.time ≤ s.now ∧ ∀ e, s.failures kind key = some e → e.last ≤ a.time

theorem minute_le_of_refusal (failure : Entry) (time : ℤ)
    (h : refusal (.ip address) failure time = none) (htime : time = failure.last) :
    failure.minute ≤ 6 := by
  by_contra hover
  have hlt : 6 < failure.minute := Nat.lt_of_not_le hover
  simp only [refusal, htime, hlt, and_self, if_true] at h
  split at h <;> cases h

theorem bumpFailureEntry_last : (bumpFailureEntry cur time).last = time := by
  rw [bumpFailureEntry]
  split
  · assumption
  · rfl

theorem bumpFailureEntry_minute :
    (bumpFailureEntry cur time).minute = if cur.last = time then cur.minute + 1 else 1 := by
  rw [bumpFailureEntry]
  split <;> rfl

theorem minuteCap_before (h : minute < e.last) : minuteCap minute (some e) = 7 := by
  rw [minuteCap, if_neg (by omega), if_pos h]

theorem minuteCap_last (h : minute = e.last) : minuteCap minute (some e) = e.minute := by
  rw [minuteCap, if_pos h]

theorem minuteCap_after (h : e.last < minute) : minuteCap minute (some e) = 0 := by
  rw [minuteCap, if_neg (by omega), if_neg (by omega)]

theorem minuteCap_check (entry : Option Entry)
    (hlast : ∀ e, entry = some e → e.last ≤ time) (hbounded : minuteCap minute entry ≤ 7)
    (hnone : refusal (.ip address) (entry.getD .none) time = none) :
    minuteCap minute entry + (if time = minute then 1 else 0) ≤ 7 := by
  by_cases htime : time = minute
  · rw [if_pos htime]
    cases entry with
    | none => exact Nat.le_of_ble_eq_true rfl
    | some e =>
      have hle := hlast e rfl
      rcases Int.lt_or_eq_of_le hle with hlt | heq
      · rw [minuteCap_after minute e (by omega)]
        omega
      · have hminute := minute_le_of_refusal address e time hnone heq.symm
        rw [minuteCap_last minute e (by omega)]
        omega
  · rw [if_neg htime]
    exact hbounded

/-- Counting a failure makes up for it, and leaves the minute within its bound. -/
theorem minuteCap_bump (entry : Option Entry) (hlast : ∀ e, entry = some e → e.last ≤ time)
    (hroom : minuteCap minute entry + (if time = minute then 1 else 0) ≤ 7) :
    minuteCap minute entry + (if time = minute then 1 else 0) ≤
        minuteCap minute (some (bumpFailureEntry (entry.getD .none) time)) ∧
      minuteCap minute (some (bumpFailureEntry (entry.getD .none) time)) ≤ 7 := by
  have hnew := bumpFailureEntry_last (entry.getD .none) time
  have hcount := bumpFailureEntry_minute (entry.getD .none) time
  rcases Int.lt_trichotomy minute time with hlt | heq | hgt
  · rw [minuteCap_before minute _ (by omega)]
    exact ⟨hroom, Nat.le_refl 7⟩
  · rw [minuteCap_last minute _ (by omega), hcount]
    rw [if_pos heq.symm] at hroom ⊢
    cases entry with
    | none =>
      have hzero : minuteCap minute none = 0 := rfl
      have hone : (Entry.none).minute = 0 := rfl
      simp only [Option.getD_none, hzero, hone]
      split <;> omega
    | some e =>
      have hle := hlast e rfl
      rw [Option.getD_some]
      by_cases he : e.last = time
      · rw [minuteCap_last minute e (by omega)] at hroom ⊢
        rw [if_pos he]
        omega
      · rw [minuteCap_after minute e (by omega), if_neg he]
        omega
  · rw [minuteCap_after minute _ (by omega)]
    refine ⟨?_, by omega⟩
    rw [if_neg (by omega)]
    cases entry with
    | none => exact Nat.le_refl 0
    | some e =>
      have hle := hlast e rfl
      rw [minuteCap_after minute e (by omega)]

theorem minuteMeter_fits
    (h : Clocked kind (.ip address) s) : (minuteMeter kind address minute).Fits s := by
  have hweight : ∀ time, (minuteMeter kind address minute).weight time =
      if time = minute then 1 else 0 := by
    intro time
    simp [Meter.weight, minuteMeter]
  constructor
  · intro c a hbusy hbounded hnone
    rw [hweight]
    exact minuteCap_check address minute a.time _ (h.times c a hbusy).2 hbounded hnone
  · intro c a hbusy hroom
    rw [hweight] at hroom ⊢
    exact minuteCap_bump minute a.time _ (h.times c a hbusy).2 hroom

theorem clocked_step (e : Event) (s' : Host) (hforward : Forward s e)
    (hsingle : ∀ c c' a a', Busy s.attempts kind key c a → Busy s.attempts kind key c' a' → c = c')
    (h : Clocked kind key s) (hsteps : Steps s e s') : Clocked kind key s' := by
  cases hsteps with
  | begin conn k ip time hfree =>
    have hnow : s.now ≤ time := hforward
    refine ⟨fun f hf => Int.le_trans (h.last_le f hf) hnow, fun c a hc => ?_⟩
    rcases busy_insert _ _ _ _ _ _ _ hc with ⟨-, rfl, -⟩ | ⟨-, hold⟩
    · exact ⟨Int.le_refl _, fun f hf => Int.le_trans (h.last_le f hf) hnow⟩
    · obtain ⟨hle, hlast⟩ := h.times c a hold
      exact ⟨Int.le_trans hle hnow, hlast⟩
  | refuse conn attempt next rest text hat hstage htext =>
    exact ⟨h.last_le, fun c a hc => h.times c a (busy_erase _ _ _ _ _ _ hc).2⟩
  | read conn attempt next rest hat hstage hnone =>
    refine ⟨h.last_le, fun c a hc => ?_⟩
    rcases busy_insert _ _ _ _ _ _ _ hc with ⟨-, rfl, hkind, hkey⟩ | ⟨-, hold⟩
    · exact h.times conn attempt ⟨hat, hkind, hkey⟩
    · exact h.times c a hold
  | abandon conn attempt own hat hstage =>
    exact ⟨h.last_le, fun c a hc => h.times c a (busy_erase _ _ _ _ _ _ hc).2⟩
  | compare conn attempt own ok hat hstage =>
    refine ⟨h.last_le, fun c a hc => ?_⟩
    rcases busy_insert _ _ _ _ _ _ _ hc with ⟨-, rfl, hkind, hkey⟩ | ⟨-, hold⟩
    · exact h.times conn attempt ⟨hat, hkind, hkey⟩
    · exact h.times c a hold
  | update conn attempt own ok hat hstage =>
    have hfailures := failures_updateFailure s kind key conn attempt own ok
    have hattempts := attempts_updateFailure s conn attempt own ok
    have hnow : (s.updateFailure conn attempt own ok).now = s.now := by
      rw [Host.updateFailure]
      split <;> rfl
    by_cases hin : attempt.kind = kind ∧ key ∈ keysOf attempt.ip
    · have hbusy : Busy s.attempts kind key conn attempt := ⟨hat, hin⟩
      rw [if_pos hin] at hfailures
      refine ⟨fun f hf => ?_, fun c a hc => ?_⟩
      · rw [hnow]
        rw [hfailures] at hf
        cases ok with
        | true =>
          simp only [if_true] at hf
          split at hf
          · cases hf
          · exact h.last_le f hf
        | false =>
          obtain rfl := Option.some.inj hf
          rw [bumpFailureEntry_last]
          exact (h.times conn attempt hbusy).1
      · rw [hattempts] at hc
        obtain ⟨hne, hold⟩ := busy_erase _ _ _ _ _ _ hc
        exact absurd (hsingle c conn a attempt hold hbusy) hne
    · rw [if_neg hin] at hfailures
      refine ⟨fun f hf => ?_, fun c a hc => ?_⟩
      · rw [hnow]
        exact h.last_le f (hfailures ▸ hf)
      · rw [hattempts] at hc
        rw [hnow, hfailures]
        exact h.times c a (busy_erase _ _ _ _ _ _ hc).2

/-- Attempts of one address that do not overlap, on a clock that does not go back. -/
def Paced (kind : Kind) (address : IpAddr) (s : Host) (e : Event) : Prop :=
  Serial kind (.ip address) s e ∧ Forward s e

theorem wrongs_per_minute (hexec : Runs.exec step Host.new events = some s)
    (hpaced : Runs.Meets (Paced kind address) step Host.new events) :
    wrongs kind (.ip address) (fun time => time == minute) s.trace ≤ 7 := by
  have hinv : (minuteMeter kind address minute).Tally s ∧ Clocked kind (.ip address) s := by
    refine Runs.invariant_of_meets (Paced kind address) step
      (fun s => (minuteMeter kind address minute).Tally s ∧
        Clocked kind (.ip address) s) ?_ _ s events
      ⟨(minuteMeter kind address minute).tally_new, ?_⟩ hpaced hexec
    · rintro s e s' ⟨hserial, hforward⟩ ⟨htally, hclocked⟩ hstep
      have hsteps := steps_of_step s s' e hstep
      exact ⟨(minuteMeter kind address minute).tally_step s e s' hserial
          (minuteMeter_fits kind address minute s hclocked) htally hsteps,
        clocked_step kind (.ip address) s e s' hforward htally.single hclocked hsteps⟩
    · refine ⟨fun e he => (by cases he), fun c a hc => ?_⟩
      have hlookup := hc.1
      cases hlookup
  exact hinv.1.count_le

/-! ### Refusals -/

def isFailure (kind : Kind) (key : Key) (counts : ℤ → Bool) : Mark → Bool
  | .failed k ip time => decide (k = kind ∧ key ∈ keysOf ip) && counts time
  | _ => false

def failuresOf (kind : Kind) (key : Key) (counts : ℤ → Bool) (trace : List Mark) : ℕ :=
  trace.countP (isFailure kind key counts)

/-- An attempt is refused for failures of addresses that share one of its keys only. -/
def Justified (before : List Mark) : Mark → Prop
  | .refused kind ip time key _ => key ∈ keysOf ip ∧
      (threshold key < failuresOf kind key (fun _ => true) before ∨
        key = .ip ip ∧ 6 < failuresOf kind key (fun t => t == time) before)
  | _ => True

structure Counted (s : Host) : Prop where
  totals : ∀ kind key, (s.entry kind key).total ≤ failuresOf kind key (fun _ => true) s.trace
  minutes : ∀ kind key, (s.entry kind key).minute ≤
    failuresOf kind key (fun t => t == (s.entry kind key).last) s.trace
  keys : ∀ c a keys, s.attempts.lookup c = some a → a.stage = .reading keys →
    ∀ key ∈ keys, key ∈ keysOf a.ip
  justified : Runs.Always Justified s.trace

theorem failuresOf_append (counts : ℤ → Bool) (trace block : List Mark) :
    failuresOf kind key counts (trace ++ block) =
      failuresOf kind key counts trace + failuresOf kind key counts block := List.countP_append

theorem le_failuresOf_append (counts : ℤ → Bool) (trace block : List Mark) :
    failuresOf kind key counts trace ≤ failuresOf kind key counts (trace ++ block) := by
  rw [failuresOf_append]
  exact Nat.le_add_right _ _

theorem keys_insert (attempt : Attempt)
    (h : ∀ c a keys, attempts.lookup c = some a → a.stage = .reading keys →
      ∀ key ∈ keys, key ∈ keysOf a.ip)
    (hnew : ∀ keys, attempt.stage = .reading keys → ∀ key ∈ keys, key ∈ keysOf attempt.ip) (c : ℕ)
    (a : Attempt) (keys : List Key) (hat : (attempts.insert conn attempt).lookup c = some a)
    (hstage : a.stage = .reading keys) : ∀ key ∈ keys, key ∈ keysOf a.ip := by
  by_cases hc : c = conn
  · rw [hc, AList.lookup_insert] at hat
    obtain rfl := Option.some.inj hat
    exact hnew keys hstage
  · rw [AList.lookup_insert_ne hc] at hat
    exact h c a keys hat hstage

theorem keys_erase (h : ∀ c a keys, attempts.lookup c = some a → a.stage = .reading keys →
      ∀ key ∈ keys, key ∈ keysOf a.ip) (c : ℕ)
    (a : Attempt) (keys : List Key) (hat : (attempts.erase conn).lookup c = some a)
    (hstage : a.stage = .reading keys) : ∀ key ∈ keys, key ∈ keysOf a.ip := by
  by_cases hc : c = conn
  · rw [hc, AList.lookup_erase] at hat
    cases hat
  · rw [AList.lookup_erase_ne hc] at hat
    exact h c a keys hat hstage

theorem justified_refusal (h : Counted s) (attempt : Attempt) (key : Key) (text : String)
    (hkey : key ∈ keysOf attempt.ip)
    (htext : refusal key (s.entry attempt.kind key) attempt.time = some text) :
    Justified s.trace (.refused attempt.kind attempt.ip attempt.time key text) := by
  refine ⟨hkey, ?_⟩
  by_cases hover : threshold key < (s.entry attempt.kind key).total
  · exact Or.inl (Nat.lt_of_lt_of_le hover (h.totals attempt.kind key))
  · cases key with
    | net length front => simp [refusal, hover] at htext
    | ip address =>
      simp only [refusal, hover, if_false] at htext
      split at htext
      · rename_i hminute
        have haddress : address = attempt.ip := by
          have hmem := hkey
          cases hip : attempt.ip with
          | v4 bits => simpa [keysOf, getIpv6Prefixes, hip] using hmem
          | v6 bits => simpa [keysOf, getIpv6Prefixes, hip] using hmem
        refine Or.inr ⟨by rw [haddress], ?_⟩
        rw [hminute.1]
        exact Nat.lt_of_lt_of_le hminute.2 (h.minutes attempt.kind (.ip address))
      · cases htext

theorem counted_fail (h : Counted s) (conn : ℕ) (attempt : Attempt) (own : Entry) :
    Counted (s.updateFailure conn attempt own false) := by
  have hfailures := fun kind key => failures_updateFailure s kind key conn attempt own false
  have htrace : (s.updateFailure conn attempt own false).trace =
      s.trace ++ [.failed attempt.kind attempt.ip attempt.time] := rfl
  have hentry : ∀ kind key, (s.updateFailure conn attempt own false).entry kind key =
      if attempt.kind = kind ∧ key ∈ keysOf attempt.ip then
        bumpFailureEntry (s.entry kind key) attempt.time else s.entry kind key := by
    intro kind key
    rw [Host.entry, hfailures]
    split <;> rfl
  have hone : ∀ kind key counts, attempt.kind = kind ∧ key ∈ keysOf attempt.ip →
      counts attempt.time = true → failuresOf kind key counts
        [.failed attempt.kind attempt.ip attempt.time] = 1 := by
    intro kind key counts hin hcounts
    simp [failuresOf, isFailure, hin, hcounts]
  refine ⟨fun kind key => ?_, fun kind key => ?_, ?_, ?_⟩
  · rw [hentry, htrace, failuresOf_append]
    split
    · rename_i hin
      rw [total_bump, hone kind key _ hin rfl]
      exact Nat.succ_le_succ (h.totals kind key)
    · exact Nat.le_trans (h.totals kind key) (Nat.le_add_right _ _)
  · rw [hentry, htrace, failuresOf_append]
    split
    · rename_i hin
      rw [bumpFailureEntry_last, bumpFailureEntry_minute, hone kind key _ hin (by simp)]
      split
      · rename_i hlast
        rw [← hlast]
        exact Nat.succ_le_succ (h.minutes kind key)
      · exact Nat.le_add_left _ _
    · exact Nat.le_trans (h.minutes kind key) (Nat.le_add_right _ _)
  · rw [attempts_updateFailure]
    exact keys_erase _ conn h.keys
  · exact Runs.always_concat _ _ _ h.justified trivial

theorem counted_step (e : Event) (s' : Host) (h : Counted s) (hstep : step s e = some s') :
    Counted s' := by
  cases steps_of_step s s' e hstep with
  | begin conn kind ip time hfree =>
    refine ⟨h.totals, h.minutes, keys_insert _ conn _ h.keys ?_, h.justified⟩
    intro keys hkeys key hkey
    obtain rfl := Stage.reading.inj hkeys
    exact hkey
  | refuse conn attempt key rest text hat hstage htext =>
    have hkey : key ∈ keysOf attempt.ip := h.keys conn attempt _ hat hstage key
        (List.mem_cons_self ..)
    exact ⟨fun kind k => Nat.le_trans (h.totals kind k) (le_failuresOf_append ..),
      fun kind k => Nat.le_trans (h.minutes kind k) (le_failuresOf_append ..),
      keys_erase _ conn h.keys,
      Runs.always_concat _ _ _ h.justified (justified_refusal s h attempt key text hkey htext)⟩
  | read conn attempt key rest hat hstage hnone =>
    refine ⟨h.totals, h.minutes, keys_insert _ conn _ h.keys ?_, h.justified⟩
    intro keys hkeys k hk
    have hrest : keys = rest := by
      simp only at hkeys
      split at hkeys
      · cases hkeys
      · exact (Stage.reading.inj hkeys).symm
    exact h.keys conn attempt _ hat hstage k (List.mem_cons_of_mem _ (hrest ▸ hk))
  | abandon conn attempt own hat hstage =>
    exact ⟨h.totals, h.minutes, keys_erase _ conn h.keys, h.justified⟩
  | compare conn attempt own ok hat hstage =>
    refine ⟨fun kind k => Nat.le_trans (h.totals kind k) (le_failuresOf_append ..),
      fun kind k => Nat.le_trans (h.minutes kind k) (le_failuresOf_append ..),
      keys_insert _ conn _ h.keys ?_, Runs.always_concat _ _ _ h.justified trivial⟩
    intro keys hkeys
    cases hkeys
  | update conn attempt own ok hat hstage =>
    cases ok with
    | false => exact counted_fail s h conn attempt own
    | true =>
      have hentry : ∀ kind key, (s.updateFailure conn attempt own true).entry kind key = .none ∨
          (s.updateFailure conn attempt own true).entry kind key = s.entry kind key := by
        intro kind key
        rw [Host.entry, failures_updateFailure]
        simp only [if_true]
        split
        · split
          · exact Or.inl rfl
          · exact Or.inr rfl
        · exact Or.inr rfl
      refine ⟨fun kind key => ?_, fun kind key => ?_, keys_erase _ conn h.keys, h.justified⟩
      · rcases hentry kind key with heq | heq
        · rw [heq]
          exact Nat.zero_le _
        · rw [heq]
          exact h.totals kind key
      · rcases hentry kind key with heq | heq
        · rw [heq]
          exact Nat.zero_le _
        · rw [heq]
          exact h.minutes kind key

theorem counted_of_exec (hexec : Runs.exec step Host.new events = some s) : Counted s := by
  refine Runs.invariant_of_exec step Counted counted_step _ s events ?_ hexec
  refine ⟨fun _ _ => Nat.zero_le _, fun _ _ => Nat.zero_le _, fun c a keys hat => ?_,
    Runs.always_nil _⟩
  cases hat

/-- Attempts that share an address or a prefix and do not overlap are compared with at most 31 wrong
passwords or codes for the address, and 61, 81 and 101 for the prefixes, since one of them
succeeded; at most 7 of an address begin in one minute of a clock that does not go back. In every
run an attempt is refused for failures of its own address or of addresses in one of its prefixes
only. -/
theorem guessing_bounded (kind : Kind) (events : List Event) (s : Host)
    (hexec : Runs.exec step Host.new events = some s) :
    (∀ address, Runs.Meets (Serial kind (.ip address)) step Host.new events →
      wrongs kind (.ip address) (fun _ => true) s.trace ≤ 31) ∧
    (∀ address, Runs.Meets (Paced kind address) step Host.new events →
      ∀ minute, wrongs kind (.ip address) (fun time => time == minute) s.trace ≤ 7) ∧
    (∀ front, Runs.Meets (Serial kind (.net 64 front)) step Host.new events →
      wrongs kind (.net 64 front) (fun _ => true) s.trace ≤ 61) ∧
    (∀ front, Runs.Meets (Serial kind (.net 56 front)) step Host.new events →
      wrongs kind (.net 56 front) (fun _ => true) s.trace ≤ 81) ∧
    (∀ front, Runs.Meets (Serial kind (.net 48 front)) step Host.new events →
      wrongs kind (.net 48 front) (fun _ => true) s.trace ≤ 101) ∧
    Runs.Always Justified s.trace :=
  ⟨fun address hserial => wrongs_bounded kind (.ip address) events s hexec hserial,
    fun address hpaced minute => wrongs_per_minute kind address minute events s hexec hpaced,
    fun front hserial => wrongs_bounded kind (.net 64 front) events s hexec hserial,
    fun front hserial => wrongs_bounded kind (.net 56 front) events s hexec hserial,
    fun front hserial => wrongs_bounded kind (.net 48 front) events s hexec hserial,
    (counted_of_exec events s hexec).justified⟩

instance decidableSerial (kind : Kind) (key : Key) (s : Host) (e : Event) :
    Decidable (Serial kind key s e) := by
  cases e <;> unfold Serial <;> infer_instance

instance decidablePaced (kind : Kind) (address : IpAddr) (s : Host) (e : Event) :
    Decidable (Paced kind address s e) := by
  unfold Paced Forward
  cases e <;> infer_instance

def wrongAttempt (ip : IpAddr) (time : ℤ) : List Event :=
  [.begin 0 .password ip time] ++ (keysOf ip).map (fun _ => .read 0) ++
    [.compare 0 (some false), .update 0]

def sampleAddress : IpAddr := .v4 0x0a000001#32

def sampleRun : List Event :=
  (List.replicate 7 (wrongAttempt sampleAddress 5)).flatten ++
    [.begin 0 .password sampleAddress 5, .read 0]

theorem guessing_bounded_sample :
    ∃ s, Runs.exec step Host.new sampleRun = some s ∧
      s.trace.getLast? = some (.refused .password sampleAddress 5 (.ip sampleAddress)
        "Please try 1 minute later") ∧
      wrongs .password (.ip sampleAddress) (fun _ => true) s.trace ≤ 31 ∧
      wrongs .password (.ip sampleAddress) (fun time => time == 5) s.trace ≤ 7 := by
  have hlast : (Runs.exec step Host.new sampleRun).map (fun s => s.trace.getLast?) =
      some (some (.refused .password sampleAddress 5 (.ip sampleAddress)
        "Please try 1 minute later")) := by decide
  have hserial : Runs.Meets (Serial .password (.ip sampleAddress)) step Host.new sampleRun := by
    decide
  have hpaced : Runs.Meets (Paced .password sampleAddress) step Host.new sampleRun := by
    decide
  obtain ⟨s, hexec, hs⟩ := Option.map_eq_some_iff.mp hlast
  obtain ⟨htotal, hminute, -⟩ := guessing_bounded .password sampleRun s hexec
  exact ⟨s, hexec, hs, htotal sampleAddress hserial, hminute sampleAddress hpaced 5⟩

def overlapRun : List Event :=
  (List.range 32).flatMap (fun conn => [.begin conn .password sampleAddress 5, .read conn]) ++
    (List.range 32).map fun conn => .compare conn (some false)

def netAddress (subnet host : ℕ) : IpAddr :=
  .v6 (BitVec.ofNat 128 (0x20010db80000 * 2 ^ 80 + subnet * 2 ^ 64 + host))

/-- The address 2001:db8:0:2::1. -/
def netBits : BitVec 128 := 0x20010db8000000020000000000000001#128

def netRun : List Event :=
  (List.range 30).flatMap (fun (i : ℕ) => wrongAttempt (netAddress 0 1) i) ++
    (List.range 30).flatMap (fun (i : ℕ) => wrongAttempt (netAddress 0 2) (30 + i)) ++
    (List.range 21).flatMap (fun (i : ℕ) => wrongAttempt (netAddress 1 1) (60 + i)) ++
    [.begin 0 .password (.v6 netBits) 81, .read 0, .read 0]

/-- Overlapping attempts get 32 comparisons, and an address is refused for failures outside its
/64. -/
theorem guessing_not_bounded :
    (∃ s, Runs.exec step Host.new overlapRun = some s ∧
      wrongs .password (.ip sampleAddress) (fun _ => true) s.trace = 32) ∧
    ∃ s, Runs.exec step Host.new netRun = some s ∧
      failuresOf .password (.net 64 (maskU128 netBits 64)) (fun _ => true) s.trace = 0 ∧
      s.trace.getLast? = some (.refused .password (.v6 netBits) 81 (.net 56 (maskU128 netBits 56))
        "Too many wrong attempts for IPv6 prefix /56") := by
  constructor
  · have hcount : (Runs.exec step Host.new overlapRun).map (fun s =>
        wrongs .password (.ip sampleAddress) (fun _ => true) s.trace) = some 32 := by decide +kernel
    obtain ⟨s, hexec, hs⟩ := Option.map_eq_some_iff.mp hcount
    exact ⟨s, hexec, hs⟩
  · have hlast : (Runs.exec step Host.new netRun).map (fun s =>
        (failuresOf .password (.net 64 (maskU128 netBits 64)) (fun _ => true) s.trace,
          s.trace.getLast?)) =
        some (0, some (.refused .password (.v6 netBits) 81 (.net 56 (maskU128 netBits 56))
          "Too many wrong attempts for IPv6 prefix /56")) := by
      decide +kernel
    obtain ⟨s, hexec, hs⟩ := Option.map_eq_some_iff.mp hlast
    obtain ⟨hnone, hrefused⟩ := Prod.mk.inj hs
    exact ⟨s, hexec, hnone, hrefused⟩

end ClantoDesk.LoginFailures
