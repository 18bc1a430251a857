import ClantoDesk.KeyRotation
import Mathlib.Data.List.Nodup

/-!
What becomes of the keys that a rotation retires. An ordinary rotation leaves the old key seven
days, a rotation by the root key none. After that a key is unusable as long as no document brings it
back. The code does not ask who signs that document: a key that is on its way out can
bring itself back, and a key that the root key revoked comes back with an ordinary document.
-/
namespace ClantoDesk.RetiredKeys

open TenantKeys KeyRotation

def Lapsed (since : Int64) (kid : String) (s : Store) : Prop :=
  ∀ key ∈ s.keys, key.kid = kid → usable key since = false

def VerifiesNothing (docs : Documents) (e : Enrollment) (s : Keys) (kid : String) (now : Int64) :
    Prop :=
  ∀ st, current docs e s = some st → ∀ pruned signed,
    verifyIn docs.toCrypto (prune st pruned) signed (some kid) now = none

/-- The document, if it is accepted, makes the key with the id usable at the time or later. -/
def brings (docs : Documents) (since : Int64) (kid : String) (doc : Received) : Bool :=
  match docs.decode64 doc.signed.payload with
  | none => false
  | some payload =>
    match doc.kind with
    | .rotation =>
      match docs.parseRotation payload with
      | .ok r => r.newKeyId = kid
      | .error _ => false
    | .grantKeys =>
      match docs.parseGrantKeys payload with
      | .ok list => list.keys.any fun l => l.kid = kid && usable l.toKey since
      | .error _ => false

def accepted (docs : Documents) (e : Enrollment) (s : Keys) (doc : Received) : Bool :=
  (receive docs (some e) doc s).1 = .ok ()

def signedByOther (docs : Documents) (e : Enrollment) (kid : String) (s : Keys) (doc : Received) :
    Bool :=
  (current docs e s).any fun st => (prune st doc.pruned).keys.any fun key =>
    usable key doc.now && key.kid ≠ kid && (verifyWith docs.toCrypto key.publicKey
      doc.signed).isSome

def signedByRoot (docs : Documents) (doc : Received) : Bool := (verifyRoot docs doc.signed).isSome

def Reinstated (docs : Documents) (e : Enrollment) (since : Int64) (kid : String) (s : Keys) :
    Event → Prop
  | .received doc => accepted docs e s doc = true ∧ brings docs since kid doc = true
  | _ => False

def ReinstatedByOther (docs : Documents) (e : Enrollment) (since : Int64) (kid : String)
    (s : Keys) :
    Event → Prop
  | .received doc => accepted docs e s doc = true ∧ brings docs since kid doc = true ∧
      (signedByOther docs e kid s doc || signedByRoot docs doc) = true
  | _ => False

def ReinstatedByRoot (docs : Documents) (e : Enrollment) (since : Int64) (kid : String) (s : Keys) :
    Event → Prop
  | .received doc => accepted docs e s doc = true ∧ brings docs since kid doc = true ∧
      signedByRoot docs doc = true
  | _ => False

/-- An accepted ordinary rotation turns the active key into a retiring one. -/
def Retires (docs : Documents) (e : Enrollment) (s t : Keys) (doc : Received)
    (kid : String) : Prop :=
  accepted docs e s doc = true ∧ doc.kind = .rotation ∧
    ∃ st st', current docs e s = some st ∧ current docs e t = some st' ∧
      (∃ key ∈ (prune st doc.pruned).keys, key.kid = kid ∧ key.state = .active) ∧
      ∃ key ∈ st'.keys, key.kid = kid ∧ key.state = .retiring

/-- An accepted rotation that only the root key has signed retires or drops the key. -/
def RootRetires (docs : Documents) (e : Enrollment) (s : Keys) (doc : Received) (kid : String) :
    Prop :=
  accepted docs e s doc = true ∧ doc.kind = .rotation ∧ brings docs doc.now kid doc = false ∧
    ∃ st, current docs e s = some st ∧ (∃ key ∈ st.keys, key.kid = kid) ∧
      verifyIn docs.toCrypto (prune st doc.pruned) doc.signed none doc.now = none

variable (byRoot : Bool) (key : TenantKey) (since now : Int64) (docs : Documents) (e : Enrollment)

theorem usable_earlier (hle : since ≤ now)
    (h : usable key now = true) : usable key since = true := by
  unfold usable at h ⊢
  cases hstate : key.state with
  | active => rfl
  | retiring =>
    rw [hstate] at h
    cases hend : key.notAfter with
    | none => rfl
    | some t =>
      rw [hend] at h
      have hlt : now < t := by simpa using h
      simpa using Int64.lt_of_le_of_lt hle hlt
  | revoked =>
    rw [hstate] at h
    cases h
  | other text =>
    rw [hstate] at h
    cases h

theorem usable_pruneKey (h : usable key since = false) :
    usable (pruneKey now key) since = false := by
  unfold pruneKey
  split
  · rfl
  · exact h

theorem usable_retire
    (h : usable key since = false) : usable (retire byRoot now key) since = false := by
  unfold retire
  split
  · exact h
  · split
    · rfl
    · split
      · rename_i hactive
        simp [usable, hactive] at h
      · exact h

theorem usable_retired (hactive : key.state = .active) :
    usable (retire byRoot now key) (now + retiringSecs) = false := by
  have hended : ∀ t : Int64, usable { key with
      state := .retiring, notAfter := some t } t = false := by
    intro t
    simp [usable]
  unfold retire
  rw [hactive, if_neg (by simp)]
  cases byRoot with
  | true => rfl
  | false => exact hended (now + retiringSecs)

theorem Lapsed.prune {since : Int64} {kid : String} {s : Store} (h : Lapsed since kid s)
    (now : Int64) : Lapsed since kid (prune s now) := by
  intro key hkey hkid
  obtain ⟨old, hold, rfl⟩ := List.mem_map.mp hkey
  rw [pruneKey_kid] at hkid
  exact usable_pruneKey old since now (h old hold hkid)

theorem Trusted.payload {docs : Documents} {s : Store} {signed : Signed} {now : Int64}
    {payload : Bytes} {byRoot : Bool} (h : Trusted docs s signed now payload byRoot) :
    docs.decode64 signed.payload = some payload := by
  cases byRoot with
  | false => exact verifyIn_payload docs.toCrypto s signed none now payload h
  | true =>
    obtain ⟨pk, -, hverify⟩ := Option.bind_eq_some_iff.mp h.2
    exact verifyWith_payload docs.toCrypto _ signed payload hverify

theorem Lapsed.accepts {docs : Documents} {since : Int64} {kid : String} {s t : Store}
    {doc : Received} (h : Lapsed since kid s)
    (haccepts : Accepts docs doc.signed doc.now s doc.kind t)
    (hbrings : brings docs since kid doc = false) : Lapsed since kid t := by
  obtain ⟨kind, signed, pruned, now, saved⟩ := doc
  simp only at haccepts
  cases haccepts with
  | rotation payload byRoot r pk htrust hparse hnewer hkey hkid =>
    simp only [brings, Trusted.payload htrust, hparse, decide_eq_false_iff_not] at hbrings
    intro key hmem heq
    rcases List.mem_append.mp hmem with hold | hnew
    · obtain ⟨old, holdmem, rfl⟩ := List.mem_map.mp (List.mem_filter.mp hold).1
      rw [retire_kid] at heq
      exact usable_retire byRoot old since now (h old holdmem heq)
    · obtain rfl := List.mem_singleton.mp hnew
      exact absurd heq hbrings
  | grantKeys payload byRoot list keys htrust hparse hnewer hkeys hactive =>
    simp only [brings, Trusted.payload htrust, hparse] at hbrings
    refine Lapsed.prune ?_ now
    intro key hmem heq
    simp only at hmem
    split at hmem
    · exact h key hmem heq
    · obtain ⟨rfl, -⟩ := mapM_listedKey hkeys
      obtain ⟨l, hl, rfl⟩ := List.mem_map.mp hmem
      have hnot := List.any_eq_false.mp hbrings l hl
      simpa [show l.kid = kid from heq] using hnot

/-- A store that a restart will find again, with the key lapsed. -/
structure Kept (e : Enrollment) (since : Int64) (kid : String) (s : Store) : Prop where
  tenant : s.tenantId = e.tenantId
  nonempty : s.keys ≠ []
  lapsed : Lapsed since kid s

theorem Kept.prune {e : Enrollment} {since : Int64} {kid : String} {s : Store}
    (h : Kept e since kid s) (now : Int64) : Kept e since kid (prune s now) :=
  ⟨h.tenant, fun hnil => h.nonempty (List.map_eq_nil_iff.mp hnil), h.lapsed.prune now⟩

theorem Accepts.nonempty {docs : Documents} {signed : Signed} {now : Int64} {s t : Store}
    {kind : Kind} (h : Accepts docs signed now s kind t) (hs : s.keys ≠ []) : t.keys ≠ [] := by
  cases h with
  | rotation payload byRoot r pk htrust hparse hnewer hkey hkid => simp
  | grantKeys payload byRoot list keys htrust hparse hnewer hkeys hactive =>
    intro hnil
    have hempty := List.map_eq_nil_iff.mp hnil
    simp only at hempty
    split at hempty
    · exact hs hempty
    · rename_i hkeys'
      exact hkeys' (by rw [hempty, List.isEmpty_nil])

def Anchored (e : Enrollment) (since : Int64) (kid : String) (s : Keys) : Prop :=
  (∀ st, s.cached = some st → Kept e since kid st) ∧ ∃ f, s.file = some f ∧ Kept e since kid f

theorem Anchored.current {docs : Documents} {e : Enrollment} {since : Int64} {kid : String}
    {s : Keys} (h : Anchored e since kid s) (st : Store) (hst : current docs e s = some st) :
    Kept e since kid st := by
  obtain ⟨hcached, f, hfile, hf⟩ := h
  unfold KeyRotation.current at hst
  split at hst
  · have hfound : f.tenantId == e.tenantId && !f.keys.isEmpty := by
      simpa [hf.tenant] using hf.nonempty
    rw [load, hfile, Option.filter_some, if_pos hfound] at hst
    obtain rfl := Option.some.inj hst
    exact hf
  · exact hcached st hst

theorem file_step {s t : Keys} {event : Event}
    (hstep : step docs e s event = some t) (hfile : s.file.isSome = true) :
    t.file.isSome = true := by
  cases event with
  | received doc =>
    obtain rfl := Option.some.inj hstep
    rcases receive_spec docs e doc s with
      ⟨-, text, heq⟩ | ⟨st, -, ⟨text, heq⟩ | ⟨u, -, heq⟩⟩
    · rw [heq]
      exact hfile
    · rw [heq]
      exact hfile
    · rw [heq]
      simp only
      split
      · rfl
      · exact hfile
  | used now =>
    obtain rfl := Option.some.inj hstep
    exact hfile
  | restart =>
    obtain rfl := Option.some.inj hstep
    exact hfile

/-- As long as no document brings the key back it stays lapsed, in memory and in the file. -/
theorem anchored_step (since : Int64) (kid : String) (s : Keys)
    (event : Event) (t : Keys) (hnot : ¬ Reinstated docs e since kid s event)
    (h : Anchored e since kid s) (hstep : step docs e s event = some t) :
    Anchored e since kid t := by
  have hstores := stores_step docs e (P := Kept e since kid) (fun st now hst => hst.prune now)
    (by
      rintro doc st u rfl hok hkept haccepts
      refine ⟨(haccepts.tenant).trans hkept.tenant, Accepts.nonempty haccepts hkept.nonempty, ?_⟩
      refine hkept.lapsed.accepts haccepts ?_
      rw [← Bool.not_eq_true]
      intro hbrings
      exact hnot ⟨decide_eq_true hok, hbrings⟩)
    h.current (fun f hf => by
      obtain ⟨-, f', hfile, hkept⟩ := h
      obtain rfl := Option.some.inj (hf.symm.trans hfile)
      exact hkept) hstep
  obtain ⟨f, hf⟩ := Option.isSome_iff_exists.mp (file_step docs e hstep (by
    obtain ⟨-, f, hfile, -⟩ := h
    rw [hfile]
    rfl))
  exact ⟨hstores.1, f, hf, hstores.2 f hf⟩

def ListsDistinct (docs : Documents) (e : Enrollment) (s : Keys) : Event → Prop
  | .received doc => accepted docs e s doc = true → doc.kind = .grantKeys → ∀ payload list,
      docs.decode64 doc.signed.payload = some payload → docs.parseGrantKeys payload = .ok list →
        (list.keys.map ListedKey.kid).Nodup
  | _ => True

def DistinctKids (s : Store) : Prop := (s.keys.map TenantKey.kid).Nodup

theorem prune_kids (s : Store) (now : Int64) :
    (prune s now).keys.map TenantKey.kid = s.keys.map TenantKey.kid := by
  simp only [prune, List.map_map, Function.comp_def, pruneKey_kid]

theorem DistinctKids.prune {s : Store} (h : DistinctKids s) (now : Int64) :
    DistinctKids (prune s now) := by
  rw [DistinctKids, prune_kids]
  exact h

theorem retire_kids (keys : List TenantKey) :
    (keys.map (retire byRoot now)).map TenantKey.kid = keys.map TenantKey.kid := by
  simp only [List.map_map, Function.comp_def, retire_kid]

theorem DistinctKids.accepts {docs : Documents} {s t : Store} {doc : Received}
    (h : DistinctKids s) (haccepts : Accepts docs doc.signed doc.now s doc.kind t)
    (hlist : doc.kind = .grantKeys → ∀ payload list, docs.decode64 doc.signed.payload =
    some payload →
      docs.parseGrantKeys payload = .ok list → (list.keys.map ListedKey.kid).Nodup) :
    DistinctKids t := by
  obtain ⟨kind, signed, pruned, now, saved⟩ := doc
  simp only at haccepts hlist
  cases haccepts with
  | rotation payload byRoot r pk htrust hparse hnewer hkey hkid =>
    simp only [DistinctKids, List.map_append, List.map_cons, List.map_nil]
    refine List.nodup_append.mpr ⟨?_, List.nodup_singleton _, ?_⟩
    · have hold : ((s.keys.map (retire byRoot now)).map TenantKey.kid).Nodup := by
        rw [retire_kids]
        exact h
      exact hold.sublist (List.filter_sublist.map _)
    · intro a ha b hb
      obtain ⟨key, hkey, rfl⟩ := List.mem_map.mp ha
      obtain rfl := List.mem_singleton.mp hb
      simpa using (List.mem_filter.mp hkey).2
  | grantKeys payload byRoot list keys htrust hparse hnewer hkeys hactive =>
    refine DistinctKids.prune ?_ now
    simp only [DistinctKids]
    split
    · exact h
    · obtain ⟨rfl, -⟩ := mapM_listedKey hkeys
      rw [List.map_map]
      exact hlist rfl payload list (Trusted.payload htrust) hparse

theorem current_distinct (events : List Event) (s : Keys)
    (hmeets : Runs.Meets (ListsDistinct docs e) (step docs e) start events)
    (hexec : Runs.exec (step docs e) start events = some s) (st : Store)
    (hst : current docs e s = some st) : DistinctKids st := by
  have hinitial : ∀ st, initial docs.toCrypto e = some st → DistinctKids st := by
    intro st hfirst
    obtain ⟨pk, -, rfl⟩ := Option.map_eq_some_iff.mp hfirst
    exact List.nodup_singleton _
  refine current_of_stores ?_ hinitial st hst
  refine Runs.invariant_of_meets (ListsDistinct docs e) (step docs e)
    (fun s => (∀ st, s.cached = some st → DistinctKids st) ∧ ∀ f, s.file = some f → DistinctKids f)
    ?_ start s events ⟨fun st h => (by cases h), fun f h => (by cases h)⟩ hmeets hexec
  intro s event t hguard hs hstep
  refine stores_step docs e (fun st now h => h.prune now) ?_ (current_of_stores hs hinitial)
    hs.2 hstep
  rintro doc st u rfl hok hdistinct haccepts
  exact hdistinct.accepts haccepts (hguard (decide_eq_true hok))

theorem accepted_saved {docs : Documents} {e : Enrollment} {s t : Keys} {doc : Received}
    (haccepted : accepted docs e s doc = true) (hsaved : doc.saved = true)
    (hstep : step docs e s (.received doc) = some t) :
    ∃ st u, current docs e s = some st ∧ t = ⟨some u, some u⟩ ∧
      Accepts docs doc.signed doc.now (prune st doc.pruned) doc.kind u := by
  obtain rfl := Option.some.inj hstep
  have hok : (receive docs (some e) doc s).1 = .ok () := of_decide_eq_true haccepted
  rcases receive_spec docs e doc s with ⟨-, text, heq⟩ | ⟨st, hst, ⟨text, heq⟩ | ⟨u, haccepts, heq⟩⟩
  · rw [heq] at hok
    cases hok
  · rw [heq] at hok
    cases hok
  · refine ⟨st, u, hst, ?_, haccepts⟩
    rw [heq, hsaved]
    rfl

theorem anchored_start {e : Enrollment} {since : Int64} {kid : String} {u : Store}
    (h : Kept e since kid u) : Anchored e since kid ⟨some u, some u⟩ := by
  refine ⟨?_, u, rfl, h⟩
  rintro _ ⟨⟩
  exact h

theorem lapsed_of_retired {docs : Documents} {s u : Store} {doc : Received} {kid : String}
    (hkind : doc.kind = .rotation) (haccepts : Accepts docs doc.signed doc.now s doc.kind u)
    (hdistinct : DistinctKids s) (hactive : ∃ key ∈ s.keys, key.kid = kid ∧ key.state = .active)
    (hretiring : ∃ key ∈ u.keys, key.kid = kid ∧ key.state = .retiring) :
    Lapsed (doc.now + retiringSecs) kid u := by
  obtain ⟨kind, signed, pruned, now, saved⟩ := doc
  simp only at hkind haccepts ⊢
  subst hkind
  cases haccepts with
  | rotation payload byRoot r pk htrust hparse hnewer hkey hkid =>
    obtain ⟨active, hmem, rfl, hstate⟩ := hactive
    intro key hu heq
    have hold : key ∈ (s.keys.map (retire byRoot now)).filter (fun k => k.kid ≠ r.newKeyId) := by
      rcases List.mem_append.mp hu with hold | hnew
      · exact hold
      · -- the new key would be the only one with the id, and it is active
        obtain rfl := List.mem_singleton.mp hnew
        obtain ⟨key', hkey', hkid', hretiring⟩ := hretiring
        rcases List.mem_append.mp hkey' with hfiltered | hlast
        · exact absurd (hkid'.trans heq.symm) (by simpa using (List.mem_filter.mp hfiltered).2)
        · obtain rfl := List.mem_singleton.mp hlast
          cases hretiring
    obtain ⟨old, holdmem, rfl⟩ := List.mem_map.mp (List.mem_filter.mp hold).1
    rw [retire_kid] at heq
    obtain rfl := List.inj_on_of_nodup_map hdistinct holdmem hmem heq
    exact usable_retired byRoot old now hstate

/-- A rotation by the root key leaves no other key usable. -/
theorem lapsed_of_rootRetired {docs : Documents} {s u : Store} {doc : Received} {kid : String}
    (hkind : doc.kind = .rotation) (haccepts : Accepts docs doc.signed doc.now s doc.kind u)
    (hroot : verifyIn docs.toCrypto s doc.signed none doc.now = none) (since : Int64)
    (hbrings : brings docs doc.now kid doc = false) : Lapsed since kid u := by
  obtain ⟨kind, signed, pruned, now, saved⟩ := doc
  simp only at hkind haccepts hroot
  subst hkind
  cases haccepts with
  | rotation payload byRoot r pk htrust hparse hnewer hkey hkid =>
    simp only [brings, Trusted.payload htrust, hparse, decide_eq_false_iff_not] at hbrings
    have hbyRoot : byRoot = true := by
      cases byRoot with
      | true => rfl
      | false =>
        rw [show verifyIn docs.toCrypto s signed none now = some payload from htrust] at hroot
        cases hroot
    subst hbyRoot
    intro key hu heq
    rcases List.mem_append.mp hu with hold | hnew
    · obtain ⟨old, holdmem, rfl⟩ := List.mem_map.mp (List.mem_filter.mp hold).1
      by_cases hrevoked : old.state = .revoked
      · simp [retire, hrevoked, usable]
      · simp [retire, hrevoked, usable]
    · obtain rfl := List.mem_singleton.mp hnew
      exact absurd heq hbrings

theorem verifiesNothing_of_lapsed {docs : Documents} {e : Enrollment} {s : Keys} {kid : String}
    {since now : Int64} (h : ∀ st, current docs e s = some st → Lapsed since kid st)
    (hle : since ≤ now) : VerifiesNothing docs e s kid now := by
  intro st hst pruned signed
  rw [verifyIn, List.findSome?_eq_none_iff]
  intro key hkey
  obtain ⟨hmem, hcond⟩ := List.mem_filter.mp hkey
  rw [Bool.and_eq_true] at hcond
  have hkid : kid = key.kid := by simpa using hcond.2
  have hlapsed := (h st hst).prune pruned key hmem hkid.symm
  rw [usable_earlier key since now hle hcond.1] at hlapsed
  cases hlapsed

/-- What holds after the rotation holds to the end of a run in which nothing brings the key back. -/
theorem lapsed_after {docs : Documents} {e : Enrollment} {since : Int64} {kid : String} {t u : Keys}
    {after : List Event} (hstart : Anchored e since kid t)
    (hnever : Runs.Meets (fun s event => ¬ Reinstated docs e since kid s event)
    (step docs e) t after)
    (hafter : Runs.exec (step docs e) t after = some u) :
    ∀ st, current docs e u = some st → Lapsed since kid st := by
  have hend := Runs.invariant_of_meets _ (step docs e) (Anchored e since kid)
    (fun s event t hnot h hstep => anchored_step docs e since kid s event t hnot h hstep)
    t u after hstart hnever hafter
  exact fun st hst => (hend.current st hst).lapsed

theorem int64_add_retiringSecs_le (later : Int64) (h : now.toInt + 604800 ≤ later.toInt) :
    now + retiringSecs ≤ later := by
  have hsecs : retiringSecs.toInt = 604800 := by decide
  have hlow := now.le_toInt
  have hhigh := later.toInt_lt
  rw [Int64.le_iff_toInt_le, Int64.toInt_add, hsecs, Int.bmod_eq_of_le] <;> omega

/-- A retired key stays unusable. It is saved that it was retired and no list names a key twice.
After an ordinary rotation the key may come back only with the signature of another key or of the
root key, after one by the root key only with that of the root key. -/
theorem retired_key_stays_unusable (docs : Documents) (e : Enrollment) (before : List Event)
    (s t : Keys) (doc : Received) (after : List Event) (u : Keys)
    (hbefore : Runs.exec (step docs e) start before = some s)
    (hlists : Runs.Meets (ListsDistinct docs e) (step docs e) start before)
    (hsaved : doc.saved = true) (hstep : step docs e s (.received doc) = some t)
    (hafter : Runs.exec (step docs e) t after = some u) :
    (∀ kid, Retires docs e s t doc kid →
      Runs.Meets (fun s event => Reinstated docs e (doc.now + retiringSecs) kid s event →
        ReinstatedByOther docs e (doc.now + retiringSecs) kid s event) (step docs e) t after →
      Runs.Sometime (ReinstatedByOther docs e (doc.now + retiringSecs) kid) (step docs e) t after ∨
        ∀ now, doc.now.toInt + 604800 ≤ now.toInt → VerifiesNothing docs e u kid now) ∧
      ∀ kid, RootRetires docs e s doc kid →
        Runs.Meets (fun s event => Reinstated docs e Int64.minValue kid s event →
          ReinstatedByRoot docs e Int64.minValue kid s event) (step docs e) t after →
        Runs.Sometime (ReinstatedByRoot docs e Int64.minValue kid) (step docs e) t after ∨
          ∀ now, VerifiesNothing docs e u kid now := by
  refine ⟨?_, ?_⟩
  · rintro kid ⟨haccepted, hkind, st, st', hst, hst', hactive, hretiring⟩ hmeets
    refine (Runs.sometime_or_meets_not _ _ _ _ _ hmeets).imp_right ?_
    intro hnever now hnow
    obtain ⟨old, new, hold, rfl, haccepts⟩ := accepted_saved haccepted hsaved hstep
    obtain rfl := Option.some.inj (hst.symm.trans hold)
    have htenant : new.tenantId = e.tenantId :=
      haccepts.tenant.trans (current_tenant hst : st.tenantId = e.tenantId)
    obtain rfl := Option.some.inj ((current_of_cached rfl htenant).symm.trans hst')
    have hdistinct := (current_distinct docs e before s hlists hbefore st hst).prune doc.pruned
    have hkept : Kept e (doc.now + retiringSecs) kid new :=
      ⟨htenant, fun hnil => (by rw [hnil] at hretiring; simp at hretiring),
        lapsed_of_retired hkind haccepts hdistinct hactive hretiring⟩
    exact verifiesNothing_of_lapsed (lapsed_after (anchored_start hkept) hnever hafter)
      (int64_add_retiringSecs_le doc.now now hnow)
  · rintro kid ⟨haccepted, hkind, hbrings, st, hst, ⟨key, hmem, -⟩, hroot⟩ hmeets
    refine (Runs.sometime_or_meets_not _ _ _ _ _ hmeets).imp_right ?_
    intro hnever now
    obtain ⟨old, new, hold, rfl, haccepts⟩ := accepted_saved haccepted hsaved hstep
    obtain rfl := Option.some.inj (hst.symm.trans hold)
    have hnonempty : (prune st doc.pruned).keys ≠ [] := by
      intro hnil
      rw [List.map_eq_nil_iff.mp hnil] at hmem
      cases hmem
    have hkept : Kept e Int64.minValue kid new :=
      ⟨haccepts.tenant.trans (current_tenant hst : st.tenantId = e.tenantId),
        Accepts.nonempty haccepts hnonempty,
        lapsed_of_rootRetired hkind haccepts hroot Int64.minValue hbrings⟩
    exact verifiesNothing_of_lapsed (lapsed_after (anchored_start hkept) hnever hafter)
      (Int64.minValue_le now)

section Sample

def rootRotatedStore : Store :=
  { tenantId := "t"
    keys := [⟨oldKid, oldKeyText, .revoked, none⟩, ⟨newKid, newKeyText, .active, none⟩]
    rotationSeq := 1 }

def rootRotated : Keys := ⟨some rootRotatedStore, some rootRotatedStore⟩

theorem retires_oldKid :
    Retires (sampleDocs none) sampleEnrollment start rotated ⟨.rotation, toNewKeySigned, 0, 0, true⟩
      oldKid := by
  refine ⟨by decide +kernel, rfl, initialStore, rotatedStore, by decide +kernel, by decide +kernel,
    ⟨⟨oldKid, oldKeyText, .active, none⟩, by decide +kernel, rfl, rfl⟩,
    ⟨⟨oldKid, oldKeyText, .retiring, some 604800⟩, by decide +kernel, rfl, rfl⟩⟩

theorem rootRetires_oldKid :
    RootRetires (sampleDocs (some rootKey)) sampleEnrollment start
      ⟨.rotation, byRootSigned, 0, 0, true⟩ oldKid :=
  ⟨by decide +kernel, rfl, by decide +kernel, initialStore, by decide +kernel,
    ⟨⟨oldKid, oldKeyText, .active, none⟩, by decide +kernel, rfl⟩, by decide +kernel⟩

/-- Nothing is received after the rotation: the old key is unusable after seven days, and at once
if the root key has signed. -/
theorem retired_key_stays_unusable_sample :
    (∀ u, Runs.exec (step (sampleDocs none) sampleEnrollment) rotated [.used 604800] = some u →
      VerifiesNothing (sampleDocs none) sampleEnrollment u oldKid 604800) ∧
      ∀ u, Runs.exec (step (sampleDocs (some rootKey)) sampleEnrollment) rootRotated [.used 0] =
        some u → VerifiesNothing (sampleDocs (some rootKey)) sampleEnrollment u oldKid 0 := by
  refine ⟨?_, ?_⟩
  · intro u hu
    rcases (retired_key_stays_unusable (sampleDocs none) sampleEnrollment [] start rotated
      ⟨.rotation, toNewKeySigned, 0, 0, true⟩ [.used 604800] u rfl trivial rfl step_rotated hu).1
      oldKid retires_oldKid ⟨fun h => h, fun _ _ => trivial⟩ with (hother | ⟨_, -, hnever⟩) | hend
    · exact absurd hother id
    · exact absurd hnever id
    · have hover : (0 : Int64).toInt + 604800 ≤ (604800 : Int64).toInt := by decide
      exact hend 604800 hover
  · intro u hu
    rcases (retired_key_stays_unusable (sampleDocs (some rootKey)) sampleEnrollment [] start
      rootRotated ⟨.rotation, byRootSigned, 0, 0, true⟩ [.used 0] u rfl trivial rfl
      (by decide +kernel) hu).2 oldKid rootRetires_oldKid ⟨fun h => h, fun _ _ => trivial⟩ with
      (hroot | ⟨_, -, hnever⟩) | hend
    · exact absurd hroot id
    · exact absurd hnever id
    · exact hend 0

def renewedStore : Store :=
  { tenantId := "t"
    keys := [⟨newKid, newKeyText, .retiring, some 605800⟩, ⟨oldKid, oldKeyText, .active, none⟩]
    rotationSeq := 2 }

/-- The retiring key signs a rotation to itself. No other key has signed, and the key verifies
documents when its time is over. -/
theorem retiring_key_renews_itself :
    step (sampleDocs none) sampleEnrollment start (rotationAt toNewKeySigned 0) = some rotated ∧
      Retires (sampleDocs none) sampleEnrollment start rotated
        ⟨.rotation, toNewKeySigned, 0, 0, true⟩ oldKid ∧
      Runs.exec (step (sampleDocs none) sampleEnrollment) rotated
        [rotationAt backToOldKeySigned 1000] = some ⟨some renewedStore, some renewedStore⟩ ∧
      ¬ Runs.Sometime (ReinstatedByOther (sampleDocs none) sampleEnrollment 604800 oldKid)
        (step (sampleDocs none) sampleEnrollment) rotated [rotationAt backToOldKeySigned 1000] ∧
      ¬ VerifiesNothing (sampleDocs none) sampleEnrollment ⟨some renewedStore, some renewedStore⟩
        oldKid 604800 := by
  refine ⟨step_rotated, retires_oldKid, by decide +kernel, ?_, ?_⟩
  · rintro (⟨-, -, hsigned⟩ | ⟨_, -, hnever⟩)
    · exact absurd hsigned (by decide +kernel)
    · exact hnever
  · intro hnothing
    exact absurd (hnothing renewedStore (by decide +kernel) 604800 toNewKeySigned)
      (by decide +kernel)

end Sample

end ClantoDesk.RetiredKeys
