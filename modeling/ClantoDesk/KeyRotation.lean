import ClantoDesk.Runs
import ClantoDesk.TenantKeys

/-!
The documents that change the keys of the tenant, src/clanto/tenant_keys.rs. A rotation brings a
new key and retires the others; a list of grant keys replaces them all. Either is signed by
a usable key of the tenant or by the root key fixed at build time. The store is
saved after every accepted document and read again after a restart. Writing the file
may fail.
-/
namespace ClantoDesk.KeyRotation

open TenantKeys

def retiringSecs : Int64 := 7 * 24 * 60 * 60

structure Rotation where
  kind : String
  tenantId : String
  newKey : String
  newKeyId : String
  validFrom : Int64
  seq : UInt64

structure ListedKey where
  kid : String
  publicKey : String
  notAfter : Option Int64
  state : KeyState

def ListedKey.toKey (l : ListedKey) : TenantKey := ⟨l.kid, l.publicKey, l.state, l.notAfter⟩

structure GrantKeys where
  version : UInt64
  keys : List ListedKey
  revocations : List Revocation

/-- The libraries, the root key of the build and the two parsers. -/
structure Documents extends Crypto where
  rootKey : Option Bytes
  decodeError : String → String
  parseRotation : Bytes → Except String Rotation
  parseGrantKeys : Bytes → Except String GrantKeys

def verifyRoot (docs : Documents) (signed : Signed) : Option Bytes :=
  docs.rootKey.bind fun pk => verifyWith docs.toCrypto (docs.encode64 pk) signed

def retire (byRoot : Bool) (now : Int64) (key : TenantKey) : TenantKey :=
  if key.state = .revoked then key
  else if byRoot then { key with state := .revoked }
  else if key.state = .active then
    { key with state := .retiring, notAfter := some (now + retiringSecs) }
  else key

def applyRotation (docs : Documents) (s : Store) (r : Rotation) (byRoot : Bool) (now : Int64) :
    Except String Unit × Store :=
  if r.kind ≠ "" ∧ r.kind ≠ "tenant_key_rotation" then (.error "not a key rotation", s)
  else if r.tenantId ≠ s.tenantId then (.error "rotation for another tenant", s)
  else if r.seq ≤ s.rotationSeq then
    (.error ("rotation " ++ toString r.seq ++ " already applied"), s)
  else
    match docs.decode64 r.newKey with
    | none => (.error (docs.decodeError r.newKey), s)
    | some pk =>
      if (docs.publicKeyFromSlice pk).isNone ∨ kidOf docs.toCrypto pk ≠ r.newKeyId then
        (.error "invalid new tenant key", s)
      else if now + 300 < r.validFrom then (.error "rotation not yet valid", s)
      else
        (.ok (),
          { s with
            keys := (s.keys.map (retire byRoot now)).filter (fun k => k.kid ≠ r.newKeyId) ++
              [⟨r.newKeyId, r.newKey, .active, none⟩]
            rotationSeq := r.seq })

def listedKey (docs : Documents) (k : ListedKey) : Except String TenantKey :=
  match docs.decode64 k.publicKey with
  | none => .error (docs.decodeError k.publicKey)
  | some pk =>
    if (docs.publicKeyFromSlice pk).isNone ∨ kidOf docs.toCrypto pk ≠ k.kid then
      .error ("invalid key " ++ k.kid)
    else
      match k.state with
      | .other text => .error ("invalid key state " ++ text)
      | _ => .ok k.toKey

def applyGrantKeys (docs : Documents) (s : Store) (list : GrantKeys) (byRoot : Bool) :
    Except String Unit × Store :=
  if list.version ≤ s.grantKeysVersion then
    (.error ("grant keys v" ++ toString list.version ++ " not newer than v" ++
      toString s.grantKeysVersion), s)
  else
    match list.keys.mapM (listedKey docs) with
    | .error text => (.error text, s)
    | .ok keys =>
      if !byRoot && !keys.any (fun k => k.state = .active) then
        (.error "grant keys without an active key", s)
      else
        (.ok (),
          { s with
            keys := if keys.isEmpty then s.keys else keys
            revocations := list.revocations
            grantKeysVersion := list.version })

inductive Kind
  | rotation | grantKeys

def untrusted : Kind → String
  | .rotation => "rotation signature not trusted"
  | .grantKeys => "grant keys signature not trusted"

def applyDocument (docs : Documents) (kind : Kind) (s : Store) (payload : Bytes) (byRoot : Bool)
    (now : Int64) : Except String Unit × Store :=
  match kind with
  | .rotation =>
    match docs.parseRotation payload with
    | .error text => (.error text, s)
    | .ok r => applyRotation docs s r byRoot now
  | .grantKeys =>
    match docs.parseGrantKeys payload with
    | .error text => (.error text, s)
    | .ok list =>
      match applyGrantKeys docs s list byRoot with
      | (.ok _, s) => (.ok (), prune s now)
      | refused => refused

/-- The body of `receive_rotation` and `receive_grant_keys`. -/
def receiveIn (docs : Documents) (kind : Kind) (signed : Signed) (now : Int64) (s : Store) :
    Except String Unit × Store :=
  match verifyIn docs.toCrypto s signed none now with
  | some payload => applyDocument docs kind s payload false now
  | none =>
    match verifyRoot docs signed with
    | some payload => applyDocument docs kind s payload true now
    | none => (.error (untrusted kind), s)

structure Keys where
  cached : Option Store
  file : Option Store
  deriving DecidableEq

/-- The clock when the store is pruned and when the document is checked, in seconds. -/
structure Received where
  kind : Kind
  signed : Signed
  pruned : Int64
  now : Int64
  saved : Bool

inductive Event
  | received (doc : Received)
  | used (now : Int64)
  | restart

def receive (docs : Documents) (enrolled : Option Enrollment) (doc : Received) (s : Keys) :
    Except String Unit × Keys :=
  match withStore docs.toCrypto enrolled s.file doc.pruned s.cached
      (receiveIn docs doc.kind doc.signed doc.now) with
  | (some (.ok _), cached) => (.ok (), ⟨cached, if doc.saved then cached else s.file⟩)
  | (some (.error text), cached) => (.error text, ⟨cached, s.file⟩)
  | (none, cached) => (.error "device not enrolled", ⟨cached, s.file⟩)

def step (docs : Documents) (e : Enrollment) (s : Keys) : Event → Option Keys
  | .received doc => some (receive docs (some e) doc s).2
  | .used now =>
    some { s with
      cached := (withStore docs.toCrypto (some e) s.file now s.cached fun st => ((), st)).2 }
  | .restart => some { s with cached := none }

def start : Keys := ⟨none, none⟩

/-- The store that the next access finds. -/
def current (docs : Documents) (e : Enrollment) (s : Keys) : Option Store :=
  if s.cached.all (fun st => st.tenantId != e.tenantId) = true then load docs.toCrypto s.file e
  else s.cached

def Trusted (docs : Documents) (s : Store) (signed : Signed) (now : Int64) (payload : Bytes)
    (byRoot : Bool) : Prop :=
  match byRoot with
  | false => verifyIn docs.toCrypto s signed none now = some payload
  | true => verifyIn docs.toCrypto s signed none now = none ∧ verifyRoot docs signed = some payload

inductive Accepts (docs : Documents) (signed : Signed) (now : Int64)
    (s : Store) : Kind → Store → Prop
  | rotation (payload : Bytes) (byRoot : Bool) (r : Rotation) (pk : Bytes)
      (htrust : Trusted docs s signed now payload byRoot)
      (hparse : docs.parseRotation payload = .ok r) (hnewer : s.rotationSeq < r.seq)
      (hkey : docs.decode64 r.newKey = some pk) (hkid : r.newKeyId = kidOf docs.toCrypto pk) :
      Accepts docs signed now s .rotation
        { s with
          keys := (s.keys.map (retire byRoot now)).filter (fun k => k.kid ≠ r.newKeyId) ++
            [⟨r.newKeyId, r.newKey, .active, none⟩]
          rotationSeq := r.seq }
  | grantKeys (payload : Bytes) (byRoot : Bool) (list : GrantKeys) (keys : List TenantKey)
      (htrust : Trusted docs s signed now payload byRoot)
      (hparse : docs.parseGrantKeys payload = .ok list) (hnewer : s.grantKeysVersion < list.version)
      (hkeys : list.keys.mapM (listedKey docs) = .ok keys)
      (hactive : byRoot = false → ∃ key ∈ keys, key.state = .active) :
      Accepts docs signed now s .grantKeys
        (prune { s with
          keys := if keys.isEmpty then s.keys else keys
          revocations := list.revocations
          grantKeysVersion := list.version } now)

variable (byRoot : Bool) (now : Int64) (key : TenantKey) (docs : Documents) (e : Enrollment)
  (s : Store)

theorem applyRotation_spec (r : Rotation) (byRoot : Bool) (now : Int64) :
    (∃ text, applyRotation docs s r byRoot now = (.error text, s)) ∨
      ∃ pk, s.rotationSeq < r.seq ∧ docs.decode64 r.newKey = some pk ∧
        r.newKeyId = kidOf docs.toCrypto pk ∧ applyRotation docs s r byRoot now =
          (.ok (),
            { s with
              keys := (s.keys.map (retire byRoot now)).filter (fun k => k.kid ≠ r.newKeyId) ++
                [⟨r.newKeyId, r.newKey, .active, none⟩]
              rotationSeq := r.seq }) := by
  unfold applyRotation
  split
  · exact Or.inl ⟨_, rfl⟩
  · split
    · exact Or.inl ⟨_, rfl⟩
    · split
      · exact Or.inl ⟨_, rfl⟩
      · rename_i hseq
        split
        · exact Or.inl ⟨_, rfl⟩
        · rename_i pk hkey
          split
          · exact Or.inl ⟨_, rfl⟩
          · rename_i hpk
            rw [not_or, not_not] at hpk
            split
            · exact Or.inl ⟨_, rfl⟩
            · exact Or.inr ⟨pk, UInt64.not_le.mp hseq, hkey, hpk.2.symm, rfl⟩

theorem applyGrantKeys_spec (list : GrantKeys) (byRoot : Bool) :
    (∃ text, applyGrantKeys docs s list byRoot = (.error text, s)) ∨
      ∃ keys, s.grantKeysVersion < list.version ∧ list.keys.mapM (listedKey docs) = .ok keys ∧
        (byRoot = false → ∃ key ∈ keys, key.state = .active) ∧
        applyGrantKeys docs s list byRoot =
          (.ok (),
            { s with
              keys := if keys.isEmpty then s.keys else keys
              revocations := list.revocations
              grantKeysVersion := list.version }) := by
  unfold applyGrantKeys
  split
  · exact Or.inl ⟨_, rfl⟩
  · rename_i hversion
    split
    · exact Or.inl ⟨_, rfl⟩
    · rename_i keys hkeys
      split
      · exact Or.inl ⟨_, rfl⟩
      · rename_i hactive
        refine Or.inr ⟨keys, UInt64.not_le.mp hversion, hkeys, ?_, rfl⟩
        rintro rfl
        simpa using hactive

theorem applyDocument_spec (kind : Kind) (s : Store) (signed : Signed)
    (payload : Bytes) (byRoot : Bool) (now : Int64)
    (htrust : Trusted docs s signed now payload byRoot) :
    (∃ text, applyDocument docs kind s payload byRoot now = (.error text, s)) ∨
      ∃ t, applyDocument docs kind s payload byRoot now = (.ok (), t) ∧
        Accepts docs signed now s kind t := by
  cases kind with
  | rotation =>
    cases hparse : docs.parseRotation payload with
    | error text => exact Or.inl ⟨text, by simp only [applyDocument, hparse]⟩
    | ok r =>
      simp only [applyDocument, hparse]
      rcases applyRotation_spec docs s r byRoot now with ⟨text, heq⟩ | ⟨pk, hnewer, hkey, hkid, heq⟩
      · exact Or.inl ⟨text, heq⟩
      · exact Or.inr ⟨_, heq, .rotation payload byRoot r pk htrust hparse hnewer hkey hkid⟩
  | grantKeys =>
    cases hparse : docs.parseGrantKeys payload with
    | error text => exact Or.inl ⟨text, by simp only [applyDocument, hparse]⟩
    | ok list =>
      simp only [applyDocument, hparse]
      rcases applyGrantKeys_spec docs s list byRoot with
        ⟨text, heq⟩ | ⟨keys, hnewer, hkeys, hactive, heq⟩
      · exact Or.inl ⟨text, by rw [heq]⟩
      · exact Or.inr ⟨_, by rw [heq],
          .grantKeys payload byRoot list keys htrust hparse hnewer hkeys hactive⟩

theorem receiveIn_spec (kind : Kind) (signed : Signed) (now : Int64) (s : Store) :
    (∃ text, receiveIn docs kind signed now s = (.error text, s)) ∨
      ∃ t, receiveIn docs kind signed now s = (.ok (), t) ∧ Accepts docs signed now s kind t := by
  unfold receiveIn
  split
  · rename_i payload hverify
    exact applyDocument_spec docs kind s signed payload false now hverify
  · rename_i hnone
    split
    · rename_i payload hroot
      exact applyDocument_spec docs kind s signed payload true now ⟨hnone, hroot⟩
    · exact Or.inl ⟨_, rfl⟩

theorem withStore_enrolled {α : Type*} (docs : Documents) (e : Enrollment) (s : Keys) (now : Int64)
    (f : Store → α × Store) :
    withStore docs.toCrypto (some e) s.file now s.cached f =
      match current docs e s with
      | none => (none, none)
      | some st => (some (f (prune st now)).1, some (f (prune st now)).2) := rfl

theorem receive_spec (doc : Received) (s : Keys) :
    (current docs e s = none ∧ ∃ text, receive docs (some e) doc s = (.error text,
    ⟨none, s.file⟩)) ∨
      ∃ st, current docs e s = some st ∧
        ((∃ text, receive docs (some e) doc s =
            (.error text, ⟨some (prune st doc.pruned), s.file⟩)) ∨
          ∃ t, Accepts docs doc.signed doc.now (prune st doc.pruned) doc.kind t ∧
            receive docs (some e) doc s =
              (.ok (), ⟨some t, if doc.saved then some t else s.file⟩)) := by
  unfold receive
  rw [withStore_enrolled]
  cases hcurrent : current docs e s with
  | none => exact Or.inl ⟨rfl, _, rfl⟩
  | some st =>
    refine Or.inr ⟨st, rfl, ?_⟩
    rcases receiveIn_spec docs doc.kind doc.signed doc.now (prune st doc.pruned) with
      ⟨text, heq⟩ | ⟨t, heq, haccepts⟩
    · exact Or.inl ⟨text, by simp only [heq]⟩
    · exact Or.inr ⟨t, haccepts, by simp only [heq]⟩

section Stores

variable (docs : Documents) (e : Enrollment) {P : Store → Prop}

/-- A property of the current store and of the file that pruning and accepted documents keep. -/
theorem stores_step {s t : Keys} {event : Event} (hprune : ∀ st now, P st → P (prune st now))
    (haccept : ∀ doc st u, event = .received doc → (receive docs (some e) doc s).1 = .ok () →
      P (prune st doc.pruned) →
      Accepts docs doc.signed doc.now (prune st doc.pruned) doc.kind u → P u)
    (hcurrent : ∀ st, current docs e s = some st → P st) (hfile : ∀ f, s.file = some f → P f)
    (hstep : step docs e s event = some t) :
    (∀ st, t.cached = some st → P st) ∧ ∀ f, t.file = some f → P f := by
  cases event with
  | received doc =>
    obtain rfl := Option.some.inj hstep
    rcases receive_spec docs e doc s with ⟨-, text, heq⟩ | ⟨st, hst,
      ⟨text, heq⟩ | ⟨u, haccepts, heq⟩⟩
    · rw [heq]
      exact ⟨fun st hst => (by cases hst), hfile⟩
    · rw [heq]
      refine ⟨?_, hfile⟩
      rintro _ ⟨⟩
      exact hprune st doc.pruned (hcurrent st hst)
    · have hu : P u := haccept doc st u rfl (by rw [heq]) (hprune st doc.pruned (hcurrent st hst))
        haccepts
      rw [heq]
      refine ⟨?_, ?_⟩
      · rintro _ ⟨⟩
        exact hu
      · intro f hf
        simp only at hf
        split at hf
        · obtain rfl := Option.some.inj hf
          exact hu
        · exact hfile f hf
  | used now =>
    obtain rfl := Option.some.inj hstep
    refine ⟨?_, hfile⟩
    rw [withStore_enrolled]
    intro st' hst'
    cases hst : current docs e s with
    | none =>
      rw [hst] at hst'
      cases hst'
    | some st =>
      rw [hst] at hst'
      obtain rfl := Option.some.inj hst'
      exact hprune st now (hcurrent st hst)
  | restart =>
    obtain rfl := Option.some.inj hstep
    exact ⟨fun st hst => (by cases hst), hfile⟩

theorem current_cases {s : Keys} {st : Store} (h : current docs e s = some st) :
    s.cached = some st ∧ st.tenantId = e.tenantId ∨
      s.file = some st ∧ st.tenantId = e.tenantId ∨ initial docs.toCrypto e = some st := by
  unfold current at h
  split at h
  · unfold load at h
    rcases Option.or_eq_some_iff.mp h with hfile | ⟨-, hinitial⟩
    · obtain ⟨hsome, htenant⟩ := Option.filter_eq_some_iff.mp hfile
      rw [Bool.and_eq_true, beq_iff_eq] at htenant
      exact Or.inr (Or.inl ⟨hsome, htenant.1⟩)
    · exact Or.inr (Or.inr hinitial)
  · rename_i hcached
    rw [h] at hcached
    exact Or.inl ⟨h, by simpa using hcached⟩

end Stores

structure Valid (docs : Documents) (s : Store) : Prop where
  kids : ∀ key ∈ s.keys, ∃ pk, docs.decode64 key.publicKey = some pk ∧
    key.kid = kidOf docs.toCrypto pk
  active : docs.rootKey = none → ∃ key ∈ s.keys, key.state = .active

theorem pruneKey_kid : (pruneKey now key).kid = key.kid := by
  unfold pruneKey
  split <;> rfl

theorem pruneKey_publicKey : (pruneKey now key).publicKey = key.publicKey := by
  unfold pruneKey
  split <;> rfl

theorem pruneKey_active (h : key.state = .active) : pruneKey now key = key := by
  simp [pruneKey, h]

theorem retire_kid : (retire byRoot now key).kid = key.kid := by
  unfold retire
  split
  · rfl
  · split
    · rfl
    · split <;> rfl

theorem retire_publicKey : (retire byRoot now key).publicKey = key.publicKey := by
  unfold retire
  split
  · rfl
  · split
    · rfl
    · split <;> rfl

theorem Valid.prune {docs : Documents} {s : Store} (h : Valid docs s) (now : Int64) :
    Valid docs (prune s now) := by
  refine ⟨?_, ?_⟩
  · intro key hkey
    obtain ⟨old, hold, rfl⟩ := List.mem_map.mp hkey
    rw [pruneKey_publicKey, pruneKey_kid]
    exact h.kids old hold
  · intro hroot
    obtain ⟨key, hkey, hactive⟩ := h.active hroot
    exact ⟨key, List.mem_map.mpr ⟨key, hkey, pruneKey_active now key hactive⟩, hactive⟩

theorem listedKey_ok {docs : Documents} {l : ListedKey} {key : TenantKey}
    (h : listedKey docs l = .ok key) :
    key = l.toKey ∧ ∃ pk, docs.decode64 l.publicKey = some pk ∧ l.kid = kidOf docs.toCrypto pk := by
  unfold listedKey at h
  split at h
  · cases h
  · rename_i pk hpk
    split at h
    · cases h
    · rename_i hkid
      rw [not_or, not_not] at hkid
      split at h
      · cases h
      · exact ⟨(Except.ok.inj h).symm, pk, hpk, hkid.2.symm⟩

theorem mapM_listedKey {docs : Documents} {listed : List ListedKey} {keys : List TenantKey}
    (h : listed.mapM (listedKey docs) = .ok keys) :
    keys = listed.map ListedKey.toKey ∧ ∀ l ∈ listed, ∃ pk, docs.decode64 l.publicKey = some pk ∧
      l.kid = kidOf docs.toCrypto pk := by
  induction listed generalizing keys with
  | nil =>
    obtain rfl : [] = keys := by simpa [pure, Except.pure] using h
    exact ⟨rfl, fun l hl => by cases hl⟩
  | cons l listed ih =>
    rw [List.mapM_cons] at h
    cases hl : listedKey docs l with
    | error text => simp [hl, bind, Except.bind] at h
    | ok first =>
      cases hrest : listed.mapM (listedKey docs) with
      | error text => simp [hl, hrest, bind, Except.bind] at h
      | ok rest =>
        obtain rfl : first :: rest = keys := by
          simpa [hl, hrest, bind, Except.bind, pure, Except.pure] using h
        obtain ⟨rfl, hfirst⟩ := listedKey_ok hl
        obtain ⟨rfl, hothers⟩ := ih hrest
        refine ⟨rfl, ?_⟩
        intro l' hmem
        rcases List.mem_cons.mp hmem with rfl | hmem
        · exact hfirst
        · exact hothers l' hmem

theorem Accepts.valid {docs : Documents} {signed : Signed} {now : Int64} {s t : Store} {kind : Kind}
    (haccepts : Accepts docs signed now s kind t) (h : Valid docs s) : Valid docs t := by
  cases haccepts with
  | rotation payload byRoot r pk htrust hparse hnewer hkey hkid =>
    refine ⟨?_, fun _ => ⟨_, List.mem_append_right _ List.mem_cons_self, rfl⟩⟩
    intro key hmem
    rcases List.mem_append.mp hmem with hold | hnew
    · obtain ⟨old, holdmem, rfl⟩ := List.mem_map.mp (List.mem_filter.mp hold).1
      rw [retire_publicKey, retire_kid]
      exact h.kids old holdmem
    · obtain rfl := List.mem_singleton.mp hnew
      exact ⟨pk, hkey, hkid⟩
  | grantKeys payload byRoot list keys htrust hparse hnewer hkeys hactive =>
    refine Valid.prune ⟨?_, ?_⟩ now
    · intro key hmem
      simp only at hmem
      split at hmem
      · exact h.kids key hmem
      · obtain ⟨rfl, hpk⟩ := mapM_listedKey hkeys
        obtain ⟨l, hl, rfl⟩ := List.mem_map.mp hmem
        exact hpk l hl
    · intro hroot
      have hordinary : byRoot = false := by
        cases byRoot with
        | false => rfl
        | true =>
          have hsome := htrust.2
          rw [verifyRoot, hroot] at hsome
          cases hsome
      obtain ⟨key, hmem, hstate⟩ := hactive hordinary
      simp only [List.isEmpty_eq_false_iff.mpr (List.ne_nil_of_mem hmem), Bool.false_eq_true,
        if_false]
      exact ⟨key, hmem, hstate⟩

theorem initial_valid (h : initial docs.toCrypto e = some s) : Valid docs s := by
  obtain ⟨pk, hpk, rfl⟩ := Option.map_eq_some_iff.mp h
  refine ⟨?_, fun _ => ⟨_, List.mem_cons_self, rfl⟩⟩
  intro key hkey
  obtain rfl := List.mem_singleton.mp hkey
  exact ⟨pk, hpk, rfl⟩

theorem current_of_stores {docs : Documents} {e : Enrollment} {s : Keys} {P : Store → Prop}
    (h : (∀ st, s.cached = some st → P st) ∧ ∀ f, s.file = some f → P f)
    (hinitial : ∀ st, initial docs.toCrypto e = some st → P st) (st : Store)
    (hst : current docs e s = some st) : P st := by
  rcases current_cases docs e hst with ⟨hcached, -⟩ | ⟨hfile, -⟩ | hfirst
  · exact h.1 st hcached
  · exact h.2 st hfile
  · exact hinitial st hfirst

theorem current_valid (events : List Event) (s : Keys)
    (hexec : Runs.exec (step docs e) start events = some s) (st : Store)
    (hst : current docs e s = some st) : Valid docs st := by
  refine current_of_stores ?_ (initial_valid docs e) st hst
  refine Runs.invariant_of_exec (step docs e)
    (fun s => (∀ st, s.cached = some st → Valid docs st) ∧ ∀ f, s.file = some f → Valid docs f)
    ?_ start s events ⟨fun st h => (by cases h), fun f h => (by cases h)⟩ hexec
  intro s event t hs hstep
  refine stores_step docs e (fun st now h => h.prune now)
    (fun doc st u _ _ h haccepts => haccepts.valid h)
    (current_of_stores hs (initial_valid docs e)) hs.2 hstep

theorem current_tenant {docs : Documents} {e : Enrollment} {s : Keys} {st : Store}
    (h : current docs e s = some st) : st.tenantId = e.tenantId := by
  rcases current_cases docs e h with ⟨-, htenant⟩ | ⟨-, htenant⟩ | hinitial
  · exact htenant
  · exact htenant
  · obtain ⟨pk, -, rfl⟩ := Option.map_eq_some_iff.mp hinitial
    rfl

theorem current_of_cached {docs : Documents} {e : Enrollment} {s : Keys} {st : Store}
    (hcached : s.cached = some st) (htenant : st.tenantId = e.tenantId) :
    current docs e s = some st := by
  simp [current, hcached, htenant]

theorem current_restarted {docs : Documents} {e : Enrollment} {s : Keys}
    (h : current docs e s = none) : current docs e ⟨none, s.file⟩ = none := by
  unfold current at h
  split at h
  · exact h
  · rename_i hcached
    rw [h] at hcached
    exact absurd rfl hcached

theorem Accepts.tenant {docs : Documents} {signed : Signed} {now : Int64} {s t : Store}
    {kind : Kind}
    (h : Accepts docs signed now s kind t) : t.tenantId = s.tenantId := by
  cases h <;> rfl

theorem Accepts.newer {docs : Documents} {signed : Signed} {now : Int64} {s t : Store} {kind : Kind}
    (h : Accepts docs signed now s kind t) :
    (kind = .rotation → s.rotationSeq < t.rotationSeq) ∧
      (kind = .grantKeys → s.grantKeysVersion < t.grantKeysVersion) := by
  cases h with
  | rotation payload byRoot r pk htrust hparse hnewer hkey hkid =>
    exact ⟨fun _ => hnewer, fun hkind => (by cases hkind)⟩
  | grantKeys payload byRoot list keys htrust hparse hnewer hkeys hactive =>
    exact ⟨fun hkind => (by cases hkind), fun _ => hnewer⟩

/-- An accepted document of its kind is newer than all before, a refused one changes nothing but
what pruning at that moment changes, and the keys stay valid. -/
theorem documents_keep_store (docs : Documents) (e : Enrollment) (events : List Event) (s : Keys)
    (hexec : Runs.exec (step docs e) start events = some s) :
    (∀ st, current docs e s = some st → Valid docs st) ∧
      ∀ doc,
        (∀ t, receive docs (some e) doc s = (.ok (), t) →
          ∃ st st', current docs e s = some st ∧ current docs e t = some st' ∧
            (doc.kind = .rotation → st.rotationSeq < st'.rotationSeq) ∧
            (doc.kind = .grantKeys → st.grantKeysVersion < st'.grantKeysVersion)) ∧
        ∀ text t, receive docs (some e) doc s = (.error text, t) →
          t.file = s.file ∧ current docs e t = (current docs e s).map fun st =>
              prune st doc.pruned := by
  refine ⟨current_valid docs e events s hexec, fun doc => ⟨?_, ?_⟩⟩
  · intro t hreceive
    rcases receive_spec docs e doc s with ⟨-, text, heq⟩ | ⟨st, hst,
      ⟨text, heq⟩ | ⟨u, haccepts, heq⟩⟩
    · cases heq.symm.trans hreceive
    · cases heq.symm.trans hreceive
    · obtain ⟨-, rfl⟩ := Prod.mk.inj (heq.symm.trans hreceive)
      have htenant : st.tenantId = e.tenantId := current_tenant hst
      exact ⟨st, u, hst, current_of_cached rfl (haccepts.tenant.trans htenant), haccepts.newer⟩
  · intro text t hreceive
    rcases receive_spec docs e doc s with
      ⟨hnone, _, heq⟩ | ⟨st, hst, ⟨_, heq⟩ | ⟨u, haccepts, heq⟩⟩
    · obtain ⟨-, rfl⟩ := Prod.mk.inj (heq.symm.trans hreceive)
      exact ⟨rfl, by rw [hnone, current_restarted hnone, Option.map_none]⟩
    · obtain ⟨-, rfl⟩ := Prod.mk.inj (heq.symm.trans hreceive)
      refine ⟨rfl, ?_⟩
      rw [hst, Option.map_some]
      exact current_of_cached rfl (current_tenant hst : st.tenantId = e.tenantId)
    · cases heq.symm.trans hreceive

/-! A tenant `t` with two keys and a root key, those of the first test vectors of Ed25519, and
documents signed with the first one and with the root key. The libraries answer for them as the
real ones do. -/
section Sample

def oldKey : Bytes :=
  [215, 90, 152, 1, 130, 177, 10, 183, 213, 75, 254, 211, 201, 100, 7, 58, 14, 225, 114, 243,
    218, 166, 35, 37, 175, 2, 26, 104, 247, 7, 81, 26]

def newKey : Bytes :=
  [61, 64, 23, 195, 232, 67, 137, 90, 146, 183, 10, 167, 77, 27, 126, 188, 156, 152, 44, 207, 46,
    196, 150, 140, 192, 205, 85, 241, 42, 244, 102, 12]

def rootKey : Bytes :=
  [252, 81, 205, 142, 98, 24, 161, 163, 141, 164, 126, 208, 2, 48, 240, 88, 8, 22, 237, 19, 186,
    51, 3, 172, 93, 235, 145, 21, 72, 144, 128, 37]

def rootKeyText : String := "/FHNjmIYoaONpH7QAjDwWAgW7RO6MwOsXeuRFUiQgCU="

def oldKeyText : String := "11qYAYKxCrfVS/7TyWQHOg7hcvPapiMlrwIaaPcHURo="

def newKeyText : String := "PUAXw+hDiVqStwqnTRt+vJyYLM8uxJaMwM1V8Sr0Zgw="

def oldKid : String := "If4x36FUomE="

def newKid : String := "OfcT0KZEJT8="

def toNewKey : Rotation := ⟨"", "t", newKeyText, newKid, 0, 1⟩

def backToOldKey : Rotation := ⟨"", "t", oldKeyText, oldKid, 0, 2⟩

def toNewKeyPayload : Bytes :=
  [123, 34, 116, 101, 110, 97, 110, 116, 95, 105, 100, 34, 58, 34, 116, 34, 44, 34, 110, 101,
    119, 95, 107, 101, 121, 34, 58, 34, 80, 85, 65, 88, 119, 43, 104, 68, 105, 86, 113, 83, 116,
    119, 113, 110, 84, 82, 116, 43, 118, 74, 121, 89, 76, 77, 56, 117, 120, 74, 97, 77, 119, 77,
    49, 86, 56, 83, 114, 48, 90, 103, 119, 61, 34, 44, 34, 110, 101, 119, 95, 107, 101, 121, 95,
    105, 100, 34, 58, 34, 79, 102, 99, 84, 48, 75, 90, 69, 74, 84, 56, 61, 34, 44, 34, 115, 101,
    113, 34, 58, 49, 125]

def backToOldKeyPayload : Bytes :=
  [123, 34, 116, 101, 110, 97, 110, 116, 95, 105, 100, 34, 58, 34, 116, 34, 44, 34, 110, 101,
    119, 95, 107, 101, 121, 34, 58, 34, 49, 49, 113, 89, 65, 89, 75, 120, 67, 114, 102, 86, 83,
    47, 55, 84, 121, 87, 81, 72, 79, 103, 55, 104, 99, 118, 80, 97, 112, 105, 77, 108, 114, 119,
    73, 97, 97, 80, 99, 72, 85, 82, 111, 61, 34, 44, 34, 110, 101, 119, 95, 107, 101, 121, 95,
    105, 100, 34, 58, 34, 73, 102, 52, 120, 51, 54, 70, 85, 111, 109, 69, 61, 34, 44, 34, 115,
    101, 113, 34, 58, 50, 125]

def toNewKeySignature : Bytes :=
  [137, 176, 45, 14, 18, 49, 178, 71, 183, 87, 197, 162, 52, 36, 129, 70, 52, 2, 3, 87, 133,
    123, 172, 215, 27, 170, 202, 111, 53, 117, 78, 219, 11, 17, 213, 184, 33, 241, 177, 113, 13,
    74, 176, 50, 171, 57, 235, 134, 148, 150, 20, 12, 40, 242, 63, 152, 230, 242, 40, 101, 91,
    98, 238, 1]

def backToOldKeySignature : Bytes :=
  [16, 26, 177, 79, 125, 172, 211, 30, 155, 70, 184, 49, 166, 224, 86, 153, 173, 143, 61, 147,
    145, 110, 57, 206, 19, 233, 8, 162, 65, 29, 154, 147, 9, 126, 237, 8, 10, 163, 169, 160, 217,
    63, 61, 150, 76, 58, 160, 79, 197, 42, 57, 252, 70, 171, 78, 218, 130, 79, 76, 179, 174, 196,
    2, 9]

def rootSignature : Bytes :=
  [12, 126, 139, 126, 89, 125, 166, 231, 120, 76, 118, 178, 135, 121, 247, 36, 230, 81, 53, 200,
    69, 115, 70, 251, 231, 213, 28, 185, 149, 231, 39, 137, 247, 202, 95, 183, 197, 135, 212,
    127, 123, 80, 161, 129, 145, 14, 48, 139, 252, 119, 16, 201, 70, 118, 28, 71, 232, 104, 250,
    183, 73, 177, 71, 3]

def toNewKeySigned : Signed :=
  ⟨"eyJ0ZW5hbnRfaWQiOiJ0IiwibmV3X2tleSI6IlBVQVh3K2hEaVZxU3R3cW5UUnQrdkp5WUxNOHV4SmFNd00xVjhT" ++
      "cjBaZ3c9IiwibmV3X2tleV9pZCI6Ik9mY1QwS1pFSlQ4PSIsInNlcSI6MX0=",
    "ibAtDhIxske3V8WiNCSBRjQCA1eFe6zXG6rKbzV1TtsLEdW4IfGxcQ1KsDKrOeuGlJYUDCjyP5jm8ihlW2LuAQ=="⟩

def backToOldKeySigned : Signed :=
  ⟨"eyJ0ZW5hbnRfaWQiOiJ0IiwibmV3X2tleSI6IjExcVlBWUt4Q3JmVlMvN1R5V1FIT2c3aGN2UGFwaU1scndJYWFQ" ++
      "Y0hVUm89IiwibmV3X2tleV9pZCI6IklmNHgzNkZVb21FPSIsInNlcSI6Mn0=",
    "EBqxT32s0x6bRrgxpuBWma2PPZORbjnOE+kIokEdmpMJfu0ICqOpoNk/PZZMOqBPxSo5/EarTtqCT0yzrsQCCQ=="⟩

def byRootSigned : Signed :=
  ⟨toNewKeySigned.payload,
    "DH6Lfll9pud4THayh3n3JOZRNchFc0b759UcuZXnJ4n3yl+3xYfUf3tQoYGRDjCL/HcQyUZ2HEfoaPq3SbFHAw=="⟩

def sampleDocs (root : Option Bytes) : Documents where
  decode64 text :=
    if text = oldKeyText then some oldKey
    else if text = newKeyText then some newKey
    else if text = toNewKeySigned.payload then some toNewKeyPayload
    else if text = toNewKeySigned.signature then some toNewKeySignature
    else if text = backToOldKeySigned.payload then some backToOldKeyPayload
    else if text = backToOldKeySigned.signature then some backToOldKeySignature
    else if text = byRootSigned.signature then some rootSignature
    else if text = rootKeyText then some rootKey
    else none
  encode64 b :=
    if b = rootKey then rootKeyText
    else if b = [33, 254, 49, 223, 161, 84, 162, 97] then oldKid
    else newKid
  sha256 b := if b = oldKey then [33, 254, 49, 223, 161, 84, 162, 97] else
    [57, 247, 19, 208, 166, 68, 37, 63]
  publicKeyFromSlice b := if b.length = 32 then some b else none
  signatureFromBytes b := if b.length = 64 then some b else none
  verifyDetached signature payload pk :=
    pk = oldKey ∧ (signature = toNewKeySignature ∧ payload = toNewKeyPayload ∨
      signature = backToOldKeySignature ∧ payload = backToOldKeyPayload) ∨
    pk = rootKey ∧ signature = rootSignature ∧ payload = toNewKeyPayload
  rootKey := root
  decodeError _ := "invalid base64"
  parseRotation payload :=
    if payload = toNewKeyPayload then .ok toNewKey
    else if payload = backToOldKeyPayload then .ok backToOldKey
    else .error "invalid JSON"
  parseGrantKeys _ := .error "invalid JSON"

def sampleEnrollment : Enrollment := ⟨"d", "t", oldKeyText⟩

def rotationAt (signed : Signed) (now : Int64) :
    Event := .received ⟨.rotation, signed, now, now, true⟩

def initialStore : Store := { tenantId := "t", keys := [⟨oldKid, oldKeyText, .active, none⟩] }

def rotatedStore : Store :=
  { tenantId := "t"
    keys := [⟨oldKid, oldKeyText, .retiring, some 604800⟩, ⟨newKid, newKeyText, .active, none⟩]
    rotationSeq := 1 }

def rotated : Keys := ⟨some rotatedStore, some rotatedStore⟩

theorem step_rotated :
    step (sampleDocs none) sampleEnrollment start (rotationAt toNewKeySigned 0) = some rotated := by
  decide +kernel

theorem exec_rotated :
    Runs.exec (step (sampleDocs none) sampleEnrollment) start [rotationAt toNewKeySigned 0] =
    some rotated :=
  (Runs.exec_cons _ _ _ _ _).mpr ⟨rotated, step_rotated, Runs.exec_nil _ _⟩

/-- The first rotation is accepted and leaves an active key. -/
theorem documents_keep_store_sample :
    (receive (sampleDocs none) (some sampleEnrollment) ⟨.rotation, toNewKeySigned, 0, 0,
    true⟩ start).1 =
        .ok () ∧
      current (sampleDocs none) sampleEnrollment rotated = some rotatedStore ∧
      Valid (sampleDocs none) rotatedStore := by
  have hcurrent : current (sampleDocs none) sampleEnrollment rotated = some rotatedStore := by
      decide +kernel
  exact ⟨by decide +kernel, hcurrent, (documents_keep_store (sampleDocs none) sampleEnrollment
    [rotationAt toNewKeySigned 0] rotated exec_rotated).1 rotatedStore hcurrent⟩

/-- The same document once more, seven days later, is refused, and the retiring key is revoked. -/
theorem refused_document_revokes :
    Runs.exec (step (sampleDocs none) sampleEnrollment) start [rotationAt toNewKeySigned 0] =
    some rotated ∧
      ∃ text t, receive (sampleDocs none) (some sampleEnrollment)
          ⟨.rotation, toNewKeySigned, 604800, 604800, true⟩ rotated = (.error text, t) ∧
        current (sampleDocs none) sampleEnrollment t ≠ current (sampleDocs none)
            sampleEnrollment rotated := by
  have hreceive : (receive (sampleDocs none) (some sampleEnrollment)
      ⟨.rotation, toNewKeySigned, 604800, 604800, true⟩ rotated) =
        (.error "rotation signature not trusted",
          ⟨some (prune rotatedStore 604800), some rotatedStore⟩) := by decide +kernel
  exact ⟨exec_rotated, _, _, hreceive, by decide +kernel⟩

end Sample

end ClantoDesk.KeyRotation
