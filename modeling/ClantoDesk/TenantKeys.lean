import Mathlib.Data.List.Basic

/-!
The signing keys of the tenant, src/clanto/tenant_keys.rs, as far as a document is
verified with them. The store is kept in memory for the current tenant, read
from its file when it belongs to another tenant, and started from the key
of the enrolment when the file has none. Times are seconds, as 64-bit integers.
Decoding, hashing and signature verification are parameters.
-/
namespace ClantoDesk.TenantKeys

abbrev Bytes := List UInt8

structure Signed where
  payload : String
  signature : String
  deriving DecidableEq

/-- The texts of the field `state`; any other text makes the key unusable. -/
inductive KeyState
  | active | retiring | revoked | other (text : String)
  deriving DecidableEq

structure TenantKey where
  kid : String
  publicKey : String
  state : KeyState
  notAfter : Option Int64
  deriving DecidableEq

structure Revocation where
  nonce : Option String
  sessionId : Option String
  userId : Option String
  untilSecs : Int64
  deriving DecidableEq

structure Store where
  tenantId : String
  keys : List TenantKey
  rotationSeq : UInt64 := 0
  grantKeysVersion : UInt64 := 0
  revocations : List Revocation := []
  deriving DecidableEq

structure Enrollment where
  deviceId : String
  tenantId : String
  tenantKey : String
  deriving DecidableEq

/-- What the code takes from its libraries. -/
structure Crypto where
  decode64 : String → Option Bytes
  encode64 : Bytes → String
  sha256 : Bytes → Bytes
  publicKeyFromSlice : Bytes → Option Bytes
  signatureFromBytes : Bytes → Option Bytes
  /-- The signature, the signed bytes and the public key, in this order. -/
  verifyDetached : Bytes → Bytes → Bytes → Bool

def kidOf (crypto : Crypto) (publicKey : Bytes) : String :=
  crypto.encode64 ((crypto.sha256 publicKey).take 8)

def initial (crypto : Crypto) (e : Enrollment) : Option Store :=
  (crypto.decode64 e.tenantKey).map fun pk =>
    { tenantId := e.tenantId
      keys := [⟨kidOf crypto pk, e.tenantKey, .active, none⟩] }

/-- `file` is the parsed content of the state file, if it could be read. -/
def load (crypto : Crypto) (file : Option Store) (e : Enrollment) : Option Store :=
  (file.filter fun s => s.tenantId == e.tenantId && !s.keys.isEmpty).or (initial crypto e)

def pruneKey (now : Int64) (key : TenantKey) : TenantKey :=
  if key.state = .retiring ∧ key.notAfter.any (fun t => decide (t ≤ now)) = true then
    { key with state := .revoked }
  else key

def prune (s : Store) (now : Int64) : Store :=
  { s with
    keys := s.keys.map (pruneKey now)
    revocations := s.revocations.filter fun r => decide (now < r.untilSecs) }

/-- Runs `f` on the pruned store of the current tenant and keeps the store in memory. -/
def withStore {α : Type*} (crypto : Crypto) (enrolled : Option Enrollment) (file : Option Store)
    (now : Int64) (cached : Option Store) (f : Store → α × Store) : Option α × Option Store :=
  match enrolled with
  | none => (none, cached)
  | some e =>
    let guarded :=
      if cached.all (fun s => s.tenantId != e.tenantId) = true then load crypto file e else cached
    match guarded with
    | none => (none, none)
    | some s =>
      let (result, s') := f (prune s now)
      (some result, some s')

def usable (key : TenantKey) (now : Int64) : Bool :=
  match key.state with
  | .active => true
  | .retiring => key.notAfter.all fun t => decide (now < t)
  | _ => false

def verifyWith (crypto : Crypto) (publicKey : String) (signed : Signed) : Option Bytes := do
  let pk ← crypto.publicKeyFromSlice (← crypto.decode64 publicKey)
  let payload ← crypto.decode64 signed.payload
  let signature ← crypto.signatureFromBytes (← crypto.decode64 signed.signature)
  if crypto.verifyDetached signature payload pk then some payload else none

def verifyIn (crypto : Crypto) (s : Store) (signed : Signed) (kid : Option String)
    (now : Int64) : Option Bytes :=
  (s.keys.filter fun k => usable k now && kid.all (fun kid => kid == k.kid)).findSome? fun k =>
    verifyWith crypto k.publicKey signed

def verify (crypto : Crypto) (enrolled : Option Enrollment) (file : Option Store)
    (now : Int64) (signed : Signed) (kid : Option String) (cached : Option Store) :
    Except String Bytes × Option Store :=
  match withStore crypto enrolled file now cached
      fun s => (verifyIn crypto s signed kid now, s) with
  | (some (some payload), cached') => (.ok payload, cached')
  | (some none, cached') => (.error "signature not valid for any trusted tenant key", cached')
  | (none, cached') => (.error "device not enrolled", cached')

def revokes (r : Revocation) (nonce sessionId userId : String) : Bool :=
  r.nonce == some nonce || (!sessionId.isEmpty && r.sessionId == some sessionId) ||
    (!userId.isEmpty && r.userId == some userId)

def isRevoked (crypto : Crypto) (enrolled : Option Enrollment) (file : Option Store)
    (now : Int64) (nonce sessionId userId : String) (cached : Option Store) :
    Bool × Option Store :=
  match withStore crypto enrolled file now cached
      fun s => (s.revocations.any fun r => revokes r nonce sessionId userId, s) with
  | (some revoked, cached') => (revoked, cached')
  | (none, cached') => (false, cached')

theorem verifyWith_payload (crypto : Crypto) (publicKey : String) (signed : Signed)
    (payload : Bytes) (h : verifyWith crypto publicKey signed = some payload) :
    crypto.decode64 signed.payload = some payload := by
  simp only [verifyWith, Option.bind_eq_bind, Option.bind_eq_some_iff] at h
  obtain ⟨_, -, _, -, bytes, hbytes, _, -, _, -, hif⟩ := h
  split at hif
  · rw [hbytes, hif]
  · cases hif

theorem verifyIn_payload (crypto : Crypto) (s : Store) (signed : Signed) (kid : Option String)
    (now : Int64) (payload : Bytes) (h : verifyIn crypto s signed kid now = some payload) :
    crypto.decode64 signed.payload = some payload := by
  obtain ⟨k, -, hk⟩ := List.exists_of_findSome?_eq_some h
  exact verifyWith_payload crypto k.publicKey signed payload hk

theorem withStore_eq_some {α : Type*} (crypto : Crypto) (enrolled : Option Enrollment)
    (file cached : Option Store) (now : Int64) (f : Store → α × Store) (result : α)
    (h : (withStore crypto enrolled file now cached f).1 = some result) :
    ∃ s, (f s).1 = result := by
  unfold withStore at h
  cases enrolled with
  | none => cases h
  | some e =>
    simp only at h
    generalize (if cached.all (fun s => s.tenantId != e.tenantId) = true
      then load crypto file e else cached) = guarded at h
    cases guarded with
    | none => cases h
    | some s => exact ⟨prune s now, by simpa using h⟩

theorem verify_payload (crypto : Crypto) (enrolled : Option Enrollment) (file cached : Option Store)
    (now : Int64) (signed : Signed) (kid : Option String) (payload : Bytes)
    (h : (verify crypto enrolled file now signed kid cached).1 = .ok payload) :
    crypto.decode64 signed.payload = some payload := by
  unfold verify at h
  split at h
  · rename_i bytes cached' hstore
    obtain rfl : bytes = payload := by simpa using h
    obtain ⟨s, hs⟩ := withStore_eq_some crypto enrolled file cached now _ (some bytes)
      (congrArg Prod.fst hstore)
    exact verifyIn_payload crypto s signed kid now bytes hs
  · cases h
  · cases h

end ClantoDesk.TenantKeys
