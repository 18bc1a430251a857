import ClantoDesk.Guards
import ClantoDesk.Base64
import ClantoDesk.Lines
import ClantoDesk.Text
import Mathlib.Data.List.SplitOn

/-!
Trusted controllers, src/clanto/trusted_controllers.rs. A controller signs the host, the
challenge of the connection, its own id and its public key, each on a line of its own; a host that
has the id and the key in its list checks the signature against the lines it builds itself. The
challenge comes from the host and the id from the configuration of the controller, so either may
hold newlines: the lines between the host and the key are then the same text, but not cut at the
same place.
-/
namespace ClantoDesk.TrustedControllers

open Text Lines

def SIGNATURE_DOMAIN : Str := "clanto-controller-v1".toList

def MAX_ENTRIES : ℕ := 500

def PUBLICKEYBYTES : ℕ := 32

abbrev Bytes := List UInt8

structure Entry where
  id : Str
  key : Bytes
  deriving DecidableEq

def encodeKey (key : Bytes) : Str := Base64.encode key

def decodeKey (s : Str) : Option Bytes := do
  let key ← Base64.decode (trim s)
  if key.length = PUBLICKEYBYTES then some key else none

def validId (id : Str) : Bool :=
  !id.isEmpty && decide (byteLength id ≤ 64) && id.all fun c => c.isAlphanum || c == '-' || c == '_'

def isSeparator (c : Char) : Bool := c == ',' || c == ';' || isWhitespace c

def parseItem (item : Str) : Option Entry := do
  let (id, key) ← splitOnce '=' item
  let id := trim id
  if validId id then (decodeKey key).map fun key => ⟨id, key⟩ else none

def parseNext (parsed : List Entry × List Str) (item : Str) : List Entry × List Str :=
  match parseItem item with
  | some entry =>
    if parsed.1.length < MAX_ENTRIES then
      if entry ∈ parsed.1 then parsed else (parsed.1 ++ [entry], parsed.2)
    else (parsed.1, parsed.2 ++ [item])
  | none => (parsed.1, parsed.2 ++ [item])

def parse (list : Str) : List Entry × List Str :=
  ((list.splitOnP isSeparator).filter fun item => !item.isEmpty).foldl parseNext ([], [])

def canonicalText (hostId challenge controllerId : Str) (key : Bytes) : Str :=
  unlines '\n' [SIGNATURE_DOMAIN, hostId, challenge, controllerId, encodeKey key]

def canonicalMessage (hostId challenge controllerId : Str) (key : Bytes) : ByteArray :=
  (String.ofList (canonicalText hostId challenge controllerId key)).toUTF8

structure Scheme (Secret : Type) where
  signDetached : ByteArray → Secret → Bytes
  isSignature : Bytes → Bool
  verifyDetached : Bytes → ByteArray → Bytes → Bool

/-- A signature is accepted for the message it was made for only. -/
def Scheme.Binding {Secret : Type} (scheme : Scheme Secret) : Prop :=
  ∀ message secret message' key,
    scheme.verifyDetached (scheme.signDetached message secret) message' key = true →
      message' = message

variable {Secret : Type}

/-- The signature of a login; `keypair` is the key of the user, if the key store has one. -/
def signLogin (scheme : Scheme Secret) (keypair : Option (Bytes × Secret))
    (hostId challenge controllerId : Str) : Option (Bytes × Bytes) :=
  if hostId.isEmpty || challenge.isEmpty || controllerId.isEmpty then none
  else
    keypair.map fun (pk, sk) =>
      (pk, scheme.signDetached (canonicalMessage hostId challenge controllerId pk) sk)

def verifyWithList (scheme : Scheme Secret) (list hostId challenge controllerId : Str)
    (key signature : Bytes) : Bool :=
  if hostId.isEmpty || challenge.isEmpty || controllerId.isEmpty then false
  else if !(parse list).1.any fun e => e.id == controllerId && e.key == key then false
  else if !(key.length == PUBLICKEYBYTES && scheme.isSignature signature) then false
  else scheme.verifyDetached signature (canonicalMessage hostId challenge controllerId key) key

/-- The check of a host; `list` and `hostId` are from its configuration. -/
def verifyLogin (scheme : Scheme Secret) (list hostId challenge controllerId : Str)
    (key signature : Bytes) : Bool :=
  if (trim list).isEmpty || key.isEmpty || signature.isEmpty then false
  else verifyWithList scheme list hostId challenge controllerId key signature

/-! ### The list -/

def Entry.Valid (e : Entry) : Prop := validId e.id = true ∧ e.key.length = PUBLICKEYBYTES

theorem valid_of_parseItem (item : Str) (e : Entry) (h : parseItem item = some e) : e.Valid := by
  obtain ⟨⟨id, key⟩, -, hentry⟩ := Option.bind_eq_some_iff.mp h
  simp only at hentry
  split at hentry
  · rename_i hid
    obtain ⟨bytes, hbytes, rfl⟩ := Option.map_eq_some_iff.mp hentry
    obtain ⟨decoded, -, hlen⟩ := Option.bind_eq_some_iff.mp hbytes
    obtain ⟨hlength, rfl⟩ := of_guard hlen
    exact ⟨hid, hlength⟩
  · cases hentry

theorem valid_parseNext (parsed : List Entry × List Str) (item : Str)
    (h : ∀ e ∈ parsed.1, e.Valid) : ∀ e ∈ (parseNext parsed item).1, e.Valid := by
  intro e he
  rw [parseNext] at he
  split at he
  · rename_i entry hentry
    split at he
    · split at he
      · exact h e he
      · rcases List.mem_append.mp he with hold | hnew
        · exact h e hold
        · rw [List.mem_singleton.mp hnew]
          exact valid_of_parseItem item entry hentry
    · exact h e he
  · exact h e he

theorem valid_foldl (items : List Str) (parsed : List Entry × List Str)
    (h : ∀ e ∈ parsed.1, e.Valid) : ∀ e ∈ (items.foldl parseNext parsed).1, e.Valid := by
  induction items generalizing parsed with
  | nil => exact h
  | cons item items ih => exact ih (parseNext parsed item) (valid_parseNext parsed item h)

/-- Only entries with a valid id and a key of the right length give trust. -/
theorem valid_of_mem_parse (list : Str) (e : Entry) (he : e ∈ (parse list).1) : e.Valid :=
  valid_foldl _ ([], []) (fun _ hnil => by cases hnil) e he

theorem not_mem_of_validId (id : Str) (h : validId id = true) : '\n' ∉ id := by
  simp only [validId, Bool.and_eq_true, List.all_eq_true] at h
  intro hmem
  have hnewline := h.2 '\n' hmem
  revert hnewline
  decide

/-! ### The signed message -/

theorem canonicalText_inj (a b : Str) (h : (String.ofList a).toUTF8 = (String.ofList b).toUTF8) :
    a = b := by
  have hstring : String.ofList a = String.ofList b := String.toByteArray_inj.mp h
  have hlist := congrArg String.toList hstring
  rwa [String.toList_ofList, String.toList_ofList] at hlist

theorem not_mem_encodeKey (key : Bytes) : '\n' ∉ encodeKey key := by
  intro hmem
  have halphabet := Base64.mem_encode key '\n' hmem
  revert halphabet
  decide

/-- The lines of a message from the host to the key, with the key's line cut off. -/
theorem canonicalText_eq (hostId challenge controllerId : Str) (key : Bytes) :
    canonicalText hostId challenge controllerId key =
      (SIGNATURE_DOMAIN ++ ['\n']) ++
        (hostId ++ '\n' :: ((challenge ++ '\n' :: controllerId) ++ '\n' :: encodeKey key)) ++
          ['\n'] := by
  simp [canonicalText]

theorem message_binds (hostA hostB challengeA challengeB idA idB : Str) (keyA keyB : Bytes)
    (hA : '\n' ∉ hostA) (hB : '\n' ∉ hostB)
    (h : canonicalMessage hostA challengeA idA keyA = canonicalMessage hostB challengeB idB keyB) :
    hostA = hostB ∧ keyA = keyB ∧
      challengeA ++ '\n' :: idA = challengeB ++ '\n' :: idB := by
  have htext := canonicalText_inj _ _ h
  rw [canonicalText_eq, canonicalText_eq] at htext
  have hlines := List.append_cancel_left (List.append_cancel_right htext)
  obtain ⟨hhost, hrest⟩ := append_mark_inj '\n' hostA hostB _ _ hA hB hlines
  obtain ⟨hmiddle, hkey⟩ := append_mark_inj_last '\n' _ _ _ _ (not_mem_encodeKey keyA)
    (not_mem_encodeKey keyB) hrest
  exact ⟨hhost, Base64.encode_injective keyA keyB hkey, hmiddle⟩

/-- An id without a newline ends the text where it begins. -/
theorem ids_bind (challengeA challengeB idA idB : Str) (hA : '\n' ∉ idA) (hB : '\n' ∉ idB)
    (h : challengeA ++ '\n' :: idA = challengeB ++ '\n' :: idB) :
    challengeA = challengeB ∧ idA = idB :=
  append_mark_inj_last '\n' challengeA challengeB idA idB hA hB h

theorem of_verifyLogin (scheme : Scheme Secret) (list hostId challenge controllerId : Str)
    (key signature : Bytes)
    (h : verifyLogin scheme list hostId challenge controllerId key signature = true) :
    validId controllerId = true ∧
      scheme.verifyDetached signature (canonicalMessage hostId challenge controllerId key) key =
        true := by
  simp only [verifyLogin] at h
  split at h
  · cases h
  · simp only [verifyWithList] at h
    split at h
    · cases h
    · split at h
      · cases h
      · rename_i hlisted
        split at h
        · cases h
        · have hany : ((parse list).1.any fun e => e.id == controllerId && e.key == key) =
              true := by
            simpa using hlisted
          obtain ⟨e, he, hsame⟩ := List.any_eq_true.mp hany
          have hid : e.id = controllerId := by
            simp only [Bool.and_eq_true, beq_iff_eq] at hsame
            exact hsame.1
          exact ⟨hid ▸ (valid_of_mem_parse list e he).1, h⟩

theorem of_signLogin (scheme : Scheme Secret) (keypair : Option (Bytes × Secret))
    (hostId challenge controllerId : Str) (key signature : Bytes)
    (h : signLogin scheme keypair hostId challenge controllerId = some (key, signature)) :
    ∃ secret, keypair = some (key, secret) ∧ signature =
      scheme.signDetached (canonicalMessage hostId challenge controllerId key) secret := by
  simp only [signLogin] at h
  split at h
  · cases h
  · obtain ⟨⟨pk, sk⟩, hpair, heq⟩ := Option.map_eq_some_iff.mp h
    obtain ⟨rfl, rfl⟩ := Prod.mk.inj heq
    exact ⟨sk, hpair, rfl⟩

/-- A signature made for one host is not accepted by another, nor with another key; the text it
fixes between the two is the challenge, a newline and the id. Where the signing controller's id has
no newline, the challenge and the id are fixed one by one. -/
theorem login_signature_binds (scheme : Scheme Secret) (hbinding : scheme.Binding)
    (hostA hostB challengeA challengeB idA idB : Str) (keyA keyB : Bytes)
    (hA : '\n' ∉ hostA) (hB : '\n' ∉ hostB) :
    (canonicalMessage hostA challengeA idA keyA = canonicalMessage hostB challengeB idB keyB →
      hostA = hostB ∧ keyA = keyB ∧ challengeA ++ '\n' :: idA = challengeB ++ '\n' :: idB ∧
        ('\n' ∉ idA → '\n' ∉ idB → challengeA = challengeB ∧ idA = idB)) ∧
    (∀ (keypair : Option (Bytes × Secret)) (list : Str) (signature : Bytes),
      signLogin scheme keypair hostA challengeA idA = some (keyA, signature) →
      verifyLogin scheme list hostB challengeB idB keyB signature = true →
      hostA = hostB ∧ keyA = keyB ∧ ('\n' ∉ idA → challengeA = challengeB ∧ idA = idB)) := by
  constructor
  · intro hmessage
    obtain ⟨hhost, hkey, hmiddle⟩ := message_binds _ _ _ _ _ _ _ _ hA hB hmessage
    exact ⟨hhost, hkey, hmiddle, fun hidA hidB => ids_bind _ _ _ _ hidA hidB hmiddle⟩
  · intro keypair list signature hsign hverify
    obtain ⟨secret, -, rfl⟩ := of_signLogin scheme keypair _ _ _ _ _ hsign
    obtain ⟨hvalid, haccepted⟩ := of_verifyLogin scheme list _ _ _ _ _ hverify
    have hmessage := hbinding _ _ _ _ haccepted
    obtain ⟨hhost, hkey, hmiddle⟩ := message_binds _ _ _ _ _ _ _ _ hA hB hmessage.symm
    exact ⟨hhost, hkey, fun hidA => ids_bind _ _ _ _ hidA (not_mem_of_validId idB hvalid) hmiddle⟩

def sampleKey : Bytes := List.replicate 32 7

def sampleScheme : Scheme Unit where
  signDetached message _ := message.data.toList
  isSignature signature := !signature.isEmpty
  verifyDetached signature message key := signature == message.data.toList && key == sampleKey

theorem sampleScheme_binding : sampleScheme.Binding := by
  intro message secret message' key h
  have hsame : message.data.toList = message'.data.toList := by
    simp only [sampleScheme, Bool.and_eq_true, beq_iff_eq] at h
    exact h.1
  exact ByteArray.ext (Array.toList_inj.mp hsame.symm)

def sampleList : Str := "111222333=".toList ++ encodeKey sampleKey

theorem login_signature_binds_sample :
    ∃ signature, signLogin sampleScheme (some (sampleKey, ())) "host1".toList "abc123".toList
        "111222333".toList = some (sampleKey, signature) ∧
      verifyLogin sampleScheme sampleList "host1".toList "abc123".toList "111222333".toList
        sampleKey
        signature = true ∧
      "host1".toList = "host1".toList ∧ sampleKey = sampleKey ∧
      ('\n' ∉ "111222333".toList →
        "abc123".toList = "abc123".toList ∧ "111222333".toList = "111222333".toList) := by
  have hverify : verifyLogin sampleScheme sampleList "host1".toList "abc123".toList
      "111222333".toList sampleKey (sampleScheme.signDetached
        (canonicalMessage "host1".toList "abc123".toList "111222333".toList sampleKey)
            ()) = true := by
    decide
  have hsign : signLogin sampleScheme (some (sampleKey, ())) "host1".toList "abc123".toList
      "111222333".toList = some (sampleKey, sampleScheme.signDetached
        (canonicalMessage "host1".toList "abc123".toList "111222333".toList sampleKey) ()) := rfl
  exact ⟨_, hsign, hverify, (login_signature_binds sampleScheme sampleScheme_binding _ _ _ _ _ _ _ _
    (by decide) (by decide)).2 _ sampleList _ hsign hverify⟩

/-- A controller whose id has a newline signs one text for two challenges. -/
theorem message_of_two_challenges :
    ¬ ∀ (hostA hostB challengeA challengeB idA idB : Str) (keyA keyB : Bytes),
      '\n' ∉ hostA → '\n' ∉ hostB →
      canonicalMessage hostA challengeA idA keyA = canonicalMessage hostB challengeB idB keyB →
      hostA = hostB ∧ challengeA = challengeB ∧ idA = idB ∧ keyA = keyB := by
  intro hall
  have hequal := (hall "host1".toList "host1".toList "x".toList "x\ny".toList "y\nz".toList
    "z".toList sampleKey sampleKey (by decide) (by decide) (by decide)).2.1
  revert hequal
  decide

end ClantoDesk.TrustedControllers
