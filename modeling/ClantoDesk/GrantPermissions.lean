import ClantoDesk.Connection

/-!
The permissions of a session grant. They are part of the flags of the connection, and
the check on the kind of a session consults a flag only for a controller with an ID
profile. Without a profile the grant restricts neither file transfer nor terminal nor port
forward.
-/
namespace ClantoDesk.GrantPermissions

open Connection IdPermissions
open SessionGrant (GrantInfo sampleHost sampleGrant sampleInfo)

def typePermission : AuthConnType → Option Permission
  | .fileTransfer => some .file
  | .terminal => some .terminal
  | .portForward => some .tunnel
  | _ => none

structure Enforced (c : Conn) : Prop where
  file : c.closed = false → c.authorized = false → c.fileTransfer.isSome = true →
    grantAllows c.clantoGrant .file = true
  terminal : c.closed = false → c.authorized = false → c.terminal = true →
    grantAllows c.clantoGrant .terminal = true
  tunnel : c.closed = false → c.authorized = false →
    ∀ host port multiplex, c.lr.kind = .portForward host port multiplex →
      grantAllows c.clantoGrant .tunnel = true
  forwarding : c.closed = false → c.authorized = true → c.isPortForward = true →
    grantAllows c.clantoGrant .tunnel = true
  admitted : c.authorized = true → ∃ a, c.admission = some a ∧
    ∀ kind p, c.authedConnType = some kind → typePermission kind = some p →
      grantAllows a.grant p = true
  served : ∀ grant ∈ c.served, grantAllows grant .tunnel = true

/-- The grant allows the kind of session that the login of the connection asks for. -/
structure Allowed (c : Conn) : Prop where
  file : c.fileTransfer.isSome = true → grantAllows c.clantoGrant .file = true
  terminal : c.terminal = true → grantAllows c.clantoGrant .terminal = true
  tunnel : ∀ host port multiplex, c.lr.kind = .portForward host port multiplex →
    grantAllows c.clantoGrant .tunnel = true

theorem Allowed.of_same {c r : Conn} (h : Allowed c) (hsame : SameLogin c r) : Allowed r := by
  refine ⟨?_, ?_, ?_⟩
  · rw [hsame.fileTransfer, hsame.clantoGrant]
    exact h.file
  · rw [hsame.terminal, hsame.clantoGrant]
    exact h.terminal
  · rw [hsame.lr, hsame.clantoGrant]
    exact h.tunnel

theorem Enforced.allowed {c : Conn} (h : Enforced c) (hopen : c.closed = false)
    (hnew : c.authorized = false) : Allowed c :=
  ⟨h.file hopen hnew, h.terminal hopen hnew, h.tunnel hopen hnew⟩

end ClantoDesk.GrantPermissions
