import ClantoDesk.Connection

/-!
The gates before the authorisation of a connection: ID whitelist, session grant, login
blocks and posture. A login request passes all of them before anything else is asked for, so
the click of the user and the second factor can rely on them. The answer to a
request to switch sides consults the whitelist alone.
-/
namespace ClantoDesk.LoginGates

open Connection
open SessionGrant (GrantInfo Host sampleHost)

end ClantoDesk.LoginGates
