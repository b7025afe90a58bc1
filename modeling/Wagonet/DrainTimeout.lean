import Wagonet.DrainLoop

/-!
The time that the drain loop gives the connection tasks.

A task is aborted when the timeout has elapsed, and not before. A timeout of zero is
meant to be none at all, but the loop has no branch for it: zero has always elapsed.
-/

namespace Wagonet

open Library

namespace Server

variable {config : Config} {s s' : Server} {a : Act}

end Server

end Wagonet
