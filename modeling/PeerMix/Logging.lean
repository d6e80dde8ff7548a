/-!
# Logging

A process has at most one receiver of log lines.  It is installed once and
stays.
-/

namespace PeerMix

structure Logging where
  installed : Bool
  deriving DecidableEq, Repr

namespace Logging

def silent : Logging :=
  { installed := false }

/-- Installs a receiver, unless there is one already. -/
def install (l : Logging) : Except String Unit × Logging :=
  if l.installed then (.error "tracing already initialised", l)
  else (.ok (), { installed := true })

end Logging
end PeerMix
