/-!
# Durations

A span of time in milliseconds, written in seconds from one second on and in
milliseconds below.  No trailing zeros follow the decimal point.
-/

namespace PeerMix
namespace Duration

def places (n : Nat) : String :=
  if n % 1000 = 0 then ""
  else if n % 100 = 0 then s!".{n / 100}"
  else if n % 10 = 0 then s!".{n / 100}{n / 10 % 10}"
  else s!".{n / 100}{n / 10 % 10}{n % 10}"

def text (milliseconds : Nat) : String :=
  if milliseconds = 0 then "0ns"
  else if milliseconds < 1000 then s!"{milliseconds}ms"
  else s!"{milliseconds / 1000}{places (milliseconds % 1000)}s"

end Duration
end PeerMix
