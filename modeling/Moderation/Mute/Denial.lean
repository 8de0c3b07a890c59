import Moderation.Punishment.Basic
/-!
# Denials

What a muted player is told.
-/

namespace Moderation.Mute.Denial

def brief (p : Punishment) : String := s!"muted: {p.reason}"

def full (p : Punishment) : String :=
  if p.Permanent then s!"You are permanently muted: {p.reason}"
  else s!"You are muted until {p.ends}: {p.reason}"

end Moderation.Mute.Denial
