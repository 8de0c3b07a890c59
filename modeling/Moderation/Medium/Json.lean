import Moderation.Json.Basic
import Moderation.Medium.Bus
import Moderation.Medium.Mailbox
/-!
# Media in JSON

Writing of what is on its way between nodes. Bytes are written as hexadecimal text.
-/

namespace Moderation

def Json.ofBytes (bs : Bytes) : Json := .string (String.ofList (Hex.encode bs))

def Frame.toJson (f : Frame) : Json :=
  .object [("channel", .string f.channel), ("bytes", Json.ofBytes f.payload),
    ("len", Json.ofNat f.payload.length), ("empty", .bool f.payload.isEmpty)]

def Letter.toJson (l : Letter) : Json :=
  .array [.integer l.time.toNat, Json.ofBytes l.payload]

end Moderation
