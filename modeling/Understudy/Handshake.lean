import Understudy.Digest.Sha1
import Understudy.Text.Ascii
import Understudy.Text.Base64
import Understudy.Text.Blank
import Understudy.Text.Cut

/-!
# Understudy.Handshake

Asking for a WebSocket, and the answer.

The values of headers are octets here, as they come from a connection, and only the first header of
each name counts. A request asks for a WebSocket if it names that protocol to upgrade to, says so in
its `Connection` header too, and has a key. The key is answered with the digest of itself and of a
text that every WebSocket server knows.
-/

namespace Understudy

/-- Headers as they come from a connection. -/
abbrev RawHeaders := List (String × Bytes)

namespace RawHeaders

/-- The value of the first header with a name, in letters of either case. -/
def get? (headers : RawHeaders) (name : String) : Option Bytes :=
  (headers.find? fun header => Ascii.sameLetters header.1 name).map (·.2)

/-- Whether an octet is a visible character, a space or a tab. -/
def isVisible (b : UInt8) : Bool := (0x20 ≤ b && b < 0x7F) || b = 0x09

/-- A value as text, if every octet of it is visible. -/
def visible? (value : Bytes) : Option String :=
  if value.all isVisible then some (String.ofList (value.map fun b => Char.ofNat b.toNat)) else none

/-- The value of the first header with a name, as text. -/
def text? (headers : RawHeaders) (name : String) : Option String :=
  (headers.get? name).bind visible?

end RawHeaders

namespace Handshake

/-- The header that names the protocol to upgrade to. -/
def upgradeHeader : String := "upgrade"

/-- The header that says what happens to a connection. -/
def connectionHeader : String := "connection"

/-- The header with a key. -/
def keyHeader : String := "sec-websocket-key"

/-- The header with the answer to a key. -/
def acceptHeader : String := "sec-websocket-accept"

/-- The text that every WebSocket server knows. -/
def magic : String := "258EAFA5-E914-47DA-95CA-C5AB0DC85B11"

/-- Whether one of the options in a list with commas is `upgrade`. -/
def listsUpgrade (value : String) : Bool :=
  (Text.fields ',' value.toList).any fun part =>
    Ascii.sameLetters (String.ofList (Text.trim part)) upgradeHeader

/-- Whether a request asks for a WebSocket. -/
def isAsked (headers : RawHeaders) : Bool :=
  (headers.text? upgradeHeader).any (Ascii.sameLetters · "websocket") &&
    (headers.text? connectionHeader).any listsUpgrade && (headers.get? keyHeader).isSome

/-- The answer to a key. -/
def answerTo (key : Bytes) : String :=
  String.ofList (Base64.encode (Sha1.digest (key ++ Utf8.encode magic)))

/-- The answer to the key of a request, if it has one. -/
def answer? (headers : RawHeaders) : Option String := (headers.get? keyHeader).map answerTo

/-- The headers that say yes to a request for a WebSocket. -/
def replyHeaders (answer : String) : List (String × String) :=
  [(upgradeHeader, "websocket"), (connectionHeader, "Upgrade"), (acceptHeader, answer)]

end Handshake

end Understudy
