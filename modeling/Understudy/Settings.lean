import Understudy.Response.Chunks
import Understudy.Session
import Understudy.Text.Blank
import Understudy.Yaml.Record

/-!
# Understudy.Settings

The settings of a server.

Settings are read from a YAML document in three sections, `listen`, `websocket` and `chunked`; every
field has a default. Settings that no server can run with are refused, and the first fault counts.
-/

namespace Understudy

/-- Where a server listens, and the limits that it keeps. -/
structure Settings where
  host : String := "127.0.0.1"
  /-- The port; with zero, the server takes one that is free. -/
  port : UInt16 := 0
  /-- How long a session waits for its messages before it closes, in milliseconds. -/
  closeTimeout : Nat := Session.defaultCloseTimeout
  /-- The greatest size of a chunk. -/
  maxChunkSize : Nat := Chunks.defaultMaxSize
deriving Repr, DecidableEq

namespace Settings

/-- Why no server can run with some settings. -/
inductive Fault where
  | emptyHost
  | noChunkSize
  | noCloseTimeout
deriving Repr, DecidableEq

/-- The fault in words. -/
def Fault.message : Fault → String
  | emptyHost => "'listen.host' must not be empty"
  | noChunkSize => "'chunked.max_chunk_size' must be greater than 0"
  | noCloseTimeout => "'websocket.close_timeout_ms' must be greater than 0; " ++
      "sessions would drop scheduled messages on every close"

/-- The first fault of settings, if they have one. -/
def fault? (s : Settings) : Option Fault :=
  if (Text.trim s.host.toList).isEmpty then some .emptyHost
  else if s.maxChunkSize = 0 then some .noChunkSize
  else if s.closeTimeout = 0 then some .noCloseTimeout
  else none

/-- The address to listen at. -/
def address (s : Settings) : String := s.host ++ ":" ++ toString s.port.toNat

/-! ### Reading -/

/-- Takes settings from a node. What it does not say is as in the default. -/
def decode (n : Yaml.Node) : Yaml.Decoder Settings := do
  let sections ← n.record ["listen", "websocket", "chunked"]
  let listen ← (sections.nodeOrMissing "listen").record ["host", "port"]
  let websocket ← (sections.nodeOrMissing "websocket").record ["close_timeout_ms"]
  let chunked ← (sections.nodeOrMissing "chunked").record ["max_chunk_size"]
  let d : Settings := {}
  return {
    host := ← listen.withDefault "host" d.host Yaml.Node.text
    port := ← listen.withDefault "port" d.port Yaml.Node.word16
    closeTimeout := ← websocket.withDefault "close_timeout_ms" d.closeTimeout Yaml.Node.word64
    maxChunkSize := ← chunked.withDefault "max_chunk_size" d.maxChunkSize Yaml.Node.word64 }

/-- Reads settings. -/
def read (text : String) : Except (Yaml.Refusal Fault) Settings :=
  match Yaml.decode? decode text with
  | none => .error .malformed
  | some s =>
    match s.fault? with
    | some fault => .error (.invalid fault)
    | none => .ok s

end Settings

end Understudy
