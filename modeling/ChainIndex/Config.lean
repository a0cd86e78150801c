import ChainIndex.Error
import ChainIndex.Json.Writer

/-!
# Configurations

What a follower can be set to. Every setting has a default, so a document may leave
out any of them.

## Main definitions

* `Config`: The settings.
* `Config.read`, `Config.toJson`: Their document value.
* `Config.validate`: Can a follower run with them?
-/

namespace ChainIndex

/-- The settings of a follower. -/
structure Config where
  /-- The name of the network; it is only shown. -/
  network : String
  /-- The time between two cycles, in milliseconds. -/
  pollIntervalMs : UInt64
  /-- How long a stop waits for the cycle under way, in milliseconds. -/
  stopTimeoutMs : UInt64
  /-- By how many blocks the tip may trail the source of a ready follower. -/
  readinessMaxLag : UInt32
  /-- The symbol of the token that the first block seeds. -/
  nativeTokenSymbol : String
deriving DecidableEq

namespace Config

/-- The default settings. -/
def standard : Config where
  network := "mainnet"
  pollIntervalMs := 1000
  stopTimeoutMs := 30000
  readinessMaxLag := 2
  nativeTokenSymbol := "DFI"

/-- Reads settings. -/
def read : Json.Reader Config :=
  Json.record "SyncConfig" <|
    Config.mk <$> Json.fieldOr "network" Json.asString standard.network
      <*> Json.fieldOr "poll_interval_ms" Json.asUInt64 standard.pollIntervalMs
      <*> Json.fieldOr "stop_timeout_ms" Json.asUInt64 standard.stopTimeoutMs
      <*> Json.fieldOr "readiness_max_lag" Json.asUInt32 standard.readinessMaxLag
      <*> Json.fieldOr "native_token_symbol" Json.asString standard.nativeTokenSymbol

/-- The settings as an object. -/
def toJson (config : Config) : Json :=
  Json.ofFields
    [("network", .string config.network),
      ("poll_interval_ms", Json.ofUInt64 config.pollIntervalMs),
      ("stop_timeout_ms", Json.ofUInt64 config.stopTimeoutMs),
      ("readiness_max_lag", Json.ofUInt32 config.readinessMaxLag),
      ("native_token_symbol", .string config.nativeTokenSymbol)]

/-- Refuses settings that a follower cannot run with. -/
def validate (config : Config) : Except Error Unit :=
  if config.pollIntervalMs = 0 then .error (.config .zeroPollInterval) else .ok ()

/-- The time between two cycles, in microseconds. -/
def pollIntervalMicros (config : Config) : Nat := config.pollIntervalMs.toNat * 1000

/-- How long a stop waits, in microseconds. -/
def stopTimeoutMicros (config : Config) : Nat := config.stopTimeoutMs.toNat * 1000

end Config

end ChainIndex
