import TxBatch.Config.Json

/-! # The command line

What the program can be told: options that take a value, and switches that take none. Flags win
over the configuration file and the file over the defaults.
-/

namespace TxBatch

structure CommandLine where
  /-- Path of a configuration file. -/
  config : Option String := none
  workers : Option Int64 := none
  maxIncarnations : Option UInt32 := none
  /-- Run without a ceiling on incarnations. -/
  noRetryLimit : Bool := false
  /-- Transfers in the batch. -/
  transactions : UInt64 := 500
  /-- Accounts that transfers are drawn from. -/
  accounts : UInt32 := 128
  initialBalance : UInt64 := 1000
  /-- Largest amount of a transfer. -/
  maxAmount : UInt64 := 500
  seed : UInt64 := 42
  logLevel : String := "info"
deriving Repr, DecidableEq, Inhabited

namespace CommandLine

/-- Put the flags of a command line over a configuration. -/
def override (c : CommandLine) (config : Config) : Config where
  workers := c.workers.getD config.workers
  maxIncarnations :=
    if c.noRetryLimit then none
    else
      match c.maxIncarnations with
      | some limit => some limit
      | none => config.maxIncarnations

/-- The configuration that a command line comes to, over the files it can find. A file is checked
by itself, before any flag is put over it. -/
def schedulerConfig (c : CommandLine) (files : String → FileContent) : Except ConfigFault Config :=
  let base : Except ConfigFault Config := match c.config with
    | none => .ok {}
    | some path => Config.ofFile path (files path)
  base.bind fun config =>
    let config := c.override config
    config.validate.map fun () => config

end CommandLine

end TxBatch
