import HarmonyLite.Db.Replicate
import HarmonyLite.Logstream.Listener

/-! A started process: one listener for each shard, all of them on one database. -/

namespace HarmonyLite

open Cbor

/-- The listeners of a process, one loop for each shard. -/
structure Listeners (Shard DB : Type) where
  process : Process DB
  loops : Shard → Loop

variable {Shard DB : Type}

def Listeners.shard (s : Listeners Shard DB) (shard : Shard) : Listening DB :=
  ⟨s.process, s.loops shard⟩

/-- One iteration of a shard's loop. -/
def Listeners.iterate [DecidableEq Shard] (s : Listeners Shard DB)
    (receiver : Shard → Receiver DB) (shard : Shard) (i : Iteration)
    : Listeners Shard DB :=
  let after := listenStep (receiver shard) (s.shard shard) i
  ⟨after.process, Function.update s.loops shard after.loop⟩

/-- An iteration changes the database only by the message it takes. -/
theorem db_listenStep (r : Receiver DB) (s : Listening DB) (i : Iteration)
    : (listenStep r s i).process.db = s.process.db
      ∨ ∃ m, Takes r s i m (listenStep r s i).process.db := by
  have iterates := iterates_listenStep r s i
  generalize listenStep r s i = after at iterates ⊢
  cases iterates with
  | idle => exact .inl rfl
  | stopped => exact .inl rfl
  | discarded => exact .inl rfl
  | refused => exact .inl rfl
  | interrupted takes => exact .inr ⟨_, takes⟩
  | retried =>
      rw [advance_repState]
      exact .inl rfl
  | applied takes =>
      rw [advance_repState]
      exact .inr ⟨_, takes⟩

theorem Takes.db_listenStep {r : Receiver DB} {s : Listening DB} {i : Iteration} {m : Message}
    {db : DB} (takes : Takes r s i m db)
    : (listenStep r s i).process.db = db := by
  obtain ⟨gate, step⟩ := takes.listenStep_eq
  rw [step]
  cases i.canceled with
  | true => rfl
  | false =>
      simp only [Bool.false_eq_true, ↓reduceIte, advance_repState]
      rfl

/-- How a process replicates: a stream for each shard, one codec and one database. -/
structure ShardsConfig (Shard : Type) where
  streamName : Shard → GoString
  codec : Codec
  decompress : Bytes → Option Bytes
  conn : SqliteStreamDB

def ShardsConfig.receiver (config : ShardsConfig Shard) (replicateFlag : Bool) (shard : Shard)
    : Receiver (Database config.conn.catalog) :=
  WireConfig.receiver
    ⟨config.streamName shard, config.codec, config.decompress, config.conn.replicate,
      replicateFlag⟩

end HarmonyLite
