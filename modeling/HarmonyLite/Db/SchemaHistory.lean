import HarmonyLite.Basis.Runs
import HarmonyLite.Logstream.SchemaValidation

/-! `SchemaCache` over its life: what its two hashes are after `Initialize` and any calls of
`Recompute`. Each call holds the mutex, so the calls come one after the other.
-/

namespace HarmonyLite

/-- What `ComputeSchemaHash` returns when it succeeds. -/
structure SchemaHash where
  hash : GoString
  filled : hash ≠ .empty

def newSchemaCache : SchemaCache := ⟨.empty, .empty⟩

/-- `Initialize`, given what `ComputeSchemaHash` returns; an error changes nothing. -/
def SchemaCache.initializeFrom (cache : SchemaCache) (computed : Option GoString) : SchemaCache :=
  match computed with
  | none => cache
  | some hash => { cache with schemaHash := hash }

/-- The cache after a call of `Recompute`. -/
def SchemaCache.afterRecompute (cache : SchemaCache) (outcome : Option SchemaHash)
    : SchemaCache :=
  (cache.recompute (outcome.map SchemaHash.hash)).2

/-- The hashes that were computed, in order. -/
def computedHashes (outcomes : List (Option SchemaHash)) : List GoString :=
  outcomes.filterMap (Option.map SchemaHash.hash)

/-- The previous hash comes right before the unbroken run of the current one, which ends the
history; without another hash before that run it is empty.
-/
structure LastTwo (history : List GoString) (cache : SchemaCache) : Prop where
  current : history.getLast? = some cache.schemaHash
  previous
    : (∃ before run, history = before ++ cache.previousHash :: run
        ∧ ∀ hash ∈ run, hash = cache.schemaHash)
      ∨ ((∀ hash ∈ history, hash = cache.schemaHash) ∧ cache.previousHash = .empty)
  distinct : cache.previousHash ≠ cache.schemaHash

namespace LastTwo

variable {history : List GoString} {cache : SchemaCache}

theorem initializeFrom (first : SchemaHash)
    : LastTwo [first.hash] (newSchemaCache.initializeFrom (some first.hash)) where
  current := rfl
  previous := .inr ⟨by simp [SchemaCache.initializeFrom], rfl⟩
  distinct := first.filled.symm

/-- The hash that the schema still has only makes the run longer. -/
theorem again (tracked : LastTwo history cache)
    : LastTwo (history ++ [cache.schemaHash]) cache where
  current := by simp
  previous := by
    rcases tracked.previous with ⟨before, run, split, same⟩ | ⟨same, none⟩
    · refine .inl ⟨before, run ++ [cache.schemaHash], by rw [split]; simp, ?_⟩
      simpa [or_imp, forall_and] using same
    · refine .inr ⟨?_, none⟩
      simpa [or_imp, forall_and] using same
  distinct := tracked.distinct

/-- Another hash begins a run of its own, after the one that was current. -/
theorem changed (tracked : LastTwo history cache) {hash : GoString}
    (different : hash ≠ cache.schemaHash)
    : LastTwo (history ++ [hash]) ⟨hash, cache.schemaHash⟩ where
  current := by simp
  previous := by
    obtain ⟨before, split⟩ := List.getLast?_eq_some_iff.mp tracked.current
    exact .inl ⟨before, [hash], by rw [split]; simp, by simp⟩
  distinct := different.symm

/-- A recomputation that fails adds nothing to the history; one that succeeds adds its hash. -/
theorem afterRecompute (tracked : LastTwo history cache) (filled : cache.schemaHash ≠ .empty)
    (outcome : Option SchemaHash)
    : LastTwo (history ++ computedHashes [outcome]) (cache.afterRecompute outcome) := by
  cases outcome with
  | none =>
      have unchanged : cache.afterRecompute none = cache := rfl
      simpa [computedHashes, unchanged] using tracked
  | some computed =>
      change LastTwo (history ++ [computed.hash]) _
      by_cases same : computed.hash = cache.schemaHash
      · have unchanged : cache.afterRecompute (some computed) = cache := by
          simp [SchemaCache.afterRecompute, SchemaCache.recompute, same]
        rw [unchanged, same]
        exact tracked.again
      · have next : cache.afterRecompute (some computed) = ⟨computed.hash, cache.schemaHash⟩ := by
          simp [SchemaCache.afterRecompute, SchemaCache.recompute, same, filled]
        rw [next]
        exact tracked.changed same

end LastTwo

theorem SchemaCache.afterRecompute_ne_empty {cache : SchemaCache}
    (filled : cache.schemaHash ≠ .empty) (outcome : Option SchemaHash)
    : (cache.afterRecompute outcome).schemaHash ≠ .empty := by
  cases outcome with
  | none => exact filled
  | some computed => exact computed.filled

/-- By induction on the calls, with the history so far. -/
theorem LastTwo.run {history : List GoString} {cache : SchemaCache}
    (tracked : LastTwo history cache) (filled : cache.schemaHash ≠ .empty)
    (outcomes : List (Option SchemaHash))
    : LastTwo (history ++ computedHashes outcomes)
        (Runs.run SchemaCache.afterRecompute cache outcomes) := by
  induction outcomes generalizing history cache with
  | nil => simpa [computedHashes] using tracked
  | cons outcome rest ih =>
      have split : history ++ computedHashes (outcome :: rest)
          = (history ++ computedHashes [outcome]) ++ computedHashes rest := by
        cases outcome <;> simp [computedHashes]
      rw [split]
      exact ih (tracked.afterRecompute filled outcome)
        (SchemaCache.afterRecompute_ne_empty filled outcome)

/-- After `Initialize` and any calls of `Recompute` the cache holds the last two schemas of the
history, and one more call that fails leaves it as it is.
-/
theorem schemaCache_tracks_history (first : SchemaHash) (outcomes : List (Option SchemaHash))
    : let cache := Runs.run SchemaCache.afterRecompute
        (newSchemaCache.initializeFrom (some first.hash)) outcomes
      LastTwo (first.hash :: computedHashes outcomes) cache
        ∧ cache.recompute none = (none, cache) :=
  ⟨(LastTwo.initializeFrom first).run first.filled outcomes, rfl⟩

end HarmonyLite
