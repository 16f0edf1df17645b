import HarmonyLite.Db.InstallCdc
import HarmonyLite.Logstream.PauseState

/-! Rolling upgrades of one node: runs of the process, with changes of the schema while it
runs and while it is stopped. The cache that holds the previous hash lives as long as the
process.
-/

namespace HarmonyLite

-----------------------------------------------------------------------------------------
-- Runs of the process
-----------------------------------------------------------------------------------------

/-- The schema of the database, the gate of the process while it runs, and the hashes of the
schemas that the node has run with, latest first.
-/
structure UpgradeState where
  declared : DeclaredTables
  gate : Option SchemaGate
  ran : List GoString

/-- A call of `ValidateAndReplicateWithSchema`; `succeeds` tells whether `ComputeSchemaHash`
would.
-/
structure Reception where
  event : ChangeLogEvent
  now : Nat
  streams : List (GoString × Option Nat)
  repState : ReplicationState
  succeeds : Bool

def UpgradeState.computed (s : UpgradeState) (config : CdcConfig) (succeeds : Bool)
    : Option GoString :=
  if succeeds then some (config.hash s.declared) else none

def UpgradeState.readings (s : UpgradeState) (config : CdcConfig) (r : Reception)
    : GateReadings :=
  ⟨r.now, s.computed config r.succeeds, r.streams⟩

/-- The node runs with a schema, which is new unless it is the latest one. -/
def noteRan (hash : GoString) (ran : List GoString) : List GoString :=
  if ran.head? = some hash then ran else hash :: ran

inductive UpgradeStep where
  | start
  | stop
  | ddl (declared : DeclaredTables)
  | recompute (succeeds : Bool)
  | receive (r : Reception)

/-- `InstallCDC` of a new process initializes its cache; a fatal gap ends the process. -/
def upgradeStep (config : CdcConfig) (s : UpgradeState) : UpgradeStep → UpgradeState
  | .start =>
      let hash := config.hash s.declared
      { s with gate := some ⟨⟨hash, .empty⟩, .reset⟩, ran := noteRan hash s.ran }
  | .stop => { s with gate := none }
  | .ddl declared =>
      { s with
        declared := declared
        ran := if s.gate.isSome then noteRan (config.hash declared) s.ran else s.ran }
  | .recompute succeeds =>
      { s with
        gate := s.gate.map (fun gate =>
          { gate with cache := (gate.cache.recompute (s.computed config succeeds)).2 }) }
  | .receive r =>
      { s with
        gate := s.gate.bind (fun gate =>
          match validate (s.readings config r) r.repState gate r.event with
          | (.exit, _) => none
          | (_, after) => some after) }

/-- A node that has never run. -/
def UpgradeState.fresh (declared : DeclaredTables) : UpgradeState := ⟨declared, none, []⟩

/-- The schema before the last change, among those that the node has run with. -/
def preceding : List GoString → Option GoString
  | _ :: previous :: _ => some previous
  | [_] | [] => none

/-- The running process accepts every event with the hash of the preceding schema. -/
def AcceptsPreceding (config : CdcConfig) (s : UpgradeState) : Prop :=
  ∀ gate previous, s.gate = some gate → preceding s.ran = some previous
    → ∀ r : Reception, r.event.schemaHash = previous
    → (validate (s.readings config r) r.repState gate r.event).1 = .replicate

/-- A recomputation that notices a change replaces the hash of the preceding schema. -/
def ReplacesPreceding (config : CdcConfig) (s : UpgradeState) (gate : SchemaGate) : Prop :=
  ∀ previous, preceding s.ran = some previous
    → gate.cache.schemaHash = config.hash s.declared ∨ gate.cache.schemaHash = previous

/-- A process starts with the only schema that the node has run with; a change while it runs
finds the schema before it in the cache; and no recomputation skips a schema.
-/
def ChangesNoticed (config : CdcConfig) (s : UpgradeState) : UpgradeStep → Prop
  | .start => s.ran = [] ∨ s.ran = [config.hash s.declared]
  | .stop => True
  | .ddl declared => ∀ gate, s.gate = some gate → config.hash declared ≠ config.hash s.declared
      → config.hash s.declared = gate.cache.schemaHash
        ∨ config.hash s.declared = gate.cache.previousHash
  | .recompute succeeds => succeeds = true
      → ∀ gate, s.gate = some gate → ReplacesPreceding config s gate
  | .receive r => r.succeeds = true → ∀ gate, s.gate = some gate
      → recomputes (s.readings config r) r.repState gate r.event = true
      → ReplacesPreceding config s gate

-----------------------------------------------------------------------------------------
-- The preceding schema is accepted exactly while it is cached
-----------------------------------------------------------------------------------------

/-- The schemas that the node has run with, each different from the next one, with the
present one first while the process runs.
-/
structure RanConsistent (config : CdcConfig) (s : UpgradeState) : Prop where
  filled : ∀ hash ∈ s.ran, hash ≠ .empty
  distinct : s.ran.IsChain (fun later earlier => later ≠ earlier)
  current : s.gate ≠ none → s.ran.head? = some (config.hash s.declared)
  cached : ∀ gate, s.gate = some gate → gate.cache.schemaHash ≠ .empty

/-- The cache holds the preceding schema. -/
def SchemaCache.Remembers (cache : SchemaCache) (ran : List GoString) : Prop :=
  ∀ previous, preceding ran = some previous
    → previous = cache.schemaHash ∨ previous = cache.previousHash

def RemembersPreceding (s : UpgradeState) : Prop :=
  ∀ gate, s.gate = some gate → gate.cache.Remembers s.ran

section

variable {config : CdcConfig} {s : UpgradeState} {ran : List GoString} {hash previous : GoString}

theorem mem_of_preceding (found : preceding ran = some previous) : previous ∈ ran := by
  match ran, found with
  | _ :: other :: _, found =>
      obtain rfl := Option.some.inj found
      simp

theorem CdcConfig.hash_ne_empty (config : CdcConfig) (declared : DeclaredTables)
    : config.hash declared ≠ .empty :=
  config.schemaManager.computeSchemaHash_ne_empty declared config.tables

/-- The preceding schema is not the present one. -/
theorem RanConsistent.preceding_ne (consistent : RanConsistent config s)
    (runs : s.gate ≠ none) (found : preceding s.ran = some previous)
    : previous ≠ config.hash s.declared := by
  have head := consistent.current runs
  have distinct := consistent.distinct
  match ran : s.ran, found with
  | current :: other :: rest, found =>
      obtain rfl := Option.some.inj found
      rw [ran] at head distinct
      obtain rfl := Option.some.inj head
      exact fun same => (List.isChain_cons_cons.mp distinct).1 same.symm

/-- A recomputation never brings the preceding schema into the cache: it is not the present
one, and the hash that becomes the previous one was there before.
-/
theorem RanConsistent.accepted_iff (consistent : RanConsistent config s) {gate : SchemaGate}
    (runs : s.gate = some gate) {r : Reception}
    (found : preceding s.ran = some r.event.schemaHash)
    : Accepted (s.readings config r) r.repState gate r.event
      ↔ r.event.schemaHash = gate.cache.schemaHash
        ∨ r.event.schemaHash = gate.cache.previousHash := by
  have filled := consistent.filled _ (mem_of_preceding found)
  have earlier := consistent.preceding_ne (by simp [runs]) found
  constructor
  · intro accepted
    rcases accepted with empty | current | previous | ⟨⟨_, after⟩, _⟩
    · exact absurd empty filled
    · exact .inl current
    · exact .inr previous
    · cases succeeds : r.succeeds with
      | false => simpa [UpgradeState.readings, UpgradeState.computed, succeeds,
          SchemaCache.recompute] using after
      | true =>
          rcases after with current | previous
          · refine absurd ?_ earlier
            simpa [UpgradeState.readings, UpgradeState.computed, succeeds,
              SchemaCache.recompute] using current
          · simp only [UpgradeState.readings, UpgradeState.computed, succeeds, ↓reduceIte,
              SchemaCache.recompute] at previous
            -- The hash that becomes the previous one was the current one, or it stays.
            split at previous
            · exact .inl previous
            · exact .inr previous
  · intro known
    rcases known with current | previous
    · exact .inr (.inl current)
    · exact .inr (.inr (.inl previous))

/-- The event of a reception with a given hash. -/
def receptionOf (hash : GoString) : Reception where
  event := { (bookEvent (.unix 1740830400)).payload with schemaHash := hash }
  now := 0
  streams := []
  repState := emptyReplicationState
  succeeds := true

theorem RanConsistent.accepts_iff (consistent : RanConsistent config s)
    : AcceptsPreceding config s ↔ RemembersPreceding s := by
  constructor
  · intro accepts gate runs previous found
    have accepted := accepts gate previous runs found (receptionOf previous) rfl
    exact (consistent.accepted_iff runs found).mp (validate_replicate_iff.mp accepted)
  · intro remembers gate previous runs found r same
    subst same
    exact validate_replicate_iff.mpr
      ((consistent.accepted_iff runs found).mpr (remembers gate runs _ found))

-----------------------------------------------------------------------------------------
-- Steps
-----------------------------------------------------------------------------------------

theorem noteRan_eq (hash : GoString) (ran : List GoString)
    : noteRan hash ran = ran ∧ ran.head? = some hash
      ∨ noteRan hash ran = hash :: ran ∧ ran.head? ≠ some hash := by
  unfold noteRan
  split
  · exact .inl ⟨rfl, by assumption⟩
  · exact .inr ⟨rfl, by assumption⟩

/-- A schema that is noted is the latest one, and differs from the one before it. -/
theorem noteRan_consistent (filled : ∀ earlier ∈ ran, earlier ≠ .empty)
    (distinct : ran.IsChain (fun later earlier => later ≠ earlier)) (present : hash ≠ .empty)
    : (∀ noted ∈ noteRan hash ran, noted ≠ .empty)
      ∧ (noteRan hash ran).IsChain (fun later earlier => later ≠ earlier)
      ∧ (noteRan hash ran).head? = some hash := by
  rcases noteRan_eq hash ran with ⟨same, head⟩ | ⟨new, head⟩
  · rw [same]
    exact ⟨filled, distinct, head⟩
  · rw [new]
    refine ⟨?_, ?_, rfl⟩
    · intro noted member
      rcases List.mem_cons.mp member with rfl | earlier
      · exact present
      · exact filled noted earlier
    · refine List.isChain_cons.mpr ⟨?_, distinct⟩
      intro next found same
      subst same
      exact head (Option.mem_def.mp found)

theorem RanConsistent.fresh (config : CdcConfig) (declared : DeclaredTables)
    : RanConsistent config (.fresh declared) where
  filled := by simp [UpgradeState.fresh]
  distinct := List.isChain_nil
  current runs := absurd rfl runs
  cached _ runs := nomatch runs

theorem UpgradeState.cache_recompute {cache : SchemaCache} (filled : cache.schemaHash ≠ .empty)
    (succeeds : Bool)
    : (cache.recompute (s.computed config succeeds)).2
      = if succeeds ∧ cache.schemaHash ≠ config.hash s.declared then
          ⟨config.hash s.declared, cache.schemaHash⟩
        else
          cache := by
  cases succeeds with
  | false => simp [UpgradeState.computed, SchemaCache.recompute]
  | true =>
      by_cases same : cache.schemaHash = config.hash s.declared
      · obtain ⟨schemaHash, previousHash⟩ := cache
        subst same
        simp [UpgradeState.computed, SchemaCache.recompute]
      · have changed : config.hash s.declared ≠ cache.schemaHash := fun equal => same equal.symm
        simp [UpgradeState.computed, SchemaCache.recompute, same, changed, filled]

theorem UpgradeState.cache_recompute_ne_empty {cache : SchemaCache}
    (filled : cache.schemaHash ≠ .empty) (succeeds : Bool)
    : (cache.recompute (s.computed config succeeds)).2.schemaHash ≠ .empty := by
  rw [UpgradeState.cache_recompute filled]
  split
  · exact config.hash_ne_empty s.declared
  · exact filled

variable {gate after : SchemaGate}

/-- A recomputation leaves the preceding schema in the cache exactly when it finds the present
one there, or the preceding one in its place.
-/
theorem RanConsistent.remembers_recompute_iff (consistent : RanConsistent config s)
    (runs : s.gate = some gate) (remembers : gate.cache.Remembers s.ran) (succeeds : Bool)
    : (gate.cache.recompute (s.computed config succeeds)).2.Remembers s.ran
      ↔ (succeeds = true → ReplacesPreceding config s gate) := by
  rw [UpgradeState.cache_recompute (consistent.cached gate runs)]
  split
  · rename_i changes
    obtain ⟨computed, changed⟩ := changes
    constructor
    · intro kept _ previous found
      rcases kept previous found with current | replaced
      · exact absurd current (consistent.preceding_ne (by simp [runs]) found)
      · exact .inr replaced.symm
    · intro replaces previous found
      rcases replaces computed previous found with same | replaced
      · exact absurd same changed
      · exact .inr replaced.symm
  · rename_i unchanged
    refine iff_of_true remembers ?_
    intro computed previous _
    exact .inl (by_contra fun changed => unchanged ⟨computed, changed⟩)

theorem gate_receive {r : Reception}
    (goesOn : (upgradeStep config s (.receive r)).gate = some after)
    : ∃ gate, s.gate = some gate
        ∧ after = (validate (s.readings config r) r.repState gate r.event).2 := by
  obtain ⟨gate, runs, decided⟩ := Option.bind_eq_some_iff.mp goesOn
  refine ⟨gate, runs, ?_⟩
  split at decided
  · exact nomatch decided
  · rename_i same
    rw [same]
    exact (Option.some.inj decided).symm

theorem RanConsistent.step (consistent : RanConsistent config s) (input : UpgradeStep)
    : RanConsistent config (upgradeStep config s input) := by
  obtain ⟨filled, distinct, current, cached⟩ := consistent
  cases input with
  | start =>
      obtain ⟨filled, distinct, head⟩ :=
        noteRan_consistent filled distinct (config.hash_ne_empty s.declared)
      refine ⟨filled, distinct, fun _ => head, ?_⟩
      intro gate runs
      obtain rfl := Option.some.inj runs
      exact config.hash_ne_empty s.declared
  | stop => exact ⟨filled, distinct, fun runs => absurd rfl runs, fun _ runs => nomatch runs⟩
  | ddl declared =>
      cases running : s.gate with
      | none =>
          simp only [upgradeStep, running]
          exact ⟨filled, distinct, fun runs => absurd rfl runs, fun _ runs => nomatch runs⟩
      | some gate =>
          obtain ⟨filled, distinct, head⟩ :=
            noteRan_consistent filled distinct (config.hash_ne_empty declared)
          simp only [upgradeStep, running]
          exact ⟨filled, distinct, fun _ => head, fun gate runs => cached gate (running.trans runs)⟩
  | recompute succeeds =>
      refine ⟨filled, distinct, ?_, ?_⟩
      · intro runs
        exact current (fun stopped => runs (by simp [upgradeStep, stopped]))
      · intro after runs
        obtain ⟨gate, running, rfl⟩ := Option.map_eq_some_iff.mp runs
        exact UpgradeState.cache_recompute_ne_empty (cached gate running) succeeds
  | receive r =>
      refine ⟨filled, distinct, ?_, ?_⟩
      · intro runs
        exact current (fun stopped => runs (by simp [upgradeStep, stopped]))
      · intro after runs
        obtain ⟨gate, running, rfl⟩ := gate_receive runs
        rw [cache_validate]
        split
        · exact UpgradeState.cache_recompute_ne_empty (cached gate running) r.succeeds
        · exact cached gate running

/-- A new process remembers nothing: it must not have run with another schema before. -/
theorem remembers_start_iff (filled : ∀ earlier ∈ ran, earlier ≠ .empty)
    (distinct : ran.IsChain (fun later earlier => later ≠ earlier)) (present : hash ≠ .empty)
    : (SchemaCache.mk hash .empty).Remembers (noteRan hash ran) ↔ ran = [] ∨ ran = [hash] := by
  obtain ⟨filled, distinct, head⟩ := noteRan_consistent filled distinct present
  have short : (SchemaCache.mk hash .empty).Remembers (noteRan hash ran)
      ↔ noteRan hash ran = [hash] := by
    match noted : noteRan hash ran, head with
    | [current], head =>
        obtain rfl := Option.some.inj head
        simp [SchemaCache.Remembers, preceding]
    | current :: previous :: rest, head =>
        obtain rfl := Option.some.inj head
        rw [noted] at filled distinct
        have differs := (List.isChain_cons_cons.mp distinct).1
        have known := filled previous (by simp)
        simp [SchemaCache.Remembers, preceding, known, differs.symm]
  rw [short]
  rcases noteRan_eq hash ran with ⟨same, head⟩ | ⟨new, head⟩
  · rw [same]
    constructor
    · exact .inr
    · intro few
      rcases few with rfl | rfl
      · exact nomatch head
      · rfl
  · rw [new]
    constructor
    · intro alone
      exact .inl (List.cons.inj alone).2
    · intro few
      rcases few with rfl | rfl
      · rfl
      · exact absurd rfl head

theorem remembers_noteRan_iff {cache : SchemaCache} {current : GoString}
    (remembers : cache.Remembers ran) (head : ran.head? = some current) (hash : GoString)
    : cache.Remembers (noteRan hash ran)
      ↔ (hash ≠ current → current = cache.schemaHash ∨ current = cache.previousHash) := by
  rcases noteRan_eq hash ran with ⟨same, latest⟩ | ⟨new, latest⟩
  · rw [same]
    refine iff_of_true remembers ?_
    intro changed
    exact absurd (Option.some.inj (latest.symm.trans head)) changed
  · have changed : hash ≠ current := by
      rintro rfl
      exact latest head
    rw [new]
    match ran, head with
    | _ :: rest, head =>
        obtain rfl := Option.some.inj head
        simp [SchemaCache.Remembers, preceding, changed]

/-- A process that recomputes its hash goes on. -/
theorem gate_of_recomputes {r : Reception} (runs : s.gate = some gate)
    (due : recomputes (s.readings config r) r.repState gate r.event = true)
    : (upgradeStep config s (.receive r)).gate
      = some (validate (s.readings config r) r.repState gate r.event).2 := by
  have survives := validate_ne_exit_of_recomputes due
  simp only [upgradeStep, runs, Option.bind_some]

/-- A step keeps the preceding schema in the cache exactly when the changes are noticed. -/
theorem RanConsistent.remembers_step_iff (consistent : RanConsistent config s)
    (remembers : RemembersPreceding s) (input : UpgradeStep)
    : RemembersPreceding (upgradeStep config s input) ↔ ChangesNoticed config s input := by
  cases input with
  | start =>
      rw [ChangesNoticed, ← remembers_start_iff consistent.filled consistent.distinct
        (config.hash_ne_empty s.declared)]
      constructor
      · intro kept
        exact kept _ rfl
      · intro kept gate runs
        obtain rfl := Option.some.inj runs
        exact kept
  | stop => exact iff_of_true (fun _ runs => nomatch runs) trivial
  | ddl declared =>
      cases running : s.gate with
      | none =>
          refine iff_of_true ?_ ?_
          · intro gate runs
            exact absurd (running.symm.trans runs) (by simp)
          · intro gate runs
            exact absurd (running.symm.trans runs) (by simp)
      | some gate =>
          have head := consistent.current (by simp [running])
          have kept := remembers_noteRan_iff (remembers gate running) head (config.hash declared)
          constructor
          · intro after other runs
            obtain rfl := Option.some.inj (running.symm.trans runs)
            have held := after gate running
            simp only [upgradeStep, running] at held
            exact kept.mp held
          · intro noticed other runs
            obtain rfl := Option.some.inj (running.symm.trans runs)
            simp only [upgradeStep, running]
            exact kept.mpr (noticed gate running)
  | recompute succeeds =>
      constructor
      · intro kept computed gate runs
        refine (consistent.remembers_recompute_iff runs (remembers gate runs) succeeds).mp ?_
          computed
        exact kept { gate with cache := _ } (by simp [upgradeStep, runs])
      · intro noticed after runs
        obtain ⟨gate, running, rfl⟩ := Option.map_eq_some_iff.mp runs
        exact (consistent.remembers_recompute_iff running (remembers gate running) succeeds).mpr
          (fun computed => noticed computed gate running)
  | receive r =>
      constructor
      · intro kept computed gate runs due
        refine (consistent.remembers_recompute_iff runs (remembers gate runs) r.succeeds).mp ?_
          computed
        have held := kept _ (gate_of_recomputes runs due)
        rwa [cache_validate, if_pos due] at held
      · intro noticed after runs
        obtain ⟨gate, running, rfl⟩ := gate_receive runs
        rw [cache_validate]
        split
        · rename_i due
          exact (consistent.remembers_recompute_iff running (remembers gate running)
            r.succeeds).mpr (fun computed => noticed computed gate running due)
        · exact remembers gate running

/-- A node accepts the preceding schema throughout its runs exactly when every change of its
schema happens while it runs and is noticed before the next one.
-/
theorem acceptsPreceding_iff (config : CdcConfig) (declared : DeclaredTables)
    (inputs : List UpgradeStep)
    : (∀ seen, seen <+: inputs
        → AcceptsPreceding config (Runs.run (upgradeStep config) (.fresh declared) seen))
      ↔ Runs.Along (upgradeStep config) (ChangesNoticed config) (.fresh declared) inputs := by
  have initial : RanConsistent config (.fresh declared) ∧ RemembersPreceding (.fresh declared) :=
    ⟨.fresh config declared, fun _ runs => nomatch runs⟩
  refine Runs.forall_prefix_iff_along_of_kept initial ?_ ?_ ?_
  · intro s input consistent
    exact consistent.step input
  · intro s consistent
    exact consistent.accepts_iff
  · intro s input consistent remembers
    exact consistent.remembers_step_iff remembers input

end

/-- The column is added while the node is stopped; the process that starts afterwards rejects
the events of the nodes that are not upgraded yet.
-/
theorem not_acceptsPreceding_restart
    : preceding (Runs.run (upgradeStep booksConfig) (.fresh narrowBooks)
          [.start, .stop, .ddl wideBooks, .start]).ran = some (booksConfig.hash narrowBooks)
      ∧ ¬ AcceptsPreceding booksConfig (Runs.run (upgradeStep booksConfig) (.fresh narrowBooks)
          [.start, .stop, .ddl wideBooks, .start]) := by
  have found : preceding (Runs.run (upgradeStep booksConfig) (.fresh narrowBooks)
      [.start, .stop, .ddl wideBooks, .start]).ran = some (booksConfig.hash narrowBooks) := by
    decide +kernel
  refine ⟨found, ?_⟩
  intro accepts
  have accepted := accepts _ _ rfl found (receptionOf (booksConfig.hash narrowBooks)) rfl
  exact absurd accepted (by decide +kernel)

end HarmonyLite
