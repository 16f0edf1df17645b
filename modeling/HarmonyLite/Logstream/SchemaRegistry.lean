import HarmonyLite.Basis.Runs
import HarmonyLite.Logstream.SchemaValidation

/-! The schema registry: a bucket that each node writes its schema hashes to once, when `main`
starts it, and that consistency checks read. The validation path and `UpdateSchemaState` change
the hashes of a running node without writing to the bucket.
-/

namespace HarmonyLite

-----------------------------------------------------------------------------------------
-- The model
-----------------------------------------------------------------------------------------

/-- An entry of the bucket, under the key of its node. -/
structure NodeSchemaState (Node : Type) where
  nodeId : Node
  schemaHash : GoString
  previousHash : GoString
deriving DecidableEq

structure SchemaMismatch (Node : Type) where
  nodeId : Node
  expectedHash : GoString
  actualHash : GoString
deriving DecidableEq

structure SchemaConsistencyReport (Node : Type) where
  nodeCount : Nat
  consistent : Bool
  mismatches : List (SchemaMismatch Node)
deriving DecidableEq

/-- A node in `main`: `InstallCDC` computes its hashes, and the listeners start after the
publication.
-/
inductive NodePhase where
  | stopped
  | installed (cache : SchemaCache)
  | running (cache : SchemaCache)
deriving DecidableEq

/-- The nodes, the bucket and what the last step reported, if it was a check. -/
structure RegistryState (Node : Type) where
  phase : Node → NodePhase
  kv : Node → Option (NodeSchemaState Node)
  report : Option (SchemaConsistencyReport Node)

/-- `computed` is what `ComputeSchemaHash` returns. A check gets the keys in `read`, in an order
of the map; it skips a key that it cannot get. An entry expires five minutes after it was
written.
-/
inductive RegistryStep (Node : Type) where
  | installCDC (node : Node) (computed : GoString)
  | publishSchemaState (node : Node) (succeeds : Bool)
  | recompute (node : Node) (computed : Option GoString)
  | updateSchemaState (node : Node) (computed : Option GoString)
  | expire (node : Node)
  | stop (node : Node)
  | checkClusterSchemaConsistency (read : List Node)

variable {Node : Type}

def SchemaCache.entry (cache : SchemaCache) (node : Node) : NodeSchemaState Node :=
  ⟨node, cache.schemaHash, cache.previousHash⟩

theorem SchemaCache.entry_inj {first second : SchemaCache} {node : Node}
    : first.entry node = second.entry node ↔ first = second := by
  obtain ⟨hash, previous⟩ := first
  obtain ⟨otherHash, otherPrevious⟩ := second
  simp [SchemaCache.entry]

/-- The report on the entries that were read; the first one is the reference. -/
def checkClusterSchemaConsistency (states : List (NodeSchemaState Node))
    : SchemaConsistencyReport Node :=
  match states with
  | [] => ⟨0, true, []⟩
  | [_] => ⟨1, true, []⟩
  | reference :: rest =>
      let mismatches := (reference :: rest).filterMap fun state =>
        if state.schemaHash ≠ reference.schemaHash then
          some ⟨state.nodeId, reference.schemaHash, state.schemaHash⟩
        else
          none
      ⟨rest.length + 1, mismatches.isEmpty, mismatches⟩

/-- A report is consistent exactly when the entries that were read have one hash. -/
theorem consistent_iff (states : List (NodeSchemaState Node))
    : (checkClusterSchemaConsistency states).consistent = true
      ↔ ∀ left ∈ states, ∀ right ∈ states, left.schemaHash = right.schemaHash := by
  match states with
  | [] => simp [checkClusterSchemaConsistency]
  | [state] => simp [checkClusterSchemaConsistency]
  | reference :: next :: rest =>
      have all_reference : (checkClusterSchemaConsistency (reference :: next :: rest)).consistent
            = true
          ↔ ∀ state ∈ reference :: next :: rest,
              state.schemaHash = reference.schemaHash := by
        simp [checkClusterSchemaConsistency, List.isEmpty_iff, List.filterMap_eq_nil_iff]
      rw [all_reference]
      constructor
      · intro same left leftRead right rightRead
        exact (same left leftRead).trans (same right rightRead).symm
      · intro same state read
        exact same state read reference (by simp)

/-- Only a process that is not running yet can be started. -/
def NodePhase.installCDC (computed : GoString) : NodePhase → NodePhase
  | .stopped => .installed ⟨computed, .empty⟩
  | .installed cache => .installed cache
  | .running cache => .running cache

def NodePhase.recompute (computed : Option GoString) : NodePhase → NodePhase
  | .stopped => .stopped
  | .installed cache => .installed (cache.recompute computed).2
  | .running cache => .running (cache.recompute computed).2

/-- `main` publishes once and goes on whether or not that succeeds; an empty hash is not
published.
-/
def NodePhase.publishSchemaState (node : Node) (succeeds : Bool)
    (entry : Option (NodeSchemaState Node))
    : NodePhase → NodePhase × Option (NodeSchemaState Node)
  | .stopped => (.stopped, entry)
  | .installed cache =>
      if cache.schemaHash ≠ .empty ∧ succeeds = true then
        (.running cache, some (cache.entry node))
      else
        (.running cache, entry)
  | .running cache => (.running cache, entry)

/-- The hashes of a process, from `InstallCDC` on. -/
def NodePhase.cache : NodePhase → Option SchemaCache
  | .stopped => none
  | .installed cache | .running cache => some cache

theorem NodePhase.cache_recompute (phase : NodePhase) (computed : Option GoString)
    : (phase.recompute computed).cache
      = phase.cache.map (fun cache => (cache.recompute computed).2) := by
  cases phase <;> rfl

variable [DecidableEq Node]

/-- No node has been started. -/
def RegistryState.start : RegistryState Node := ⟨fun _ => .stopped, fun _ => none, none⟩

/-- What a step of one node changes. -/
def RegistryState.set (s : RegistryState Node) (node : Node) (phase : NodePhase)
    (entry : Option (NodeSchemaState Node))
    : RegistryState Node where
  phase := Function.update s.phase node phase
  kv := Function.update s.kv node entry
  report := none

def registryStep (s : RegistryState Node) : RegistryStep Node → RegistryState Node
  | .installCDC node computed => s.set node ((s.phase node).installCDC computed) (s.kv node)
  | .publishSchemaState node succeeds =>
      let (phase, entry) := (s.phase node).publishSchemaState node succeeds (s.kv node)
      s.set node phase entry
  -- The bucket is not written to.
  | .recompute node computed => s.set node ((s.phase node).recompute computed) (s.kv node)
  | .updateSchemaState node computed =>
      s.set node ((s.phase node).recompute computed) (s.kv node)
  | .expire node => s.set node (s.phase node) none
  | .stop node => s.set node .stopped (s.kv node)
  | .checkClusterSchemaConsistency read =>
      { s with report := some (checkClusterSchemaConsistency (read.filterMap s.kv)) }

/-- The node runs with these hashes, from `InstallCDC` on, and has an entry, which may be that
of an earlier process.
-/
def RegistryState.Registered (s : RegistryState Node) (node : Node) (cache : SchemaCache)
    (entry : NodeSchemaState Node) : Prop :=
  (s.phase node).cache = some cache ∧ s.kv node = some entry

/-- The registry tells the truth: entries of running nodes carry their hashes, and a check that
has just reported consistency did so with equal hashes on all nodes that are registered.
-/
structure TellsTruth (s : RegistryState Node) : Prop where
  current : ∀ node cache entry, s.Registered node cache entry → entry = cache.entry node
  sound : ∀ report, s.report = some report → report.consistent = true
    → ∀ first firstCache firstEntry second secondCache secondEntry,
        s.Registered first firstCache firstEntry → s.Registered second secondCache secondEntry
        → firstCache.schemaHash = secondCache.schemaHash

/-- A check gets the key of every node that is registered. -/
def GetsRegistered (s : RegistryState Node) : RegistryStep Node → Prop
  | .checkClusterSchemaConsistency read =>
      ∀ node cache entry, s.Registered node cache entry → node ∈ read
  | .installCDC _ _ | .publishSchemaState _ _ | .recompute _ _ | .updateSchemaState _ _
  | .expire _ | .stop _ => True

/-- A node that starts while there is an entry of an earlier process computes the hash of that
entry, which has no previous one; and a node with an entry recomputes the hashes that it has.
-/
def Announced (s : RegistryState Node) : RegistryStep Node → Prop
  | .installCDC node computed =>
      ∀ entry, s.phase node = .stopped → s.kv node = some entry
        → entry = SchemaCache.entry ⟨computed, .empty⟩ node
  | .recompute node computed | .updateSchemaState node computed =>
      ∀ cache entry, s.Registered node cache entry → (cache.recompute computed).2 = cache
  | .publishSchemaState _ _ | .checkClusterSchemaConsistency _ | .expire _ | .stop _ => True

-----------------------------------------------------------------------------------------
-- Steps
-----------------------------------------------------------------------------------------

/-- A step of one node leaves the registry true exactly when the node, if it is running with an
entry afterwards, has the hashes of that entry.
-/
theorem tellsTruth_set_iff {s : RegistryState Node} (truth : TellsTruth s) (node : Node)
    (phase : NodePhase) (entry : Option (NodeSchemaState Node))
    : TellsTruth (s.set node phase entry)
      ↔ ∀ cache stored, phase.cache = some cache → entry = some stored
          → stored = cache.entry node := by
  constructor
  · intro after cache stored running present
    exact after.current node cache stored ⟨by simp [RegistryState.set, running],
      by simp [RegistryState.set, present]⟩
  · intro own
    refine ⟨?_, by simp [RegistryState.set]⟩
    rintro other cache stored ⟨running, present⟩
    by_cases same : other = node
    · subst same
      simp only [RegistryState.set, Function.update_self] at running present
      exact own cache stored running present
    · simp only [RegistryState.set, Function.update_of_ne same] at running present
      exact truth.current other cache stored ⟨running, present⟩

/-- The same for a recomputation, which moves the hashes alone. -/
theorem tellsTruth_recompute_iff {s : RegistryState Node} (truth : TellsTruth s) (node : Node)
    (computed : Option GoString)
    : TellsTruth (s.set node ((s.phase node).recompute computed) (s.kv node))
      ↔ ∀ cache entry, s.Registered node cache entry
          → (cache.recompute computed).2 = cache := by
  rw [tellsTruth_set_iff truth, NodePhase.cache_recompute]
  constructor
  · intro own cache entry registered
    have before := truth.current node cache entry registered
    have after := own (cache.recompute computed).2 entry (by rw [registered.1]; rfl) registered.2
    exact SchemaCache.entry_inj.mp (after.symm.trans before)
  · intro keeps cache stored running present
    obtain ⟨before, isBefore, rfl⟩ := Option.map_eq_some_iff.mp running
    rw [keeps before stored ⟨isBefore, present⟩]
    exact truth.current node before stored ⟨isBefore, present⟩

/-- A start leaves the registry true exactly when it finds no entry or one with its hash. -/
theorem tellsTruth_installCDC_iff {s : RegistryState Node} (truth : TellsTruth s) (node : Node)
    (computed : GoString)
    : TellsTruth (registryStep s (.installCDC node computed))
      ↔ Announced s (.installCDC node computed) := by
  rw [registryStep, tellsTruth_set_iff truth]
  cases phase : s.phase node with
  | stopped =>
      constructor
      · intro own entry _ present
        exact own ⟨computed, .empty⟩ entry rfl present
      · intro found cache stored running present
        obtain rfl := Option.some.inj running
        exact found stored phase present
  | installed cache | running cache =>
      refine iff_of_true ?_ (fun _ stopped => by simp [phase] at stopped)
      intro other stored running present
      exact truth.current node other stored ⟨by rw [phase]; exact running, present⟩

/-- A publication puts the hashes of the node, or leaves an entry that has them. -/
theorem tellsTruth_publish {s : RegistryState Node} (truth : TellsTruth s) (node : Node)
    (succeeds : Bool)
    : TellsTruth (registryStep s (.publishSchemaState node succeeds)) := by
  rw [registryStep, tellsTruth_set_iff truth]
  cases phase : s.phase node with
  | stopped => simp [NodePhase.publishSchemaState, NodePhase.cache]
  | installed cache =>
      intro other stored running present
      by_cases put : cache.schemaHash ≠ .empty ∧ succeeds = true
      · simp only [NodePhase.publishSchemaState, if_pos put] at running present
        obtain rfl := Option.some.inj running
        exact (Option.some.inj present).symm
      · simp only [NodePhase.publishSchemaState, if_neg put] at running present
        exact truth.current node other stored ⟨by rw [phase]; exact running, present⟩
  | running cache =>
      intro other stored running present
      exact truth.current node other stored ⟨by rw [phase]; exact running, present⟩

/-- A check that gets the keys of all registered nodes finds a difference if there is one. -/
theorem tellsTruth_check {s : RegistryState Node} (truth : TellsTruth s) {read : List Node}
    (gets : GetsRegistered s (.checkClusterSchemaConsistency read))
    : TellsTruth (registryStep s (.checkClusterSchemaConsistency read)) := by
  refine ⟨truth.current, ?_⟩
  intro report isReport consistent first firstCache firstEntry second secondCache secondEntry
    isFirst isSecond
  obtain rfl := Option.some.inj isReport
  have got {node : Node} {cache : SchemaCache} {entry : NodeSchemaState Node}
      (registered : s.Registered node cache entry)
      : cache.entry node ∈ read.filterMap s.kv := by
    refine List.mem_filterMap.mpr ⟨node, gets node cache entry registered, ?_⟩
    rw [registered.2, truth.current node cache entry registered]
  exact (consistent_iff _).mp consistent _ (got isFirst) _ (got isSecond)

theorem tellsTruth_registryStep_iff {s : RegistryState Node} (truth : TellsTruth s)
    {step : RegistryStep Node} (gets : GetsRegistered s step)
    : TellsTruth (registryStep s step) ↔ Announced s step := by
  cases step with
  | installCDC node computed => exact tellsTruth_installCDC_iff truth node computed
  | publishSchemaState node succeeds =>
      exact iff_of_true (tellsTruth_publish truth node succeeds) trivial
  | recompute node computed => exact tellsTruth_recompute_iff truth node computed
  | updateSchemaState node computed => exact tellsTruth_recompute_iff truth node computed
  | expire node =>
      rw [registryStep, tellsTruth_set_iff truth]
      simp [Announced]
  | stop node =>
      rw [registryStep, tellsTruth_set_iff truth]
      simp [Announced, NodePhase.cache]
  | checkClusterSchemaConsistency read => exact iff_of_true (tellsTruth_check truth gets) trivial

-----------------------------------------------------------------------------------------
-- Runs
-----------------------------------------------------------------------------------------

omit [DecidableEq Node] in
theorem tellsTruth_start : TellsTruth (RegistryState.start : RegistryState Node) where
  current node cache entry registered := by cases registered.2
  sound report isReport := by cases isReport

/-- For any nodes and any interleaving of their steps with consistency checks that get the keys
of the registered nodes, the registry tells the truth throughout exactly when each step is
announced.
-/
theorem tellsTruth_iff (steps : List (RegistryStep Node))
    (gets : Runs.Along registryStep GetsRegistered .start steps)
    : (∀ seen, seen <+: steps → TellsTruth (Runs.run registryStep .start seen))
      ↔ Runs.Along registryStep Announced .start steps :=
  gets.forall_prefix_iff tellsTruth_start (fun _ truth => truth)
    (fun _ _ truth gets announced => (tellsTruth_registryStep_iff truth gets).mpr announced)
    (fun _ _ truth gets after => (tellsTruth_registryStep_iff truth gets).mp after)

/-- Of two nodes on one schema, one starts again and fails to publish. -/
def restartedNode : List (RegistryStep Bool) :=
  [.installCDC true (.lit "old"), .publishSchemaState true true,
    .installCDC false (.lit "old"), .publishSchemaState false true,
    .stop true, .installCDC true (.lit "old"), .publishSchemaState true false,
    .checkClusterSchemaConsistency [false, true]]

theorem tellsTruth_restartedNode
    : (Runs.run registryStep .start restartedNode).report = some ⟨2, true, []⟩
      ∧ TellsTruth (Runs.run registryStep .start restartedNode) := by
  refine ⟨by decide +kernel,
    (tellsTruth_iff restartedNode ?_).mpr ?_ restartedNode List.prefix_rfl⟩
  · refine ⟨trivial, trivial, trivial, trivial, trivial, trivial, trivial, ?_, trivial⟩
    intro node _ _ _
    cases node <;> simp
  · refine ⟨?_, trivial, ?_, trivial, trivial, ?_, trivial, trivial, trivial⟩
    · intro entry _ present
      cases present
    · intro entry _ present
      cases present
    · intro entry _ present
      exact (Option.some.inj present).symm

/-- Two nodes start on one schema, and the first then sees another one. -/
def migratedFirst : List (RegistryStep Nat) :=
  [.installCDC 1 (.lit "old"), .publishSchemaState 1 true,
    .installCDC 2 (.lit "old"), .publishSchemaState 2 true,
    .updateSchemaState 1 (some (.lit "new")), .checkClusterSchemaConsistency [1, 2]]

/-- The first node's entry still carries the hash it started with, so the check reports
consistency while the hashes of the two nodes differ.
-/
theorem not_tellsTruth_migratedFirst
    : let s := Runs.run registryStep .start migratedFirst
      s.phase 1 = .running ⟨.lit "new", .lit "old"⟩ ∧ s.phase 2 = .running ⟨.lit "old", .empty⟩
      ∧ s.kv 1 = some ⟨1, .lit "old", .empty⟩ ∧ s.kv 2 = some ⟨2, .lit "old", .empty⟩
      ∧ s.report = some ⟨2, true, []⟩
      ∧ ¬ TellsTruth s := by
  have first : (Runs.run registryStep .start migratedFirst).phase 1
      = .running ⟨.lit "new", .lit "old"⟩ := by
    decide +kernel
  have entry : (Runs.run registryStep .start migratedFirst).kv 1
      = some ⟨1, .lit "old", .empty⟩ := by
    decide +kernel
  refine ⟨first, by decide +kernel, entry, by decide +kernel, by decide +kernel, ?_⟩
  intro truth
  have same := truth.current 1 _ _ ⟨congrArg NodePhase.cache first, entry⟩
  exact absurd same (by decide +kernel)

end HarmonyLite
