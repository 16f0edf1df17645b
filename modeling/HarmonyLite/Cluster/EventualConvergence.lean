import HarmonyLite.Cluster.Settling

/-! Once applications stop writing and nothing fails any more, a cluster comes to rest with all
nodes in agreement, from any state that writes, failed saves and restarts have led to. A change
that cannot be decoded is the exception: no node ever gets past it.
-/

namespace HarmonyLite

open Cbor KeyedTable

variable {config : ClusterConfig} {c : Cluster config}

-----------------------------------------------------------------------------------------
-- Settling
-----------------------------------------------------------------------------------------

/-- Every message in a stream can be applied. -/
structure Cluster.Settles (c : Cluster config) : Prop where
  followed : c.Followed
  applicable : ∀ shard, ∀ published ∈ c.stream shard, published.Applicable

/-- A change that is published can be applied everywhere. -/
def PublishesApplicable (c : Cluster config) (input : ClusterStep config) : Prop :=
  ∀ n index marked, input = .publish n index marked
    → ∀ entry, (c.node n).pending[index]? = some entry
      → (⟨n, entry⟩ : Published config).Applicable

namespace Cluster.Settles

theorem step (settles : c.Settles) {input : ClusterStep config}
    (publishes : PublishesApplicable c input)
    : (clusterStep c input).Settles := by
  refine ⟨settles.followed.step input, ?_⟩
  intro shard published member
  rcases mem_stream_clusterStep member with old | ⟨index, marked, isPublish, found⟩
  · exact settles.applicable shard published old
  · exact publishes published.node index marked isPublish published.entry found

theorem measure_lt (settles : c.Settles) {input : SettlingStep config} (enabled : input.Enabled c)
    : (settlingStep c input).measure < c.measure := by
  cases input with
  | publish n index => exact measure_publish_lt enabled
  | consume n shard i =>
      obtain ⟨running, waiting, works⟩ := enabled
      have found : (c.stream shard)[(c.node n).delivered shard]?
          = some (c.stream shard)[(c.node n).delivered shard] :=
        List.getElem?_eq_getElem waiting
      have applicable := settles.applicable shard _ (List.mem_of_getElem? found)
      obtain ⟨after, delivers, pending, delivered, status⟩ :=
        ClusterNode.deliver_next applicable works running
      simp only [settlingStep, SettlingStep.step, clusterStep, found, delivers]
      exact measure_deliver_lt waiting pending delivered status
  | restart n gate =>
      have sound := settles.followed.nodes n
      exact measure_restart_lt enabled (sound.restart_running gate).1 (sound.restart gate).2.2.2

/-- Each step lowers the measure, by induction on the run. -/
theorem run (settles : c.Settles) {inputs : List (SettlingStep config)}
    (settling : Runs.Along settlingStep
      (fun c input => input.Enabled c ∧ PublishesApplicable c (input.step c)) c inputs)
    : (Runs.run settlingStep c inputs).Settles
      ∧ inputs.length + (Runs.run settlingStep c inputs).measure ≤ c.measure := by
  induction inputs generalizing c with
  | nil => exact ⟨settles, Nat.le_of_eq (Nat.zero_add _)⟩
  | cons input rest ih =>
      obtain ⟨⟨enabled, publishes⟩, later⟩ := settling
      have less := settles.measure_lt enabled
      have next : (settlingStep c input).Settles := settles.step publishes
      obtain ⟨still, bound⟩ := ih next later
      refine ⟨still, ?_⟩
      rw [List.length_cons, Runs.run_cons]
      omega

end Cluster.Settles

/-- A cluster with nothing left to do has published and saved everything. -/
theorem Cluster.Followed.quiescent (followed : c.Followed) (rest : c.AtRest) : c.Quiescent := by
  intro n
  obtain ⟨published, running, delivered⟩ := rest n
  refine ⟨List.length_eq_zero_iff.mp published, ?_⟩
  intro shard
  have inOrder := (followed.nodes n).inOrder shard
    (by_contra (fun ended => running ⟨shard, ended⟩))
  exact Nat.le_antisymm (followed.saved_le n shard) ((delivered shard).trans inOrder)

-----------------------------------------------------------------------------------------
-- Agreement
-----------------------------------------------------------------------------------------

/-- A change that is published goes to the shard of its row and can be applied everywhere. -/
def Deliverable (assigned : RowId config.catalog → Fin config.shards) (c : Cluster config)
    (input : ClusterStep config) : Prop :=
  Routed assigned c input ∧ PublishesApplicable c input

/-- Both nodes insert a tag and publish it, and a node fails to save what it has applied. -/
def failedSaveRun : List (ClusterStep tagConfig) :=
  [
    insertTag firstNode "a" 1,
    insertTag secondNode "a" 2,
    publishTag secondNode,
    deliverTag firstNode thirdShard 0 false
  ]

def consumeTag (node : Fin 2) : SettlingStep tagConfig := .consume node thirdShard (delivery 0)

/-- The process starts again and applies its message once more. -/
def settlingRun : List (SettlingStep tagConfig) :=
  [
    consumeTag secondNode,
    .restart firstNode strangerGate,
    consumeTag firstNode,
    .publish firstNode 0,
    consumeTag secondNode,
    consumeTag firstNode
  ]

theorem deliverable_publishTag {c : Cluster tagConfig} {node : Fin 2} {marked : Bool}
    (shard : (c.node node).pending.head?.map (fun entry => (tagConfig.shardOf
        ((tagConfig.event entry).hash standard (c.node node).tablePKColumnsCache).1).val)
      = some thirdShard.val)
    (decodes : (c.node node).pending.head?.map
        (fun entry => (⟨node, entry⟩ : Published tagConfig).received.isSome) = some true)
    : Deliverable (fun _ => thirdShard) c (.publish node 0 marked) := by
  refine ⟨routed_publishTag shard, ?_⟩
  intro n index marked same entry pending
  obtain ⟨rfl, rfl, rfl⟩ := ClusterStep.publish.inj same
  rw [List.head?_eq_getElem?, pending] at decodes
  exact Published.applicable_of_plainDriver rfl (Option.some.inj decodes)

/-- Steps that publish nothing are no matter. -/
theorem deliverable_of_ne {assigned : RowId config.catalog → Fin config.shards}
    {input : ClusterStep config} (routed : Routed assigned c input)
    (other : ∀ n index marked, input ≠ .publish n index marked)
    : Deliverable assigned c input :=
  ⟨routed, fun n index marked same => absurd same (other n index marked)⟩

theorem deliverable_failedSaveRun
    : Runs.Along clusterStep (Deliverable (fun _ => thirdShard)) tagStart failedSaveRun :=
  ⟨deliverable_of_ne trivial (by simp [insertTag]),
    deliverable_of_ne trivial (by simp [insertTag]),
    deliverable_publishTag (by decide) (by decide),
    deliverable_of_ne trivial (by simp [deliverTag]), trivial⟩

theorem settling_consumeTag {c : Cluster tagConfig} {node : Fin 2}
    (running : ((c.node node).listeners.loops thirdShard).status = .running)
    (waiting : (c.node node).delivered thirdShard < (c.stream thirdShard).length)
    : (consumeTag node).Enabled c
      ∧ Deliverable (fun _ => thirdShard) c ((consumeTag node).step c) :=
  ⟨⟨running, waiting, ⟨rfl, rfl, rfl⟩⟩,
    deliverable_of_ne trivial (by simp [SettlingStep.step, consumeTag])⟩

theorem settling_settlingRun
    : Runs.Along settlingStep
        (fun c input => input.Enabled c ∧ Deliverable (fun _ => thirdShard) c (input.step c))
        (Runs.run clusterStep tagStart failedSaveRun) settlingRun :=
  ⟨settling_consumeTag (by decide) (by decide),
    ⟨show ClusterNode.Stopped _ by decide,
      deliverable_of_ne trivial (by simp [SettlingStep.step])⟩,
    settling_consumeTag (by decide) (by decide),
    ⟨show 0 < (ClusterNode.pending _).length by decide,
      deliverable_publishTag (by decide) (by decide)⟩,
    settling_consumeTag (by decide) (by decide),
    settling_consumeTag (by decide) (by decide), trivial⟩

namespace Cluster

/-- Everything that is published or to be published is decoded on arrival. -/
structure Decodable (c : Cluster config) : Prop where
  published : ∀ shard, ∀ published ∈ c.stream shard, published.received.isSome
  pending : ∀ n, ∀ entry ∈ (c.node n).pending, (⟨n, entry⟩ : Published config).received.isSome

/-- What was published or pending is published or pending. -/
structure Carries (c after : Cluster config) : Prop where
  published : ∀ shard, c.stream shard <+: after.stream shard
  pending : ∀ n, ∀ entry ∈ (c.node n).pending,
    entry ∈ (after.node n).pending ∨ ∃ shard, ⟨n, entry⟩ ∈ after.stream shard

theorem Carries.step {after : Cluster config} (carries : c.Carries after)
    {input : ClusterStep config} (quiet : input.IsQuiet)
    : c.Carries (clusterStep after input) := by
  have streams := prefix_stream_clusterStep after input
  refine ⟨fun shard => (carries.published shard).trans (streams shard), ?_⟩
  intro n entry member
  rcases carries.pending n entry member with pending | ⟨shard, published⟩
  · rcases pending_clusterStep after quiet n
      with same | ⟨index, first, shard, found, rest, published⟩
    · exact .inl (same ▸ pending)
    · rcases LastArrival.mem_eraseIdx_or found pending with later | rfl
      · exact .inl (rest ▸ later)
      · exact .inr ⟨shard, published⟩
  · exact .inr ⟨shard, (streams shard).subset published⟩

theorem Decodable.step (decodable : c.Decodable) {input : ClusterStep config}
    (quiet : input.IsQuiet)
    : (clusterStep c input).Decodable := by
  refine ⟨?_, ?_⟩
  · intro shard published member
    rcases mem_stream_clusterStep member with old | ⟨index, marked, _, found⟩
    · exact decodable.published shard published old
    · exact decodable.pending published.node published.entry (List.mem_of_getElem? found)
  · intro n entry member
    refine decodable.pending n entry ?_
    rcases pending_clusterStep c quiet n with same | ⟨index, first, shard, _, rest, _⟩
    · exact same ▸ member
    · exact List.mem_of_mem_eraseIdx (rest ▸ member)

/-- A node that is done has decoded every message, and so has everyone that is quiescent. -/
theorem Followed.decodable (followed : c.Followed) (quiescent : c.Quiescent) : c.Decodable := by
  refine ⟨?_, ?_⟩
  · intro shard published member
    obtain ⟨index, found⟩ := List.mem_iff_getElem?.mp member
    obtain ⟨inside, _⟩ := List.getElem?_eq_some_iff.mp found
    -- The publisher is a node that has to get past its own message.
    have saved : (c.node published.node).saved shard = (c.stream shard).length :=
      (quiescent published.node).2 shard
    obtain ⟨same, here, decodes⟩ :=
      followed.decoded published.node shard index (saved ▸ inside)
    obtain rfl := Option.some.inj (found.symm.trans here)
    exact decodes
  · intro n entry member
    rw [(quiescent n).1] at member
    cases member

theorem SettlingStep.isQuiet (input : SettlingStep config) : (input.step c).IsQuiet := by
  cases input <;> trivial

/-- There is a run to a state without anything to do, by induction on the measure. -/
theorem exists_quiescent {formatTime : GoTime → GoString}
    (plain : config.wire.conn.driver = plainDriver formatTime) (followed : c.Followed)
    (decodable : c.Decodable)
    : ∃ inputs : List (ClusterStep config), (∀ input ∈ inputs, input.IsQuiet)
      ∧ (Runs.run clusterStep c inputs).Quiescent := by
  induction size : c.measure using Nat.strong_induction_on generalizing c with
  | _ size ih =>
      by_cases rest : c.AtRest
      · exact ⟨[], by simp, followed.quiescent rest⟩
      · obtain ⟨input, enabled⟩ : ∃ input : SettlingStep config, input.Enabled c := by
          by_contra none
          exact rest (atRest_iff.mpr (not_exists.mp none))
        have settles : c.Settles := ⟨followed, fun shard published member =>
          Published.applicable_of_plainDriver plain (decodable.published shard published member)⟩
        have quiet := SettlingStep.isQuiet (c := c) input
        obtain ⟨inputs, allQuiet, quiescent⟩ := ih _ (size ▸ settles.measure_lt enabled)
          (followed.step (input.step c)) (decodable.step quiet) rfl
        refine ⟨input.step c :: inputs, ?_, quiescent⟩
        rw [List.forall_mem_cons]
        exact ⟨quiet, allQuiet⟩

end Cluster

/-- Without further writes a cluster can get to where everything is published and consumed
exactly if every message and every pending change can be decoded. One that cannot be decoded is
never got past, whatever is delivered, repeated and restarted.
-/
theorem quiescent_reachable_iff (config : ClusterConfig) {formatTime : GoTime → GoString}
    (plain : config.wire.conn.driver = plainDriver formatTime)
    (db : Fin config.nodes → Database config.catalog) (gate : Fin config.nodes → SchemaGate)
    (earlier : List (ClusterStep config))
    : let c := Runs.run clusterStep (Cluster.start db gate) earlier
      (∃ inputs : List (ClusterStep config), (∀ input ∈ inputs, input.IsQuiet)
          ∧ (Runs.run clusterStep c inputs).Quiescent)
        ↔ c.Decodable := by
  intro c
  have followed : c.Followed := (Cluster.Followed.start db gate).run earlier
  constructor
  · rintro ⟨inputs, quiet, quiescent⟩
    have decodable := (followed.run inputs).decodable quiescent
    have carries : c.Carries (Runs.run clusterStep c inputs) := by
      have met : Runs.Along clusterStep (fun _ input => input.IsQuiet) c inputs :=
        (Runs.along_true inputs).and_mem.mono (fun _ input both => quiet input both.2)
      exact met.invariant (fun _ _ carries quiet => carries.step quiet)
        ⟨fun _ => List.prefix_rfl, fun _ _ member => .inl member⟩
    refine ⟨?_, ?_⟩
    · intro shard published member
      exact decodable.published shard published ((carries.published shard).subset member)
    · intro n entry member
      rcases carries.pending n entry member with pending | ⟨shard, published⟩
      · exact decodable.pending n entry pending
      · exact decodable.published shard _ published
  · intro decodable
    exact Cluster.exists_quiescent plain followed decodable

/-- A text that is not UTF-8, which SQLite does not mind. -/
def invalidText : GoString := (GoString.ofBytes? [255]).getD .empty

def invalidTag : ClusterStep tagConfig :=
  .write firstNode (.lit "tags") 1 ⟨.insert (tag invalidText 1) false, rfl⟩

theorem quiescent_reachable_iff_invalidTag
    : ((Runs.run clusterStep tagStart [invalidTag]).node firstNode).pending.length = 1
      ∧ ¬ ∃ inputs : List (ClusterStep tagConfig), (∀ input ∈ inputs, input.IsQuiet)
        ∧ (Runs.run clusterStep (Runs.run clusterStep tagStart [invalidTag]) inputs).Quiescent := by
  refine ⟨by decide, ?_⟩
  intro reachable
  have decodable := (quiescent_reachable_iff tagConfig rfl _ _ [invalidTag]).mp reachable
  have undecoded : ((Runs.run clusterStep tagStart [invalidTag]).node firstNode).pending.map
      (fun entry => (⟨firstNode, entry⟩ : Published tagConfig).received.isSome) = [false] := by
    decide
  obtain ⟨entry, pending, none⟩ := List.map_eq_singleton_iff.mp undecoded
  have member : entry ∈ ((Runs.run clusterStep tagStart [invalidTag]).node firstNode).pending := by
    rw [pending]
    exact .head _
  have decodes := decodable.pending firstNode entry member
  rw [none] at decodes
  cases decodes

end HarmonyLite
