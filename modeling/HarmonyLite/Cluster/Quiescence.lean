import HarmonyLite.Cluster.Network
import Mathlib.Algebra.Order.BigOperators.Group.Finset

/-! Without further writes replication comes to an end: every publish takes a pending change and
every delivery a message that a node has not seen, and replicating a message records nothing.
-/

namespace HarmonyLite

variable {config : NetworkConfig}

namespace Network

variable (s : Network config)

def pending : Nat := ∑ n, (s.store n).pending.card

/-- The messages that have not been delivered, counted for each node. -/
def undelivered : Nat :=
  ∑ n, ∑ shard, ((s.stream shard).length - (s.node n).delivered shard)

/-- A pending change is still to be published and then to be delivered to each node. -/
def measure : Nat := s.pending * (config.nodes + 1) + s.undelivered

end Network

/-- A publish that succeeds and is marked, or the delivery of the next message of a stream. -/
inductive QuietStep (config : NetworkConfig) where
  | publish (node : Fin config.nodes) (captured : CapturedChange config.tables) (id : Int64)
  | consume (node : Fin config.nodes) (shard : Fin config.shards) (i : Iteration)

namespace QuietStep

/-- The change is pending, or there is a message that was not delivered to the node. -/
def Enabled (s : Network config) : QuietStep config → Prop
  | .publish n captured _ => captured ∈ (s.store n).pending
  | .consume n shard _ => (s.node n).delivered shard < (s.stream shard).length

def step (s : Network config) : QuietStep config → NetworkStep config
  | .publish n captured id => .publish n captured id (some .done) true
  | .consume n shard i => .deliver n shard ((s.node n).delivered shard) i

end QuietStep

def quietStep (s : Network config) (input : QuietStep config) : Network config :=
  networkStep s (input.step s)

/-- Sums that differ in one term. -/
theorem sum_add_eq_of_ne {ι : Type} [Fintype ι] [DecidableEq ι] {f g : ι → Nat} {i : ι}
    (others : ∀ j, j ≠ i → g j = f j)
    : ∑ j, g j + f i = ∑ j, f j + g i := by
  have rest : ∑ j ∈ Finset.univ.erase i, g j = ∑ j ∈ Finset.univ.erase i, f j :=
    Finset.sum_congr rfl (fun j member => others j (Finset.ne_of_mem_erase member))
  rw [← Finset.add_sum_erase Finset.univ g (Finset.mem_univ i),
    ← Finset.add_sum_erase Finset.univ f (Finset.mem_univ i), rest]
  omega

namespace Network

variable {s : Network config}

theorem undelivered_append (shard : Fin config.shards) (sent : NetworkMessage config)
    {after : Network config}
    (delivered : ∀ n, (after.node n).delivered = (s.node n).delivered)
    (stream : after.stream = Function.update s.stream shard (s.stream shard ++ [sent]))
    : after.undelivered ≤ s.undelivered + config.nodes := by
  have each (n : Fin config.nodes)
      : ∑ other, ((after.stream other).length - (after.node n).delivered other)
        ≤ ∑ other, ((s.stream other).length - (s.node n).delivered other) + 1 := by
    have sums := sum_add_eq_of_ne (i := shard)
      (f := fun other => (s.stream other).length - (s.node n).delivered other)
      (g := fun other => (after.stream other).length - (after.node n).delivered other)
      (fun other different => by simp [stream, delivered, different])
    have length : (after.stream shard).length = (s.stream shard).length + 1 := by
      simp [stream]
    simp only [length, delivered] at sums ⊢
    omega
  calc
    _ ≤ ∑ n, (∑ other, ((s.stream other).length - (s.node n).delivered other) + 1) :=
      Finset.sum_le_sum (fun n _ => each n)
    _ = s.undelivered + config.nodes := by simp [undelivered, Finset.sum_add_distrib]

/-- A publish trades a pending change for one message to each node. -/
theorem measure_publish {n : Fin config.nodes} {captured : CapturedChange config.tables}
    (isPending : captured ∈ (s.store n).pending) (id : Int64)
    : (s.publish n captured id (some .done) true).measure < s.measure := by
  obtain ⟨shard, stream⟩ := stream_publish isPending id .done true
  have nodes := node_publish isPending id (some .done) true
  have messages := undelivered_append shard _ (fun m => (nodes m).1) stream
  have sums := sum_add_eq_of_ne (i := n) (f := fun m => (s.store m).pending.card)
    (g := fun m => ((s.publish n captured id (some .done) true).store m).pending.card)
    (fun m other => by simp [(nodes m).2, other])
  have taken : ((s.publish n captured id (some .done) true).store n).pending.card + 1
      = (s.store n).pending.card := by
    rw [(nodes n).2]
    simpa using Multiset.card_erase_add_one isPending
  have fewer : (s.publish n captured id (some .done) true).pending + 1 = s.pending := by
    unfold pending
    omega
  unfold measure
  calc
    _ ≤ (s.publish n captured id (some .done) true).pending * (config.nodes + 1)
        + (s.undelivered + config.nodes) := Nat.add_le_add_left messages _
    -- The change that is no longer pending pays for a message to each node, with one to spare.
    _ < ((s.publish n captured id (some .done) true).pending + 1) * (config.nodes + 1)
        + s.undelivered := by
      rw [Nat.succ_mul]
      omega
    _ = s.pending * (config.nodes + 1) + s.undelivered := by rw [fewer]

/-- A delivery records nothing, on any node. -/
theorem pending_deliver (s : Network config) (n : Fin config.nodes) (shard : Fin config.shards)
    (index : Nat) (i : Iteration) (m : Fin config.nodes)
    : ((networkStep s (.deliver n shard index i)).store m).pending = (s.store m).pending := by
  unfold networkStep
  dsimp only
  split
  · rfl
  · rw [store_setNode]
    split
    · rename_i same
      subst same
      exact NetworkNode.pending_deliver _ _ _ _ _
    · rfl

/-- The next delivery takes one message from what is undelivered. -/
theorem undelivered_consume {n : Fin config.nodes} {shard : Fin config.shards}
    (waiting : (s.node n).delivered shard < (s.stream shard).length) (i : Iteration)
    : (networkStep s (.deliver n shard ((s.node n).delivered shard) i)).undelivered
      < s.undelivered := by
  generalize isAfter : networkStep s (.deliver n shard ((s.node n).delivered shard) i) = after
  obtain ⟨sent, found⟩ : ∃ sent, (s.stream shard)[(s.node n).delivered shard]? = some sent :=
    ⟨_, List.getElem?_eq_getElem waiting⟩
  have step : after
      = s.setNode n ((s.node n).deliver shard ((s.node n).delivered shard) sent i) := by
    rw [← isAfter, networkStep, found]
  have stream : after.stream = s.stream := by rw [step]; rfl
  have here : (after.node n).delivered
      = Function.update (s.node n).delivered shard ((s.node n).delivered shard + 1) := by
    rw [step, setNode_node, Function.update_self, NetworkNode.delivered_deliver_next]
  have others (m : Fin config.nodes) (other : m ≠ n) : after.node m = s.node m := by
    rw [step, setNode_node, Function.update_of_ne other]
  -- The sums differ at this node, and there at this shard.
  have nodes := sum_add_eq_of_ne (i := n)
    (f := fun m => ∑ other, ((s.stream other).length - (s.node m).delivered other))
    (g := fun m => ∑ other, ((after.stream other).length - (after.node m).delivered other))
    (fun m other => by simp only [others m other, stream])
  have shards := sum_add_eq_of_ne (i := shard)
    (f := fun other => (s.stream other).length - (s.node n).delivered other)
    (g := fun other => (after.stream other).length - (after.node n).delivered other)
    (fun other different => by simp [here, stream, different])
  have one : (after.node n).delivered shard = (s.node n).delivered shard + 1 := by
    rw [here, Function.update_self]
  simp only [stream, one] at nodes shards
  unfold undelivered
  simp only [stream]
  omega

theorem measure_consume {n : Fin config.nodes} {shard : Fin config.shards}
    (waiting : (s.node n).delivered shard < (s.stream shard).length) (i : Iteration)
    : (networkStep s (.deliver n shard ((s.node n).delivered shard) i)).measure < s.measure := by
  have same : (networkStep s (.deliver n shard ((s.node n).delivered shard) i)).pending
      = s.pending := by
    unfold pending
    simp only [pending_deliver]
  unfold measure
  rw [same]
  exact Nat.add_lt_add_left (undelivered_consume waiting i) _

theorem measure_quietStep {input : QuietStep config} (enabled : input.Enabled s)
    : (quietStep s input).measure < s.measure := by
  cases input with
  | publish n captured id => exact measure_publish enabled id
  | consume n shard i => exact measure_consume enabled i

/-- Every step of a quiet run lowers the measure, so it is as long as that at most. -/
theorem length_le_measure (steps : List (QuietStep config)) (s : Network config)
    (enabled : Runs.Along quietStep (fun s input => input.Enabled s) s steps)
    : steps.length + (Runs.run quietStep s steps).measure ≤ s.measure := by
  induction steps generalizing s with
  | nil => exact Nat.le_of_eq (Nat.zero_add _)
  | cons first rest ih =>
      obtain ⟨here, later⟩ := enabled
      have less := measure_quietStep here
      have tail := ih (quietStep s first) later
      rw [List.length_cons, Runs.run_cons]
      omega

end Network

/-- From every state that a run reaches, whatever it starts from, replication without further
writes comes to an end: no delivery records a change, every publish and every delivery lowers
the measure, and a run of them is no longer than the measure of the state it starts from.
-/
theorem network_quiesces (config : NetworkConfig) (start : Network config)
    (inputs : List (NetworkStep config))
    : let s := Runs.run networkStep start inputs
      (∀ n shard index i m,
          ((networkStep s (.deliver n shard index i)).store m).pending = (s.store m).pending)
        ∧ (∀ input : QuietStep config, input.Enabled s → (quietStep s input).measure < s.measure)
        ∧ ∀ steps, Runs.Along quietStep (fun s input => input.Enabled s) s steps
          → steps.length ≤ s.measure := by
  intro s
  refine ⟨Network.pending_deliver s, fun _ enabled => Network.measure_quietStep enabled, ?_⟩
  intro steps enabled
  have bound := Network.length_le_measure steps s enabled
  omega

end HarmonyLite
