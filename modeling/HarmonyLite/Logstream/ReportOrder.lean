import HarmonyLite.Logstream.SchemaRegistry

/-! `CheckClusterSchemaConsistency` over a Go map: its two loops iterate in orders of their own,
the first one for the reference hash alone.
-/

namespace HarmonyLite

/-- The `map[uint64]*NodeSchemaState` that `GetClusterSchemaState` returns. -/
structure ClusterSchemaState (Node : Type) where
  states : List (Node × NodeSchemaState Node)
  distinct : (states.map Prod.fst).Nodup

variable {Node : Type}

/-- The variable that the first loop assigns before it breaks. -/
def referenceHash (order : List (Node × NodeSchemaState Node)) : GoString :=
  match order with
  | [] => .empty
  | (_, state) :: _ => state.schemaHash

/-- The body of the second loop. -/
def SchemaConsistencyReport.compare (referenceHash : GoString)
    (report : SchemaConsistencyReport Node) (entry : Node × NodeSchemaState Node)
    : SchemaConsistencyReport Node :=
  if entry.2.schemaHash ≠ referenceHash then
    { report with
      consistent := false
      mismatches := report.mismatches ++ [⟨entry.1, referenceHash, entry.2.schemaHash⟩] }
  else
    report

namespace ClusterSchemaState

/-- The report, when the loops iterate in the two orders; its time is left out. -/
def report (cluster : ClusterSchemaState Node) (first second : List (Node × NodeSchemaState Node))
    : SchemaConsistencyReport Node :=
  let report := ⟨cluster.states.length, true, []⟩
  if cluster.states.length ≤ 1 then
    report
  else
    second.foldl (SchemaConsistencyReport.compare (referenceHash first)) report

def Uniform (cluster : ClusterSchemaState Node) : Prop :=
  ∀ left ∈ cluster.states, ∀ right ∈ cluster.states, left.2.schemaHash = right.2.schemaHash

/-- What a report should say does not depend on the orders. -/
structure OrderIndependent (cluster : ClusterSchemaState Node) : Prop where
  consistent : ∀ first second, first.Perm cluster.states → second.Perm cluster.states
    → ((cluster.report first second).consistent = true ↔ cluster.Uniform)
  mismatches : ∀ first second, first.Perm cluster.states → second.Perm cluster.states
    → ((cluster.report first second).mismatches = []
      ↔ (cluster.report first second).consistent = true)
  sameNodes : ∀ first second first' second',
    first.Perm cluster.states → second.Perm cluster.states
    → first'.Perm cluster.states → second'.Perm cluster.states
    → ∀ node, node ∈ (cluster.report first second).mismatches.map SchemaMismatch.nodeId
      ↔ node ∈ (cluster.report first' second').mismatches.map SchemaMismatch.nodeId

end ClusterSchemaState

-----------------------------------------------------------------------------------------
-- The second loop
-----------------------------------------------------------------------------------------

def mismatchWith (referenceHash : GoString) (entry : Node × NodeSchemaState Node)
    : Option (SchemaMismatch Node) :=
  if entry.2.schemaHash ≠ referenceHash then
    some ⟨entry.1, referenceHash, entry.2.schemaHash⟩
  else
    none

/-- The loop keeps the mismatches in its order, and one of them is enough for the flag. -/
theorem foldl_compare (referenceHash : GoString) (order : List (Node × NodeSchemaState Node))
    (report : SchemaConsistencyReport Node)
    : order.foldl (SchemaConsistencyReport.compare referenceHash) report
      = ⟨report.nodeCount,
          report.consistent && (order.filterMap (mismatchWith referenceHash)).isEmpty,
          report.mismatches ++ order.filterMap (mismatchWith referenceHash)⟩ := by
  induction order generalizing report with
  | nil => simp
  | cons entry rest ih =>
      rw [List.foldl_cons, ih]
      by_cases same : entry.2.schemaHash = referenceHash
      · simp [SchemaConsistencyReport.compare, mismatchWith, same]
      · simp [SchemaConsistencyReport.compare, mismatchWith, same]

namespace ClusterSchemaState

variable {cluster : ClusterSchemaState Node} {first second : List (Node × NodeSchemaState Node)}

/-- The report on more than one node. -/
theorem report_of_several (several : 1 < cluster.states.length)
    : cluster.report first second
      = ⟨cluster.states.length,
          (second.filterMap (mismatchWith (referenceHash first))).isEmpty,
          second.filterMap (mismatchWith (referenceHash first))⟩ := by
  rw [report, if_neg (Nat.not_le.mpr several), foldl_compare]
  simp

theorem report_of_few (few : cluster.states.length ≤ 1)
    : cluster.report first second = ⟨cluster.states.length, true, []⟩ :=
  if_pos few

/-- One order for both loops gives the report that a check of the registry makes. -/
theorem report_self (cluster : ClusterSchemaState Node)
    (keys : ∀ entry ∈ cluster.states, entry.1 = entry.2.nodeId)
    : cluster.report cluster.states cluster.states
      = checkClusterSchemaConsistency (cluster.states.map Prod.snd) := by
  obtain ⟨states, distinct⟩ := cluster
  match states with
  | [] => rfl
  | [_] => rfl
  | (node, reference) :: next :: rest =>
      have same : ((node, reference) :: next :: rest).filterMap
            (mismatchWith reference.schemaHash)
          = (((node, reference) :: next :: rest).map Prod.snd).filterMap fun state =>
              if state.schemaHash ≠ reference.schemaHash then
                some ⟨state.nodeId, reference.schemaHash, state.schemaHash⟩
              else
                none := by
        rw [List.filterMap_map]
        refine List.filterMap_congr ?_
        intro entry member
        simp [mismatchWith, keys entry member]
      rw [report_of_several (by simp)]
      simp only [referenceHash, same, List.map_cons, checkClusterSchemaConsistency,
        List.length_cons, List.length_map]

/-- Whatever is reported inconsistent has a mismatch to show, and the other way round. -/
theorem mismatches_nil_iff
    : (cluster.report first second).mismatches = []
      ↔ (cluster.report first second).consistent = true := by
  rcases Nat.lt_or_ge 1 cluster.states.length with several | few
  · rw [report_of_several several]
    simp
  · rw [report_of_few few]
    simp

/-- A node is reported when its hash is not that of the node which came first. -/
theorem mem_mismatches_iff (first : List (Node × NodeSchemaState Node))
    (several : 1 < cluster.states.length) (permuted : second.Perm cluster.states)
    {node : Node}
    : node ∈ (cluster.report first second).mismatches.map SchemaMismatch.nodeId
      ↔ ∃ state, (node, state) ∈ cluster.states ∧ state.schemaHash ≠ referenceHash first := by
  rw [report_of_several several]
  simp only [List.mem_map, List.mem_filterMap, mismatchWith, Option.ite_none_right_eq_some,
    Option.some.injEq]
  constructor
  · rintro ⟨mismatch, ⟨⟨other, state⟩, member, different, rfl⟩, rfl⟩
    exact ⟨state, permuted.mem_iff.mp member, different⟩
  · rintro ⟨state, member, different⟩
    exact ⟨_, ⟨(node, state), permuted.mem_iff.mpr member, different, rfl⟩, rfl⟩

/-- With one hash there is no mismatch in any order. -/
theorem mismatches_of_uniform (uniform : cluster.Uniform) (firstOrder : first.Perm cluster.states)
    (secondOrder : second.Perm cluster.states)
    : (cluster.report first second).mismatches = [] := by
  rcases Nat.lt_or_ge 1 cluster.states.length with several | few
  · refine List.eq_nil_iff_forall_not_mem.mpr ?_
    intro mismatch listed
    have reported := List.mem_map_of_mem (f := SchemaMismatch.nodeId) listed
    obtain ⟨state, member, different⟩ := (mem_mismatches_iff _ several secondOrder).mp reported
    cases first with
    | nil =>
        rw [← firstOrder.length_eq] at several
        simp at several
    | cons entry rest =>
        exact different (uniform _ member _ (firstOrder.mem_iff.mp (by simp)))
  · rw [report_of_few few]

/-- Any entry can come first. -/
theorem exists_order {entry : Node × NodeSchemaState Node} (member : entry ∈ cluster.states)
    : ∃ rest, (entry :: rest).Perm cluster.states := by
  obtain ⟨before, after, split⟩ := List.append_of_mem member
  exact ⟨before ++ after, by rw [split]; exact List.perm_middle.symm⟩

theorem several_of_different {left right : Node × NodeSchemaState Node}
    (leftMember : left ∈ cluster.states) (rightMember : right ∈ cluster.states)
    (different : left.2.schemaHash ≠ right.2.schemaHash)
    : 1 < cluster.states.length := by
  by_contra few
  match states : cluster.states with
  | [] => simp [states] at leftMember
  | [only] =>
      simp only [states, List.mem_singleton] at leftMember rightMember
      exact different (by rw [leftMember, rightMember])
  | _ :: _ :: _ => simp [states] at few

/-- A consistent report means that there is one hash, whatever came first. -/
theorem uniform_of_consistent (secondOrder : second.Perm cluster.states)
    (consistent : (cluster.report first second).consistent = true)
    : cluster.Uniform := by
  intro left leftMember right rightMember
  by_contra different
  have several := several_of_different leftMember rightMember different
  have none := mismatches_nil_iff.mpr consistent
  -- No entry differs from the reference, so no two entries differ from each other.
  have same (entry : Node × NodeSchemaState Node) (member : entry ∈ cluster.states)
      : entry.2.schemaHash = referenceHash first := by
    by_contra other
    have reported := (mem_mismatches_iff first several secondOrder).mpr
      ⟨entry.2, member, other⟩
    rw [none] at reported
    simp at reported
  exact different ((same left leftMember).trans (same right rightMember).symm)

theorem consistent_iff_uniform (firstOrder : first.Perm cluster.states)
    (secondOrder : second.Perm cluster.states)
    : (cluster.report first second).consistent = true ↔ cluster.Uniform :=
  ⟨uniform_of_consistent secondOrder,
    fun uniform => mismatches_nil_iff.mp (mismatches_of_uniform uniform firstOrder secondOrder)⟩

/-- A node is not reported when its own entry comes first. -/
theorem not_reported_of_first {entry : Node × NodeSchemaState Node}
    {rest : List (Node × NodeSchemaState Node)} (several : 1 < cluster.states.length)
    (firstOrder : (entry :: rest).Perm cluster.states) (secondOrder : second.Perm cluster.states)
    : entry.1 ∉ (cluster.report (entry :: rest) second).mismatches.map SchemaMismatch.nodeId := by
  intro reported
  obtain ⟨state, member, different⟩ := (mem_mismatches_iff _ several secondOrder).mp reported
  have own : entry ∈ cluster.states := firstOrder.mem_iff.mp (by simp)
  have same := List.inj_on_of_nodup_map cluster.distinct member own rfl
  exact different (by rw [← same]; rfl)

/-- The report is the same in all orders exactly when the nodes have one hash. The flag and the
list agree with each other and with the hashes in any case; which nodes are listed does not.
-/
theorem orderIndependent_iff (cluster : ClusterSchemaState Node)
    : cluster.OrderIndependent ↔ cluster.Uniform := by
  constructor
  · intro independent left leftMember right rightMember
    by_contra different
    have several := several_of_different leftMember rightMember different
    obtain ⟨others, leftFirst⟩ := exists_order leftMember
    obtain ⟨others', rightFirst⟩ := exists_order rightMember
    have hidden := not_reported_of_first several leftFirst (.refl _)
    have reported := (mem_mismatches_iff (right :: others') several (.refl _)).mpr
      ⟨left.2, leftMember, different⟩
    exact hidden ((independent.sameNodes _ _ _ _ leftFirst (.refl _) rightFirst (.refl _)
      left.1).mpr reported)
  · intro uniform
    refine ⟨fun _ _ => consistent_iff_uniform, fun _ _ _ _ => mismatches_nil_iff, ?_⟩
    intro first second first' second' firstOrder secondOrder firstOrder' secondOrder' node
    rw [mismatches_of_uniform uniform firstOrder secondOrder,
      mismatches_of_uniform uniform firstOrder' secondOrder']

end ClusterSchemaState

/-- Two nodes on two schemas. -/
def dividedCluster : ClusterSchemaState Nat where
  states := [(1, ⟨1, .lit "old", .empty⟩), (2, ⟨2, .lit "new", .lit "old"⟩)]
  distinct := by decide

/-- Whichever node comes first in the first loop, the other one is reported. -/
theorem not_orderIndependent_dividedCluster
    : (dividedCluster.report dividedCluster.states dividedCluster.states).mismatches
        = [⟨2, .lit "old", .lit "new"⟩]
      ∧ (dividedCluster.report dividedCluster.states.reverse dividedCluster.states).mismatches
        = [⟨1, .lit "new", .lit "old"⟩]
      ∧ ¬ dividedCluster.OrderIndependent := by
  have straight : (dividedCluster.report dividedCluster.states dividedCluster.states).mismatches
      = [⟨2, .lit "old", .lit "new"⟩] := by
    decide +kernel
  have reversed
      : (dividedCluster.report dividedCluster.states.reverse dividedCluster.states).mismatches
        = [⟨1, .lit "new", .lit "old"⟩] := by
    decide +kernel
  refine ⟨straight, reversed, ?_⟩
  intro independent
  have same := independent.sameNodes _ _ _ _ (.refl _) (.refl _) (List.reverse_perm _) (.refl _) 1
  rw [straight, reversed] at same
  simp at same

end HarmonyLite
