import HarmonyLite.Basis.Runs
import Mathlib.Logic.Function.Basic

/-! Replicated rows over sharded logs. Every node writes rows locally and posts each write to
the log of the row's shard; every node applies the logs in order, its own posts included. The
last post of a row wins.
-/

namespace LastArrival

/-- The value that a row is to have. -/
structure Message {κ : Type*} (V : κ → Type*) where
  row : κ
  image : V row

/-- A message in a log, with the node that posted it. -/
structure Post (ν : Type*) {κ : Type*} (V : κ → Type*) extends Message V where
  node : ν

/-- The nodes' tables and unposted messages, the logs, and how far each node has applied
each log.
-/
structure State (ν σ : Type*) {κ : Type*} (V : κ → Type*) where
  table : ν → (row : κ) → V row
  pending : ν → List (Message V)
  log : σ → List (Post ν V)
  applied : ν → σ → Nat

/-- A write stores a value locally, which need not be the one that its message gives. Any
unposted message may be posted next, it may be left to be posted again, and the last
application may be repeated.
-/
inductive Step (ν σ : Type*) {κ : Type*} (V : κ → Type*) where
  | write (node : ν) (message : Message V) (value : V message.row)
  | post (node : ν) (index : Nat) (again : Bool)
  | apply (node : ν) (shard : σ)
  | reapply (node : ν) (shard : σ)

section

variable {ν σ κ : Type*} {V : κ → Type*} [DecidableEq ν] [DecidableEq σ] [DecidableEq κ]

/-- Change one entry of one node. -/
def updateAt {ι : Type*} [DecidableEq ι] {W : ι → Type*} (entries : ν → (i : ι) → W i)
    (node : ν) (i : ι) (value : W i)
    : ν → (i : ι) → W i :=
  Function.update entries node (Function.update (entries node) i value)

def step (shardOf : κ → σ) (s : State ν σ V) : Step ν σ V → State ν σ V
  | .write node message value =>
      { s with
        table := updateAt s.table node message.row value
        pending := Function.update s.pending node (s.pending node ++ [message]) }
  | .post node index again =>
      match (s.pending node)[index]? with
      | none => s
      | some message =>
          let shard := shardOf message.row
          { s with
            pending := if again then s.pending
              else Function.update s.pending node ((s.pending node).eraseIdx index)
            log := Function.update s.log shard (s.log shard ++ [⟨message, node⟩]) }
  | .apply node shard =>
      match (s.log shard)[s.applied node shard]? with
      | none => s
      | some post =>
          { s with
            table := updateAt s.table node post.row post.image
            applied := updateAt s.applied node shard (s.applied node shard + 1) }
  | .reapply node shard =>
      match ((s.log shard).take (s.applied node shard)).getLast? with
      | none => s
      | some post => { s with table := updateAt s.table node post.row post.image }

def Step.node : Step ν σ V → ν
  | .write node _ _ | .post node _ _ | .apply node _ | .reapply node _ => node

/-- Nothing is posted yet. -/
def State.start (table : ν → (row : κ) → V row) : State ν σ V where
  table := table
  pending _ := []
  log _ := []
  applied _ _ := 0

/-- The posts that a node has applied of the shard of a row, and those it has not. -/
def State.seen (s : State ν σ V) (shardOf : κ → σ) (node : ν) (row : κ) : List (Post ν V) :=
  (s.log (shardOf row)).take (s.applied node (shardOf row))

def State.unseen (s : State ν σ V) (shardOf : κ → σ) (node : ν) (row : κ)
    : List (Post ν V) :=
  (s.log (shardOf row)).drop (s.applied node (shardOf row))

/-- The last post for its row. -/
def IsLast (posts : List (Post ν V)) (post : Post ν V) : Prop :=
  ∃ before after, posts = before ++ post :: after ∧ ∀ later ∈ after, later.row ≠ post.row

/-- The node has a message for the row that is not posted or that it has not applied yet. -/
def Outstanding (shardOf : κ → σ) (s : State ν σ V) (node : ν) (row : κ) : Prop :=
  (∃ message ∈ s.pending node, message.row = row)
  ∨ ∃ post ∈ s.unseen shardOf node row, post.node = node ∧ post.row = row

/-- A log holds only rows of its shard, no node is ahead of a log, and a node without an
outstanding message for a row holds the value of the last post it has applied there.
-/
structure Invariant (shardOf : κ → σ) (s : State ν σ V) : Prop where
  sharded : ∀ shard, ∀ post ∈ s.log shard, shardOf post.row = shard
  within : ∀ node shard, s.applied node shard ≤ (s.log shard).length
  holds : ∀ node post, IsLast (s.seen shardOf node post.row) post
    → ¬ Outstanding shardOf s node post.row
    → s.table node post.row = post.image

end

section

variable {ν σ κ : Type*} {V : κ → Type*}

theorem isLast_concat {posts : List (Post ν V)} {new post : Post ν V}
    : IsLast (posts ++ [new]) post ↔ post = new ∨ (IsLast posts post ∧ new.row ≠ post.row) := by
  constructor
  · intro last
    obtain ⟨before, after, split, later⟩ := last
    rcases after.eq_nil_or_concat' with rfl | ⟨after, last, rfl⟩
    · obtain ⟨_, same⟩ := List.append_inj' split rfl
      obtain ⟨rfl, _⟩ := List.cons.inj same
      exact .inl rfl
    · rw [← List.cons_append, ← List.append_assoc] at split
      obtain ⟨rfl, same⟩ := List.append_inj' split rfl
      obtain ⟨rfl, _⟩ := List.cons.inj same
      refine .inr ⟨⟨before, after, rfl, ?_⟩, later _ (by simp)⟩
      intro other member
      exact later other (by simp [member])
  · intro either
    rcases either with rfl | ⟨⟨before, after, rfl, later⟩, other⟩
    · exact ⟨posts, [], rfl, by simp⟩
    · refine ⟨before, after ++ [new], by simp, ?_⟩
      intro next member
      rcases List.mem_append.mp member with earlier | single
      · exact later next earlier
      · obtain rfl := List.mem_singleton.mp single
        exact other

theorem Invariant.start (shardOf : κ → σ) (table : ν → (row : κ) → V row)
    : Invariant shardOf (State.start table : State ν σ V) := by
  refine ⟨by simp [State.start], by simp [State.start], ?_⟩
  intro node post last
  obtain ⟨before, after, split, _⟩ := last
  simp [State.seen, State.start] at split

/-- Once nothing is pending and every log is applied to its end, every node holds the value
of the last post of each row.
-/
theorem Invariant.converged {shardOf : κ → σ} {s : State ν σ V} (inv : Invariant shardOf s)
    (drained : ∀ node, s.pending node = [])
    (consumed : ∀ node shard, s.applied node shard = (s.log shard).length)
    (shard : σ) (post : Post ν V) (last : IsLast (s.log shard) post) (node : ν)
    : s.table node post.row = post.image := by
  have home : shardOf post.row = shard := by
    obtain ⟨before, after, split, _⟩ := last
    exact inv.sharded shard post (by simp [split])
  refine inv.holds node post ?_ ?_
  · rwa [State.seen, consumed, List.take_length, home]
  · intro outstanding
    rcases outstanding with ⟨message, member, _⟩ | ⟨mine, member, _⟩
    · simp [drained] at member
    · simp [State.unseen, consumed] at member

variable [DecidableEq ν]

@[simp]
theorem updateAt_self {ι : Type*} [DecidableEq ι] {W : ι → Type*}
    (entries : ν → (i : ι) → W i) (node : ν) (i : ι) (value : W i)
    : updateAt entries node i value node i = value := by
  simp [updateAt]

theorem updateAt_of_ne {ι : Type*} [DecidableEq ι] {W : ι → Type*}
    (entries : ν → (i : ι) → W i) {node other : ν} {i j : ι} (value : W i)
    (different : ¬ (other = node ∧ j = i))
    : updateAt entries node i value other j = entries other j := by
  unfold updateAt
  by_cases same : other = node
  · subst same
    have elsewhere : j ≠ i := fun here => different ⟨rfl, here⟩
    rw [Function.update_self, Function.update_of_ne elsewhere]
  · rw [Function.update_of_ne same]

variable [DecidableEq σ] [DecidableEq κ] {shardOf : κ → σ} {s : State ν σ V}

/-- A step changes nothing of the nodes that do not take it. -/
theorem step_of_ne (shardOf : κ → σ) (s : State ν σ V) (input : Step ν σ V) {other : ν}
    (different : other ≠ input.node)
    : (step shardOf s input).table other = s.table other
      ∧ (step shardOf s input).pending other = s.pending other
      ∧ (step shardOf s input).applied other = s.applied other := by
  cases input with
  | write node message value =>
      have apart : other ≠ node := different
      simp [step, updateAt, apart]
  | post node index again =>
      have apart : other ≠ node := different
      cases pending : (s.pending node)[index]? <;> cases again <;> simp [step, pending, apart]
  | apply node shard =>
      have apart : other ≠ node := different
      cases next : (s.log shard)[s.applied node shard]? <;> simp [step, next, updateAt, apart]
  | reapply node shard =>
      have apart : other ≠ node := different
      cases newest : ((s.log shard).take (s.applied node shard)).getLast? <;>
        simp [step, newest, updateAt, apart]

/-- A write leaves its row outstanding. -/
theorem Invariant.write (inv : Invariant shardOf s) (node : ν) (message : Message V)
    (value : V message.row)
    : Invariant shardOf (step shardOf s (.write node message value)) where
  sharded := inv.sharded
  within := inv.within
  holds := by
    intro other post last idle
    have different : ¬ (other = node ∧ post.row = message.row) := by
      intro same
      obtain ⟨rfl, here⟩ := same
      exact idle (.inl ⟨message, by simp [step], here.symm⟩)
    have before : ¬ Outstanding shardOf s other post.row := by
      intro outstanding
      rcases outstanding with ⟨earlier, member, here⟩ | posted
      · refine idle (.inl ⟨earlier, ?_, here⟩)
        by_cases same : other = node
        · subst same
          simp [step, member]
        · simpa [step, same] using member
      · exact idle (.inr posted)
    exact (updateAt_of_ne s.table value different).trans (inv.holds other post last before)

/-- What is taken out of a list is the element at the index. -/
theorem mem_eraseIdx_or {α : Type*} {items : List α} {index : Nat} {item other : α}
    (found : items[index]? = some item) (member : other ∈ items)
    : other ∈ items.eraseIdx index ∨ other = item := by
  obtain ⟨position, there⟩ := List.mem_iff_getElem?.mp member
  by_cases same : position = index
  · subst same
    exact .inr (Option.some.inj (there.symm.trans found))
  · exact .inl (List.mem_eraseIdx_iff_getElem?.mpr ⟨position, same, there⟩)

/-- Only the posted message of the posting node can be gone after a post. -/
theorem mem_pending_post (shardOf : κ → σ) {node other : ν} {index : Nat} (again : Bool)
    {message earlier : Message V} (pending : (s.pending node)[index]? = some message)
    (member : earlier ∈ s.pending other)
    : earlier ∈ (step shardOf s (.post node index again)).pending other
      ∨ (other = node ∧ earlier = message) := by
  simp only [step, pending]
  cases again with
  | true => exact .inl member
  | false =>
      by_cases same : other = node
      · subst same
        rcases mem_eraseIdx_or pending member with remaining | rfl
        · exact .inl (by simpa using remaining)
        · exact .inr ⟨rfl, rfl⟩
      · exact .inl (by simpa [same] using member)

/-- A posted message stays outstanding, now in the log. -/
theorem Invariant.post (inv : Invariant shardOf s) (node : ν) (index : Nat) (again : Bool)
    : Invariant shardOf (step shardOf s (.post node index again)) := by
  cases pending : (s.pending node)[index]? with
  | none => simpa [step, pending] using inv
  | some message =>
      have moved (other : ν) (earlier : Message V) (member : earlier ∈ s.pending other) :=
        mem_pending_post shardOf again pending member
      generalize after : step shardOf s (.post node index again) = t at moved ⊢
      simp only [step, pending] at after
      -- Logs grow at their end, beyond what any node has applied.
      have log (shard : σ) : ∃ new, t.log shard = s.log shard ++ new
          ∧ (∀ post ∈ new, shardOf post.row = shard)
          ∧ (shard = shardOf message.row → ⟨message, node⟩ ∈ new) := by
        subst after
        by_cases same : shard = shardOf message.row
        · subst same
          exact ⟨[⟨message, node⟩], by simp, by simp, by simp⟩
        · exact ⟨[], by simp [same], by simp, fun here => absurd here same⟩
      have applied : t.applied = s.applied := by rw [← after]
      have table : t.table = s.table := by rw [← after]
      constructor
      · intro shard post member
        obtain ⟨new, grown, fits, _⟩ := log shard
        rw [grown] at member
        rcases List.mem_append.mp member with old | fresh
        · exact inv.sharded shard post old
        · exact fits post fresh
      · intro other shard
        obtain ⟨new, grown, _⟩ := log shard
        rw [applied, grown, List.length_append]
        exact Nat.le_add_right_of_le (inv.within other shard)
      · intro other post last idle
        obtain ⟨new, grown, _, posted⟩ := log (shardOf post.row)
        have within := inv.within other (shardOf post.row)
        rw [State.seen, applied, grown, List.take_append_of_le_length within] at last
        rw [table]
        refine inv.holds other post last ?_
        have unseen : t.unseen shardOf other post.row
            = s.unseen shardOf other post.row ++ new := by
          rw [State.unseen, applied, grown, List.drop_append_of_le_length within]
          rfl
        intro outstanding
        rcases outstanding with ⟨earlier, member, here⟩ | ⟨mine, member, own⟩
        · rcases moved other earlier member with kept | ⟨rfl, rfl⟩
          · exact idle (.inl ⟨earlier, kept, here⟩)
          · refine idle (.inr ⟨⟨earlier, other⟩, ?_, rfl, here⟩)
            rw [unseen]
            exact List.mem_append_right _ (posted (by rw [here]))
        · refine idle (.inr ⟨mine, ?_, own⟩)
          rw [unseen]
          exact List.mem_append_left _ member

/-- Applying the next post settles its row and leaves the others as they were. -/
theorem Invariant.apply (inv : Invariant shardOf s) (node : ν) (shard : σ)
    : Invariant shardOf (step shardOf s (.apply node shard)) := by
  cases next : (s.log shard)[s.applied node shard]? with
  | none => simpa [step, next] using inv
  | some new =>
      obtain ⟨bound, isNext⟩ := List.getElem?_eq_some_iff.mp next
      have home : shardOf new.row = shard :=
        inv.sharded shard new (isNext ▸ List.getElem_mem bound)
      generalize after : step shardOf s (.apply node shard) = t
      simp only [step, next] at after
      subst after
      refine ⟨inv.sharded, ?_, ?_⟩
      · intro other place
        by_cases here : other = node ∧ place = shard
        · obtain ⟨rfl, rfl⟩ := here
          simpa using Nat.succ_le_of_lt bound
        · exact Nat.le_trans (Nat.le_of_eq (updateAt_of_ne s.applied _ here))
            (inv.within other place)
      · intro other post last idle
        by_cases here : other = node ∧ shardOf post.row = shard
        · obtain ⟨rfl, rfl⟩ := here
          have seen : s.seen shardOf other post.row ++ [new]
              = (s.log (shardOf post.row)).take (s.applied other (shardOf post.row) + 1) := by
            rw [List.take_succ_eq_append_getElem bound, isNext]
            rfl
          have unseen : s.unseen shardOf other post.row
              = new :: (s.log (shardOf post.row)).drop
                  (s.applied other (shardOf post.row) + 1) := by
            rw [State.unseen, List.drop_eq_getElem_cons bound, isNext]
          simp only [State.seen, updateAt_self, ← seen] at last
          -- Either the new post is the last of its row, or it is for another row.
          rcases isLast_concat.mp last with rfl | ⟨earlier, another⟩
          · exact updateAt_self s.table other post.row post.image
          · refine (updateAt_of_ne s.table new.image (fun same => another same.2.symm)).trans ?_
            refine inv.holds other post earlier ?_
            intro outstanding
            rcases outstanding with unposted | ⟨mine, member, own⟩
            · exact idle (.inl unposted)
            · refine idle (.inr ⟨mine, ?_, own⟩)
              rw [unseen] at member
              rcases List.mem_cons.mp member with rfl | later
              · exact absurd own.2 another
              · simpa [State.unseen] using later
        · have position := updateAt_of_ne s.applied (s.applied node shard + 1) here
          have untouched : ¬ (other = node ∧ post.row = new.row) :=
            fun same => here ⟨same.1, same.2 ▸ home⟩
          refine (updateAt_of_ne s.table new.image untouched).trans ?_
          simp only [State.seen, position] at last
          refine inv.holds other post last ?_
          simpa only [Outstanding, State.unseen, position] using idle

/-- The last post applied is the last for its row, so repeating it changes nothing that is
settled.
-/
theorem Invariant.reapply (inv : Invariant shardOf s) (node : ν) (shard : σ)
    : Invariant shardOf (step shardOf s (.reapply node shard)) := by
  cases newest : ((s.log shard).take (s.applied node shard)).getLast? with
  | none => simpa [step, newest] using inv
  | some new =>
      obtain ⟨earlier, split⟩ := List.getLast?_eq_some_iff.mp newest
      have home : shardOf new.row = shard :=
        inv.sharded shard new (List.mem_of_mem_take (split ▸ List.mem_concat_self))
      generalize after : step shardOf s (.reapply node shard) = t
      simp only [step, newest] at after
      subst after
      refine ⟨inv.sharded, inv.within, ?_⟩
      intro other post last idle
      by_cases here : other = node ∧ post.row = new.row
      · obtain ⟨rfl, same⟩ := here
        simp only [State.seen, same, home, split] at last
        rcases isLast_concat.mp last with rfl | ⟨_, another⟩
        · exact updateAt_self s.table other post.row post.image
        · exact absurd same.symm another
      · exact (updateAt_of_ne s.table new.image here).trans (inv.holds other post last idle)

theorem Invariant.step (inv : Invariant shardOf s) (input : Step ν σ V)
    : Invariant shardOf (step shardOf s input) := by
  cases input with
  | write node message value => exact inv.write node message value
  | post node index again => exact inv.post node index again
  | apply node shard => exact inv.apply node shard
  | reapply node shard => exact inv.reapply node shard

end

end LastArrival
