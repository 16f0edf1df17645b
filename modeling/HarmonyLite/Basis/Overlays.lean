import HarmonyLite.Basis.Runs
import Mathlib.Data.List.Induction

/-! Operations that give values to some entries of a table, whatever these had before. A
sequence of them leaves at each entry the last value given to it, so going over it again
changes nothing. A sequence may be split into shards that are put together in any order.
-/

namespace Overlays

variable {κ ι σ : Type*} {V : κ → Type*}

/-- What an operation gives to each entry, if anything. -/
abbrev Overlay (V : κ → Type*) := (k : κ) → Option (V k)

def lay (table : (k : κ) → V k) (op : Overlay V) : (k : κ) → V k :=
  fun k => (op k).getD (table k)

/-- The run of the operations of some items. -/
abbrev laid (effect : ι → Overlay V) (table : (k : κ) → V k) (items : List ι) : (k : κ) → V k :=
  Runs.run (fun table item => lay table (effect item)) table items

/-- The last value that the items give to an entry. -/
def lastAt (effect : ι → Overlay V) (items : List ι) (k : κ) : Option (V k) :=
  (items.filterMap (fun item => effect item k)).getLast?

section

variable {effect : ι → Overlay V} {items : List ι} {k : κ}

theorem lastAt_append (first second : List ι)
    : lastAt effect (first ++ second) k = (lastAt effect second k).or (lastAt effect first k) := by
  rw [lastAt, List.filterMap_append, List.getLast?_append]
  rfl

theorem lastAt_singleton (item : ι) : lastAt effect [item] k = effect item k := by
  unfold lastAt
  cases given : effect item k <;> simp [given]

theorem lastAt_eq_none_iff
    : lastAt effect items k = none ↔ ∀ item ∈ items, effect item k = none := by
  simp [lastAt]

/-- The last value comes from an item after which nothing is given to the entry. -/
theorem lastAt_eq_some_iff {value : V k}
    : lastAt effect items k = some value
      ↔ ∃ before item after, items = before ++ item :: after ∧ effect item k = some value
        ∧ ∀ later ∈ after, effect later k = none := by
  constructor
  · intro last
    induction items using List.reverseRecOn with
    | nil => simp [lastAt] at last
    | append_singleton before item ih =>
        rw [lastAt_append, lastAt_singleton] at last
        cases given : effect item k with
        | some other =>
            rw [given, Option.some_or] at last
            exact ⟨before, item, [], rfl, given.trans last, by simp⟩
        | none =>
            rw [given, Option.none_or] at last
            obtain ⟨first, earlier, after, rfl, gives, later⟩ := ih last
            refine ⟨first, earlier, after ++ [item], by simp, gives, ?_⟩
            intro other member
            rcases List.mem_append.mp member with old | new
            · exact later other old
            · exact List.mem_singleton.mp new ▸ given
  · intro split
    obtain ⟨before, item, after, rfl, gives, later⟩ := split
    have rest : lastAt effect after k = none := lastAt_eq_none_iff.mpr later
    have whole : before ++ item :: after = (before ++ [item]) ++ after := by simp
    rw [whole, lastAt_append, rest, lastAt_append, lastAt_singleton, gives]
    rfl

/-- What a run leaves at an entry, by induction from its last item. -/
theorem laid_apply (table : (k : κ) → V k) (items : List ι) (k : κ)
    : laid effect table items k = (lastAt effect items k).getD (table k) := by
  induction items using List.reverseRecOn with
  | nil => rfl
  | append_singleton before item ih =>
      rw [laid, Runs.run_concat, lastAt_append, lastAt_singleton]
      cases given : effect item k with
      | none => simpa only [lay, given, Option.getD_none, Option.none_or] using ih
      | some value => simp only [lay, given, Option.getD_some, Option.some_or]

/-- A sequence of operations is absorbed when it comes again. -/
theorem laid_again (table : (k : κ) → V k) (items : List ι)
    : laid effect (laid effect table items) items = laid effect table items := by
  funext k
  rw [laid_apply, laid_apply]
  cases lastAt effect items k <;> rfl

end

-----------------------------------------------------------------------------------------
-- Interleavings of sequences
-----------------------------------------------------------------------------------------

section Interleaving

variable [DecidableEq σ] (shard : ι → σ)

/-- The items of one shard, in order. -/
def ofShard (s : σ) (items : List ι) : List ι := items.filter (fun item => shard item = s)

/-- The same sequences of the shards, put together in some order. -/
def Interleaves (items merged : List ι) : Prop :=
  ∀ s, ofShard shard s merged = ofShard shard s items

variable {shard} {items merged : List ι}

theorem Interleaves.refl (items : List ι) : Interleaves shard items items := fun _ => rfl

theorem Interleaves.mem_iff (interleaves : Interleaves shard items merged) {item : ι}
    : item ∈ merged ↔ item ∈ items := by
  have same := congrArg (fun sequence => item ∈ sequence) (interleaves (shard item))
  simpa [ofShard] using same

theorem ofShard_map {α : Type*} (f : α → ι) (s : σ) (items : List α)
    : ofShard shard s (items.map f) = (ofShard (fun item => shard (f item)) s items).map f := by
  rw [ofShard, List.filter_map]
  rfl

/-- One shard may come after all the others. -/
theorem interleaves_last (s : σ) (items : List ι)
    : Interleaves shard items
        (items.filter (fun item => shard item ≠ s) ++ ofShard shard s items) := by
  intro other
  unfold ofShard
  rw [List.filter_append, List.filter_filter, List.filter_filter]
  by_cases same : other = s
  · subst same
    simp
  · have here : ∀ item : ι, (decide (shard item = other) && decide (shard item ≠ s))
        = decide (shard item = other) := by
      intro item
      by_cases there : shard item = other <;> simp [there, same]
    have apart : ∀ item : ι, (decide (shard item = other) && decide (shard item = s)) = false := by
      intro item
      by_cases there : shard item = other <;> simp [there, same]
    simp only [here, apart, List.filter_false, List.append_nil]

variable {effect : ι → Overlay V}

/-- The last value of one shard comes from one of its items in the whole sequence. -/
theorem lastAt_ofShard_eq_some_iff {s : σ} {k : κ} {value : V k}
    : lastAt effect (ofShard shard s items) k = some value
      ↔ ∃ before item after, items = before ++ item :: after ∧ shard item = s
        ∧ effect item k = some value
        ∧ ∀ later ∈ after, shard later = s → effect later k = none := by
  have whole : lastAt effect (ofShard shard s items) k
      = lastAt (fun item => if shard item = s then effect item else fun _ => none) items k := by
    unfold lastAt ofShard
    rw [List.filterMap_filter]
    congr 2
    funext item
    by_cases here : shard item = s <;> simp [here]
  rw [whole, lastAt_eq_some_iff]
  constructor
  · intro last
    obtain ⟨before, item, after, split, gives, later⟩ := last
    by_cases here : shard item = s
    · rw [if_pos here] at gives
      refine ⟨before, item, after, split, here, gives, ?_⟩
      intro other member there
      simpa only [if_pos there] using later other member
    · rw [if_neg here] at gives
      cases gives
  · intro last
    obtain ⟨before, item, after, split, here, gives, later⟩ := last
    refine ⟨before, item, after, split, by rwa [if_pos here], ?_⟩
    intro other member
    by_cases there : shard other = s
    · rw [if_pos there]
      exact later other member there
    · rw [if_neg there]

/-- The last value of a whole sequence is the last value of the shard it comes from. -/
theorem lastAt_ofShard_of_split {before after : List ι} {item : ι} {k : κ} {value : V k}
    (gives : effect item k = some value)
    (later : ∀ other ∈ after, shard other = shard item → effect other k = none)
    : lastAt effect (ofShard shard (shard item) (before ++ item :: after)) k = some value :=
  lastAt_ofShard_eq_some_iff.mpr ⟨before, item, after, rfl, rfl, gives, later⟩

/-- One shard has only one order. -/
theorem Interleaves.eq_of_oneShard {s : σ} (interleaves : Interleaves shard items merged)
    (one : ∀ item ∈ items, shard item = s)
    : merged = items := by
  have whole {list : List ι} (same : ∀ item ∈ list, item ∈ items)
      : ofShard shard s list = list := by
    refine List.filter_eq_self.mpr ?_
    intro item member
    simpa using one item (same item member)
  rw [← whole (fun item member => interleaves.mem_iff.mp member), interleaves s,
    whole (fun _ member => member)]

end Interleaving

end Overlays
