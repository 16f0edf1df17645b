import HarmonyLite.Pool.ConnectionPool

/-! Where a connection of the pool is: idle in one channel, or with one borrower. Each step moves
at most one connection.
-/

namespace HarmonyLite.Pool

variable {π η : Type}

/-- In the channel of a pool, or with a borrower. -/
inductive Place (π : Type) where
  | idle (pool : π)
  | held (i : Nat)

def PoolState.At (s : PoolState π η) (conn : Nat) : Place π → Prop
  | .idle p => conn ∈ s.idle p
  | .held i => s.Held i conn

/-- A connection that was opened was opened for the pool. -/
def SQLiteConnection.Ready (con : SQLiteConnection π η) (p : π) : Prop :=
  con.state = true → con.Initialised p

/-- What is true of the connection that a borrower has. -/
def Borrower.Knows (connection : Nat → SQLiteConnection π η) : Borrower π → Prop
  | .received p conn => (connection conn).Ready p
  | .opening _ conn => (connection conn).state = true
  | .borrowed p conn | .disposing p conn => (connection conn).Initialised p
  | .failed _ | .finished => True

/-- Every connection is in one place and as the place requires. -/
structure Custody (s : PoolState π η) : Prop where
  exclusive : ∀ conn here there, s.At conn here → s.At conn there → here = there
  once : ∀ p, (s.idle p).Nodup
  allocated : ∀ conn here, s.At conn here → conn < s.next
  ready : ∀ p, ∀ conn ∈ s.idle p, (s.connection conn).Ready p
  knows : ∀ i borrower, s.Doing i borrower → borrower.Knows s.connection
  created : ∀ i borrower p, s.Doing i borrower → borrower.pool? = some p → (s.pool p).isSome

theorem Borrower.Knows.update {connection : Nat → SQLiteConnection π η} {borrower : Borrower π}
    (knows : borrower.Knows connection) {conn : Nat} (other : borrower.conn? ≠ some conn)
    (con : SQLiteConnection π η)
    : borrower.Knows (Function.update connection conn con) := by
  cases borrower with
  | received p own | opening p own | borrowed p own | disposing p own =>
      have apart : own ≠ conn := fun same => other (by rw [← same]; rfl)
      simpa [Borrower.Knows, apart] using knows
  | failed p => trivial
  | finished => trivial

/-- Who is there after one of the borrowers has gone on. -/
theorem getElem?_set_cases {borrowers : List (Borrower π)} {i j : Nat} {next found : Borrower π}
    (present : (borrowers.set i next)[j]? = some found)
    : (j = i ∧ found = next) ∨ (j ≠ i ∧ borrowers[j]? = some found) := by
  rw [List.getElem?_set] at present
  split at present
  · rename_i same
    split at present
    · exact .inl ⟨same.symm, (Option.some.inj present).symm⟩
    · cases present
  · rename_i apart
    exact .inr ⟨fun same => apart same.symm, present⟩

/-- Who is there after another borrower has come. -/
theorem getElem?_concat_cases {borrowers : List (Borrower π)} {j : Nat} {new found : Borrower π}
    (present : (borrowers ++ [new])[j]? = some found)
    : (j = borrowers.length ∧ found = new) ∨ borrowers[j]? = some found := by
  rcases Nat.lt_trichotomy j borrowers.length with before | rfl | beyond
  · rw [List.getElem?_append_left before] at present
    exact .inr present
  · simp only [List.getElem?_concat_length, Option.some.injEq] at present
    exact .inl ⟨rfl, present.symm⟩
  · rw [List.getElem?_eq_none (by rw [List.length_append]; exact beyond)] at present
    cases present

section

variable {s : PoolState π η}

theorem PoolState.idle_of_pool {p : π} {pool : SQLitePool} (present : s.pool p = some pool)
    : s.idle p = pool.connections := by
  simp [PoolState.idle, present]

/-- When a borrower goes on, only what it has may be with it that was elsewhere. -/
theorem PoolState.at_of_set {after : PoolState π η} {i conn : Nat} {next : Borrower π}
    {place : Place π} (placed : after.At conn place) (pools : after.pool = s.pool)
    (borrowers : after.borrowers = s.borrowers.set i next)
    : (place = .held i ∧ next.conn? = some conn) ∨ (place ≠ .held i ∧ s.At conn place) := by
  cases place with
  | idle p =>
      refine .inr ⟨by simp, ?_⟩
      simpa [PoolState.At, PoolState.idle, pools] using placed
  | held j =>
      obtain ⟨found, present, itsConn⟩ := placed
      rw [PoolState.Doing, borrowers] at present
      rcases getElem?_set_cases present with ⟨rfl, rfl⟩ | ⟨apart, before⟩
      · exact .inl ⟨rfl, itsConn⟩
      · exact .inr ⟨fun same => apart (Place.held.inj same), found, before, itsConn⟩

theorem PoolState.not_at_start (conn : Nat) (here : Place π)
    : ¬ (PoolState.start : PoolState π η).At conn here := by
  cases here <;>
    simp [PoolState.At, PoolState.start, PoolState.idle, PoolState.Held, PoolState.Doing]

namespace Custody

theorem start : Custody (PoolState.start : PoolState π η) where
  exclusive conn here _ placed := absurd placed (PoolState.not_at_start conn here)
  once p := by simp [PoolState.start, PoolState.idle]
  allocated conn here placed := absurd placed (PoolState.not_at_start conn here)
  ready p conn member := absurd member (PoolState.not_at_start conn (.idle p))
  knows i borrower doing := by simp [PoolState.Doing, PoolState.start] at doing
  created i borrower p doing := by simp [PoolState.Doing, PoolState.start] at doing

/-- When one connection moves, each is still in one place. -/
theorem exclusive_of_moved (custody : Custody s) {next : PoolState π η} (conn : Nat)
    (target : Place π)
    (moved : ∀ other place, next.At other place
      → (other = conn ∧ place = target) ∨ (other ≠ conn ∧ s.At other place))
    : ∀ other here there, next.At other here → next.At other there → here = there := by
  intro other here there first second
  rcases moved other here first with ⟨same, rfl⟩ | ⟨apart, first⟩
  · rcases moved other there second with ⟨_, rfl⟩ | ⟨apart, _⟩
    · rfl
    · exact absurd same apart
  · rcases moved other there second with ⟨same, _⟩ | ⟨_, second⟩
    · exact absurd same apart
    · exact custody.exclusive other here there first second

/-- When connections are only where they were, each is still in one place. -/
theorem placed_of_back (custody : Custody s) {next : PoolState π η}
    (back : ∀ conn place, next.At conn place → s.At conn place)
    : (∀ conn here there, next.At conn here → next.At conn there → here = there)
      ∧ ∀ conn place, next.At conn place → conn < s.next := by
  constructor
  · intro conn here there first second
    exact custody.exclusive conn here there (back conn here first) (back conn there second)
  · intro conn place placed
    exact custody.allocated conn place (back conn place placed)

/-- What is elsewhere is another connection. -/
theorem ne_of_place (custody : Custody s) {conn other : Nat} (here there : Place π)
    (placed : s.At conn here) (found : s.At other there) (apart : there ≠ here)
    : other ≠ conn := by
  intro same
  subst same
  exact apart (custody.exclusive other there here found placed)

theorem ne_of_idle (custody : Custody s) {i conn other : Nat} {p : π} (held : s.Held i conn)
    (idle : other ∈ s.idle p)
    : other ≠ conn :=
  custody.ne_of_place (.held i) (.idle p) held idle (fun same => by cases same)

theorem ne_of_held (custody : Custody s) {i j conn other : Nat} (held : s.Held i conn)
    (another : s.Held j other) (apart : j ≠ i)
    : other ≠ conn :=
  custody.ne_of_place (.held i) (.held j) held another
    (fun same => apart (Place.held.inj same))

/-- A borrower goes on with its connection or drops it, and may change it. -/
theorem proceed (custody : Custody s) {i conn : Nat} {borrower next : Borrower π}
    {con : SQLiteConnection π η} (doing : s.Doing i borrower)
    (holding : borrower.conn? = some conn) (sameSlot : next.pool? = borrower.pool?)
    (still : ∀ other, next.conn? = some other → other = conn)
    (knows : next.Knows (Function.update s.connection conn con))
    : Custody (s.proceed i next conn con) := by
  have held : s.Held i conn := ⟨borrower, doing, holding⟩
  have back (other : Nat) (place : Place π) (placed : (s.proceed i next conn con).At other place)
      : s.At other place := by
    rcases PoolState.at_of_set (s := s) placed rfl rfl with ⟨rfl, itsConn⟩ | ⟨_, before⟩
    · rw [still other itsConn]
      exact held
    · exact before
  obtain ⟨exclusive, allocated⟩ := custody.placed_of_back back
  refine ⟨exclusive, custody.once, allocated, ?_, ?_, ?_⟩
  · intro p other member
    have apart := custody.ne_of_idle held member
    simpa [PoolState.proceed, apart] using custody.ready p other member
  · intro j found present
    rcases getElem?_set_cases present with ⟨rfl, rfl⟩ | ⟨apart, before⟩
    · exact knows
    · refine (custody.knows j found before).update ?_ con
      intro same
      exact custody.ne_of_held held ⟨found, before, same⟩ apart rfl
  · intro j found p present slot
    rcases getElem?_set_cases present with ⟨rfl, rfl⟩ | ⟨_, before⟩
    · exact custody.created j borrower p doing (sameSlot ▸ slot)
    · exact custody.created j found p before slot

/-- A borrower that has nothing more to do. -/
theorem finish (custody : Custody s) (i : Nat) : Custody (s.finish i) := by
  have back (other : Nat) (place : Place π) (placed : (s.finish i).At other place)
      : s.At other place := by
    rcases PoolState.at_of_set (s := s) placed rfl rfl with ⟨_, itsConn⟩ | ⟨_, before⟩
    · cases itsConn
    · exact before
  obtain ⟨exclusive, allocated⟩ := custody.placed_of_back back
  refine ⟨exclusive, custody.once, allocated, custody.ready, ?_, ?_⟩
  · intro j found present
    rcases getElem?_set_cases present with ⟨rfl, rfl⟩ | ⟨_, before⟩
    · trivial
    · exact custody.knows j found before
  · intro j found p present slot
    rcases getElem?_set_cases present with ⟨rfl, rfl⟩ | ⟨_, before⟩
    · cases slot
    · exact custody.created j found p before slot

end Custody

end

variable [DecidableEq π] {s : PoolState π η}

namespace PoolState

@[simp]
theorem idle_withPool_self (p : π) (pool : SQLitePool)
    : (s.withPool p pool).idle p = pool.connections := by
  simp [idle, withPool]

theorem idle_withPool_of_ne {p q : π} (pool : SQLitePool) (other : q ≠ p)
    : (s.withPool p pool).idle q = s.idle q := by
  simp [idle, withPool, other]

/-- No pool goes away. -/
theorem isSome_withPool {p q : π} (pool : SQLitePool) (created : (s.pool q).isSome)
    : ((s.withPool p pool).pool q).isSome := by
  by_cases same : q = p
  · simp [withPool, same]
  · simpa [withPool, same] using created

end PoolState

namespace Custody

/-- A connection that is nowhere comes to the end of a channel. -/
theorem push (custody : Custody s) {p : π} {conn : Nat} {pool sent : SQLitePool}
    (present : s.pool p = some pool) (done : pool.send? conn = some sent)
    (nowhere : ∀ place, ¬ s.At conn place) (allocated : conn < s.next)
    (ready : (s.connection conn).Ready p)
    : Custody (s.withPool p sent) := by
  have idle : sent.connections = s.idle p ++ [conn] := by
    rw [(SQLitePool.send?_eq_some done).2, PoolState.idle_of_pool present]
  have placed (other : Nat) (place : Place π) (after : (s.withPool p sent).At other place)
      : (other = conn ∧ place = .idle p) ∨ s.At other place := by
    cases place with
    | held j => exact .inr after
    | idle q =>
        by_cases same : q = p
        · subst same
          change other ∈ (s.withPool q sent).idle q at after
          rw [PoolState.idle_withPool_self, idle] at after
          rcases List.mem_append.mp after with old | new
          · exact .inr old
          · exact .inl ⟨List.mem_singleton.mp new, rfl⟩
        · exact .inr (by rwa [PoolState.At, PoolState.idle_withPool_of_ne sent same] at after)
  refine ⟨custody.exclusive_of_moved conn (.idle p) ?_, ?_, ?_, ?_,
    custody.knows, ?_⟩
  · intro other place after
    rcases placed other place after with moved | before
    · exact .inl moved
    · exact .inr ⟨fun same => nowhere place (same ▸ before), before⟩
  · intro q
    by_cases same : q = p
    · subst same
      rw [PoolState.idle_withPool_self, idle, List.nodup_append]
      refine ⟨custody.once q, by simp, ?_⟩
      intro other member last isLast equal
      rw [List.mem_singleton.mp isLast] at equal
      exact nowhere (.idle q) (equal ▸ member)
    · rw [PoolState.idle_withPool_of_ne sent same]
      exact custody.once q
  · intro other place after
    rcases placed other place after with ⟨rfl, _⟩ | before
    · exact allocated
    · exact custody.allocated other place before
  · intro q other member
    rcases placed other (.idle q) member with ⟨rfl, same⟩ | before
    · rw [Place.idle.inj same]
      exact ready
    · exact custody.ready q other before
  · intro j found q doing slot
    exact s.isSome_withPool sent (custody.created j found q doing slot)

/-- A new connection comes to the end of a channel. -/
theorem allocate (custody : Custody s) {p : π} {pool sent : SQLitePool}
    {con : SQLiteConnection π η} (present : s.pool p = some pool)
    (done : pool.send? s.next = some sent) (ready : con.Ready p)
    : Custody (s.allocate p sent con) := by
  have nowhere (place : Place π) : ¬ s.At s.next place :=
    fun placed => Nat.lt_irrefl _ (custody.allocated s.next place placed)
  let made : PoolState π η :=
    { s with connection := Function.update s.connection s.next con, next := s.next + 1 }
  have before : Custody made := by
    refine ⟨custody.exclusive, custody.once, ?_, ?_, ?_, custody.created⟩
    · intro other place placed
      exact Nat.lt_succ_of_lt (custody.allocated other place placed)
    · intro q other member
      have apart : other ≠ s.next := fun same => nowhere (.idle q) (same ▸ member)
      simpa [made, apart] using custody.ready q other member
    · intro i borrower doing
      refine (custody.knows i borrower doing).update ?_ con
      intro same
      exact nowhere (.held i) ⟨borrower, doing, same⟩
  exact before.push (s := made) present done nowhere (Nat.lt_succ_self _)
    (by simpa [made] using ready)

/-- `Dispose` puts the connection back. -/
theorem send (custody : Custody s) {i conn : Nat} {p : π} {pool sent : SQLitePool}
    (doing : s.Doing i (.disposing p conn)) (present : s.pool p = some pool)
    (done : pool.send? conn = some sent)
    : Custody ((s.withPool p sent).finish i) := by
  have held : s.Held i conn := ⟨_, doing, rfl⟩
  have nowhere (place : Place π) : ¬ (s.finish i).At conn place := by
    intro placed
    rcases PoolState.at_of_set (s := s) placed rfl rfl with ⟨_, itsConn⟩ | ⟨apart, before⟩
    · cases itsConn
    · exact apart (custody.exclusive conn place (.held i) before held)
  have initialised : (s.connection conn).Initialised p := custody.knows i _ doing
  exact (custody.finish i).push (s := s.finish i) present done nowhere
    (custody.allocated conn (.held i) held) (fun _ => initialised)

/-- `Borrow` takes the first connection of a channel. -/
theorem receive (custody : Custody s) {p : π} {conn : Nat} {pool left : SQLitePool}
    (present : s.pool p = some pool) (done : pool.receive? = some (conn, left))
    : Custody { s.withPool p left with borrowers := s.borrowers ++ [.received p conn] } := by
  have idle : s.idle p = conn :: left.connections := by
    rw [PoolState.idle_of_pool present, (SQLitePool.receive?_eq_some done).2]
  have first : conn ∈ s.idle p := by simp [idle]
  obtain ⟨notAgain, restOnce⟩ := List.nodup_cons.mp (idle ▸ custody.once p)
  have idleBack {q : π} {other : Nat} (member : other ∈ (s.withPool p left).idle q)
      : other ≠ conn ∧ other ∈ s.idle q := by
    by_cases same : q = p
    · subst same
      rw [PoolState.idle_withPool_self] at member
      exact ⟨fun equal => notAgain (equal ▸ member), by simp [idle, member]⟩
    · rw [PoolState.idle_withPool_of_ne left same] at member
      exact ⟨custody.ne_of_place (.idle p) (.idle q) first member
        (fun equal => same (Place.idle.inj equal)), member⟩
  refine ⟨custody.exclusive_of_moved conn (.held s.borrowers.length) ?_, ?_, ?_, ?_, ?_, ?_⟩
  · intro other place placed
    cases place with
    | idle q => exact .inr (idleBack placed)
    | held j =>
        obtain ⟨found, doing, itsConn⟩ := placed
        rcases getElem?_concat_cases doing with ⟨rfl, rfl⟩ | before
        · exact .inl ⟨(Option.some.inj itsConn).symm, rfl⟩
        · have heldBefore : s.Held j other := ⟨found, before, itsConn⟩
          exact .inr ⟨(custody.ne_of_idle heldBefore first).symm, heldBefore⟩
  · intro q
    by_cases same : q = p
    · subst same
      exact (s.idle_withPool_self q left).symm ▸ restOnce
    · exact (s.idle_withPool_of_ne left same).symm ▸ custody.once q
  · intro other place placed
    cases place with
    | idle q => exact custody.allocated other (.idle q) (idleBack placed).2
    | held j =>
        obtain ⟨found, doing, itsConn⟩ := placed
        rcases getElem?_concat_cases doing with ⟨_, rfl⟩ | before
        · obtain rfl := Option.some.inj itsConn
          exact custody.allocated _ (.idle p) first
        · exact custody.allocated other (.held j) ⟨found, before, itsConn⟩
  · intro q other member
    exact custody.ready q other (idleBack member).2
  · intro j found doing
    rcases getElem?_concat_cases doing with ⟨_, rfl⟩ | before
    · exact custody.ready p conn first
    · exact custody.knows j found before
  · intro j found q doing slot
    apply s.isSome_withPool left
    rcases getElem?_concat_cases doing with ⟨_, rfl⟩ | before
    · obtain rfl := Option.some.inj slot
      simp [present]
    · exact custody.created j found q before slot

/-- A new pool has an empty channel. -/
theorem create (custody : Custody s) {p : π} (absent : s.pool p = none) {pool : SQLitePool}
    (empty : pool.connections = [])
    : Custody (s.withPool p pool) := by
  have idle (q : π) : (s.withPool p pool).idle q = s.idle q := by
    by_cases same : q = p
    · subst same
      simp [PoolState.idle, PoolState.withPool, empty, absent]
    · exact s.idle_withPool_of_ne pool same
  have back (conn : Nat) (place : Place π) (placed : (s.withPool p pool).At conn place)
      : s.At conn place := by
    cases place with
    | idle q =>
        change conn ∈ (s.withPool p pool).idle q at placed
        rwa [idle] at placed
    | held j => exact placed
  obtain ⟨exclusive, allocated⟩ := custody.placed_of_back back
  refine ⟨exclusive, ?_, allocated, ?_, custody.knows, ?_⟩
  · intro q
    rw [idle]
    exact custody.once q
  · intro q conn member
    exact custody.ready q conn (idle q ▸ member)
  · intro j found q doing slot
    exact s.isSome_withPool pool (custody.created j found q doing slot)

end Custody

end HarmonyLite.Pool
