import HarmonyLite.Basis.Runs
import HarmonyLite.Pool.Custody

/-! The slots of the pools are accounted for, and every interleaving of calls is safe. -/

namespace HarmonyLite.Pool

variable {π η : Type} [DecidableEq π] {s : PoolState π η}

-----------------------------------------------------------------------------------------
-- Slots
-----------------------------------------------------------------------------------------

def Accounted (s : PoolState π η) : Prop :=
  ∀ p pool, s.pool p = some pool → pool.connections.length + s.inUse p = pool.poolSize

namespace PoolState

theorem inUse_pos {i : Nat} {borrower : Borrower π} {p : π} (doing : s.Doing i borrower)
    (slot : borrower.pool? = some p)
    : 0 < s.inUse p :=
  List.countP_pos_iff.mpr ⟨borrower, List.mem_of_getElem? doing, by simpa using slot⟩

/-- What a borrower that goes on changes in the slots in use. -/
theorem inUse_set {i : Nat} {borrower : Borrower π} (doing : s.Doing i borrower)
    (next : Borrower π) (p : π)
    : ({ s with borrowers := s.borrowers.set i next } : PoolState π η).inUse p
        + (if borrower.pool? = some p then 1 else 0)
      = s.inUse p + (if next.pool? = some p then 1 else 0) := by
  obtain ⟨inside, found⟩ := List.getElem?_eq_some_iff.mp doing
  have counted : (if borrower.pool? = some p then 1 else 0) ≤ s.inUse p := by
    split
    · rename_i slot
      exact inUse_pos doing slot
    · exact Nat.zero_le _
  simp only [inUse, List.countP_set inside, found, decide_eq_true_eq] at counted ⊢
  omega

theorem inUse_proceed {i conn : Nat} {borrower next : Borrower π} (doing : s.Doing i borrower)
    (sameSlot : next.pool? = borrower.pool?) (con : SQLiteConnection π η) (p : π)
    : (s.proceed i next conn con).inUse p = s.inUse p := by
  have moved := inUse_set doing next p
  rw [sameSlot] at moved
  exact Nat.add_right_cancel moved

end PoolState

namespace Accounted

theorem proceed (accounted : Accounted s) {i conn : Nat} {borrower next : Borrower π}
    (doing : s.Doing i borrower) (sameSlot : next.pool? = borrower.pool?)
    (con : SQLiteConnection π η)
    : Accounted (s.proceed i next conn con) := by
  intro p pool present
  rw [PoolState.inUse_proceed doing sameSlot]
  exact accounted p pool present

/-- A slot comes back to the channel, and its borrower is finished. -/
theorem refill (accounted : Accounted s) {i conn : Nat} {borrower : Borrower π} {p : π}
    (doing : s.Doing i borrower) (slot : borrower.pool? = some p) {pool sent : SQLitePool}
    (present : s.pool p = some pool) (done : pool.send? conn = some sent)
    {next : PoolState π η} (pools : next.pool = Function.update s.pool p (some sent))
    (borrowers : next.borrowers = s.borrowers.set i .finished)
    : Accounted next := by
  intro q found after
  have inUse : next.inUse q + (if borrower.pool? = some q then 1 else 0) = s.inUse q := by
    have moved := PoolState.inUse_set doing .finished q
    rw [← borrowers] at moved
    exact moved
  obtain ⟨size, connections⟩ := SQLitePool.send?_eq_some done
  rw [pools] at after
  by_cases same : q = p
  · subst same
    obtain rfl : sent = found := by simpa using after
    have before := accounted q pool present
    rw [if_pos slot] at inUse
    rw [size, connections, List.length_append, List.length_singleton]
    omega
  · have before := accounted q found (by simpa [same] using after)
    have otherSlot : ¬ borrower.pool? = some q := by
      intro equal
      exact same (Option.some.inj (equal.symm.trans slot))
    rw [if_neg otherSlot] at inUse
    omega

theorem receive (accounted : Accounted s) {p : π} {conn : Nat} {pool left : SQLitePool}
    (present : s.pool p = some pool) (done : pool.receive? = some (conn, left))
    : Accounted { s.withPool p left with borrowers := s.borrowers ++ [.received p conn] } := by
  intro q found after
  obtain ⟨size, connections⟩ := SQLitePool.receive?_eq_some done
  have inUse : ({ s.withPool p left with
        borrowers := s.borrowers ++ [.received p conn] } : PoolState π η).inUse q
      = s.inUse q + (if p = q then 1 else 0) := by
    have slot : (Borrower.received p conn).pool? = some p := rfl
    simp [PoolState.inUse, List.countP_append, List.countP_singleton, slot]
  rw [inUse]
  by_cases same : q = p
  · subst same
    obtain rfl : left = found := by simpa [PoolState.withPool] using after
    have before := accounted q pool present
    rw [connections, List.length_cons] at before
    rw [size, if_pos rfl]
    omega
  · have before := accounted q found (by simpa [PoolState.withPool, same] using after)
    rw [if_neg (fun equal => same equal.symm)]
    omega

/-- Where a slot is out, the channel has room for it. -/
theorem hasRoom (accounted : Accounted s) (custody : Custody s) {i : Nat}
    {borrower : Borrower π} {p : π} (doing : s.Doing i borrower)
    (slot : borrower.pool? = some p)
    : s.HasRoom p := by
  obtain ⟨pool, present⟩ := Option.isSome_iff_exists.mp (custody.created i borrower p doing slot)
  have counted := PoolState.inUse_pos doing slot
  have balance := accounted p pool present
  exact ⟨pool, present, by omega⟩

end Accounted

-----------------------------------------------------------------------------------------
-- NewSQLitePool
-----------------------------------------------------------------------------------------

section

variable {p : π} {poolSize : Nat} {isLazy : Bool} {openRaw : Nat → Option η}

omit [DecidableEq π] in
theorem ready_of_newConnection {opened : Option η} {con : SQLiteConnection π η}
    (made : newConnection p isLazy opened = some con)
    : con.Ready p := by
  intro isOpen
  cases isLazy with
  | true =>
      obtain rfl := Option.some.inj made
      cases isOpen
  | false =>
      obtain ⟨handles, _, rfl⟩ := Option.map_eq_some_iff.mp made
      exact ⟨rfl, rfl, rfl⟩

/-- A turn of the loop is a send of a connection that is blank or open. -/
theorem PoolState.addConnection_eq_some {opened : Option η} {next : PoolState π η}
    (added : s.addConnection p isLazy opened = some next)
    : ∃ pool sent con, s.pool p = some pool ∧ pool.send? s.next = some sent ∧ con.Ready p
      ∧ next = s.allocate p sent con := by
  obtain ⟨con, made, added⟩ := Option.bind_eq_some_iff.mp added
  obtain ⟨sent, done, added⟩ := Option.bind_eq_some_iff.mp added
  obtain ⟨pool, present, done⟩ := Option.bind_eq_some_iff.mp done
  exact ⟨pool, sent, con, present, done, ready_of_newConnection made,
    (Option.some.inj added).symm⟩

/-- The loop adds to the new channel alone. -/
theorem PoolState.newSQLitePool_eq_some {turns : Nat} {next : PoolState π η}
    (created : s.newSQLitePool p poolSize isLazy openRaw turns = some next)
    : next.borrowers = s.borrowers
      ∧ ∃ pool, next.pool = Function.update s.pool p (some pool)
        ∧ pool.poolSize = poolSize ∧ pool.connections.length = turns := by
  induction turns generalizing next with
  | zero =>
      obtain rfl := Option.some.inj created
      exact ⟨rfl, _, rfl, rfl, rfl⟩
  | succ turns ih =>
      obtain ⟨filled, before, added⟩ := Option.bind_eq_some_iff.mp created
      obtain ⟨borrowers, pool, pools, size, length⟩ := ih before
      obtain ⟨pool', sent, con, present, done, _, rfl⟩ := PoolState.addConnection_eq_some added
      have samePool : pool = pool' := by simpa [pools] using present
      subst samePool
      obtain ⟨sentSize, sentConnections⟩ := SQLitePool.send?_eq_some done
      refine ⟨borrowers, sent, ?_, sentSize.trans size, ?_⟩
      · simp [PoolState.allocate, PoolState.withPool, pools]
      · rw [sentConnections, List.length_append, length, List.length_singleton]

theorem Custody.newSQLitePool (custody : Custody s) (absent : s.pool p = none) {turns : Nat}
    {next : PoolState π η}
    (created : s.newSQLitePool p poolSize isLazy openRaw turns = some next)
    : Custody next := by
  induction turns generalizing next with
  | zero =>
      obtain rfl := Option.some.inj created
      exact custody.create absent rfl
  | succ turns ih =>
      obtain ⟨filled, before, added⟩ := Option.bind_eq_some_iff.mp created
      obtain ⟨pool, sent, con, present, done, ready, rfl⟩ :=
        PoolState.addConnection_eq_some added
      exact (ih before).allocate present done ready

/-- A pool is created unless a connection of an eager one cannot be opened: the channel has room
for all of them.
-/
theorem PoolState.newSQLitePool_isSome (s : PoolState π η) (p : π) {turns : Nat}
    (within : turns ≤ poolSize) (opens : isLazy = false → ∀ i < turns, (openRaw i).isSome)
    : (s.newSQLitePool p poolSize isLazy openRaw turns).isSome := by
  induction turns with
  | zero => rfl
  | succ turns ih =>
      obtain ⟨filled, created⟩ := Option.isSome_iff_exists.mp (ih (Nat.le_of_succ_le within)
        (fun eager i before => opens eager i (Nat.lt_succ_of_lt before)))
      obtain ⟨_, pool, pools, size, length⟩ := PoolState.newSQLitePool_eq_some created
      have room : pool.connections.length < pool.poolSize := by omega
      have made : (newConnection p isLazy (openRaw turns)).isSome := by
        cases isLazy with
        | true => rfl
        | false => simpa [newConnection] using opens rfl turns (Nat.lt_succ_self _)
      obtain ⟨con, made⟩ := Option.isSome_iff_exists.mp made
      simp [PoolState.newSQLitePool, created, PoolState.addConnection, made, pools,
        SQLitePool.send?, room]

end

-----------------------------------------------------------------------------------------
-- Steps and runs
-----------------------------------------------------------------------------------------

structure PoolConsistent (s : PoolState π η) : Prop where
  custody : Custody s
  accounted : Accounted s

namespace PoolConsistent

theorem start : PoolConsistent (PoolState.start : PoolState π η) :=
  ⟨Custody.start, fun _ _ present => by cases present⟩

theorem proceed (inv : PoolConsistent s) {i conn : Nat} {borrower next : Borrower π}
    {con : SQLiteConnection π η} (doing : s.Doing i borrower)
    (holding : borrower.conn? = some conn) (sameSlot : next.pool? = borrower.pool?)
    (still : ∀ other, next.conn? = some other → other = conn)
    (knows : next.Knows (Function.update s.connection conn con))
    : PoolConsistent (s.proceed i next conn con) :=
  ⟨inv.custody.proceed doing holding sameSlot still knows,
    inv.accounted.proceed doing sameSlot con⟩

theorem newSQLitePool (inv : PoolConsistent s) (p : π) (poolSize : Nat) (isLazy : Bool)
    (openRaw : Nat → Option η)
    : PoolConsistent (poolStep s (.newSQLitePool p poolSize isLazy openRaw)) := by
  cases absent : s.pool p with
  | some pool => simpa [poolStep, absent] using inv
  | none =>
      cases created : s.newSQLitePool p poolSize isLazy openRaw poolSize with
      | none => simpa [poolStep, absent, created] using inv
      | some next =>
          simp only [poolStep, absent, created, Option.getD_some]
          obtain ⟨borrowers, pool, pools, size, length⟩ :=
            PoolState.newSQLitePool_eq_some created
          refine ⟨inv.custody.newSQLitePool absent created, ?_⟩
          intro q found after
          have inUse : next.inUse q = s.inUse q := by rw [PoolState.inUse, borrowers]; rfl
          rw [pools] at after
          by_cases same : q = p
          · subst same
            obtain rfl : pool = found := by simpa using after
            -- Nobody can have received from a pool that did not exist.
            have unused : s.inUse q = 0 := by
              refine List.countP_eq_zero.mpr ?_
              intro borrower member slot
              obtain ⟨i, doing⟩ := List.mem_iff_getElem?.mp member
              have present := inv.custody.created i borrower q doing (by simpa using slot)
              simp [absent] at present
            omega
          · rw [inUse]
            exact inv.accounted q found (by simpa [same] using after)

theorem borrow (inv : PoolConsistent s) (p : π) : PoolConsistent (poolStep s (.borrow p)) := by
  cases received : (s.pool p).bind SQLitePool.receive? with
  | none => simpa [poolStep, received] using inv
  | some taken =>
      obtain ⟨conn, left⟩ := taken
      obtain ⟨pool, present, done⟩ := Option.bind_eq_some_iff.mp received
      simp only [poolStep, received]
      exact ⟨inv.custody.receive present done, inv.accounted.receive present done⟩

/-- A connection that is open already is borrowed as it is. -/
theorem compareAndSwap (inv : PoolConsistent s) (i : Nat)
    : PoolConsistent (poolStep s (.compareAndSwap i)) := by
  simp only [poolStep]
  split
  · rename_i p conn doing
    have ready : (s.connection conn).Ready p := inv.custody.knows i _ doing
    split
    · rename_i isOpen
      refine inv.proceed doing rfl rfl (fun _ same => (Option.some.inj same).symm) ?_
      simpa [Borrower.Knows] using ready isOpen
    · refine inv.proceed doing rfl rfl (fun _ same => (Option.some.inj same).symm) ?_
      simp [Borrower.Knows]
  · exact inv

theorem openRaw (inv : PoolConsistent s) (i : Nat) (result : Option η)
    : PoolConsistent (poolStep s (.openRaw i result)) := by
  simp only [poolStep]
  split
  · rename_i p conn doing
    have swapped : (s.connection conn).state = true := inv.custody.knows i _ doing
    cases result with
    | none => exact inv.proceed doing rfl rfl (fun _ same => by cases same) trivial
    | some handles =>
        refine inv.proceed doing rfl rfl (fun _ same => (Option.some.inj same).symm) ?_
        exact ⟨by simpa using swapped, by simp, by simp⟩
  · exact inv

theorem replace (inv : PoolConsistent s) (i : Nat) : PoolConsistent (poolStep s (.replace i)) := by
  simp only [poolStep]
  split
  · rename_i p doing
    cases answered : (s.pool p).bind (SQLitePool.send? s.next) with
    | none => exact inv
    | some sent =>
        obtain ⟨pool, present, done⟩ := Option.bind_eq_some_iff.mp answered
        refine ⟨(inv.custody.allocate present done ?_).finish i,
          inv.accounted.refill doing rfl present done rfl rfl⟩
        intro isOpen
        cases isOpen
  · exact inv

/-- Only the pool that the connection is from takes it. -/
theorem disposed (inv : PoolConsistent s) {i conn : Nat} {p : π}
    (doing : s.Doing i (.borrowed p conn)) (q : π)
    : PoolConsistent (s.disposed i q conn) := by
  have initialised : (s.connection conn).Initialised p := inv.custody.knows i _ doing
  unfold PoolState.disposed PoolState.dispose
  by_cases same : (s.connection conn).disposer = some q
  · have isOwn : q = p := Option.some.inj (same.symm.trans initialised.disposer)
    subst isOwn
    simp only [same, ne_eq, not_true_eq_false, if_false]
    refine inv.proceed doing rfl rfl (fun _ same => (Option.some.inj same).symm) ?_
    simpa [Borrower.Knows] using initialised
  · simpa [same] using inv

theorem giveBack (inv : PoolConsistent s) (i : Nat)
    : PoolConsistent (poolStep s (.giveBack i)) := by
  simp only [poolStep]
  split
  · rename_i p conn doing
    split
    · exact inv
    · exact inv.disposed doing _
  · exact inv

theorem dispose (inv : PoolConsistent s) (i : Nat) (q : π)
    : PoolConsistent (poolStep s (.dispose i q)) := by
  simp only [poolStep]
  split
  · rename_i p conn doing
    exact inv.disposed doing q
  · exact inv

theorem send (inv : PoolConsistent s) (i : Nat) : PoolConsistent (poolStep s (.send i)) := by
  simp only [poolStep]
  split
  · rename_i p conn doing
    cases answered : (s.pool p).bind (SQLitePool.send? conn) with
    | none => exact inv
    | some sent =>
        obtain ⟨pool, present, done⟩ := Option.bind_eq_some_iff.mp answered
        exact ⟨inv.custody.send doing present done,
          inv.accounted.refill doing rfl present done rfl rfl⟩
  · exact inv

theorem step (inv : PoolConsistent s) (step : PoolStep π η) : PoolConsistent (poolStep s step) := by
  cases step with
  | newSQLitePool p poolSize isLazy openRaw => exact inv.newSQLitePool p poolSize isLazy openRaw
  | borrow p => exact inv.borrow p
  | compareAndSwap i => exact inv.compareAndSwap i
  | openRaw i result => exact inv.openRaw i result
  | replace i => exact inv.replace i
  | giveBack i => exact inv.giveBack i
  | dispose i q => exact inv.dispose i q
  | send i => exact inv.send i

theorem refused (inv : PoolConsistent s) {i conn : Nat} {p q : π}
    (doing : s.Doing i (.borrowed p conn)) (other : q ≠ p)
    : s.dispose i q conn = .error .wrongPool ∧ poolStep s (.dispose i q) = s := by
  have initialised : (s.connection conn).Initialised p := inv.custody.knows i _ doing
  have notOwn : (s.connection conn).disposer ≠ some q := by
    rw [initialised.disposer]
    intro same
    exact other (Option.some.inj same).symm
  have error : s.dispose i q conn = .error .wrongPool := if_pos notOwn
  refine ⟨error, ?_⟩
  simp only [poolStep, doing, PoolState.disposed, error]

theorem safe (inv : PoolConsistent s) : PoolSafe s where
  slots := inv.accounted
  oneBorrower i j conn first second :=
    Place.held.inj (inv.custody.exclusive conn (.held i) (.held j) first second)
  notIdle _ _ held _ idle := inv.custody.ne_of_idle held idle rfl
  idleOnce p := ⟨inv.custody.once p, fun q conn first second =>
    Place.idle.inj (inv.custody.exclusive conn (.idle p) (.idle q) first second)⟩
  initialised i _ _ doing := inv.custody.knows i _ doing
  disposeRoom _ _ _ doing := inv.accounted.hasRoom inv.custody doing rfl
  replaceRoom _ _ doing := inv.accounted.hasRoom inv.custody doing rfl
  wrongPool _ _ _ _ doing other := inv.refused doing other

end PoolConsistent

/-- In every interleaving of calls on any pools, lazy or eager and of any size, the pools are
safe after each step.
-/
theorem poolSafe_run (steps : List (PoolStep π η))
    : PoolSafe (Runs.run poolStep (.start : PoolState π η) steps) :=
  (Runs.run_invariant PoolConsistent (fun _ step inv => inv.step step) .start steps).safe

end HarmonyLite.Pool
