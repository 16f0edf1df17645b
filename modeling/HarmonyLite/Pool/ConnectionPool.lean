import Mathlib.Logic.Function.Basic

/-! The connection pool: a buffered channel of connections that `Borrow` receives from and that
`Dispose` and the failure path of `Borrow` send to. Pools are created at any time, and the calls
on all of them interleave at their channel operations and at `OpenRaw`.
-/

namespace HarmonyLite.Pool

-----------------------------------------------------------------------------------------
-- The model
-----------------------------------------------------------------------------------------

/-- `db`, `raw` and `gSQL` are set together; they are the `handles`. -/
structure SQLiteConnection (π η : Type) where
  state : Bool
  handles : Option η
  disposer : Option π

/-- The channel, which has room for `poolSize` addresses of connections. -/
structure SQLitePool where
  poolSize : Nat
  connections : List Nat
  fits : connections.length ≤ poolSize

inductive PoolError where
  | wrongPool
deriving DecidableEq

/-- How far someone is who borrows a connection and returns it. `Borrow` has received the
connection, is in `OpenRaw` or is about to send a new one after that has failed; the connection
is borrowed; `Dispose` is about to send it.
-/
inductive Borrower (π : Type) where
  | received (pool : π) (conn : Nat)
  | opening (pool : π) (conn : Nat)
  | failed (pool : π)
  | borrowed (pool : π) (conn : Nat)
  | disposing (pool : π) (conn : Nat)
  | finished

/-- The connections by their addresses, which are used from `next` on, the pools and everyone
who has received from one of them.
-/
structure PoolState (π η : Type) where
  connection : Nat → SQLiteConnection π η
  next : Nat
  pool : π → Option SQLitePool
  borrowers : List (Borrower π)

/-- `borrow` receives from the channel; the next three steps are the rest of `Borrow`. `giveBack`
is `Return` up to the send, and `dispose` a direct call of `Dispose` on some pool.
-/
inductive PoolStep (π η : Type) where
  | newSQLitePool (pool : π) (poolSize : Nat) (isLazy : Bool) (openRaw : Nat → Option η)
  | borrow (pool : π)
  | compareAndSwap (borrower : Nat)
  | openRaw (borrower : Nat) (result : Option η)
  | replace (borrower : Nat)
  | giveBack (borrower : Nat)
  | dispose (borrower : Nat) (pool : π)
  | send (borrower : Nat)

variable {π η : Type}

/-- `&SQLiteConnection{}`. -/
def SQLiteConnection.blank : SQLiteConnection π η := ⟨false, none, none⟩

/-- The connection that `NewSQLitePool` makes; an eager pool opens it. -/
def newConnection (p : π) (isLazy : Bool) (opened : Option η) : Option (SQLiteConnection π η) :=
  if isLazy then some .blank
  else opened.map (fun handles => ⟨true, some handles, some p⟩)

/-- A send, unless it blocks. -/
def SQLitePool.send? (conn : Nat) (pool : SQLitePool) : Option SQLitePool :=
  if room : pool.connections.length < pool.poolSize then
    some ⟨pool.poolSize, pool.connections ++ [conn], by rw [List.length_append]; exact room⟩
  else
    none

/-- A receive, unless it blocks. -/
def SQLitePool.receive? (pool : SQLitePool) : Option (Nat × SQLitePool) :=
  pool.connections.head?.map fun conn =>
    (conn, ⟨pool.poolSize, pool.connections.tail,
      Nat.le_trans (by simp) pool.fits⟩)

namespace PoolState

variable [DecidableEq π]

def start : PoolState π η := ⟨fun _ => .blank, 0, fun _ => none, []⟩

/-- A borrower goes on, and the connection becomes what is given. -/
def proceed (s : PoolState π η) (borrower : Nat) (next : Borrower π) (conn : Nat)
    (con : SQLiteConnection π η) : PoolState π η :=
  { s with
    borrowers := s.borrowers.set borrower next
    connection := Function.update s.connection conn con }

def finish (s : PoolState π η) (borrower : Nat) : PoolState π η :=
  { s with borrowers := s.borrowers.set borrower .finished }

def withPool (s : PoolState π η) (p : π) (pool : SQLitePool) : PoolState π η :=
  { s with pool := Function.update s.pool p (some pool) }

/-- A connection at a new address, which the pool has been sent. -/
def allocate (s : PoolState π η) (p : π) (pool : SQLitePool) (con : SQLiteConnection π η)
    : PoolState π η :=
  { s.withPool p pool with
    connection := Function.update s.connection s.next con
    next := s.next + 1 }

/-- One turn of the loop in `NewSQLitePool`. -/
def addConnection (s : PoolState π η) (p : π) (isLazy : Bool) (opened : Option η)
    : Option (PoolState π η) := do
  let con ← newConnection p isLazy opened
  let pool ← (s.pool p).bind (SQLitePool.send? s.next)
  return s.allocate p pool con

/-- `NewSQLitePool`, after some turns of its loop; an error is `none`. -/
def newSQLitePool (s : PoolState π η) (p : π) (poolSize : Nat) (isLazy : Bool)
    (openRaw : Nat → Option η)
    : Nat → Option (PoolState π η)
  | 0 => some (s.withPool p ⟨poolSize, [], Nat.zero_le _⟩)
  | i + 1 =>
      (newSQLitePool s p poolSize isLazy openRaw i).bind
        (fun filled => filled.addConnection p isLazy (openRaw i))

/-- `Dispose`, up to the send. -/
def dispose (s : PoolState π η) (borrower : Nat) (p : π) (conn : Nat)
    : Except PoolError (PoolState π η) :=
  if (s.connection conn).disposer ≠ some p then .error .wrongPool
  else .ok (s.proceed borrower (.disposing p conn) conn (s.connection conn))

/-- What is left when `Dispose` has returned an error, or is about to send. -/
def disposed (s : PoolState π η) (borrower : Nat) (p : π) (conn : Nat) : PoolState π η :=
  match s.dispose borrower p conn with
  | .error _ => s
  | .ok next => next

end PoolState

def poolStep [DecidableEq π] (s : PoolState π η) : PoolStep π η → PoolState π η
  | .newSQLitePool p poolSize isLazy openRaw =>
      match s.pool p with
      | some _ => s
      | none => (s.newSQLitePool p poolSize isLazy openRaw poolSize).getD s
  | .borrow p =>
      match (s.pool p).bind SQLitePool.receive? with
      | none => s
      | some (conn, pool) =>
          { s.withPool p pool with borrowers := s.borrowers ++ [.received p conn] }
  | .compareAndSwap borrower =>
      match s.borrowers[borrower]? with
      | some (.received p conn) =>
          let con := s.connection conn
          if con.state then s.proceed borrower (.borrowed p conn) conn con
          else s.proceed borrower (.opening p conn) conn { con with state := true }
      | _ => s
  | .openRaw borrower result =>
      match s.borrowers[borrower]? with
      | some (.opening p conn) =>
          let con := s.connection conn
          match result with
          | none => s.proceed borrower (.failed p) conn { con with state := false }
          | some handles =>
              s.proceed borrower (.borrowed p conn) conn
                { con with handles := some handles, disposer := some p }
      | _ => s
  | .replace borrower =>
      match s.borrowers[borrower]? with
      | some (.failed p) =>
          match (s.pool p).bind (SQLitePool.send? s.next) with
          | none => s
          | some pool => (s.allocate p pool .blank).finish borrower
      | _ => s
  | .giveBack borrower =>
      match s.borrowers[borrower]? with
      | some (.borrowed _ conn) =>
          match (s.connection conn).disposer with
          | none => s
          | some p => s.disposed borrower p conn
      | _ => s
  | .dispose borrower p =>
      match s.borrowers[borrower]? with
      | some (.borrowed _ conn) => s.disposed borrower p conn
      | _ => s
  | .send borrower =>
      match s.borrowers[borrower]? with
      | some (.disposing p conn) =>
          match (s.pool p).bind (SQLitePool.send? conn) with
          | none => s
          | some pool => (s.withPool p pool).finish borrower
      | _ => s

-----------------------------------------------------------------------------------------
-- Safety of the pools
-----------------------------------------------------------------------------------------

namespace Borrower

/-- The pool that has a slot less in its channel on behalf of the borrower. -/
def pool? : Borrower π → Option π
  | .received p _ | .opening p _ | .failed p | .borrowed p _ | .disposing p _ => some p
  | .finished => none

def conn? : Borrower π → Option Nat
  | .received _ conn | .opening _ conn | .borrowed _ conn | .disposing _ conn => some conn
  | .failed _ | .finished => none

end Borrower

/-- The connection is open and goes back to the pool. -/
structure SQLiteConnection.Initialised (con : SQLiteConnection π η) (p : π) : Prop where
  state : con.state = true
  handles : con.handles.isSome
  disposer : con.disposer = some p

namespace PoolState

abbrev Doing (s : PoolState π η) (i : Nat) (borrower : Borrower π) : Prop :=
  s.borrowers[i]? = some borrower

def Held (s : PoolState π η) (i conn : Nat) : Prop :=
  ∃ borrower, s.Doing i borrower ∧ borrower.conn? = some conn

def idle (s : PoolState π η) (p : π) : List Nat :=
  ((s.pool p).map SQLitePool.connections).getD []

/-- A send to the pool does not block. -/
def HasRoom (s : PoolState π η) (p : π) : Prop :=
  ∃ pool, s.pool p = some pool ∧ pool.connections.length < pool.poolSize

/-- How many slots of a pool are out of its channel. -/
def inUse [DecidableEq π] (s : PoolState π η) (p : π) : Nat :=
  s.borrowers.countP (fun borrower => borrower.pool? = some p)

end PoolState

/-- Slots are neither lost nor made, a connection is with one borrower or idle in one pool, what
is borrowed is open and goes back where it came from, sends do not block, and a connection of
another pool is refused.
-/
structure PoolSafe [DecidableEq π] (s : PoolState π η) : Prop where
  slots : ∀ p pool, s.pool p = some pool
    → pool.connections.length + s.inUse p = pool.poolSize
  oneBorrower : ∀ i j conn, s.Held i conn → s.Held j conn → i = j
  notIdle : ∀ i conn, s.Held i conn → ∀ p, conn ∉ s.idle p
  idleOnce : ∀ p, (s.idle p).Nodup ∧ ∀ q conn, conn ∈ s.idle p → conn ∈ s.idle q → p = q
  initialised : ∀ i p conn, s.Doing i (.borrowed p conn) → (s.connection conn).Initialised p
  disposeRoom : ∀ i p conn, s.Doing i (.disposing p conn) → s.HasRoom p
  replaceRoom : ∀ i p, s.Doing i (.failed p) → s.HasRoom p
  wrongPool : ∀ i p q conn, s.Doing i (.borrowed p conn) → q ≠ p
    → s.dispose i q conn = .error .wrongPool ∧ poolStep s (.dispose i q) = s

-----------------------------------------------------------------------------------------
-- The channel
-----------------------------------------------------------------------------------------

theorem SQLitePool.send?_eq_some {conn : Nat} {pool sent : SQLitePool}
    (done : pool.send? conn = some sent)
    : sent.poolSize = pool.poolSize ∧ sent.connections = pool.connections ++ [conn] := by
  unfold SQLitePool.send? at done
  split at done
  · obtain rfl := Option.some.inj done
    exact ⟨rfl, rfl⟩
  · cases done

theorem SQLitePool.receive?_eq_some {conn : Nat} {pool left : SQLitePool}
    (done : pool.receive? = some (conn, left))
    : left.poolSize = pool.poolSize ∧ pool.connections = conn :: left.connections := by
  obtain ⟨poolSize, connections, fits⟩ := pool
  cases connections with
  | nil => cases done
  | cons head rest =>
      obtain ⟨rfl, rfl⟩ := Prod.mk.inj (Option.some.inj done)
      exact ⟨rfl, rfl⟩

end HarmonyLite.Pool
