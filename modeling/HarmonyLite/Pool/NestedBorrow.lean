import HarmonyLite.Pool.PoolSafety
import Mathlib.Algebra.BigOperators.Group.List.Basic
import Mathlib.Algebra.GroupWithZero.Nat
import Mathlib.Order.Nat

/-! The goroutines that use the pool of a database. Every function of the database borrows one
connection and returns it at its end; `InstallCDC` keeps its connection while it calls functions
that borrow another one, so that it can wait for itself.
-/

namespace HarmonyLite.Pool

-----------------------------------------------------------------------------------------
-- The model
-----------------------------------------------------------------------------------------

/-- The functions that borrow, by how they do it. -/
inductive DbCall where
  | installCDC (tables : Nat)
  | other

/-- How many functions it calls that borrow on their own: `initGlobalChangeLog`, and
`initTriggers` for each table.
-/
def DbCall.inner : DbCall → Nat
  | .installCDC tables => tables + 1
  | .other => 0

/-- Where a goroutine is. It is not in a call; it is at the `Borrow` of a call, or has received
and not yet sent; it has a connection, and is at the `Borrow` of a function it calls, or that
function has received and not yet sent. `left` more such functions are to be called after this
one, and the borrowers are given by their positions in the state of the pool.
-/
inductive Goroutine where
  | idle
  | borrows (left : Nat)
  | holds (left outer : Nat)
  | borrowsInner (left outer : Nat)
  | holdsInner (left outer inner : Nat)
deriving DecidableEq

namespace Goroutine

/-- Its borrowers, the innermost one first. -/
def held : Goroutine → List Nat
  | .idle | .borrows _ => []
  | .holds _ outer | .borrowsInner _ outer => [outer]
  | .holdsInner _ outer inner => [inner, outer]

/-- The borrower that it is executing a step of. -/
def active? : Goroutine → Option Nat
  | .holds _ outer => some outer
  | .holdsInner _ _ inner => some inner
  | .idle | .borrows _ | .borrowsInner _ _ => none

/-- It receives from the channel. -/
def received (borrower : Nat) : Goroutine → Option Goroutine
  | .borrows left => some (.holds left borrower)
  | .borrowsInner left outer => some (.holdsInner left outer borrower)
  | .idle | .holds _ _ | .holdsInner _ _ _ => none

/-- The innermost function returns; its error ends the function that has called it. -/
def returned (failed : Bool) : Goroutine → Goroutine
  | .holdsInner left outer _ => .holds (if failed then 0 else left) outer
  | .idle | .holds _ _ | .borrows _ | .borrowsInner _ _ => .idle

/-- It is in `InstallCDC`, and functions that borrow are running there or still to be called. -/
def installs : Goroutine → Bool
  | .idle => false
  | .borrows left | .holds left _ => 0 < left
  | .borrowsInner _ _ | .holdsInner _ _ _ => true

end Goroutine

structure PoolUse (η : Type) where
  pool : PoolState Unit η
  goroutines : List Goroutine

/-- `borrow` is the receive of `Borrow` and `advance` a step after it, up to a send to the
channel; `opened` is what `OpenRaw` gives. `giveBack` is the deferred `Return`: the function has
ended, or an error has ended it. `callInner` is `InstallCDC` that calls a function that borrows.
-/
inductive PoolUseStep (η : Type) where
  | call (goroutine : Nat) (function : DbCall)
  | borrow (goroutine : Nat)
  | advance (goroutine : Nat) (opened : Option η)
  | callInner (goroutine : Nat)
  | giveBack (goroutine : Nat)

namespace PoolUse

variable {η : Type}

/-- `OpenStreamDB` has made its pool, which is a lazy one, and goroutines may use it. -/
def opened (poolSize goroutines : Nat) : PoolUse η where
  pool := poolStep .start (.newSQLitePool () poolSize true (fun _ => none))
  goroutines := List.replicate goroutines .idle

/-- A function ends with a send to the channel, unless that blocks. -/
def sent (s : PoolUse η) (w i : Nat) (pool : PoolState Unit η) (next : Goroutine)
    : Option (PoolUse η) :=
  match pool.borrowers[i]? with
  | some .finished => some ⟨pool, s.goroutines.set w next⟩
  | _ => none

/-- A step between the receive of `Borrow` and its end, or of `Return` to its end. -/
def advanced (s : PoolUse η) (w i : Nat) (goroutine : Goroutine) (opened : Option η)
    : Borrower Unit → Option (PoolUse η)
  | .received _ _ => some { s with pool := poolStep s.pool (.compareAndSwap i) }
  | .opening _ _ => some { s with pool := poolStep s.pool (.openRaw i opened) }
  | .failed _ => s.sent w i (poolStep s.pool (.replace i)) (goroutine.returned true)
  | .disposing _ _ => s.sent w i (poolStep s.pool (.send i)) (goroutine.returned false)
  | .borrowed _ _ | .finished => none

/-- The step, unless the goroutine is elsewhere or blocks. -/
def step? (s : PoolUse η) : PoolUseStep η → Option (PoolUse η)
  | .call w function =>
      match s.goroutines[w]? with
      | some .idle => some { s with goroutines := s.goroutines.set w (.borrows function.inner) }
      | _ => none
  | .borrow w => do
      let goroutine ← s.goroutines[w]?
      let next ← goroutine.received s.pool.borrowers.length
      if s.pool.idle () = [] then none
      else some ⟨poolStep s.pool (.borrow ()), s.goroutines.set w next⟩
  | .advance w opened => do
      let goroutine ← s.goroutines[w]?
      let i ← goroutine.active?
      let borrower ← s.pool.borrowers[i]?
      s.advanced w i goroutine opened borrower
  | .callInner w =>
      match s.goroutines[w]? with
      | some (.holds (left + 1) outer) =>
          match s.pool.borrowers[outer]? with
          | some (.borrowed _ _) =>
              some { s with goroutines := s.goroutines.set w (.borrowsInner left outer) }
          | _ => none
      | _ => none
  | .giveBack w => do
      let goroutine ← s.goroutines[w]?
      let i ← goroutine.active?
      let borrower ← s.pool.borrowers[i]?
      match borrower with
      | .borrowed _ _ => some { s with pool := poolStep s.pool (.giveBack i) }
      | _ => none

def step (s : PoolUse η) (input : PoolUseStep η) : PoolUse η := (s.step? input).getD s

end PoolUse

/-- It is not a new call. -/
def PoolUseStep.Continues {η : Type} : PoolUseStep η → Prop
  | .call _ _ => False
  | .borrow _ | .advance _ _ | .callInner _ | .giveBack _ => True

namespace PoolUse

variable {η : Type}

/-- No goroutine goes on by itself. -/
def Rests (s : PoolUse η) : Prop :=
  ∀ input : PoolUseStep η, input.Continues → s.step? input = none

/-- How many goroutines may borrow while they have a connection. -/
def installing (s : PoolUse η) : Nat := s.goroutines.countP Goroutine.installs

def held (s : PoolUse η) : List Nat := s.goroutines.flatMap Goroutine.held

end PoolUse

-----------------------------------------------------------------------------------------
-- The measure
-----------------------------------------------------------------------------------------

/-- How many steps it has before it, at most. -/
def Borrower.work {π : Type} : Borrower π → Nat
  | .received _ _ => 4
  | .opening _ _ => 3
  | .borrowed _ _ => 2
  | .failed _ | .disposing _ _ => 1
  | .finished => 0

/-- The steps of a goroutine that no borrower has yet: a function that is called takes five,
and calling it one more.
-/
def Goroutine.work : Goroutine → Nat
  | .idle => 0
  | .borrows left | .borrowsInner left _ => 6 * left + 5
  | .holds left _ | .holdsInner left _ _ => 6 * left

/-- No goroutine goes on for longer by itself. -/
def PoolUse.work {η : Type} (s : PoolUse η) : Nat :=
  (s.goroutines.map Goroutine.work).sum + (s.pool.borrowers.map Borrower.work).sum

-----------------------------------------------------------------------------------------
-- Steps of the pool
-----------------------------------------------------------------------------------------

section

variable {π η : Type} [DecidableEq π] {s : PoolState π η} {i conn : Nat} {p : π}

/-- It sends nothing to a channel and receives nothing from one. -/
def PoolStep.Apart : PoolStep π η → Prop
  | .compareAndSwap _ | .openRaw _ _ | .giveBack _ | .dispose _ _ => True
  | .newSQLitePool _ _ _ _ | .borrow _ | .replace _ | .send _ => False

theorem PoolState.disposed_pool (q : π) : (s.disposed i q conn).pool = s.pool := by
  unfold PoolState.disposed
  split
  · rfl
  · rename_i disposed
    unfold PoolState.dispose at disposed
    split at disposed
    · cases disposed
    · obtain rfl := Except.ok.inj disposed
      rfl

theorem poolStep_pool {input : PoolStep π η} (apart : input.Apart)
    : (poolStep s input).pool = s.pool := by
  cases input with
  | compareAndSwap i =>
      simp only [poolStep]
      repeat' split
      all_goals rfl
  | openRaw i opened =>
      simp only [poolStep]
      repeat' split
      all_goals rfl
  | giveBack i =>
      simp only [poolStep]
      repeat' split
      all_goals first | rfl | exact PoolState.disposed_pool _
  | dispose i q =>
      simp only [poolStep]
      split
      · exact PoolState.disposed_pool q
      · rfl
  | newSQLitePool | borrow | replace | send => cases apart

/-- A pool stays, with its size. -/
theorem poolStep_present {pool : SQLitePool} (present : s.pool p = some pool)
    (input : PoolStep π η)
    : ∃ next, (poolStep s input).pool p = some next ∧ next.poolSize = pool.poolSize := by
  have kept : ∃ next, s.pool p = some next ∧ next.poolSize = pool.poolSize := ⟨pool, present, rfl⟩
  have updated {q : π} {old new : SQLitePool} (here : s.pool q = some old)
      (size : new.poolSize = old.poolSize)
      : ∃ next, Function.update s.pool q (some new) p = some next
        ∧ next.poolSize = pool.poolSize := by
    by_cases same : p = q
    · subst same
      obtain rfl := Option.some.inj (here.symm.trans present)
      exact ⟨new, by simp, size⟩
    · exact ⟨pool, by simpa [same] using present, rfl⟩
  cases input with
  | newSQLitePool q poolSize isLazy openRaw =>
      cases absent : s.pool q with
      | some _ => simpa [poolStep, absent] using kept
      | none =>
          cases created : s.newSQLitePool q poolSize isLazy openRaw poolSize with
          | none => simpa [poolStep, absent, created] using kept
          | some next =>
              obtain ⟨_, _, pools, _⟩ := PoolState.newSQLitePool_eq_some created
              have other : p ≠ q := by
                rintro rfl
                simp [present] at absent
              simpa [poolStep, absent, created, pools, other] using kept
  | borrow q =>
      cases received : (s.pool q).bind SQLitePool.receive? with
      | none => simpa [poolStep, received] using kept
      | some taken =>
          obtain ⟨old, here, done⟩ := Option.bind_eq_some_iff.mp received
          simpa [poolStep, received, PoolState.withPool]
            using updated here (SQLitePool.receive?_eq_some done).1
  | compareAndSwap i | openRaw i opened | giveBack i | dispose i q =>
      rwa [poolStep_pool (by trivial)]
  | replace | send =>
      simp only [poolStep]
      split
      · split
        · exact kept
        · rename_i answered
          obtain ⟨old, here, done⟩ := Option.bind_eq_some_iff.mp answered
          exact updated here (SQLitePool.send?_eq_some done).1
      · exact kept

theorem poolStep_borrow (nonempty : s.idle p ≠ [])
    : ∃ conn, (poolStep s (.borrow p)).borrowers = s.borrowers ++ [.received p conn] := by
  cases received : (s.pool p).bind SQLitePool.receive? with
  | some taken => exact ⟨taken.1, by simp [poolStep, received]⟩
  | none =>
      exfalso
      cases present : s.pool p with
      | none => simp [PoolState.idle, present] at nonempty
      | some pool =>
          simp [present, SQLitePool.receive?] at received
          simp [PoolState.idle, present, received] at nonempty

theorem poolStep_compareAndSwap (doing : s.Doing i (.received p conn))
    : ∃ next, (poolStep s (.compareAndSwap i)).borrowers = s.borrowers.set i next
      ∧ (next = .borrowed p conn ∨ next = .opening p conn) := by
  simp only [poolStep, doing]
  split
  · exact ⟨_, rfl, .inl rfl⟩
  · exact ⟨_, rfl, .inr rfl⟩

theorem poolStep_openRaw (doing : s.Doing i (.opening p conn)) (opened : Option η)
    : (poolStep s (.openRaw i opened)).borrowers
      = s.borrowers.set i (if opened.isSome then .borrowed p conn else .failed p) := by
  simp only [poolStep, doing]
  cases opened <;> rfl

theorem SQLitePool.send?_isSome (conn : Nat) {pool : SQLitePool}
    (room : pool.connections.length < pool.poolSize)
    : (pool.send? conn).isSome := by
  simp [SQLitePool.send?, room]

theorem poolStep_replace (doing : s.Doing i (.failed p)) (hasRoom : s.HasRoom p)
    : (poolStep s (.replace i)).borrowers = s.borrowers.set i .finished := by
  obtain ⟨pool, present, room⟩ := hasRoom
  obtain ⟨sent, done⟩ := Option.isSome_iff_exists.mp (SQLitePool.send?_isSome s.next room)
  simp [poolStep, doing, present, done, PoolState.finish, PoolState.allocate,
    PoolState.withPool]

theorem poolStep_send (doing : s.Doing i (.disposing p conn)) (hasRoom : s.HasRoom p)
    : (poolStep s (.send i)).borrowers = s.borrowers.set i .finished := by
  obtain ⟨pool, present, room⟩ := hasRoom
  obtain ⟨sent, done⟩ := Option.isSome_iff_exists.mp (SQLitePool.send?_isSome conn room)
  simp [poolStep, doing, present, done, PoolState.finish, PoolState.withPool]

theorem poolStep_giveBack (doing : s.Doing i (.borrowed p conn))
    (initialised : (s.connection conn).Initialised p)
    : (poolStep s (.giveBack i)).borrowers = s.borrowers.set i (.disposing p conn) := by
  simp [poolStep, doing, initialised.disposer, PoolState.disposed, PoolState.dispose,
    PoolState.proceed]

end

-----------------------------------------------------------------------------------------
-- Lists of which one element changes
-----------------------------------------------------------------------------------------

section

variable {α β : Type} {elements : List α} {position : Nat} {element : α}

theorem sum_map_set (found : elements[position]? = some element) {next : α} {changed : List α}
    (set : changed = elements.set position next) (size : α → Nat)
    : (changed.map size).sum + size element = (elements.map size).sum + size next := by
  subst set
  induction elements generalizing position with
  | nil => simp at found
  | cons head rest ih =>
      cases position with
      | zero =>
          obtain rfl : head = element := by simpa using found
          simp only [List.set_cons_zero, List.map_cons, List.sum_cons]
          omega
      | succ position =>
          have tail := ih (by simpa using found)
          simp only [List.set_cons_succ, List.map_cons, List.sum_cons]
          omega

theorem countP_set_le (found : elements[position]? = some element) {next : α} {has : α → Bool}
    (before : has next = true → has element = true)
    : (elements.set position next).countP has ≤ elements.countP has := by
  induction elements generalizing position with
  | nil => simp
  | cons head rest ih =>
      cases position with
      | zero =>
          obtain rfl : head = element := by simpa using found
          simp only [List.set_cons_zero, List.countP_cons]
          cases after : has next with
          | false => simp
          | true => simp [before after]
      | succ position =>
          have tail := ih (by simpa using found)
          simp only [List.set_cons_succ, List.countP_cons]
          omega

/-- What the other elements give stays. -/
theorem exists_flatMap_set (found : elements[position]? = some element) (parts : α → List β)
    : ∃ rest, (elements.flatMap parts).Perm (parts element ++ rest)
      ∧ ∀ next, ((elements.set position next).flatMap parts).Perm (parts next ++ rest) := by
  induction elements generalizing position with
  | nil => simp at found
  | cons head tail ih =>
      cases position with
      | zero =>
          obtain rfl : head = element := by simpa using found
          exact ⟨tail.flatMap parts, by simp, by simp⟩
      | succ position =>
          obtain ⟨rest, here, after⟩ := ih (by simpa using found)
          refine ⟨parts head ++ rest, ?_, ?_⟩
          · rw [List.flatMap_cons]
            exact (here.append_left _).trans (List.perm_append_comm_assoc _ _ _)
          · intro next
            rw [List.set_cons_succ, List.flatMap_cons]
            exact ((after next).append_left _).trans (List.perm_append_comm_assoc _ _ _)

end

-----------------------------------------------------------------------------------------
-- What a step does
-----------------------------------------------------------------------------------------

namespace Goroutine

variable {goroutine next : Goroutine} {i : Nat}

theorem held_of_received (received : goroutine.received i = some next)
    : next.held = i :: goroutine.held := by
  cases goroutine <;> cases received <;> rfl

theorem work_of_received (received : goroutine.received i = some next)
    : goroutine.work = next.work + 5 := by
  cases goroutine <;> cases received <;> rfl

theorem installs_of_received (received : goroutine.received i = some next)
    : next.installs = goroutine.installs := by
  cases goroutine <;> cases received <;> rfl

theorem held_of_active (active : goroutine.active? = some i) (failed : Bool)
    : goroutine.held = i :: (goroutine.returned failed).held := by
  cases goroutine <;> cases active <;> rfl

theorem work_returned_le (goroutine : Goroutine) (failed : Bool)
    : (goroutine.returned failed).work ≤ goroutine.work := by
  cases goroutine <;> cases failed <;> simp [returned, work]

theorem installs_of_returned {failed : Bool} (after : (goroutine.returned failed).installs = true)
    : goroutine.installs = true := by
  cases goroutine <;> simp_all [returned, installs]

end Goroutine

namespace PoolUse

variable {η : Type} {n : Nat} {s t : PoolUse η}

/-- A step that is not a new call. -/
inductive Moved (s t : PoolUse η) : Prop where
  | receives {w conn : Nat} {goroutine next : Goroutine}
    (here : s.goroutines[w]? = some goroutine)
    (received : goroutine.received s.pool.borrowers.length = some next)
    (pool : t.pool = poolStep s.pool (.borrow ()))
    (borrowers : t.pool.borrowers = s.pool.borrowers ++ [.received () conn])
    (goroutines : t.goroutines = s.goroutines.set w next)
  | calls {w left outer : Nat} (here : s.goroutines[w]? = some (.holds (left + 1) outer))
    (pool : t.pool = s.pool)
    (goroutines : t.goroutines = s.goroutines.set w (.borrowsInner left outer))
  | proceeds {i : Nat} {borrower next : Borrower Unit} (input : PoolStep Unit η)
    (doing : s.pool.Doing i borrower) (pool : t.pool = poolStep s.pool input)
    (borrowers : t.pool.borrowers = s.pool.borrowers.set i next)
    (slots : borrower.pool? = some () ∧ next.pool? = some ()) (less : next.work < borrower.work)
    (goroutines : t.goroutines = s.goroutines)
  | finishes {w i : Nat} {goroutine : Goroutine} {borrower : Borrower Unit}
    (input : PoolStep Unit η) {failed : Bool} (here : s.goroutines[w]? = some goroutine)
    (active : goroutine.active? = some i) (doing : s.pool.Doing i borrower)
    (pool : t.pool = poolStep s.pool input)
    (borrowers : t.pool.borrowers = s.pool.borrowers.set i .finished)
    (slot : borrower.pool? = some ())
    (goroutines : t.goroutines = s.goroutines.set w (goroutine.returned failed))

theorem sent_eq_some {w i : Nat} {pool : PoolState Unit η} {next : Goroutine}
    (done : s.sent w i pool next = some t)
    : pool.Doing i .finished ∧ t = ⟨pool, s.goroutines.set w next⟩ := by
  unfold sent at done
  split at done
  · rename_i finished
    exact ⟨finished, (Option.some.inj done).symm⟩
  · cases done

theorem sent_of_finished {w i : Nat} {pool : PoolState Unit η} {borrower : Borrower Unit}
    (doing : s.pool.Doing i borrower)
    (borrowers : pool.borrowers = s.pool.borrowers.set i .finished) (next : Goroutine)
    : s.sent w i pool next = some ⟨pool, s.goroutines.set w next⟩ := by
  obtain ⟨inside, _⟩ := List.getElem?_eq_some_iff.mp doing
  have finished : pool.borrowers[i]? = some .finished := by
    simp [borrowers, inside]
  simp [sent, finished]

/-- The borrower of a goroutine goes on, or ends its function. -/
theorem Moved.of_advanced (safe : PoolSafe s.pool) {w i : Nat} {goroutine : Goroutine}
    {borrower : Borrower Unit} {opened : Option η} (here : s.goroutines[w]? = some goroutine)
    (active : goroutine.active? = some i) (doing : s.pool.Doing i borrower)
    (done : s.advanced w i goroutine opened borrower = some t)
    : Moved s t := by
  cases borrower with
  | received p conn =>
      obtain rfl := Option.some.inj done
      obtain ⟨next, borrowers, outcome⟩ := poolStep_compareAndSwap doing
      refine .proceeds (.compareAndSwap i) doing rfl borrowers ⟨rfl, ?_⟩ ?_ rfl
      · rcases outcome with rfl | rfl <;> rfl
      · rcases outcome with rfl | rfl <;> simp [Borrower.work]
  | opening p conn =>
      obtain rfl := Option.some.inj done
      have borrowers := poolStep_openRaw doing opened
      refine .proceeds (.openRaw i opened) doing rfl borrowers ⟨rfl, ?_⟩ ?_ rfl
      · split <;> rfl
      · split <;> simp [Borrower.work]
  | failed p =>
      have borrowers := poolStep_replace doing (safe.replaceRoom i p doing)
      obtain ⟨_, rfl⟩ := sent_eq_some done
      exact .finishes (.replace i) here active doing rfl borrowers rfl rfl
  | disposing p conn =>
      have borrowers := poolStep_send doing (safe.disposeRoom i p conn doing)
      obtain ⟨_, rfl⟩ := sent_eq_some done
      exact .finishes (.send i) here active doing rfl borrowers rfl rfl
  | borrowed => cases done
  | finished => cases done

theorem Moved.of_step? (safe : PoolSafe s.pool) {input : PoolUseStep η}
    (done : s.step? input = some t) (continues : input.Continues)
    : Moved s t := by
  cases input with
  | call => cases continues
  | borrow w =>
      simp only [step?, Option.bind_eq_bind, Option.bind_eq_some_iff] at done
      obtain ⟨goroutine, here, next, received, done⟩ := done
      split at done
      · cases done
      · rename_i nonempty
        obtain rfl := Option.some.inj done
        obtain ⟨conn, borrowers⟩ := poolStep_borrow nonempty
        exact .receives here received rfl borrowers rfl
  | advance w opened =>
      simp only [step?, Option.bind_eq_bind, Option.bind_eq_some_iff] at done
      obtain ⟨goroutine, here, i, active, borrower, doing, done⟩ := done
      exact .of_advanced safe here active doing done
  | callInner w =>
      simp only [step?] at done
      split at done
      · rename_i left outer here
        split at done
        · obtain rfl := Option.some.inj done
          exact .calls here rfl rfl
        · cases done
      · cases done
  | giveBack w =>
      simp only [step?, Option.bind_eq_bind, Option.bind_eq_some_iff] at done
      obtain ⟨goroutine, here, i, active, borrower, doing, done⟩ := done
      split at done
      · rename_i p conn
        obtain rfl := Option.some.inj done
        exact .proceeds (.giveBack i) doing rfl
          (poolStep_giveBack doing (safe.initialised i p conn doing)) ⟨rfl, rfl⟩
          (by simp [Borrower.work]) rfl
      · cases done

/-- A goroutine that has received is not stopped by anything. -/
theorem exists_step?_of_active (safe : PoolSafe s.pool) {w i : Nat} {goroutine : Goroutine}
    {borrower : Borrower Unit} (here : s.goroutines[w]? = some goroutine)
    (active : goroutine.active? = some i) (doing : s.pool.Doing i borrower)
    (slot : borrower.pool? = some ())
    : ∃ input : PoolUseStep η, input.Continues ∧ (s.step? input).isSome := by
  cases borrower with
  | received p conn =>
      exact ⟨.advance w none, trivial, by simp [step?, here, active, doing, advanced]⟩
  | opening p conn =>
      exact ⟨.advance w none, trivial, by simp [step?, here, active, doing, advanced]⟩
  | failed p =>
      have borrowers := poolStep_replace doing (safe.replaceRoom i p doing)
      exact ⟨.advance w none, trivial,
        by simp [step?, here, active, doing, advanced, sent_of_finished doing borrowers]⟩
  | disposing p conn =>
      have borrowers := poolStep_send doing (safe.disposeRoom i p conn doing)
      exact ⟨.advance w none, trivial,
        by simp [step?, here, active, doing, advanced, sent_of_finished doing borrowers]⟩
  | borrowed p conn => exact ⟨.giveBack w, trivial, by simp [step?, here, active, doing]⟩
  | finished => cases slot

theorem Moved.work_lt (moved : Moved s t) : t.work < s.work := by
  cases moved with
  | receives here received pool borrowers goroutines =>
      have less := Goroutine.work_of_received received
      have changed := sum_map_set here goroutines Goroutine.work
      simp only [work, borrowers, List.map_append, List.sum_append, List.map_singleton,
        List.sum_singleton, Borrower.work]
      omega
  | calls here pool goroutines =>
      have changed := sum_map_set here goroutines Goroutine.work
      simp only [Goroutine.work] at changed
      simp only [work, pool]
      omega
  | proceeds input doing pool borrowers slots less goroutines =>
      have changed := sum_map_set doing borrowers Borrower.work
      simp only [work, goroutines]
      omega
  | @finishes w i goroutine borrower input failed here active doing pool borrowers slot
      goroutines =>
      have less := goroutine.work_returned_le failed
      have changed := sum_map_set here goroutines Goroutine.work
      have finished := sum_map_set doing borrowers Borrower.work
      have positive : 0 < borrower.work := by
        cases borrower <;> simp_all [Borrower.work, Borrower.pool?]
      have none : (Borrower.finished : Borrower Unit).work = 0 := rfl
      simp only [work]
      omega

theorem Moved.installing_le (moved : Moved s t) : t.installing ≤ s.installing := by
  cases moved with
  | receives here received pool borrowers goroutines =>
      rw [installing, goroutines]
      refine countP_set_le here ?_
      rw [Goroutine.installs_of_received received]
      exact id
  | calls here pool goroutines =>
      rw [installing, goroutines]
      exact countP_set_le here (fun _ => by simp [Goroutine.installs])
  | proceeds input doing pool borrowers slots less goroutines => rw [installing, goroutines]; rfl
  | finishes input here active doing pool borrowers slot goroutines =>
      rw [installing, goroutines]
      exact countP_set_le here Goroutine.installs_of_returned

-----------------------------------------------------------------------------------------
-- The borrowers of the goroutines are those of the pool
-----------------------------------------------------------------------------------------

/-- Each slot that is out of the channel is with one goroutine. -/
structure Consistent (n : Nat) (s : PoolUse η) : Prop where
  pool : PoolConsistent s.pool
  size : ∃ pool, s.pool.pool () = some pool ∧ pool.poolSize = n
  unfinished : ∀ i ∈ s.held, ∃ borrower, s.pool.Doing i borrower ∧ borrower.pool? = some ()
  apart : s.held.Nodup
  inUse : s.pool.inUse () = s.held.length

namespace Consistent

theorem opened (n goroutines : Nat) : Consistent n (PoolUse.opened n goroutines : PoolUse η) := by
  have isCreated : ((PoolState.start : PoolState Unit η).newSQLitePool () n true
      (fun _ => none) n).isSome :=
    PoolState.newSQLitePool_isSome _ () (Nat.le_refl n) (fun eager => by cases eager)
  obtain ⟨next, created⟩ := Option.isSome_iff_exists.mp isCreated
  obtain ⟨borrowers, pool, pools, size, _⟩ := PoolState.newSQLitePool_eq_some created
  have reached : (PoolUse.opened n goroutines : PoolUse η).pool = next := by
    simp [PoolUse.opened, poolStep, PoolState.start] at created ⊢
    simp [created]
  have nothing : (PoolUse.opened n goroutines : PoolUse η).held = [] := by
    simp [PoolUse.held, PoolUse.opened, Goroutine.held]
  refine ⟨PoolConsistent.start.step (.newSQLitePool () n true _), ⟨pool, ?_, size⟩, ?_, ?_, ?_⟩
  · simp [reached, pools]
  · simp [nothing]
  · simp [nothing]
  · simp [nothing, reached, PoolState.inUse, borrowers, PoolState.start]

theorem inUse_of_set {before after : PoolState Unit η} {i : Nat} {borrower next : Borrower Unit}
    (doing : before.Doing i borrower) (borrowers : after.borrowers = before.borrowers.set i next)
    : after.inUse () + (if borrower.pool? = some () then 1 else 0)
      = before.inUse () + (if next.pool? = some () then 1 else 0) := by
  have counted := PoolState.inUse_set doing next ()
  rw [← borrowers] at counted
  exact counted

theorem idle_add_held (consistent : Consistent n s)
    : (s.pool.idle ()).length + s.held.length = n := by
  obtain ⟨pool, present, size⟩ := consistent.size
  have slots := consistent.pool.accounted () pool present
  rw [consistent.inUse, size] at slots
  simpa [PoolState.idle, present] using slots

theorem size_step (consistent : Consistent n s) (input : PoolStep Unit η)
    : ∃ pool, (poolStep s.pool input).pool () = some pool ∧ pool.poolSize = n := by
  obtain ⟨pool, present, size⟩ := consistent.size
  obtain ⟨next, after, same⟩ := poolStep_present present input
  exact ⟨next, after, same.trans size⟩

/-- What goes on with a borrower leaves the others alone. -/
theorem moved (consistent : Consistent n s) (moved : Moved s t) : Consistent n t := by
  cases moved with
  | @receives w conn goroutine next here received pool borrowers goroutines =>
      obtain ⟨rest, before, after⟩ := exists_flatMap_set here Goroutine.held
      have held : t.held.Perm (s.pool.borrowers.length :: s.held) := by
        rw [PoolUse.held, goroutines]
        refine (after next).trans ?_
        rw [Goroutine.held_of_received received, List.cons_append]
        exact before.symm.cons _
      have fresh : s.pool.borrowers.length ∉ s.held := by
        intro old
        obtain ⟨borrower, doing, _⟩ := consistent.unfinished _ old
        simp [PoolState.Doing] at doing
      refine ⟨pool ▸ consistent.pool.step _, pool ▸ consistent.size_step _, ?_, ?_, ?_⟩
      · intro i member
        rcases List.mem_cons.mp (held.mem_iff.mp member) with rfl | old
        · exact ⟨.received () conn, by simp [PoolState.Doing, borrowers], rfl⟩
        · obtain ⟨borrower, doing, slot⟩ := consistent.unfinished i old
          obtain ⟨inside, _⟩ := List.getElem?_eq_some_iff.mp doing
          refine ⟨borrower, ?_, slot⟩
          rw [PoolState.Doing, borrowers, List.getElem?_append_left inside]
          exact doing
      · exact held.nodup_iff.mpr (List.nodup_cons.mpr ⟨fresh, consistent.apart⟩)
      · have before := consistent.inUse
        rw [PoolState.inUse] at before
        rw [held.length_eq, PoolState.inUse, borrowers, List.countP_append, before]
        rfl
  | calls here pool goroutines =>
      obtain ⟨rest, before, after⟩ := exists_flatMap_set here Goroutine.held
      have held : t.held.Perm s.held := by
        rw [PoolUse.held, goroutines]
        exact (after _).trans before.symm
      refine ⟨pool ▸ consistent.pool, pool ▸ consistent.size, ?_, ?_, ?_⟩
      · intro i member
        rw [pool]
        exact consistent.unfinished i (held.mem_iff.mp member)
      · exact held.nodup_iff.mpr consistent.apart
      · rw [pool, held.length_eq]
        exact consistent.inUse
  | @proceeds i borrower next input doing pool borrowers slots less goroutines =>
      have held : t.held = s.held := by rw [PoolUse.held, goroutines]; rfl
      obtain ⟨inside, _⟩ := List.getElem?_eq_some_iff.mp doing
      refine ⟨pool ▸ consistent.pool.step _, pool ▸ consistent.size_step _, ?_, ?_, ?_⟩
      · intro j member
        simp only [PoolState.Doing, borrowers]
        by_cases same : i = j
        · subst same
          exact ⟨next, by simp [inside], slots.2⟩
        · simpa [same] using consistent.unfinished j (held ▸ member)
      · exact held ▸ consistent.apart
      · have counted := inUse_of_set doing borrowers
        rw [slots.1, slots.2, Nat.add_right_cancel_iff] at counted
        rw [held, ← consistent.inUse, counted]
  | @finishes w i goroutine borrower input failed here active doing pool borrowers slot
      goroutines =>
      obtain ⟨rest, before, after⟩ := exists_flatMap_set here Goroutine.held
      have held : s.held.Perm (i :: t.held) := by
        rw [PoolUse.held, PoolUse.held, goroutines]
        refine before.trans ?_
        rw [Goroutine.held_of_active active failed, List.cons_append]
        exact (after _).symm.cons _
      obtain ⟨gone, apart⟩ := List.nodup_cons.mp (held.nodup_iff.mp consistent.apart)
      refine ⟨pool ▸ consistent.pool.step _, pool ▸ consistent.size_step _, ?_, apart, ?_⟩
      · intro j member
        have other : i ≠ j := fun same => gone (same ▸ member)
        simp only [PoolState.Doing, borrowers]
        simpa [other] using consistent.unfinished j (held.mem_iff.mpr (.tail _ member))
      · have counted := inUse_of_set doing borrowers
        have total := held.length_eq
        rw [← consistent.inUse, List.length_cons] at total
        rw [if_pos slot, if_neg (by simp [Borrower.pool?])] at counted
        omega

theorem step (consistent : Consistent n s) (input : PoolUseStep η)
    : Consistent n (s.step input) := by
  unfold PoolUse.step
  cases done : s.step? input with
  | none => exact consistent
  | some t =>
      cases input with
      | call w function =>
          simp only [step?] at done
          split at done
          · rename_i here
            obtain rfl := Option.some.inj done
            obtain ⟨rest, before, after⟩ := exists_flatMap_set here Goroutine.held
            have held := (after (.borrows function.inner)).trans before.symm
            refine ⟨consistent.pool, consistent.size, ?_, ?_, ?_⟩
            · intro i member
              exact consistent.unfinished i (held.mem_iff.mp member)
            · exact held.nodup_iff.mpr consistent.apart
            · exact consistent.inUse.trans held.length_eq.symm
          · cases done
      | borrow | advance | callInner | giveBack =>
          exact consistent.moved (.of_step? consistent.pool.safe done trivial)

theorem run (goroutines : Nat) (inputs : List (PoolUseStep η))
    : Consistent n (Runs.run PoolUse.step (PoolUse.opened n goroutines) inputs) :=
  Runs.run_invariant (Consistent n) (fun _ input consistent => consistent.step input)
    (.opened n goroutines) inputs

end Consistent

-----------------------------------------------------------------------------------------
-- Waiting
-----------------------------------------------------------------------------------------

/-- Nobody gets a connection from an empty channel. -/
theorem rests_of_waiting (empty : s.pool.idle () = [])
    (waiting : ∀ goroutine ∈ s.goroutines, goroutine.active? = none)
    : s.Rests := by
  have none_of {w : Nat} {goroutine : Goroutine} (here : s.goroutines[w]? = some goroutine)
      : goroutine.active? = none :=
    waiting goroutine (List.mem_of_getElem? here)
  intro input continues
  cases input with
  | call => cases continues
  | borrow w => simp [step?, empty]
  | advance w opened =>
      cases here : s.goroutines[w]? with
      | none => simp [step?, here]
      | some goroutine => simp [step?, here, none_of here]
  | callInner w =>
      simp only [step?]
      split
      · rename_i here
        cases none_of here
      · rfl
  | giveBack w =>
      cases here : s.goroutines[w]? with
      | none => simp [step?, here]
      | some goroutine => simp [step?, here, none_of here]

/-- A goroutine that waits has a connection only in `InstallCDC`, and then one. -/
theorem held_length_le {goroutines : List Goroutine}
    (waiting : ∀ goroutine ∈ goroutines, goroutine.active? = none)
    : (goroutines.flatMap Goroutine.held).length ≤ goroutines.countP Goroutine.installs := by
  induction goroutines with
  | nil => simp
  | cons goroutine rest ih =>
      have later := ih (fun other member => waiting other (.tail _ member))
      have first : goroutine.held.length ≤ if goroutine.installs then 1 else 0 := by
        have waits := waiting goroutine (.head _)
        cases goroutine <;> simp_all [Goroutine.held, Goroutine.installs, Goroutine.active?]
      rw [List.flatMap_cons, List.length_append, List.countP_cons]
      omega

/-- With a connection more than there are goroutines that may wait while they have one, someone
goes on.
-/
theorem Consistent.all_idle (consistent : Consistent n s) (fewer : s.installing < n)
    (rests : s.Rests)
    : ∀ goroutine ∈ s.goroutines, goroutine = .idle := by
  have waiting : ∀ goroutine ∈ s.goroutines, goroutine.active? = none := by
    intro goroutine member
    by_contra goesOn
    obtain ⟨i, active⟩ := Option.ne_none_iff_exists'.mp goesOn
    obtain ⟨w, here⟩ := List.mem_iff_getElem?.mp member
    have isHeld : i ∈ s.held := by
      refine List.mem_flatMap.mpr ⟨goroutine, member, ?_⟩
      rw [Goroutine.held_of_active active false]
      exact .head _
    obtain ⟨borrower, doing, slot⟩ := consistent.unfinished i isHeld
    obtain ⟨input, continues, moves⟩ :=
      exists_step?_of_active consistent.pool.safe here active doing slot
    simp [rests input continues] at moves
  have total := consistent.idle_add_held
  have few : s.held.length ≤ s.installing := held_length_le waiting
  have nonempty : s.pool.idle () ≠ [] := by
    intro empty
    rw [empty, List.length_nil] at total
    omega
  intro goroutine member
  obtain ⟨w, here⟩ := List.mem_iff_getElem?.mp member
  have stopped := rests (.borrow w) trivial
  cases goroutine with
  | idle => rfl
  | borrows left => simp [step?, here, Goroutine.received, nonempty] at stopped
  | borrowsInner left outer => simp [step?, here, Goroutine.received, nonempty] at stopped
  | holds left outer => cases waiting _ member
  | holdsInner left outer inner => cases waiting _ member

/-- Each step that is taken lowers what is left to do, by induction on the run. -/
theorem Consistent.run_along (consistent : Consistent n s) {inputs : List (PoolUseStep η)}
    (taken : Runs.Along PoolUse.step
      (fun s input => input.Continues ∧ (s.step? input).isSome) s inputs)
    : Consistent n (Runs.run PoolUse.step s inputs)
      ∧ (Runs.run PoolUse.step s inputs).installing ≤ s.installing
      ∧ inputs.length + (Runs.run PoolUse.step s inputs).work ≤ s.work := by
  induction inputs generalizing s with
  | nil => exact ⟨consistent, Nat.le_refl _, by simp⟩
  | cons input rest ih =>
      obtain ⟨⟨continues, moves⟩, later⟩ := taken
      obtain ⟨t, done⟩ := Option.isSome_iff_exists.mp moves
      have reached : s.step input = t := by simp [PoolUse.step, done]
      have moved : Moved s t := .of_step? consistent.pool.safe done continues
      rw [reached] at later
      obtain ⟨still, fewer, bound⟩ := ih (consistent.moved moved) later
      have less := moved.work_lt
      rw [Runs.run_cons, reached]
      refine ⟨still, fewer.trans moved.installing_le, ?_⟩
      rw [List.length_cons]
      omega

-----------------------------------------------------------------------------------------
-- As many installations as connections
-----------------------------------------------------------------------------------------

/-- `InstallCDC` gets a connection and calls `initGlobalChangeLog`. -/
def installSteps (handles : η) (w : Nat) : List (PoolUseStep η) :=
  [.call w (.installCDC 0), .borrow w, .advance w (some handles), .advance w (some handles),
    .callInner w]

/-- Two steps after the receive the connection is borrowed, if it can be opened. -/
theorem exists_borrowed {w i conn left : Nat} (handles : η)
    (here : s.goroutines[w]? = some (.holds left i)) (doing : s.pool.Doing i (.received () conn))
    : ∃ t, (s.step (.advance w (some handles))).step (.advance w (some handles)) = t
      ∧ t.goroutines = s.goroutines ∧ t.pool.Doing i (.borrowed () conn) := by
  obtain ⟨inside, _⟩ := List.getElem?_eq_some_iff.mp doing
  have first : s.step (.advance w (some handles))
      = { s with pool := poolStep s.pool (.compareAndSwap i) } := by
    simp [step, step?, here, Goroutine.active?, doing, advanced]
  refine ⟨_, rfl, ?_⟩
  rw [first]
  obtain ⟨next, borrowers, rfl | rfl⟩ := poolStep_compareAndSwap doing
  · have now : (poolStep s.pool (.compareAndSwap i)).Doing i (.borrowed () conn) := by
      simp [PoolState.Doing, borrowers, inside]
    exact ⟨by simp [step, step?, here, Goroutine.active?, now, advanced],
      by simpa [step, step?, here, Goroutine.active?, now, advanced] using now⟩
  · have now : (poolStep s.pool (.compareAndSwap i)).Doing i (.opening () conn) := by
      simp [PoolState.Doing, borrowers, inside]
    have after := poolStep_openRaw now (some handles)
    simp [step, step?, here, Goroutine.active?, advanced, PoolState.Doing, after, borrowers,
      inside]

theorem exists_received {w left : Nat} (here : s.goroutines[w]? = some (.borrows left))
    (nonempty : s.pool.idle () ≠ [])
    : ∃ i conn, (s.step (.borrow w)).goroutines = s.goroutines.set w (.holds left i)
      ∧ (s.step (.borrow w)).pool.Doing i (.received () conn) := by
  obtain ⟨conn, borrowers⟩ := poolStep_borrow nonempty
  refine ⟨s.pool.borrowers.length, conn, ?_⟩
  simp [step, step?, here, Goroutine.received, nonempty, PoolState.Doing, borrowers]

/-- An installation takes a connection out of the channel and waits for the next one. -/
theorem exists_installed (handles : η) {before after : List Goroutine}
    (goroutines : s.goroutines = before ++ .idle :: after) (nonempty : s.pool.idle () ≠ [])
    : ∃ outer, (Runs.run step s (installSteps handles before.length)).goroutines
      = before ++ .borrowsInner 0 outer :: after := by
  have called : s.step (.call before.length (.installCDC 0))
      = { s with goroutines := before ++ .borrows 1 :: after } := by
    simp [step, step?, goroutines, DbCall.inner]
  have atBorrow : (s.step (.call before.length (.installCDC 0))).goroutines[before.length]?
      = some (.borrows 1) := by
    simp [called]
  obtain ⟨i, conn, received, doing⟩ := exists_received atBorrow (by simpa [called] using nonempty)
  have holds : ((s.step (.call before.length (.installCDC 0))).step
      (.borrow before.length)).goroutines[before.length]? = some (.holds 1 i) := by
    rw [received, called]
    simp
  obtain ⟨t, reached, same, borrowed⟩ := exists_borrowed handles holds doing
  have now : t.goroutines = before ++ .holds 1 i :: after := by
    rw [same, received, called]
    simp
  refine ⟨i, ?_⟩
  simp only [Runs.run, installSteps, List.foldl_cons, List.foldl_nil, reached]
  simp [step, step?, now, borrowed]

/-- Installations wait for each other once they have all connections, by induction on how many
of them there are.
-/
theorem exists_installations (handles : η) {j : Nat} (within : j ≤ n)
    : ∃ (inputs : List (PoolUseStep η)) (outers : List Nat), outers.length = j
      ∧ (Runs.run step (opened n (n + 1)) inputs : PoolUse η).goroutines
        = outers.map (.borrowsInner 0) ++ List.replicate (n + 1 - j) .idle := by
  induction j with
  | zero => exact ⟨[], [], rfl, by simp [opened]⟩
  | succ j ih =>
      obtain ⟨inputs, outers, length, goroutines⟩ := ih (Nat.le_of_succ_le within)
      have total := (Consistent.run (n + 1) inputs : Consistent n _).idle_add_held
      have taken : (Runs.run step (opened n (n + 1)) inputs : PoolUse η).held = outers := by
        simp [held, goroutines, Goroutine.held, List.flatMap_append, List.flatMap_map]
      have nonempty : (Runs.run step (opened n (n + 1)) inputs : PoolUse η).pool.idle () ≠ [] := by
        intro empty
        rw [empty, taken, length, List.length_nil] at total
        omega
      have split : n + 1 - j = (n + 1 - (j + 1)) + 1 := by omega
      rw [split, List.replicate_succ] at goroutines
      obtain ⟨outer, installed⟩ := exists_installed handles goroutines nonempty
      refine ⟨inputs ++ installSteps handles (outers.map (Goroutine.borrowsInner 0)).length,
        outers ++ [outer], by simp [length], ?_⟩
      rw [Runs.run_append, installed]
      simp

/-- As many installations as there are connections, and one goroutine that calls any function,
wait for ever.
-/
theorem exists_deadlock (handles : η) (n : Nat)
    : ∃ inputs : List (PoolUseStep η),
      let s := Runs.run step (opened n (n + 1)) inputs
      s.installing = n ∧ s.Rests ∧ .borrows 0 ∈ s.goroutines := by
  obtain ⟨inputs, outers, length, installed⟩ := exists_installations handles (Nat.le_refl n)
  refine ⟨inputs ++ [.call n .other], ?_⟩
  have consistent := (Consistent.run (n + 1) (inputs ++ [.call n .other]) : Consistent n _)
  have goroutines : (Runs.run step (opened n (n + 1)) (inputs ++ [.call n .other])).goroutines
      = outers.map (.borrowsInner 0) ++ [.borrows 0] := by
    rw [Runs.run_concat]
    subst length
    simp [step, step?, installed, DbCall.inner]
  generalize Runs.run step (opened n (n + 1)) (inputs ++ [.call n .other]) = s
    at goroutines consistent
  have empty : s.pool.idle () = [] := by
    have total := consistent.idle_add_held
    have held : s.held = outers := by
      simp [held, goroutines, Goroutine.held, List.flatMap_append, List.flatMap_map]
    rw [held, length] at total
    exact List.eq_nil_of_length_eq_zero (by omega)
  refine ⟨?_, rests_of_waiting empty ?_, ?_⟩
  · simp [installing, goroutines, List.countP_append, List.countP_map, Function.comp_def,
      Goroutine.installs, length]
  · intro goroutine member
    rw [goroutines] at member
    simp only [List.mem_append, List.mem_map, List.mem_singleton] at member
    rcases member with ⟨outer, _, rfl⟩ | rfl <;> rfl
  · simp [goroutines]

end PoolUse

/-- If at most `k` goroutines are in `InstallCDC`, then in every interleaving and however
`OpenRaw` and the functions end, all calls return after a bounded number of steps and the pool
has its connections back; for exactly the `k` below the number of connections.
-/
theorem borrow_completes_iff {η : Type} (handles : η) (poolSize k : Nat)
    : (∀ (goroutines : Nat) (earlier inputs : List (PoolUseStep η)),
        let s := Runs.run PoolUse.step (PoolUse.opened poolSize goroutines) earlier
        let t := Runs.run PoolUse.step s inputs
        s.installing ≤ k
          → Runs.Along PoolUse.step
              (fun s input => input.Continues ∧ (s.step? input).isSome) s inputs
          → inputs.length ≤ s.work
            ∧ (t.Rests → (∀ goroutine ∈ t.goroutines, goroutine = .idle)
              ∧ (t.pool.idle ()).length = poolSize))
      ↔ k < poolSize := by
  constructor
  · intro completes
    by_contra enough
    obtain ⟨earlier, installing, rests, waits⟩ := PoolUse.exists_deadlock handles poolSize
    have few := installing.trans_le (Nat.le_of_not_lt enough)
    obtain ⟨_, returned⟩ := completes (poolSize + 1) earlier [] few trivial
    cases (returned rests).1 _ waits
  · intro fewer goroutines earlier inputs s t few taken
    have consistent : s.Consistent poolSize := .run goroutines earlier
    obtain ⟨still, fewerStill, bound⟩ := consistent.run_along taken
    refine ⟨by omega, ?_⟩
    intro rests
    have idle := still.all_idle (by omega) rests
    refine ⟨idle, ?_⟩
    have nothing : t.held = [] := by
      refine List.flatMap_eq_nil_iff.mpr ?_
      intro goroutine member
      rw [idle goroutine member]
      rfl
    have total := still.idle_add_held
    rwa [nothing, List.length_nil, Nat.add_zero] at total

end HarmonyLite.Pool
