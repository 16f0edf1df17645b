import HarmonyLite.Basis.Runs
import HarmonyLite.Core.Values
import HarmonyLite.Db.ChangeLogScript
import Mathlib.Logic.Function.Basic

/-! The scripts of `installChangeLogTriggers` on a database whose triggers are installed. They
run statement by statement outside of a transaction, and the application writes in between.
-/

namespace HarmonyLite

-----------------------------------------------------------------------------------------
-- The scripts and the writes between their statements
-----------------------------------------------------------------------------------------

/-- A row written by the application, with what its trigger stores of it. -/
structure AppWrite (ρ : Type) where
  tableName : GoString
  event : TriggerEvent
  image : ρ

/-- The triggers that exist, the change log, the writes to watched tables so far and the
statements that are still to run.
-/
structure ScriptState (ρ : Type) where
  triggers : GoString → TriggerEvent → Bool
  changeLog : List (AppWrite ρ)
  written : List (AppWrite ρ)
  left : List (CdcStatement GoString)

inductive ScriptStep (ρ : Type) where
  | statement
  | write (w : AppWrite ρ)

variable {ρ : Type}

def setTrigger (triggers : GoString → TriggerEvent → Bool) (tableName : GoString)
    (event : TriggerEvent) (present : Bool)
    : GoString → TriggerEvent → Bool :=
  Function.update triggers tableName (Function.update (triggers tableName) event present)

/-- Tables and indexes that exist are left alone. -/
def CdcStatement.execute (triggers : GoString → TriggerEvent → Bool)
    : CdcStatement GoString → GoString → TriggerEvent → Bool
  | .createGlobalChangeLog | .createChangeLog _ | .createStateIndex _ => triggers
  | .dropTrigger tableName event => setTrigger triggers tableName event false
  | .createTrigger tableName event => setTrigger triggers tableName event true

def scriptStep (tables : List GoString) (s : ScriptState ρ) : ScriptStep ρ → ScriptState ρ
  | .statement =>
      match s.left with
      | [] => s
      | statement :: rest =>
          { s with triggers := statement.execute s.triggers, left := rest }
  | .write w =>
      { s with
        changeLog := if s.triggers w.tableName w.event then s.changeLog ++ [w] else s.changeLog
        written := if w.tableName ∈ tables then s.written ++ [w] else s.written }

/-- Every watched table has its triggers, and the scripts are about to run. -/
def ScriptState.start (tables : List GoString) : ScriptState ρ where
  triggers tableName _ := tableName ∈ tables
  changeLog := []
  written := []
  left := installScript tables

/-- A write does not come between the `DROP` and the `CREATE` of its own trigger. -/
def NotBetween (s : ScriptState ρ) : ScriptStep ρ → Prop
  | .statement => True
  | .write w => s.left.head? ≠ some (.createTrigger w.tableName w.event)

-----------------------------------------------------------------------------------------
-- Which triggers are missing
-----------------------------------------------------------------------------------------

/-- The statement is about no trigger. -/
def CdcStatement.plain : CdcStatement GoString → Bool
  | .createGlobalChangeLog | .createChangeLog _ | .createStateIndex _ => true
  | .dropTrigger _ _ | .createTrigger _ _ => false

/-- Every trigger that the statements drop is one of a watched table, and the next statement
creates it.
-/
inductive Bracketed (tables : List GoString) : List (CdcStatement GoString) → Prop where
  | nil : Bracketed tables []
  | plain {statement : CdcStatement GoString} {rest : List (CdcStatement GoString)}
      (isPlain : statement.plain = true) (later : Bracketed tables rest)
    : Bracketed tables (statement :: rest)
  | trigger {tableName : GoString} {event : TriggerEvent} {rest : List (CdcStatement GoString)}
      (watched : tableName ∈ tables) (later : Bracketed tables rest)
    : Bracketed tables (.dropTrigger tableName event :: .createTrigger tableName event :: rest)

variable {tables : List GoString}

theorem Bracketed.append {first second : List (CdcStatement GoString)}
    (left : Bracketed tables first) (right : Bracketed tables second)
    : Bracketed tables (first ++ second) := by
  induction left with
  | nil => exact right
  | plain isPlain _ ih => exact .plain isPlain ih
  | trigger watched _ ih => exact .trigger watched ih

theorem bracketed_tableScript {tableName : GoString} (watched : tableName ∈ tables)
    : Bracketed tables (tableScript tableName) :=
  .plain rfl (.plain rfl (.trigger watched (.trigger watched (.trigger watched .nil))))

/-- The scripts of some of the tables, by induction on these. -/
theorem bracketed_flatMap {names : List GoString}
    (watched : ∀ tableName ∈ names, tableName ∈ tables)
    : Bracketed tables (names.flatMap tableScript) := by
  induction names with
  | nil => exact .nil
  | cons tableName rest ih =>
      obtain ⟨here, later⟩ := List.forall_mem_cons.mp watched
      exact (bracketed_tableScript here).append (ih later)

theorem bracketed_installScript (tables : List GoString)
    : Bracketed tables (installScript tables) :=
  .plain rfl (bracketed_flatMap (fun _ member => member))

/-- The next statement creates a trigger only after it was dropped. -/
theorem Bracketed.head?_ne {left : List (CdcStatement GoString)} (bracketed : Bracketed tables left)
    (tableName : GoString) (event : TriggerEvent)
    : left.head? ≠ some (.createTrigger tableName event) := by
  intro head
  cases bracketed with
  | nil => simp at head
  | plain isPlain _ =>
      obtain rfl := Option.some.inj head
      cases isPlain
  | trigger _ _ => simp at head

/-- The remaining statements, with or without the `DROP` that comes before their `CREATE`. -/
inductive Midway (tables : List GoString) : List (CdcStatement GoString) → Prop where
  | whole {left : List (CdcStatement GoString)} (bracketed : Bracketed tables left)
    : Midway tables left
  | dropped {tableName : GoString} {event : TriggerEvent} {rest : List (CdcStatement GoString)}
      (watched : tableName ∈ tables) (bracketed : Bracketed tables rest)
    : Midway tables (.createTrigger tableName event :: rest)

theorem Midway.watched {left : List (CdcStatement GoString)} (midway : Midway tables left)
    {tableName : GoString} {event : TriggerEvent}
    (head : left.head? = some (.createTrigger tableName event))
    : tableName ∈ tables := by
  cases midway with
  | whole bracketed => exact absurd head (bracketed.head?_ne tableName event)
  | dropped watched _ =>
      obtain ⟨rfl, rfl⟩ := CdcStatement.createTrigger.inj (Option.some.inj head)
      exact watched

/-- The triggers of the watched tables are there, except the one that the next statement
creates; the change log is not longer than what was written.
-/
structure ScriptConsistent (tables : List GoString) (s : ScriptState ρ) : Prop where
  midway : Midway tables s.left
  triggers : ∀ tableName event, s.triggers tableName event
    = decide (tableName ∈ tables ∧ s.left.head? ≠ some (.createTrigger tableName event))
  shorter : s.changeLog.length ≤ s.written.length

section

variable {s : ScriptState ρ}

theorem scriptConsistent_start (tables : List GoString)
    : ScriptConsistent tables (.start tables : ScriptState ρ) where
  midway := .whole (bracketed_installScript tables)
  triggers tableName event := by
    have notCreate := (bracketed_installScript tables).head?_ne tableName event
    simp only [ScriptState.start, notCreate, ne_eq, not_false_eq_true, and_true]
  shorter := Nat.le_refl _

theorem setTrigger_apply (triggers : GoString → TriggerEvent → Bool) (tableName other : GoString)
    (event otherEvent : TriggerEvent) (present : Bool)
    : setTrigger triggers tableName event present other otherEvent
      = if other = tableName ∧ otherEvent = event then present
        else triggers other otherEvent := by
  unfold setTrigger
  by_cases sameName : other = tableName
  · subst sameName
    by_cases sameEvent : otherEvent = event <;> simp [sameEvent]
  · simp [sameName]

/-- Creating another trigger is another statement. -/
theorem head?_createTrigger_ne {tableName other : GoString} {event otherEvent : TriggerEvent}
    {rest : List (CdcStatement GoString)} (different : ¬ (other = tableName ∧ otherEvent = event))
    : (CdcStatement.createTrigger tableName event :: rest).head?
      ≠ some (.createTrigger other otherEvent) := by
  intro same
  obtain ⟨rfl, rfl⟩ := CdcStatement.createTrigger.inj (Option.some.inj same)
  exact different ⟨rfl, rfl⟩

/-- A statement keeps the invariant, by cases on what is left of the script. -/
theorem ScriptConsistent.statement (consistent : ScriptConsistent tables s)
    : ScriptConsistent tables (scriptStep tables s .statement) := by
  obtain ⟨triggers, changeLog, written, left⟩ := s
  obtain ⟨midway, present, shorter⟩ := consistent
  simp only [scriptStep] at midway present ⊢
  cases midway with
  | @dropped tableName event rest watched bracketed =>
      refine ⟨.whole bracketed, ?_, shorter⟩
      intro other otherEvent
      have notCreate := bracketed.head?_ne other otherEvent
      simp only [CdcStatement.execute, setTrigger_apply]
      by_cases same : other = tableName ∧ otherEvent = event
      · obtain ⟨rfl, rfl⟩ := same
        simp [watched, notCreate]
      · rw [if_neg same, present other otherEvent]
        simp only [head?_createTrigger_ne same, notCreate, ne_eq, not_false_eq_true]
  | whole bracketed =>
      cases bracketed with
      | nil => exact ⟨.whole .nil, present, shorter⟩
      | @plain statement rest isPlain later =>
          refine ⟨.whole later, ?_, shorter⟩
          intro other otherEvent
          have kept : statement.execute triggers = triggers := by
            cases statement <;> first | rfl | cases isPlain
          have before := (Bracketed.plain isPlain later).head?_ne other otherEvent
          have after := later.head?_ne other otherEvent
          simp only [kept, present other otherEvent, before, after, ne_eq, not_false_eq_true]
      | @trigger tableName event rest watched later =>
          refine ⟨.dropped watched later, ?_, shorter⟩
          intro other otherEvent
          have whole : Bracketed tables
              (.dropTrigger tableName event :: .createTrigger tableName event :: rest) :=
            .trigger watched later
          have before := whole.head?_ne other otherEvent
          simp only [CdcStatement.execute, setTrigger_apply]
          by_cases same : other = tableName ∧ otherEvent = event
          · obtain ⟨rfl, rfl⟩ := same
            simp
          · rw [if_neg same, present other otherEvent]
            simp only [head?_createTrigger_ne same, before, ne_eq, not_false_eq_true]

theorem ScriptConsistent.write (consistent : ScriptConsistent tables s) (w : AppWrite ρ)
    : ScriptConsistent tables (scriptStep tables s (.write w)) := by
  refine ⟨consistent.midway, consistent.triggers, ?_⟩
  have present := consistent.triggers w.tableName w.event
  have shorter := consistent.shorter
  simp only [scriptStep]
  cases fires : s.triggers w.tableName w.event with
  | false =>
      simp only [Bool.false_eq_true, ↓reduceIte]
      split
      · simp only [List.length_append]
        omega
      · exact shorter
  | true =>
      have watched : w.tableName ∈ tables := by
        rw [fires] at present
        exact (of_decide_eq_true present.symm).1
      simpa [watched] using shorter

theorem ScriptConsistent.step (consistent : ScriptConsistent tables s) (input : ScriptStep ρ)
    : ScriptConsistent tables (scriptStep tables s input) := by
  cases input with
  | statement => exact consistent.statement
  | write w => exact consistent.write w

/-- A step leaves the change log complete exactly when it was complete and the step is not a
write without its trigger.
-/
theorem ScriptConsistent.complete_iff (consistent : ScriptConsistent tables s)
    (input : ScriptStep ρ)
    : (scriptStep tables s input).changeLog = (scriptStep tables s input).written
      ↔ s.changeLog = s.written ∧ NotBetween s input := by
  cases input with
  | statement =>
      simp only [scriptStep, NotBetween, and_true]
      split <;> rfl
  | write w =>
      have present := consistent.triggers w.tableName w.event
      have shorter := consistent.shorter
      simp only [scriptStep, NotBetween]
      by_cases watched : w.tableName ∈ tables
      · by_cases between : s.left.head? = some (.createTrigger w.tableName w.event)
        · -- The trigger is missing, and the change log has fallen behind for good.
          simp only [watched, between, ne_eq, not_true_eq_false, and_false, decide_false] at present
          simp only [present, Bool.false_eq_true, ↓reduceIte, watched, between, ne_eq,
            not_true_eq_false, and_false, iff_false]
          intro same
          have length := congrArg List.length same
          rw [List.length_append, List.length_singleton] at length
          omega
        · simp only [watched, between, ne_eq, not_false_eq_true, and_self, decide_true] at present
          simp only [present, ↓reduceIte, watched, List.append_cancel_right_eq, between, ne_eq,
            not_false_eq_true, and_true]
      · have missing : s.triggers w.tableName w.event = false := by
          rw [present]
          simp [watched]
        have notCreate : s.left.head? ≠ some (.createTrigger w.tableName w.event) :=
          fun head => watched (consistent.midway.watched head)
        simp only [missing, Bool.false_eq_true, ↓reduceIte, watched, ne_eq, notCreate,
          not_false_eq_true, and_true]

/-- The change log is complete at the end of a run exactly when it was at its start and no
write came between, by induction on the run.
-/
theorem ScriptConsistent.run_complete_iff (consistent : ScriptConsistent tables s)
    (inputs : List (ScriptStep ρ))
    : (Runs.run (scriptStep tables) s inputs).changeLog
        = (Runs.run (scriptStep tables) s inputs).written
      ↔ s.changeLog = s.written ∧ Runs.Along (scriptStep tables) NotBetween s inputs := by
  induction inputs generalizing s with
  | nil => simp [Runs.Along]
  | cons input rest ih =>
      rw [Runs.run_cons, ih (consistent.step input), consistent.complete_iff, and_assoc]
      rfl

end

/-- Every write to a watched table is in the change log exactly once when the scripts are
reinstalled, exactly when no write comes between the `DROP` and the `CREATE` of its trigger.
-/
theorem reinstall_complete_iff (tables : List GoString) (inputs : List (ScriptStep ρ))
    : (Runs.run (scriptStep tables) (.start tables) inputs).changeLog
        = (Runs.run (scriptStep tables) (.start tables) inputs).written
      ↔ Runs.Along (scriptStep tables) NotBetween (.start tables) inputs := by
  rw [(scriptConsistent_start tables).run_complete_iff]
  exact and_iff_right rfl

/-- The sixth statement drops the insert trigger; an insert right after it is lost. -/
theorem not_reinstall_complete_insert
    : (Runs.run (scriptStep [.lit "books"]) (.start [.lit "books"])
          (List.replicate 6 .statement ++ [.write ⟨.lit "books", .insert, 1⟩]
            ++ List.replicate 3 .statement)).changeLog.map AppWrite.image = []
      ∧ (Runs.run (scriptStep [.lit "books"]) (.start [.lit "books"])
          (List.replicate 6 .statement ++ [.write ⟨.lit "books", .insert, 1⟩]
            ++ List.replicate 3 .statement)).written.map AppWrite.image = [1]
      ∧ (Runs.run (scriptStep (ρ := Nat) [.lit "books"]) (.start [.lit "books"])
          (List.replicate 9 .statement)).left = [] := by
  refine ⟨?_, ?_, ?_⟩ <;> decide +kernel

end HarmonyLite
