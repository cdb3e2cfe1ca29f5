import CrossOver.Engine.Mysql.Answers
import CrossOver.Engine.Mysql.Transaction

/-!
# Queries inserted in front of the queue

`InsertFristQuery` puts a query in front of whatever is queued, which may be the
rest of a group whose begin has been worked off already.  The query is then
executed inside the transaction of the group, or skipped with it.

A statement remembers how it came in; the connection does not look at that.
`Apart` speaks of the calls into libmysql and of the session they act on.
-/

namespace CrossOver.Engine.Mysql

inductive Origin (Statement : Type) where
  | added (stmt : Statement)
  | inserted (stmt : Statement)
  deriving DecidableEq, Repr

variable {Statement : Type}

def MysqlCall.inserted : MysqlCall (Origin Statement) → Option Statement
  | .execute (.inserted stmt) _ => some stmt
  | _ => none

def AsyncQuery.inserted : AsyncQuery (Origin Statement) → Option Statement
  | .query _ (.inserted stmt) _ => some stmt
  | _ => none

/-- Inserted statements are executed with no transaction open, and no rollback
follows them. -/
def Apart (calls : List (MysqlCall (Origin Statement))) : Prop :=
  ∀ before stmt isSuccess after, calls = before ++ .execute (.inserted stmt) isSuccess :: after →
    (Session.after before).autocommit = true ∧ (Session.after before).pending = [] ∧
      after.head? ≠ some .rollback

namespace Connection

variable (execute : Origin Statement → Bool)

namespace Action

/-- The same step with a statement that remembers how it came in. -/
def tagged : Action Statement → Action (Origin Statement)
  | .addQuery stmt handler flag => .addQuery (.added stmt) handler flag
  | .insertFristQuery stmt handler => .insertFristQuery (.inserted stmt) handler
  | .ping => .ping
  | .pop => .pop

def inserts : Action Statement → Option Statement
  | .insertFristQuery stmt _ => some stmt
  | _ => none

/-- No inserted query is popped while a group is open or being skipped. -/
def Clear (c : Connection (Origin Statement)) : Action Statement → Prop
  | .pop =>
      match c.queryList with
      | .query _ (.inserted _) _ :: _ => c.flag = .none
      | _ => True
  | _ => True

end Action

def afterTagged (c : Connection (Origin Statement)) (actions : List (Action Statement)) :
    Connection (Origin Statement) :=
  afterActions execute c (actions.map Action.tagged)

def AllClear (c : Connection (Origin Statement)) : List (Action Statement) → Prop
  | [] => True
  | action :: rest => action.Clear c ∧ AllClear (action.tagged.apply execute c) rest

/-- The inserted statements that were executed, and those that are queued. -/
def jumped (c : Connection (Origin Statement)) : List Statement :=
  c.calls.filterMap MysqlCall.inserted ++ c.queryList.filterMap AsyncQuery.inserted

/-- `flag_` tells whether a transaction is open in the session. -/
structure Matches {Statement : Type} (c : Connection Statement) : Prop where
  opened : c.flag = .begin → (Session.after c.calls).autocommit = false
  closed : c.flag ≠ .begin →
    (Session.after c.calls).autocommit = true ∧ (Session.after c.calls).pending = []
  known : c.flag = .none ∨ c.flag = .begin ∨ c.flag = .rollback

end Connection

theorem Apart.append {calls made : List (MysqlCall (Origin Statement))} (apart : Apart calls)
    (others : ∀ call ∈ made, call.inserted = none) (quiet : made.head? ≠ some .rollback) :
    Apart (calls ++ made) := by
  intro before stmt isSuccess after split
  rcases List.append_eq_append_iff.mp split with ⟨more, beforeEq, madeEq⟩ | ⟨more, callsEq, afterEq⟩
  · have among : MysqlCall.execute (.inserted stmt) isSuccess ∈ made := by
      rw [madeEq]
      exact List.mem_append_right _ List.mem_cons_self
    exact absurd (others _ among) (Option.some_ne_none stmt)
  · cases more with
    | nil =>
        have among : MysqlCall.execute (.inserted stmt) isSuccess ∈ made := by
          rw [List.nil_append] at afterEq
          rw [← afterEq]
          exact List.mem_cons_self
        exact absurd (others _ among) (Option.some_ne_none stmt)
    | cons call later =>
        obtain ⟨rfl, rfl⟩ := List.cons.inj afterEq
        obtain ⟨autocommit, pending, head⟩ := apart before stmt isSuccess later callsEq
        refine ⟨autocommit, pending, ?_⟩
        cases later with
        | nil => exact quiet
        | cons first rest => exact head

theorem Apart.inserted {calls : List (MysqlCall (Origin Statement))} (apart : Apart calls)
    (autocommit : (Session.after calls).autocommit = true)
    (pending : (Session.after calls).pending = []) (stmt : Statement) (isSuccess : Bool) :
    Apart (calls ++ [.execute (.inserted stmt) isSuccess]) := by
  intro before other otherSuccess after split
  rcases List.append_eq_append_iff.mp split with ⟨more, rfl, madeEq⟩ | ⟨more, rfl, afterEq⟩
  · obtain ⟨rfl, last⟩ := List.singleton_eq_append_iff.mp madeEq |>.elim id fun wrong => by
      cases wrong.2
    obtain ⟨-, rfl⟩ := List.cons.inj last
    rw [List.append_nil]
    exact ⟨autocommit, pending, nofun⟩
  · cases more with
    | nil =>
        obtain ⟨-, rfl⟩ := List.cons.inj afterEq
        rw [List.append_nil] at autocommit pending
        exact ⟨autocommit, pending, nofun⟩
    | cons call later =>
        obtain ⟨rfl, rfl⟩ := List.cons.inj afterEq
        obtain ⟨earlier, nothing, head⟩ := apart before other otherSuccess later rfl
        refine ⟨earlier, nothing, ?_⟩
        cases later with
        | nil => exact nofun
        | cons first rest => exact head

theorem Apart.of_append {calls made : List (MysqlCall (Origin Statement))}
    (apart : Apart (calls ++ made)) : Apart calls := by
  intro before stmt isSuccess after split
  obtain ⟨autocommit, pending, head⟩ := apart before stmt isSuccess (after ++ made) (by
    rw [split, List.append_assoc, List.cons_append])
  refine ⟨autocommit, pending, ?_⟩
  cases after with
  | nil => exact nofun
  | cons first rest => exact head

namespace Connection

/-! ## One query -/

section RunQuery

variable (execute : Statement → Bool) (c : Connection Statement) (flag : DBTransactionFlag)
  (stmt : Statement) (handler : HandleInfo)

/-- The calls that a query leads to execute its own statement at most, and do
not begin with a rollback. -/
theorem runQuery_made : ∃ made,
    (runQuery execute c (.query flag stmt handler)).calls = c.calls ++ made ∧
      made.head? ≠ some .rollback ∧
      ∀ other isSuccess, .execute other isSuccess ∈ made → other = stmt := by
  by_cases skipping : c.flag = .rollback
  · refine ⟨[], ?_, nofun, fun _ _ membership => absurd membership List.not_mem_nil⟩
    simp only [runQuery, if_pos skipping, List.append_nil]
    split <;> rfl
  · cases outcome : execute stmt <;> by_cases begins : flag = .begin <;>
      by_cases commits : flag = .commit <;> by_cases opened : c.flag = .begin <;>
      simp [runQuery, executeQuery, beginTransaction, rollbackTransaction, commitTransaction, call,
        pushTask, skipping, outcome, begins, commits, opened]

theorem runQuery_matches (agrees : c.Matches) :
    (runQuery execute c (.query flag stmt handler)).Matches := by
  obtain ⟨opened, closed, known⟩ := agrees
  rcases known with none | begun | skipping
  · obtain ⟨autocommit, pending⟩ := closed (by rw [none]; decide)
    cases outcome : execute stmt <;> by_cases begins : flag = .begin <;>
      by_cases commits : flag = .commit <;> constructor <;>
      simp [runQuery, executeQuery, beginTransaction, rollbackTransaction, commitTransaction, call,
        pushTask, none, outcome, begins, commits, session_append, Session.apply, autocommit,
        pending]
  · have manual := opened begun
    cases outcome : execute stmt <;> by_cases begins : flag = .begin <;>
      by_cases commits : flag = .commit <;> constructor <;>
      simp [runQuery, executeQuery, beginTransaction, rollbackTransaction, commitTransaction, call,
        pushTask, begun, outcome, begins, commits, session_append, Session.apply, manual]
  · obtain ⟨autocommit, pending⟩ := closed (by rw [skipping]; decide)
    by_cases commits : flag = .commit <;> constructor <;>
      simp [runQuery, skipping, commits, autocommit, pending]

end RunQuery

/-! ## One step -/

variable (execute : Origin Statement → Bool) {c : Connection (Origin Statement)}

/-- What holds of a running connection whose inserted queries came in as such. -/
structure Standing (c : Connection (Origin Statement)) : Prop where
  running : c.isRunning = true
  agrees : c.Matches
  plain : ∀ flag stmt handler, .query flag (.inserted stmt) handler ∈ c.queryList → flag = .none

/-- A step that keeps inserted statements apart and loses none. -/
def Passes (c c' : Connection (Origin Statement)) (inserts : List Statement) : Prop :=
  (Apart c.calls → Apart c'.calls) ∧ c'.jumped.Perm (c.jumped ++ inserts)

/-- A step that puts an inserted statement into a transaction or loses it. -/
def Spoils (c c' : Connection (Origin Statement)) (inserts : List Statement) : Prop :=
  ¬Apart c'.calls ∨ c'.jumped.length < (c.jumped ++ inserts).length

theorem Standing.activated : (Connection.activated : Connection (Origin Statement)).Standing where
  running := rfl
  agrees := ⟨nofun, fun _ => ⟨rfl, rfl⟩, Or.inl rfl⟩
  plain := fun _ _ _ membership => absurd membership List.not_mem_nil

/-- Queueing something changes neither the calls nor the flag. -/
theorem Standing.queue (standing : c.Standing) {queue : List (AsyncQuery (Origin Statement))}
    (plain : ∀ flag stmt handler, .query flag (.inserted stmt) handler ∈ queue → flag = .none) :
    ({ c with queryList := queue } : Connection (Origin Statement)).Standing :=
  ⟨standing.running, ⟨standing.agrees.opened, standing.agrees.closed, standing.agrees.known⟩,
    plain⟩

theorem Standing.queueBehind (standing : c.Standing) (q : AsyncQuery (Origin Statement))
    (other : q.inserted = none) :
    ({ c with queryList := c.queryList ++ [q] } : Connection (Origin Statement)).Standing ∧
      Passes c { c with queryList := c.queryList ++ [q] } [] := by
  refine ⟨standing.queue fun flag stmt handler membership => ?_, id, ?_⟩
  · rcases List.mem_append.mp membership with old | new
    · exact standing.plain flag stmt handler old
    · rw [← List.mem_singleton.mp new] at other
      cases other
  · unfold jumped
    rw [List.append_nil, List.filterMap_append, List.filterMap_cons_none other,
      List.filterMap_nil, List.append_nil]

theorem popPing {rest : List (AsyncQuery (Origin Statement))} (queue : c.queryList = .ping :: rest) :
    Passes c (c.pop execute) [] := by
  have popped : c.pop execute = { c with queryList := rest, calls := c.calls ++ [.ping] } := by
    rw [pop, queue]
    rfl
  rw [popped]
  constructor
  · intro apart
    refine apart.append (fun call membership => ?_) (by simp)
    rw [List.mem_singleton.mp membership]
    rfl
  · rw [jumped, jumped, queue, List.filterMap_append]
    simp [MysqlCall.inserted, AsyncQuery.inserted, List.filterMap_cons]

/-- The thread works on a query that was not inserted. -/
theorem popAdded {flag : DBTransactionFlag} {stmt : Statement}
    {handler : HandleInfo} {rest : List (AsyncQuery (Origin Statement))}
    (queue : c.queryList = .query flag (.added stmt) handler :: rest) :
    Passes c (c.pop execute) [] := by
  obtain ⟨made, calls, quiet, own⟩ :=
    runQuery_made execute { c with queryList := rest } flag (.added stmt) handler
  have popped : c.pop execute =
      runQuery execute { c with queryList := rest } (.query flag (.added stmt) handler) := by
    rw [pop, queue]
  have others : ∀ call ∈ made, call.inserted = none := by
    intro call membership
    cases call with
    | execute other isSuccess =>
        rw [own other isSuccess membership]
        rfl
    | _ => rfl
  have queueAfter : (c.pop execute).queryList = rest := by
    rw [popped, runQuery_queryList]
  have callsAfter : (c.pop execute).calls = c.calls ++ made := by rw [popped, calls]
  refine ⟨fun apart => ?_, ?_⟩
  · rw [callsAfter]
    exact apart.append others quiet
  · unfold jumped
    rw [callsAfter, queueAfter, queue, List.append_nil, List.filterMap_append,
      List.filterMap_eq_nil_iff.mpr others, List.append_nil]
    rfl

/-- The thread works on an inserted query with no group open. -/
theorem Standing.popInserted (standing : c.Standing) {stmt : Statement} {handler : HandleInfo}
    {rest : List (AsyncQuery (Origin Statement))}
    (queue : c.queryList = .query .none (.inserted stmt) handler :: rest) :
    (c.flag = .none → Passes c (c.pop execute) []) ∧
      (c.flag ≠ .none → Spoils c (c.pop execute) []) ∧
      (c.pop execute).jumped.length ≤ c.jumped.length := by
  have popped : c.pop execute =
      runQuery execute { c with queryList := rest } (.query .none (.inserted stmt) handler) := by
    rw [pop, queue]
  have queueAfter : (c.pop execute).queryList = rest := by
    rw [popped, runQuery_queryList]
  have before : c.jumped = c.calls.filterMap MysqlCall.inserted ++
      stmt :: rest.filterMap AsyncQuery.inserted := by
    rw [jumped, queue]
    rfl
  rcases standing.agrees.known with none | begun | skipping
  · have calls : (c.pop execute).calls =
        c.calls ++ [.execute (.inserted stmt) (execute (.inserted stmt))] := by
      have idle : ({ c with queryList := rest } : Connection (Origin Statement)).flag = .none := none
      rw [popped, (runQuery_idle execute .none (.inserted stmt) handler idle (by decide)).2]
      simp
    have same : (c.pop execute).jumped = c.jumped := by
      rw [before, jumped, calls, queueAfter, List.filterMap_append]
      simp [MysqlCall.inserted]
    refine ⟨fun _ => ⟨fun apart => ?_, ?_⟩, fun other => absurd none other, ?_⟩
    · obtain ⟨autocommit, pending⟩ := standing.agrees.closed (by rw [none]; decide)
      rw [calls]
      exact apart.inserted autocommit pending stmt _
    · rw [same, List.append_nil]
    · exact Nat.le_of_eq (congrArg List.length same)
  · have calls : (c.pop execute).calls = c.calls ++ (if execute (.inserted stmt)
        then [.execute (.inserted stmt) true]
        else [.execute (.inserted stmt) false, .rollback, .autocommit true]) := by
      have opened : ({ c with queryList := rest } : Connection (Origin Statement)).flag = .begin :=
        begun
      rw [popped,
        (runQuery_open execute .none (.inserted stmt) handler opened (by decide) (by decide)).2]
    refine ⟨fun none => absurd (begun.symm.trans none) (by decide),
      fun _ => Or.inl fun apart => ?_, ?_⟩
    · have manual := standing.agrees.opened begun
      obtain ⟨after, split⟩ : ∃ after, (c.pop execute).calls =
          c.calls ++ .execute (.inserted stmt) (execute (.inserted stmt)) :: after := by
        rw [calls]
        cases execute (.inserted stmt) with
        | true => exact ⟨_, rfl⟩
        | false => exact ⟨_, rfl⟩
      have autocommit := (apart _ _ _ _ split).1
      rw [manual] at autocommit
      cases autocommit
    · rw [before, jumped, calls, queueAfter]
      cases execute (.inserted stmt) <;> simp [MysqlCall.inserted, List.filterMap_cons]
  · have calls : (c.pop execute).calls = c.calls := by
      have skips : ({ c with queryList := rest } : Connection (Origin Statement)).flag = .rollback :=
        skipping
      rw [popped, (runQuery_skip execute .none (.inserted stmt) handler skips).2]
    have fewer : (c.pop execute).jumped.length < c.jumped.length := by
      rw [before, jumped, calls, queueAfter, List.length_append, List.length_append,
        List.length_cons]
      omega
    refine ⟨fun none => absurd (skipping.symm.trans none) (by decide), fun _ => Or.inr ?_,
      Nat.le_of_lt fewer⟩
    rw [List.append_nil]
    exact fewer

/-- What one step does to the inserted statements. -/
structure Fate (c c' : Connection (Origin Statement)) (clear : Prop) (inserts : List Statement) :
    Prop where
  standing : c'.Standing
  grows : ∃ made, c'.calls = c.calls ++ made
  passes : clear → Passes c c' inserts
  spoils : ¬clear → Spoils c c' inserts
  bound : c'.jumped.length ≤ (c.jumped ++ inserts).length

/-- A step at which nothing can go wrong. -/
theorem Fate.of_passes {c' : Connection (Origin Statement)} {clear : Prop}
    {inserts : List Statement} (holds : clear) (standing : c'.Standing)
    (grows : ∃ made, c'.calls = c.calls ++ made) (passes : Passes c c' inserts) :
    Fate c c' clear inserts :=
  ⟨standing, grows, fun _ => passes, fun wrong => absurd holds wrong,
    Nat.le_of_eq passes.2.length_eq⟩

theorem Standing.pop_standing (standing : c.Standing) :
    (c.pop execute).Standing ∧ ∃ made, (c.pop execute).calls = c.calls ++ made := by
  cases queue : c.queryList with
  | nil =>
      rw [pop, queue]
      exact ⟨standing, [], (List.append_nil _).symm⟩
  | cons q rest =>
      have popped : c.pop execute = runQuery execute { c with queryList := rest } q := by
        rw [pop, queue]
      have fewer : ({ c with queryList := rest } : Connection (Origin Statement)).Standing :=
        standing.queue fun flag stmt handler membership =>
          standing.plain flag stmt handler (by rw [queue]; exact List.mem_cons_of_mem _ membership)
      have running := (runQuery_isRunning execute { c with queryList := rest } q).trans
        standing.running
      have queueAfter : (runQuery execute { c with queryList := rest } q).queryList = rest := by
        rw [runQuery_queryList]
      have plain := fewer.plain
      rw [popped]
      cases q with
      | ping =>
          refine ⟨⟨running, ?_, plain⟩, _, rfl⟩
          constructor <;>
            simp only [runQuery, call, session_append, List.foldl_cons, List.foldl_nil,
              Session.apply]
          · exact standing.agrees.opened
          · exact standing.agrees.closed
          · exact standing.agrees.known
      | query flag stmt handler =>
          refine ⟨⟨running, runQuery_matches _ _ _ _ _ fewer.agrees, ?_⟩, ?_⟩
          · rw [queueAfter]
            exact plain
          · obtain ⟨made, calls, -⟩ :=
              runQuery_made execute { c with queryList := rest } flag stmt handler
            exact ⟨made, calls⟩

/-- Nothing can go wrong at a query that was not inserted. -/
theorem clear_pop (ordinary : ∀ q ∈ c.queryList.head?, q.inserted = none) :
    (Action.pop : Action Statement).Clear c := by
  unfold Action.Clear
  dsimp only
  split
  · next queue =>
      have inserted := ordinary _ (by rw [queue]; rfl)
      cases inserted
  · trivial

theorem Standing.popFate (standing : c.Standing) :
    Fate c (c.pop execute) ((Action.pop : Action Statement).Clear c) [] := by
  obtain ⟨after, grows⟩ := standing.pop_standing execute
  cases queue : c.queryList with
  | nil =>
      have same : c.pop execute = c := by rw [pop, queue]
      refine .of_passes (clear_pop (by simp [queue])) after grows ?_
      rw [same]
      exact ⟨id, by rw [List.append_nil]⟩
  | cons q rest =>
      cases q with
      | ping =>
          exact .of_passes (clear_pop (by simp [queue, AsyncQuery.inserted])) after grows
            (popPing execute queue)
      | query flag origin handler =>
          cases origin with
          | added stmt =>
              exact .of_passes (clear_pop (by simp [queue, AsyncQuery.inserted])) after grows
                (popAdded execute queue)
          | inserted stmt =>
              have clear : (Action.pop : Action Statement).Clear c ↔ c.flag = .none := by
                unfold Action.Clear
                rw [queue]
              obtain rfl := standing.plain flag stmt handler (by
                rw [queue]
                exact List.mem_cons_self)
              obtain ⟨passes, spoils, bound⟩ := standing.popInserted execute queue
              refine ⟨after, grows, fun isClear => passes (clear.mp isClear),
                fun wrong => spoils fun none => wrong (clear.mpr none), ?_⟩
              rw [List.append_nil]
              exact bound

theorem Standing.fate (standing : c.Standing) (action : Action Statement) :
    Fate c (action.tagged.apply execute c) (action.Clear c) action.inserts.toList := by
  cases action with
  | addQuery stmt handler flag =>
      have added : Action.apply execute c (Action.addQuery stmt handler flag).tagged =
          if flag = .rollback then c
          else { c with queryList := c.queryList ++ [.query flag (.added stmt) handler] } := by
        change c.addQuery (.added stmt) handler flag = _
        rw [addQuery, standing.running, if_neg (by decide)]
      rw [added]
      split
      · exact .of_passes trivial standing ⟨[], (List.append_nil _).symm⟩
          ⟨id, List.Perm.of_eq (List.append_nil c.jumped).symm⟩
      · obtain ⟨after, passes⟩ := standing.queueBehind
          (q := .query flag (.added stmt) handler) rfl
        exact .of_passes trivial after ⟨[], (List.append_nil _).symm⟩ passes
  | insertFristQuery stmt handler =>
      have front : Action.apply execute c (Action.insertFristQuery stmt handler).tagged =
          { c with queryList := .query .none (.inserted stmt) handler :: c.queryList } := by
        change c.insertFristQuery (.inserted stmt) handler = _
        rw [insertFristQuery, standing.running, if_neg (by decide)]
      rw [front]
      refine .of_passes trivial (standing.queue fun flag other otherHandler membership => ?_)
        ⟨[], (List.append_nil _).symm⟩ ⟨id, ?_⟩
      · rcases List.mem_cons.mp membership with new | old
        · cases new
          rfl
        · exact standing.plain flag other otherHandler old
      · have moved : (c.calls.filterMap MysqlCall.inserted ++
            stmt :: c.queryList.filterMap AsyncQuery.inserted).Perm
            ((c.calls.filterMap MysqlCall.inserted ++
              c.queryList.filterMap AsyncQuery.inserted) ++ [stmt]) :=
          List.perm_middle.trans (List.perm_append_singleton _ _).symm
        exact moved
  | ping =>
      obtain ⟨after, passes⟩ := standing.queueBehind .ping rfl
      exact .of_passes trivial after ⟨[], (List.append_nil _).symm⟩ passes
  | pop => exact standing.popFate execute

/-! ## Whole runs -/

theorem Standing.run (standing : c.Standing) (actions : List (Action Statement)) :
    Fate c (afterTagged execute c actions) (AllClear execute c actions)
      (actions.filterMap Action.inserts) := by
  induction actions generalizing c with
  | nil => exact .of_passes trivial standing ⟨[], (List.append_nil _).symm⟩ ⟨id, by
      rw [List.filterMap_nil, List.append_nil]
      rfl⟩
  | cons action rest inductionHypothesis =>
      have first := standing.fate execute action
      have later := inductionHypothesis first.standing
      have inserted : (action :: rest).filterMap Action.inserts =
          action.inserts.toList ++ rest.filterMap Action.inserts := by
        rw [List.filterMap_cons]
        cases action.inserts <;> rfl
      obtain ⟨made, calls⟩ := first.grows
      obtain ⟨more, moreCalls⟩ := later.grows
      have lengths := later.bound
      have firstLength := first.bound
      rw [List.length_append] at lengths firstLength
      rw [inserted]
      refine ⟨later.standing, ⟨made ++ more, ?_⟩, ?_, ?_, ?_⟩
      · rw [← List.append_assoc, ← calls]
        exact moreCalls
      · rintro ⟨clear, restClear⟩
        obtain ⟨apart, jumped⟩ := first.passes clear
        obtain ⟨restApart, restJumped⟩ := later.passes restClear
        refine ⟨fun before => restApart (apart before), restJumped.trans ?_⟩
        rw [← List.append_assoc]
        exact jumped.append_right _
      · intro wrong
        by_cases clear : action.Clear c
        · have restWrong := later.spoils fun restClear => wrong ⟨clear, restClear⟩
          refine restWrong.imp id fun fewer => ?_
          have same := (first.passes clear).2.length_eq
          rw [List.length_append] at same fewer
          rw [List.length_append, List.length_append]
          exact Nat.lt_of_lt_of_le fewer (by omega)
        · rcases first.spoils clear with joined | fewer
          · refine Or.inl fun apart => joined ?_
            exact Apart.of_append (moreCalls ▸ apart)
          · refine Or.inr ?_
            rw [List.length_append] at fewer
            rw [List.length_append, List.length_append]
            exact Nat.lt_of_le_of_lt lengths (by omega)
      · rw [List.length_append, List.length_append]
        exact Nat.le_trans lengths (by omega)

/-- Inserted statements are executed outside of every transaction, and none is
skipped, if and only if none is popped while a group is open or being skipped. -/
theorem inserted_apart_iff (actions : List (Action Statement)) :
    (Apart (afterTagged execute activated actions).calls ∧
      (afterTagged execute activated actions).jumped.Perm (actions.filterMap Action.inserts)) ↔
      AllClear execute activated actions := by
  have fate := Standing.activated.run execute actions
  have start : Apart (activated : Connection (Origin Statement)).calls := by
    intro before stmt isSuccess after split
    exact absurd split.symm (List.append_ne_nil_of_right_ne_nil _ (List.cons_ne_nil _ _))
  constructor
  · rintro ⟨apart, jumped⟩
    by_contra wrong
    rcases fate.spoils wrong with joined | fewer
    · exact joined apart
    · exact absurd jumped.length_eq (Nat.ne_of_lt fewer)
  · intro clear
    obtain ⟨apart, jumped⟩ := fate.passes clear
    exact ⟨apart start, jumped⟩

/-- A group of two statements, with a third inserted when the first is done. -/
def intrusion : List (Action Nat) :=
  [.addQuery 0 ⟨1, 0⟩ .begin, .addQuery 1 ⟨2, 0⟩ .commit, .pop, .insertFristQuery 2 ⟨3, 0⟩, .pop,
    .pop]

/-- The inserted statement is executed inside the transaction, and rolled back
with it when the last statement fails. -/
theorem intrusion_joins_group :
    ¬Apart (afterTagged (fun stmt => stmt != .added 1) activated intrusion).calls ∧
      (afterTagged (fun stmt => stmt != .added 1) activated intrusion).calls =
        [.autocommit false, .execute (.added 0) true, .execute (.inserted 2) true,
          .execute (.added 1) false, .rollback, .autocommit true] := by
  have calls : (afterTagged (fun stmt => stmt != .added 1) activated intrusion).calls =
      [.autocommit false, .execute (.added 0) true, .execute (.inserted 2) true,
        .execute (.added 1) false, .rollback, .autocommit true] := by decide
  refine ⟨fun apart => ?_, calls⟩
  have inside := apart [.autocommit false, .execute (.added 0) true] 2 true
    [.execute (.added 1) false, .rollback, .autocommit true] calls
  exact absurd inside.1 (by decide)

end Connection

end CrossOver.Engine.Mysql
