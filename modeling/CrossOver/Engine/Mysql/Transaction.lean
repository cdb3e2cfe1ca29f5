import CrossOver.Engine.Mysql.Connection

/-!
# Transactions on one connection are all-or-nothing

A group is a run of queries from a `DB_TRANSACTION_BEGIN` to the next
`DB_TRANSACTION_COMMIT`.  In a queue where every begin has its commit, working
off a group either executes all of it and commits once, or stops at the first
failing statement with a rollback and skips the rest.  The state that carries
this between groups is `Idle`: no transaction flag, and the session in
autocommit mode with nothing pending.
-/

namespace CrossOver.Engine.Mysql

variable {Statement : Type}

namespace AsyncQuery

def IsBegin : AsyncQuery Statement → Prop
  | .ping => False
  | .query flag _ _ => flag = .begin

def IsCommit : AsyncQuery Statement → Prop
  | .ping => False
  | .query flag _ _ => flag = .commit

/-- Neither opens nor closes a transaction. -/
def IsPlain (q : AsyncQuery Statement) : Prop := ¬ q.IsBegin ∧ ¬ q.IsCommit

instance (q : AsyncQuery Statement) : Decidable q.IsBegin := by
  cases q <;> unfold IsBegin <;> infer_instance

instance (q : AsyncQuery Statement) : Decidable q.IsCommit := by
  cases q <;> unfold IsCommit <;> infer_instance

def succeeded : AsyncQuery Statement → MysqlCall Statement
  | .ping => .ping
  | .query _ stmt _ => .execute stmt true

def skipped : AsyncQuery Statement → List (MysqlCall Statement)
  | .ping => [.ping]
  | .query _ _ _ => []

def statements : AsyncQuery Statement → List Statement
  | .ping => []
  | .query _ stmt _ => [stmt]

end AsyncQuery

/-- Every begin is followed by a commit with no begin or other commit between. -/
def WellBracketed (queue : List (AsyncQuery Statement)) : Prop :=
  ∀ before first after, queue = before ++ first :: after → first.IsBegin →
    ∃ middle last rest, after = middle ++ last :: rest ∧ last.IsCommit ∧
      ∀ q ∈ middle, q.IsPlain

/-- A begin, statements and pings, and the commit. -/
def IsGroup (group : List (AsyncQuery Statement)) : Prop :=
  ∃ first middle last, group = first :: (middle ++ [last]) ∧ first.IsBegin ∧ last.IsCommit ∧
    ∀ q ∈ middle, q.IsPlain

/-- Every begin among the queries has a commit after it. -/
def Closed (queries : List (AsyncQuery Statement)) : Prop :=
  ∀ earlier first between, queries = earlier ++ first :: between → first.IsBegin →
    ∃ last ∈ between, last.IsCommit

/-- All of the queries were executed with success and one commit follows the last. -/
def SucceededRest (execute : Statement → Bool) (queries : List (AsyncQuery Statement))
    (made : List (MysqlCall Statement)) : Prop :=
  (∀ stmt ∈ queries.flatMap AsyncQuery.statements, execute stmt = true) ∧
    made = queries.map AsyncQuery.succeeded ++ [.commit, .autocommit true]

/-- The first failing statement is followed at once by a rollback, and the
queries behind it are skipped. -/
def FailedRest (execute : Statement → Bool) (queries : List (AsyncQuery Statement))
    (made : List (MysqlCall Statement)) : Prop :=
  ∃ done flag stmt handler rest, queries = done ++ .query flag stmt handler :: rest ∧
    (∀ earlier ∈ done.flatMap AsyncQuery.statements, execute earlier = true) ∧
    execute stmt = false ∧
    made = done.map AsyncQuery.succeeded ++
      [.execute stmt false, .rollback, .autocommit true] ++ rest.flatMap AsyncQuery.skipped

theorem SucceededRest.cons {execute : Statement → Bool} {queries : List (AsyncQuery Statement)}
    {made : List (MysqlCall Statement)} {q : AsyncQuery Statement} {first : MysqlCall Statement}
    (call : first = q.succeeded) (success : ∀ stmt ∈ q.statements, execute stmt = true)
    (tail : SucceededRest execute queries made) :
    SucceededRest execute (q :: queries) (first :: made) := by
  obtain ⟨successes, madeEq⟩ := tail
  constructor
  · intro stmt membership
    rw [List.flatMap_cons, List.mem_append] at membership
    exact membership.elim (success stmt) (successes stmt)
  · rw [madeEq, call]
    rfl

theorem FailedRest.cons {execute : Statement → Bool} {queries : List (AsyncQuery Statement)}
    {made : List (MysqlCall Statement)} {q : AsyncQuery Statement} {first : MysqlCall Statement}
    (call : first = q.succeeded) (success : ∀ stmt ∈ q.statements, execute stmt = true)
    (tail : FailedRest execute queries made) :
    FailedRest execute (q :: queries) (first :: made) := by
  obtain ⟨done, flag, stmt, handler, rest, split, successes, failure, madeEq⟩ := tail
  refine ⟨q :: done, flag, stmt, handler, rest, by rw [split]; rfl, ?_, failure, ?_⟩
  · intro earlier membership
    rw [List.flatMap_cons, List.mem_append] at membership
    exact membership.elim (success earlier) (successes earlier)
  · rw [madeEq, call]
    rfl

def Committed (execute : Statement → Bool) (group : List (AsyncQuery Statement))
    (made : List (MysqlCall Statement)) : Prop :=
  ∃ rest, made = .autocommit false :: rest ∧ SucceededRest execute group rest

/-- Some statement of the group failed and a rollback follows it at once. -/
def RolledBack (execute : Statement → Bool) (group : List (AsyncQuery Statement))
    (made : List (MysqlCall Statement)) : Prop :=
  ∃ rest, made = .autocommit false :: rest ∧ FailedRest execute group rest

namespace Connection

variable (execute : Statement → Bool)

/-- No transaction is open on the connection or in its session. -/
structure Idle (c : Connection Statement) : Prop where
  flag : c.flag = .none
  autocommit : (Session.after c.calls).autocommit = true
  pending : (Session.after c.calls).pending = []

theorem session_append (calls more : List (MysqlCall Statement)) :
    Session.after (calls ++ more) = more.foldl Session.apply (Session.after calls) := by
  simp [Session.after]

theorem activated_idle : (activated : Connection Statement).Idle := ⟨rfl, rfl, rfl⟩

/-- Executing a list of statements with success inside a transaction. -/
theorem succeeded_pending (queries : List (AsyncQuery Statement)) (s : Session Statement)
    (manual : s.autocommit = false) :
    (queries.map AsyncQuery.succeeded).foldl Session.apply s =
      { s with pending := s.pending ++ queries.flatMap AsyncQuery.statements } := by
  induction queries generalizing s with
  | nil => simp
  | cons q rest inductionHypothesis =>
      cases q with
      | ping =>
          simp only [List.map_cons, List.foldl_cons, AsyncQuery.succeeded, Session.apply,
            List.flatMap_cons, AsyncQuery.statements, List.nil_append]
          exact inductionHypothesis s manual
      | query flag stmt handler =>
          simp only [List.map_cons, List.foldl_cons, AsyncQuery.succeeded, Session.apply, manual,
            Bool.false_eq_true, if_false, List.flatMap_cons, AsyncQuery.statements]
          rw [inductionHypothesis _ rfl]
          simp

theorem skipped_session (queries : List (AsyncQuery Statement)) (s : Session Statement) :
    (queries.flatMap AsyncQuery.skipped).foldl Session.apply s = s := by
  induction queries with
  | nil => rfl
  | cons q rest inductionHypothesis =>
      cases q <;> simpa [AsyncQuery.skipped, Session.apply] using inductionHypothesis

section RunQuery

variable {c : Connection Statement} (flag : DBTransactionFlag) (stmt : Statement)
  (handler : HandleInfo)

theorem runQuery_open (opened : c.flag = .begin) (notBegin : flag ≠ .begin)
    (notCommit : flag ≠ .commit) :
    (runQuery execute c (.query flag stmt handler)).flag =
        (if execute stmt then .begin else .rollback) ∧
      (runQuery execute c (.query flag stmt handler)).calls =
        c.calls ++ (if execute stmt then [.execute stmt true]
          else [.execute stmt false, .rollback, .autocommit true]) := by
  cases outcome : execute stmt <;>
    simp [runQuery, executeQuery, outcome, opened, notBegin, notCommit, call, pushTask,
      rollbackTransaction]

/-- The last statement of an open transaction. -/
theorem runQuery_commit (opened : c.flag = .begin) :
    (runQuery execute c (.query .commit stmt handler)).flag = .none ∧
      (runQuery execute c (.query .commit stmt handler)).calls =
        c.calls ++ (if execute stmt then [.execute stmt true, .commit, .autocommit true]
          else [.execute stmt false, .rollback, .autocommit true]) := by
  cases outcome : execute stmt <;>
    simp [runQuery, executeQuery, outcome, opened, call, pushTask, rollbackTransaction,
      commitTransaction]

/-- The statement that opens a transaction. -/
theorem runQuery_begin (idle : c.flag = .none) :
    (runQuery execute c (.query .begin stmt handler)).flag =
        (if execute stmt then .begin else .rollback) ∧
      (runQuery execute c (.query .begin stmt handler)).calls =
        c.calls ++ .autocommit false :: (if execute stmt then [.execute stmt true]
          else [.execute stmt false, .rollback, .autocommit true]) := by
  cases outcome : execute stmt <;>
    simp [runQuery, executeQuery, outcome, idle, call, pushTask, beginTransaction,
      rollbackTransaction]

/-- A statement with no transaction open; a lone commit still commits. -/
theorem runQuery_idle (idle : c.flag = .none) (notBegin : flag ≠ .begin) :
    (runQuery execute c (.query flag stmt handler)).flag = .none ∧
      (runQuery execute c (.query flag stmt handler)).calls =
        c.calls ++ .execute stmt (execute stmt) ::
          (if execute stmt = true ∧ flag = .commit then [.commit, .autocommit true] else []) := by
  by_cases commit : flag = .commit <;> cases outcome : execute stmt <;>
    simp [runQuery, executeQuery, outcome, idle, notBegin, commit, call, pushTask,
      commitTransaction]

theorem runQuery_skip (skipping : c.flag = .rollback) :
    (runQuery execute c (.query flag stmt handler)).flag =
        (if flag = .commit then .none else .rollback) ∧
      (runQuery execute c (.query flag stmt handler)).calls = c.calls := by
  by_cases commit : flag = .commit <;> simp [runQuery, skipping, commit]

end RunQuery

theorem runQueries_skipped (middle : List (AsyncQuery Statement)) (last : AsyncQuery Statement)
    (c : Connection Statement) (skipping : c.flag = .rollback)
    (plain : ∀ q ∈ middle, q.IsPlain) (commit : last.IsCommit) :
    (runQueries execute c (middle ++ [last])).flag = .none ∧
      (runQueries execute c (middle ++ [last])).calls =
        c.calls ++ (middle ++ [last]).flatMap AsyncQuery.skipped := by
  induction middle generalizing c with
  | nil =>
      cases last with
      | ping => exact commit.elim
      | query flag stmt handler =>
          obtain rfl : flag = .commit := commit
          obtain ⟨nextFlag, nextCalls⟩ := runQuery_skip execute .commit stmt handler skipping
          constructor
          · simpa [runQueries] using nextFlag
          · simpa [runQueries, AsyncQuery.skipped] using nextCalls
  | cons q rest inductionHypothesis =>
      have restPlain : ∀ other ∈ rest, other.IsPlain :=
        fun other membership => plain other (List.mem_cons_of_mem q membership)
      cases q with
      | ping =>
          obtain ⟨finalFlag, finalCalls⟩ :=
            inductionHypothesis (c.call .ping) skipping restPlain
          constructor
          · exact finalFlag
          · calc (runQueries execute (c.call .ping) (rest ++ [last])).calls
                = (c.call .ping).calls ++ (rest ++ [last]).flatMap AsyncQuery.skipped := finalCalls
              _ = _ := by simp [call, AsyncQuery.skipped]
      | query flag stmt handler =>
          have notCommit : flag ≠ .commit := (plain _ List.mem_cons_self).2
          obtain ⟨nextFlag, nextCalls⟩ := runQuery_skip execute flag stmt handler skipping
          rw [if_neg notCommit] at nextFlag
          obtain ⟨finalFlag, finalCalls⟩ := inductionHypothesis _ nextFlag restPlain
          constructor
          · exact finalFlag
          · calc (runQueries execute (runQuery execute c (.query flag stmt handler))
                  (rest ++ [last])).calls
                = c.calls ++ (rest ++ [last]).flatMap AsyncQuery.skipped := by
                  rw [finalCalls, nextCalls]
              _ = _ := by simp [AsyncQuery.skipped]

/-- What is left of a group behind its begin, once that has succeeded. -/
theorem runQueries_open (middle : List (AsyncQuery Statement)) (last : AsyncQuery Statement)
    (c : Connection Statement) (opened : c.flag = .begin)
    (plain : ∀ q ∈ middle, q.IsPlain) (commit : last.IsCommit) :
    (runQueries execute c (middle ++ [last])).flag = .none ∧
      ∃ made, (runQueries execute c (middle ++ [last])).calls = c.calls ++ made ∧
        (SucceededRest execute (middle ++ [last]) made ∨
          FailedRest execute (middle ++ [last]) made) := by
  induction middle generalizing c with
  | nil =>
      cases last with
      | ping => exact commit.elim
      | query flag stmt handler =>
          obtain rfl : flag = .commit := commit
          obtain ⟨nextFlag, nextCalls⟩ := runQuery_commit execute stmt handler opened
          refine ⟨by simpa [runQueries] using nextFlag, _, by simpa [runQueries] using nextCalls, ?_⟩
          cases outcome : execute stmt with
          | true =>
              left
              simp [SucceededRest, AsyncQuery.statements, AsyncQuery.succeeded, outcome]
          | false =>
              right
              exact ⟨[], .commit, stmt, handler, [], rfl, by simp, outcome, by simp⟩
  | cons q rest inductionHypothesis =>
      have restPlain : ∀ other ∈ rest, other.IsPlain :=
        fun other membership => plain other (List.mem_cons_of_mem q membership)
      cases q with
      | ping =>
          obtain ⟨finalFlag, made, finalCalls, outcome⟩ :=
            inductionHypothesis (c.call .ping) opened restPlain
          refine ⟨finalFlag, .ping :: made, ?_, ?_⟩
          · calc (runQueries execute (c.call .ping) (rest ++ [last])).calls
                = (c.call .ping).calls ++ made := finalCalls
              _ = c.calls ++ .ping :: made := by simp [call]
          · exact outcome.imp (SucceededRest.cons rfl (by simp [AsyncQuery.statements]))
              (FailedRest.cons rfl (by simp [AsyncQuery.statements]))
      | query flag stmt handler =>
          obtain ⟨notBegin, notCommit⟩ := plain _ List.mem_cons_self
          obtain ⟨nextFlag, nextCalls⟩ :=
            runQuery_open execute flag stmt handler opened notBegin notCommit
          cases outcome : execute stmt with
          | true =>
              rw [outcome, if_pos rfl] at nextFlag nextCalls
              obtain ⟨finalFlag, made, finalCalls, ending⟩ :=
                inductionHypothesis _ nextFlag restPlain
              refine ⟨finalFlag, .execute stmt true :: made, ?_, ?_⟩
              · calc (runQueries execute (runQuery execute c (.query flag stmt handler))
                      (rest ++ [last])).calls
                    = c.calls ++ [.execute stmt true] ++ made := by rw [finalCalls, nextCalls]
                  _ = c.calls ++ .execute stmt true :: made := by simp
              · exact ending.imp
                  (SucceededRest.cons rfl (by simpa [AsyncQuery.statements] using outcome))
                  (FailedRest.cons rfl (by simpa [AsyncQuery.statements] using outcome))
          | false =>
              rw [outcome, if_neg Bool.false_ne_true] at nextFlag nextCalls
              obtain ⟨finalFlag, finalCalls⟩ :=
                runQueries_skipped execute rest last _ nextFlag restPlain commit
              refine ⟨finalFlag, _, ?_, Or.inr ⟨[], flag, stmt, handler, rest ++ [last], rfl,
                by simp, outcome, rfl⟩⟩
              calc (runQueries execute (runQuery execute c (.query flag stmt handler))
                    (rest ++ [last])).calls
                  = (c.calls ++ [.execute stmt false, .rollback, .autocommit true]) ++
                      (rest ++ [last]).flatMap AsyncQuery.skipped := by rw [finalCalls, nextCalls]
                _ = _ := by simp

theorem runQueries_group_calls (group : List (AsyncQuery Statement)) (isGroup : IsGroup group)
    (c : Connection Statement) (idle : c.flag = .none) :
    (runQueries execute c group).flag = .none ∧
      ∃ made, (runQueries execute c group).calls = c.calls ++ made ∧
        (Committed execute group made ∨ RolledBack execute group made) := by
  obtain ⟨first, middle, last, rfl, begins, commits, plain⟩ := isGroup
  cases first with
  | ping => exact begins.elim
  | query flag stmt handler =>
      obtain rfl : flag = .begin := begins
      obtain ⟨nextFlag, nextCalls⟩ := runQuery_begin execute stmt handler idle
      cases outcome : execute stmt with
      | true =>
          rw [outcome, if_pos rfl] at nextFlag nextCalls
          obtain ⟨finalFlag, made, finalCalls, ending⟩ :=
            runQueries_open execute middle last _ nextFlag plain commits
          have success : ∀ other ∈ (AsyncQuery.query .begin stmt handler).statements,
              execute other = true := by
            simpa [AsyncQuery.statements] using outcome
          refine ⟨finalFlag, .autocommit false :: .execute stmt true :: made, ?_, ?_⟩
          · calc (runQueries execute (runQuery execute c (.query .begin stmt handler))
                  (middle ++ [last])).calls
                = (c.calls ++ [.autocommit false, .execute stmt true]) ++ made := by
                  rw [finalCalls, nextCalls]
              _ = _ := by simp
          · exact ending.imp
              (fun succeeded => ⟨_, rfl, SucceededRest.cons rfl success succeeded⟩)
              (fun failed => ⟨_, rfl, FailedRest.cons rfl success failed⟩)
      | false =>
          rw [outcome, if_neg Bool.false_ne_true] at nextFlag nextCalls
          obtain ⟨finalFlag, finalCalls⟩ :=
            runQueries_skipped execute middle last _ nextFlag plain commits
          refine ⟨finalFlag, _, ?_, Or.inr ⟨_, rfl, [], .begin, stmt, handler, middle ++ [last],
            rfl, by simp, outcome, rfl⟩⟩
          calc (runQueries execute (runQuery execute c (.query .begin stmt handler))
                (middle ++ [last])).calls
              = (c.calls ++ [.autocommit false, .execute stmt false, .rollback,
                  .autocommit true]) ++ (middle ++ [last]).flatMap AsyncQuery.skipped := by
                rw [finalCalls, nextCalls]
            _ = _ := by simp

theorem committed_session {group : List (AsyncQuery Statement)} {made : List (MysqlCall Statement)}
    (committed : Committed execute group made) (s : Session Statement) (pending : s.pending = []) :
    made.foldl Session.apply s =
      { autocommit := true, pending := [],
        committed := s.committed ++ group.flatMap AsyncQuery.statements } := by
  obtain ⟨rest, rfl, -, rfl⟩ := committed
  rw [List.foldl_cons, List.foldl_append, succeeded_pending _ _ rfl]
  simp [Session.apply, pending]

theorem rolledBack_session {group : List (AsyncQuery Statement)}
    {made : List (MysqlCall Statement)} (rolledBack : RolledBack execute group made)
    (s : Session Statement) :
    made.foldl Session.apply s =
      { autocommit := true, pending := [], committed := s.committed } := by
  obtain ⟨rest, rfl, done, flag, stmt, handler, skipped, -, -, -, rfl⟩ := rolledBack
  rw [List.foldl_cons, List.foldl_append, List.foldl_append, succeeded_pending _ _ rfl,
    skipped_session]
  simp [Session.apply]

/-- A group is worked off as a whole or not at all. -/
structure AllOrNothing (group : List (AsyncQuery Statement)) (start finish : Connection Statement)
    (made : List (MysqlCall Statement)) : Prop where
  calls : finish.calls = start.calls ++ made
  idle : finish.Idle
  outcome :
    (Committed execute group made ∧
      (Session.after finish.calls).committed =
        (Session.after start.calls).committed ++ group.flatMap AsyncQuery.statements) ∨
    (RolledBack execute group made ∧
      (Session.after finish.calls).committed = (Session.after start.calls).committed)

theorem runQueries_group (group : List (AsyncQuery Statement)) (isGroup : IsGroup group)
    (c : Connection Statement) (idle : c.Idle) :
    ∃ made, AllOrNothing execute group c (runQueries execute c group) made := by
  obtain ⟨flag, made, calls, outcome⟩ := runQueries_group_calls execute group isGroup c idle.flag
  have session : Session.after (runQueries execute c group).calls =
      made.foldl Session.apply (Session.after c.calls) := by
    rw [calls, session_append]
  refine ⟨made, calls, ?_, ?_⟩
  · rcases outcome with committed | rolledBack
    · rw [committed_session execute committed _ idle.pending] at session
      exact ⟨flag, by rw [session], by rw [session]⟩
    · rw [rolledBack_session execute rolledBack] at session
      exact ⟨flag, by rw [session], by rw [session]⟩
  · rcases outcome with committed | rolledBack
    · rw [committed_session execute committed _ idle.pending] at session
      exact Or.inl ⟨committed, by rw [session]⟩
    · rw [rolledBack_session execute rolledBack] at session
      exact Or.inr ⟨rolledBack, by rw [session]⟩

/-- The calls of a query that is worked off with no transaction open. -/
def aloneCalls : AsyncQuery Statement → List (MysqlCall Statement)
  | .ping => [.ping]
  | .query flag stmt _ =>
      .execute stmt (execute stmt) ::
        (if execute stmt = true ∧ flag = .commit then [.commit, .autocommit true] else [])

theorem runQuery_alone (q : AsyncQuery Statement) (notBegin : ¬ q.IsBegin)
    (c : Connection Statement) (idle : c.Idle) :
    (runQuery execute c q).Idle ∧
      (runQuery execute c q).calls = c.calls ++ aloneCalls execute q := by
  obtain ⟨flag, autocommit, pending⟩ := idle
  cases q with
  | ping =>
      refine ⟨⟨flag, ?_, ?_⟩, rfl⟩
      · simpa [runQuery, call, session_append, Session.apply] using autocommit
      · simpa [runQuery, call, session_append, Session.apply] using pending
  | query queryFlag stmt handler =>
      obtain ⟨nextFlag, nextCalls⟩ := runQuery_idle execute queryFlag stmt handler flag notBegin
      refine ⟨⟨nextFlag, ?_, ?_⟩, nextCalls⟩
      all_goals
        rw [nextCalls, session_append]
        by_cases commit : queryFlag = .commit <;> cases outcome : execute stmt <;>
          simp [commit, Session.apply, autocommit, pending]

end Connection

section Brackets

variable {queue : List (AsyncQuery Statement)}

theorem not_isCommit_of_isBegin {q : AsyncQuery Statement} (begins : q.IsBegin) :
    ¬ q.IsCommit := by
  cases q with
  | ping => exact begins.elim
  | query flag stmt handler =>
      intro commits
      simp only [AsyncQuery.IsBegin, AsyncQuery.IsCommit] at begins commits
      rw [begins] at commits
      cases commits

theorem WellBracketed.suffix (before : List (AsyncQuery Statement))
    {after : List (AsyncQuery Statement)} (bracketed : WellBracketed (before ++ after)) :
    WellBracketed after := by
  intro earlier first later split begins
  exact bracketed (before ++ earlier) first later (by rw [split, List.append_assoc]) begins

theorem WellBracketed.nil : WellBracketed ([] : List (AsyncQuery Statement)) := by
  intro before first after split begins
  simp at split

theorem WellBracketed.cons {q : AsyncQuery Statement} {rest : List (AsyncQuery Statement)}
    (notBegin : ¬ q.IsBegin) (bracketed : WellBracketed rest) : WellBracketed (q :: rest) := by
  intro before first after split begins
  cases before with
  | nil =>
      obtain rfl : q = first := (List.cons.inj split).1
      exact absurd begins notBegin
  | cons head later =>
      exact bracketed later first after (List.cons.inj split).2 begins

theorem WellBracketed.group {group rest : List (AsyncQuery Statement)} (isGroup : IsGroup group)
    (bracketed : WellBracketed rest) : WellBracketed (group ++ rest) := by
  obtain ⟨first, middle, last, rfl, begins, commits, plain⟩ := isGroup
  have tail : WellBracketed (middle ++ (last :: rest)) := by
    induction middle with
    | nil => exact bracketed.cons fun closes => not_isCommit_of_isBegin closes commits
    | cons q later inductionHypothesis =>
        refine (inductionHypothesis ?_).cons (plain q List.mem_cons_self).1
        exact fun other membership => plain other (List.mem_cons_of_mem q membership)
  intro before opening after split opens
  cases before with
  | nil =>
      obtain ⟨rfl, rfl⟩ := List.cons.inj split
      exact ⟨middle, last, rest, by simp, commits, plain⟩
  | cons head later =>
      refine tail later opening after ?_ opens
      simpa using (List.cons.inj split).2

/-- A begin has no open begin before it. -/
theorem WellBracketed.closed_before_begin {before after : List (AsyncQuery Statement)}
    {first : AsyncQuery Statement} (bracketed : WellBracketed (before ++ first :: after))
    (begins : first.IsBegin) : Closed before := by
  intro earlier opening between split opens
  obtain ⟨middle, last, rest, tail, commits, plain⟩ :=
    bracketed earlier opening (between ++ first :: after) (by simp [split]) opens
  rcases List.append_eq_append_iff.mp tail with ⟨more, middleEq, lastEq⟩ | ⟨more, betweenEq, _⟩
  · cases more with
    | nil =>
        obtain rfl : first = last := (List.cons.inj lastEq).1
        exact absurd commits (not_isCommit_of_isBegin begins)
    | cons head tailMore =>
        obtain rfl : first = head := (List.cons.inj lastEq).1
        exact absurd begins (plain first (by simp [middleEq])).1
  · cases more with
    | nil =>
        have lastEq : last = first := by simp_all
        exact absurd (lastEq ▸ commits) (not_isCommit_of_isBegin begins)
    | cons head tailMore =>
        have lastEq : last = head := by simp_all
        exact ⟨head, by simp [betweenEq], lastEq ▸ commits⟩

/-- A prefix that leaves no begin open is bracketed by itself. -/
theorem WellBracketed.of_closed {before after : List (AsyncQuery Statement)}
    (bracketed : WellBracketed (before ++ after)) (closed : Closed before) :
    WellBracketed before := by
  intro earlier first later split begins
  obtain ⟨middle, last, rest, tail, commits, plain⟩ :=
    bracketed earlier first (later ++ after) (by simp [split]) begins
  obtain ⟨closing, membership, closes⟩ := closed earlier first later split begins
  rcases List.append_eq_append_iff.mp tail with ⟨more, middleEq, -⟩ | ⟨more, laterEq, restEq⟩
  · exact absurd closes (plain closing (by simp [middleEq, membership])).2
  · cases more with
    | nil =>
        simp only [List.append_nil] at laterEq
        exact absurd closes (plain closing (laterEq ▸ membership)).2
    | cons head tailMore =>
        obtain rfl : last = head := (List.cons.inj restEq).1
        exact ⟨middle, last, tailMore, laterEq, commits, plain⟩

end Brackets

namespace Connection

variable (execute : Statement → Bool)

/-- Working off a bracketed queue ends with no transaction open. -/
theorem runQueries_idle (queue : List (AsyncQuery Statement)) (c : Connection Statement)
    (idle : c.Idle) (bracketed : WellBracketed queue) : (runQueries execute c queue).Idle := by
  induction length : queue.length using Nat.strongRecOn generalizing queue c with
  | _ size inductionHypothesis =>
      cases queue with
      | nil => exact idle
      | cons q rest =>
          by_cases begins : q.IsBegin
          · obtain ⟨middle, last, later, rfl, commits, plain⟩ :=
              bracketed [] q rest rfl begins
            have isGroup : IsGroup (q :: (middle ++ [last])) :=
              ⟨q, middle, last, rfl, begins, commits, plain⟩
            obtain ⟨made, group⟩ := runQueries_group execute _ isGroup c idle
            have laterBracketed : WellBracketed later :=
              WellBracketed.suffix (q :: (middle ++ [last])) (by simpa using bracketed)
            have split : runQueries execute c (q :: (middle ++ last :: later)) =
                runQueries execute (runQueries execute c (q :: (middle ++ [last]))) later := by
              simp [runQueries]
            rw [split]
            exact inductionHypothesis later.length (by simp [← length]; omega) later _ group.idle
              laterBracketed rfl
          · obtain ⟨nextIdle, -⟩ := runQuery_alone execute q begins c idle
            exact inductionHypothesis rest.length (by simp [← length]) rest _ nextIdle
              (WellBracketed.suffix [q] bracketed) rfl

/-- A call that adds a query, from whatever thread. -/
inductive Request (Statement : Type) where
  | addQuery (stmt : Statement) (handler : HandleInfo) (flag : DBTransactionFlag)
  | ping
  deriving DecidableEq, Repr

def Request.apply (c : Connection Statement) : Request Statement → Connection Statement
  | .addQuery stmt handler flag => c.addQuery stmt handler flag
  | .ping => c.ping

/-- The connection with all the requests queued and none worked off. -/
def requested (requests : List (Request Statement)) : Connection Statement :=
  requests.foldl Request.apply activated

theorem requested_idle (requests : List (Request Statement)) : (requested requests).Idle := by
  have kept : ∀ (more : List (Request Statement)) (c : Connection Statement), c.Idle →
      (more.foldl Request.apply c).Idle := by
    intro more
    induction more with
    | nil => exact fun c idle => idle
    | cons request rest inductionHypothesis =>
        intro c idle
        obtain ⟨flag, autocommit, pending⟩ := idle
        apply inductionHypothesis
        cases request with
        | ping => exact ⟨flag, autocommit, pending⟩
        | addQuery stmt handler queryFlag =>
            simp only [Request.apply, addQuery]
            split_ifs <;> exact ⟨flag, autocommit, pending⟩
  exact kept requests activated activated_idle

/-- After the queries of a closed prefix no transaction is open. -/
theorem turns_idle {requests : List (Request Statement)}
    (bracketed : WellBracketed (requested requests).queryList)
    {before rest : List (AsyncQuery Statement)}
    (split : (requested requests).queryList = before ++ rest) (closed : Closed before) :
    (turns execute before.length (requested requests)).Idle := by
  rw [turns_length execute before _ rest split]
  obtain ⟨flag, autocommit, pending⟩ := requested_idle requests
  refine runQueries_idle execute before _ ⟨flag, autocommit, pending⟩ ?_
  exact (split ▸ bracketed : WellBracketed (before ++ rest)).of_closed closed

/-- In a bracketed queue every group is committed as a whole or rolled back as a
whole, and every other query is worked off alone, in autocommit mode. -/
theorem transactions_all_or_nothing (requests : List (Request Statement))
    (bracketed : WellBracketed (requested requests).queryList) :
    (∀ before group rest, (requested requests).queryList = before ++ group ++ rest →
      IsGroup group →
      ∃ made, AllOrNothing execute group (turns execute before.length (requested requests))
        (turns execute (before.length + group.length) (requested requests)) made) ∧
    ∀ before q rest, (requested requests).queryList = before ++ q :: rest →
      ¬ q.IsBegin → Closed before →
      (turns execute before.length (requested requests)).Idle ∧
        (turns execute (before.length + 1) (requested requests)).calls =
          (turns execute before.length (requested requests)).calls ++ aloneCalls execute q := by
  constructor
  · intro before group rest split isGroup
    rw [List.append_assoc] at split
    have closed : Closed before := by
      obtain ⟨first, middle, last, rfl, begins, -⟩ := isGroup
      exact (split ▸ bracketed : WellBracketed (before ++ first :: _)).closed_before_begin begins
    obtain ⟨flag, autocommit, pending⟩ := turns_idle execute bracketed split closed
    have queue := turns_queryList execute before _ _ split
    obtain ⟨made, calls, idle, outcome⟩ := runQueries_group execute group isGroup
      { turns execute before.length (requested requests) with queryList := rest }
      ⟨flag, autocommit, pending⟩
    rw [turns_add, turns_length execute group _ rest queue]
    exact ⟨made, calls, idle, outcome⟩
  · intro before q rest split notBegin closed
    have idle := turns_idle execute bracketed split closed
    have queue := turns_queryList execute before _ _ split
    obtain ⟨-, calls⟩ := runQuery_alone execute q notBegin
      { turns execute before.length (requested requests) with queryList := rest }
      ⟨idle.flag, idle.autocommit, idle.pending⟩
    refine ⟨idle, ?_⟩
    have turn := turns_length execute [q] _ rest queue
    rw [turns_add]
    exact (congrArg Connection.calls turn).trans calls

/-- A group whose second statement fails, and a statement behind it. -/
theorem transactions_all_or_nothing_failing :
    ∃ requests : List (Request Nat),
      (requested requests).queryList =
        [.query .begin 0 ⟨1, 0⟩, .ping, .query .none 1 ⟨2, 0⟩, .query .commit 2 ⟨3, 0⟩] ++
          [.query .none 3 ⟨4, 0⟩] ∧
      WellBracketed (requested requests).queryList ∧
      ∃ made, AllOrNothing (fun stmt => stmt != 1)
        [.query .begin 0 ⟨1, 0⟩, .ping, .query .none 1 ⟨2, 0⟩, .query .commit 2 ⟨3, 0⟩]
        (turns (fun stmt => stmt != 1) 0 (requested requests))
        (turns (fun stmt => stmt != 1) 4 (requested requests)) made := by
  have group : IsGroup [.query .begin 0 ⟨1, 0⟩, .ping, .query .none 1 ⟨2, 0⟩,
      .query .commit 2 ⟨3, 0⟩] :=
    ⟨_, [.ping, .query .none 1 ⟨2, 0⟩], _, rfl, rfl, rfl, by simp [AsyncQuery.IsPlain,
      AsyncQuery.IsBegin, AsyncQuery.IsCommit]⟩
  have bracketed := WellBracketed.group group
    (WellBracketed.cons (q := .query .none 3 ⟨4, 0⟩) (by simp [AsyncQuery.IsBegin])
      WellBracketed.nil)
  let requests : List (Request Nat) := [.addQuery 0 ⟨1, 0⟩ .begin, .ping,
    .addQuery 1 ⟨2, 0⟩ .none, .addQuery 2 ⟨3, 0⟩ .commit, .addQuery 3 ⟨4, 0⟩ .none]
  refine ⟨requests, rfl, bracketed, ?_⟩
  exact (transactions_all_or_nothing _ requests bracketed).1 [] _ [.query .none 3 ⟨4, 0⟩] rfl group

end Connection

end CrossOver.Engine.Mysql
