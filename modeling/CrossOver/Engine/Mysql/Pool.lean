import Mathlib.Data.Int.Order.Basic
import CrossOver.Engine.Mysql.Database

/-!
# Picking a connection

`Turned` is what carries the round: the next index is inside the list whenever
the list has connections at all.  `Open` says which operations meet a connection,
and a counter that has room; the other operations end the process.
-/

namespace CrossOver.Engine.Mysql.Pool

open CrossOver.Lib

open DatabaseImpl

/-- An operation of a script on a database. -/
inductive Call
  | getNextConnect
  | getFreeConnect
  | addConnectRef (connIdx : UInt32)
  | removeConnectRef (connIdx : UInt32)
  | createStatement (connIdx : UInt32)
  deriving DecidableEq, Repr

/-- The index that an operation returns, if it returns one. -/
def Call.run : Call → Operation (Option UInt32)
  | .getNextConnect => some <$> DatabaseImpl.getNextConnect
  | .getFreeConnect => some <$> DatabaseImpl.getFreeConnect
  | .addConnectRef connIdx => do
      DatabaseImpl.addConnectRef connIdx
      return none
  | .removeConnectRef connIdx => do
      DatabaseImpl.removeConnectRef connIdx
      return none
  | .createStatement connIdx => some <$> DatabaseImpl.createStatement connIdx

/-- A database after `Initialize`, and the operations that return. -/
def pool : System DatabaseImpl Call where
  initial db := ∃ connCount init, db = (create.initializeWith connCount init).2
  step db call db' := ∃ result, call.run db = .ok (result, db')

/-- As many calls of `get_next_connect` as `count` says. -/
def takeTurns : Nat → Operation (List UInt32)
  | 0 => pure []
  | count + 1 => do
      let connIdx ← getNextConnect
      let later ← takeTurns count
      return connIdx :: later

def Call.Right (call : Call) (db : DatabaseImpl) (result : Option UInt32) : Prop :=
  match call with
  | .getNextConnect => ∃ connIdx, result = some connIdx ∧
      connIdx.toNat < db.connectLists.length
  | .getFreeConnect => ∃ connIdx least, result = some connIdx ∧
      FirstLeast (db.connectLists.map fun conn => conn.memcacheRefCount.toInt) least
        connIdx.toNat
  | .createStatement asked => ∃ connIdx, result = some connIdx ∧
      connIdx.toNat < db.connectLists.length ∧ (asked ≠ invalidIndex → connIdx = asked)
  | _ => True

def Counting (db : DatabaseImpl) : Prop :=
  ∀ conn ∈ db.connectLists, 0 ≤ conn.memcacheRefCount.toInt

/-- The call returns what it promises. -/
def Meets (db : DatabaseImpl) (call : Call) : Prop :=
  ∃ result db', call.run db = .ok (result, db') ∧ call.Right db result ∧ Counting db'

/-- As many consecutive calls as there are connections give every index once. -/
def TurnsOnce (db : DatabaseImpl) : Prop :=
  ∃ indices db', takeTurns db.connectLists.length db = .ok (indices, db') ∧
    (indices.map UInt32.toNat).Perm (List.range db.connectLists.length)

/-- A connection is asked of a list that has one, a reference is added to a counter that has
room, and taken from one that has references. -/
def Open (db : DatabaseImpl) : Call → Prop
  | .getNextConnect => db.connectLists ≠ []
  | .getFreeConnect => db.connectLists ≠ []
  | .addConnectRef connIdx => ∃ conn, db.connectLists[connIdx.toNat]? = some conn ∧
      conn.memcacheRefCount.toInt < 2 ^ 31 - 1
  | .removeConnectRef connIdx => ∃ conn, db.connectLists[connIdx.toNat]? = some conn ∧
      0 < conn.memcacheRefCount.toInt
  | .createStatement connIdx =>
      if connIdx = invalidIndex then db.connectLists ≠ []
      else connIdx.toNat < db.connectLists.length

/-- What holds in every state of every run. -/
structure Turned (db : DatabaseImpl) : Prop where
  numbered : ∀ (i : Nat) (conn : PooledConnection), db.connectLists[i]? = some conn →
    conn.connIdx.toNat = i
  position : ∃ next : Nat, db.nextConnIdx.toInt = next ∧
    (db.connectLists ≠ [] → next < db.connectLists.length)
  few : db.connectLists.length < 2 ^ 31

section Initially

/-- The connections up to the first one that does not open. -/
theorem connectFrom_length (init : Nat → Bool) (remaining i : Nat)
    (connectLists : List PooledConnection) :
    (connectFrom init remaining i connectLists).2.length ≤ connectLists.length + remaining := by
  induction remaining generalizing i connectLists with
  | zero => exact le_rfl
  | succ remaining inductionHypothesis =>
      rw [connectFrom]
      split
      · have rest := inductionHypothesis (i + 1)
          (connectLists ++ [{ connIdx := UInt32.ofNat i }])
        rw [List.length_append, List.length_singleton] at rest
        omega
      · exact Nat.le_add_right _ _

theorem connectFrom_grows (init : Nat → Bool) (remaining i : Nat)
    (connectLists : List PooledConnection) :
    connectLists <+: (connectFrom init remaining i connectLists).2 := by
  induction remaining generalizing i connectLists with
  | zero => exact List.prefix_refl _
  | succ remaining inductionHypothesis =>
      rw [connectFrom]
      split
      · exact (List.prefix_append _ _).trans (inductionHypothesis _ _)
      · exact List.prefix_refl _

theorem connectFrom_fresh (init : Nat → Bool) (remaining i : Nat)
    {connectLists : List PooledConnection}
    (fresh : ∀ conn ∈ connectLists, conn.memcacheRefCount = 0) :
    ∀ conn ∈ (connectFrom init remaining i connectLists).2, conn.memcacheRefCount = 0 := by
  induction remaining generalizing i connectLists with
  | zero => exact fresh
  | succ remaining inductionHypothesis =>
      rw [connectFrom]
      split
      · apply inductionHypothesis
        intro conn membership
        obtain old | new := List.mem_append.mp membership
        · exact fresh conn old
        · rw [List.mem_singleton.mp new]
      · exact fresh

theorem connectFrom_numbered (init : Nat → Bool) (remaining : Nat)
    {connectLists : List PooledConnection} (few : connectLists.length + remaining ≤ 2 ^ 32)
    (numbered : ∀ (i : Nat) (conn : PooledConnection), connectLists[i]? = some conn →
      conn.connIdx.toNat = i) :
    ∀ (i : Nat) (conn : PooledConnection),
      (connectFrom init remaining connectLists.length connectLists).2[i]? = some conn →
      conn.connIdx.toNat = i := by
  induction remaining generalizing connectLists with
  | zero => exact numbered
  | succ remaining inductionHypothesis =>
      rw [connectFrom]
      split
      · have longer : connectLists.length + 1 =
            (connectLists ++ [({ connIdx := UInt32.ofNat connectLists.length } :
              PooledConnection)]).length := by
          rw [List.length_append, List.length_singleton]
        rw [longer]
        apply inductionHypothesis
        · rw [← longer]
          omega
        · intro i conn found
          rcases Nat.lt_trichotomy i connectLists.length with before | same | behind
          · rw [List.getElem?_append_left before] at found
            exact numbered i conn found
          · subst same
            rw [List.getElem?_append_right le_rfl, Nat.sub_self] at found
            cases found
            exact UInt32.toNat_ofNat_of_lt' (Nat.lt_of_lt_of_le (by omega) few)
          · rw [List.getElem?_eq_none (by rw [← longer]; omega)] at found
            cases found
      · exact numbered

variable (connCount : UInt32) (init : Nat → Bool)

/-- `Initialize` leaves a connection exactly when one is asked for and the first one opens. -/
theorem initialized_nonempty_iff :
    (create.initializeWith connCount init).2.connectLists ≠ [] ↔
      0 < connCount.toInt32.toInt ∧ init 0 = true := by
  change (connectFrom init connCount.toInt32.toInt.toNat 0 []).2 ≠ [] ↔ _
  cases count : connCount.toInt32.toInt.toNat with
  | zero => exact iff_of_false (fun some => some rfl) fun asked => by omega
  | succ remaining =>
      have asked : 0 < connCount.toInt32.toInt := by omega
      rw [connectFrom]
      split
      · next opens =>
          refine iff_of_true ?_ ⟨asked, opens⟩
          exact (connectFrom_grows init remaining 1 _).ne_nil (List.cons_ne_nil _ _)
      · next fails => exact iff_of_false (fun some => some rfl) fun opens => fails opens.2

theorem initialized_turned : Turned (create.initializeWith connCount init).2 where
  numbered := by
    have bound := connCount.toInt32.toInt_lt
    have none_wrong (i : Nat) (conn : PooledConnection)
        (found : ([] : List PooledConnection)[i]? = some conn) : conn.connIdx.toNat = i := by
      cases found
    exact @connectFrom_numbered init connCount.toInt32.toInt.toNat []
      (by rw [List.length_nil]; omega) none_wrong
  position := ⟨0, rfl, List.length_pos_iff.mpr⟩
  few := by
    have length := connectFrom_length init connCount.toInt32.toInt.toNat 0 []
    have bound := connCount.toInt32.toInt_lt
    rw [List.length_nil] at length
    change (connectFrom init connCount.toInt32.toInt.toNat 0 []).2.length < _
    omega

theorem initialized_counting : Counting (create.initializeWith connCount init).2 := by
  intro conn membership
  have fresh := connectFrom_fresh init connCount.toInt32.toInt.toNat 0
    (fun _ impossible => absurd impossible List.not_mem_nil) conn membership
  rw [fresh]
  decide

end Initially

variable {db db' : DatabaseImpl} {call : Call}

/-! ## The round -/

theorem toInt_add_one {value : Int32} {next : Nat} (position : value.toInt = next)
    (small : next + 1 < 2 ^ 31) : (value + 1).toInt = (next + 1 : Nat) := by
  rw [Int32.toInt_add, position]
  change Int.bmod (next + 1) (2 ^ 32) = _
  rw [Int.bmod_eq_of_le (by omega) (by omega)]
  rfl

theorem toNat_toUInt32 {value : Int32} {next : Nat} (position : value.toInt = next) :
    value.toUInt32.toNat = next := by
  have nonnegative : 0 ≤ value := by
    rw [Int32.le_iff_toInt_le, position]
    exact Int.natCast_nonneg next
  rw [Int32.toNat_toUInt32_of_le nonnegative]
  change value.toInt.toNat = next
  rw [position, Int.toNat_natCast]

theorem getNextConnect_turns {next : Nat} (position : db.nextConnIdx.toInt = next)
    (inside : next < db.connectLists.length) (few : db.connectLists.length < 2 ^ 31) :
    ∃ connIdx following, getNextConnect db =
        .ok (connIdx, { db with nextConnIdx := following }) ∧ connIdx.toNat = next ∧
      following.toInt = ((next + 1) % db.connectLists.length : Nat) := by
  have bound := Nat.mod_lt (next + 1) (Nat.zero_lt_of_lt inside)
  have whole : sizeT (db.nextConnIdx + 1) = next + 1 := by
    rw [sizeT, toInt_add_one position (by omega)]
    omega
  refine ⟨_, Int32.ofNat ((next + 1) % db.connectLists.length), ?_,
    toNat_toUInt32 position, Int32.toInt_ofNat_of_lt (by omega)⟩
  unfold getNextConnect
  rw [if_neg (by omega)]
  simp only [whole]

theorem takeTurns_run {next : Nat} (count : Nat) (position : db.nextConnIdx.toInt = next)
    (inside : next < db.connectLists.length) (few : db.connectLists.length < 2 ^ 31) :
    ∃ indices db', takeTurns count db = .ok (indices, db') ∧
      indices.map UInt32.toNat =
        (List.range count).map fun turn => (next + turn) % db.connectLists.length := by
  induction count generalizing db next with
  | zero => exact ⟨[], db, rfl, rfl⟩
  | succ count inductionHypothesis =>
      obtain ⟨connIdx, following, ran, same, moved⟩ := getNextConnect_turns position inside few
      have bound := Nat.mod_lt (next + 1) (Nat.zero_lt_of_lt inside)
      obtain ⟨later, db', ranLater, places⟩ :=
        @inductionHypothesis { db with nextConnIdx := following } _ moved bound few
      refine ⟨connIdx :: later, db', ?_, ?_⟩
      · change (getNextConnect db >>= fun r => _) = _
        rw [ran]
        change (takeTurns count { db with nextConnIdx := following } >>= fun r => _) = _
        rw [ranLater]
        rfl
      · have first : next = (next + 0) % db.connectLists.length :=
          (Nat.mod_eq_of_lt inside).symm
        rw [List.map_cons, places, List.range_succ_eq_map, List.map_cons, List.map_map, same,
          ← first]
        congr 1
        apply List.map_congr_left
        intro turn _
        change ((next + 1) % _ + turn) % _ = (next + (turn + 1)) % _
        rw [Nat.mod_add_mod, Nat.add_assoc, Nat.add_comm 1]

theorem Turned.turnsOnce (turned : Turned db) : TurnsOnce db := by
  obtain ⟨next, position, inside⟩ := turned.position
  by_cases empty : db.connectLists = []
  · rw [TurnsOnce, empty]
    exact ⟨[], db, rfl, List.Perm.refl _⟩
  · obtain ⟨indices, db', ran, places⟩ :=
      takeTurns_run db.connectLists.length position (inside empty) turned.few
    refine ⟨indices, db', ran, ?_⟩
    rw [places]
    exact turns_perm _ _

/-! ## The least referenced connection -/

/-- The loop carries the first of the least counts seen so far. -/
theorem scanFree_firstLeast (seen rest : List PooledConnection) {minCount : Int32}
    {connIdx : Nat}
    (found : FirstLeast (seen.map fun conn => conn.memcacheRefCount.toInt) minCount.toInt
      connIdx) :
    ∃ least, FirstLeast ((seen ++ rest).map fun conn => conn.memcacheRefCount.toInt) least
      (scanFree rest seen.length minCount connIdx) := by
  induction rest generalizing seen minCount connIdx with
  | nil =>
      rw [List.append_nil]
      exact ⟨_, found⟩
  | cons conn rest inductionHypothesis =>
      have shape : seen ++ conn :: rest = (seen ++ [conn]) ++ rest := by simp
      have length : seen.length + 1 = (seen ++ [conn]).length := by simp
      rw [scanFree, shape, length]
      split
      · next smaller =>
          apply inductionHypothesis
          rw [List.map_append, List.map_singleton]
          have replaced := found.replace (Int32.lt_iff_toInt_lt.mp smaller)
          rwa [List.length_map] at replaced
      · next larger =>
          apply inductionHypothesis
          rw [List.map_append, List.map_singleton]
          exact found.keep (by rw [Int32.lt_iff_toInt_lt] at larger; omega)

theorem getFreeConnect_firstLeast {connIdx : UInt32} (few : db.connectLists.length < 2 ^ 31)
    (ran : getFreeConnect db = .ok (connIdx, db')) :
    db' = db ∧ ∃ least, FirstLeast
      (db.connectLists.map fun conn => conn.memcacheRefCount.toInt) least connIdx.toNat := by
  unfold getFreeConnect at ran
  split at ran
  · cases ran
  · next first rest shape =>
      cases ran
      refine ⟨rfl, ?_⟩
      obtain ⟨least, found⟩ := scanFree_firstLeast [first] rest
        (FirstLeast.singleton first.memcacheRefCount.toInt)
      have inside := found.inside
      rw [List.length_map] at inside
      rw [shape] at few ⊢
      refine ⟨least, ?_⟩
      rw [UInt32.toNat_ofNat_of_lt']
      · exact found
      · exact inside.trans (few.trans (by decide))

/-! ## The counts -/

section Counts

variable {count : Int32} {connIdx : UInt32} {conn : PooledConnection}

theorem toInt_sub_one {value : Int32} (positive : 0 < value.toInt) :
    (value - 1).toInt = value.toInt - 1 := by
  have bound := value.toInt_lt
  rw [Int32.toInt_sub]
  change Int.bmod (value.toInt - 1) (2 ^ 32) = _
  rw [Int.bmod_eq_of_le (by omega) (by omega)]

/-- One more reference is non-negative unless the counter was full. -/
theorem add_one_nonneg_iff {value : Int32} (nonnegative : 0 ≤ value.toInt) :
    0 ≤ (value + 1).toInt ↔ value.toInt < 2 ^ 31 - 1 := by
  have bound := value.toInt_lt
  rw [Int32.toInt_add]
  change 0 ≤ Int.bmod (value.toInt + 1) (2 ^ 32) ↔ _
  constructor
  · intro sum
    by_contra full
    have last : value.toInt = 2 ^ 31 - 1 := by omega
    rw [last] at sum
    exact absurd sum (by decide)
  · intro room
    rw [Int.bmod_eq_of_le (by omega) (by omega)]
    omega

theorem counting_withRefCount_iff (counting : Counting db)
    (there : db.connectLists[connIdx.toNat]? = some conn) :
    Counting (db.withRefCount connIdx count) ↔ 0 ≤ count.toInt := by
  constructor
  · intro after
    have changed : (db.withRefCount connIdx count).connectLists[connIdx.toNat]? =
        some { conn with memcacheRefCount := count } := by
      rw [withRefCount, List.getElem?_modify, there]
      exact congrArg some (if_pos rfl)
    exact after _ (List.mem_of_getElem? changed)
  · intro nonnegative changed membership
    obtain ⟨index, found⟩ := List.mem_iff_getElem?.mp membership
    rw [withRefCount, List.getElem?_modify] at found
    obtain ⟨before, old, rfl⟩ := Option.map_eq_some_iff.mp found
    by_cases here : connIdx.toNat = index
    · rw [if_pos here]
      exact nonnegative
    · rw [if_neg here]
      exact counting before (List.mem_of_getElem? old)

end Counts

/-! ## Every call -/

section Calls

variable {connIdx : UInt32} {conn : PooledConnection}

/-- What a call does: it returns what it promises, and the counts stay non-negative exactly
when the call is open; or it ends the process, and is not open. -/
def Settled (db : DatabaseImpl) (call : Call) : Prop :=
  (∃ result db', call.run db = .ok (result, db') ∧ call.Right db result ∧ Turned db' ∧
    (Counting db' ↔ Open db call)) ∨
  ∃ ending, call.run db = .error ending ∧ ¬ Open db call

theorem checked_some (there : db.connectLists[connIdx.toNat]? = some conn) :
    checked connIdx db = .ok (conn, db) := by
  rw [checked, there]

theorem checked_none (missing : db.connectLists[connIdx.toNat]? = none) :
    checked connIdx db = .error .assertFailed := by
  rw [checked, missing]

theorem access_some (there : db.connectLists[connIdx.toNat]? = some conn) :
    access connIdx db = .ok (conn, db) := by
  rw [access, there]

theorem addConnectRef_some (there : db.connectLists[connIdx.toNat]? = some conn) :
    addConnectRef connIdx db =
      .ok ((), db.withRefCount connIdx (conn.memcacheRefCount + 1)) := by
  rw [addConnectRef, bind_of_ran (checked_some there)]
  rfl

theorem removeConnectRef_some (there : db.connectLists[connIdx.toNat]? = some conn) :
    removeConnectRef connIdx db =
      if conn.memcacheRefCount > 0 then
        .ok ((), db.withRefCount connIdx (conn.memcacheRefCount - 1))
      else .error .assertFailed := by
  rw [removeConnectRef, bind_of_ran (checked_some there)]
  split <;> rfl

theorem Turned.withRefCount (turned : Turned db) (connIdx : UInt32) (count : Int32) :
    Turned (db.withRefCount connIdx count) := by
  have length : (db.withRefCount connIdx count).connectLists.length = db.connectLists.length :=
    List.length_modify _ _ _
  obtain ⟨next, position, inside⟩ := turned.position
  refine ⟨?_, ⟨next, position, ?_⟩, length.trans_lt turned.few⟩
  · intro i conn found
    rw [DatabaseImpl.withRefCount, List.getElem?_modify] at found
    obtain ⟨before, old, rfl⟩ := Option.map_eq_some_iff.mp found
    by_cases here : connIdx.toNat = i
    · rw [if_pos here]
      exact turned.numbered i before old
    · rw [if_neg here]
      exact turned.numbered i before old
  intro present
  rw [length]
  apply inside
  rw [← List.length_pos_iff] at present ⊢
  rwa [length] at present

theorem getNextConnect_empty (empty : db.connectLists = []) :
    getNextConnect db = .error .divisionByZero := by
  rw [getNextConnect, empty]
  rfl

theorem Turned.getNextConnect (turned : Turned db) (present : db.connectLists ≠ []) :
    ∃ connIdx following, DatabaseImpl.getNextConnect db =
        .ok (connIdx, { db with nextConnIdx := following }) ∧
      connIdx.toNat < db.connectLists.length ∧ Turned { db with nextConnIdx := following } := by
  obtain ⟨next, position, inside⟩ := turned.position
  obtain ⟨connIdx, following, ran, same, moved⟩ :=
    getNextConnect_turns position (inside present) turned.few
  refine ⟨connIdx, following, ran, same.trans_lt (inside present), turned.numbered, ?_, turned.few⟩
  exact ⟨_, moved, fun _ => Nat.mod_lt _ (List.length_pos_iff.mpr present)⟩

theorem getNextConnect_settled (turned : Turned db) (counting : Counting db) :
    Settled db .getNextConnect := by
  by_cases empty : db.connectLists = []
  · right
    exact ⟨.divisionByZero, map_of_failed (getNextConnect_empty empty), not_not.mpr empty⟩
  · left
    obtain ⟨connIdx, following, ran, inside, moved⟩ := turned.getNextConnect empty
    exact ⟨connIdx, _, map_of_ran ran, ⟨connIdx, rfl, inside⟩, moved, iff_of_true counting empty⟩

theorem getFreeConnect_settled (turned : Turned db) (counting : Counting db) :
    Settled db .getFreeConnect := by
  cases ran : DatabaseImpl.getFreeConnect db with
  | error ending =>
      right
      refine ⟨ending, map_of_failed ran, ?_⟩
      unfold DatabaseImpl.getFreeConnect at ran
      split at ran
      · next empty => exact not_not.mpr empty
      · cases ran
  | ok made =>
      left
      obtain ⟨same, least, found⟩ := getFreeConnect_firstLeast turned.few ran
      have inside := found.inside
      rw [List.length_map] at inside
      exact ⟨made.1, made.2, map_of_ran ran, ⟨made.1, least, rfl, found⟩, same ▸ turned,
        iff_of_true (same ▸ counting) (List.ne_nil_of_length_pos (Nat.zero_lt_of_lt inside))⟩

theorem addConnectRef_settled (turned : Turned db) (counting : Counting db) (connIdx : UInt32) :
    Settled db (.addConnectRef connIdx) := by
  cases there : db.connectLists[connIdx.toNat]? with
  | none =>
      right
      refine ⟨.assertFailed, bind_of_failed (bind_of_failed (checked_none there)), ?_⟩
      rintro ⟨conn, found, -⟩
      rw [there] at found
      cases found
  | some conn =>
      left
      have nonnegative := counting conn (List.mem_of_getElem? there)
      refine ⟨none, db.withRefCount connIdx (conn.memcacheRefCount + 1),
        bind_of_ran (addConnectRef_some there), trivial, turned.withRefCount _ _, ?_⟩
      rw [counting_withRefCount_iff counting there, add_one_nonneg_iff nonnegative, Open]
      constructor
      · intro room
        exact ⟨conn, there, room⟩
      · rintro ⟨other, found, room⟩
        rw [there] at found
        cases found
        exact room

theorem removeConnectRef_settled (turned : Turned db) (counting : Counting db)
    (connIdx : UInt32) : Settled db (.removeConnectRef connIdx) := by
  cases there : db.connectLists[connIdx.toNat]? with
  | none =>
      right
      refine ⟨.assertFailed, bind_of_failed (bind_of_failed (checked_none there)), ?_⟩
      rintro ⟨conn, found, -⟩
      rw [there] at found
      cases found
  | some conn =>
      have above_iff : conn.memcacheRefCount > 0 ↔ 0 < conn.memcacheRefCount.toInt :=
        Int32.lt_iff_toInt_lt
      have removed := removeConnectRef_some there
      by_cases positive : conn.memcacheRefCount > 0
      · left
        have above := above_iff.mp positive
        rw [if_pos positive] at removed
        refine ⟨none, db.withRefCount connIdx (conn.memcacheRefCount - 1), bind_of_ran removed,
          trivial, turned.withRefCount _ _, iff_of_true ?_ ⟨conn, there, above⟩⟩
        rw [counting_withRefCount_iff counting there, toInt_sub_one above]
        omega
      · right
        rw [if_neg positive] at removed
        refine ⟨.assertFailed, bind_of_failed removed, ?_⟩
        rintro ⟨other, found, above⟩
        rw [there] at found
        cases found
        exact positive (above_iff.mpr above)

theorem createStatement_settled (turned : Turned db) (counting : Counting db)
    (connIdx : UInt32) : Settled db (.createStatement connIdx) := by
  by_cases any : connIdx = invalidIndex
  · have run : DatabaseImpl.createStatement connIdx =
        (do return (← access (← DatabaseImpl.getNextConnect)).connIdx) := by
      rw [DatabaseImpl.createStatement, if_pos any]
    have open_iff : Open db (.createStatement connIdx) ↔ db.connectLists ≠ [] := by
      rw [Open, if_pos any]
    by_cases empty : db.connectLists = []
    · right
      refine ⟨.divisionByZero, ?_, fun isOpen => open_iff.mp isOpen empty⟩
      rw [Call.run, run]
      exact map_of_failed (bind_of_failed (getNextConnect_empty empty))
    · left
      obtain ⟨next, following, ran, inside, moved⟩ := turned.getNextConnect empty
      have there : db.connectLists[next.toNat]? = .some db.connectLists[next.toNat] :=
        List.getElem?_eq_getElem inside
      have number := turned.numbered next.toNat _ there
      refine ⟨db.connectLists[next.toNat].connIdx, _, ?_,
        ⟨_, rfl, number.trans_lt inside, fun other => absurd any other⟩, moved,
        iff_of_true counting (open_iff.mpr empty)⟩
      have found : access next { db with nextConnIdx := following } = .ok (_, _) :=
        access_some there
      rw [Call.run, run]
      exact map_of_ran ((bind_of_ran ran).trans (bind_of_ran found))
  · have run : DatabaseImpl.createStatement connIdx =
        (checked connIdx >>= fun conn => pure conn.connIdx) := by
      rw [DatabaseImpl.createStatement, if_neg any]
    have open_iff : Open db (.createStatement connIdx) ↔
        connIdx.toNat < db.connectLists.length := by
      rw [Open, if_neg any]
    cases there : db.connectLists[connIdx.toNat]? with
    | none =>
        right
        refine ⟨.assertFailed, ?_, fun isOpen => ?_⟩
        · rw [Call.run, run]
          exact map_of_failed (bind_of_failed (checked_none there))
        · exact absurd (open_iff.mp isOpen) (not_lt.mpr (List.getElem?_eq_none_iff.mp there))
    | some conn =>
        left
        have inside := (List.getElem?_eq_some_iff.mp there).1
        have number := turned.numbered connIdx.toNat conn there
        refine ⟨conn.connIdx, db, ?_,
          ⟨_, rfl, number.trans_lt inside, fun _ => UInt32.toNat_inj.mp number⟩, turned,
          iff_of_true counting (open_iff.mpr inside)⟩
        rw [Call.run, run]
        exact map_of_ran (bind_of_ran (checked_some there))

theorem call_settled (turned : Turned db) (counting : Counting db) (call : Call) :
    Settled db call := by
  cases call with
  | getNextConnect => exact getNextConnect_settled turned counting
  | getFreeConnect => exact getFreeConnect_settled turned counting
  | addConnectRef connIdx => exact addConnectRef_settled turned counting connIdx
  | removeConnectRef connIdx => exact removeConnectRef_settled turned counting connIdx
  | createStatement connIdx => exact createStatement_settled turned counting connIdx

theorem Settled.meets_iff (settled : Settled db call) : Meets db call ↔ Open db call := by
  obtain ⟨result, db', ran, right, -, counting⟩ | ⟨ending, ran, closed⟩ := settled
  · constructor
    · rintro ⟨other, after, ranToo, -, counted⟩
      rw [ran] at ranToo
      cases ranToo
      exact counting.mp counted
    · intro isOpen
      exact ⟨result, db', ran, right, counting.mpr isOpen⟩
  · refine iff_of_false ?_ closed
    rintro ⟨result, db', ranToo, -⟩
    rw [ran] at ranToo
    cases ranToo

end Calls

theorem pool_invariant (reached : (pool.restrict Open).Reachable db) :
    Turned db ∧ Counting db := by
  induction reached with
  | start initial =>
      obtain ⟨connCount, init, rfl⟩ := initial
      exact ⟨initialized_turned connCount init, initialized_counting connCount init⟩
  | @next _ _ call _ step inductionHypothesis =>
      obtain ⟨isOpen, result, ran⟩ := step
      obtain ⟨made, db', ranToo, -, turned, counting⟩ | ⟨ending, ranToo, -⟩ :=
        call_settled inductionHypothesis.1 inductionHypothesis.2 call
      · rw [ran] at ranToo
        cases ranToo
        exact ⟨turned, counting.mpr isOpen⟩
      · rw [ran] at ranToo
        cases ranToo

/-- After any open calls as many turns as there are connections give every index once, all
counts are non-negative, and a call returns what it promises exactly when it is open. -/
theorem pool_meets_iff (reached : (pool.restrict Open).Reachable db) :
    TurnsOnce db ∧ Counting db ∧ ∀ call, Meets db call ↔ Open db call := by
  obtain ⟨turned, counting⟩ := pool_invariant reached
  exact ⟨turned.turnsOnce, counting, fun call => (call_settled turned counting call).meets_iff⟩

/-- A database with three connections. -/
theorem threeConnections_meet :
    TurnsOnce (create.initializeWith 3 fun _ => true).2 ∧
      Counting (create.initializeWith 3 fun _ => true).2 ∧
        ∀ call, Meets (create.initializeWith 3 fun _ => true).2 call ↔
          Open (create.initializeWith 3 fun _ => true).2 call :=
  pool_meets_iff (.start ⟨3, fun _ => true, rfl⟩)

/-- A database with no connections is asked for the next one. -/
theorem empty_pool_divides_by_zero :
    ¬ ∀ db, pool.Reachable db → ∀ call, Meets db call := by
  intro always
  obtain ⟨result, db', ran, -⟩ := always _ (.start ⟨0, fun _ => true, rfl⟩) .getNextConnect
  have ending : Call.getNextConnect.run (create.initializeWith 0 fun _ => true).2 =
      .error .divisionByZero := rfl
  rw [ending] at ran
  cases ran

end CrossOver.Engine.Mysql.Pool
