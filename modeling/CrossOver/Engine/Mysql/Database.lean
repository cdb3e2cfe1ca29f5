import Mathlib.Algebra.Ring.Int.Defs
import Mathlib.Algebra.Ring.Nat
import CrossOver.Lib.Selection
import CrossOver.Lib.Transition
import CrossOver.Lib.Result

/-!
# The connections of a `Database`

`Initialize` fills a list of connections and leaves what it has when one of them
does not open.  `get_next_connect` goes round that list, `get_free_connect` looks
for the least referenced connection, and the references are counted by hand.
Nothing keeps a caller from asking an empty list for its next connection.
-/

namespace CrossOver.Engine.Mysql.Pool

open CrossOver.Lib

/-- A connection, as far as its database looks at it. -/
structure PooledConnection where
  connIdx : UInt32
  memcacheRefCount : Int32 := 0
  deriving DecidableEq, Repr

structure DatabaseImpl where
  connectLists : List PooledConnection
  connCount : Int32
  nextConnIdx : Int32
  deriving DecidableEq, Repr

/-- How an operation ends the process: a failed `ASSERT`, a division by zero, or an access
behind the end of the list. -/
inductive Ending
  | assertFailed
  | divisionByZero
  | outOfBounds
  deriving DecidableEq, Repr

abbrev Operation (Result : Type) := StateT DatabaseImpl (Except Ending) Result

def invalidIndex : UInt32 := 0xFFFFFFFF

namespace DatabaseImpl

def create : DatabaseImpl := { connectLists := [], connCount := 0, nextConnIdx := 0 }

/-- The loop of `Initialize` from `i` on; `init i` is the result of `Connection::Init`. -/
def connectFrom (init : Nat → Bool) : Nat → Nat → List PooledConnection →
    Bool × List PooledConnection
  | 0, _, connectLists => (true, connectLists)
  | remaining + 1, i, connectLists =>
      if init i then
        connectFrom init remaining (i + 1) (connectLists ++ [{ connIdx := UInt32.ofNat i }])
      else (false, connectLists)

/-- `conn_count_` is an `int32`, so that a count from `2^31` on opens nothing. -/
def initializeWith (db : DatabaseImpl) (connCount : UInt32) (init : Nat → Bool) :
    Bool × DatabaseImpl :=
  let filled := connectFrom init connCount.toInt32.toInt.toNat 0 db.connectLists
  (filled.1, { db with connCount := connCount.toInt32, connectLists := filled.2 })

def sizeT (value : Int32) : Nat := (value.toInt % 2 ^ 64).toNat

def getNextConnect : Operation UInt32 := fun db =>
  if db.connectLists.length = 0 then .error .divisionByZero
  else
    let next := sizeT (db.nextConnIdx + 1) % db.connectLists.length
    .ok (db.nextConnIdx.toUInt32, { db with nextConnIdx := Int32.ofNat next })

/-- The loop of `get_free_connect`. -/
def scanFree : List PooledConnection → Nat → Int32 → Nat → Nat
  | [], _, _, connIdx => connIdx
  | conn :: rest, i, minCount, connIdx =>
      if conn.memcacheRefCount < minCount then scanFree rest (i + 1) conn.memcacheRefCount i
      else scanFree rest (i + 1) minCount connIdx

def getFreeConnect : Operation UInt32 := fun db =>
  match db.connectLists with
  | [] => .error .assertFailed
  | first :: rest => .ok (UInt32.ofNat (scanFree rest 1 first.memcacheRefCount 0), db)

/-- The connection at `connIdx`; the assertion is in front of the access. -/
def checked (connIdx : UInt32) : Operation PooledConnection := fun db =>
  match db.connectLists[connIdx.toNat]? with
  | none => .error .assertFailed
  | some conn => .ok (conn, db)

def withRefCount (db : DatabaseImpl) (connIdx : UInt32) (count : Int32) : DatabaseImpl :=
  { db with
    connectLists := db.connectLists.modify connIdx.toNat
      (fun conn => { conn with memcacheRefCount := count }) }

def setRefCount (connIdx : UInt32) (count : Int32) : Operation Unit := fun db =>
  .ok ((), db.withRefCount connIdx count)

def addConnectRef (connIdx : UInt32) : Operation Unit := do
  let conn ← checked connIdx
  setRefCount connIdx (conn.memcacheRefCount + 1)

def removeConnectRef (connIdx : UInt32) : Operation Unit := do
  let conn ← checked connIdx
  if conn.memcacheRefCount > 0 then setRefCount connIdx (conn.memcacheRefCount - 1)
  else throw .assertFailed

/-- `connect_lists[connIdx]`, without an assertion. -/
def access (connIdx : UInt32) : Operation PooledConnection := fun db =>
  match db.connectLists[connIdx.toNat]? with
  | none => .error .outOfBounds
  | some conn => .ok (conn, db)

def createStatement (connIdx : UInt32) : Operation UInt32 := do
  let conn ←
    if connIdx = invalidIndex then do access (← getNextConnect)
    else checked connIdx
  return conn.connIdx

end DatabaseImpl

end CrossOver.Engine.Mysql.Pool
