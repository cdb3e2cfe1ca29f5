import CrossOver.Lib.Scatter
import Mathlib.Tactic.Common

/-!
# `lua_pb`: the hash table

Offsets count entries where the source counts bytes.  An access outside the array, a walk
that does not end and a copy through a null pointer are `none`; a null result is a `none`
inside.  `room` is the number of entries that `malloc` and `PB_MAX_HASHSIZE` leave to a table,
at most `2 ^ 27`: of more entries the bytes do not fit in `lastfree`.
-/

namespace CrossOver.Lua.Pb

/-- A `pb_Entry` and the pointer behind it. -/
structure Slot (Value : Type) where
  next : Int
  key : Int64
  value : Option Value
  deriving DecidableEq, Repr

def Slot.zeroed {Value : Type} : Slot Value := ⟨0, 0, none⟩

structure Table (Value : Type) where
  lastfree : Nat
  hasZero : Bool
  hash : List (Slot Value)
  deriving DecidableEq, Repr

namespace Table

variable {Value : Type}

def size (t : Table Value) : Nat := t.hash.length

def inittable : Table Value := ⟨0, false, []⟩

def index (i : Nat) (offset : Int) : Option Nat :=
  if 0 ≤ i + offset then some (i + offset).toNat else none

/-- `pbT_hash`: no key but zero has the first position. -/
def hashOf (size : Nat) (key : Int64) : Nat :=
  let h := (key.toUInt64 * 2654435761).toNat &&& (size - 1)
  if key ≠ 0 ∧ h = 0 then 1 else h

/-- The position has been read before it is written. -/
def put (t : Table Value) (i : Nat) (entry : Slot Value) : Table Value :=
  { t with hash := t.hash.set i entry }

/-- The walk of `pb_gettable`. -/
def find (t : Table Value) (key : Int64) : Nat → Nat → Option (Option Nat)
  | 0, _ => none
  | fuel + 1, i => do
      let entry ← t.hash[i]?
      if entry.key = key then return some i
      else if entry.next = 0 then return none
      else
        let next ← index i entry.next
        find t key fuel next

def gettable (t : Table Value) (key : Int64) : Option (Option Nat) :=
  if t.size = 0 then some none
  else if key = 0 then some (if t.hasZero then some 0 else none)
  else t.find key t.size (hashOf t.size key)

/-- The loop that looks for a free place, down to the second; it leaves `lastfree`. -/
def scan (hash : List (Slot Value)) : Nat → Option (Nat × Option Nat)
  | 0 => some (0, none)
  | 1 => some (1, none)
  | lastfree + 2 => do
      let cur ← hash[lastfree + 1]?
      if cur.key = 0 ∧ cur.next = 0 then return (lastfree + 1, some (lastfree + 1))
      else scan hash (lastfree + 1)

/-- The loop that looks for the entry in front of `mp`. -/
def before (t : Table Value) (mp : Nat) : Nat → Nat → Option Nat
  | 0, _ => none
  | fuel + 1, on => do
      let entry ← t.hash[on]?
      let next ← index on entry.next
      if next = mp then return on else before t mp fuel next

/-- The entry of `mp` goes to the free place. -/
def evict (t : Table Value) (f mp : Nat) : Option (Table Value) := do
  let entry ← t.hash[mp]?
  let on ← t.before mp t.size (hashOf t.size entry.key)
  let front ← t.hash[on]?
  let moved := if entry.next ≠ 0 then entry.next + (mp - f) else entry.next
  return ((t.put on { front with next := f - on }).put f { entry with next := moved }).put mp
    { entry with next := 0 }

/-- The free place comes second in the chain of `mp`. -/
def hook (t : Table Value) (f mp : Nat) : Option (Table Value) := do
  let entry ← t.hash[mp]?
  let free ← t.hash[f]?
  let behind := if entry.next ≠ 0 then mp - f + entry.next else free.next
  return (t.put f { free with next := behind }).put mp { entry with next := f - mp }

/-- The key gets the entry, and the value is zeroed. -/
def claim (t : Table Value) (mp : Nat) (key : Int64) : Option (Table Value × Option Nat) := do
  let entry ← t.hash[mp]?
  return (t.put mp { entry with key := key, value := none }, some mp)

/-- `pbT_newkey` up to the point where no free place has been found. -/
def place (t : Table Value) (key : Int64) : Option (Table Value × Option Nat) :=
  if key = 0 then { t with hasZero := true }.claim 0 key
  else do
    let mp := hashOf t.size key
    let entry ← t.hash[mp]?
    if entry.key = 0 then t.claim mp key
    else
      let scanned ← scan t.hash t.lastfree
      let t := { t with lastfree := scanned.1 }
      match scanned.2 with
      | none => return (t, none)
      | some f =>
          if hashOf t.size entry.key ≠ mp then
            let t ← t.evict f mp
            t.claim mp key
          else
            let t ← t.hook f mp
            t.claim f key

/-- `newsize <<= 1` until it is large enough. -/
def doubled : Nat → Nat → Nat → Nat
  | 0, newsize, _ => newsize
  | fuel + 1, newsize, size => if newsize < size then doubled fuel (2 * newsize) size else newsize

def newSize (size : Nat) : Nat := doubled size 8 size

/-- One turn of the loop of `pb_resizetable`. -/
def carry (newkey : Table Value → Int64 → Option (Table Value × Option Nat))
    (nt : Table Value) (olde : Slot Value) : Option (Table Value) := do
  let made ← newkey nt olde.key
  let i ← made.2
  let newe ← made.1.hash[i]?
  return made.1.put i { newe with value := olde.value }

/-- `pb_resizetable`: whether the table has been resized.  What stands for zero in the old
table is carried along. -/
def resizetable (room : Nat) (newkey : Table Value → Int64 → Option (Table Value × Option Nat))
    (t : Table Value) (size : Nat) : Option (Table Value × Bool) :=
  let newsize := newSize size
  if room < newsize then some (t, false)
  else do
    let nt ← t.hash.foldlM (carry newkey)
      { t with lastfree := newsize, hash := List.replicate newsize Slot.zeroed }
    return (nt, true)

/-- `pbT_newkey`, so many calls deep. -/
def newkey (room : Nat) : Nat → Table Value → Int64 → Option (Table Value × Option Nat)
  | 0, _, _ => none
  | depth + 1, t, key => do
      let made ← if t.size = 0 then resizetable room (newkey room depth) t (t.size * 2)
        else some (t, true)
      if made.2 then
        let placed ← made.1.place key
        if placed.2 = none then
          let grown ← resizetable room (newkey room depth) placed.1 (placed.1.size * 2)
          if grown.2 then newkey room depth grown.1 key else return (grown.1, none)
        else return placed
      else return (made.1, none)

/-- `pb_settable`; behind a growth `pbT_newkey` calls itself no more. -/
def settable (room : Nat) (t : Table Value) (key : Int64) : Option (Table Value × Option Nat) := do
  let found ← t.gettable key
  if found = none then newkey room 2 t key else return (t, found)

end Table

end CrossOver.Lua.Pb
