import CrossOver.Lua.Clone

/-!
# The copy is isomorphic to the original

`Copies` and `CopiesPairs` say what `_copy` and its loop do from any state of the run.
Either is derived from both with less fuel.  The fuel covers what is not yet visited:
`spent` is the share of the tables that were entered.
-/

namespace CrossOver.Lua.Clone

open CrossOver.Lib

def Never (_ : Failure) (_ : State) : Prop := False

/-! ## The primitives -/

/-- The key at which the loop stands behind the pairs of `front`. -/
def cursor (front : List Entry) : Object :=
  match front.getLast? with
  | none => .nil
  | some entry => entry.1

theorem cursor_append (front : List Entry) (entry : Entry) :
    cursor (front ++ [entry]) = entry.1 := by
  rw [cursor, List.getLast?_append, List.getLast?_singleton, Option.some_or]

theorem Table.next_of_ne_nil (table : Table) {key : Object} (notNil : key ≠ .nil) :
    table.next key = match table.entries.dropWhile fun entry => entry.1 ≠ key with
      | [] => .error .invalidKeyToNext
      | _ :: behind => .ok behind.head? := by
  cases key with
  | nil => exact absurd rfl notNil
  | _ => rfl

theorem Table.key_ne_nil (table : Table) {entry : Entry} (member : entry ∈ table.entries) :
    entry.1 ≠ .nil := by
  intro isNil
  have normal := table.normalized entry member
  rw [isNil] at normal
  cases normal

theorem Table.next_cursor {table : Table} {front back : List Entry}
    (split : table.entries = front ++ back) : table.next (cursor front) = .ok back.head? := by
  rcases List.eq_nil_or_concat front with rfl | ⟨start, entry, rfl⟩
  · rw [List.nil_append] at split
    rw [← split]
    rfl
  · rw [List.concat_eq_append] at split ⊢
    rw [List.append_assoc, List.singleton_append] at split
    have member : entry ∈ table.entries := by rw [split]; simp
    have earlier : ∀ other ∈ start, decide (other.1 ≠ entry.1) = true := by
      intro other among
      have distinct := table.distinct
      rw [split, List.map_append, List.map_cons] at distinct
      have apart := (List.nodup_append.mp distinct).2.2
      exact decide_eq_true (apart other.1 (List.mem_map_of_mem among) entry.1
        List.mem_cons_self)
    have found : (table.entries.dropWhile fun other => other.1 ≠ entry.1) = entry :: back := by
      rw [split, List.dropWhile_append_of_pos earlier, List.dropWhile_cons_of_neg]
      exact fun differ => of_decide_eq_true differ rfl
    rw [cursor_append, table.next_of_ne_nil (table.key_ne_nil member), found]

def ofMetatable : Option Nat → Object
  | none => .nil
  | some metatable => .table metatable

section Primitives

variable {s : State} {a b : Nat}

theorem wp_newTable {post : Nat → State → Prop}
    (holds : post s.tables.length { s with tables := s.tables ++ [.empty] }) :
    Wp Never newTable post s := holds

theorem wp_remember {post : Unit → State → Prop}
    (holds : post () { s with lookupTable := (a, b) :: s.lookupTable }) :
    Wp Never (remember a b) post s := holds

theorem wp_next {post : Option Entry → State → Prop} {front back : List Entry}
    (split : (tableAt s.tables a).entries = front ++ back) (holds : post back.head? s) :
    Wp Never (next a (cursor front)) post s := by
  unfold next
  rw [wp_bind, wp_get, Table.next_cursor split]
  exact holds

theorem wp_rawset {post : Unit → State → Prop} {key value : Object} {stored : Table}
    (success : (tableAt s.tables b).rawset key value = .ok stored)
    (holds : post () { s with tables := s.tables.set b stored }) :
    Wp Never (rawset b key value) post s := by
  unfold rawset
  rw [wp_bind, wp_get, success]
  exact holds

theorem wp_pairs {post : Unit → State → Prop}
    (plain : getmetafield s.tables a pairsField = .nil) (holds : post () s) :
    Wp Never (pairs a) post s := by
  unfold pairs
  rw [wp_bind, wp_get, if_pos plain]
  exact holds

theorem wp_getmetatable {post : Object → State → Prop}
    (plain : getmetafield s.tables a metatableField = .nil)
    (holds : post (ofMetatable (tableAt s.tables a).metatable) s) :
    Wp Never (getmetatable a) post s := by
  unfold getmetatable
  rw [wp_bind, wp_get]
  cases found : (tableAt s.tables a).metatable with
  | none =>
      rw [found] at holds
      exact holds
  | some metatable =>
      rw [found] at holds
      dsimp only
      rw [if_pos plain]
      exact holds

theorem wp_setmetatable {post : Unit → State → Prop} {given : Option Nat}
    (without : (tableAt s.tables b).metatable = none)
    (holds : post () { s with
      tables := s.tables.set b ((tableAt s.tables b).withMetatable given) }) :
    Wp Never (setmetatable b (ofMetatable given)) post s := by
  have plain : getmetafield s.tables b metatableField = .nil := by
    rw [getmetafield, without]
  unfold setmetatable
  cases given <;>
  · rw [wp_bind, wp_get]
    dsimp only [ofMetatable]
    rw [wp_bind, wp_pure, if_pos plain]
    exact holds

end Primitives

theorem getmetafield_base {base tables : List Table} {a : Nat} (closed : Closed base)
    (part : base <+: tables) (inside : a < base.length) (field : Object) :
    getmetafield tables a field = getmetafield base a field := by
  rw [getmetafield, getmetafield, tableAt_base part inside]
  cases found : (tableAt base a).metatable with
  | none => rfl
  | some metatable =>
      dsimp only
      rw [tableAt_base part (closed.metatable_lt found)]

/-! ## Fuel -/

/-- What the copies of all tables cost together. -/
def size (tables : List Table) : Nat := (tables.map fun table => table.entries.length + 2).sum

def cost (base : List Table) (a : Nat) : Nat := (tableAt base a).entries.length + 2

def spent (base : List Table) (s : State) : Nat :=
  ((s.lookupTable.map Prod.fst).map (cost base)).sum

theorem cost_range (base : List Table) :
    ((List.range base.length).map (cost base)).sum = size base := by
  have costs : (List.range base.length).map (cost base) =
      base.map fun table => table.entries.length + 2 := by
    apply List.ext_getElem
    · simp
    · intro index _ inside
      rw [List.length_map] at inside
      simp [cost, tableAt, inside]
  rw [costs, size]

section Budget

variable {base : List Table} {object : Object} {pending : List Nat} {s t : State}

theorem spent_le (closed : Closed base) (inside : object.Inside base.length)
    (running : Running base object pending s) : spent base s ≤ size base := by
  rw [← cost_range]
  refine visited_cost_le running.visited fun a entered => ?_
  obtain ⟨pair, member, rfl⟩ := List.mem_map.mp entered
  exact List.mem_range.mpr ((running.reached pair member).inside closed inside)

theorem Grows.spent_le {written : List Nat} (grows : Grows written s t) (base : List Table) :
    spent base s ≤ spent base t := by
  obtain ⟨more, same⟩ := grows.remembered
  rw [spent, spent, ← same, List.map_append, List.map_append, List.sum_append]
  omega

end Budget

/-! ## One step of the recursion -/

/-- `_copy` with this fuel, from every state where the fuel covers what is left. -/
def Copies (base : List Table) (object : Object) (fuel : Nat) : Prop :=
  ∀ (value : Object) (pending : List Nat) (s : State), Running base object pending s →
    (∀ a, value = .table a → Reachable base object a) → size base < fuel + spent base s →
    Wp Never (copy fuel value)
      (fun copied t =>
        Running base object pending t ∧ Grows [] s t ∧ Copied t.lookupTable value copied) s

/-- The new table at `b` has the copies of `entries` only. -/
structure IsFilled (s : State) (b : Nat) (entries : List Entry) : Prop where
  entries : List.Forall₂ (CopiedEntry s.lookupTable) entries (tableAt s.tables b).entries
  metatable : (tableAt s.tables b).metatable = none

def CopiesPairs (base : List Table) (object : Object) (fuel : Nat) : Prop :=
  ∀ (a b : Nat) (front back : List Entry) (pending : List Nat) (s : State),
    Running base object pending s → (a, b) ∈ s.lookupTable → b ∈ pending →
    (tableAt base a).entries = front ++ back → IsFilled s b front →
    size base + back.length < fuel + spent base s →
    Wp Never (copyPairs fuel a b (cursor front))
      (fun _ t => Running base object pending t ∧ Grows [b] s t ∧
        IsFilled t b (tableAt base a).entries) s

section Recursion

variable {base : List Table} {object : Object} {fuel : Nat}

theorem copies_zero (closed : Closed base) (inside : object.Inside base.length) :
    Copies base object 0 := by
  intro value pending s running _ enough
  have bound := spent_le closed inside running
  omega

theorem copiesPairs_zero (closed : Closed base) (inside : object.Inside base.length) :
    CopiesPairs base object 0 := by
  intro a b front back pending s running _ _ _ _ enough
  have bound := spent_le closed inside running
  omega

theorem IsFilled.kept {s t : State} {b : Nat} {entries : List Entry}
    (filled : IsFilled s b entries) (grows : Grows [] s t) (inside : b < s.tables.length) :
    IsFilled t b entries where
  entries := by
    rw [grows.kept b inside List.not_mem_nil]
    exact copiedEntries_mono grows.remembered.subset filled.entries
  metatable := by
    rw [grows.kept b inside List.not_mem_nil]
    exact filled.metatable

/-- The copies of a pair go behind the pairs that are there. -/
theorem IsFilled.rawset {s : State} {b : Nat} {front back : List Entry}
    {entry copied : Entry} {table : Table} (filled : IsFilled s b front)
    (split : table.entries = front ++ entry :: back)
    (distinct : (s.lookupTable.map Prod.snd).Nodup)
    (made : CopiedEntry s.lookupTable entry copied) (inside : b < s.tables.length) :
    ∃ stored, (tableAt s.tables b).rawset copied.1 copied.2 = .ok stored ∧
      IsFilled { s with tables := s.tables.set b stored } b (front ++ [entry]) := by
  have member : entry ∈ table.entries := by rw [split]; simp
  have new : copied.1 ∉ (tableAt s.tables b).entries.map Prod.fst := by
    intro among
    obtain ⟨key, old, madeKey⟩ := copied_key filled.entries among
    have keys := table.distinct
    rw [split, List.map_append, List.map_cons] at keys
    exact (List.nodup_append.mp keys).2.2 key old entry.1 List.mem_cons_self
      (madeKey.injective distinct made.1)
  obtain ⟨stored, success, entries, metatable⟩ := Table.rawset_new
    (made.1.normalized (table.normalized entry member)) new
    (made.2.ne_nil (table.present entry member))
  refine ⟨stored, success, ?_, ?_⟩
  · change List.Forall₂ _ _ (tableAt (s.tables.set b stored) b).entries
    rw [tableAt_set_self inside, entries]
    exact List.rel_append filled.entries (.cons made .nil)
  · change (tableAt (s.tables.set b stored) b).metatable = none
    rw [tableAt_set_self inside, metatable]
    exact filled.metatable

theorem copiesPairs_step (closed : Closed base) (inside : object.Inside base.length)
    (values : Copies base object fuel) (pairs : CopiesPairs base object fuel) :
    CopiesPairs base object (fuel + 1) := by
  intro a b front back pending s running entered isPending split filled enough
  have reached := running.reached _ entered
  have sameTable := tableAt_base running.unchanged (reached.inside closed inside)
  rw [copyPairs]
  refine wp_bind.mpr (wp_next (sameTable.symm ▸ split) ?_)
  cases back with
  | nil =>
      rw [List.append_nil] at split
      exact ⟨running, .refl _ s, split ▸ filled⟩
  | cons entry back =>
      rw [List.length_cons] at enough
      have member : entry ∈ (tableAt base a).entries := by rw [split]; simp
      have keyReached : ∀ c, entry.1 = .table c → Reachable base object c :=
        fun c isTable => reached.refers ⟨entry, member, Or.inl isTable⟩
      have valueReached : ∀ c, entry.2 = .table c → Reachable base object c :=
        fun c isTable => reached.refers ⟨entry, member, Or.inr isTable⟩
      have fresh := running.fresh _ entered
      -- the key
      refine (values entry.1 pending s running keyReached (by omega)).seq ?_
      rintro newKey s₁ ⟨running₁, grows₁, madeKey⟩
      have spent₁ := grows₁.spent_le base
      -- the value
      refine (values entry.2 pending s₁ running₁ valueReached (by omega)).seq ?_
      rintro newValue s₂ ⟨running₂, grows₂, madeValue⟩
      have grows := grows₁.trans grows₂
      have spent₂ := grows.spent_le base
      -- the assignment
      have inside₂ : b < s₂.tables.length := Nat.lt_of_lt_of_le fresh.2 grows.longer
      have made : CopiedEntry s₂.lookupTable entry (newKey, newValue) :=
        ⟨madeKey.mono grows₂.remembered.subset, madeValue⟩
      obtain ⟨stored, success, filled₂⟩ :=
        (filled.kept grows fresh.2).rawset split running₂.copies made inside₂
      refine wp_bind.mpr (wp_rawset success ?_)
      have rest := pairs a b (front ++ [entry]) back pending _
        (running₂.write isPending fresh.1 stored) (grows.remembered.subset entered) isPending
        (by rw [split, List.append_assoc, List.singleton_append]) filled₂
        (by change _ < fuel + spent base s₂; omega)
      rw [cursor_append] at rest
      refine rest.mono ?_
      rintro _ t ⟨runningAfter, growsAfter, filledAfter⟩
      exact ⟨runningAfter,
        ((grows.weaken [b]).trans (grows_write s₂ b stored)).trans growsAfter, filledAfter⟩

theorem copy_noTable {value : Object} (noTable : ∀ a, value ≠ .table a) :
    copy (fuel + 1) value = pure value := by
  rw [copy]
  exact noTable

theorem not_remembered {s : State} {a : Nat} (found : s.lookupTable.lookup a = none) :
    a ∉ s.lookupTable.map Prod.fst := by
  intro entered
  obtain ⟨pair, member, rfl⟩ := List.mem_map.mp entered
  have differ := List.lookup_eq_none_iff.mp found pair member
  rw [bne_self_eq_false] at differ
  cases differ

theorem isFilled_new (s : State) (a : Nat) :
    IsFilled ⟨s.tables ++ [.empty], (a, s.tables.length) :: s.lookupTable⟩ s.tables.length [] where
  entries := by
    rw [tableAt_new]
    exact .nil
  metatable := by
    rw [tableAt_new]
    rfl

theorem copies_step (closed : Closed base) (inside : object.Inside base.length)
    (plain : ∀ a, Reachable base object a → IsPlain base a)
    (pairs : CopiesPairs base object fuel) : Copies base object (fuel + 1) := by
  intro value pending s running reachable enough
  by_cases isTable : ∃ a, value = .table a
  · obtain ⟨a, rfl⟩ := isTable
    have reached := reachable a rfl
    rw [copy]
    refine wp_bind.mpr (wp_get.mpr ?_)
    cases found : s.lookupTable.lookup a with
    | some b =>
        obtain ⟨front, back, same, -⟩ := List.lookup_eq_some_iff.mp found
        have entered : (a, b) ∈ s.lookupTable := by rw [same]; simp
        exact ⟨running, .refl _ s, .table entered⟩
    | none =>
        -- the new table is entered
        have running₁ := running.enter reached (not_remembered found)
        have grows₁ := grows_enter s a
        have insideA := reached.inside closed inside
        refine wp_bind.mpr (wp_newTable (wp_bind.mpr (wp_remember ?_)))
        refine wp_bind.mpr (wp_pairs ?_ ?_)
        · rw [getmetafield_base closed running₁.unchanged insideA, (plain a reached).pairs]
        -- the pairs are copied
        refine (pairs a s.tables.length [] (tableAt base a).entries _ _ running₁
          List.mem_cons_self List.mem_cons_self rfl (isFilled_new s a) ?_).seq ?_
        · change _ < fuel + (cost base a + spent base s)
          rw [cost]
          omega
        rintro _ t ⟨running₂, grows₂, filled₂⟩
        -- the metatable is set
        have entered : (a, s.tables.length) ∈ t.lookupTable :=
          grows₂.remembered.subset List.mem_cons_self
        have fresh := running₂.fresh _ entered
        refine wp_bind.mpr (wp_getmetatable ?_ ?_)
        · rw [getmetafield_base closed running₂.unchanged insideA,
            (plain a reached).metatable]
        refine wp_bind.mpr (wp_setmetatable filled₂.metatable ?_)
        have running₃ := running₂.write List.mem_cons_self fresh.1
          ((tableAt t.tables s.tables.length).withMetatable (tableAt t.tables a).metatable)
        refine ⟨running₃.finish entered ?_, ?_, .table entered⟩
        · constructor
          · change List.Forall₂ _ _ (tableAt (t.tables.set _ _) _).entries
            rw [tableAt_set_self fresh.2]
            exact filled₂.entries
          · change (tableAt (t.tables.set _ _) _).metatable = _
            rw [tableAt_set_self fresh.2, ← tableAt_base running₂.unchanged insideA]
            rfl
        · exact (((grows₁.weaken _).trans grows₂).trans (grows_write t _ _)).fresh
  · have noTable : ∀ a, value ≠ .table a := fun a same => isTable ⟨a, same⟩
    rw [copy_noTable noTable]
    exact ⟨running, .refl _ s, .same noTable⟩

theorem copies_all (closed : Closed base) (inside : object.Inside base.length)
    (plain : ∀ a, Reachable base object a → IsPlain base a) (fuel : Nat) :
    Copies base object fuel ∧ CopiesPairs base object fuel := by
  induction fuel with
  | zero => exact ⟨copies_zero closed inside, copiesPairs_zero closed inside⟩
  | succ fuel inductionHypothesis =>
      obtain ⟨values, pairs⟩ := inductionHypothesis
      exact ⟨copies_step closed inside plain pairs,
        copiesPairs_step closed inside values pairs⟩

end Recursion

/-! ## The whole run -/

/-- `image` takes the graph of `object` to the graph of `newObject`, whose tables are new. -/
structure IsomorphicCopy (before : List Table) (object : Object) (after : List Table)
    (newObject : Object) (image : Nat → Nat) : Prop where
  unchanged : before <+: after
  root : newObject = object.moved image
  fresh : ∀ a, Reachable before object a → before.length ≤ image a ∧ image a < after.length
  injective : ∀ a b, Reachable before object a → Reachable before object b →
    image a = image b → a = b
  onto : ∀ b, Reachable after newObject b ↔ ∃ a, Reachable before object a ∧ image a = b
  entries : ∀ a, Reachable before object a →
    (tableAt after (image a)).entries.Perm
      ((tableAt before a).entries.map fun entry => (entry.1.moved image, entry.2.moved image))
  metatable : ∀ a, Reachable before object a →
    (tableAt after (image a)).metatable = (tableAt before a).metatable

section Image

/-- The copy that was entered for a table. -/
def imageOf (lookupTable : List (Nat × Nat)) (a : Nat) : Nat := (lookupTable.lookup a).getD 0

variable {lookupTable : List (Nat × Nat)}

theorem imageOf_eq (visited : (lookupTable.map Prod.fst).Nodup) {a b : Nat}
    (entered : (a, b) ∈ lookupTable) : imageOf lookupTable a = b := by
  cases found : lookupTable.lookup a with
  | none =>
      have differ := List.lookup_eq_none_iff.mp found _ entered
      rw [bne_self_eq_false] at differ
      cases differ
  | some c =>
      obtain ⟨front, back, same, -⟩ := List.lookup_eq_some_iff.mp found
      have enteredToo : (a, c) ∈ lookupTable := by rw [same]; simp
      rw [imageOf, found, Option.getD_some]
      exact congrArg Prod.snd (List.inj_on_of_nodup_map visited enteredToo entered rfl)

theorem Copied.eq_moved (visited : (lookupTable.map Prod.fst).Nodup) {object copied : Object}
    (made : Copied lookupTable object copied) : copied = object.moved (imageOf lookupTable) := by
  cases made with
  | table entered => rw [Object.moved, imageOf_eq visited entered]
  | same noTable =>
      cases object with
      | table a => exact absurd rfl (noTable a)
      | _ => rfl

theorem copiedEntries_eq (visited : (lookupTable.map Prod.fst).Nodup) {entries new : List Entry}
    (made : List.Forall₂ (CopiedEntry lookupTable) entries new) :
    new = entries.map fun entry =>
      (entry.1.moved (imageOf lookupTable), entry.2.moved (imageOf lookupTable)) := by
  induction made with
  | nil => rfl
  | cons entry _ inductionHypothesis =>
      rw [List.map_cons, ← inductionHypothesis, ← entry.1.eq_moved visited,
        ← entry.2.eq_moved visited]

theorem entered_of_refers {entries new : List Entry}
    (made : List.Forall₂ (CopiedEntry lookupTable) entries new) {entry : Entry} {b : Nat}
    (member : entry ∈ entries) (refers : entry.1 = .table b ∨ entry.2 = .table b) :
    b ∈ lookupTable.map Prod.fst := by
  have entered : ∀ {copied : Object}, Copied lookupTable (.table b) copied →
      b ∈ lookupTable.map Prod.fst := by
    intro copied copiedTable
    cases copiedTable with
    | table entered => exact List.mem_map_of_mem entered
    | same noTable => exact absurd rfl (noTable b)
  induction made with
  | nil => cases member
  | cons first _ inductionHypothesis =>
      rcases List.mem_cons.mp member with rfl | member
      · rcases refers with isKey | isValue
        · exact entered (isKey ▸ first.1)
        · exact entered (isValue ▸ first.2)
      · exact inductionHypothesis member

end Image

theorem refers_moved_iff {tables : List Table} {entries : List Entry} {image : Nat → Nat}
    {b c : Nat} (moved : (tableAt tables b).entries.Perm
      (entries.map fun entry => (entry.1.moved image, entry.2.moved image))) :
    Refers tables b c ↔ ∃ a, (∃ entry ∈ entries, entry.1 = .table a ∨ entry.2 = .table a) ∧
      image a = c := by
  have table_iff : ∀ object : Object, object.moved image = .table c ↔
      ∃ a, object = .table a ∧ image a = c := by
    intro object
    cases object <;> simp [Object.moved]
  constructor
  · rintro ⟨entry, member, refers⟩
    obtain ⟨old, among, rfl⟩ := List.mem_map.mp (moved.subset member)
    rcases refers with isKey | isValue
    · obtain ⟨a, isTable, same⟩ := (table_iff _).mp isKey
      exact ⟨a, ⟨old, among, Or.inl isTable⟩, same⟩
    · obtain ⟨a, isTable, same⟩ := (table_iff _).mp isValue
      exact ⟨a, ⟨old, among, Or.inr isTable⟩, same⟩
  · rintro ⟨a, ⟨old, among, refers⟩, same⟩
    refine ⟨_, moved.symm.subset (List.mem_map_of_mem among), ?_⟩
    exact refers.imp (fun isKey => (table_iff _).mpr ⟨a, isKey, same⟩)
      fun isValue => (table_iff _).mpr ⟨a, isValue, same⟩

/-! ## More fuel -/

theorem copy_extends (fuel : Nat) :
    (∀ value, Extends (copy (fuel + 1) value) (copy fuel value)) ∧
      ∀ a b key, Extends (copyPairs (fuel + 1) a b key) (copyPairs fuel a b key) := by
  induction fuel with
  | zero =>
      constructor
      · intro value
        rw [copy.eq_1]
        exact extends_throw _ _
      · intro a b key
        rw [copyPairs.eq_1]
        exact extends_throw _ _
  | succ fuel inductionHypothesis =>
      obtain ⟨values, pairs⟩ := inductionHypothesis
      constructor
      · intro value
        by_cases isTable : ∃ a, value = .table a
        · obtain ⟨a, rfl⟩ := isTable
          rw [copy, copy]
          refine (Extends.refl _).bind fun s => ?_
          cases s.lookupTable.lookup a with
          | some b => exact .refl _
          | none =>
              refine (Extends.refl _).bind fun b => (Extends.refl _).bind fun _ =>
                (Extends.refl _).bind fun _ => (pairs a b .nil).bind fun _ => ?_
              exact .refl _
        · have noTable : ∀ a, value ≠ .table a := fun a same => isTable ⟨a, same⟩
          rw [copy_noTable noTable, copy_noTable noTable]
          exact .refl _
      · intro a b key
        rw [copyPairs, copyPairs]
        refine (Extends.refl _).bind fun found => ?_
        cases found with
        | none => exact .refl _
        | some entry =>
            exact (values entry.1).bind fun _ => (values entry.2).bind fun _ =>
              (Extends.refl _).bind fun _ => pairs a b entry.1

theorem copy_more {fuel more : Nat} (enough : fuel ≤ more) (value : Object) :
    Extends (copy more value) (copy fuel value) := by
  induction enough with
  | refl => exact .refl _
  | step _ inductionHypothesis =>
      exact ((copy_extends _).1 value).trans inductionHypothesis

/-! ## The theorem -/

section Clone

variable {before : List Table} {object : Object}

theorem isomorphicCopy_of_running {s : State} {newObject : Object}
    (running : Running before object [] s) (made : Copied s.lookupTable object newObject) :
    IsomorphicCopy before object s.tables newObject (imageOf s.lookupTable) := by
  have entered : ∀ a, Reachable before object a →
      (a, imageOf s.lookupTable a) ∈ s.lookupTable := by
    rintro a ⟨root, rfl, steps⟩
    have visited : a ∈ s.lookupTable.map Prod.fst := by
      refine reached_of_closed (· ∈ s.lookupTable.map Prod.fst) ?_ ?_ steps
      · cases made with
        | table enteredRoot => exact List.mem_map_of_mem enteredRoot
        | same noTable => exact absurd rfl (noTable root)
      · rintro c b enteredC ⟨entry, member, refers⟩
        obtain ⟨pair, enteredPair, rfl⟩ := List.mem_map.mp enteredC
        have copy := running.finished pair enteredPair List.not_mem_nil
        exact entered_of_refers copy.entries member refers
    obtain ⟨pair, enteredPair, rfl⟩ := List.mem_map.mp visited
    rw [imageOf_eq running.visited enteredPair]
    exact enteredPair
  have copy : ∀ a, Reachable before object a → IsCopy before s a (imageOf s.lookupTable a) :=
    fun a reached => running.finished _ (entered a reached) List.not_mem_nil
  have moved : ∀ a, Reachable before object a →
      (tableAt s.tables (imageOf s.lookupTable a)).entries.Perm
        ((tableAt before a).entries.map fun entry =>
          (entry.1.moved (imageOf s.lookupTable), entry.2.moved (imageOf s.lookupTable))) :=
    fun a reached => .of_eq (copiedEntries_eq running.visited (copy a reached).entries)
  have isRoot := made.eq_moved running.visited
  constructor
  · exact running.unchanged
  · exact isRoot
  · exact fun a reached => running.fresh _ (entered a reached)
  · intro a b reachedA reachedB same
    have enteredA := entered a reachedA
    rw [same] at enteredA
    exact congrArg Prod.fst
      (List.inj_on_of_nodup_map running.copies enteredA (entered b reachedB) rfl)
  · intro b
    rw [isRoot]
    constructor
    · rintro ⟨root, same, steps⟩
      cases object with
      | table a =>
          cases same
          obtain ⟨c, reached, rfl⟩ := (reaches_image_iff fun c stepsC d =>
            refers_moved_iff (moved c ⟨a, rfl, stepsC⟩)).mp steps
          exact ⟨c, ⟨a, rfl, reached⟩, rfl⟩
      | _ => cases same
    · rintro ⟨c, ⟨root, rfl, steps⟩, rfl⟩
      exact ⟨_, rfl, (reaches_image_iff fun c stepsC d =>
        refers_moved_iff (moved c ⟨root, rfl, stepsC⟩)).mpr ⟨c, steps, rfl⟩⟩
  · exact moved
  · exact fun a reached => (copy a reached).metatable

/-- `clone` returns, with any fuel above the size of the heap, and makes an isomorphic copy. -/
theorem clone_isomorphic (closed : Closed before) (inside : object.Inside before.length)
    (plain : ∀ a, Reachable before object a → IsPlain before a) :
    ∃ newObject after image,
      (∀ fuel, size before < fuel → clone fuel before object = .ok (newObject, after)) ∧
        IsomorphicCopy before object after newObject image := by
  have start := (copies_all closed inside plain (size before + 1)).1 object [] ⟨before, []⟩
    (running_start before object) ?_ (by omega)
  · obtain ⟨newObject, s, ran, running, -, made⟩ := start.returns
    refine ⟨newObject, s.tables, imageOf s.lookupTable, fun fuel enough => ?_,
      isomorphicCopy_of_running running made⟩
    rw [clone, copy_more enough object _ _ _ ran]
  · rintro a rfl
    exact ⟨a, rfl, .refl⟩

/-- A table that is its own value and has a table twice, as a key and as a value, which has
it as a key. -/
def hub : Table where
  entries := [(.integer (.ofInt 1), .table 0), (.table 1, .boolean true), (.string [120], .table 1)]
  metatable := some 2
  distinct := by decide
  normalized := by decide
  present := by decide

def rim : Table where
  entries := [(.table 0, .integer (.ofInt 1))]
  metatable := none
  distinct := by decide
  normalized := by decide
  present := by decide

/-- `__index` -/
def hubMetatable : Table where
  entries := [(.string [95, 95, 105, 110, 100, 101, 120], .table 2)]
  metatable := none
  distinct := by decide
  normalized := by decide
  present := by decide

theorem wheel_closed : Closed [hub, rim, hubMetatable] := by
  constructor
  · simp [hub, rim, hubMetatable, Object.Inside, -Prod.forall]
  · simp [hub, rim, hubMetatable]

theorem clone_isomorphic_wheel :
    ∃ newObject after image,
      (∀ fuel, size [hub, rim, hubMetatable] < fuel →
        clone fuel [hub, rim, hubMetatable] (.table 0) = .ok (newObject, after)) ∧
        IsomorphicCopy [hub, rim, hubMetatable] (.table 0) after newObject image := by
  have inside : (Object.table 0).Inside [hub, rim, hubMetatable].length := by
    simp [Object.Inside]
  refine clone_isomorphic wheel_closed inside fun a reached => ?_
  have bound : a < 3 := reached.inside wheel_closed inside
  have plain : ∀ b < 3, getmetafield [hub, rim, hubMetatable] b pairsField = .nil ∧
      getmetafield [hub, rim, hubMetatable] b metatableField = .nil := by decide
  exact ⟨(plain a bound).1, (plain a bound).2⟩

end Clone

end CrossOver.Lua.Clone
