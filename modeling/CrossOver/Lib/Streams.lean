import Mathlib.Data.List.Basic
import Mathlib.Tactic.Common

/-!
# Streams of cells, some of them stale

A writer and a reader go through the same list of cells.  A cell is `Blurred`
when the reader expects a run of zeros there, and the writer left it out or put
something else.  One blurred cell is enough for the reader not to find what it
expects: a later cell cannot make up for it.
-/

namespace CrossOver.Lib

variable {Symbol : Type} {zero : Symbol}

structure StreamCell (Symbol : Type) where
  expected : List Symbol
  written : List Symbol

namespace StreamCell

/-- Zeros are expected, and the writer left the cell out or put a nonzero symbol
where a zero is expected. -/
def Blurred (zero : Symbol) (cell : StreamCell Symbol) : Prop :=
  (∃ width, 0 < width ∧ cell.expected = List.replicate width zero) ∧
    (cell.written = [] ∨ ∃ symbol ∈ cell.written.take cell.expected.length, symbol ≠ zero)

def Agrees (cell : StreamCell Symbol) : Prop := cell.expected = cell.written

theorem Blurred.not_agrees {cell : StreamCell Symbol} (blurred : cell.Blurred zero) :
    ¬ cell.Agrees := by
  obtain ⟨⟨width, wide, zeros⟩, put⟩ := blurred
  intro agrees
  rw [Agrees] at agrees
  rw [← agrees, List.take_length, zeros] at put
  obtain missing | ⟨symbol, membership, nonzero⟩ := put
  · rw [List.replicate_eq_nil_iff] at missing
    omega
  · exact nonzero (List.eq_of_mem_replicate membership)

end StreamCell

theorem zeros_of_prefix_shifted {run : Nat} (positive : 0 < run) :
    ∀ word : List Symbol, word <+: List.replicate run zero ++ word →
      word = List.replicate word.length zero := by
  intro word isPrefix
  apply List.eq_replicate_of_mem
  intro symbol membership
  obtain ⟨index, bound, rfl⟩ := List.getElem_of_mem membership
  clear membership
  induction index using Nat.strongRecOn with
  | _ index inductionHypothesis =>
      rw [isPrefix.getElem bound]
      by_cases inside : index < run
      · rw [List.getElem_append_left (by simpa using inside), List.getElem_replicate]
      · rw [List.getElem_append_right (by simpa using inside)]
        simp only [List.length_replicate]
        exact inductionHypothesis (index - run) (by omega) (by omega)

/-- A nonzero symbol inside a run of zeros rules the run out. -/
theorem zeros_not_found {run : Nat} {word rest stream : List Symbol}
    (nonzero : ∃ symbol ∈ word.take run, symbol ≠ zero) :
    ¬ List.replicate run zero ++ rest <+: word ++ stream := by
  intro isPrefix
  obtain ⟨symbol, membership, different⟩ := nonzero
  apply different
  have zeros : List.replicate run zero <+: word ++ stream :=
    (List.prefix_append _ _).trans isPrefix
  have cut := List.prefix_iff_eq_take.mp zeros
  rw [List.length_replicate] at cut
  have inside : symbol ∈ (word ++ stream).take run := by
    rw [List.take_append]
    exact List.mem_append_left _ membership
  rw [← cut] at inside
  exact List.eq_of_mem_replicate inside

section

variable {cells : List (StreamCell Symbol)}

theorem ahead_never_found
    (each : ∀ cell ∈ cells, cell.Agrees ∨ cell.Blurred zero) {run : Nat} (positive : 0 < run) :
    ¬ List.replicate run zero ++ (cells.flatMap StreamCell.expected) <+:
      cells.flatMap StreamCell.written := by
  induction cells generalizing run with
  | nil =>
      intro isPrefix
      have length := isPrefix.length_le
      simp at length
      omega
  | cons cell rest inductionHypothesis =>
      intro isPrefix
      have others := fun other membership => each other (List.mem_cons_of_mem _ membership)
      rw [List.flatMap_cons, List.flatMap_cons, ← List.append_assoc] at isPrefix
      obtain agrees | ⟨⟨width, wide, zeros⟩, missing | nonzero⟩ := each cell List.mem_cons_self
      · rw [StreamCell.Agrees] at agrees
        rw [← agrees] at isPrefix
        have front : cell.expected <+: List.replicate run zero ++ cell.expected :=
          List.prefix_of_prefix_length_le (List.prefix_append _ _)
            ((List.prefix_append _ _).trans isPrefix) (by simp)
        have all := zeros_of_prefix_shifted positive cell.expected front
        have swapped : List.replicate run zero ++ cell.expected =
            cell.expected ++ List.replicate run zero := by
          rw [all, List.replicate_append_replicate, List.replicate_append_replicate, Nat.add_comm]
        rw [swapped, List.append_assoc, List.prefix_append_right_inj] at isPrefix
        exact inductionHypothesis others positive isPrefix
      · rw [zeros, missing, List.replicate_append_replicate, List.nil_append] at isPrefix
        exact inductionHypothesis others (by omega) isPrefix
      · rw [zeros, List.length_replicate] at nonzero
        rw [zeros, List.replicate_append_replicate] at isPrefix
        apply zeros_not_found _ isPrefix
        obtain ⟨symbol, membership, different⟩ := nonzero
        exact ⟨symbol, (List.take_subset_take_left _ (by omega)) membership, different⟩

/-- The reader finds what it expects exactly when every cell agrees. -/
theorem expected_prefix_iff (each : ∀ cell ∈ cells, cell.Agrees ∨ cell.Blurred zero) :
    cells.flatMap StreamCell.expected <+: cells.flatMap StreamCell.written ↔
      ∀ cell ∈ cells, cell.Agrees := by
  constructor
  · intro isPrefix
    induction cells with
    | nil => simp
    | cons cell rest inductionHypothesis =>
        have others := fun other membership => each other (List.mem_cons_of_mem _ membership)
        rw [List.flatMap_cons, List.flatMap_cons] at isPrefix
        obtain agrees | ⟨⟨width, wide, zeros⟩, missing | nonzero⟩ := each cell List.mem_cons_self
        · rw [StreamCell.Agrees] at agrees
          rw [← agrees, List.prefix_append_right_inj] at isPrefix
          exact List.forall_mem_cons.mpr ⟨agrees, inductionHypothesis others isPrefix⟩
        · rw [zeros, missing, List.nil_append] at isPrefix
          exact absurd isPrefix (ahead_never_found others wide)
        · rw [zeros, List.length_replicate] at nonzero
          rw [zeros] at isPrefix
          exact absurd isPrefix (zeros_not_found nonzero)
  · intro all
    have same : cells.flatMap StreamCell.expected = cells.flatMap StreamCell.written :=
      List.flatMap_congr fun cell membership => all cell membership
    exact same ▸ List.prefix_rfl

end

end CrossOver.Lib
