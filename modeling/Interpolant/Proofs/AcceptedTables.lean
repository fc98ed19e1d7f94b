import Interpolant.Proofs.BinaryFloat
import Interpolant.Proofs.Selection

/-! # Which tables windows are selected from

A window is selected from locations in which no adjacent pair is found to go down or to repeat. No
comparison with a value that is no number holds, so that such a value hides the step over it: the
locations that are accepted are those that increase between any two such values. An accepted table
increases as a whole exactly if all of its locations are numbers. From any other table nothing is
evaluated, by either method.
-/

namespace Interpolant

universe u

open OrderedScalar

/-- A call that was refused and left the buffer as it was. -/
structure Written.Untouched {α : Type u} (call : Written α) (before : List α) : Prop where
  refusal : ∃ fault, call.result = .error fault
  out : call.out = before

/-- Locations that are next to one another, and all numbers, increase. -/
def RunsIncrease {α : Type u} [Scalar α] (locations : List α) : Prop :=
  ∀ run, run <:+: locations → (∀ a ∈ run, IsNumber a) → run.Pairwise (· < ·)

namespace Written

variable {α : Type u} {β : Type u}

theorem untouched_refused (fault : Fault) (out : List α) :
    (Written.refused fault out).Untouched out :=
  ⟨⟨fault, rfl⟩, rfl⟩

theorem untouched_after {first : Traced Fault β} (out : List α) (next : β → Written α)
    (none : ¬ ∃ value, first.result = .ok value) : (after first out next).Untouched out := by
  cases ran : first.result with
  | ok value => exact absurd ⟨value, ran⟩ none
  | error fault =>
    rw [after_of_error out next ran]
    exact ⟨⟨fault, rfl⟩, rfl⟩

end Written

variable {α : Type} [Scalar α] [BinaryFloat α]

theorem BinaryFloat.isNumber_of_le {a b : α} (below : a ≤ b) : IsNumber a ∧ IsNumber b := by
  obtain ⟨left, right, -⟩ := le_iff_extended.mp below
  exact ⟨isNumber_iff.mpr left, isNumber_iff.mpr right⟩

theorem ascending_iff_runsIncrease {locations : List α} :
    Ascending locations ↔ RunsIncrease locations := by
  constructor
  · intro ascending run inside numbers
    have part : Ascending run := List.IsChain.infix ascending inside
    exact part.pairwise_lt numbers
  · intro increase
    refine (List.isChain_isInfix locations).imp fun left right pair down => ?_
    obtain ⟨low, high⟩ := BinaryFloat.isNumber_of_le down
    have numbers : ∀ a ∈ [left, right], IsNumber a :=
      List.forall_mem_cons.mpr ⟨high, List.forall_mem_singleton.mpr low⟩
    have up := List.rel_of_pairwise_cons (increase _ pair numbers) (List.mem_singleton_self right)
    exact (lt_iff.mp up).2 down

/-- Whatever is compared is a number. -/
theorem isNumber_of_increasing {locations : List α} (size : 2 ≤ locations.length)
    (increasing : locations.Pairwise (· < ·)) {a : α} (member : a ∈ locations) : IsNumber a := by
  obtain ⟨i, bound, rfl⟩ := List.mem_iff_getElem.mp member
  have ordered := List.pairwise_iff_getElem.mp increasing
  rcases Nat.lt_or_ge (i + 1) locations.length with next | last
  · exact (BinaryFloat.isNumber_of_le (lt_iff.mp (ordered i (i + 1) bound next (by omega))).1).1
  · have before : i - 1 < locations.length := by omega
    exact (BinaryFloat.isNumber_of_le (lt_iff.mp (ordered (i - 1) i before bound (by omega))).1).2

theorem RunsIncrease.increasing_iff {locations : List α} (increase : RunsIncrease locations)
    (size : 2 ≤ locations.length) :
    locations.Pairwise (· < ·) ↔ ∀ a ∈ locations, IsNumber a :=
  ⟨fun increasing _ member => isNumber_of_increasing size increasing member,
    increase locations List.infix_rfl⟩

/-- A window is selected exactly from locations that increase wherever they can be compared; and
those increase as a whole exactly if they are all numbers. From other locations nothing is evaluated
and nothing is written, with a check of the table or without it. -/
theorem Table.accepts_increasing_runs (x : α) (table : Table α) :
    (∀ count, (∃ window, (Window.select x table.locations count).result = .ok window) ↔
        2 ≤ count ∧ 2 ≤ table.size ∧ RunsIncrease table.locations) ∧
      (∀ count window, (Window.select x table.locations count).result = .ok window →
        (table.locations.Pairwise (· < ·) ↔ ∀ a ∈ table.locations, IsNumber a)) ∧
      ∀ degree out, ¬ RunsIncrease table.locations →
        (∀ method : Method, (method.interpolateWindowed x table degree out).Untouched out) ∧
          (table.evaluateWindowed x degree out).Untouched out := by
  have accepted (count : Nat) :
      (∃ window, (Window.select x table.locations count).result = .ok window) ↔
        2 ≤ count ∧ 2 ≤ table.size ∧ RunsIncrease table.locations := by
    rw [← ascending_iff_runsIncrease]
    constructor
    · rintro ⟨window, selected⟩
      obtain ⟨two, size, ascending, -⟩ := Window.select_eq_ok_iff.mp selected
      exact ⟨two, size, ascending⟩
    · rintro ⟨two, size, ascending⟩
      exact ⟨_, Window.select_eq_ok_iff.mpr ⟨two, size, ascending, rfl⟩⟩
  refine ⟨accepted, ?_, ?_⟩
  · intro count window selected
    obtain ⟨-, size, increase⟩ := (accepted count).mp ⟨window, selected⟩
    exact increase.increasing_iff size
  · intro degree out broken
    have none (count : Nat) :
        ¬ ∃ window, (Window.select x table.locations count).result = .ok window :=
      fun found => broken ((accepted count).mp found).2.2
    refine ⟨fun method => ?_, Written.untouched_after _ _ (none _)⟩
    rw [Method.interpolateWindowed]
    split
    · exact Written.untouched_after _ _ (none _)
    · exact Written.untouched_refused _ _

/-- Behind a value that is no number the locations go down unnoticed; between two numbers they do not. -/
theorem Table.accepts_increasing_runs_nan :
    let hidden : Table Float := ⟨[1, 0 / 0, 0], [2, 5, 1], 1⟩
    let falling : Table Float := ⟨[1, 0], [2, 5], 1⟩
    (Window.select (-1) hidden.locations 2).result = .ok ⟨0, 2⟩ ∧
      RunsIncrease hidden.locations ∧ ¬ hidden.locations.Pairwise (· < ·) ∧
      (Method.lagrange.interpolateWindowed (-1) falling 1 [9]).Untouched [9] ∧
      (falling.evaluateWindowed (-1) 1 [9]).Untouched [9] := by
  intro hidden falling
  have selected : (Window.select (-1) hidden.locations 2).result = .ok ⟨0, 2⟩ := by decide +kernel
  obtain ⟨accepted, increasing, -⟩ := accepts_increasing_runs (-1) hidden
  obtain ⟨accepted', -, untouched⟩ := accepts_increasing_runs (-1) falling
  have missing : ¬ ∀ a ∈ hidden.locations, IsNumber a := by decide
  have broken : ¬ RunsIncrease falling.locations := by
    intro increase
    obtain ⟨_, found⟩ := (accepted' 2).mpr ⟨by decide, by decide, increase⟩
    have refused : (Window.select (-1) falling.locations 2).result = .error .notIncreasing := by
      decide +kernel
    exact nomatch found.symm.trans refused
  obtain ⟨windowed, checked⟩ := untouched 1 [9] broken
  exact ⟨selected, ((accepted 2).mp ⟨_, selected⟩).2.2,
    fun increase => missing ((increasing 2 _ selected).mp increase), windowed .lagrange, checked⟩

end Interpolant
