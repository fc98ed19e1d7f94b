import Interpolant.Proofs.WindowedExactness

/-! # Two samples

Through two samples there is one polynomial of degree one, and it is the chord. In exact arithmetic the
two methods therefore give the same values for a table of two samples. They check the table in a
different order and in different words, but they refuse the same tables and buffers; and they find the
same tables degenerate. On windows of two samples the methods are alike as well, whatever the table.
-/

namespace Interpolant

universe u v

namespace Written

variable {α : Type u} {β : Type v}

/-- The call found a wrong shape or a parameter out of range. -/
def RefusesInput (call : Written α) : Prop :=
  ∃ fault, call.result = .error fault ∧ fault.IsInvalidInput

/-- Two calls succeed with the same values in the buffer, or they both refuse their input, or they
both name the same two samples. -/
structure Alike (call other : Written α) : Prop where
  success : call.result = .ok () ↔ other.result = .ok ()
  values : call.result = .ok () → call.out = other.out
  refusal : call.RefusesInput ↔ other.RefusesInput
  degenerate : ∀ i j, call.result = .error (.degenerateSamples i j) ↔
    other.result = .error (.degenerateSamples i j)

namespace Alike

variable {out out' : List α} {log log' : List Event}

theorem refl (call : Written α) : call.Alike call :=
  ⟨Iff.rfl, fun _ => rfl, Iff.rfl, fun _ _ => Iff.rfl⟩

/-- Whatever is left in the buffer and in the log, the fault says how a call failed. -/
theorem of_fault (fault : Fault) : (⟨.error fault, out, log⟩ : Written α).Alike
    ⟨.error fault, out', log'⟩ :=
  ⟨Iff.rfl, nofun, Iff.rfl, fun _ _ => Iff.rfl⟩

theorem of_refusals {call other : Written α} (refused : call.RefusesInput)
    (refused' : other.RefusesInput) : call.Alike other := by
  obtain ⟨fault, failed, invalid⟩ := refused
  obtain ⟨fault', failed', invalid'⟩ := refused'
  have named {fault : Fault} (invalid : fault.IsInvalidInput) (i j : ℕ) :
      fault ≠ .degenerateSamples i j := by
    rintro rfl
    exact invalid
  refine ⟨?_, ?_, ⟨fun _ => ⟨fault', failed', invalid'⟩, fun _ => ⟨fault, failed, invalid⟩⟩, ?_⟩
  · rw [failed, failed']
    exact ⟨nofun, nofun⟩
  · rw [failed]
    exact nofun
  · intro i j
    rw [failed, failed', Except.error.injEq, Except.error.injEq]
    exact iff_of_false (named invalid i j) (named invalid' i j)

/-- Two calls with the same beginning are alike if they go on alike. -/
theorem after {first : Traced Fault β} {next next' : β → Written α}
    (later : ∀ value, first.result = .ok value → (next value).Alike (next' value)) :
    (Written.after first out next).Alike (Written.after first out next') := by
  cases ran : first.result with
  | error fault =>
    rw [after_of_error _ _ ran, after_of_error _ _ ran]
    exact refl _
  | ok value =>
    rw [after_of_ok _ _ ran, after_of_ok _ _ ran]
    obtain ⟨success, values, refusal, degenerate⟩ := later value ran
    exact ⟨success, values, refusal, degenerate⟩

end Alike

end Written

variable {K : Type u} [Field K] [LinearOrder K]

theorem Basis.coincidence?_pair (a b : K) :
    coincidence? [a, b] = if a = b then some ⟨0, 1⟩ else none := by
  split
  · next same =>
    subst same
    simp [coincidence?, metBy?, vanishing?, others]
  · next apart => exact coincidence?_eq_none_of_nodup (by simpa using apart)

variable {table : Table K} {out : List K} {a b : K}

namespace Chord

theorem refusesInput (pair : table.size = 2)
    (unfit : ¬ (table.Aligned ∧ out.length = table.stride)) (x : K) :
    (interpolate x table out).RefusesInput := by
  obtain ⟨a, b, ends⟩ := List.length_eq_two.mp pair
  rw [interpolate, ends]
  dsimp only
  rw [if_pos (not_and_or.mp unfit)]
  exact ⟨.dimensionMismatch, rfl, trivial⟩

theorem interpolate_of_pair (ends : table.locations = [a, b]) (shape : table.Aligned)
    (room : out.length = table.stride) (x : K) :
    interpolate x table out =
      if a = b then ⟨.error (.degenerateSamples 0 1), out, [.vanishingChord]⟩
      else .done (table.value x) := by
  simp only [interpolate_of_ends shape room ends, beq_iff_eq, sub_eq_zero, eq_comm (a := b),
    blend_eq_value shape ends]

end Chord

namespace Lagrange

theorem refusesInput (unfit : ¬ (table.WellFormed ∧ out.length = table.stride)) (x : K) :
    (interpolate x table out).RefusesInput := by
  obtain ⟨fault, invalid, refused⟩ := interpolate_of_unfit unfit x
  rw [refused]
  exact ⟨fault, rfl, invalid⟩

theorem interpolate_of_pair (ends : table.locations = [a, b]) (shape : table.Aligned)
    (room : out.length = table.stride) (x : K) :
    interpolate x table out =
      if a = b then table.erased ⟨0, 1⟩ else .done (table.value x) := by
  have two : 2 ≤ table.size := (congrArg List.length ends).ge
  have found := Basis.coincidence?_pair a b
  rw [← ends] at found
  obtain ⟨table, rfl⟩ := (shape.wellFormed two).exists_checked
  rw [interpolate_checked]
  split
  · next same =>
    rw [if_pos same] at found
    exact Table.evaluate_of_coincidence room found x
  · next apart =>
    rw [if_neg apart] at found
    exact Table.evaluate_of_distinct room found x

end Lagrange

namespace Method

/-- The two methods on a table of two samples. -/
theorem interpolate_alike_of_pair (pair : table.size = 2) (x : K) (out : List K) :
    (linear.interpolate x table out).Alike (lagrange.interpolate x table out) := by
  -- In whatever order they look at it, both methods ask for the same shape.
  by_cases fits : table.Aligned ∧ out.length = table.stride
  · obtain ⟨a, b, ends⟩ := List.length_eq_two.mp pair
    rw [interpolate, interpolate, Chord.interpolate_of_pair ends fits.1 fits.2,
      Lagrange.interpolate_of_pair ends fits.1 fits.2]
    split
    · exact .of_fault _
    · exact .refl _
  · have unfit : ¬ (table.WellFormed ∧ out.length = table.stride) :=
      fun fit => fits ⟨fit.1.aligned, fit.2⟩
    exact .of_refusals (Chord.refusesInput pair fits x) (Lagrange.refusesInput unfit x)

omit [Field K] [LinearOrder K] in
theorem lagrange_requiredSamples_of_le_one {degree : ℕ} (low : degree ≤ 1) :
    lagrange.requiredSamples degree = 2 := by
  have next := Size.succ_of_lt (Nat.lt_of_le_of_lt low (by decide))
  simp only [requiredSamples, Lagrange.requiredSamples, next]
  omega

/-- A chord and a polynomial of degree one are alike: on tables of two samples the methods give the
same values, refuse the same shapes, and find the same tables degenerate, naming both samples. From
windows of any table, a degree of at most one makes them alike as well, whatever degree the chord is
asked for. -/
theorem linear_alike_lagrange (x : K) (table : Table K) (out : List K) :
    (table.size = 2 → (Chord.interpolate x table out).Alike (Lagrange.interpolate x table out) ∧
      ∀ i j, (Chord.interpolate x table out).result = .error (.degenerateSamples i j) →
        i = 0 ∧ j = 1) ∧
      ∀ degree degree', degree' ≤ 1 →
        (linear.interpolateWindowed x table degree out).Alike
          (lagrange.interpolateWindowed x table degree' out) := by
  constructor
  · intro pair
    refine ⟨interpolate_alike_of_pair pair x out, fun i j failed => ?_⟩
    by_cases fits : table.Aligned ∧ out.length = table.stride
    · obtain ⟨a, b, ends⟩ := List.length_eq_two.mp pair
      rw [Chord.interpolate_of_pair ends fits.1 fits.2] at failed
      split at failed
      · obtain ⟨rfl, rfl⟩ := Fault.degenerateSamples.inj (Except.error.inj failed)
        exact ⟨rfl, rfl⟩
      · contradiction
    · obtain ⟨fault, refused, invalid⟩ := Chord.refusesInput pair fits x
      obtain rfl := Except.error.inj (refused.symm.trans failed)
      contradiction
  · intro degree degree' low
    rw [interpolateWindowed, interpolateWindowed, lagrange_requiredSamples_of_le_one low]
    split
    · refine .after fun window selected => ?_
      obtain ⟨count, two, inside⟩ := Window.bounds_of_select selected
      exact interpolate_alike_of_pair (slice_size_of_linear count two inside rfl) x out
    · exact .refl _

/-- A stride that makes the number of values wrap around to zero is refused by both methods, and a
repeated location is named by both. Between two of three samples, both give a value of the chord. -/
theorem linear_alike_lagrange_wrapped :
    let huge : Table ℚ := ⟨[0, 1], [], 2 ^ 63⟩
    let repeated : Table ℚ := ⟨[3, 3], [1, 2], 1⟩
    let table : Table ℚ := ⟨[0, 1, 3], [2, 5, 1], 1⟩
    (Chord.interpolate 5 huge []).RefusesInput ∧ (Lagrange.interpolate 5 huge []).RefusesInput ∧
      (Chord.interpolate 5 repeated [9]).result = .error (.degenerateSamples 0 1) ∧
      (Lagrange.interpolate 5 repeated [9]).result = .error (.degenerateSamples 0 1) ∧
      (linear.interpolateWindowed 2 table 7 [9]).out = [3] ∧
      (lagrange.interpolateWindowed 2 table 0 [9]).out = [3] := by
  intro huge repeated table
  obtain ⟨whole, -⟩ := linear_alike_lagrange 5 huge []
  obtain ⟨whole', -⟩ := linear_alike_lagrange 5 repeated [9]
  obtain ⟨-, windowed⟩ := linear_alike_lagrange 2 table [9]
  have refused : (Chord.interpolate 5 huge []).RefusesInput :=
    Chord.refusesInput rfl (by decide +kernel) 5
  have named : (Chord.interpolate 5 repeated [9]).result = .error (.degenerateSamples 0 1) := by
    decide +kernel
  have success : (linear.interpolateWindowed 2 table 7 [9]).result = .ok () := by decide +kernel
  have values : (linear.interpolateWindowed 2 table 7 [9]).out = [3] := by decide +kernel
  have same := (windowed 7 0 (by decide)).values success
  exact ⟨refused, (whole rfl).1.refusal.mp refused, named, ((whole' rfl).1.degenerate 0 1).mp named,
    values, same.symm.trans values⟩

end Method

end Interpolant
