import Interpolant.Proofs.BlockLayout
import Interpolant.Proofs.Evaluation
import Interpolant.Proofs.Selection

/-! # Tables cut into parts

A table whose shape was checked is cut in two ways: a window takes a run of samples out of it, and an
evaluation takes the flat list of values apart, a block for every sample. The positions of the cuts
are computed in words of 64 bits, and none of these computations wraps around, wherever the search
for the query ends. Every cut lies within the list that it is made in, and what a window cuts out has
the shape of a checked table again.
-/

namespace Interpolant

universe u

variable {α : Type u}

namespace Size

/-- The word of 64 bits that holds a size. -/
def word (n : Nat) : UInt64 := .ofNat n

variable {a b : Nat}

theorem toNat_word (fits : a ≤ largest) : (word a).toNat = a :=
  UInt64.toNat_ofNat_of_lt' (Nat.lt_of_le_of_lt fits (by decide))

theorem toNat_word_add (fits : a + b ≤ largest) : (word a + word b).toNat = a + b := by
  rw [UInt64.toNat_add, toNat_word (by omega), toNat_word (by omega)]
  exact Nat.mod_eq_of_lt (Nat.lt_of_le_of_lt fits (by decide))

theorem toNat_word_sub (fits : a ≤ largest) (below : b ≤ a) : (word a - word b).toNat = a - b := by
  have left := toNat_word fits
  have right := toNat_word (below.trans fits)
  rw [UInt64.toNat_sub_of_le, left, right]
  rw [UInt64.le_iff_toNat_le, left, right]
  exact below

theorem toNat_word_mul (fits : a * b ≤ largest) : (word a * word b).toNat = a * b := by
  rw [UInt64.toNat_mul, word, word, UInt64.toNat_ofNat', UInt64.toNat_ofNat', ← Nat.mul_mod]
  exact Nat.mod_eq_of_lt (Nat.lt_of_le_of_lt fits (by decide))

end Size

namespace Window

/-- A window that is selected from `size` locations if `count` of them are asked for, wherever among
them the search for the query ends. -/
def Possible (count size : Nat) (window : Window) : Prop :=
  2 ≤ count ∧ 2 ≤ size ∧ ∃ pivot ≤ size, window = around pivot (min count size) size

/-- The positions of a window are computed in words of 64 bits without wrapping around, and they are
positions among `size` samples. -/
structure Exact (window : Window) (size : Nat) : Prop where
  two_le_count : 2 ≤ window.count
  inside : window.stop ≤ size
  room : (Size.word size - Size.word window.count).toNat + window.count = size
  stop : (Size.word window.first + Size.word window.count).toNat = window.stop

theorem Possible.exact {count size : Nat} {window : Window} (possible : window.Possible count size)
    (fits : size ≤ Size.largest) : window.Exact size := by
  obtain ⟨two, enough, pivot, -, rfl⟩ := possible
  have room : min count size ≤ size := Nat.min_le_right count size
  have inside : (around pivot (min count size) size).stop ≤ size := stop_around_le room
  refine ⟨Nat.le_min.mpr ⟨two, enough⟩, inside, ?_, Size.toNat_word_add (inside.trans fits)⟩
  exact (congrArg (· + min count size) (Size.toNat_word_sub fits room)).trans
    (Nat.sub_add_cancel room)

variable [Scalar α]

theorem possible_of_select {x : α} {locations : List α} {count : Nat} {window : Window}
    (selected : (select x locations count).result = .ok window) :
    window.Possible count locations.length := by
  obtain ⟨two, enough, -, rfl⟩ := select_eq_ok_iff.mp selected
  exact ⟨two, enough, below x locations, below_le_length x locations, rfl⟩

end Window

namespace Table

/-- The cuts that a window makes into the locations and into the values of a table are computed
without wrapping around, lie within the two lists, and cut out the samples of the window. -/
structure Cut (table : Table α) (window : Window) : Prop extends window.Exact table.size where
  first_values :
    (Size.word window.first * Size.word table.stride).toNat = window.first * table.stride
  stop_values : (Size.word window.stop * Size.word table.stride).toNat = window.stop * table.stride
  values_ordered : window.first * table.stride ≤ window.stop * table.stride
  values_inside : window.stop * table.stride ≤ table.values.length
  locations : (table.slice window.first window.count).locations =
    table.locations.extract window.first window.stop
  values : (table.slice window.first window.count).values =
    table.values.extract (window.first * table.stride) (window.stop * table.stride)

/-- A table of a proper shape: every sample has a block of its own, and no value is left over. Two
samples share the values out between them. -/
structure Whole (table : Table α) : Prop extends table.WellFormed where
  degree : (Size.word table.size - 1).toNat = table.degree
  degree_add_one : table.degree + 1 = table.size
  paired : BlockLayout.Paired table.locations table.stride table.values
  samples : table.samples =
    table.locations.zipIdx.zip (BlockLayout.chunks table.stride table.values)
  halves : table.size = 2 → table.values.splitAt table.stride = (table.block 0, table.block 1)

variable {table : Table α}

theorem cut_of_exact (shape : table.Aligned) {window : Window} (exact : window.Exact table.size) :
    table.Cut window := by
  obtain ⟨-, values, word⟩ := table.aligned_iff.mp shape
  have ordered : window.first * table.stride ≤ window.stop * table.stride :=
    Nat.mul_le_mul_right _ (Nat.le_add_right _ _)
  have inside : window.stop * table.stride ≤ table.values.length :=
    values ▸ Nat.mul_le_mul_right _ exact.inside
  refine ⟨exact, ?_, ?_, ordered, inside, ?_, ?_⟩
  · exact Size.toNat_word_mul (ordered.trans (inside.trans word))
  · exact Size.toNat_word_mul (inside.trans word)
  · rw [slice_eq_extract]
    rfl
  · rw [slice_eq_extract]
    rfl

theorem whole_of_checked (table : CheckedTable α) : table.Whole := by
  have shape := table.wellFormed
  have fits := table.aligned.size_le_largest
  have one : 1 ≤ table.size := Nat.le_of_succ_le table.two_le_size
  have quotient : table.values.length / table.stride = table.size := by
    rw [shape.values_length, Nat.mul_div_cancel _ shape.stride_pos]
  refine ⟨shape, Size.toNat_word_sub fits one, Nat.sub_add_cancel one,
    BlockLayout.paired shape.stride_pos shape.values_length, ?_, fun pair => ?_⟩
  · rw [BlockLayout.chunks, quotient]
    rfl
  · have length : (table.values.drop table.stride).length = table.stride := by
      rw [List.length_drop, shape.values_length, pair]
      omega
    rw [List.splitAt_eq, block, block, Nat.zero_mul, List.drop_zero, Nat.one_mul,
      List.take_of_length_le length.le]

theorem slice_whole_of_exact (shape : table.Aligned) {window : Window}
    (exact : window.Exact table.size) : (table.slice window.first window.count).Whole :=
  whole_of_checked (shape.part exact.two_le_count exact.inside)

variable [Scalar α]

/-- A run over queries each of which comes with a chunk of the buffer. -/
def fillChunks (table : Table α) : List (α × List α) → Written α
  | [] => .done []
  | (x, chunk) :: later =>
    (table.evaluate x chunk).andThen (later.flatMap Prod.snd) fun _ => table.fillChunks later

/-- A run writes the values at every query into the chunk that belongs to it. -/
theorem fill_eq_fillChunks {queries out : List α} (pos : 0 < table.stride)
    (room : out.length = queries.length * table.stride) :
    table.fill queries out =
      table.fillChunks (queries.zip (BlockLayout.chunks table.stride out)) := by
  induction queries generalizing out with
  | nil =>
    rw [room_nil room]
    rfl
  | cons x queries ih =>
    obtain ⟨enough, -, remaining⟩ := room_cons room
    have later := BlockLayout.paired pos remaining
    have rest : (queries.zip (BlockLayout.chunks table.stride (out.drop table.stride))).flatMap
        Prod.snd = out.drop table.stride := by
      rw [List.flatMap_def, List.map_snd_zip later.count.le, later.whole]
    rw [BlockLayout.chunks_eq_cons pos enough, List.zip_cons_cons, fillChunks, rest, fill,
      Written.andThen, Written.andThen, ih remaining]

/-- A table that passes the check has a block of values for every sample, and so has every part of it
that a window cuts out; so has a pair of samples whose shape is checked when a chord is drawn. What
is computed on the way stays within a word of 64 bits, and within the lists. A run over many queries
that passes its own check has a chunk of the buffer for every query. -/
theorem cuts_exact (table : Table α) (fits : table.size ≤ Size.largest) :
    (table.check = .ok () → table.Whole) ∧
      (table.Aligned → table.size = 2 → table.Whole) ∧
      (∀ x count window, (Window.select x table.locations count).result = .ok window →
        window.Possible count table.size) ∧
      (∀ count window, window.Possible count table.size → window.Exact table.size ∧
        (table.Aligned → table.Cut window ∧ (table.slice window.first window.count).Whole)) ∧
      (∀ descent, Window.firstDescent 0 table.locations = some descent →
        descent.position + 1 < table.size ∧
          (Size.word descent.position + 1).toNat = descent.position + 1) ∧
      ∀ queries out, table.check = .ok () →
        Size.mul? queries.length table.stride = some out.length →
        BlockLayout.Paired queries table.stride out ∧
          table.evaluateAll queries out =
            table.fillChunks (queries.zip (BlockLayout.chunks table.stride out)) := by
  refine ⟨?_, ?_, ?_, ?_, ?_, ?_⟩
  · exact fun passed => whole_of_checked ⟨table, table.check_eq_ok_iff.mp passed⟩
  · intro shape pair
    obtain ⟨stride, values, word⟩ := table.aligned_iff.mp shape
    exact whole_of_checked ⟨table, stride, pair.ge, values, word⟩
  · exact fun x count window selected => Window.possible_of_select selected
  · intro count window possible
    have exact := possible.exact fits
    exact ⟨exact, fun shape => ⟨cut_of_exact shape exact, slice_whole_of_exact shape exact⟩⟩
  · intro descent found
    have first := Window.firstDescent_eq_some_iff.mp found
    have inside : descent.position + 1 < table.size := (List.getElem?_eq_some_iff.mp first.right).1
    exact ⟨inside, Size.toNat_word_add (inside.le.trans fits)⟩
  · intro queries out checked room
    have shape := table.check_eq_ok_iff.mp checked
    obtain ⟨length, -⟩ := Size.mul?_eq_some_iff.mp room
    rw [evaluateAll, if_pos room, fill_eq_fillChunks shape.stride_pos length.symm]
    exact ⟨BlockLayout.paired shape.stride_pos length.symm, rfl⟩

/-- A query that is no number is taken for one below the whole table, and the window at the edge has
the first two of three blocks. Two queries share out a buffer of two blocks. -/
theorem cuts_exact_nan :
    let table : Table Float := ⟨[0, 1, 3], [2, 4, 5, 3, 1, 7], 2⟩
    (Window.select (0 / 0) table.locations 2).result = .ok ⟨0, 2⟩ ∧ table.Cut ⟨0, 2⟩ ∧
      (table.slice 0 2).Whole ∧ BlockLayout.Paired [0 / 0, (4 : Float)] 2 [9, 9, 9, (9 : Float)] := by
  intro table
  obtain ⟨-, -, possible, cut, -, run⟩ := cuts_exact table (by decide)
  have selected : (Window.select (0 / 0) ([0, 1, 3] : List Float) 2).result = .ok ⟨0, 2⟩ := by
    decide +kernel
  have shape : table.Aligned := by decide
  obtain ⟨-, parts⟩ := cut 2 ⟨0, 2⟩ (possible _ _ _ selected)
  exact ⟨selected, (parts shape).1, (parts shape).2, (run _ _ rfl rfl).1⟩

end Table

end Interpolant
