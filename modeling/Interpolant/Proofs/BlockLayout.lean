/-! # Blocks laid out one after another

A function that gives a block for every entry of a list lays them out in one flat list. If all
blocks are equally long, the place of each of them is a multiple of that length, and the flat list
falls into chunks of that length again, one for each entry.
-/

namespace Interpolant.BlockLayout

universe u v

variable {α : Type u} {β : Type v} {size : Nat} {f : β → List α} {entries : List β}

theorem length_flatMap (uniform : ∀ b ∈ entries, (f b).length = size) :
    (entries.flatMap f).length = entries.length * size := by
  induction entries with
  | nil => rw [List.flatMap_nil, List.length_nil, List.length_nil, Nat.zero_mul]
  | cons b rest ih =>
    obtain ⟨head, tail⟩ := List.forall_mem_cons.mp uniform
    rw [List.flatMap_cons, List.length_append, head, ih tail, List.length_cons, Nat.succ_mul,
      Nat.add_comm]

/-- To leave out the first blocks is to leave out the entries that they belong to. -/
theorem drop_flatMap (uniform : ∀ b ∈ entries, (f b).length = size) (q : Nat) :
    (entries.flatMap f).drop (q * size) = (entries.drop q).flatMap f := by
  induction entries generalizing q with
  | nil => simp only [List.flatMap_nil, List.drop_nil]
  | cons b rest ih =>
    obtain ⟨head, tail⟩ := List.forall_mem_cons.mp uniform
    cases q with
    | zero => rw [Nat.zero_mul, List.drop_zero, List.drop_zero]
    | succ q =>
      rw [Nat.succ_mul, Nat.add_comm, ← head, List.flatMap_cons, List.drop_length_add_append, head,
        ih tail, List.drop_succ_cons]

theorem drop_flatMap_of_getElem? (uniform : ∀ b ∈ entries, (f b).length = size) {q : Nat} {b : β}
    (here : entries[q]? = some b) :
    ∃ behind, (entries.flatMap f).drop (q * size) = f b ++ behind ∧ (f b).length = size := by
  obtain ⟨bound, rfl⟩ := List.getElem?_eq_some_iff.mp here
  refine ⟨(entries.drop (q + 1)).flatMap f, ?_, uniform _ (List.getElem_mem bound)⟩
  rw [drop_flatMap uniform, List.drop_eq_getElem_cons bound, List.flatMap_cons]

/-- The block of an entry stands at its place. -/
theorem take_drop_flatMap (uniform : ∀ b ∈ entries, (f b).length = size) {q : Nat} {b : β}
    (here : entries[q]? = some b) : ((entries.flatMap f).drop (q * size)).take size = f b := by
  obtain ⟨behind, split, length⟩ := drop_flatMap_of_getElem? uniform here
  rw [split, List.take_left' length]

/-- An entry of a block stands at its place in the flat list. -/
theorem getElem?_flatMap (uniform : ∀ b ∈ entries, (f b).length = size) {q k : Nat} {b : β}
    (here : entries[q]? = some b) (inside : k < size) :
    (entries.flatMap f)[q * size + k]? = (f b)[k]? := by
  obtain ⟨behind, split, length⟩ := drop_flatMap_of_getElem? uniform here
  rw [← List.getElem?_drop, split, List.getElem?_append_left (length ▸ inside)]

section Chunks

variable {flat : List α} {partners : List β}

/-- The entries of a flat list in chunks of one size, one after another. What is left behind the
last whole chunk is in none of them. -/
def chunks (size : Nat) (flat : List α) : List (List α) :=
  (List.range (flat.length / size)).map fun q => (flat.drop (q * size)).take size

/-- The entries of a flat list fall into chunks of one size, with a chunk for every partner and a
partner for every chunk, and nothing is left over. -/
structure Paired (partners : List β) (size : Nat) (flat : List α) : Prop where
  size_pos : 0 < size
  count : (chunks size flat).length = partners.length
  own : ∀ q < partners.length,
    (chunks size flat)[q]? = some ((flat.drop (q * size)).take size)
  full : ∀ chunk ∈ chunks size flat, chunk.length = size
  whole : (chunks size flat).flatten = flat

theorem flatten_take_drop (size n : Nat) (flat : List α) :
    ((List.range n).map fun q => (flat.drop (q * size)).take size).flatten =
      flat.take (n * size) := by
  induction n with
  | zero => rw [List.range_zero, List.map_nil, List.flatten_nil, Nat.zero_mul, List.take_zero]
  | succ n ih =>
    rw [List.range_succ, List.map_append, List.flatten_append, ih, List.map_singleton,
      List.flatten_singleton, Nat.succ_mul, List.take_add]

theorem paired (pos : 0 < size) (room : flat.length = partners.length * size) :
    Paired partners size flat := by
  have quotient : flat.length / size = partners.length := by
    rw [room, Nat.mul_div_cancel _ pos]
  refine ⟨pos, ?_, ?_, ?_, ?_⟩
  · rw [chunks, List.length_map, List.length_range, quotient]
  · intro q bound
    rw [chunks, List.getElem?_map, quotient, List.getElem?_range bound, Option.map_some]
  · intro chunk member
    obtain ⟨q, inside, rfl⟩ := List.mem_map.mp member
    rw [quotient] at inside
    have fits : (q + 1) * size ≤ flat.length :=
      room ▸ Nat.mul_le_mul_right size (List.mem_range.mp inside)
    rw [Nat.succ_mul] at fits
    rw [List.length_take, List.length_drop]
    omega
  · rw [chunks, quotient, flatten_take_drop, ← room, List.take_length]

theorem chunks_eq_cons (pos : 0 < size) (enough : size ≤ flat.length) :
    chunks size flat = flat.take size :: chunks size (flat.drop size) := by
  have quotient : flat.length / size = (flat.length - size) / size + 1 :=
    Nat.div_eq_sub_div pos enough
  rw [chunks, quotient, List.range_succ_eq_map, List.map_cons, Nat.zero_mul, List.drop_zero,
    List.map_map, chunks, List.length_drop]
  refine congrArg (flat.take size :: ·) (List.map_congr_left fun q _ => ?_)
  rw [Function.comp_apply, List.drop_drop, Nat.succ_mul, Nat.add_comm]

end Chunks

end Interpolant.BlockLayout
