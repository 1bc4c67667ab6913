import DukeX.Lib.Bytes

/-!
# Byte stores

A storage medium seen through its offsets: every offset holds a byte, a read copies a range out and
a write replaces one.
-/

namespace DukeX.Lib

abbrev Store := Nat → UInt8

def Store.read (b : Store) (offset count : Nat) : List UInt8 :=
  (List.range count).map fun i => b (offset + i)

def Store.write (b : Store) (offset : Nat) (data : List UInt8) : Store :=
  fun a => if offset ≤ a ∧ a < offset + data.length then data.getD (a - offset) 0 else b a

@[simp] theorem Store.length_read (b : Store) (offset count : Nat) :
    (b.read offset count).length = count := by
  simp [Store.read]

@[simp] theorem Store.read_zero (b : Store) (offset : Nat) : b.read offset 0 = [] := rfl

variable {i count : Nat}

theorem Store.getD_read (b : Store) (offset : Nat) (hi : i < count) :
    (b.read offset count).getD i 0 = b (offset + i) := by
  simp [Store.read, List.getD_eq_getElem?_getD, hi]

variable {offset : Nat}

theorem Store.read_congr {b b' : Store}
    (h : ∀ a, offset ≤ a → a < offset + count → b' a = b a) :
    b'.read offset count = b.read offset count := by
  refine List.map_congr_left fun i hi => ?_
  simp_all

variable {data : List UInt8}

theorem Store.write_outside {b : Store} {a : Nat}
    (h : a < offset ∨ offset + data.length ≤ a) : b.write offset data a = b a := by
  unfold Store.write
  rw [if_neg]
  omega

theorem Store.write_inside {b : Store}
    (h : i < data.length) : b.write offset data (offset + i) = data.getD i 0 := by
  unfold Store.write
  rw [if_pos (by omega), Nat.add_sub_cancel_left]

@[simp] theorem Store.write_nil (b : Store) (offset : Nat) : b.write offset [] = b := by
  funext a
  exact Store.write_outside (by simp; omega)

theorem Store.read_write_same (b : Store) (offset : Nat) (data : List UInt8) :
    (b.write offset data).read offset data.length = data := by
  refine List.ext_getElem (by simp) fun i h1 h2 => ?_
  simp [Store.read, Store.write_inside, h2]

/-- **Frame**: a read of a disjoint range does not see the write. -/
theorem Store.read_write_disjoint (b : Store) {offset' : Nat}
    (h : offset' + count ≤ offset ∨ offset + data.length ≤ offset') :
    (b.write offset data).read offset' count = b.read offset' count := by
  refine Store.read_congr fun a h1 h2 => Store.write_outside ?_
  omega

theorem Store.write_read (b : Store) (offset count : Nat) :
    b.write offset (b.read offset count) = b := by
  funext a
  by_cases h : a < offset ∨ offset + (b.read offset count).length ≤ a
  · exact Store.write_outside h
  · obtain ⟨i, rfl⟩ := Nat.exists_eq_add_of_le (show offset ≤ a by omega)
    rw [Store.length_read] at h
    rw [Store.write_inside (by simp; omega), Store.getD_read b offset (by omega)]

theorem Store.write_append (b : Store) (offset : Nat) (data data' : List UInt8) :
    (b.write offset data).write (offset + data.length) data' = b.write offset (data ++ data') := by
  funext a
  by_cases h : a < offset ∨ offset + (data ++ data').length ≤ a
  · rw [Store.write_outside h]
    rw [List.length_append] at h
    rw [Store.write_outside (by omega), Store.write_outside (by omega)]
  · obtain ⟨i, rfl⟩ := Nat.exists_eq_add_of_le (show offset ≤ a by omega)
    rw [Store.write_inside (by omega), List.getD_eq_getElem?_getD]
    by_cases hi : i < data.length
    · simp [Store.write_outside, Store.write_inside, List.getElem?_append_left, hi]
    · obtain ⟨k, rfl⟩ := Nat.exists_eq_add_of_le (show data.length ≤ i by omega)
      rw [List.length_append] at h
      rw [← Nat.add_assoc, Store.write_inside (by omega), List.getElem?_append_right (by omega),
        Nat.add_sub_cancel_left, List.getD_eq_getElem?_getD]

theorem Store.read_append (b : Store) (offset count count' : Nat) :
    b.read offset count ++ b.read (offset + count) count' = b.read offset (count + count') := by
  simp only [Store.read, List.range_add, List.map_append, List.map_map]
  simp [Nat.add_assoc]

def splice (block : List UInt8) (at' : Nat) (data : List UInt8) : List UInt8 :=
  block.take at' ++ data ++ block.drop (at' + data.length)

variable {block : List UInt8} {at' : Nat}

section

variable (h : at' + data.length ≤ block.length)

include h

theorem length_splice
    : (splice block at' data).length = block.length := by
  grind [splice]

theorem getD_splice_inside
    (hi : i < data.length) :
    (splice block at' data).getD (at' + i) 0 = data.getD i 0 := by
  have htake : (block.take at').length = at' := by simp; omega
  have h1 : at' + i < (block.take at' ++ data).length := by
    simp only [List.length_append, htake]; omega
  simp only [splice, List.getD_eq_getElem?_getD]
  rw [List.getElem?_append_left h1, List.getElem?_append_right (by omega), htake,
    Nat.add_sub_cancel_left]

theorem getD_splice_outside
    (hi : i < at' ∨ at' + data.length ≤ i) :
    (splice block at' data).getD i 0 = block.getD i 0 := by
  have htake : (block.take at').length = at' := by simp; omega
  simp only [splice, List.getD_eq_getElem?_getD]
  rcases hi with hi | hi
  · rw [List.getElem?_append_left (by simp only [List.length_append, htake]; omega),
      List.getElem?_append_left (by omega), List.getElem?_take_of_lt hi]
  · rw [List.getElem?_append_right (by simp only [List.length_append, htake]; omega),
      List.getElem?_drop]
    simp only [List.length_append, htake]
    rw [Nat.add_sub_cancel' hi]

end

theorem Store.read_write_splice (b : Store)
    (h : at' + data.length ≤ count) :
    (b.write (offset + at') data).read offset count = splice (b.read offset count) at' data := by
  have hlen : at' + data.length ≤ (b.read offset count).length := by simpa using h
  refine List.ext_getElem (by rw [length_splice hlen]; simp) fun i h1 h2 => ?_
  have hi : i < count := by simpa using h1
  have key : ((b.write (offset + at') data).read offset count).getD i 0
      = (splice (b.read offset count) at' data).getD i 0 := by
    rw [Store.getD_read _ _ hi]
    by_cases hin : at' ≤ i ∧ i < at' + data.length
    · obtain ⟨j, rfl⟩ := Nat.exists_eq_add_of_le hin.1
      rw [getD_splice_inside hlen (by omega), ← Nat.add_assoc, Store.write_inside (by omega)]
    · rw [getD_splice_outside hlen (by omega), Store.write_outside (by omega),
        Store.getD_read _ _ hi]
  simp_all

end DukeX.Lib
