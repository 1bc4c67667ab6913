import DukeX.Lib.Store

/-!
# Copying blocks from one store to another

A loop that copies blocks of one size, each to its own place.
-/

namespace DukeX.Lib

def Store.copy (dst : Store) (target : Nat) (src : Store) (source count : Nat) : Store :=
  dst.write target (src.read source count)

def Store.copyAll (src : Store) (count : Nat) (blocks : List (Nat × Nat)) (dst : Store) : Store :=
  blocks.foldl (fun dst block => dst.copy block.1 src block.2 count) dst

theorem Store.copy_inside (dst src : Store) (target source : Nat) {count i : Nat} (hi : i < count) :
    dst.copy target src source count (target + i) = src (source + i) := by
  rw [Store.copy, Store.write_inside (by simpa using hi), Store.getD_read src source hi]

theorem Store.copy_outside (dst src : Store) {target source count a : Nat}
    (h : a < target ∨ target + count ≤ a) : dst.copy target src source count a = dst a := by
  rw [Store.copy, Store.write_outside (by simpa using h)]

def BlocksAgree (count : Nat) (blocks : List (Nat × Nat)) : Prop :=
  ∀ p ∈ blocks, ∀ q ∈ blocks, ∀ i < count, ∀ j < count, p.1 + i = q.1 + j → p.2 + i = q.2 + j

section

variable (src : Store) (count : Nat) (blocks : List (Nat × Nat)) (dst : Store)

theorem Store.copyAll_outside (a : Nat) (h : ∀ p ∈ blocks, a < p.1 ∨ p.1 + count ≤ a) :
    src.copyAll count blocks dst a = dst a := by
  induction blocks generalizing dst with
  | nil => rfl
  | cons p blocks ih =>
    rw [Store.copyAll, List.foldl_cons]
    rw [show blocks.foldl _ (dst.copy p.1 src p.2 count) = src.copyAll count blocks _ from rfl,
      ih _ fun q hq => h q (List.mem_cons_of_mem p hq)]
    exact Store.copy_outside dst src (h p List.mem_cons_self)

theorem Store.copyAll_keeps {a v : Nat} (hright : dst a = src v)
    (h : ∀ p ∈ blocks, ∀ i < count, p.1 + i = a → p.2 + i = v) :
    src.copyAll count blocks dst a = src v := by
  induction blocks generalizing dst with
  | nil => exact hright
  | cons p blocks ih =>
    have hnext : dst.copy p.1 src p.2 count a = src v := by
      by_cases hin : a < p.1 ∨ p.1 + count ≤ a
      · rw [Store.copy_outside dst src hin, hright]
      · obtain ⟨i, rfl⟩ := Nat.exists_eq_add_of_le (show p.1 ≤ a by omega)
        rw [Store.copy_inside dst src p.1 p.2 (by omega),
          h p List.mem_cons_self i (by omega) rfl]
    exact ih _ hnext fun q hq => h q (List.mem_cons_of_mem p hq)

theorem Store.copyAll_inside
    (hcons : BlocksAgree count blocks) {p : Nat × Nat} (hp : p ∈ blocks) {i : Nat} (hi : i < count) :
    src.copyAll count blocks dst (p.1 + i) = src (p.2 + i) := by
  -- split the loop at this block: what comes before does not matter, what follows keeps it
  obtain ⟨before, after, rfl⟩ := List.append_of_mem hp
  rw [Store.copyAll, List.foldl_append, List.foldl_cons]
  apply Store.copyAll_keeps src count after _ (Store.copy_inside _ src p.1 p.2 hi)
  intro q hq j hj heq
  exact hcons q (by simp [hq]) p hp j hj i hi heq

end

def Store.moveAll (count : Nat) (blocks : List (Nat × Nat)) (b : Store) : Store :=
  blocks.foldl (fun b block => b.copy block.1 b block.2 count) b

theorem Store.moveAll_eq_copyAll (src : Store) (count : Nat) (blocks : List (Nat × Nat)) (b : Store)
    (hsame : ∀ q ∈ blocks, ∀ j < count, b (q.2 + j) = src (q.2 + j))
    (hapart : ∀ p ∈ blocks, ∀ q ∈ blocks, ∀ i < count, ∀ j < count, p.1 + i ≠ q.2 + j) :
    Store.moveAll count blocks b = src.copyAll count blocks b := by
  induction blocks generalizing b with
  | nil => rfl
  | cons p blocks ih =>
    have hread : b.read p.2 count = src.read p.2 count := by
      apply Store.read_congr
      intro a hlo hhi
      obtain ⟨j, rfl⟩ := Nat.exists_eq_add_of_le hlo
      exact hsame p List.mem_cons_self j (by omega)
    have hfirst : b.copy p.1 b p.2 count = b.copy p.1 src p.2 count := by
      rw [Store.copy, Store.copy, hread]
    rw [Store.moveAll, List.foldl_cons, hfirst]
    apply ih
    · -- the first move has not touched what the others read
      intro q hq j hj
      rw [Store.copy_outside, hsame q (List.mem_cons_of_mem p hq) j hj]
      by_contra hin
      have hne := hapart p List.mem_cons_self q (List.mem_cons_of_mem p hq) (q.2 + j - p.1) (by omega) j hj
      omega
    · intro p' hp' q hq
      exact hapart p' (List.mem_cons_of_mem p hp') q (List.mem_cons_of_mem p hq)

def Store.setAll (value : UInt8) (places : List Nat) (b : Store) : Store :=
  places.foldl (fun b a => b.write a [value]) b

theorem Store.setAll_append (value : UInt8) (places places' : List Nat) (b : Store) :
    Store.setAll value (places ++ places') b =
      Store.setAll value places' (Store.setAll value places b) :=
  List.foldl_append

theorem Store.setAll_apply (value : UInt8) (places : List Nat) (b : Store) (a : Nat) :
    Store.setAll value places b a = if a ∈ places then value else b a := by
  induction places generalizing b with
  | nil => rfl
  | cons p places ih =>
    change Store.setAll value places (b.write p [value]) a = _
    rw [ih]
    by_cases hrest : a ∈ places
    · rw [if_pos hrest, if_pos (List.mem_cons_of_mem p hrest)]
    · rw [if_neg hrest]
      by_cases hp : a = p
      · rw [if_pos (hp ▸ List.mem_cons_self), hp]
        exact Store.write_inside (i := 0) Nat.one_pos
      · simp [Store.write_outside, hp, hrest]

theorem foldl_range_iterate {σ τ : Type} (f : σ → τ → Nat → σ) (g : τ → τ) (s : σ) (t : τ) (n : Nat) :
    (List.range n).foldl (fun st i => (f st.1 st.2 i, g st.2)) (s, t) =
      ((List.range n).foldl (fun s i => f s (g^[i] t) i) s, g^[n] t) := by
  induction n with
  | zero => rfl
  | succ n ih =>
    simp [List.range_succ, Function.iterate_succ_apply', ih]

end DukeX.Lib
