import Mathlib

/-!
# Changing a list computation at one place

`filterMap` and `flatMap` over a list without repetitions, when the function changes at a single
element: the result gains what the element gained.
-/

namespace DukeX.Lib

variable {ι β : Type}

theorem filterMap_perm_cons {l : List ι} (hnd : l.Nodup) {i : ι} (hi : i ∈ l) {f f' : ι → Option β}
    (hne : ∀ j ∈ l, j ≠ i → f' j = f j) (hf : f i = none) {e : β} (hf' : f' i = some e) :
    (l.filterMap f').Perm (e :: l.filterMap f) := by
  obtain ⟨l1, l2, rfl⟩ := List.append_of_mem hi
  have hnd' := List.nodup_append.mp hnd
  have h1 : ∀ j ∈ l1, f' j = f j := fun j hj =>
    hne j (by simp [hj]) fun he => hnd'.2.2 j hj i (by simp) he
  have h2 : ∀ j ∈ l2, f' j = f j := fun j hj =>
    hne j (by simp [hj]) fun he => (List.nodup_cons.mp hnd'.2.1).1 (he ▸ hj)
  rw [List.filterMap_append, List.filterMap_append, List.filterMap_cons, List.filterMap_cons, hf,
    hf', List.filterMap_congr h1, List.filterMap_congr h2]
  exact List.perm_middle

theorem flatMap_perm_cons {l : List ι} (hnd : l.Nodup) {k : ι} (hk : k ∈ l) {g g' : ι → List β}
    (hne : ∀ j ∈ l, j ≠ k → g' j = g j) {e : β} (hg : (g' k).Perm (e :: g k)) :
    (l.flatMap g').Perm (e :: l.flatMap g) := by
  obtain ⟨l1, l2, rfl⟩ := List.append_of_mem hk
  have hnd' := List.nodup_append.mp hnd
  have h1 : ∀ j ∈ l1, g' j = g j := fun j hj =>
    hne j (by simp [hj]) fun he => hnd'.2.2 j hj k (by simp) he
  have h2 : ∀ j ∈ l2, g' j = g j := fun j hj =>
    hne j (by simp [hj]) fun he => (List.nodup_cons.mp hnd'.2.1).1 (he ▸ hj)
  rw [List.flatMap_append, List.flatMap_append, List.flatMap_cons, List.flatMap_cons,
    List.flatMap_congr h1, List.flatMap_congr h2]
  calc l1.flatMap g ++ (g' k ++ l2.flatMap g)
      |>.Perm (l1.flatMap g ++ (e :: g k ++ l2.flatMap g)) := (hg.append_right _).append_left _
    _ |>.Perm (e :: (l1.flatMap g ++ (g k ++ l2.flatMap g))) := List.perm_middle

theorem find?_perm {α : Type} {p : α → Bool} {l l' : List α} (h : l.Perm l')
    (hone : ∀ x ∈ l, ∀ y ∈ l, p x = true → p y = true → x = y) : l.find? p = l'.find? p := by
  cases hx : l.find? p with
  | none =>
    refine (List.find?_eq_none.mpr fun y hy => ?_).symm
    exact List.find?_eq_none.mp hx y (h.mem_iff.mpr hy)
  | some x =>
    have hmem := List.mem_of_find?_eq_some hx
    have hpx := List.find?_some hx
    cases hy : l'.find? p with
    | none => exact absurd hpx (List.find?_eq_none.mp hy x (h.mem_iff.mp hmem))
    | some y =>
      rw [hone x hmem y (h.mem_iff.mpr (List.mem_of_find?_eq_some hy)) hpx (List.find?_some hy)]

theorem append_cons_inj_of_notMem_left {α : Type} {a : α} {xs ys xs' ys' : List α} (hx : a ∉ xs)
    (hx' : a ∉ xs') (h : xs ++ a :: ys = xs' ++ a :: ys') : xs = xs' ∧ ys = ys' := by
  induction xs generalizing xs' with
  | nil =>
    cases xs' with
    | nil => exact ⟨rfl, (List.cons.inj h).2⟩
    | cons x' xs' => exact absurd (List.cons.inj h).1 (List.ne_of_not_mem_cons hx')
  | cons x xs ih =>
    cases xs' with
    | nil => exact absurd (List.cons.inj h).1.symm (List.ne_of_not_mem_cons hx)
    | cons x' xs' =>
      obtain ⟨rfl, hrest⟩ := List.cons.inj h
      obtain ⟨rfl, rfl⟩ := ih (List.not_mem_of_not_mem_cons hx) (List.not_mem_of_not_mem_cons hx') hrest
      exact ⟨rfl, rfl⟩

theorem mapM_of_ok {ε α : Type} {f : α → Except ε β} {g : α → β} {xs : List α}
    (h : ∀ x ∈ xs, f x = .ok (g x)) : xs.mapM f = .ok (xs.map g) := by
  induction xs with
  | nil => rfl
  | cons x xs ih =>
    rw [List.mapM_cons, h x List.mem_cons_self, ih fun y hy => h y (List.mem_cons_of_mem x hy)]
    rfl

theorem exists_of_mapM_ok {ε α : Type} {f : α → Except ε β} {xs : List α} {ys : List β}
    (h : xs.mapM f = .ok ys) : ∀ x ∈ xs, ∃ y, f x = .ok y := by
  induction xs generalizing ys with
  | nil => exact fun _ hx => nomatch hx
  | cons x xs ih =>
    rw [List.mapM_cons] at h
    cases hx : f x with
    | error e =>
      rw [hx] at h
      cases h
    | ok y =>
      cases hxs : xs.mapM f with
      | error e =>
        rw [hx, hxs] at h
        cases h
      | ok ys' =>
        intro z hz
        cases List.mem_cons.mp hz with
        | inl heq => exact ⟨y, heq ▸ hx⟩
        | inr hmem => exact ih hxs z hmem

theorem filterMap_of_forall2 {α β γ : Type} {f : α → Option γ} {g : β → Option γ} {xs : List α}
    {ys : List β} (h : List.Forall₂ (fun x y => f x = g y) xs ys) :
    xs.filterMap f = ys.filterMap g := by
  induction h with
  | nil => rfl
  | cons hxy _ ih => rw [List.filterMap_cons, List.filterMap_cons, hxy, ih]

theorem exists_of_forall₂ {α : Type} {R : α → β → Prop} {xs : List α} {ys : List β}
    (h : List.Forall₂ R xs ys) {y : β} (hy : y ∈ ys) : ∃ x ∈ xs, R x y := by
  induction h with
  | nil => cases hy
  | cons hxy _ ih =>
    cases List.mem_cons.mp hy with
    | inl heq => exact ⟨_, List.mem_cons_self, heq ▸ hxy⟩
    | inr hmem =>
      obtain ⟨x, hx, hr⟩ := ih hmem
      exact ⟨x, List.mem_cons_of_mem _ hx, hr⟩

end DukeX.Lib
