import Mathlib.Data.Fintype.Card
import Mathlib.Logic.Relation
import Mathlib.Data.Set.Finite.List

/-!
# Recursion over a graph given by its children

A recursive walk that visits the children of a node, and then theirs, ends when the unfolding of the
graph below its start has a bounded depth.
-/

namespace DukeX.Lib

open Relation

variable {α : Type} {children : α → List α}

def Shallow (children : α → List α) : Nat → α → Prop
  | 0, _ => False
  | depth + 1, a => ∀ b ∈ children a, Shallow children depth b

def Lists (children : α → List α) (a b : α) : Prop := b ∈ children a

def Acyclic (children : α → List α) (a : α) : Prop :=
  ∀ b, ReflTransGen (Lists children) a b → ¬ TransGen (Lists children) b b

variable {depth : Nat} {a b : α} {l : List α}

theorem Shallow.succ (h : Shallow children depth a) : Shallow children (depth + 1) a := by
  induction depth generalizing a with
  | zero => exact h.elim
  | succ depth ih => exact fun b hb => ih (h b hb)

theorem Shallow.mono {depth depth' : Nat} (h : Shallow children depth a)
    (hle : depth ≤ depth') : Shallow children depth' a := by
  induction hle with
  | refl => exact h
  | step _ ih => exact ih.succ

theorem Shallow.reach (h : Shallow children depth a)
    (hab : ReflTransGen (Lists children) a b) : Shallow children depth b := by
  induction hab with
  | refl => exact h
  | tail _ hbc ih =>
    cases depth with
    | zero => exact ih.elim
    | succ depth => exact Shallow.succ (ih _ hbc)

theorem Shallow.descend (h : Shallow children (depth + 1) a)
    (hab : TransGen (Lists children) a b) : Shallow children depth b := by
  obtain ⟨c, hac, hcb⟩ := TransGen.head'_iff.mp hab
  exact Shallow.reach (h c hac) hcb

theorem Shallow.acyclic (h : Shallow children depth a) : Acyclic children a := by
  intro b hab hbb
  have hb := h.reach hab
  clear h hab
  -- a node below itself is shallow at every smaller depth, down to none at all
  induction depth with
  | zero => exact hb
  | succ depth ih => exact ih (hb.descend hbb)

theorem shallow_one (h : children a = []) : Shallow children 1 a := by
  intro b hb
  rw [h] at hb
  cases hb

theorem exists_shallow_of_forall (h : ∀ a ∈ l, ∃ depth, Shallow children depth a) :
    ∃ depth, ∀ a ∈ l, Shallow children depth a := by
  induction l with
  | nil => exact ⟨0, fun _ ha => nomatch ha⟩
  | cons a l ih =>
    obtain ⟨n, hn⟩ := h a List.mem_cons_self
    obtain ⟨m, hm⟩ := ih fun b hb => h b (List.mem_cons_of_mem a hb)
    refine ⟨max n m, fun b hb => ?_⟩
    cases List.mem_cons.mp hb with
    | inl heq => exact heq ▸ hn.mono (Nat.le_max_left ..)
    | inr hmem => exact (hm b hmem).mono (Nat.le_max_right ..)

theorem Acyclic.exists_shallow (hl : ∀ a, children a ≠ [] → a ∈ l)
    (h : Acyclic children a) : ∃ depth, Shallow children depth a := by
  -- the nodes with children below `a` are finitely many, and being below is a strict order on them
  let Inner := {b : α // b ∈ l ∧ ReflTransGen (Lists children) a b}
  have hfin : Finite Inner := (l.finite_toSet.subset fun b hb => hb.1 : Set.Finite _)
  let below : Inner → Inner → Prop := fun c b => TransGen (Lists children) b.1 c.1
  have htrans : IsTrans Inner below := ⟨fun _ _ _ hab hbc => hbc.trans hab⟩
  have hirrefl : Std.Irrefl below := ⟨fun b => h b.1 b.2.2⟩
  have hwf : WellFounded below := Finite.wellFounded_of_trans_of_irrefl below
  have hinner : ∀ b : Inner, ∃ depth, Shallow children depth b.1 := by
    intro b
    induction b using hwf.induction with
    | _ b ih =>
      obtain ⟨depth, hdepth⟩ := exists_shallow_of_forall (l := children b.1) fun c hc => by
        by_cases hempty : children c = []
        · exact ⟨1, shallow_one hempty⟩
        · exact ih ⟨c, hl c hempty, b.2.2.tail hc⟩ (.single hc)
      exact ⟨depth + 1, hdepth⟩
  by_cases hempty : children a = []
  · exact ⟨1, shallow_one hempty⟩
  · exact hinner ⟨a, hl a hempty, .refl⟩

end DukeX.Lib
