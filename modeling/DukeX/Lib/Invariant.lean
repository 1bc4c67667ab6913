import DukeX.Lib.Effect

/-!
# Invariants of state-and-error programs

`Upholds I E m`: from a state with the invariant, `m` ends in a state with the invariant, whether it
returns or throws, and what it throws is one of the errors `E` admits.
-/

namespace DukeX.Lib

variable {ε σ α β : Type}

def Upholds (I : σ → Prop) (E : ε → Prop) (m : EStateM ε σ α) : Prop :=
  ∀ s, I s → wp m (fun _ s' => I s') (fun e s' => I s' ∧ E e) s

variable {I : σ → Prop} {E : ε → Prop}

theorem Upholds.pure (a : α) : Upholds I E (Pure.pure a : EStateM ε σ α) := fun _ h => h

theorem Upholds.throw {e : ε} (h : E e) : Upholds I E (MonadExcept.throw e : EStateM ε σ α) :=
  fun _ hs => ⟨hs, h⟩

variable {m : EStateM ε σ α} {f g : α → EStateM ε σ β} {xs : List α}

theorem Upholds.bind (hm : Upholds I E m) (hf : ∀ a, Upholds I E (f a)) : Upholds I E (m >>= f) :=
  fun s hs => wp_seq (hm s hs) (fun a s' h => hf a s' h) fun _ _ h => h

theorem Upholds.bind_of {P : α → Prop}
    (hm : ∀ s, I s → wp m (fun a s' => I s' ∧ P a) (fun e s' => I s' ∧ E e) s)
    (hf : ∀ a, P a → Upholds I E (f a)) : Upholds I E (m >>= f) :=
  fun s hs => wp_seq (hm s hs) (fun a s' h => hf a h.2 s' h.1) fun _ _ h => h

theorem Upholds.ite {c : Prop} [Decidable c] {m1 m2 : EStateM ε σ α}
    (h1 : c → Upholds I E m1) (h2 : ¬ c → Upholds I E m2) :
    Upholds I E (if c then m1 else m2) :=
  fun s hs => wp_ite (fun hc => h1 hc s hs) fun hc => h2 hc s hs

theorem Upholds.forM {g : α → EStateM ε σ PUnit}
    (h : ∀ x ∈ xs, Upholds I E (g x)) : Upholds I E (xs.forM g) := by
  induction xs with
  | nil => exact .pure _
  | cons x xs ih =>
    exact (h x List.mem_cons_self).bind fun _ => ih fun y hy => h y (List.mem_cons_of_mem x hy)

theorem Upholds.mapM (h : ∀ x ∈ xs, Upholds I E (g x)) : Upholds I E (xs.mapM g) := by
  induction xs with
  | nil =>
    rw [List.mapM_nil]
    exact .pure _
  | cons x xs ih =>
    rw [List.mapM_cons]
    refine (h x List.mem_cons_self).bind fun _ => ?_
    exact (ih fun y hy => h y (List.mem_cons_of_mem x hy)).bind fun _ => .pure _

theorem Upholds.mono {E' : ε → Prop} (h : Upholds I E m) (hE : ∀ e, E e → E' e) : Upholds I E' m :=
  fun s hs => wp_mono (h s hs) (fun _ _ h => h) fun e _ h => ⟨h.1, hE e h.2⟩

theorem wp_mapM {R : α → β → Prop}
    (h : ∀ x ∈ xs, ∀ s, I s → wp (g x) (fun y s' => I s' ∧ R x y) (fun _ _ => True) s) (s : σ)
    (hs : I s) :
    wp (xs.mapM g) (fun ys s' => I s' ∧ List.Forall₂ R xs ys) (fun _ _ => True) s := by
  induction xs generalizing s with
  | nil =>
    rw [List.mapM_nil]
    exact ⟨hs, .nil⟩
  | cons x xs ih =>
    rw [List.mapM_cons]
    refine wp_seq (h x List.mem_cons_self s hs) ?_ fun _ _ h => h
    intro y s1 ⟨hs1, hy⟩
    refine wp_seq (ih (fun z hz => h z (List.mem_cons_of_mem x hz)) s1 hs1) ?_ fun _ _ h => h
    intro ys s2 ⟨hs2, hys⟩
    exact ⟨hs2, .cons hy hys⟩

end DukeX.Lib
