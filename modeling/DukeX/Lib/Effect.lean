import Mathlib

/-!
# Preconditions for state-and-error programs

`EStateM ε σ` keeps the state a program had reached when it threw, which is what a statement about a
half-finished update needs.
-/

namespace DukeX.Lib

variable {ε σ α β : Type}

def wp (m : EStateM ε σ α) (Q : α → σ → Prop) (E : ε → σ → Prop) (s : σ) : Prop :=
  match m s with
  | .ok a s' => Q a s'
  | .error e s' => E e s'

variable {m : EStateM ε σ α} {f : α → EStateM ε σ β} {Q Q' : α → σ → Prop} {E E' : ε → σ → Prop}
variable {R : β → σ → Prop} {s : σ}

variable {a : α} {e : ε} {s' : σ}

@[simp] theorem wp_pure : wp (pure a) Q E s ↔ Q a s := Iff.rfl

@[simp] theorem wp_throw : wp (throw e : EStateM ε σ α) Q E s ↔ E e s := Iff.rfl

@[simp] theorem wp_get {Q : σ → σ → Prop} : wp (get : EStateM ε σ σ) Q E s ↔ Q s s := Iff.rfl

@[simp] theorem wp_modify {Q : PUnit → σ → Prop} {g : σ → σ} :
    wp (modify g : EStateM ε σ PUnit) Q E s ↔ Q ⟨⟩ (g s) := Iff.rfl

theorem wp_bind : wp (m >>= f) R E s ↔ wp m (fun a => wp (f a) R E) E s := by
  unfold wp
  show (match EStateM.bind m f s with | .ok a s' => R a s' | .error e s' => E e s') ↔ _
  unfold EStateM.bind
  cases m s <;> rfl

theorem wp_mono (h : wp m Q E s) (hQ : ∀ a s', Q a s' → Q' a s') (hE : ∀ e s', E e s' → E' e s') :
    wp m Q' E' s := by
  unfold wp at h ⊢
  cases hm : m s with
  | ok a s' => rw [hm] at h; exact hQ a s' h
  | error e s' => rw [hm] at h; exact hE e s' h

theorem wp_seq (h : wp m Q E s) (hQ : ∀ a s', Q a s' → wp (f a) R E' s')
    (hE : ∀ e s', E e s' → E' e s') : wp (m >>= f) R E' s :=
  wp_bind.mpr (wp_mono h hQ hE)

theorem wp_of_eq_ok (h : m s = .ok a s') : wp m Q E s ↔ Q a s' := by
  unfold wp; rw [h]

theorem wp_of_eq_error (h : m s = .error e s') : wp m Q E s ↔ E e s' := by
  unfold wp; rw [h]

theorem wp.ok (h : wp m Q E s) (hm : m s = .ok a s') : Q a s' :=
  (wp_of_eq_ok hm).mp h

theorem wp.error (h : wp m Q E s) (hm : m s = .error e s') : E e s' :=
  (wp_of_eq_error hm).mp h

theorem wp.and (h : wp m Q E s) (h' : wp m Q' E' s) :
    wp m (fun a s' => Q a s' ∧ Q' a s') (fun e s' => E e s' ∧ E' e s') s := by
  unfold wp at h h' ⊢
  cases hm : m s with
  | ok a s' | error e s' => rw [hm] at h h'; exact ⟨h, h'⟩

theorem wp.total (h : wp m Q (fun _ _ => False) s) : ∃ a s', m s = .ok a s' ∧ Q a s' := by
  unfold wp at h
  cases hm : m s with
  | ok a s' => rw [hm] at h; exact ⟨a, s', rfl, h⟩
  | error e s' => rw [hm] at h; exact h.elim

theorem wp_any (m : EStateM ε σ α) (s : σ) : wp m (fun _ _ => True) (fun _ _ => True) s := by
  unfold wp
  split <;> trivial

def endState (m : EStateM ε σ α) (s : σ) : σ :=
  match m s with
  | .ok _ s' => s'
  | .error _ s' => s'

theorem wp.endState {P : σ → Prop} (h : wp m Q E s) (hQ : ∀ a s', Q a s' → P s')
    (hE : ∀ e s', E e s' → P s') : P (endState m s) := by
  unfold wp at h
  unfold Lib.endState
  cases hm : m s with
  | ok a s' => rw [hm] at h; exact hQ a s' h
  | error e s' => rw [hm] at h; exact hE e s' h

theorem wp_ite {c : Prop} [Decidable c] {m1 m2 : EStateM ε σ α}
    (h1 : c → wp m1 Q E s) (h2 : ¬ c → wp m2 Q E s) : wp (if c then m1 else m2) Q E s := by
  by_cases hc : c
  · rw [if_pos hc]; exact h1 hc
  · rw [if_neg hc]; exact h2 hc

/-- `try?`: an error `catches` accepts becomes `none`, the state it left stays. -/
def attempt (catches : ε → Bool) (m : EStateM ε σ α) : EStateM ε σ (Option α) := fun s =>
  match m s with
  | .ok a s' => .ok (some a) s'
  | .error e s' => if catches e then .ok none s' else .error e s'

theorem wp_attempt {catches : ε → Bool} {Q : Option α → σ → Prop} :
    wp (attempt catches m) Q E s ↔
      wp m (fun a => Q (some a)) (fun e s' => if catches e then Q none s' else E e s') s := by
  unfold wp attempt
  cases m s with
  | ok a s' => rfl
  | error e s' => by_cases hc : catches e <;> simp [hc]

theorem wp_forM {g : α → EStateM ε σ PUnit} {I : List α → σ → Prop} (xs : List α)
    (hstep : ∀ x xs s, I (x :: xs) s → wp (g x) (fun _ => I xs) E s) (hI : I xs s) :
    wp (xs.forM g) (fun _ => I []) E s := by
  induction xs generalizing s with
  | nil => exact hI
  | cons x xs ih => exact wp_bind.mpr (wp_mono (hstep x xs s hI) (fun _ _ h => ih h) (fun _ _ h => h))

end DukeX.Lib
