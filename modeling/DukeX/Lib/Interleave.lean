import Mathlib

/-!
# Interleaving the bits of several numbers

A list says, from the lowest bit on, which of several coordinates owns each bit of a combined
number.
-/

namespace DukeX.Lib

section Deposit

variable {ι : Type} [DecidableEq ι]

def ownMask (a : ι) : List ι → Nat
  | [] => 0
  | b :: owner => Nat.bit (decide (b = a)) (ownMask a owner)

def deposit (a : ι) : List ι → Nat → Nat
  | [], _ => 0
  | b :: owner, n =>
    if b = a then Nat.bit n.bodd (deposit a owner n.div2) else Nat.bit false (deposit a owner n)

section

variable (a : ι) (owner : List ι)

theorem ownMask_lt : ownMask a owner < 2 ^ owner.length := by
  induction owner with
  | nil => exact Nat.one_pos
  | cons b owner ih =>
    grind [ownMask, Nat.bit_val, decide]

theorem deposit_zero : deposit a owner 0 = 0 := by
  induction owner with
  | nil => rfl
  | cons b owner ih =>
    rw [deposit]
    split <;> simp [ih]

theorem ownMask_append (b : ι) :
    ownMask a (owner ++ [b]) = ownMask a owner + if b = a then 2 ^ owner.length else 0 := by
  induction owner with
  | nil => by_cases h : b = a <;> simp [ownMask, h]
  | cons c owner ih =>
    grind [ownMask, Nat.bit_val]

/-- Adding to what is deposited, with the bits of the others filled so that a carry runs through them. -/
theorem deposit_carry (n : Nat) (carry : Bool) {w : Nat} (hw : owner.length ≤ w) :
    (deposit a owner n + (2 ^ w - 1 - ownMask a owner) + carry.toNat) &&& ownMask a owner =
      deposit a owner (n + carry.toNat) := by
  induction owner generalizing n carry w with
  | nil => simp [ownMask, deposit]
  | cons b owner ih =>
    obtain ⟨w, rfl⟩ := Nat.exists_eq_add_of_le' (Nat.le_trans (Nat.succ_pos _) hw)
    have hw' : owner.length ≤ w := Nat.le_of_succ_le_succ hw
    have hlt : ownMask a owner < 2 ^ w :=
      Nat.lt_of_lt_of_le (ownMask_lt a owner) (Nat.pow_le_pow_right Nat.two_pos hw')
    rw [deposit, deposit, ownMask, Nat.pow_succ]
    by_cases h : b = a
    · have hsum : Nat.bit n.bodd (deposit a owner n.div2) +
          (2 ^ w * 2 - 1 - Nat.bit true (ownMask a owner)) + carry.toNat =
          Nat.bit (n.bodd ^^ carry)
            (deposit a owner n.div2 + (2 ^ w - 1 - ownMask a owner) + (n.bodd && carry).toNat) := by
        cases n.bodd <;> cases carry <;> grind [Nat.bit_val]
      have hdiv : (n + carry.toNat).div2 = n.div2 + (n.bodd && carry).toNat := by
        cases carry <;> cases hbit : n.bodd <;> simp [Nat.div2_succ, hbit]
      have hodd : (n + carry.toNat).bodd = (n.bodd ^^ carry) := by
        cases carry <;> simp
      rw [if_pos h, if_pos h, decide_eq_true h, hsum, Nat.land_bit, Bool.and_true, ih _ _ hw', hdiv, hodd]
    · -- the bits of the others pass the carry on
      have hsum : Nat.bit false (deposit a owner n) +
          (2 ^ w * 2 - 1 - Nat.bit false (ownMask a owner)) + carry.toNat =
          Nat.bit (!carry) (deposit a owner n + (2 ^ w - 1 - ownMask a owner) + carry.toNat) := by
        cases carry <;> grind [Nat.bit_val]
      rw [if_neg h, if_neg h, decide_eq_false h, hsum, Nat.land_bit, Bool.and_false, ih _ _ hw']

theorem deposit_succ (n : Nat) {w : Nat} (hw : owner.length ≤ w) :
    (deposit a owner n + (2 ^ w - ownMask a owner)) &&& ownMask a owner =
      deposit a owner (n + 1) := by
  have hlt : ownMask a owner < 2 ^ w :=
    Nat.lt_of_lt_of_le (ownMask_lt a owner) (Nat.pow_le_pow_right Nat.two_pos hw)
  have hcarry := deposit_carry a owner n true hw
  rwa [Bool.toNat_true, Nat.add_assoc, show 2 ^ w - 1 - ownMask a owner + 1 = 2 ^ w - ownMask a owner by
    omega] at hcarry

end

end Deposit

section Interleave

variable {ι : Type} [DecidableEq ι]

def interleave : List ι → (ι → Nat) → Nat
  | [], _ => 0
  | b :: owner, f =>
    Nat.bit (f b).bodd (interleave owner (Function.update f b (f b).div2))

def separate : List ι → Nat → ι → Nat
  | [], _ => fun _ => 0
  | b :: owner, n =>
    let rest := separate owner n.div2
    Function.update rest b (Nat.bit n.bodd (rest b))

theorem interleave_eq_sum [Fintype ι] (owner : List ι) (f : ι → Nat) :
    interleave owner f = ∑ a, deposit a owner (f a) := by
  induction owner generalizing f with
  | nil => simp [interleave, deposit]
  | cons b owner ih =>
    have hterm : ∀ a, deposit a (b :: owner) (f a) =
        (if a = b then (f b).bodd.toNat else 0) +
          2 * deposit a owner (Function.update f b (f b).div2 a) := by
      intro a
      rw [deposit]
      by_cases h : a = b
      · subst h
        simp [Nat.bit_val, Nat.add_comm]
      · simp [Ne.symm, h]
    rw [interleave, ih, Nat.bit_val, Finset.sum_congr rfl fun a _ => hterm a,
      Finset.sum_add_distrib, ← Finset.mul_sum]
    simp [Nat.add_comm]

theorem interleave_lt (owner : List ι) (f : ι → Nat) : interleave owner f < 2 ^ owner.length := by
  induction owner generalizing f with
  | nil => exact Nat.one_pos
  | cons b owner ih =>
    grind [Bool.toNat_le, interleave, Nat.bit_val]

theorem separate_lt (owner : List ι) (n : Nat) (a : ι) :
    separate owner n a < 2 ^ owner.count a := by
  induction owner generalizing n with
  | nil => exact Nat.one_pos
  | cons b owner ih =>
    rw [separate]
    by_cases h : a = b
    · simp_all
    · grind

theorem separate_interleave (owner : List ι) (f : ι → Nat)
    (hf : ∀ a, f a < 2 ^ owner.count a) : separate owner (interleave owner f) = f := by
  induction owner generalizing f with
  | nil =>
    funext a
    have := hf a
    simp only [List.count_nil, Nat.pow_zero] at this
    simp only [separate]
    omega
  | cons b owner ih =>
    have hfit : ∀ a, Function.update f b (f b).div2 a < 2 ^ owner.count a := by
      grind
    simp [interleave, separate, ih, hfit]

theorem interleave_separate (owner : List ι) (n : Nat) (hn : n < 2 ^ owner.length) :
    interleave owner (separate owner n) = n := by
  induction owner generalizing n with
  | nil =>
    rw [List.length_nil, Nat.pow_zero] at hn
    rw [interleave]
    omega
  | cons b owner ih =>
    have hhalf : n.div2 < 2 ^ owner.length := by
      grind
    simp [separate, interleave, ih, hhalf]

/-- **Bijection** between the coordinates that fit and the numbers that fit. -/
theorem bijOn_interleave (owner : List ι) :
    Set.BijOn (interleave owner) {f | ∀ a, f a < 2 ^ owner.count a} (Set.Iio (2 ^ owner.length)) := by
  refine ⟨fun f _ => interleave_lt owner f, ?_, ?_⟩
  · intro f hf g hg heq
    rw [← separate_interleave owner f hf, heq, separate_interleave owner g hg]
  · intro n hn
    exact ⟨separate owner n, separate_lt owner n, interleave_separate owner n hn⟩

end Interleave

end DukeX.Lib
