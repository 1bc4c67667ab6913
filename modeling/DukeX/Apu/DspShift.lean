import Mathlib

/-!
# Shifts of the signal processors

The accumulators of `hw/xbox/mcpx/apu/dsp/dsp_cpu.c` are limbs of 8, 24 and 24 bits, which the
shifts put together in one word.
-/

namespace DukeX.Apu

structure Acc where
  d0 : Nat
  d1 : Nat
  d2 : Nat
  d0_lt : d0 < 2 ^ 8
  d1_lt : d1 < 2 ^ 24
  d2_lt : d2 < 2 ^ 24
  deriving DecidableEq

def Acc.masked (d0 d1 d2 : Nat) : Acc where
  d0 := d0 % 2 ^ 8
  d1 := d1 % 2 ^ 24
  d2 := d2 % 2 ^ 24
  d0_lt := Nat.mod_lt _ (by decide)
  d1_lt := Nat.mod_lt _ (by decide)
  d2_lt := Nat.mod_lt _ (by decide)

structure Ccr where
  l : Bool
  v : Bool
  c : Bool
  deriving DecidableEq

def Acc.packed (a : Acc) : Nat := a.d2 ||| a.d1 <<< 24 ||| a.d0 <<< 48

def Acc.unpacked (s : Nat) : Acc := .masked (s >>> 48) (s >>> 24) s

def dspAsl56 (dest : Acc) (n : Nat) : Acc × Ccr :=
  let destV := dest.packed
  let destS := destV <<< n % 2 ^ 64
  (.unpacked destS,
    { l := destV >>> (56 - n) != 0
      v := destV.testBit 55 != destS.testBit 55
      c := destV.testBit (56 - n) })

def dspAsr56 (dest : Acc) (n : Nat) : Acc × Ccr :=
  (.unpacked (dest.packed >>> n), { l := false, v := false, c := dest.packed.testBit (n - 1) })

/-! ## The numbers -/

def Acc.value (a : Acc) : Nat := a.d2 + 2 ^ 24 * a.d1 + 2 ^ 48 * a.d0

def signed (bits value : Nat) : Int :=
  if value < 2 ^ (bits - 1) then value else value - 2 ^ bits

def Acc.toInt (a : Acc) : Int := signed 56 a.value

def Fits (x : Int) : Prop := -2 ^ 55 ≤ x ∧ x < 2 ^ 55

instance (x : Int) : Decidable (Fits x) := inferInstanceAs (Decidable (_ ∧ _))

variable (a d : Acc)

theorem Acc.value_lt : a.value < 2 ^ 56 := by
  have h0 := a.d0_lt
  have h1 := a.d1_lt
  have h2 := a.d2_lt
  unfold Acc.value
  omega

theorem Acc.packed_eq : a.packed = a.value := by
  have h2 : a.d2 ||| a.d1 <<< 24 = a.d1 <<< 24 + a.d2 := by
    rw [Nat.lor_comm, Nat.shiftLeft_add_eq_or_of_lt a.d2_lt]
  have hlow : a.d1 <<< 24 + a.d2 < 2 ^ 48 := by
    have h1 := a.d1_lt
    have h2 := a.d2_lt
    rw [Nat.shiftLeft_eq]
    omega
  rw [Acc.packed, h2, Nat.lor_comm, ← Nat.shiftLeft_add_eq_or_of_lt hlow, Nat.shiftLeft_eq,
    Nat.shiftLeft_eq, Acc.value]
  omega

theorem Acc.value_unpacked (n : Nat) : (Acc.unpacked n).value = n % 2 ^ 56 := by
  simp only [Acc.unpacked, Acc.masked, Acc.value, Nat.shiftRight_eq_div_pow]
  omega

theorem value_asl (n : Nat) : (dspAsl56 a n).1.value = a.value * 2 ^ n % 2 ^ 56 := by
  rw [dspAsl56, Acc.value_unpacked, Acc.packed_eq, Nat.shiftLeft_eq,
    Nat.mod_mod_of_dvd _ (Nat.pow_dvd_pow 2 (by decide))]

theorem signed_cases (bits x : Nat) : (x < 2 ^ (bits - 1) ∧ signed bits x = x) ∨
    (2 ^ (bits - 1) ≤ x ∧ signed bits x = x - 2 ^ bits) := by
  by_cases h : x < 2 ^ (bits - 1)
  · exact .inl ⟨h, if_pos h⟩
  · exact .inr ⟨Nat.le_of_not_lt h, if_neg h⟩

/-- What the shifts by `n` leave is what two's complement asks for. -/
def ShiftsExact (d : Acc) (n : Nat) : Prop :=
  ((dspAsr56 d n).1.toInt = d.toInt / 2 ^ n ∧ (dspAsr56 d n).2.c = d.value.testBit (n - 1)) ∧
    (dspAsl56 d n).1.value = d.value * 2 ^ n % 2 ^ 56 ∧
    (dspAsl56 d n).2.c = d.value.testBit (56 - n) ∧
    ((dspAsl56 d n).2.v = true ↔ ¬Fits (d.toInt * 2 ^ n)) ∧
    ((dspAsl56 d n).2.l = true → (dspAsl56 d n).2.v = true)

variable {n : Nat}

theorem value_asr : (dspAsr56 a n).1.value = a.value / 2 ^ n := by
  rw [dspAsr56, Acc.value_unpacked, Acc.packed_eq, Nat.shiftRight_eq_div_pow,
    Nat.mod_eq_of_lt (Nat.lt_of_le_of_lt (Nat.div_le_self ..) a.value_lt)]

theorem toInt_asr_nonneg (hn : 1 ≤ n) : 0 ≤ (dspAsr56 d n).1.toInt := by
  have hhalf : d.value / 2 ^ n ≤ d.value / 2 ^ 1 :=
    Nat.div_le_div_left (Nat.pow_le_pow_right (by decide) hn) (by decide)
  have hlt := d.value_lt
  rw [Acc.toInt, value_asr]
  generalize d.value / 2 ^ n = half at hhalf
  obtain ⟨h, hsigned⟩ | ⟨h, hsigned⟩ := signed_cases 56 half <;> omega

theorem v_asl (hn : n ≤ 55) :
    (dspAsl56 d n).2.v = (d.value.testBit 55 != d.value.testBit (55 - n)) := by
  simp only [dspAsl56, Acc.packed_eq, Nat.testBit_mod_two_pow, Nat.testBit_shiftLeft]
  simp [hn]

theorem shiftsExact_iff (hpos : 1 ≤ n) (hn : n ≤ 55) : ShiftsExact d n ↔
    0 ≤ d.toInt ∧ (d.value < 2 ^ (55 - n) ∨ d.value.testBit (55 - n) = true) := by
  have hscale : (2 : Nat) ^ 55 = 2 ^ (55 - n) * 2 ^ n := by
    rw [← Nat.pow_add, Nat.sub_add_cancel hn]
  have hpow : 0 < 2 ^ n := Nat.two_pow_pos n
  by_cases hsign : 0 ≤ d.toInt
  · obtain ⟨hlt, hint⟩ : d.value < 2 ^ 55 ∧ d.toInt = d.value := by
      have hd := d.value_lt
      rw [Acc.toInt] at hsign ⊢
      obtain ⟨h, hsigned⟩ | ⟨h, hsigned⟩ := signed_cases 56 d.value <;> omega
    have hv : (dspAsl56 d n).2.v = d.value.testBit (55 - n) := by
      rw [v_asl d hn, Nat.testBit_lt_two_pow hlt, Bool.false_bne]
    have hfits : Fits (d.toInt * 2 ^ n) ↔ d.value < 2 ^ (55 - n) := by
      have hcast : (d.value : Int) * 2 ^ n = (d.value * 2 ^ n : Nat) := by push_cast; rfl
      rw [hint, Fits, hcast, ← Nat.mul_lt_mul_right hpow (b := d.value), ← hscale]
      omega
    have hasr : (dspAsr56 d n).1.toInt = d.toInt / 2 ^ n := by
      have hsmall : d.value / 2 ^ n < 2 ^ 55 := Nat.lt_of_le_of_lt (Nat.div_le_self ..) hlt
      rw [Acc.toInt, value_asr, signed, if_pos hsmall, hint]
      push_cast
      rfl
    have hl : (dspAsl56 d n).2.l = true → ¬d.value < 2 ^ (55 - n) := by
      intro hl hsmall
      have hzero : d.value >>> (56 - n) = 0 := by
        rw [Nat.shiftRight_eq_div_pow, Nat.div_eq_of_lt]
        exact Nat.lt_of_lt_of_le hsmall (Nat.pow_le_pow_right (by decide) (by omega))
      simp [dspAsl56, Acc.packed_eq, hzero] at hl
    have hcarry : (dspAsr56 d n).2.c = d.value.testBit (n - 1) ∧
        (dspAsl56 d n).2.c = d.value.testBit (56 - n) := by
      simp only [dspAsr56, dspAsl56, Acc.packed_eq, and_self]
    have hnot (h : d.value < 2 ^ (55 - n)) : ¬d.value.testBit (55 - n) = true := by
      rw [Nat.testBit_lt_two_pow h]
      decide
    rw [ShiftsExact, hv, hfits]
    constructor
    · intro h
      exact ⟨hsign, or_iff_not_imp_left.mpr h.2.2.2.1.mpr⟩
    · rintro ⟨-, hbit⟩
      exact ⟨⟨hasr, hcarry.1⟩, value_asl d n, hcarry.2,
        ⟨fun hset hsmall => hnot hsmall hset, fun hlarge => hbit.resolve_left hlarge⟩,
        fun hset => hbit.resolve_left (hl hset)⟩
  · refine iff_of_false (fun h => hsign ?_) fun h => hsign h.1
    rw [← Int.ediv_nonneg_iff_of_pos (b := 2 ^ n) (by positivity), ← h.1.1]
    exact toInt_asr_nonneg d hpos

theorem shiftsExact_one : ShiftsExact (.masked 0 0 1) 1 :=
  (shiftsExact_iff (.masked 0 0 1) (by decide) (by decide)).mpr (by decide)

/-- Minus one, and `2 ^ 54` by two. -/
theorem shifts_inexact : (dspAsr56 (.masked 255 (2 ^ 24 - 1) (2 ^ 24 - 1)) 1).1.toInt = 2 ^ 55 - 1 ∧
    ¬ShiftsExact (.masked 255 (2 ^ 24 - 1) (2 ^ 24 - 1)) 1 ∧
    (dspAsl56 (.masked 64 0 0) 2).2 = ⟨true, false, true⟩ ∧ ¬ShiftsExact (.masked 64 0 0) 2 := by
  refine ⟨by decide, ?_, by decide, ?_⟩
  · intro h
    exact absurd h.1.1 (by decide)
  · intro h
    exact absurd (h.2.2.2.2 (by decide)) (by decide)

end DukeX.Apu
