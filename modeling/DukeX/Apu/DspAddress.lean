import Mathlib

/-!
# Addressing modes of the signal processors

`emu_update_rn_modulo` of `hw/xbox/mcpx/apu/dsp/dsp_emu.c.inc` adds a modifier to an address
register that runs around a buffer, `emu_update_rn_bitreverse` steps through one in bit-reversed order.
-/

namespace DukeX.Apu

def int16 (x : Int) : Int := (x + 2 ^ 15) % 2 ^ 16 - 2 ^ 15

def sizeLoop (modulo : Nat) : Nat → Nat → Nat → Nat × Nat
  | 0, bufsize, bufmask => (bufsize, bufmask)
  | fuel + 1, bufsize, bufmask =>
    if bufsize < modulo then sizeLoop modulo fuel (bufsize * 2 % 2 ^ 16) (bufmask * 2 % 2 ^ 16)
    else (bufsize, bufmask)

def jumpLoop (go : Int → Bool) (step : Int) : Nat → Int × Int → Int × Int
  | 0, s => s
  | fuel + 1, (rReg, modifier) =>
    if go modifier then jumpLoop go step fuel (int16 (rReg + step), int16 (modifier - step))
    else (rReg, modifier)

def movedReg (modulo bufsize r : Nat) (modifier : Int) : Int :=
  let s := (int16 r, modifier)
  let s := if modifier > modulo then
      jumpLoop (fun left => left < -bufsize) (-bufsize) (2 ^ 16)
        (jumpLoop (fun left => left > bufsize) bufsize (2 ^ 16) s)
    else s
  int16 (s.1 + s.2)

def emuUpdateRnModulo (m r : Nat) (modifier : Int) : Nat :=
  let modulo : Nat := (m + 1) % 2 ^ 16
  let size := sizeLoop modulo 16 1 (2 ^ 16 - 1)
  let lobound : Nat := r &&& size.2
  let hibound : Nat := (lobound + modulo - 1) % 2 ^ 16
  let rReg := movedReg modulo size.1 r modifier
  let rReg := if modifier = modulo then rReg
    else if rReg > hibound then int16 (rReg - modulo)
    else if rReg < lobound then int16 (rReg + modulo) else rReg
  (rReg % 2 ^ 16).toNat

theorem int16_mod (x : Int) : int16 x % 2 ^ 16 = x % 2 ^ 16 := by
  unfold int16
  omega

theorem jumpLoop_sum (go : Int → Bool) (step : Int) (fuel : Nat) (s : Int × Int) :
    ((jumpLoop go step fuel s).1 + (jumpLoop go step fuel s).2) % 2 ^ 16 = (s.1 + s.2) % 2 ^ 16 := by
  induction fuel generalizing s with
  | zero => rfl
  | succ fuel ih =>
    rw [jumpLoop]
    split
    · rw [ih, Int.add_emod, int16_mod, int16_mod, ← Int.add_emod]
      congr 1
      ring
    · rfl

theorem movedReg_eq (modulo bufsize r : Nat) (n : Int) : movedReg modulo bufsize r n = int16 (r + n) := by
  have hcongr {x y : Int} (h : x % 2 ^ 16 = y % 2 ^ 16) : int16 x = int16 y := by
    unfold int16
    omega
  have hstart : (int16 r + n) % 2 ^ 16 = (r + n) % 2 ^ 16 := by
    rw [Int.add_emod, int16_mod, ← Int.add_emod]
  apply hcongr
  split
  · rw [jumpLoop_sum, jumpLoop_sum, hstart]
  · exact hstart

theorem sizeLoop_eq {modulo fuel j : Nat} (hj : j ≤ Nat.clog 2 modulo)
    (hfuel : Nat.clog 2 modulo ≤ j + fuel) (hlarge : Nat.clog 2 modulo ≤ 15) :
    sizeLoop modulo fuel (2 ^ j) (2 ^ 16 - 2 ^ j) =
      (2 ^ Nat.clog 2 modulo, 2 ^ 16 - 2 ^ Nat.clog 2 modulo) := by
  induction fuel generalizing j with
  | zero => rw [sizeLoop, Nat.le_antisymm hj hfuel]
  | succ fuel ih =>
    rw [sizeLoop]
    by_cases hlt : 2 ^ j < modulo
    · have hj' : j < Nat.clog 2 modulo := (Nat.lt_clog_iff_pow_lt (by decide)).mpr hlt
      have hpow : 2 ^ j ≤ 2 ^ 14 := Nat.pow_le_pow_right (by decide) (by omega)
      have hsize {p : Nat} (hpos : 0 < p) (hp : p ≤ 2 ^ 14) : p * 2 % 2 ^ 16 = p * 2 ∧
          (2 ^ 16 - p) * 2 % 2 ^ 16 = 2 ^ 16 - p * 2 := by omega
      rw [if_pos hlt, (hsize (Nat.two_pow_pos j) hpow).1, (hsize (Nat.two_pow_pos j) hpow).2, ← Nat.pow_succ]
      exact ih hj' (by omega)
    · have hge : Nat.clog 2 modulo ≤ j := by
        rw [← Nat.not_lt, Nat.lt_clog_iff_pow_lt (by decide)]
        exact hlt
      rw [if_neg hlt, Nat.le_antisymm hj hge]

theorem and_high {r k : Nat} (hr : r < 2 ^ 16) (hk : k ≤ 16) : r &&& (2 ^ 16 - 2 ^ k) = r - r % 2 ^ k := by
  have hmask : 2 ^ 16 - 2 ^ k = (2 ^ (16 - k) - 1) <<< k := by
    rw [Nat.shiftLeft_eq, Nat.sub_mul, ← Nat.pow_add, Nat.sub_add_cancel hk, Nat.one_mul]
  have hlow : r - r % 2 ^ k = (r >>> k) <<< k := by
    rw [Nat.shiftLeft_eq, Nat.shiftRight_eq_div_pow]
    have := Nat.div_add_mod' r (2 ^ k)
    omega
  rw [hmask, hlow]
  apply Nat.eq_of_testBit_eq
  intro i
  simp only [Nat.testBit_and, Nat.testBit_shiftLeft, Nat.testBit_two_pow_sub_one, Nat.testBit_shiftRight]
  by_cases hi : k ≤ i
  · by_cases hlt : i < 16
    · simp [hi, show i - k < 16 - k by omega]
    · have hfalse : r.testBit i = false :=
        Nat.testBit_lt_two_pow (Nat.lt_of_lt_of_le hr (Nat.pow_le_pow_right (by decide) (by omega)))
      simp [hi, hfalse]
  · simp [hi]

/-! ## Blocks -/

def blockBits (m : Nat) : Nat := Nat.clog 2 (m + 1)

def lowBound (m r : Nat) : Nat := r - r % 2 ^ blockBits m

structure Placed (m r : Nat) : Prop where
  fits : m + 1 ≤ 2 ^ blockBits m
  small : m + 1 ≤ 2 ^ 14 → 2 ^ blockBits m ≤ 2 ^ 14
  large : 2 ^ blockBits m ≤ 2 ^ 15
  low : lowBound m r ≤ r ∧ r < lowBound m r + 2 ^ blockBits m
  lower : r < 2 ^ 15 → lowBound m r + 2 ^ blockBits m ≤ 2 ^ 15
  upper : 2 ^ 15 ≤ r → 2 ^ 15 ≤ lowBound m r
  inside : lowBound m r + 2 ^ blockBits m ≤ 2 ^ 16

variable {m r : Nat} {n : Int}

theorem placed (hm : m ≤ 32767) (hr : r < 2 ^ 16) : Placed m r := by
  have hbits : blockBits m ≤ 15 := (Nat.clog_le_iff_le_pow (by decide)).mpr (by omega)
  obtain ⟨c, hc⟩ : ∃ c, 2 ^ 15 = 2 ^ blockBits m * c := Nat.pow_dvd_pow 2 hbits
  have hpos := Nat.two_pow_pos (blockBits m)
  have hdiv := Nat.div_add_mod r (2 ^ blockBits m)
  have hmod := Nat.mod_lt r hpos
  have hlow : lowBound m r = 2 ^ blockBits m * (r / 2 ^ blockBits m) := by
    unfold lowBound
    omega
  have hblock {x : Nat} (h : r < 2 ^ blockBits m * x) : lowBound m r + 2 ^ blockBits m ≤ 2 ^ blockBits m * x := by
    rw [hlow, ← Nat.mul_succ]
    exact Nat.mul_le_mul_left _ (Nat.div_lt_of_lt_mul h)
  refine ⟨(Nat.clog_le_iff_le_pow (by decide)).mp (Nat.le_refl _), fun h => ?_, ?_, by omega, fun h => ?_,
    fun h => ?_, ?_⟩
  · exact Nat.pow_le_pow_right (by decide) ((Nat.clog_le_iff_le_pow (by decide)).mpr h)
  · exact Nat.pow_le_pow_right (by decide) hbits
  · rw [hc] at h ⊢
    exact hblock h
  · rw [hlow, hc]
    exact Nat.mul_le_mul_left _ ((Nat.le_div_iff_mul_le hpos).mpr (by rw [Nat.mul_comm, ← hc]; exact h))
  · have h2 : 2 ^ 16 = 2 ^ blockBits m * (2 * c) := by rw [Nat.mul_left_comm, ← hc]; rfl
    rw [h2] at hr ⊢
    exact hblock hr

def correction (m r : Nat) (n : Int) : Int :=
  if n = m + 1 then 0
  else if int16 (r + n) > lowBound m r + m then -(m + 1)
  else if int16 (r + n) < lowBound m r then m + 1 else 0

theorem emuUpdateRnModulo_eq (hm : m ≤ 32767) (hr : r < 2 ^ 16) :
    (emuUpdateRnModulo m r n : Int) = (r + n + correction m r n) % 2 ^ 16 := by
  have hplaced := placed hm hr
  have hbits : blockBits m ≤ 15 := (Nat.clog_le_iff_le_pow (by decide)).mpr (by omega)
  have hsize : sizeLoop (m + 1) 16 1 (2 ^ 16 - 1) = (2 ^ blockBits m, 2 ^ 16 - 2 ^ blockBits m) :=
    sizeLoop_eq (j := 0) (Nat.zero_le _) (by unfold blockBits at hbits; omega) hbits
  have hlobound : r &&& (2 ^ 16 - 2 ^ blockBits m) = lowBound m r := and_high hr (by omega)
  have hhibound : (lowBound m r + (m + 1) - 1) % 2 ^ 16 = lowBound m r + m := by
    have := hplaced.fits
    have := hplaced.inside
    omega
  have hvalue {x : Int} : ((x % 2 ^ 16).toNat : Int) = x % 2 ^ 16 := Int.toNat_of_nonneg (by omega)
  have hmodulo : (m + 1) % 2 ^ 16 = m + 1 := Nat.mod_eq_of_lt (by omega)
  simp only [emuUpdateRnModulo, hmodulo, hsize, hlobound, hhibound, movedReg_eq, hvalue, correction,
    Nat.cast_add, Nat.cast_one]
  have hmod := int16_mod (r + n)
  generalize int16 (r + n) = x at *
  split_ifs
  · omega
  · rw [int16_mod]
    omega
  · rw [int16_mod]
    omega
  · omega

/-- An offset of at most the modulus stays in the block, an offset by whole blocks is just added. -/
def ModuloExact (m r : Nat) (n : Int) : Prop :=
  (|n| ≤ m + 1 → (lowBound m r ≤ emuUpdateRnModulo m r n ∧
    emuUpdateRnModulo m r n ≤ lowBound m r + m) ∧ (emuUpdateRnModulo m r n : Int) ≡ r + n [ZMOD m + 1]) ∧
  (n ≠ 0 → (2 ^ blockBits m : Int) ∣ n → (emuUpdateRnModulo m r n : Int) = (r + n) % 2 ^ 16)

/-- Where an offset of at most the modulus works. -/
def Wraps (m r : Nat) (n : Int) : Prop :=
  n ≠ m + 1 ∧ if r < 2 ^ 15 then r + n < 2 ^ 15 ∨ m + 1 = 2 ^ 15
    else r + n < lowBound m r ∨ (m + 1 = 2 ^ 15 ∧ 2 ^ 16 ≤ r + n)

theorem eq_of_dvd (hm : m ≤ 32767) (hlarge : 2 ^ 14 < m + 1) {t : Int} (ht : t = 1 ∨ t = -1)
    (h : (m + 1 : Int) ∣ 2 ^ 16 * t) : m + 1 = 2 ^ 15 := by
  obtain ⟨c, hc⟩ : m + 1 ∣ 2 ^ 16 := by
    obtain rfl | rfl := ht <;> zify <;> simpa using h
  have hlt : c < 4 := by nlinarith
  interval_cases c <;> omega

theorem block_iff_wraps (hm : m ≤ 32767) (hr : r < 2 ^ 16) (hlow : r % 2 ^ blockBits m < m + 1)
    (hn : |n| ≤ m + 1) : ((lowBound m r ≤ emuUpdateRnModulo m r n ∧
      emuUpdateRnModulo m r n ≤ lowBound m r + m) ∧
      (emuUpdateRnModulo m r n : Int) ≡ r + n [ZMOD m + 1]) ↔ Wraps m r n := by
  obtain ⟨hfits, hsmall, hlarge, hblock, hlower, hupper, hinside⟩ := placed hm hr
  obtain ⟨hnl, hnr⟩ := abs_le.mp hn
  have hoffset : r < lowBound m r + (m + 1) := by
    unfold lowBound at *
    omega
  have hvalue := emuUpdateRnModulo_eq (n := n) hm hr
  rw [Int.modEq_iff_dvd]
  unfold Wraps
  unfold correction at hvalue
  generalize emuUpdateRnModulo m r n = value at *
  generalize lowBound m r = lo at *
  generalize 2 ^ blockBits m = size at *
  by_cases hne : n = m + 1
  · -- one block too high
    rw [if_pos hne] at hvalue
    refine iff_of_false (fun h => ?_) fun h => h.1 hne
    have := h.1
    omega
  rw [if_neg hne] at hvalue
  by_cases hhalf : r < 2 ^ 15
  · have hlower := hlower hhalf
    rw [if_pos hhalf]
    by_cases hsum : (r : Int) + n < 2 ^ 15
    · -- the comparisons are those of the numbers
      have hx : int16 (r + n) = r + n := by
        unfold int16
        omega
      rw [hx] at hvalue
      refine iff_of_true ?_ ⟨hne, .inl hsum⟩
      split_ifs at hvalue
      · exact ⟨by omega, 1, by omega⟩
      · exact ⟨by omega, -1, by omega⟩
      · exact ⟨by omega, 0, by omega⟩
    · -- the register has become negative
      have hx : int16 (r + n) = r + n - 2 ^ 16 := by
        unfold int16
        omega
      rw [hx, if_neg (by omega), if_pos (by omega)] at hvalue
      by_cases hmax : m + 1 = 2 ^ 15
      · exact iff_of_true ⟨by omega, 1, by omega⟩ ⟨hne, .inr hmax⟩
      · refine iff_of_false ?_ fun h => h.2.elim hsum hmax
        rintro ⟨hin, hdvd⟩
        have hbig : 2 ^ 14 < m + 1 := by omega
        refine hmax (eq_of_dvd hm hbig (.inl rfl) ?_)
        have hshift : (2 ^ 16 * 1 : Int) = (r + n - value) + (m + 1) := by omega
        rw [hshift]
        exact Int.dvd_add hdvd (Int.dvd_refl _)
  · -- above the middle every sum is below the block
    have hupper := hupper (Nat.le_of_not_lt hhalf)
    have hx : int16 (r + n) < 2 ^ 15 := by
      unfold int16
      omega
    rw [if_neg (by omega), if_pos (by omega)] at hvalue
    rw [if_neg hhalf]
    by_cases hsum : (r : Int) + n < lo
    · exact iff_of_true ⟨by omega, -1, by omega⟩ ⟨hne, .inl hsum⟩
    · by_cases hmax : m + 1 = 2 ^ 15 ∧ (2 ^ 16 : Int) ≤ r + n
      · exact iff_of_true ⟨by omega, 1, by omega⟩ ⟨hne, .inr hmax⟩
      · refine iff_of_false ?_ fun h => h.2.elim hsum hmax
        rintro ⟨hin, hdvd⟩
        have hbig : 2 ^ 14 < m + 1 := by omega
        have hshift : (2 ^ 16 * 1 : Int) = (r + n - value) + (m + 1) := by omega
        have hm2 : m + 1 = 2 ^ 15 :=
          eq_of_dvd hm hbig (.inl rfl) (hshift ▸ Int.dvd_add hdvd (Int.dvd_refl _))
        omega

theorem jump_inexact (hm : m ≤ 32767) (hr : r < 2 ^ 16) (hlow : r % 2 ^ blockBits m < m + 1)
    (hn : -2 ^ 15 ≤ n ∧ n < 2 ^ 15) (hzero : n ≠ 0) (hdvd : (2 ^ blockBits m : Int) ∣ n) :
    ¬ModuloExact m r n := by
  intro h
  have hvalue := h.2 hzero hdvd
  by_cases hne : n = m + 1
  · have habs : |n| ≤ m + 1 := by
      rw [hne, abs_of_nonneg (by omega)]
    exact ((block_iff_wraps hm hr hlow habs).mp (h.1 habs)).1 hne
  obtain ⟨hfits, -, hlarge, hblock, hlower, hupper, -⟩ := placed hm hr
  -- the modulus is added or taken off unless the sum is in the block
  obtain ⟨hge, hle⟩ : (lowBound m r : Int) ≤ int16 (r + n) ∧ int16 (r + n) ≤ lowBound m r + m := by
    rw [emuUpdateRnModulo_eq hm hr, correction, if_neg hne] at hvalue
    split_ifs at hvalue <;> omega
  have hhalf : r < 2 ^ 15 := by
    by_contra hhalf
    have := hupper (Nat.le_of_not_lt hhalf)
    unfold int16 at hge
    omega
  have hpow : (2 ^ blockBits m : Int) ∣ 2 ^ 16 :=
    pow_dvd_pow 2 (Nat.le_trans ((Nat.clog_le_iff_le_pow (by decide)).mpr (by omega)) (by decide : 15 ≤ 16))
  have hsame : int16 (r + n) - r = 0 := by
    refine Int.eq_zero_of_abs_lt_dvd (m := 2 ^ blockBits m) ?_ ?_
    · have hsplit : int16 (r + n) - r = n - 2 ^ 16 * ((r + n + 2 ^ 15) / 2 ^ 16) := by
        unfold int16
        omega
      rw [hsplit]
      exact Int.dvd_sub hdvd (Dvd.dvd.mul_right hpow _)
    · have hcast : ((2 ^ blockBits m : Nat) : Int) = 2 ^ blockBits m := by norm_num
      rw [abs_lt]
      omega
  unfold int16 at hsame
  omega

/-- **Modulo addressing** works exactly for offsets that do not add whole blocks, and where the signed
comparisons agree with the addresses. -/
theorem moduloExact_iff (hm : m ≤ 32767) (hr : r < 2 ^ 16) (hlow : r % 2 ^ blockBits m < m + 1)
    (hn : -2 ^ 15 ≤ n ∧ n < 2 ^ 15) : ModuloExact m r n ↔
      (n = 0 ∨ ¬(2 ^ blockBits m : Int) ∣ n) ∧ (|n| ≤ m + 1 → Wraps m r n) := by
  by_cases hjump : n = 0 ∨ ¬(2 ^ blockBits m : Int) ∣ n
  · unfold ModuloExact
    constructor
    · intro h
      exact ⟨hjump, fun habs => (block_iff_wraps hm hr hlow habs).mp (h.1 habs)⟩
    · intro h
      refine ⟨fun habs => (block_iff_wraps hm hr hlow habs).mpr (h.2 habs), fun hne hdvd => ?_⟩
      exact absurd hdvd (hjump.resolve_left hne)
  · refine iff_of_false ?_ fun h => hjump h.1
    rw [not_or, not_not] at hjump
    exact jump_inexact hm hr hlow hn hjump.1 hjump.2

theorem moduloExact_small : ModuloExact 2 4 2 :=
  (moduloExact_iff (by decide) (by decide) (by decide) (by decide)).mpr
    ⟨.inr (by decide), fun _ => ⟨by decide, .inl (by decide)⟩⟩

/-- Around a buffer of four words in the upper half, without an offset. -/
theorem modulo_inexact : emuUpdateRnModulo 3 0x8000 0 = 0x8004 ∧ ¬ModuloExact 3 0x8000 0 := by
  refine ⟨by decide, fun h => ?_⟩
  exact absurd (h.1 (by decide)).1 (by decide)

/-! ## Bit-reversed addressing -/

def bitmask (x : Nat) : BitVec 32 := 1#32 <<< x - 1#32

def countLoop (value : BitVec 32) : Nat → Nat → Nat
  | 0, revbits => revbits
  | fuel + 1, revbits =>
    if value &&& 1#32 <<< revbits ≠ 0 then revbits else countLoop value fuel (revbits + 1)

def reverseLow (revbits : Nat) (r : BitVec 32) : BitVec 32 :=
  (List.range revbits).foldl
    (fun value i => if r &&& 1#32 <<< i ≠ 0 then value ||| 1#32 <<< (revbits - i - 1) else value)
    (r &&& (bitmask 16 - bitmask revbits))

def emuUpdateRnBitreverse (n r : BitVec 32) : BitVec 32 :=
  let revbits := countLoop n 16 0 + 1
  let value := (reverseLow revbits r + 1) &&& bitmask revbits
  reverseLow revbits ((r &&& (bitmask 16 - bitmask revbits)) ||| value)

theorem countLoop_twoPow {j : Nat} (hj : j ≤ 15) : countLoop (BitVec.twoPow 32 j) 16 0 = j := by
  have hall : ∀ j ∈ List.range 16, countLoop (BitVec.twoPow 32 j) 16 0 = j := by decide
  exact hall j (List.mem_range.mpr (by omega))

theorem getLsbD_masks {k i : Nat} (hk : k ≤ 16) : (bitmask k).getLsbD i = decide (i < k) ∧
    (bitmask 16 - bitmask k).getLsbD i = decide (k ≤ i ∧ i < 16) := by
  by_cases hi : i < 32
  · have hall : ∀ k ∈ List.range 17, ∀ i ∈ List.range 32, (bitmask k).getLsbD i = decide (i < k) ∧
        (bitmask 16 - bitmask k).getLsbD i = decide (k ≤ i ∧ i < 16) := by decide +kernel
    exact hall k (List.mem_range.mpr (by omega)) i (List.mem_range.mpr hi)
  · rw [BitVec.getLsbD_of_ge _ _ (by omega), BitVec.getLsbD_of_ge _ _ (by omega)]
    constructor
    · exact (decide_eq_false (by omega)).symm
    · exact (decide_eq_false (by omega)).symm

theorem and_one_shiftLeft (r : BitVec 32) {i : Nat} (hi : i < 32) :
    r &&& 1#32 <<< i ≠ 0 ↔ r.getLsbD i = true := by
  have hpos : BitVec.twoPow 32 i ≠ 0 := fun h => by
    simpa [hi] using congrArg (BitVec.getLsbD · i) h
  rw [← BitVec.twoPow_eq, BitVec.and_twoPow]
  split
  · next h => exact iff_of_true hpos h
  · next h => exact iff_of_false (fun hne => hne rfl) h

theorem getLsbD_reverseLow {k i : Nat} (hk : k ≤ 16) (r : BitVec 32) : (reverseLow k r).getLsbD i =
    if i < k then r.getLsbD (k - 1 - i) else decide (i < 16) && r.getLsbD i := by
  -- after `n` rounds the top `n` of the `k` bits are set
  have hloop (n : Nat) (hn : n ≤ k) : ((List.range n).foldl
      (fun value i => if r &&& 1#32 <<< i ≠ 0 then value ||| 1#32 <<< (k - i - 1) else value)
      (r &&& (bitmask 16 - bitmask k))).getLsbD i =
        if i < k then decide (k - n ≤ i) && r.getLsbD (k - 1 - i) else decide (i < 16) && r.getLsbD i := by
    induction n with
    | zero =>
      rw [List.range_zero, List.foldl_nil, BitVec.getLsbD_and, (getLsbD_masks hk).2]
      grind
    | succ n ih =>
      have hbit : (1#32 <<< (k - n - 1)).getLsbD i = decide (i = k - n - 1) := by
        rw [← BitVec.twoPow_eq, BitVec.getLsbD_twoPow]
        grind
      have ih := ih (by omega)
      rw [List.range_succ, List.foldl_append, List.foldl_cons, List.foldl_nil]
      generalize List.foldl _ _ _ = value at ih ⊢
      simp only [and_one_shiftLeft r (show n < 32 by omega)]
      by_cases hi : i = k - n - 1
      · have hrev : k - 1 - i = n := by omega
        have hle : k - (n + 1) ≤ i := by omega
        have hlt : i < k := by omega
        rw [if_pos hlt, hrev] at ih ⊢
        split <;> simp_all
      · have hle : (k - (n + 1) ≤ i) = (k - n ≤ i) := propext (by omega)
        simp only [hle, ← ih]
        split
        · rw [BitVec.getLsbD_or, hbit, decide_eq_false hi, Bool.or_false]
        · rfl
  rw [reverseLow, hloop k (Nat.le_refl k)]
  simp

theorem setWidth_reverseLow {k : Nat} (hk : k ≤ 16) (r : BitVec 32) :
    (reverseLow k r).setWidth k = (r.setWidth k).reverse := by
  apply BitVec.eq_of_getLsbD_eq
  intro i hi
  rw [BitVec.getLsbD_reverse, BitVec.getMsbD_eq_getLsbD, BitVec.getLsbD_setWidth, BitVec.getLsbD_setWidth,
    getLsbD_reverseLow hk, if_pos hi]
  simp [show k - 1 - i < k by omega, hi]

section Steps

variable {j : Nat} {r : BitVec 32}

theorem update_low (hj : j ≤ 15) (r : BitVec 32) :
    (emuUpdateRnBitreverse (BitVec.twoPow 32 j) r).setWidth (j + 1) =
      ((r.setWidth (j + 1)).reverse + 1).reverse := by
  have hk : j + 1 ≤ 16 := by omega
  rw [emuUpdateRnBitreverse, countLoop_twoPow hj, setWidth_reverseLow hk, BitVec.setWidth_or]
  have hhigh : (r &&& (bitmask 16 - bitmask (j + 1))).setWidth (j + 1) = 0 := by
    apply BitVec.eq_of_getLsbD_eq
    intro i hi
    simp [(getLsbD_masks hk).2, show ¬j + 1 ≤ i by omega]
  have hlow (x : BitVec 32) : (x &&& bitmask (j + 1)).setWidth (j + 1) = x.setWidth (j + 1) := by
    apply BitVec.eq_of_getLsbD_eq
    intro i hi
    simp [(getLsbD_masks hk).1, hi]
  rw [hhigh, hlow, BitVec.setWidth_add _ _ (by omega), setWidth_reverseLow hk]
  simp [BitVec.setWidth_ofNat_of_le (show j + 1 ≤ 32 by omega)]

theorem update_high (hj : j ≤ 15) (hr : r.toNat < 2 ^ 16) :
    emuUpdateRnBitreverse (BitVec.twoPow 32 j) r >>> (j + 1) = r >>> (j + 1) := by
  have hk : j + 1 ≤ 16 := by omega
  apply BitVec.eq_of_getLsbD_eq
  intro i hi
  have hhigh : ¬j + 1 + i < 16 → r.getLsbD (j + 1 + i) = false := fun h =>
    Nat.testBit_lt_two_pow (Nat.lt_of_lt_of_le hr (Nat.pow_le_pow_right (by decide) (by omega)))
  rw [BitVec.getLsbD_ushiftRight, BitVec.getLsbD_ushiftRight, emuUpdateRnBitreverse, countLoop_twoPow hj,
    getLsbD_reverseLow hk, if_neg (by omega), BitVec.getLsbD_or, BitVec.getLsbD_and, BitVec.getLsbD_and,
    (getLsbD_masks hk).1, (getLsbD_masks hk).2]
  by_cases h : j + 1 + i < 16
  · simp [h, show ¬j + 1 + i ≤ j by omega]
  · simp [h, hhigh h]

theorem lt_of_shift {a : BitVec 32} (hj : j ≤ 15) (hr : r.toNat < 2 ^ 16)
    (h : a >>> (j + 1) = r >>> (j + 1)) : a.toNat < 2 ^ 16 := by
  have hdiv := congrArg BitVec.toNat h
  rw [BitVec.toNat_ushiftRight, BitVec.toNat_ushiftRight, Nat.shiftRight_eq_div_pow,
    Nat.shiftRight_eq_div_pow] at hdiv
  have hpow : 2 ^ 16 = 2 ^ (15 - j) * 2 ^ (j + 1) := by
    rw [← Nat.pow_add]
    congr 1
    omega
  rw [hpow, ← Nat.div_lt_iff_lt_mul (Nat.two_pow_pos _)] at hr ⊢
  rwa [hdiv]

theorem iterate_update (hj : j ≤ 15) (hr : r.toNat < 2 ^ 16) (t : Nat) :
    (emuUpdateRnBitreverse (BitVec.twoPow 32 j))^[t] r >>> (j + 1) = r >>> (j + 1) ∧
    ((emuUpdateRnBitreverse (BitVec.twoPow 32 j))^[t] r).setWidth (j + 1) =
      ((r.setWidth (j + 1)).reverse + BitVec.ofNat (j + 1) t).reverse := by
  induction t with
  | zero => simp [BitVec.reverse_reverse_eq]
  | succ t ih =>
    rw [Function.iterate_succ_apply', update_low hj, update_high hj (lt_of_shift hj hr ih.1), ih.2,
      BitVec.reverse_reverse_eq, BitVec.ofNat_add, BitVec.add_assoc]
    exact ⟨ih.1, rfl⟩

theorem eq_of_parts {k : Nat} {a b : BitVec 32} (hhigh : a >>> k = b >>> k)
    (hlow : a.setWidth k = b.setWidth k) : a = b := by
  apply BitVec.eq_of_getLsbD_eq
  intro i hi
  by_cases h : i < k
  · simpa [h] using congrArg (BitVec.getLsbD · i) hlow
  · simpa [show k + (i - k) = i by omega] using congrArg (BitVec.getLsbD · (i - k)) hhigh

/-- **Bit-reversed addressing** runs through the block of an address in the order of the reversed
numbers, and comes back. -/
theorem bitreverse_enumerates (hj : j ≤ 15) (hr : r.toNat < 2 ^ 16) :
    (∀ t, ((emuUpdateRnBitreverse (BitVec.twoPow 32 j))^[t] r).setWidth (j + 1) =
      ((r.setWidth (j + 1)).reverse + BitVec.ofNat (j + 1) t).reverse) ∧
    (∀ a : BitVec 32, a >>> (j + 1) = r >>> (j + 1) ↔
      ∃! t, t < 2 ^ (j + 1) ∧ (emuUpdateRnBitreverse (BitVec.twoPow 32 j))^[t] r = a) ∧
    (emuUpdateRnBitreverse (BitVec.twoPow 32 j))^[2 ^ (j + 1)] r = r := by
  have hsteps := iterate_update hj hr
  refine ⟨fun t => (hsteps t).2, fun a => ⟨fun ha => ?_, ?_⟩, ?_⟩
  · -- the number of the address is how far its reversal is ahead
    let ahead := (a.setWidth (j + 1)).reverse - (r.setWidth (j + 1)).reverse
    refine ⟨ahead.toNat, ⟨ahead.isLt, eq_of_parts ((hsteps _).1.trans ha.symm) ?_⟩, ?_⟩
    · rw [(hsteps _).2, BitVec.ofNat_toNat, BitVec.setWidth_eq, BitVec.add_comm, BitVec.sub_add_cancel,
        BitVec.reverse_reverse_eq]
    · rintro t ⟨ht, rfl⟩
      have hahead : ahead = BitVec.ofNat (j + 1) t := by
        simp only [ahead, (hsteps t).2, BitVec.reverse_reverse_eq, add_sub_cancel_left]
      rw [hahead, BitVec.toNat_ofNat, Nat.mod_eq_of_lt ht]
  · rintro ⟨t, ⟨-, rfl⟩, -⟩
    exact (hsteps t).1
  · refine eq_of_parts (hsteps _).1 ?_
    have hzero : BitVec.ofNat (j + 1) (2 ^ (j + 1)) = 0#(j + 1) := by
      apply BitVec.eq_of_toNat_eq
      rw [BitVec.toNat_ofNat, Nat.mod_self, BitVec.toNat_zero]
    rw [(hsteps _).2, hzero, BitVec.add_zero, BitVec.reverse_reverse_eq]

theorem bitreverse_enumerates_two : (emuUpdateRnBitreverse (BitVec.twoPow 32 1))^[2 ^ (1 + 1)] 0x123 = 0x123 :=
  (bitreverse_enumerates (by decide) (by decide)).2.2

end Steps

end DukeX.Apu
