import Mathlib

/-!
# Two implementations of RC4

`rc4.c` and `XboxRC4`.
-/

namespace DukeX.Eeprom

def rc4Start : List UInt8 := (List.range 256).map UInt8.ofNat

theorem length_rc4Start : rc4Start.length = 256 := by simp [rc4Start]

def rc4Swap (s : List UInt8) (first second : Nat) : List UInt8 :=
  let temp := s.getD first 0
  (s.set first (s.getD second 0)).set second temp

def rc4InitStep (data : List UInt8) (st : List UInt8 × Nat) (i : Nat) : List UInt8 × Nat :=
  let j := (st.2 + (st.1.getD i 0).toNat + (data.getD (i % data.length) 0).toNat) % 256
  (rc4Swap st.1 i j, j)

def rc4Init (data : List UInt8) : List UInt8 :=
  ((List.range 256).foldl (rc4InitStep data) (rc4Start, 0)).1

def rc4CryptFrom (s : List UInt8) (i j : Nat) : List UInt8 → List UInt8
  | [] => []
  | byte :: data =>
    let i := (i + 1) % 256
    let j := (j + (s.getD i 0).toNat) % 256
    let s := rc4Swap s i j
    (byte ^^^ s.getD (((s.getD i 0).toNat + (s.getD j 0).toNat) % 256) 0) :: rc4CryptFrom s i j data

def rc4Crypt (s : List UInt8) (data : List UInt8) : List UInt8 := rc4CryptFrom s 0 0 data

structure XboxRC4 where
  state : List UInt8
  x : Nat
  y : Nat

namespace XboxRC4

def swapAt (state : List UInt8) (i j : Nat) : List UInt8 :=
  if i = j then state else (state.set i (state.getD j 0)).set j (state.getD i 0)

def initStep (seed : List UInt8) (st : List UInt8 × Nat × Nat) (index : Nat) :
    List UInt8 × Nat × Nat :=
  let swapIndex := ((seed.getD st.2.2 0).toNat + (st.1.getD index 0).toNat + st.2.1) % st.1.length
  (swapAt st.1 index swapIndex, swapIndex, (st.2.2 + 1) % seed.length)

def init (seed : List UInt8) : XboxRC4 where
  state := ((List.range 256).foldl (initStep seed) (rc4Start, 0, 0)).1
  x := 0
  y := 0

def crypt (rc4 : XboxRC4) : List UInt8 → List UInt8
  | [] => []
  | byte :: data =>
    let x := (rc4.x + 1) % rc4.state.length
    let y := ((rc4.state.getD x 0).toNat + rc4.y) % rc4.state.length
    let state := swapAt rc4.state x y
    (byte ^^^ state.getD (((state.getD x 0).toNat + (state.getD y 0).toNat) % state.length) 0) ::
      crypt ⟨state, x, y⟩ data

end XboxRC4

@[simp] theorem length_rc4Swap (s : List UInt8) (i j : Nat) : (rc4Swap s i j).length = s.length := by
  simp [rc4Swap]

theorem swapAt_eq (s : List UInt8) {i : Nat} (hi : i < s.length) (j : Nat) :
    XboxRC4.swapAt s i j = rc4Swap s i j := by
  unfold XboxRC4.swapAt
  split
  · next h =>
    subst h
    simp [rc4Swap, List.getD_eq_getElem?_getD, hi]
  · rfl

theorem initStep_agrees (seed : List UInt8) (hseed : seed ≠ []) (n : Nat) (hn : n ≤ 256) :
    ∃ s j, s.length = 256 ∧
      (List.range n).foldl (rc4InitStep seed) (rc4Start, 0) = (s, j) ∧
      (List.range n).foldl (XboxRC4.initStep seed) (rc4Start, 0, 0) =
        (s, j, n % seed.length) := by
  have hpos : 0 < seed.length := List.length_pos_iff.mpr hseed
  induction n with
  | zero =>
    exact ⟨rc4Start, 0, length_rc4Start, rfl, by simp⟩
  | succ n ih =>
    obtain ⟨s, j, hlen, hc, hswift⟩ := ih (by omega)
    rw [List.range_succ, List.foldl_append, List.foldl_append, hc, hswift]
    have hj : ((seed.getD (n % seed.length) 0).toNat + (s.getD n 0).toNat + j) % 256 =
        (j + (s.getD n 0).toNat + (seed.getD (n % seed.length) 0).toNat) % 256 := by
      congr 1
      omega
    refine ⟨_, _, ?_, rfl, ?_⟩
    · simp [hlen]
    · simp only [List.foldl_cons, List.foldl_nil, XboxRC4.initStep, hlen, hj]
      rw [swapAt_eq s (by omega), Nat.mod_add_mod]

theorem init_eq (seed : List UInt8) (hseed : seed ≠ []) :
    XboxRC4.init seed = ⟨rc4Init seed, 0, 0⟩ ∧ (rc4Init seed).length = 256 := by
  obtain ⟨s, j, hlen, hc, hswift⟩ := initStep_agrees seed hseed 256 (Nat.le_refl 256)
  unfold XboxRC4.init rc4Init
  rw [hc, hswift]
  exact ⟨rfl, hlen⟩

theorem crypt_eq (s : List UInt8) (hlen : s.length = 256) (i j : Nat) (data : List UInt8) :
    XboxRC4.crypt ⟨s, i, j⟩ data = rc4CryptFrom s i j data := by
  induction data generalizing s i j with
  | nil => rfl
  | cons byte data ih =>
    have hswap : ∀ k, XboxRC4.swapAt s ((i + 1) % 256) k = rc4Swap s ((i + 1) % 256) k :=
      swapAt_eq s (by omega)
    simp only [XboxRC4.crypt, rc4CryptFrom, hlen, hswap, length_rc4Swap, Nat.add_comm _ j]
    rw [ih _ (by simp [hlen])]

theorem rc4CryptFrom_involutive (s : List UInt8) (i j : Nat) (data : List UInt8) :
    rc4CryptFrom s i j (rc4CryptFrom s i j data) = data := by
  induction data generalizing s i j with
  | nil => rfl
  | cons byte data ih =>
    simp only [rc4CryptFrom, ih, UInt8.xor_assoc, UInt8.xor_self, UInt8.xor_zero]

@[simp] theorem length_rc4CryptFrom (s : List UInt8) (i j : Nat) (data : List UInt8) :
    (rc4CryptFrom s i j data).length = data.length := by
  induction data generalizing s i j with
  | nil => rfl
  | cons byte data ih => simp [rc4CryptFrom, ih]

theorem crypt_rc4Crypt (seed : List UInt8) (hseed : seed ≠ []) (data : List UInt8) :
    (XboxRC4.init seed).crypt (rc4Crypt (rc4Init seed) data) = data := by
  obtain ⟨hinit, hlen⟩ := init_eq seed hseed
  rw [hinit, crypt_eq _ hlen, rc4Crypt, rc4CryptFrom_involutive]

end DukeX.Eeprom
