import DukeX.Lib.Store

/-!
# The FIFOs of the signal processors

`gp_fifo_rw` and `ep_fifo_rw` of `hw/xbox/mcpx/apu/dsp/gp_ep.c` move bytes between a buffer and a
circle of guest memory that three registers describe. The pages of the circle are looked up in a
scatter-gather table, one entry before each page is copied. The table is in guest memory as well, so
a write can change the entries it has yet to read.
-/

namespace DukeX.Apu

open DukeX.Lib

/-- Where the table is, and what the address space holds outside RAM. -/
structure SgTable where
  sgeBase : Nat
  maxSge : Nat
  ramSize : Nat
  elsewhere : Store

def SgTable.phys (t : SgTable) (ram : Store) : Store :=
  fun a => if a < t.ramSize then ram a else t.elsewhere a

/-- `ldl_le_phys` of an entry's address. -/
def SgTable.prd (t : SgTable) (ram : Store) (pageEntry : Nat) : Nat :=
  leNat ((t.phys ram).read (t.sgeBase + pageEntry * 8) 4)

/-- The loop of `scatter_gather_rw`; `dir` is a write from `ptr`, `none` a failed assertion. -/
def scatterGatherLoop (t : SgTable) (dir : Bool) :
    Nat → Nat → Nat → Nat → Store → Store → Option Store
  | 0, _, _, len, _, ram => if len = 0 then some ram else none
  | fuel + 1, pageEntry, offsetInPage, len, ptr, ram =>
    if len = 0 then some ram
    else
      let paddr := (t.prd ram pageEntry + offsetInPage) % 2 ^ 32
      let bytesToCopy := min (4096 - offsetInPage) len
      if pageEntry ≤ t.maxSge ∧ paddr + bytesToCopy < t.ramSize then
        scatterGatherLoop t dir fuel (pageEntry + 1) 0 (len - bytesToCopy)
          (fun i => ptr (i + bytesToCopy))
          (if dir then ram.write paddr (ptr.read 0 bytesToCopy) else ram)
      else none

def scatterGatherRw (t : SgTable) (dir : Bool) (ptr : Store) (addr len : Nat) (ram : Store) :
    Option Store :=
  scatterGatherLoop t dir len (addr / 4096) (addr % 4096) len ptr ram

/-- `circular_scatter_gather_rw`; `none` is a run that has not ended, `some none` a failed
assertion. -/
def circularRw (t : SgTable) (dir : Bool) (base last : Nat) :
    Nat → Nat → Nat → Store → Store → Option (Option (Nat × Store))
  | 0, cur, len, _, ram => if len = 0 then some (some (cur, ram)) else none
  | fuel + 1, cur, len, ptr, ram =>
    if len = 0 then some (some (cur, ram))
    else
      let bytesToCopy := min ((last + (2 ^ 32 - cur)) % 2 ^ 32) len
      if base ≤ cur ∧ (cur + bytesToCopy) % 2 ^ 32 ≤ last then
        match scatterGatherRw t dir ptr cur bytesToCopy ram with
        | none => some none
        | some ram =>
          let cur := (cur + bytesToCopy) % 2 ^ 32
          circularRw t dir base last fuel (if cur ≥ last then base else cur) (len - bytesToCopy)
            (fun i => ptr (i + bytesToCopy)) ram
      else some none

structure FifoRegs where
  base : Nat
  last : Nat
  cur : Nat
  base_lt : base < 2 ^ 24
  last_lt : last < 2 ^ 24
  cur_lt : cur < 2 ^ 24

def gpFifoRw (t : SgTable) (dir : Bool) (f : FifoRegs) (ram : Store) (fuel len : Nat)
    (ptr : Store) :
    Option (Option (Nat × Store)) :=
  if f.cur < f.last then
    circularRw t dir f.base f.last fuel (if f.cur < f.base then f.base else f.cur) len ptr ram
  else some none

inductive MonitorPoint where
  | ac97
  | ep
  | other
  deriving DecidableEq

/-- The assertions `ep_sink_samples` and its caller make on the length. -/
def sinkAsserts (monitor : MonitorPoint) (len : Nat) : Bool :=
  match monitor with
  | .ac97 => true
  | .ep => len = 1024
  | .other => len ≤ 1024

/-- `first` is the first FIFO; its samples are replaced by silence where something listens. -/
def epFifoRw (t : SgTable) (dir first : Bool) (monitor : MonitorPoint) (f : FifoRegs) (ram : Store)
    (fuel len : Nat) (ptr : Store) : Option (Option (Nat × Store)) :=
  if dir && first && !sinkAsserts monitor len then some none
  else
    let ptr := if dir && first && monitor != .ac97 then fun _ => 0 else ptr
    let size := (f.last + (2 ^ 32 - f.base)) % 2 ^ 32
    if f.last ≤ f.cur ∧ size = 0 then some none
    else
      let cur := if f.last ≤ f.cur then f.cur % size else f.cur
      circularRw t dir f.base f.last fuel (if cur < f.base then f.base else cur) len ptr ram

/-- The run ends and passes its assertions. -/
def Completes (run : Nat → Option (Option (Nat × Store))) : Prop :=
  ∃ fuel result, run fuel = some (some result)

/-! ## The pages of a transfer

Page `k` of the circle holds the addresses from `k * 4096` on. A transfer that starts at `start` and
goes on to the end of the circle begins in the middle of its first page. -/

def pageAddr (t : SgTable) (ram : Store) (start k : Nat) : Nat :=
  (t.prd ram k + (start - k * 4096)) % 2 ^ 32

def pageBytes (last start k : Nat) : Nat := min 4096 (last - k * 4096) - (start - k * 4096)

/-- Every page from `start` to the end has an entry, and lies in RAM where the entry puts it. -/
def Mapped (t : SgTable) (ram : Store) (last start : Nat) : Prop :=
  ∀ k, start / 4096 ≤ k → k * 4096 < last →
    k ≤ t.maxSge ∧ pageAddr t ram start k + pageBytes last start k < t.ramSize

/-- No page from `start` to the end lies over the entry of a page of the circle. -/
def Apart (t : SgTable) (ram : Store) (base last start : Nat) : Prop :=
  ∀ k, start / 4096 ≤ k → k * 4096 < last → ∀ j, base / 4096 ≤ j → j * 4096 < last →
    t.sgeBase + j * 8 + 4 ≤ pageAddr t ram start k ∨
      pageAddr t ram start k + pageBytes last start k ≤ t.sgeBase + j * 8

def SameTable (t : SgTable) (base last : Nat) (ram ram' : Store) : Prop :=
  ∀ j, base / 4096 ≤ j → j * 4096 < last → t.prd ram' j = t.prd ram j

section Pages

variable {t : SgTable} {dir : Bool} {base last start a len n : Nat} {ptr ram ram₀ ram' : Store}

theorem scatterGatherLoop_zero (fuel pageEntry offsetInPage : Nat) :
    scatterGatherLoop t dir fuel pageEntry offsetInPage 0 ptr ram = some ram := by
  cases fuel <;> simp [scatterGatherLoop]

theorem prd_write {p j : Nat} {data : List UInt8}
    (h : t.sgeBase + j * 8 + 4 ≤ p ∨ p + data.length ≤ t.sgeBase + j * 8) :
    t.prd (ram.write p data) j = t.prd ram j := by
  unfold SgTable.prd
  rw [Store.read_congr fun x hfrom hlt => ?_]
  unfold SgTable.phys
  rw [Store.write_outside (by omega)]

/-- An address a transfer from `start` continues at: `start`, or the beginning of a later page. -/
def Cursor (start a : Nat) : Prop := start ≤ a ∧ a % 4096 = start - a / 4096 * 4096

theorem cursor_start (start : Nat) : Cursor start start := ⟨Nat.le_refl _, by omega⟩

theorem Cursor.next (h : Cursor start a) : Cursor start (a + (4096 - a % 4096)) := by
  obtain ⟨hle, -⟩ := h
  have hpage : (a + (4096 - a % 4096)) / 4096 = a / 4096 + 1 := by omega
  refine ⟨by omega, ?_⟩
  rw [hpage]
  omega

/-- **One page.** While the table is the one of the beginning, the next page is copied to where that
table puts it. -/
theorem scatterGatherLoop_succ (hcur : Cursor start a) (hlen : 0 < len)
    (htable : t.prd ram (a / 4096) = t.prd ram₀ (a / 4096)) (fuel : Nat) :
    scatterGatherLoop t dir (fuel + 1) (a / 4096) (a % 4096) len ptr ram =
      let count := min (4096 - a % 4096) len
      let paddr := pageAddr t ram₀ start (a / 4096)
      if a / 4096 ≤ t.maxSge ∧ paddr + count < t.ramSize then
        scatterGatherLoop t dir fuel ((a + count) / 4096) ((a + count) % 4096) (len - count)
          (fun i => ptr (i + count)) (if dir then ram.write paddr (ptr.read 0 count) else ram)
      else none := by
  rw [scatterGatherLoop, if_neg hlen.ne', htable, hcur.2]
  dsimp only [pageAddr]
  split_ifs with hok hdir
  all_goals first
    | rfl
    | obtain hfull | hpart := Nat.le_total (4096 - a % 4096) len
      · rw [← hcur.2, Nat.min_eq_left hfull,
          show (a + (4096 - a % 4096)) / 4096 = a / 4096 + 1 by omega,
          show (a + (4096 - a % 4096)) % 4096 = 0 by omega]
      · rw [← hcur.2, Nat.min_eq_right hpart, Nat.sub_self, scatterGatherLoop_zero,
          scatterGatherLoop_zero]

theorem count_le (hcur : Cursor start a) (hend : a + len ≤ last) :
    min (4096 - a % 4096) len ≤ pageBytes last start (a / 4096) := by
  have hoff := hcur.2
  unfold pageBytes
  omega

theorem SameTable.step (ptr : Store) (h : SameTable t base last ram₀ ram)
    (hapart : dir = true → Apart t ram₀ base last start) (hcur : Cursor start a) (hlen : 0 < len)
    (hend : a + len ≤ last) :
    SameTable t base last ram₀ (if dir then ram.write (pageAddr t ram₀ start (a / 4096))
      (ptr.read 0 (min (4096 - a % 4096) len)) else ram) := by
  cases dir with
  | false => exact h
  | true =>
    intro j hfrom hlt
    have hin := Nat.lt_of_le_of_lt (Nat.div_mul_le_self a 4096)
      (Nat.lt_of_lt_of_le (Nat.lt_add_of_pos_right hlen) hend)
    have hpage := hapart rfl (a / 4096) (Nat.div_le_div_right hcur.1) hin j hfrom hlt
    rw [if_pos rfl, ← h j hfrom hlt]
    refine prd_write (hpage.imp_right fun hbehind => ?_)
    rw [Store.length_read]
    exact (Nat.add_le_add_left (count_le hcur hend) _).trans hbehind

/-- Where every page is mapped, the transfer passes its assertions and leaves the table. -/
theorem scatterGatherLoop_mapped (hbase : base ≤ start) (hmapped : Mapped t ram₀ last start)
    (hapart : dir = true → Apart t ram₀ base last start) {fuel : Nat} (hfuel : len ≤ fuel)
    (hcur : Cursor start a) (hend : a + len ≤ last) (h : SameTable t base last ram₀ ram) :
    ∃ ram', scatterGatherLoop t dir fuel (a / 4096) (a % 4096) len ptr ram = some ram' ∧
      SameTable t base last ram₀ ram' := by
  induction fuel generalizing len a ptr ram with
  | zero =>
    obtain rfl : len = 0 := Nat.le_zero.mp hfuel
    exact ⟨ram, rfl, h⟩
  | succ fuel ih =>
    obtain rfl | hlen := Nat.eq_zero_or_pos len
    · exact ⟨ram, scatterGatherLoop_zero .., h⟩
    have hstart := hcur.1
    have hpage : base / 4096 ≤ a / 4096 := Nat.div_le_div_right (hbase.trans hstart)
    have hcount := count_le hcur hend
    obtain ⟨hsge, hram⟩ := hmapped (a / 4096) (Nat.div_le_div_right hstart) (by omega)
    rw [scatterGatherLoop_succ hcur hlen (h _ hpage (by omega))]
    dsimp only
    rw [if_pos ⟨hsge, by omega⟩]
    have hsame := h.step ptr hapart hcur hlen hend
    obtain hfull | hpart := Nat.le_total (4096 - a % 4096) len
    · rw [Nat.min_eq_left hfull] at hsame ⊢
      exact ih (by omega) hcur.next (by omega) hsame
    · rw [Nat.min_eq_right hpart] at hsame ⊢
      rw [Nat.sub_self]
      exact ⟨_, scatterGatherLoop_zero .., hsame⟩

/-- A transfer to the end of the circle that passes its assertions has its pages mapped. -/
theorem mapped_of_scatterGatherLoop (hbase : base ≤ start) (hstart : start < last)
    (hapart : dir = true → Apart t ram₀ base last start) {fuel : Nat} (hcur : Cursor start a)
    (hend : a + len = last) (h : SameTable t base last ram₀ ram)
    (hrun : scatterGatherLoop t dir fuel (a / 4096) (a % 4096) len ptr ram = some ram') :
    (∀ k, a / 4096 ≤ k → k * 4096 < last →
      k ≤ t.maxSge ∧ pageAddr t ram₀ start k + pageBytes last start k < t.ramSize) ∧
      SameTable t base last ram₀ ram' := by
  induction fuel generalizing len a ptr ram with
  | zero =>
    rw [scatterGatherLoop] at hrun
    split at hrun
    · cases hrun
      obtain ⟨hle, hoff⟩ := hcur
      exact ⟨fun k _ _ => by omega, h⟩
    · cases hrun
  | succ fuel ih =>
    obtain rfl | hlen := Nat.eq_zero_or_pos len
    · rw [scatterGatherLoop_zero] at hrun
      cases hrun
      obtain ⟨hle, hoff⟩ := hcur
      exact ⟨fun k _ _ => by omega, h⟩
    have hoff := hcur.2
    have hpage : base / 4096 ≤ a / 4096 := Nat.div_le_div_right (hbase.trans hcur.1)
    rw [scatterGatherLoop_succ hcur hlen (h _ hpage (by omega))] at hrun
    dsimp only at hrun
    split at hrun
    swap
    · cases hrun
    next hok =>
    obtain ⟨hsge, hram⟩ := hok
    have hsame := h.step ptr hapart hcur hlen hend.le
    have hbytes : pageBytes last start (a / 4096) = min (4096 - a % 4096) len := by
      unfold pageBytes
      omega
    have hhere (k : Nat) (hk : k = a / 4096) :
        k ≤ t.maxSge ∧ pageAddr t ram₀ start k + pageBytes last start k < t.ramSize := by
      rw [hk, hbytes]
      exact ⟨hsge, hram⟩
    obtain hfull | hpart := Nat.le_total (4096 - a % 4096) len
    · rw [Nat.min_eq_left hfull] at hsame hrun
      obtain ⟨hrest, hsame'⟩ := ih hcur.next (by omega) hsame hrun
      refine ⟨fun k hfrom hlt => ?_, hsame'⟩
      obtain heq | hlater := Nat.eq_or_lt_of_le hfrom
      · exact hhere k heq.symm
      · exact hrest k (by omega) hlt
    · rw [Nat.min_eq_right hpart] at hsame hrun
      rw [Nat.sub_self, scatterGatherLoop_zero] at hrun
      cases hrun
      exact ⟨fun k hfrom hlt => hhere k (by omega), hsame⟩

end Pages

/-! ## Rounds of the circle -/

section Rounds

variable {t : SgTable} {dir : Bool} {base last cur len : Nat} {ptr ram ram₀ : Store}

theorem circularRw_succ (hlast : last < 2 ^ 24) (hcur : base ≤ cur) (hlt : cur < last)
    (hlen : 0 < len) (fuel : Nat) : circularRw t dir base last (fuel + 1) cur len ptr ram =
      match scatterGatherRw t dir ptr cur (min (last - cur) len) ram with
      | none => some none
      | some ram => circularRw t dir base last fuel (if last - cur ≤ len then base else cur + len)
          (len - (last - cur)) (fun i => ptr (i + min (last - cur) len)) ram := by
  have hroom : (last + (2 ^ 32 - cur)) % 2 ^ 32 = last - cur := by omega
  have hend : (cur + min (last - cur) len) % 2 ^ 32 = cur + min (last - cur) len := by omega
  rw [circularRw, if_neg (by omega), hroom]
  dsimp only
  rw [hend, if_pos ⟨hcur, by omega⟩]
  cases scatterGatherRw t dir ptr cur (min (last - cur) len) ram with
  | none => rfl
  | some ram =>
    dsimp only
    congr 1
    · by_cases hle : last - cur ≤ len
      · rw [if_pos (by omega), if_pos hle]
      · rw [if_neg (by omega), if_neg hle, Nat.min_eq_right (by omega)]
    · omega

section

variable (hlast : last < 2 ^ 24) (hcur : base ≤ cur) (hlt : cur < last)
include hlast hcur hlt

theorem round_of_completes (hlen : 0 < len)
    (h : Completes fun fuel => circularRw t dir base last fuel cur len ptr ram) :
    ∃ ram', scatterGatherRw t dir ptr cur (min (last - cur) len) ram = some ram' ∧
      Completes fun fuel => circularRw t dir base last fuel
        (if last - cur ≤ len then base else cur + len) (len - (last - cur))
        (fun i => ptr (i + min (last - cur) len)) ram' := by
  obtain ⟨fuel, result, hrun⟩ := h
  dsimp only at hrun
  cases fuel with
  | zero =>
    rw [circularRw, if_neg (by omega)] at hrun
    cases hrun
  | succ fuel =>
    rw [circularRw_succ hlast hcur hlt hlen] at hrun
    cases hscatter : scatterGatherRw t dir ptr cur (min (last - cur) len) ram with
    | none =>
      rw [hscatter] at hrun
      cases hrun
    | some ram' =>
      rw [hscatter] at hrun
      exact ⟨ram', rfl, fuel, result, hrun⟩

theorem completes_of_round (hlen : 0 < len) {ram' : Store}
    (hscatter : scatterGatherRw t dir ptr cur (min (last - cur) len) ram = some ram')
    (h : Completes fun fuel => circularRw t dir base last fuel
      (if last - cur ≤ len then base else cur + len) (len - (last - cur))
      (fun i => ptr (i + min (last - cur) len)) ram') :
    Completes fun fuel => circularRw t dir base last fuel cur len ptr ram := by
  obtain ⟨fuel, result, hrun⟩ := h
  refine ⟨fuel + 1, result, ?_⟩
  dsimp only
  rw [circularRw_succ hlast hcur hlt hlen, hscatter]
  exact hrun

omit hlast hlt in
/-- One round from `cur`, with the table still the one of the beginning. -/
theorem scatterGatherRw_mapped (ptr : Store) (len : Nat) (hmapped : Mapped t ram₀ last cur)
    (hapart : dir = true → Apart t ram₀ base last cur) (hend : cur + len ≤ last)
    (h : SameTable t base last ram₀ ram) :
    ∃ ram', scatterGatherRw t dir ptr cur len ram = some ram' ∧ SameTable t base last ram₀ ram' :=
  scatterGatherLoop_mapped hcur hmapped hapart (Nat.le_refl len) (cursor_start cur) hend h

/-- **The circle.** Every transfer completes exactly if the pages to the end are mapped, those of the
first round and those of the later ones. -/
theorem completes_iff (hfirst : dir = true → Apart t ram base last cur)
    (hcircle : dir = true → Apart t ram base last base) :
    (∀ len > 0, ∀ ptr, Completes fun fuel => circularRw t dir base last fuel cur len ptr ram) ↔
      Mapped t ram last cur ∧ Mapped t ram last base := by
  have hbase : base < last := Nat.lt_of_le_of_lt hcur hlt
  have hself : SameTable t base last ram ram := fun _ _ _ => rfl
  constructor
  · intro h
    -- one round to the end, and one more from the base
    obtain ⟨ram₁, hrun₁, hrest⟩ := round_of_completes hlast hcur hlt (by omega)
      (h (last - cur + (last - base)) (by omega) fun _ => 0)
    rw [Nat.min_eq_left (by omega)] at hrun₁
    obtain ⟨hmapped₁, hsame₁⟩ := mapped_of_scatterGatherLoop hcur hlt hfirst (cursor_start cur)
      (by omega) hself hrun₁
    rw [if_pos (by omega), Nat.add_sub_cancel_left] at hrest
    obtain ⟨ram₂, hrun₂, -⟩ := round_of_completes hlast (Nat.le_refl base) hbase (by omega) hrest
    rw [Nat.min_eq_left (Nat.le_refl _)] at hrun₂
    obtain ⟨hmapped₂, -⟩ := mapped_of_scatterGatherLoop (Nat.le_refl base) hbase hcircle
      (cursor_start base) (by omega) hsame₁ hrun₂
    exact ⟨hmapped₁, hmapped₂⟩
  · rintro ⟨hmapped₁, hmapped₂⟩ len hlen ptr
    have hround (len : Nat) (ptr ram' : Store) (hsame : SameTable t base last ram ram') :
        Completes fun fuel => circularRw t dir base last fuel base len ptr ram' := by
      induction len using Nat.strong_induction_on generalizing ptr ram' with
      | _ len ih =>
        obtain rfl | hpos := Nat.eq_zero_or_pos len
        · exact ⟨0, (base, ram'), rfl⟩
        · obtain ⟨ram'', hrun, hsame'⟩ := scatterGatherRw_mapped (Nat.le_refl base) ptr
            (min (last - base) len) hmapped₂ hcircle (by omega) hsame
          refine completes_of_round hlast (Nat.le_refl base) hbase hpos hrun ?_
          by_cases hle : last - base ≤ len
          · rw [if_pos hle]
            exact ih _ (by omega) _ _ hsame'
          · rw [show len - (last - base) = 0 by omega]
            exact ⟨0, _, rfl⟩
    obtain ⟨ram', hrun, hsame⟩ := scatterGatherRw_mapped hcur ptr (min (last - cur) len) hmapped₁
      hfirst (by omega) hself
    refine completes_of_round hlast hcur hlt hlen hrun ?_
    by_cases hle : last - cur ≤ len
    · rw [if_pos hle]
      exact hround _ _ _ hsame
    · rw [show len - (last - cur) = 0 by omega]
      exact ⟨0, _, rfl⟩

end

theorem not_completes (hlast : last < 2 ^ 24) (hbase : last ≤ base) (hcur : base ≤ cur)
    (hlt : cur < 2 ^ 24) :
    ¬Completes fun fuel => circularRw t dir base last fuel cur 1 ptr ram := by
  rintro ⟨fuel, result, hrun⟩
  dsimp only at hrun
  obtain rfl | hgt := Nat.eq_or_lt_of_le (Nat.le_trans hbase hcur)
  · -- nothing is copied in a round
    obtain rfl : base = last := Nat.le_antisymm hcur hbase
    induction fuel generalizing ptr with
    | zero => cases hrun
    | succ fuel ih =>
      have hzero : (base + (2 ^ 32 - base)) % 2 ^ 32 = 0 := by omega
      refine @ih (fun i => ptr (i + 0)) ?_
      rw [circularRw, if_neg (by decide), hzero] at hrun
      dsimp only at hrun
      rwa [Nat.zero_min, if_pos ⟨Nat.le_refl _, by omega⟩, scatterGatherRw, scatterGatherLoop_zero,
        Nat.add_zero, Nat.sub_zero, Nat.mod_eq_of_lt (by omega), if_pos (Nat.le_refl _)] at hrun
  · cases fuel with
    | zero => cases hrun
    | succ fuel =>
      have hone : min ((last + (2 ^ 32 - cur)) % 2 ^ 32) 1 = 1 := by omega
      rw [circularRw, if_neg (by decide), hone] at hrun
      dsimp only at hrun
      rw [if_neg (by omega)] at hrun
      cases hrun

end Rounds

/-- A write of the FIFO cannot reach the entries of its own pages. -/
def FifoRegs.Apart (t : SgTable) (ram : Store) (f : FifoRegs) (cur : Nat) : Prop :=
  Apu.Apart t ram f.base f.last cur ∧ Apu.Apart t ram f.base f.last f.base

def FifoRegs.Mapped (t : SgTable) (ram : Store) (f : FifoRegs) (cur : Nat) : Prop :=
  Apu.Mapped t ram f.last cur ∧ Apu.Mapped t ram f.last f.base

def FifoRegs.gpStart (f : FifoRegs) : Nat := max f.base f.cur

def FifoRegs.epStart (f : FifoRegs) : Nat :=
  max f.base (if f.last ≤ f.cur then f.cur % (f.last - f.base) else f.cur)

/-- **The FIFOs** complete every transfer exactly when the registers describe a circle with its pages
there; the global processor must start inside it, and nothing may listen to the encode processor.
What is written must not reach the table. -/
theorem fifos_complete_iff (t : SgTable) (ram : Store) (f : FifoRegs) (dir first : Bool)
    (monitor : MonitorPoint) (hgp : dir = true → f.Apart t ram f.gpStart)
    (hep : dir = true → f.Apart t ram f.epStart) :
    ((∀ len > 0, ∀ ptr, Completes fun fuel => gpFifoRw t dir f ram fuel len ptr) ↔
      f.base < f.last ∧ f.cur < f.last ∧ f.Mapped t ram f.gpStart) ∧
    ((∀ len > 0, ∀ ptr, Completes fun fuel => epFifoRw t dir first monitor f ram fuel len ptr) ↔
      ((dir && first) = true → monitor = .ac97) ∧ f.base < f.last ∧
        f.Mapped t ram f.epStart) := by
  have hbase := f.base_lt
  have hlast := f.last_lt
  have hcur := f.cur_lt
  have hstart (cur : Nat) : (if cur < f.base then f.base else cur) = max f.base cur := by
    split <;> omega
  have hle : f.base ≤ f.gpStart ∧ f.base ≤ f.epStart :=
    ⟨Nat.le_max_left .., Nat.le_max_left ..⟩
  have hgp₁ := fun hdir => (hgp hdir).1
  have hgp₂ := fun hdir => (hgp hdir).2
  have hep₁ := fun hdir => (hep hdir).1
  constructor
  · constructor
    · intro h
      have hlt : f.cur < f.last := by
        by_contra hge
        obtain ⟨fuel, result, hrun⟩ := h 1 Nat.one_pos fun _ => 0
        dsimp only at hrun
        rw [gpFifoRw, if_neg hge] at hrun
        cases hrun
      simp only [gpFifoRw, if_pos hlt, hstart] at h
      have hcircle : f.base < f.last := by
        by_contra hge
        exact not_completes hlast (Nat.le_of_not_lt hge) (Nat.le_max_left ..) (by omega)
          (h 1 Nat.one_pos fun _ => 0)
      exact ⟨hcircle, hlt,
        (completes_iff hlast hle.1 (max_lt hcircle hlt) hgp₁ hgp₂).mp h⟩
    · rintro ⟨hcircle, hlt, hmapped⟩
      simp only [gpFifoRw, if_pos hlt, hstart]
      exact (completes_iff hlast hle.1 (max_lt hcircle hlt) hgp₁ hgp₂).mpr hmapped
  · by_cases hsink : (dir && first) = true → monitor = .ac97
    · have hpass (len : Nat) : (dir && first && !sinkAsserts monitor len) = false := by
        cases hwrite : dir && first with
        | false => rfl
        | true =>
          rw [hsink hwrite]
          rfl
      have hptr (ptr : Store) :
          (if dir && first && monitor != .ac97 then fun _ => 0 else ptr) = ptr := by
        cases hwrite : dir && first with
        | false => rfl
        | true =>
          rw [hsink hwrite]
          rfl
      simp only [epFifoRw, hpass, hptr, hstart, Bool.false_eq_true, if_false]
      by_cases hcircle : f.base < f.last
      · have hsize : (f.last + (2 ^ 32 - f.base)) % 2 ^ 32 = f.last - f.base := by omega
        have hmod := Nat.mod_lt f.cur (show 0 < f.last - f.base by omega)
        have hin : f.epStart < f.last := by
          unfold FifoRegs.epStart
          split <;> omega
        simp only [hsize, if_neg (show ¬(f.last ≤ f.cur ∧ f.last - f.base = 0) by omega)]
        rw [← FifoRegs.epStart, completes_iff hlast hle.2 hin hep₁ hgp₂]
        exact ⟨fun h => ⟨hsink, hcircle, h⟩, fun h => h.2.2⟩
      · refine iff_of_false (fun h => ?_) fun h => hcircle h.2.1
        have hone := h 1 Nat.one_pos fun _ => 0
        split at hone
        · obtain ⟨fuel, result, hrun⟩ := hone
          cases hrun
        · refine not_completes hlast (Nat.le_of_not_lt hcircle) (Nat.le_max_left ..) ?_ hone
          have := Nat.mod_le f.cur ((f.last + (2 ^ 32 - f.base)) % 2 ^ 32)
          split <;> omega
    · refine iff_of_false (fun h => hsink ?_) fun h => hsink h.1
      intro hwrite
      obtain ⟨fuel, result, hrun⟩ := h 1025 (by decide) fun _ => 0
      dsimp only at hrun
      cases monitor with
      | ac97 => rfl
      | ep | other =>
        rw [epFifoRw, hwrite] at hrun
        cases hrun

/-- A table of zeros at 0x8000: every page is the first one of RAM. -/
def onePage : SgTable := ⟨0x8000, 2 ^ 20, 2 ^ 26, fun _ => 0⟩

/-- A FIFO with the three registers. -/
def fifoAt (base last cur : Fin (2 ^ 24)) : FifoRegs :=
  ⟨base, last, cur, base.isLt, last.isLt, cur.isLt⟩

theorem page_eq_zero {last k : Nat} (hlast : last ≤ 4096) (h : k * 4096 < last) : k = 0 := by omega

theorem fifos_complete_small : (fifoAt 0 16 4).Mapped onePage (fun _ => 0) 4 ∧
    ∀ len > 0, ∀ ptr,
      Completes fun fuel => gpFifoRw onePage true (fifoAt 0 16 4) (fun _ => 0) fuel len ptr := by
  have hmapped : (fifoAt 0 16 4).Mapped onePage (fun _ => 0) 4 := by
    refine ⟨fun k _ h => ?_, fun k _ h => ?_⟩ <;> cases page_eq_zero (by decide) h <;> decide
  have hapart : (fifoAt 0 16 4).Apart onePage (fun _ => 0) 4 := by
    refine ⟨fun k _ h j _ h' => ?_, fun k _ h j _ h' => ?_⟩ <;>
      cases page_eq_zero (by decide) h <;> cases page_eq_zero (by decide) h' <;> decide
  exact ⟨hmapped, (fifos_complete_iff onePage (fun _ => 0) (fifoAt 0 16 4) true false .ac97
    (fun _ => hapart) fun _ => hapart).1.mpr ⟨by decide, by decide, hmapped⟩⟩

/-- The current address at the end of the circle, a circle of no bytes, and one of no bytes to divide
by. -/
theorem fifos_stop :
    (∀ ptr fuel, gpFifoRw onePage true (fifoAt 0 16 16) (fun _ => 0) fuel 1 ptr = some none) ∧
    (∀ ptr, ¬Completes fun fuel =>
      gpFifoRw onePage true (fifoAt 16 16 0) (fun _ => 0) fuel 1 ptr) ∧
    ∀ ptr fuel,
      epFifoRw onePage true false .ac97 (fifoAt 16 16 16) (fun _ => 0) fuel 1 ptr = some none :=
  ⟨fun _ _ => rfl, fun _ => not_completes (by decide) (by decide) (by decide) (by decide),
    fun _ _ => rfl⟩

end DukeX.Apu
