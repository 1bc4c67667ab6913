import Mathlib

/-!
# Two implementations of SHA-1

`sha1.c`, which the emulator hashes a generated EEPROM with, and `XboxSHA1`, with which the app
checks one it is given.
-/

namespace DukeX.Eeprom

structure Chain where
  a : UInt32
  b : UInt32
  c : UInt32
  d : UInt32
  e : UInt32
  deriving DecidableEq, Repr

def Chain.toList (h : Chain) : List UInt32 := [h.a, h.b, h.c, h.d, h.e]

def Chain.add (h h' : Chain) : Chain := ⟨h.a + h'.a, h.b + h'.b, h.c + h'.c, h.d + h'.d, h.e + h'.e⟩

def wordAt (block : List UInt8) (base : Nat) : UInt32 :=
  ((block.getD base 0).toUInt32 <<< 24) ||| ((block.getD (base + 1) 0).toUInt32 <<< 16) |||
    ((block.getD (base + 2) 0).toUInt32 <<< 8) ||| (block.getD (base + 3) 0).toUInt32

def zeroFill (block : List UInt8) (index limit : Nat) : List UInt8 :=
  (List.range' index (limit - index)).foldl (fun block i => block.set i 0) block

def storeWord (block : List UInt8) (base : Nat) (word : UInt32) : List UInt8 :=
  (((block.set base (word >>> 24).toUInt8).set (base + 1) (word >>> 16).toUInt8).set (base + 2)
    (word >>> 8).toUInt8).set (base + 3) word.toUInt8

def roundConstants : List UInt32 := [0x5A827999, 0x6ED9EBA1, 0x8F1BBCDC, 0xCA62C1D6]

/-! ## The implementation in C -/

structure SHA1Context where
  intermediate : Chain
  msgBlk : List UInt8
  msgBlkIndex : Nat
  length : UInt32
  computed : Bool

def sha1Rotate (bits val : UInt32) : UInt32 := (val <<< bits) ||| (val >>> (32 - bits))

def sha1Words (block : List UInt8) : List UInt32 :=
  let w := (List.range 16).foldl (fun w i => w.set i (wordAt block (i * 4))) (List.replicate 80 0)
  (List.range' 16 64).foldl (fun w i => w.set i (sha1Rotate 1
    (w.getD (i - 3) 0 ^^^ w.getD (i - 8) 0 ^^^ w.getD (i - 14) 0 ^^^ w.getD (i - 16) 0))) w

def sha1Round (w : List UInt32) (v : Chain) (i : Nat) : Chain :=
  let temp := sha1Rotate 5 v.a + w.getD i 0 + v.e
  let temp := match i / 20 with
    | 0 => temp + (roundConstants.getD 0 0 + ((v.b &&& v.c) ||| (~~~v.b &&& v.d)))
    | 1 => temp + (roundConstants.getD 1 0 + (v.b ^^^ v.c ^^^ v.d))
    | 2 => temp + (roundConstants.getD 2 0 + ((v.b &&& v.c) ||| (v.b &&& v.d) ||| (v.c &&& v.d)))
    | 3 => temp + (roundConstants.getD 3 0 + (v.b ^^^ v.c ^^^ v.d))
    | _ => temp
  ⟨temp, v.a, sha1Rotate 30 v.b, v.c, v.d⟩

@[irreducible] def sha1Compress (block : List UInt8) (h : Chain) : Chain :=
  h.add ((List.range 80).foldl (sha1Round (sha1Words block)) h)

def sha1Process (ctx : SHA1Context) : SHA1Context :=
  { ctx with intermediate := sha1Compress ctx.msgBlk ctx.intermediate, msgBlkIndex := 0 }

def sha1PadLength (ctx : SHA1Context) : SHA1Context :=
  sha1Process { ctx with msgBlk := storeWord (storeWord ctx.msgBlk 56 0) 60 ctx.length }

def sha1Zero (ctx : SHA1Context) (limit : Nat) : SHA1Context :=
  { ctx with
    msgBlk := zeroFill ctx.msgBlk ctx.msgBlkIndex limit, msgBlkIndex := max ctx.msgBlkIndex limit }

def sha1Pad (ctx : SHA1Context) : SHA1Context :=
  let ctx := { ctx with
    msgBlk := ctx.msgBlk.set ctx.msgBlkIndex 0x80, msgBlkIndex := ctx.msgBlkIndex + 1 }
  let ctx := if 56 < ctx.msgBlkIndex then sha1Process (sha1Zero ctx 64) else ctx
  sha1PadLength (sha1Zero ctx 56)

def sha1InputByte (ctx : SHA1Context) (byte : UInt8) : SHA1Context :=
  let ctx := { ctx with
    msgBlk := ctx.msgBlk.set ctx.msgBlkIndex byte, msgBlkIndex := ctx.msgBlkIndex + 1 }
  if ctx.msgBlkIndex = 64 then sha1Process ctx else ctx

/-- The counter is an `int`: with `-fwrapv` it is negative after `2 ^ 31` bytes, and no longer less than
the `size_t` it is compared with. -/
def sha1Input (ctx : SHA1Context) (data : List UInt8) : SHA1Context :=
  (data.take (2 ^ 31)).foldl sha1InputByte
    { ctx with length := ctx.length + UInt32.ofNat (data.length <<< 3) }

def sha1Result (ctx : SHA1Context) : List UInt8 × SHA1Context :=
  let ctx := if ctx.computed then ctx else { sha1Pad ctx with length := 0, computed := true }
  ((List.range 20).map fun i =>
    (ctx.intermediate.toList.getD (i >>> 2) 0 >>> UInt32.ofNat (8 * (3 - (i &&& 3)))).toUInt8, ctx)

/-! ## The implementation in Swift -/

structure XboxSHA1 where
  hash : Chain
  messageBlock : List UInt8
  bitLength : UInt32
  messageBlockIndex : Nat
  computedResult : Option (List UInt8)

namespace XboxSHA1

def init (initialHash : Chain) (initialBitLength : UInt32) : XboxSHA1 where
  hash := initialHash
  messageBlock := List.replicate 64 0
  bitLength := initialBitLength
  messageBlockIndex := 0
  computedResult := none

def rotateLeft (value : UInt32) (bits : UInt32) : UInt32 :=
  (value <<< bits) ||| (value >>> (32 - bits))

def words (block : List UInt8) : List UInt32 :=
  let words := (List.range 16).foldl (fun words index => words.set index (wordAt block (index * 4)))
    (List.replicate 80 0)
  (List.range' 16 64).foldl (fun words index => words.set index (rotateLeft
    (words.getD (index - 3) 0 ^^^ words.getD (index - 8) 0 ^^^ words.getD (index - 14) 0 ^^^
      words.getD (index - 16) 0) 1)) words

def round (words : List UInt32) (v : Chain) (index : Nat) : Chain :=
  let round := index / 20
  let function := match round with
    | 0 => (v.b &&& v.c) ||| (~~~v.b &&& v.d)
    | 1 => v.b ^^^ v.c ^^^ v.d
    | 3 => v.b ^^^ v.c ^^^ v.d
    | _ => (v.b &&& v.c) ||| (v.b &&& v.d) ||| (v.c &&& v.d)
  let temp := rotateLeft v.a 5 + function + v.e + words.getD index 0 + roundConstants.getD round 0
  ⟨temp, v.a, rotateLeft v.b 30, v.c, v.d⟩

@[irreducible] def compress (block : List UInt8) (h : Chain) : Chain :=
  h.add ((List.range 80).foldl (round (words block)) h)

def processMessageBlock (x : XboxSHA1) : XboxSHA1 :=
  { x with hash := compress x.messageBlock x.hash, messageBlockIndex := 0 }

def padLength (x : XboxSHA1) : XboxSHA1 :=
  processMessageBlock { x with
    messageBlock := storeWord (storeWord x.messageBlock 56 0) 60 x.bitLength }

def zero (x : XboxSHA1) (limit : Nat) : XboxSHA1 :=
  { x with
    messageBlock := zeroFill x.messageBlock x.messageBlockIndex limit
    messageBlockIndex := max x.messageBlockIndex limit }

def pad (x : XboxSHA1) : XboxSHA1 :=
  let ended := { x with
    messageBlock := x.messageBlock.set x.messageBlockIndex 0x80
    messageBlockIndex := x.messageBlockIndex + 1 }
  if 55 < x.messageBlockIndex then
    padLength (zero (processMessageBlock (zero ended 64)) 56)
  else
    padLength (zero ended 56)

def inputByte (x : XboxSHA1) (byte : UInt8) : XboxSHA1 :=
  let x := { x with
    messageBlock := x.messageBlock.set x.messageBlockIndex byte
    messageBlockIndex := x.messageBlockIndex + 1
    bitLength := x.bitLength + 8 }
  if x.messageBlockIndex = 64 then processMessageBlock x else x

/-- `none` is the failed precondition that no digest has been computed yet. -/
def input (x : XboxSHA1) (data : List UInt8) : Option XboxSHA1 :=
  if x.computedResult.isNone then some (data.foldl inputByte x) else none

def result (x : XboxSHA1) : List UInt8 × XboxSHA1 :=
  match x.computedResult with
  | some output => (output, x)
  | none =>
    let x := { pad x with bitLength := 0 }
    let output := x.hash.toList.flatMap fun (word : UInt32) =>
      [(word >>> 24).toUInt8, (word >>> 16).toUInt8, (word >>> 8).toUInt8, word.toUInt8]
    (output, { x with computedResult := some output })

end XboxSHA1

/-! ## One block -/

theorem sha1Round_eq (w : List UInt32) (v : Chain) (i : Nat) (hi : i < 80) :
    sha1Round w v i = XboxSHA1.round w v i := by
  have hround : i / 20 = 0 ∨ i / 20 = 1 ∨ i / 20 = 2 ∨ i / 20 = 3 := by omega
  -- the four kinds of rounds differ only in the order of the terms
  obtain h | h | h | h := hround <;>
  · simp only [sha1Round, XboxSHA1.round, h, sha1Rotate, XboxSHA1.rotateLeft, Chain.mk.injEq,
      and_true]
    ac_rfl

theorem sha1Rotate_eq (bits val : UInt32) : sha1Rotate bits val = XboxSHA1.rotateLeft val bits := rfl

theorem sha1Words_eq (block : List UInt8) : sha1Words block = XboxSHA1.words block := by
  unfold sha1Words XboxSHA1.words
  simp only [sha1Rotate_eq]

theorem foldl_sha1Round_eq (w : List UInt32) (h : Chain) :
    (List.range 80).foldl (sha1Round w) h = (List.range 80).foldl (XboxSHA1.round w) h := by
  grind [List.foldl_ext, sha1Round_eq]

theorem sha1Compress_eq (block : List UInt8) (h : Chain) :
    sha1Compress block h = XboxSHA1.compress block h := by
  unfold sha1Compress XboxSHA1.compress
  rw [sha1Words_eq, foldl_sha1Round_eq]

theorem sha1Process_agrees {ctx : SHA1Context} {x : XboxSHA1} (hhash : ctx.intermediate = x.hash)
    (hblock : ctx.msgBlk = x.messageBlock) :
    (sha1Process ctx).intermediate = x.processMessageBlock.hash := by
  rw [sha1Process, XboxSHA1.processMessageBlock, hhash, hblock, sha1Compress_eq]

@[simp] theorem sha1Process_msgBlkIndex (ctx : SHA1Context) : (sha1Process ctx).msgBlkIndex = 0 := by
  cases ctx; rfl

@[simp] theorem sha1Process_msgBlk (ctx : SHA1Context) : (sha1Process ctx).msgBlk = ctx.msgBlk := by
  cases ctx; rfl

@[simp] theorem sha1Process_length (ctx : SHA1Context) : (sha1Process ctx).length = ctx.length := by
  cases ctx; rfl

@[simp] theorem sha1Process_computed (ctx : SHA1Context) :
    (sha1Process ctx).computed = ctx.computed := by
  cases ctx; rfl

@[simp] theorem processMessageBlock_index (x : XboxSHA1) :
    x.processMessageBlock.messageBlockIndex = 0 := by
  cases x; rfl

@[simp] theorem processMessageBlock_block (x : XboxSHA1) :
    x.processMessageBlock.messageBlock = x.messageBlock := by
  cases x; rfl

@[simp] theorem processMessageBlock_bitLength (x : XboxSHA1) :
    x.processMessageBlock.bitLength = x.bitLength := by
  cases x; rfl

@[simp] theorem processMessageBlock_computedResult (x : XboxSHA1) :
    x.processMessageBlock.computedResult = x.computedResult := by
  cases x; rfl

structure SameBelow (block block' : List UInt8) (index : Nat) : Prop where
  size : block.length = 64
  size' : block'.length = 64
  same : ∀ i < index, block[i]? = block'[i]?

section SameBelow

variable {block block' : List UInt8} {index : Nat}

theorem SameBelow.start (size : block.length = 64) (size' : block'.length = 64) :
    SameBelow block block' 0 :=
  ⟨size, size', fun i hi => absurd hi (Nat.not_lt_zero i)⟩

theorem SameBelow.eq (h : SameBelow block block' 64) : block = block' := by
  apply List.ext_getElem?
  intro i
  by_cases hi : i < 64
  · exact h.same i hi
  · rw [List.getElem?_eq_none (by have := h.size; omega),
      List.getElem?_eq_none (by have := h.size'; omega)]

theorem SameBelow.set (h : SameBelow block block' index) (byte : UInt8) :
    SameBelow (block.set index byte) (block'.set index byte) (index + 1) := by
  refine ⟨by simp [h.size], by simp [h.size'], ?_⟩
  intro i hi
  rw [List.getElem?_set, List.getElem?_set, h.size, h.size']
  split
  · rfl
  · exact h.same i (by omega)

theorem zeroFill_step {limit : Nat} (hlimit : index < limit) :
    zeroFill block index limit = zeroFill (block.set index 0) (index + 1) limit := by
  unfold zeroFill
  obtain ⟨n, hn⟩ : ∃ n, limit - index = n + 1 := ⟨limit - index - 1, by omega⟩
  rw [hn, List.range'_succ, List.foldl_cons]
  congr 2
  omega

theorem SameBelow.zeroFill (limit : Nat) (h : SameBelow block block' index) :
    SameBelow (zeroFill block index limit) (zeroFill block' index limit) (max index limit) := by
  -- induction on the number of bytes left to clear
  induction hn : limit - index generalizing block block' index with
  | zero =>
    grind [Eeprom.zeroFill]
  | succ n ih =>
    have hlt : index < limit := by omega
    have hmax : max (index + 1) limit = max index limit := by omega
    rw [zeroFill_step hlt, zeroFill_step hlt, ← hmax]
    exact ih (h.set 0) (by omega)

theorem SameBelow.storeWord (h : SameBelow block block' index) (word : UInt32) :
    SameBelow (storeWord block index word) (storeWord block' index word) (index + 4) :=
  ((((h.set _).set _).set _).set _)

end SameBelow

/-! ## The two in step -/

structure Agree (ctx : SHA1Context) (x : XboxSHA1) : Prop where
  hash : ctx.intermediate = x.hash
  index : ctx.msgBlkIndex = x.messageBlockIndex
  bound : x.messageBlockIndex < 64
  blocks : SameBelow ctx.msgBlk x.messageBlock x.messageBlockIndex
  pending : ctx.computed = false
  pending' : x.computedResult = none

section Agree

variable {ctx : SHA1Context} {x : XboxSHA1}

theorem Agree.inputByte (h : Agree ctx x) (byte : UInt8) :
    Agree (sha1InputByte ctx byte) (x.inputByte byte) := by
  have hblocks := h.blocks.set byte
  unfold sha1InputByte XboxSHA1.inputByte
  simp only [h.index]
  split
  · next hfull =>
    rw [hfull] at hblocks
    refine ⟨sha1Process_agrees h.hash hblocks.eq, by simp, by simp, ?_, ?_, ?_⟩
    · simpa only [sha1Process_msgBlk, processMessageBlock_block, processMessageBlock_index] using
        SameBelow.start hblocks.size hblocks.size'
    · rw [sha1Process_computed, h.pending]
    · rw [processMessageBlock_computedResult, h.pending']
  · next hroom =>
    have hbound : x.messageBlockIndex + 1 < 64 := by
      have := h.bound
      omega
    exact ⟨h.hash, rfl, hbound, hblocks, h.pending, h.pending'⟩

theorem Agree.inputBytes (h : Agree ctx x) (data : List UInt8) :
    Agree (data.foldl sha1InputByte ctx) (data.foldl XboxSHA1.inputByte x) := by
  induction data generalizing ctx x with
  | nil => exact h
  | cons byte data ih => exact ih (h.inputByte byte)

theorem inputBytes_length (ctx : SHA1Context) (data : List UInt8) :
    (data.foldl sha1InputByte ctx).length = ctx.length := by
  induction data generalizing ctx with
  | nil => rfl
  | cons byte data ih =>
    rw [List.foldl_cons, ih]
    simp only [sha1InputByte]
    split <;> simp

theorem inputBytes_bitLength (x : XboxSHA1) (data : List UInt8) :
    (data.foldl XboxSHA1.inputByte x).bitLength = x.bitLength + UInt32.ofNat (data.length <<< 3) := by
  induction data generalizing x with
  | nil => simp
  | cons byte data ih =>
    have hbyte : (x.inputByte byte).bitLength = x.bitLength + 8 := by
      simp only [XboxSHA1.inputByte]
      split <;> simp
    have hlen : (byte :: data).length <<< 3 = 8 + data.length <<< 3 := by
      simp only [Nat.shiftLeft_eq, List.length_cons]
      omega
    grind [UInt32.ofNat_add]

section

variable (h : Agree ctx x) (hlength : ctx.length = x.bitLength)

include h hlength

theorem Agree.inputLoop {data : List UInt8}
    (hdata : data.length ≤ 2 ^ 31) : Agree (sha1Input ctx data) (data.foldl XboxSHA1.inputByte x) ∧
      (sha1Input ctx data).length = (data.foldl XboxSHA1.inputByte x).bitLength := by
  rw [sha1Input, List.take_of_length_le hdata]
  constructor
  · have hstart : Agree { ctx with length := ctx.length + UInt32.ofNat (data.length <<< 3) } x :=
      ⟨h.hash, h.index, h.bound, h.blocks, h.pending, h.pending'⟩
    exact hstart.inputBytes data
  · rw [inputBytes_length, inputBytes_bitLength, hlength]

theorem Agree.input {data : List UInt8}
    (hdata : data.length ≤ 2 ^ 31) : ∃ x', x.input data = some x' ∧ Agree (sha1Input ctx data) x' ∧
      (sha1Input ctx data).length = x'.bitLength :=
  ⟨_, by simp [XboxSHA1.input, h.pending'], h.inputLoop hlength hdata⟩

theorem Agree.inputAll
    {chunks : List (List UInt8)} (hchunks : ∀ chunk ∈ chunks, chunk.length ≤ 2 ^ 31) :
    Agree (chunks.foldl sha1Input ctx) (chunks.flatten.foldl XboxSHA1.inputByte x) ∧
      (chunks.foldl sha1Input ctx).length = (chunks.flatten.foldl XboxSHA1.inputByte x).bitLength := by
  induction chunks generalizing ctx x with
  | nil => exact ⟨h, hlength⟩
  | cons chunk chunks ih =>
    obtain ⟨hchunk, hrest⟩ := List.forall_mem_cons.mp hchunks
    obtain ⟨hagree, hlen⟩ := h.inputLoop hlength hchunk
    rw [List.foldl_cons, List.flatten_cons, List.foldl_append]
    exact ih hagree hlen hrest

end

end Agree

/-- What the padding needs. -/
structure Padding (ctx : SHA1Context) (x : XboxSHA1) : Prop where
  hash : ctx.intermediate = x.hash
  index : ctx.msgBlkIndex = x.messageBlockIndex
  blocks : SameBelow ctx.msgBlk x.messageBlock x.messageBlockIndex
  length : ctx.length = x.bitLength

section Padding

variable {ctx : SHA1Context} {x : XboxSHA1}

theorem Padding.zero (h : Padding ctx x) (limit : Nat) :
    Padding (sha1Zero ctx limit) (x.zero limit) := by
  refine ⟨h.hash, ?_, ?_, h.length⟩
  · simp only [sha1Zero, XboxSHA1.zero, h.index]
  · simp only [sha1Zero, XboxSHA1.zero, h.index]
    exact h.blocks.zeroFill limit

theorem Padding.process (h : Padding ctx x) (hfull : x.messageBlockIndex = 64) :
    Padding (sha1Process ctx) x.processMessageBlock := by
  have hblocks := h.blocks
  rw [hfull] at hblocks
  refine ⟨sha1Process_agrees h.hash hblocks.eq, by simp, ?_, by simp [h.length]⟩
  simpa using SameBelow.start hblocks.size hblocks.size'

theorem Padding.padLength (h : Padding ctx x) (hindex : x.messageBlockIndex = 56) :
    (sha1PadLength ctx).intermediate = x.padLength.hash ∧ (sha1PadLength ctx).msgBlk.length = 64 := by
  have hblocks := h.blocks
  rw [hindex] at hblocks
  have hlast := (hblocks.storeWord 0).storeWord x.bitLength
  unfold sha1PadLength XboxSHA1.padLength
  rw [h.length]
  refine ⟨sha1Process_agrees h.hash hlast.eq, ?_⟩
  rw [sha1Process_msgBlk]
  exact hlast.size

end Padding

section Agree

variable {ctx : SHA1Context} {x : XboxSHA1}

theorem Agree.pad (h : Agree ctx x) (hlength : ctx.length = x.bitLength) :
    (sha1Pad ctx).intermediate = x.pad.hash ∧ (sha1Pad ctx).msgBlk.length = 64 := by
  have hbound := h.bound
  have hend : Padding
      { ctx with msgBlk := ctx.msgBlk.set ctx.msgBlkIndex 0x80, msgBlkIndex := ctx.msgBlkIndex + 1 }
      { x with
        messageBlock := x.messageBlock.set x.messageBlockIndex 0x80
        messageBlockIndex := x.messageBlockIndex + 1 } := by
    refine ⟨h.hash, congrArg (· + 1) h.index, ?_, hlength⟩
    rw [h.index]
    exact h.blocks.set 0x80
  unfold sha1Pad XboxSHA1.pad
  simp only [h.index] at hend ⊢
  by_cases hlate : 55 < x.messageBlockIndex
  · have hfull : max (x.messageBlockIndex + 1) 64 = 64 := by omega
    rw [if_pos (Nat.succ_lt_succ hlate), if_pos hlate]
    apply (((hend.zero 64).process hfull).zero 56).padLength
    simp [XboxSHA1.zero]
  · have hroom : ¬56 < x.messageBlockIndex + 1 := by omega
    rw [if_neg hroom, if_neg hlate]
    apply (hend.zero 56).padLength
    simp only [XboxSHA1.zero]
    omega

theorem digest_bytes (c : Chain) :
    ((List.range 20).map fun i =>
      (c.toList.getD (i >>> 2) 0 >>> UInt32.ofNat (8 * (3 - (i &&& 3)))).toUInt8) =
    c.toList.flatMap fun (word : UInt32) =>
      [(word >>> 24).toUInt8, (word >>> 16).toUInt8, (word >>> 8).toUInt8, word.toUInt8] := by
  simp [Chain.toList, List.range, List.range.loop]

theorem Agree.result (h : Agree ctx x) (hlength : ctx.length = x.bitLength) :
    (sha1Result ctx).1 = x.result.1 := by
  have hpad := (h.pad hlength).1
  simp only [sha1Result, XboxSHA1.result, h.pending, h.pending', Bool.false_eq_true, if_false]
  rw [digest_bytes, hpad]

end Agree

theorem foldlM_input {x : XboxSHA1} (hx : x.computedResult = none) (chunks : List (List UInt8)) :
    chunks.foldlM XboxSHA1.input x = some (chunks.flatten.foldl XboxSHA1.inputByte x) := by
  have hbyte (x : XboxSHA1) (byte : UInt8) : (x.inputByte byte).computedResult = x.computedResult := by
    simp only [XboxSHA1.inputByte]
    split <;> simp
  have hbytes (x : XboxSHA1) (data : List UInt8) :
      (data.foldl XboxSHA1.inputByte x).computedResult = x.computedResult :=
    List.foldlRecOn (motive := fun y => y.computedResult = x.computedResult) data _ rfl
      fun y hy byte _ => (hbyte y byte).trans hy
  induction chunks generalizing x with
  | nil => rfl
  | cons chunk chunks ih =>
    rw [List.foldlM_cons, XboxSHA1.input, hx, List.flatten_cons, List.foldl_append]
    exact ih ((hbytes x chunk).trans hx)

theorem agree_init (h : Chain) (length bits : UInt32) {block : List UInt8} (hblock : block.length = 64) :
    Agree ⟨h, block, 0, length, false⟩ (XboxSHA1.init h bits) :=
  ⟨rfl, rfl, by simp [XboxSHA1.init], SameBelow.start hblock (by simp [XboxSHA1.init]), rfl, rfl⟩

/-- **The two implementations agree** on every message, in whatever chunks either is given it, if `sha1.c`
gets none of more than `2 ^ 31` bytes. -/
theorem digests_agree (h : Chain) (length : UInt32) {block : List UInt8} (hblock : block.length = 64)
    {chunks chunks' : List (List UInt8)} (hsame : chunks.flatten = chunks'.flatten)
    (hchunks : ∀ chunk ∈ chunks, chunk.length ≤ 2 ^ 31) :
    ∃ x, chunks'.foldlM XboxSHA1.input (XboxSHA1.init h length) = some x ∧
      (sha1Result (chunks.foldl sha1Input ⟨h, block, 0, length, false⟩)).1 = x.result.1 := by
  obtain ⟨hagree, hlen⟩ := (agree_init h length length hblock).inputAll rfl hchunks
  refine ⟨_, foldlM_input rfl chunks', ?_⟩
  rw [← hsame]
  exact hagree.result hlen

theorem digests_agree_abc : ∃ x,
    [[97], [98, 99]].foldlM XboxSHA1.input (XboxSHA1.init ⟨1, 2, 3, 4, 5⟩ 512) = some x ∧
      (sha1Result ([[97, 98, 99]].foldl sha1Input
        ⟨⟨1, 2, 3, 4, 5⟩, List.replicate 64 0, 0, 512, false⟩)).1 = x.result.1 :=
  digests_agree _ 512 (by decide) (by decide) (by decide)

/-- A chaining value that a block of zeros does not change. -/
def fixedChain : Chain := ⟨0x2328fad3, 0x75109b40, 0x3f121481, 0x2e1def6, 0xcfd74e98⟩

def fixedContext : SHA1Context := ⟨fixedChain, List.replicate 64 0, 0, 8, false⟩

theorem fixedContext_zeros (n : Nat) :
    (List.replicate (64 * n) 0).foldl sha1InputByte fixedContext = fixedContext := by
  have hblock : (List.replicate 64 0).foldl sha1InputByte fixedContext = fixedContext := by
    have hchain : ((List.replicate 64 0).foldl sha1InputByte fixedContext).intermediate = fixedChain := by
      decide +kernel
    have hmsg : ((List.replicate 64 0).foldl sha1InputByte fixedContext).msgBlk = List.replicate 64 0 := by
      decide +kernel
    have hindex : ((List.replicate 64 0).foldl sha1InputByte fixedContext).msgBlkIndex = 0 := by
      decide +kernel
    have hpending : ((List.replicate 64 0).foldl sha1InputByte fixedContext).computed = false := by
      decide +kernel
    have hlen := inputBytes_length fixedContext (List.replicate 64 0)
    generalize (List.replicate 64 0).foldl sha1InputByte fixedContext = ctx at *
    obtain ⟨chain, msg, index, length, computed⟩ := ctx
    subst hchain hmsg hindex hpending hlen
    rfl
  induction n with
  | zero => rfl
  | succ n ih => rw [Nat.mul_succ, List.replicate_add, List.foldl_append, ih, hblock]

/-- Of `2 ^ 31 + 1` zeros `sha1.c` leaves out the last. -/
theorem digests_differ : ∃ x,
    (XboxSHA1.init fixedChain 0).input (List.replicate (2 ^ 31 + 1) 0) = some x ∧
      (sha1Result (sha1Input ⟨fixedChain, List.replicate 64 0, 0, 0, false⟩
        (List.replicate (2 ^ 31 + 1) 0))).1 ≠ x.result.1 := by
  have hagree : Agree fixedContext (XboxSHA1.init fixedChain 0) :=
    agree_init _ 8 0 (List.length_replicate ..)
  have hzeros : (List.replicate (2 ^ 31) 0).foldl sha1InputByte fixedContext = fixedContext := by
    rw [show 2 ^ 31 = 64 * 2 ^ 25 by norm_num]
    exact fixedContext_zeros _
  have hall := hagree.inputBytes (List.replicate (2 ^ 31 + 1) 0)
  have hbits := inputBytes_bitLength (XboxSHA1.init fixedChain 0) (List.replicate (2 ^ 31 + 1) 0)
  have hbyte : sha1InputByte fixedContext 0 = ⟨fixedChain, List.replicate 64 0, 1, 8, false⟩ := rfl
  have hlength : (0 : UInt32) + UInt32.ofNat ((2 ^ 31 + 1) <<< 3) = 8 := by decide
  rw [List.length_replicate] at hbits
  refine ⟨_, if_pos rfl, ?_⟩
  generalize hx : (List.replicate (2 ^ 31 + 1) 0).foldl XboxSHA1.inputByte _ = x at *
  rw [List.replicate_succ', List.foldl_append, hzeros, List.foldl_cons, List.foldl_nil, hbyte] at hall
  rw [← hall.result (hlength.symm.trans hbits.symm), sha1Input, List.take_replicate,
    List.length_replicate, Nat.min_eq_left (Nat.le_succ _), hlength]
  change (sha1Result ((List.replicate (2 ^ 31) 0).foldl sha1InputByte fixedContext)).1 ≠ _
  rw [hzeros]
  decide +kernel

theorem sha1Result_length (ctx : SHA1Context) : (sha1Result ctx).1.length = 20 := by
  simp [sha1Result]

end DukeX.Eeprom
