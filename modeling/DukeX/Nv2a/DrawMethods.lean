import DukeX.Lib.Trace
import DukeX.Nv2a.PrimRewrite

/-!
# The methods that build a batch

Between `SET_BEGIN_END` with an operation and with `END` the guest submits vertices: ranges
(`DRAW_ARRAYS`), indices of 16 or 32 bits (`ARRAY_ELEMENT16`, `ARRAY_ELEMENT32`), words of an inline
array, or vertices finished in immediate mode.
-/

namespace DukeX.Nv2a

open Lib
open Option (bind_eq_some_iff bind_some ite_none_right_eq_some)

def nv2aMaxBatchLength : Nat := 0x07FFFF

def drawArraysCapacity : Nat := 1250

structure DrawRange where
  start : Nat
  count : Nat
  block : Nat
  deriving DecidableEq, Repr

def DrawRange.vertices (range : DrawRange) : List (Nat × UInt32) :=
  (List.range range.count).map fun i => (range.block, UInt32.ofNat (range.start + i))

structure DrawState where
  primitiveMode : ShaderPrimitiveMode
  drawArrays : List DrawRange
  drawArraysMinStart : Nat
  drawArraysMaxCount : Nat
  drawArraysPreventConnect : Bool
  inlineElements : List (Nat × UInt32)
  inlineArray : List UInt32
  inlineBufferLength : Nat
  block : Nat
  /-- The vertices of all ranges and indices handed to the renderer. -/
  drawn : List (Nat × UInt32)
  deriving DecidableEq, Repr

namespace DrawState

def resetDrawArrays (s : DrawState) : DrawState :=
  { s with drawArrays := [], drawArraysMinStart := 2 ^ 32 - 1, drawArraysMaxCount := 0,
           drawArraysPreventConnect := false }

def resetInlineBuffers (s : DrawState) : DrawState :=
  resetDrawArrays { s with inlineElements := [], inlineArray := [], inlineBufferLength := 0 }

/-- The renderer draws the ranges if there are any, and the indices otherwise. -/
def flushDraw (s : DrawState) : DrawState :=
  { s with drawn := s.drawn ++
      if s.drawArrays ≠ [] then s.drawArrays.flatMap DrawRange.vertices else s.inlineElements }

/-- The modes of `NV097_SET_BEGIN_END_OP`; `none` is the assertion that the operation is one. -/
def beginMode (parameter : UInt32) : Option ShaderPrimitiveMode :=
  match parameter.toNat with
  | 1 => some .points
  | 2 => some .lines
  | 3 => some .lineLoop
  | 4 => some .lineStrip
  | 5 => some .triangles
  | 6 => some .triangleStrip
  | 7 => some .triangleFan
  | 8 => some .quads
  | 9 => some .quadStrip
  | 10 => some .polygon
  | _ => none

def setBeginEnd (parameter : UInt32) (s : DrawState) : Option DrawState :=
  if parameter = 0 then
    if s.primitiveMode = .invalid then some s.resetInlineBuffers
    else some { s.flushDraw.resetInlineBuffers with primitiveMode := .invalid }
  else if s.primitiveMode ≠ .invalid then some s
  else do
    let mode ← beginMode parameter
    some { s.resetInlineBuffers with primitiveMode := mode, block := s.block + 1 }

def expandDrawArrays (s : DrawState) : Option DrawState := do
  let last ← s.drawArrays.getLast?
  let s := if 1 < s.drawArrays.length then s.flushDraw.resetInlineBuffers else s
  if s.inlineElements.length + last.count < nv2aMaxBatchLength then
    some (resetDrawArrays { s with inlineElements := s.inlineElements ++ last.vertices })
  else none

def expandPending (s : DrawState) : Option DrawState :=
  if s.drawArrays ≠ [] then s.expandDrawArrays else some s

def arrayElements (indices : List UInt32) (s : DrawState) : Option DrawState := do
  let s ← s.expandPending
  if s.inlineElements.length < nv2aMaxBatchLength then
    some { s with inlineElements := s.inlineElements ++ indices.map fun index => (s.block, index) }
  else none

def arrayElement16 (parameter : UInt32) : DrawState → Option DrawState :=
  arrayElements [parameter &&& 0xFFFF, parameter >>> 16]

def arrayElement32 (parameter : UInt32) : DrawState → Option DrawState := arrayElements [parameter]

def rangeOf (parameter : UInt32) (block : Nat) : DrawRange where
  start := (parameter &&& 0x00FFFFFF).toNat
  count := (parameter >>> 24).toNat + 1
  block

/-- The attempt to connect contiguous ranges; `none` is a range of its own. -/
def connect (s : DrawState) (range : DrawRange) : Option DrawRange :=
  if s.drawArraysPreventConnect then none
  else do
    let last ← s.drawArrays.getLast?
    if range.start = last.start + last.count then some { last with count := last.count + range.count }
    else none

def drawArraysMethod (parameter : UInt32) (s : DrawState) : Option DrawState :=
  let range := rangeOf parameter s.block
  if s.inlineElements ≠ [] then
    if s.inlineElements.length + range.count < nv2aMaxBatchLength ∧ !s.drawArraysPreventConnect then
      some { s with inlineElements := s.inlineElements ++ range.vertices }
    else none
  else if s.drawArrays.length < drawArraysCapacity then
    let s := { s with drawArraysMinStart := min s.drawArraysMinStart range.start
                      drawArraysMaxCount := max s.drawArraysMaxCount (range.start + range.count) }
    match s.connect range with
    | some joined => some { s with drawArrays := s.drawArrays.dropLast ++ [joined] }
    | none => some { s with drawArrays := s.drawArrays ++ [range], drawArraysPreventConnect := false }
  else none

def squash (s : DrawState) : Option DrawState :=
  if s.inlineElements = [] ∧ s.drawArrays.length < drawArraysCapacity - 1 then
    some { s with drawArraysPreventConnect := true, block := s.block + 1 }
  else none

def inlineArrayMethod (parameter : UInt32) (s : DrawState) : Option DrawState :=
  if s.inlineArray.length < nv2aMaxBatchLength then
    some { s with inlineArray := s.inlineArray ++ [parameter] }
  else none

def finishInlineBufferVertex (s : DrawState) : Option DrawState :=
  if s.inlineBufferLength < nv2aMaxBatchLength then
    some { s with inlineBufferLength := s.inlineBufferLength + 1 }
  else none

end DrawState

inductive DrawMethod where
  | setBeginEnd (parameter : UInt32)
  | drawArrays (parameter : UInt32) (squashed : Bool)
  | arrayElement16 (parameter : UInt32)
  | arrayElement32 (parameter : UInt32)
  | inlineArray (parameter : UInt32)
  | finishVertex
  | other
  deriving DecidableEq, Repr

/-- One method; `none` is a failed assertion, or a squash the look-ahead does not make. -/
def DrawState.step (s : DrawState) : DrawMethod → Option DrawState
  | .setBeginEnd parameter => s.setBeginEnd parameter
  | .drawArrays parameter squashed => do
    let s ← s.drawArraysMethod parameter
    if squashed then s.squash else some s
  | .arrayElement16 parameter => s.arrayElement16 parameter
  | .arrayElement32 parameter => s.arrayElement32 parameter
  | .inlineArray parameter => s.inlineArrayMethod parameter
  | .finishVertex => s.finishInlineBufferVertex
  | .other => some s

/-! ## The lengths -/

variable {s s' : DrawState}

namespace DrawState

structure Bounded (s : DrawState) : Prop where
  elements : s.inlineElements.length ≤ nv2aMaxBatchLength
  array : s.inlineArray.length ≤ nv2aMaxBatchLength
  buffer : s.inlineBufferLength ≤ nv2aMaxBatchLength
  ranges : s.drawArrays.length ≤ drawArraysCapacity

/-- The indices pending when a method for indices adds its own. -/
def elementsPending (s : DrawState) : Nat :=
  match s.drawArrays.getLast? with
  | none => s.inlineElements.length
  | some last => (if 1 < s.drawArrays.length then 0 else s.inlineElements.length) + last.count

@[simp] theorem inlineElements_resetDrawArrays (s : DrawState) :
    s.resetDrawArrays.inlineElements = s.inlineElements := rfl

@[simp] theorem inlineElements_resetInlineBuffers (s : DrawState) :
    s.resetInlineBuffers.inlineElements = [] := rfl

theorem length_vertices (range : DrawRange) : range.vertices.length = range.count := by
  simp [DrawRange.vertices]

theorem bounded_resetInlineBuffers (s : DrawState) : s.resetInlineBuffers.Bounded :=
  ⟨Nat.zero_le _, Nat.zero_le _, Nat.zero_le _, Nat.zero_le _⟩

theorem of_expandDrawArrays (h : s.expandDrawArrays = some s') :
    s'.drawArrays = [] ∧ s'.inlineElements.length = s.elementsPending ∧
      s.elementsPending < nv2aMaxBatchLength ∧ s'.block = s.block ∧
      (s.Bounded → s'.Bounded) := by
  obtain ⟨last, hlast, h⟩ := bind_eq_some_iff.mp h
  have hpending : s.elementsPending =
      (if 1 < s.drawArrays.length then 0 else s.inlineElements.length) + last.count := by
    rw [elementsPending, hlast]
  by_cases hmany : 1 < s.drawArrays.length
  · simp only [if_pos hmany, inlineElements_resetInlineBuffers, List.length_nil,
      ite_none_right_eq_some, Option.some.injEq] at h hpending
    obtain ⟨hlt, rfl⟩ := h
    refine ⟨rfl, ?_, hpending ▸ hlt, rfl, fun _ => ⟨?_, Nat.zero_le _, Nat.zero_le _, Nat.zero_le _⟩⟩
    · simp [hpending, length_vertices]
    · simpa [length_vertices] using Nat.le_of_lt hlt
  · simp only [if_neg hmany, ite_none_right_eq_some, Option.some.injEq] at h hpending
    obtain ⟨hlt, rfl⟩ := h
    refine ⟨rfl, ?_, hpending ▸ hlt, rfl, fun hs => ⟨?_, hs.array, hs.buffer, Nat.zero_le _⟩⟩
    · simp [hpending, length_vertices]
    · simpa [length_vertices] using Nat.le_of_lt hlt

theorem of_arrayElements {indices : List UInt32} (h : s.arrayElements indices = some s') :
    s.elementsPending < nv2aMaxBatchLength ∧
      s'.inlineElements.length = s.elementsPending + indices.length ∧
      (s.Bounded → (s'.Bounded ↔ s'.inlineElements.length ≤ nv2aMaxBatchLength)) := by
  obtain ⟨s1, hs1, h⟩ := bind_eq_some_iff.mp h
  rw [ite_none_right_eq_some, Option.some.injEq] at h
  obtain ⟨hlt, rfl⟩ := h
  have hlen : s1.inlineElements.length = s.elementsPending ∧ (s.Bounded → s1.Bounded) := by
    rw [expandPending] at hs1
    by_cases hranges : s.drawArrays ≠ []
    · rw [if_pos hranges] at hs1
      grind [of_expandDrawArrays]
    · rw [if_neg hranges] at hs1
      obtain rfl := Option.some.inj hs1
      rw [not_not] at hranges
      refine ⟨?_, id⟩
      rw [elementsPending, hranges]
      rfl
  refine ⟨hlen.1 ▸ hlt, by simp [hlen.1], fun hs => ?_⟩
  obtain ⟨-, harray, hbuffer, hranges⟩ := hlen.2 hs
  exact ⟨fun h => h.elements, fun h => ⟨h, harray, hbuffer, hranges⟩⟩

theorem drawArraysMethod_cases {parameter : UInt32} (h : s.drawArraysMethod parameter = some s') :
    (s.inlineElements ≠ [] ∧
      s.inlineElements.length + (rangeOf parameter s.block).count < nv2aMaxBatchLength ∧
      s' = { s with inlineElements := s.inlineElements ++ (rangeOf parameter s.block).vertices }) ∨
    (s.inlineElements = [] ∧ s.drawArrays.length < drawArraysCapacity ∧ ∃ low high,
      (∃ earlier last, s.drawArrays = earlier ++ [last] ∧ s.drawArraysPreventConnect = false ∧
        (rangeOf parameter s.block).start = last.start + last.count ∧
        s' = { s with
          drawArraysMinStart := low, drawArraysMaxCount := high
          drawArrays := earlier ++
            [{ last with count := last.count + (rangeOf parameter s.block).count }] }) ∨
      s' = { s with
        drawArraysMinStart := low, drawArraysMaxCount := high
        drawArrays := s.drawArrays ++ [rangeOf parameter s.block]
        drawArraysPreventConnect := false }) := by
  rw [drawArraysMethod] at h
  by_cases helements : s.inlineElements ≠ []
  · rw [if_pos helements, ite_none_right_eq_some, Option.some.injEq] at h
    obtain ⟨⟨hlt, -⟩, rfl⟩ := h
    exact .inl ⟨helements, hlt, rfl⟩
  · rw [if_neg helements, ite_none_right_eq_some] at h
    obtain ⟨hlt, h⟩ := h
    refine .inr ⟨not_not.mp helements, hlt, min s.drawArraysMinStart (rangeOf parameter s.block).start,
      max s.drawArraysMaxCount ((rangeOf parameter s.block).start + (rangeOf parameter s.block).count), ?_⟩
    dsimp only at h
    split at h
    · next joined hjoined =>
      left
      rw [connect, Option.ite_none_left_eq_some] at hjoined
      obtain ⟨hconnect, hjoined⟩ := hjoined
      obtain ⟨last, hlast, hjoined⟩ := bind_eq_some_iff.mp hjoined
      rw [ite_none_right_eq_some, Option.some.injEq] at hjoined
      obtain ⟨hstart, rfl⟩ := hjoined
      obtain ⟨earlier, hearlier⟩ := List.getLast?_eq_some_iff.mp hlast
      grind
    · right
      exact (Option.some.inj h).symm

theorem Bounded.drawArraysMethod {parameter : UInt32} (hs : s.Bounded)
    (h : s.drawArraysMethod parameter = some s') : s'.Bounded := by
  obtain ⟨-, hlt, rfl⟩ | ⟨-, hlt, low, high, ⟨earlier, last, heq, -, -, rfl⟩ | rfl⟩ :=
    drawArraysMethod_cases h
  · refine ⟨?_, hs.array, hs.buffer, hs.ranges⟩
    simpa [length_vertices] using Nat.le_of_lt hlt
  · -- a connected range takes the place of the last
    refine ⟨hs.elements, hs.array, hs.buffer, ?_⟩
    grind
  · refine ⟨hs.elements, hs.array, hs.buffer, ?_⟩
    simpa using hlt

end DrawState

def DrawMethod.Fits (s : DrawState) : DrawMethod → Prop
  | .arrayElement16 _ => s.elementsPending ≠ nv2aMaxBatchLength - 1
  | _ => True

instance (s : DrawState) (m : DrawMethod) : Decidable (DrawMethod.Fits s m) := by
  cases m <;> unfold DrawMethod.Fits <;> infer_instance

theorem DrawState.bounded_step_iff {m : DrawMethod} (hs : s.Bounded)
    (h : s.step m = some s') : s'.Bounded ↔ DrawMethod.Fits s m := by
  cases m with
  | setBeginEnd parameter =>
    refine ⟨fun _ => trivial, fun _ => ?_⟩
    simp only [DrawState.step, DrawState.setBeginEnd] at h
    split at h
    · split at h
      · exact Option.some.inj h ▸ bounded_resetInlineBuffers s
      · obtain rfl := Option.some.inj h
        exact ⟨Nat.zero_le _, Nat.zero_le _, Nat.zero_le _, Nat.zero_le _⟩
    · split at h
      · exact Option.some.inj h ▸ hs
      · obtain ⟨mode, -, h⟩ := bind_eq_some_iff.mp h
        obtain rfl := Option.some.inj h
        exact ⟨Nat.zero_le _, Nat.zero_le _, Nat.zero_le _, Nat.zero_le _⟩
  | drawArrays parameter squashed =>
    refine ⟨fun _ => trivial, fun _ => ?_⟩
    obtain ⟨s1, hs1, h⟩ := bind_eq_some_iff.mp h
    have hbounded := hs.drawArraysMethod hs1
    split at h
    · rw [DrawState.squash, ite_none_right_eq_some, Option.some.injEq] at h
      obtain ⟨-, rfl⟩ := h
      exact ⟨hbounded.elements, hbounded.array, hbounded.buffer, hbounded.ranges⟩
    · exact Option.some.inj h ▸ hbounded
  | arrayElement16 parameter =>
    -- the guard leaves room for one index, and the word has two
    obtain ⟨hlt, hlen, hiff⟩ := of_arrayElements h
    grind [DrawMethod.Fits]
  | arrayElement32 parameter =>
    obtain ⟨hlt, hlen, hiff⟩ := of_arrayElements h
    rw [hiff hs, hlen]
    exact ⟨fun _ => trivial, fun _ => hlt⟩
  | inlineArray parameter =>
    simp only [DrawState.step, inlineArrayMethod, ite_none_right_eq_some, Option.some.injEq] at h
    obtain ⟨hlt, rfl⟩ := h
    refine ⟨fun _ => trivial, fun _ => ⟨hs.elements, ?_, hs.buffer, hs.ranges⟩⟩
    simpa using hlt
  | finishVertex =>
    simp only [DrawState.step, finishInlineBufferVertex, ite_none_right_eq_some,
      Option.some.injEq] at h
    obtain ⟨hlt, rfl⟩ := h
    exact ⟨fun _ => trivial, fun _ => ⟨hs.elements, hs.array, hlt, hs.ranges⟩⟩
  | other =>
    obtain rfl := Option.some.inj h
    exact ⟨fun _ => trivial, fun _ => hs⟩

/-- **The lengths stay in bounds** at every point of a run of methods, as long as no assertion fails,
exactly if no word of two indices comes when one fewer than the limit is pending. -/
theorem batchLengths_bounded_iff (s : DrawState) (hs : s.Bounded) (methods : List DrawMethod) :
    (∀ done u, done <+: methods → done.foldlM DrawState.step s = some u → u.Bounded) ↔
      Throughout DrawState.step DrawMethod.Fits methods s :=
  throughout_iff (fun _ _ _ hI h => DrawState.bounded_step_iff hI h) hs

def DrawState.powerOn : DrawState where
  primitiveMode := .invalid
  drawArrays := []
  drawArraysMinStart := 0
  drawArraysMaxCount := 0
  drawArraysPreventConnect := false
  inlineElements := []
  inlineArray := []
  inlineBufferLength := 0
  block := 0
  drawn := []

theorem DrawState.bounded_powerOn : DrawState.powerOn.Bounded :=
  ⟨Nat.zero_le _, Nat.zero_le _, Nat.zero_le _, Nat.zero_le _⟩

theorem batchLengths_bounded_block :
    DrawState.powerOn.Bounded ∧ ∀ done u,
      done <+: [.setBeginEnd 5, .drawArrays 0x02000003 false, .arrayElement16 0x00060005,
        .arrayElement32 7, .setBeginEnd 0] →
      done.foldlM DrawState.step DrawState.powerOn = some u → u.Bounded :=
  ⟨DrawState.bounded_powerOn, (batchLengths_bounded_iff DrawState.powerOn DrawState.bounded_powerOn
    [.setBeginEnd 5, .drawArrays 0x02000003 false, .arrayElement16 0x00060005, .arrayElement32 7,
      .setBeginEnd 0]).mpr (by decide)⟩

theorem DrawState.run_arrayElement32 (k : Nat) {s : DrawState} (hranges : s.drawArrays = [])
    (hk : s.inlineElements.length + k ≤ nv2aMaxBatchLength) :
    ∃ t, (List.replicate k (.arrayElement32 0)).foldlM DrawState.step s = some t ∧
      t.drawArrays = [] ∧ t.inlineElements.length = s.inlineElements.length + k := by
  induction k generalizing s with
  | zero => exact ⟨s, rfl, hranges, rfl⟩
  | succ k ih =>
    have hstep : s.step (.arrayElement32 0) =
        some { s with inlineElements := s.inlineElements ++ [(s.block, 0)] } := by
      simp only [DrawState.step, arrayElement32, arrayElements, expandPending, hranges, ne_eq,
        not_true_eq_false, if_false, Option.bind_eq_bind, bind_some, List.map_cons, List.map_nil]
      rw [if_pos (by omega)]
    obtain ⟨t, hrun, htranges, hlen⟩ :=
      @ih { s with inlineElements := s.inlineElements ++ [(s.block, 0)] } hranges
        (by simp only [List.length_append, List.length_singleton]; omega)
    refine ⟨t, run_cons.mpr ⟨_, hstep, hrun⟩, htranges, ?_⟩
    rw [hlen]
    simp only [List.length_append, List.length_singleton]
    omega

theorem batchLengths_overrun : ∃ t, (.setBeginEnd 5 ::
    (List.replicate (nv2aMaxBatchLength - 1) (.arrayElement32 0) ++ [.arrayElement16 0])).foldlM
      DrawState.step DrawState.powerOn = some t ∧ t.inlineElements.length = nv2aMaxBatchLength + 1 := by
  have hbegin : DrawState.powerOn.step (.setBeginEnd 5) = some
      { DrawState.powerOn.resetInlineBuffers with primitiveMode := .triangles, block := 1 } := rfl
  obtain ⟨u, hrun, hranges, hlen⟩ := @DrawState.run_arrayElement32 (nv2aMaxBatchLength - 1)
    { DrawState.powerOn.resetInlineBuffers with primitiveMode := .triangles, block := 1 } rfl
    (by simp_all)
  have hlen' : u.inlineElements.length = nv2aMaxBatchLength - 1 := by
    rw [hlen]
    exact Nat.zero_add _
  have hpos : 0 < nv2aMaxBatchLength := by decide
  refine ⟨{ u with inlineElements := u.inlineElements ++ [(u.block, 0), (u.block, 0)] },
    run_cons.mpr ⟨_, hbegin, run_append.mpr ⟨u, hrun, run_cons.mpr ⟨_, ?_, rfl⟩⟩⟩, ?_⟩
  · simp only [DrawState.step, DrawState.arrayElement16, DrawState.arrayElements,
      DrawState.expandPending, hranges, ne_eq, not_true_eq_false, if_false, Option.bind_eq_bind,
      bind_some, List.map_cons, List.map_nil]
    rw [if_pos (by omega)]
    rfl
  · grind

end DukeX.Nv2a
