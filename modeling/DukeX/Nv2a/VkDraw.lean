import DukeX.Nv2a.RewriteCalls

/-!
# Submitting a batch

The part of `vk/draw.c` that decides what is drawn: `pgraph_vk_flush_draw` submits the rewritten
indices or, when there are none, the vertices of the batch as they are; `get_primitive_topology`
decides on its own with which topology they are assembled. Indices go through a staging buffer of a
fixed size. It is flushed when it is too full, so that a list fits unless the whole buffer is smaller.
-/

namespace DukeX.Nv2a

open Modes

inductive VkPrimitiveTopology where
  | pointList
  | lineList
  | lineStrip
  | triangleList
  | triangleStrip
  | triangleFan
  | lineListWithAdjacency
  | lineStripWithAdjacency
  deriving DecidableEq, Repr

def primitiveTopologyVk (mode : ShaderPrimitiveMode) (polygonMode : ShaderPolygonMode) :
    Option VkPrimitiveTopology :=
  match mode with
  | .points => some .pointList
  | .lines => some .lineList
  | .lineLoop => some .lineStrip
  | .lineStrip => some .lineStrip
  | .triangles => some .triangleList
  | .triangleStrip => some .triangleStrip
  | .triangleFan => some .triangleFan
  | .quads => some .lineListWithAdjacency
  | .quadStrip => some .lineStripWithAdjacency
  | .polygon =>
    match polygonMode with
    | .line => some .lineStrip
    | .fill => some .triangleFan
    | .point => some .pointList
  | .invalid => none

def getPrimitiveTopology (enabled : Bool) (assembly : PrimAssemblyState)
    (geomMode : ShaderPrimitiveMode) (geomPolygonMode : ShaderPolygonMode) :
    Option VkPrimitiveTopology :=
  if pgraphPrimRewriteNeeded enabled assembly then do
    let outputMode ← pgraphPrimRewriteGetOutputMode assembly.primitiveMode assembly.polygonMode
    primitiveTopologyVk outputMode assembly.polygonMode
  else primitiveTopologyVk geomMode geomPolygonMode

inductive Batch where
  | drawArrays (ranges : List (Int × Int))
  | inlineElements (indices : List UInt32)
  | inlineBuffer (length : Nat)
  | inlineArray (length vertexSize : Nat)

/-- Each draw starts with an empty rewrite buffer. -/
def Batch.rewrite (enabled : Bool) (assembly : PrimAssemblyState) (fuel : Nat) :
    Batch → Option PrimRewrite
  | .drawArrays ranges =>
    (pgraphPrimRewriteRanges32 enabled assembly 0 ranges fuel).map Prod.fst
  | .inlineElements indices =>
    (pgraphPrimRewriteIndexed32 enabled assembly 0 indices fuel).map Prod.fst
  | .inlineBuffer length =>
    (pgraphPrimRewriteRanges32 enabled assembly 0 [(0, (length : Int))] fuel).map Prod.fst
  | .inlineArray length vertexSize =>
    if vertexSize = 0 then none
    else (pgraphPrimRewriteRanges32 enabled assembly 0
      [(0, ((length * 4 / vertexSize : Nat) : Int))] fuel).map Prod.fst

/-- `pgraph_vk_update_index_buffer` after `ensure_buffer_space`, with its assertion. -/
def updateIndexBuffer (bufferSize : Nat) (indices : List UInt32) : Option (List UInt32) :=
  if indices.length * 4 ≤ bufferSize then some indices else none

def vkCmdDraw (count start : UInt32) : List UInt32 := vertices none start count.toNat

def pgraphVkFlushDraw (enabled bound : Bool) (assembly : PrimAssemblyState) (bufferSize : Nat)
    (batch : Batch) (fuel : Nat) : Option (List (List UInt32)) :=
  if !bound then some []
  else do
    let rewrite ← batch.rewrite enabled assembly fuel
    if rewrite.indices ≠ [] then return [← updateIndexBuffer bufferSize rewrite.indices]
    else
      match batch with
      | .drawArrays ranges => some (ranges.map fun range =>
          vkCmdDraw (UInt32.ofInt range.2) (UInt32.ofInt range.1))
      | .inlineElements indices =>
        if indices = [] then some [] else return [← updateIndexBuffer bufferSize indices]
      | .inlineBuffer length => some [vkCmdDraw (UInt32.ofNat length) 0]
      | .inlineArray length vertexSize =>
        some [vkCmdDraw (UInt32.ofNat (length * 4 / vertexSize)) 0]

/-- The primitives the vertices of one call are assembled to. -/
def assembleVk (topology : VkPrimitiveTopology) (vs : List UInt32) : List (List UInt32) :=
  match topology with
  | .pointList => readPoints vs
  | .lineList => readLines vs
  | .lineStrip => pairs vs
  | .triangleList => readTriangles vs
  | .triangleStrip => (triangleStrip false false vs).map (·.perimeter)
  | .triangleFan => (triangleFan false vs).map (·.perimeter)
  | .lineListWithAdjacency => (quadList vs).map (·.perimeter)
  | .lineStripWithAdjacency => (List.range (vs.length - 3)).map fun i => (vs.drop i).take 4

def Batch.runs : Batch → List (List UInt32)
  | .drawArrays ranges => ranges.map fun range =>
      vertices none (UInt32.ofNat range.1.toNat) range.2.toNat
  | .inlineElements indices => [indices]
  | .inlineBuffer length => [vertices none 0 length]
  | .inlineArray length vertexSize => [vertices none 0 (length * 4 / vertexSize)]

/-- What the methods that build a batch keep to. -/
def Batch.Built : Batch → Prop
  | .drawArrays ranges =>
    ∀ range ∈ ranges, 0 ≤ range.1 ∧ range.1 < 2 ^ 24 ∧ 0 < range.2 ∧ range.2 ≤ 2 ^ 24 + 256
  | .inlineElements indices => indices ≠ [] ∧ indices.length ≤ 0x7FFFF
  | .inlineBuffer length => 0 < length ∧ length ≤ 0x7FFFF
  | .inlineArray length _ => 0 < length ∧ length ≤ 0x7FFFF

/-- The space `max_output_indices` reserves for the batch. -/
def Batch.reserved (state : PrimAssemblyState) : Batch → Nat
  | .drawArrays ranges => totalMaxOutput state ranges
  | .inlineElements indices =>
    maxOutputIndices state.primitiveMode state.polygonMode indices.length
  | .inlineBuffer length => maxOutputIndices state.primitiveMode state.polygonMode length
  | .inlineArray length vertexSize =>
    maxOutputIndices state.primitiveMode state.polygonMode (length * 4 / vertexSize)

/-- The rewrite buffer can grow to what is reserved, and the staging buffer holds what is drawn. -/
structure Batch.Fits (state : PrimAssemblyState) (bufferSize : Nat) (batch : Batch) : Prop where
  reserved : batch.reserved state ≤ 2 ^ 31
  rewritten : (batch.runs.flatMap (rewritten state)).length * 4 ≤ bufferSize
  elements : ∀ indices, batch = .inlineElements indices → indices.length * 4 ≤ bufferSize

/-! ## The rewrite of a batch -/

section Output

variable {state : PrimAssemblyState} {outputMode : ShaderPrimitiveMode}

theorem ne_invalid_of_getOutputMode
    (h : pgraphPrimRewriteGetOutputMode state.primitiveMode state.polygonMode = some outputMode) :
    state.primitiveMode ≠ .invalid := by
  intro hinvalid
  rw [hinvalid] at h
  cases h

end Output

def Batch.Sizeless : Batch → Prop
  | .inlineArray _ vertexSize => vertexSize = 0
  | _ => False

section Batch

variable {state : PrimAssemblyState} {outputMode : ShaderPrimitiveMode} {enabled : Bool}
  {batch : Batch}
  (h : pgraphPrimRewriteGetOutputMode state.primitiveMode state.polygonMode = some outputMode)
  (hneeded : pgraphPrimRewriteNeeded enabled state = true)

include h hneeded

theorem emptyResult_of_needed : emptyResult enabled state =
    some { indices := [], outputMode, flatProvokingRewrite := state.flatShading } := by
  rw [emptyResult, h, hneeded, Bool.and_true]
  rfl

theorem rewriteRanges32_batch {ranges : List (Int × Int)}
    (hranges : ∀ range ∈ ranges, 0 ≤ range.1 ∧ 0 ≤ range.2 ∧ range.2 < 2 ^ 31)
    (hreserved : totalMaxOutput state ranges ≤ 2 ^ 31) :
    ∃ enough, ∀ fuel, enough ≤ fuel →
      (pgraphPrimRewriteRanges32 enabled state 0 ranges fuel).map Prod.fst = some
        { indices := (ranges.map fun range =>
            vertices none (UInt32.ofNat range.1.toNat) range.2.toNat).flatMap (rewritten state)
          outputMode, flatProvokingRewrite := state.flatShading } := by
  obtain ⟨enough, capacity, -, hcall⟩ := ranges_eventually (emptyResult_of_needed h hneeded)
    (ne_invalid_of_getOutputMode h) hneeded (fun range hrange => (hranges range hrange).2.2)
    hreserved (fun _ range hrange _ => (hranges range hrange).1) rfl .init
  refine ⟨enough, fun fuel hfuel => ?_⟩
  have hindices : (ranges.map (rewrittenRange state)).flatten = (ranges.map fun range =>
      vertices none (UInt32.ofNat range.1.toNat) range.2.toNat).flatMap (rewritten state) := by
    rw [List.flatMap_map, List.flatMap_def]
    refine congrArg List.flatten (List.map_congr_left fun range hrange => ?_)
    rw [rewrittenRange, ofInt_eq_ofNat (hranges range hrange).1]
  rw [hcall fuel hfuel, Option.map_some, hindices]

theorem rewriteSequential_batch {count : Nat} (hcount : count < 2 ^ 31)
    (hreserved : maxOutputIndices state.primitiveMode state.polygonMode count ≤ 2 ^ 31) :
    ∃ enough, ∀ fuel, enough ≤ fuel →
      (pgraphPrimRewriteRanges32 enabled state 0 [(0, (count : Int))] fuel).map Prod.fst = some
        { indices := [vertices none 0 count].flatMap (rewritten state)
          outputMode, flatProvokingRewrite := state.flatShading } := by
  refine rewriteRanges32_batch h hneeded (fun range hrange => ?_) ?_
  · rw [List.mem_singleton.mp hrange]
    exact ⟨Int.le_refl 0, Int.natCast_nonneg count, by dsimp only; omega⟩
  · rw [totalMaxOutput_cons, Int.toNat_natCast]
    exact hreserved

/-- **The rewrite of a batch** returns what its runs of vertices are rewritten to. -/
theorem Batch.rewrite_eventually (hbuilt : batch.Built) (hreserved : batch.reserved state ≤ 2 ^ 31)
    (hsize : ¬batch.Sizeless) :
    ∃ enough, ∀ fuel, enough ≤ fuel → batch.rewrite enabled state fuel = some
      { indices := batch.runs.flatMap (rewritten state)
        outputMode, flatProvokingRewrite := state.flatShading } := by
  cases batch with
  | drawArrays ranges =>
    refine rewriteRanges32_batch h hneeded (fun range hrange => ?_) hreserved
    obtain ⟨hstart, -, hcount, hmax⟩ := hbuilt range hrange
    exact ⟨hstart, hcount.le, by omega⟩
  | inlineElements indices =>
    have hlength := hbuilt.2
    obtain ⟨enough, capacity, -, hcall⟩ := indexed_eventually (emptyResult_of_needed h hneeded)
      (ne_invalid_of_getOutputMode h) hneeded (by omega) hreserved rfl .init
    refine ⟨enough, fun fuel hfuel => ?_⟩
    rw [Batch.rewrite, hcall fuel hfuel, Option.map_some, Batch.runs, List.flatMap_singleton]
  | inlineBuffer length =>
    exact rewriteSequential_batch h hneeded (Nat.lt_of_le_of_lt hbuilt.2 (by decide)) hreserved
  | inlineArray length vertexSize =>
    have hle := Nat.div_le_self (length * 4) vertexSize
    have hlength := hbuilt.2
    simp only [Batch.rewrite, if_neg (show ¬vertexSize = 0 from hsize)]
    exact rewriteSequential_batch h hneeded (by omega) hreserved

theorem pgraphVkFlushDraw_eventually {bufferSize : Nat} (hbuilt : batch.Built)
    (hfits : batch.Fits state bufferSize) (hsize : ¬batch.Sizeless) :
    ∃ enough, ∀ fuel, enough ≤ fuel →
      pgraphVkFlushDraw enabled true state bufferSize batch fuel = some
        (if batch.runs.flatMap (rewritten state) ≠ [] then [batch.runs.flatMap (rewritten state)]
          else batch.runs) := by
  obtain ⟨enough, hrewrite⟩ := Batch.rewrite_eventually h hneeded hbuilt hfits.reserved hsize
  refine ⟨enough, fun fuel hfuel => ?_⟩
  simp only [pgraphVkFlushDraw, Bool.not_true, Bool.false_eq_true, if_false, hrewrite fuel hfuel,
    Option.bind_eq_bind, Option.bind_some]
  by_cases hempty : batch.runs.flatMap (rewritten state) ≠ []
  · rw [if_pos hempty, if_pos hempty, updateIndexBuffer, if_pos hfits.rewritten]
    rfl
  · rw [if_neg hempty, if_neg hempty]
    cases batch with
    | drawArrays ranges =>
      refine congrArg some (List.map_congr_left fun range hrange => ?_)
      obtain ⟨hstart, -, hcount, hmax⟩ := hbuilt range hrange
      grind [vkCmdDraw, ofInt_eq_ofNat, UInt32.toNat_ofNat_of_lt']
    | inlineElements indices =>
      dsimp only
      rw [if_neg hbuilt.1, updateIndexBuffer, if_pos (hfits.elements indices rfl)]
      rfl
    | inlineBuffer length =>
      have hlength := hbuilt.2
      grind [vkCmdDraw, Batch.runs, UInt32.toNat_ofNat_of_lt']
    | inlineArray length vertexSize =>
      have hle := Nat.div_le_self (length * 4) vertexSize
      have hlength := hbuilt.2
      simp only [vkCmdDraw, Batch.runs]
      rw [UInt32.toNat_ofNat_of_lt' (show length * 4 / vertexSize < 2 ^ 32 by omega)]

theorem getPrimitiveTopology_eq (geomMode : ShaderPrimitiveMode)
    (geomPolygonMode : ShaderPolygonMode) :
    ∃ topology, getPrimitiveTopology enabled state geomMode geomPolygonMode = some topology ∧
      assembleVk topology = readAs outputMode := by
  rw [getPrimitiveTopology, if_pos hneeded, h]
  have hpos := arity_pos h
  cases outputMode with
  | points => exact ⟨.pointList, rfl, rfl⟩
  | lines => exact ⟨.lineList, rfl, rfl⟩
  | triangles => exact ⟨.triangleList, rfl, rfl⟩
  | _ => exact absurd hpos (Nat.lt_irrefl 0)

end Batch

def leastVertices (state : PrimAssemblyState) : Nat :=
  match state.primitiveMode with
  | .points => 1
  | .lines | .lineStrip | .lineLoop => 2
  | .triangles | .triangleStrip | .triangleFan => 3
  | .quads | .quadStrip => if state.polygonMode = .point then 1 else 4
  | .polygon =>
    match state.polygonMode with
    | .point => 1
    | .line => 2
    | .fill => 3
  | .invalid => 0

theorem length_polygon_eq_zero {least : Nat} (hleast : 0 < least) (vs : List UInt32) :
    (polygon least vs).length = 0 ↔ vs.length < least := by
  by_cases h : vs.length < least
  · simp [polygon_of_length_lt h, h]
  · cases vs with
    | nil => exact absurd hleast h
    | cons v vs =>
      grind [polygon_cons]

theorem length_lineLoop (last : Bool) (vs : List UInt32) :
    (lineLoop last vs).length = if vs.length < 2 then 0 else vs.length := by
  rw [lineLoop]
  split
  · rfl
  · next h =>
    cases vs with
    | nil => exact absurd (by decide) h
    | cons v vs => simp

theorem assembled_eq_nil_iff (state : PrimAssemblyState) (hmode : state.primitiveMode ≠ .invalid)
    (vs : List UInt32) : assembled state vs = [] ↔ vs.length < leastVertices state := by
  rw [← List.length_eq_zero_iff]
  obtain ⟨mode, polygonMode, last, flat⟩ := state
  cases mode with
  | invalid => exact absurd rfl hmode
  | points | lines => simp [assembled, leastVertices]
  | lineLoop =>
    simp only [assembled, leastVertices, length_lineLoop]
    split <;> omega
  | lineStrip =>
    simp only [assembled, leastVertices, length_lineStrip]
    omega
  | triangles => simp [assembled, leastVertices]
  | triangleStrip =>
    simp only [assembled, leastVertices, length_triangleStrip]
    omega
  | triangleFan =>
    cases vs with
    | nil => simp [assembled, leastVertices, triangleFan]
    | cons hub vs =>
      simp only [assembled, leastVertices, triangleFan, length_fanFrom, List.length_cons]
      omega
  | quads => cases polygonMode <;> simp [assembled, leastVertices]
  | quadStrip =>
    cases polygonMode with
    | point => simp [assembled, leastVertices]
    | line =>
      simp only [assembled, leastVertices, reduceCtorEq, if_false, length_quadStrip]
      omega
    | fill =>
      simp only [assembled, leastVertices, reduceCtorEq, if_false, length_quadStrip]
      omega
  | polygon =>
    cases polygonMode with
    | point => simp [assembled, leastVertices]
    | line => exact length_polygon_eq_zero Nat.two_pos vs
    | fill => exact length_polygon_eq_zero (Nat.succ_pos 2) vs

theorem groupOf_ne_nil (state : PrimAssemblyState) (vs : List UInt32) :
    ∀ p ∈ assembled state vs, groupOf state p ≠ [] := by
  intro p hp
  obtain ⟨mode, polygonMode, last, flat⟩ := state
  have hline : p.IsLine → lineGroup p ≠ [] := by
    rintro ⟨a, b, hperimeter, _⟩
    simp [lineGroup, hperimeter]
  have htri : p.IsTriangle → triGroup p ≠ [] := by
    rintro ⟨a, b, c, hperimeter, _⟩
    simp [triGroup, hperimeter]
  cases mode with
  | invalid => cases hp
  | points => exact List.cons_ne_nil _ _
  | lines => exact hline (isLine_of_mem_lineList last vs p hp)
  | lineLoop => exact hline (isLine_of_mem_lineLoop last vs p hp)
  | lineStrip => exact hline (isLine_of_mem_lineStrip last vs p hp)
  | triangles => exact htri (isTriangle_of_mem_triangleList last vs p hp)
  | triangleStrip => exact htri (isTriangle_of_mem_triangleStrip last false vs p hp)
  | triangleFan =>
    cases vs with
    | nil => cases hp
    | cons hub vs => exact htri (isTriangle_of_mem_fanFrom last hub vs p hp)
  | quads =>
    cases polygonMode with
    | point => exact List.cons_ne_nil _ _
    | line =>
      obtain ⟨a, b, c, hperimeter⟩ := exists_of_mem_quadList vs p hp
      simp [groupOf, hperimeter, edges, pairs]
    | fill =>
      obtain ⟨a, b, c, hperimeter⟩ := exists_of_mem_quadList vs p hp
      cases flat <;> simp [groupOf, quadGroup, hperimeter]
  | quadStrip =>
    cases polygonMode with
    | point => exact List.cons_ne_nil _ _
    | line =>
      obtain ⟨a, b, c, hperimeter⟩ := exists_of_mem_quadStrip vs p hp
      simp [groupOf, hperimeter, edges, pairs]
    | fill =>
      obtain ⟨a, b, c, hperimeter⟩ := exists_of_mem_quadStrip vs p hp
      cases flat <;> simp [groupOf, quadStripGroup, hperimeter]
  | polygon =>
    cases polygonMode with
    | point => exact List.cons_ne_nil _ _
    | line =>
      obtain ⟨rest, hperimeter, -⟩ := exists_of_mem_polygon p hp
      intro hnil
      have hlen := length_flatten_edges p.perimeter
      rw [show edges p.perimeter = [] from hnil, hperimeter] at hlen
      cases hlen
    | fill =>
      obtain ⟨rest, hperimeter, hleast⟩ := exists_of_mem_polygon p hp
      intro hnil
      have hlen := length_fan p.provoking rest
      simp only [groupOf, polygonGroup, hperimeter] at hnil
      rw [hnil, List.length_nil] at hlen
      omega

variable {state : PrimAssemblyState} {outputMode : ShaderPrimitiveMode}

theorem readAs_eq_nil_iff (hmode : 0 < outputMode.arity)
    (vs : List UInt32) : readAs outputMode vs = [] ↔ vs.length < outputMode.arity := by
  cases outputMode with
  | points => cases vs <;> simp [readAs, readPoints, ShaderPrimitiveMode.arity]
  | lines =>
    match vs with
    | [] => simp [readAs, readLines, ShaderPrimitiveMode.arity]
    | [_] => simp [readAs, readLines, ShaderPrimitiveMode.arity]
    | _ :: _ :: _ => simp [readAs, readLines, ShaderPrimitiveMode.arity]
  | triangles =>
    match vs with
    | [] => simp [readAs, readTriangles, ShaderPrimitiveMode.arity]
    | [_] => simp [readAs, readTriangles, ShaderPrimitiveMode.arity]
    | [_, _] => simp [readAs, readTriangles, ShaderPrimitiveMode.arity]
    | _ :: _ :: _ :: _ => simp [readAs, readTriangles, ShaderPrimitiveMode.arity]
  | _ => exact absurd hmode (Nat.lt_irrefl 0)

/-- Quads or quad strips, filled or drawn with lines, in a batch without a single whole quad, one of
whose runs has enough vertices for a triangle or a line. -/
def Batch.Stray (state : PrimAssemblyState) (batch : Batch) : Prop :=
  (state.primitiveMode = .quads ∨ state.primitiveMode = .quadStrip) ∧ state.polygonMode ≠ .point ∧
    (∀ run ∈ batch.runs, run.length < 4) ∧
    ∃ run ∈ batch.runs, (if state.polygonMode = .line then 2 else 3) ≤ run.length

section

variable (h : pgraphPrimRewriteGetOutputMode state.primitiveMode state.polygonMode =
  some outputMode)

include h

theorem rewritten_eq_nil_iff (vs : List UInt32) :
    rewritten state vs = [] ↔ vs.length < leastVertices state := by
  rw [← assembled_eq_nil_iff state (ne_invalid_of_getOutputMode h), rewritten]
  constructor
  · intro hnil
    cases hps : assembled state vs with
    | nil => rfl
    | cons p ps =>
      -- a first primitive has a group, and the group has vertices
      have hp : p ∈ assembled state vs := hps ▸ List.mem_cons_self
      obtain ⟨g, gs, hgroup⟩ := List.exists_cons_of_ne_nil (groupOf_ne_nil state vs p hp)
      grind [groupOf_contributes, arity_pos, emitted_cons, List.length_nil]
  · intro hnil
    rw [hnil, emitted_nil]

theorem leastVertices_cases :
    ((state.primitiveMode = .quads ∨ state.primitiveMode = .quadStrip) ∧
      state.polygonMode ≠ .point ∧
      leastVertices state = 4 ∧ outputMode.arity = if state.polygonMode = .line then 2 else 3) ∨
    (¬((state.primitiveMode = .quads ∨ state.primitiveMode = .quadStrip) ∧
      state.polygonMode ≠ .point) ∧ leastVertices state = outputMode.arity) := by
  obtain ⟨mode, polygonMode, last, flat⟩ := state
  cases mode <;> cases polygonMode <;> cases h <;>
    simp [leastVertices, ShaderPrimitiveMode.arity]

theorem Batch.stray_iff (batch : Batch) :
    batch.Stray state ↔ (∀ run ∈ batch.runs, run.length < leastVertices state) ∧
      ∃ run ∈ batch.runs, outputMode.arity ≤ run.length := by
  obtain ⟨hquads, hpoint, hleast, harity⟩ | ⟨hother, hleast⟩ := leastVertices_cases h
  · rw [hleast, harity]
    exact ⟨fun hstray => hstray.2.2, fun hruns => ⟨hquads, hpoint, hruns⟩⟩
  · rw [hleast]
    constructor
    · intro hstray
      exact absurd ⟨hstray.1, hstray.2.1⟩ hother
    · simp_all

end

/-- The calls of `pgraph_vk_flush_draw`, assembled with the topology that is selected, draw the
primitives of the rewrite. -/
def DrawsRewrite (enabled : Bool) (state : PrimAssemblyState) (bufferSize : Nat) (batch : Batch)
    (geomMode : ShaderPrimitiveMode) (geomPolygonMode : ShaderPolygonMode) : Prop :=
  ∃ calls topology rewrite,
    (∃ enough, ∀ fuel, enough ≤ fuel →
      pgraphVkFlushDraw enabled true state bufferSize batch fuel = some calls ∧
      batch.rewrite enabled state fuel = some rewrite) ∧
    getPrimitiveTopology enabled state geomMode geomPolygonMode = some topology ∧
    calls.flatMap (assembleVk topology) = readAs rewrite.outputMode rewrite.indices

section Draws

variable {enabled : Bool} {bufferSize : Nat} {batch : Batch} {geomMode : ShaderPrimitiveMode}
  {geomPolygonMode : ShaderPolygonMode}

/-- The division by zero comes before anything is submitted. -/
theorem not_drawsRewrite_of_sizeless (hsize : batch.Sizeless) :
    ¬DrawsRewrite enabled state bufferSize batch geomMode geomPolygonMode := by
  rintro ⟨calls, topology, rewrite, ⟨enough, hdrawn⟩, -, -⟩
  have hrewrite := (hdrawn enough (Nat.le_refl _)).2
  cases batch with
  | inlineArray length vertexSize =>
    rw [Batch.rewrite, if_pos (show vertexSize = 0 from hsize)] at hrewrite
    cases hrewrite
  | _ => exact hsize

theorem drawsRewrite_iff
    (h : pgraphPrimRewriteGetOutputMode state.primitiveMode state.polygonMode = some outputMode)
    (hneeded : pgraphPrimRewriteNeeded enabled state = true) (hbuilt : batch.Built)
    (hfits : batch.Fits state bufferSize) (hsize : ¬batch.Sizeless) :
    DrawsRewrite enabled state bufferSize batch geomMode geomPolygonMode ↔
      (if batch.runs.flatMap (rewritten state) ≠ [] then [batch.runs.flatMap (rewritten state)]
        else batch.runs).flatMap (readAs outputMode) =
        readAs outputMode (batch.runs.flatMap (rewritten state)) := by
  obtain ⟨topology, htopology, hassemble⟩ :=
    getPrimitiveTopology_eq h hneeded geomMode geomPolygonMode
  obtain ⟨enough₁, hrewrite⟩ := Batch.rewrite_eventually h hneeded hbuilt hfits.reserved hsize
  obtain ⟨enough₂, hflush⟩ := pgraphVkFlushDraw_eventually h hneeded hbuilt hfits hsize
  constructor
  · rintro ⟨calls, topology', rewrite, ⟨enough, hdrawn⟩, htopology', heq⟩
    obtain ⟨hcalls, hrewrite'⟩ := hdrawn (max enough (max enough₁ enough₂)) (Nat.le_max_left ..)
    rw [hflush _ (by omega), Option.some.injEq] at hcalls
    rw [hrewrite _ (by omega), Option.some.injEq] at hrewrite'
    rw [htopology, Option.some.injEq] at htopology'
    rw [← hcalls, ← htopology', ← hrewrite', hassemble] at heq
    exact heq
  · intro heq
    have hdrawn := fun fuel (hfuel : max enough₁ enough₂ ≤ fuel) =>
      And.intro (hflush fuel (by omega)) (hrewrite fuel (by omega))
    refine ⟨_, topology, _, ⟨_, hdrawn⟩, htopology, ?_⟩
    rw [hassemble]
    exact heq

end Draws

theorem fits_twoQuads : (Batch.drawArrays [(0, 8)]).Fits ⟨.quads, .fill, false, false⟩ 0x7FFFF0 :=
  ⟨by decide, by decide, fun _ heq => by cases heq⟩

end DukeX.Nv2a
