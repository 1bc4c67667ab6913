import Mathlib

/-!
# Rewriting primitives

`prim_rewrite.c` turns the vertices of any of the guest's primitive modes into a plain list of
points, lines or triangles.
-/

namespace DukeX.Nv2a

inductive ShaderPrimitiveMode where
  | invalid
  | points
  | lines
  | lineLoop
  | lineStrip
  | triangles
  | triangleStrip
  | triangleFan
  | quads
  | quadStrip
  | polygon
  deriving DecidableEq, Repr

inductive ShaderPolygonMode where
  | fill
  | point
  | line
  deriving DecidableEq, Repr

structure PrimAssemblyState where
  primitiveMode : ShaderPrimitiveMode
  polygonMode : ShaderPolygonMode
  lastProvoking : Bool
  flatShading : Bool
  deriving DecidableEq, Repr

structure PrimRewrite where
  indices : List UInt32
  outputMode : ShaderPrimitiveMode
  flatProvokingRewrite : Bool
  deriving DecidableEq, Repr

/-- `none` is the assertion that the mode is not unexpected. -/
def pgraphPrimRewriteGetOutputMode (primitiveMode : ShaderPrimitiveMode)
    (polygonMode : ShaderPolygonMode) : Option ShaderPrimitiveMode :=
  match primitiveMode with
  | .points => some .points
  | .lines | .lineStrip | .lineLoop => some .lines
  | .triangles | .triangleStrip | .triangleFan => some .triangles
  | .quads | .quadStrip | .polygon =>
    match polygonMode with
    | .point => some .points
    | .line => some .lines
    | .fill => some .triangles
  | .invalid => none

def pgraphPrimRewriteNeeded (enabled : Bool) (state : PrimAssemblyState) : Bool :=
  if !enabled then false
  else match state.primitiveMode with
    | .points => false
    | .lines | .triangles => state.flatShading && state.lastProvoking
    | _ => true

def maxOutputIndices (mode : ShaderPrimitiveMode) (polygonMode : ShaderPolygonMode)
    (inputCount : Nat) : Nat :=
  match mode with
  | .points => inputCount
  | .lines => inputCount
  | .lineStrip => if 2 ≤ inputCount then (inputCount - 1) * 2 else 0
  | .lineLoop => if 2 ≤ inputCount then inputCount * 2 else 0
  | .triangles => inputCount
  | .triangleStrip | .triangleFan => if 3 ≤ inputCount then (inputCount - 2) * 3 else 0
  | .quads =>
    match polygonMode with
    | .point => inputCount
    | .line => inputCount / 4 * 8
    | .fill => inputCount / 4 * 6
  | .quadStrip =>
    match polygonMode with
    | .point => inputCount
    | .line => if inputCount < 4 then 0 else (inputCount - 2) / 2 * 8
    | .fill => if inputCount < 4 then 0 else (inputCount - 2) / 2 * 6
  | .polygon =>
    match polygonMode with
    | .point => inputCount
    | .line => if 2 ≤ inputCount then inputCount * 2 else 0
    | .fill => if 3 ≤ inputCount then (inputCount - 2) * 3 else 0
  | .invalid => 0

def idxAt (idx : Option (List UInt32)) (i : Nat) (base : UInt32) : UInt32 :=
  match idx with
  | some idx => idx.getD i 0
  | none => base + UInt32.ofNat i

def emitLine (a b : UInt32) : List UInt32 := [a, b]

def emitLinePv (a b p : UInt32) : List UInt32 := if p = a then emitLine a b else emitLine b a

def emitTri (a b c : UInt32) : List UInt32 := [a, b, c]

def emitTriPv (a b c p : UInt32) : List UInt32 :=
  if p = a then emitTri a b c else if p = b then emitTri b c a else emitTri c a b

def emitLoop (last step count : Nat) (body : Nat → List UInt32) : Nat → Nat → List UInt32
  | 0, _ => []
  | fuel + 1, i =>
    if i + last < count then body i ++ emitLoop last step count body fuel (i + step) else []

section Rewrite

variable (idx : Option (List UInt32)) (base : UInt32) (count : Nat)

def rewritePoints : List UInt32 :=
  emitLoop 0 1 count (fun i => [idxAt idx i base]) count 0

def rewriteLines (lastProvoking : Bool) : List UInt32 :=
  emitLoop 1 2 count (fun i =>
    let v0 := idxAt idx i base
    let v1 := idxAt idx (i + 1) base
    emitLinePv v0 v1 (if lastProvoking then v1 else v0)) count 0

def rewriteLineStrip (lastProvoking : Bool) : List UInt32 :=
  emitLoop 1 1 count (fun i =>
    let v0 := idxAt idx i base
    let v1 := idxAt idx (i + 1) base
    emitLinePv v0 v1 (if lastProvoking then v1 else v0)) count 0

def rewriteLineLoop (lastProvoking : Bool) : List UInt32 :=
  if count < 2 then []
  else
    let vLast := idxAt idx (count - 1) base
    let vFirst := idxAt idx 0 base
    rewriteLineStrip idx base count lastProvoking ++
      emitLinePv vLast vFirst (if lastProvoking then vFirst else vLast)

def rewriteTriangles (lastProvoking : Bool) : List UInt32 :=
  emitLoop 2 3 count (fun i =>
    let v0 := idxAt idx i base
    let v1 := idxAt idx (i + 1) base
    let v2 := idxAt idx (i + 2) base
    emitTriPv v0 v1 v2 (if lastProvoking then v2 else v0)) count 0

def rewriteTriangleStrip (lastProvoking : Bool) : List UInt32 :=
  emitLoop 2 1 count (fun i =>
    let v0 := idxAt idx i base
    let v1 := idxAt idx (i + 1) base
    let v2 := idxAt idx (i + 2) base
    let pv := if lastProvoking then v2 else v0
    if i % 2 = 1 then emitTriPv v1 v0 v2 pv else emitTriPv v0 v1 v2 pv) count 0

def rewriteTriangleFan (lastProvoking : Bool) : List UInt32 :=
  if count < 3 then []
  else
    let hub := idxAt idx 0 base
    emitLoop 2 1 count (fun i =>
      let v1 := idxAt idx (i + 1) base
      let v2 := idxAt idx (i + 2) base
      emitTriPv hub v1 v2 (if lastProvoking then v2 else v1)) count 0

def rewriteQuads (flatShading : Bool) : List UInt32 :=
  emitLoop 3 4 count (fun i =>
    let v0 := idxAt idx i base
    let v1 := idxAt idx (i + 1) base
    let v2 := idxAt idx (i + 2) base
    let v3 := idxAt idx (i + 3) base
    if flatShading then emitTri v3 v0 v1 ++ emitTri v3 v1 v2
    else emitTri v0 v1 v2 ++ emitTri v0 v2 v3) count 0

def rewriteQuadsLine : List UInt32 :=
  emitLoop 3 4 count (fun i =>
    let v0 := idxAt idx i base
    let v1 := idxAt idx (i + 1) base
    let v2 := idxAt idx (i + 2) base
    let v3 := idxAt idx (i + 3) base
    emitLine v0 v1 ++ emitLine v1 v2 ++ emitLine v2 v3 ++ emitLine v3 v0) count 0

def rewriteQuadStrip (flatShading : Bool) : List UInt32 :=
  emitLoop 3 2 count (fun i =>
    let v0 := idxAt idx i base
    let v1 := idxAt idx (i + 1) base
    let v2 := idxAt idx (i + 2) base
    let v3 := idxAt idx (i + 3) base
    if flatShading then emitTri v3 v2 v0 ++ emitTri v3 v0 v1
    else emitTri v0 v1 v2 ++ emitTri v2 v1 v3) count 0

def rewriteQuadStripLine : List UInt32 :=
  emitLoop 3 2 count (fun i =>
    let v0 := idxAt idx i base
    let v1 := idxAt idx (i + 1) base
    let v2 := idxAt idx (i + 2) base
    let v3 := idxAt idx (i + 3) base
    emitLine v0 v1 ++ emitLine v1 v3 ++ emitLine v3 v2 ++ emitLine v2 v0) count 0

def rewritePolygon : List UInt32 :=
  if count < 3 then []
  else
    let hub := idxAt idx 0 base
    emitLoop 2 1 count (fun i =>
      emitTri hub (idxAt idx (i + 1) base) (idxAt idx (i + 2) base)) count 0

def rewritePolygonLine : List UInt32 :=
  if count < 2 then []
  else rewriteLineStrip idx base count false ++ emitLine (idxAt idx (count - 1) base) (idxAt idx 0 base)

def rewriteIndices (state : PrimAssemblyState) : Option (List UInt32) :=
  match state.primitiveMode with
  | .points => some (rewritePoints idx base count)
  | .lines => some (rewriteLines idx base count state.lastProvoking)
  | .lineStrip => some (rewriteLineStrip idx base count state.lastProvoking)
  | .lineLoop => some (rewriteLineLoop idx base count state.lastProvoking)
  | .triangles => some (rewriteTriangles idx base count state.lastProvoking)
  | .triangleStrip => some (rewriteTriangleStrip idx base count state.lastProvoking)
  | .triangleFan => some (rewriteTriangleFan idx base count state.lastProvoking)
  | .quads =>
    match state.polygonMode with
    | .point => some (rewritePoints idx base count)
    | .line => some (rewriteQuadsLine idx base count)
    | .fill => some (rewriteQuads idx base count state.flatShading)
  | .quadStrip =>
    match state.polygonMode with
    | .point => some (rewritePoints idx base count)
    | .line => some (rewriteQuadStripLine idx base count)
    | .fill => some (rewriteQuadStrip idx base count state.flatShading)
  | .polygon =>
    match state.polygonMode with
    | .point => some (rewritePoints idx base count)
    | .line => some (rewritePolygonLine idx base count)
    | .fill => some (rewritePolygon idx base count)
  | .invalid => none

end Rewrite

def emptyResult (enabled : Bool) (state : PrimAssemblyState) : Option PrimRewrite := do
  let outputMode ← pgraphPrimRewriteGetOutputMode state.primitiveMode state.polygonMode
  some { indices := [], outputMode,
         flatProvokingRewrite := state.flatShading && pgraphPrimRewriteNeeded enabled state }

/-- The rewrite counted with natural numbers: what the code does as long as none of its `unsigned int`
counters wraps. -/
def pgraphPrimRewriteIndexed (enabled : Bool) (state : PrimAssemblyState)
    (inputIndices : List UInt32) : Option PrimRewrite := do
  let result ← emptyResult enabled state
  if !pgraphPrimRewriteNeeded enabled state then some result
  else
    let maxOutput := maxOutputIndices state.primitiveMode state.polygonMode inputIndices.length
    if maxOutput = 0 then some result
    else
      let indices ← rewriteIndices (some inputIndices) 0 inputIndices.length state
      if indices.length ≤ maxOutput then some { result with indices } else none

def totalMaxOutput (state : PrimAssemblyState) (ranges : List (Int × Int)) : Nat :=
  (ranges.map fun range =>
    if range.2 ≤ 0 then 0
    else maxOutputIndices state.primitiveMode state.polygonMode range.2.toNat).sum

end DukeX.Nv2a
