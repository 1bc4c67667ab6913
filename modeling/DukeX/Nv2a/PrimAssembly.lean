import DukeX.Nv2a.Topology
import DukeX.Nv2a.PrimRewrite

/-!
# The rewrite keeps the primitives

Every loop of `prim_rewrite.c` against the recursion that says what its mode means.
-/

namespace DukeX.Nv2a

open Modes

/-! ## Loops over the vertices -/

def verticesFrom (idx : Option (List UInt32)) (base : UInt32) (count i : Nat) : List UInt32 :=
  (List.range' i (count - i)).map fun i => idxAt idx i base

def vertices (idx : Option (List UInt32)) (base : UInt32) (count : Nat) : List UInt32 :=
  verticesFrom idx base count 0

section Loops

variable {idx : Option (List UInt32)} {base : UInt32} {count : Nat}

@[simp] theorem length_verticesFrom (i : Nat) : (verticesFrom idx base count i).length = count - i := by
  simp [verticesFrom]

theorem verticesFrom_cons {i : Nat} (h : i < count) :
    verticesFrom idx base count i = idxAt idx i base :: verticesFrom idx base count (i + 1) := by
  obtain ⟨n, hn⟩ : ∃ n, count - i = n + 1 := ⟨count - i - 1, by omega⟩
  grind [verticesFrom, List.range'_succ]

theorem vertices_some (input : List UInt32) : vertices (some input) base input.length = input := by
  apply List.ext_getElem
  · simp [vertices]
  · intro i h1 h2
    simp [vertices, verticesFrom, idxAt, List.getElem?_eq_getElem h2]

/-- **The rule for a loop**: what is emitted from each position on satisfies the equations of the
loop, so the loop emits it. -/
theorem emitLoop_eq {last step : Nat} {body : Nat → List UInt32} (S : Nat → List UInt32)
    (hstep : 0 < step) (hstop : ∀ i, count ≤ i + last → S i = [])
    (hgo : ∀ i, i + last < count → S i = body i ++ S (i + step)) (fuel i : Nat)
    (hfuel : count ≤ fuel + i) : emitLoop last step count body fuel i = S i := by
  induction fuel generalizing i with
  | zero => exact (hstop i (by omega)).symm
  | succ fuel ih =>
    rw [emitLoop]
    by_cases h : i + last < count
    · rw [if_pos h, hgo i h, ih (i + step) (by omega)]
    · rw [if_neg h, hstop i (Nat.le_of_not_lt h)]

end Loops

def emitted (group : Primitive UInt32 → List (List UInt32)) (ps : List (Primitive UInt32)) :
    List UInt32 :=
  (ps.flatMap group).flatten

section

variable (group : Primitive UInt32 → List (List UInt32))

@[simp] theorem emitted_nil : emitted group [] = [] :=
  rfl

@[simp] theorem emitted_cons (p : Primitive UInt32) (ps : List (Primitive UInt32)) :
    emitted group (p :: ps) = (group p).flatten ++ emitted group ps := by
  simp [emitted]

@[simp] theorem emitted_append (ps qs : List (Primitive UInt32)) :
    emitted group (ps ++ qs) = emitted group ps ++ emitted group qs := by
  simp [emitted]

end

variable {ps : List (Primitive UInt32)} {vs : List UInt32}

theorem emitted_of_length {group : Primitive UInt32 → List (List UInt32)}
    (h : ps.length = 0) : emitted group ps = [] := by
  rw [List.eq_nil_of_length_eq_zero h, emitted_nil]

def lineGroup (p : Primitive UInt32) : List (List UInt32) :=
  match p.perimeter with
  | [a, b] => [emitLinePv a b p.provoking]
  | _ => []

def triGroup (p : Primitive UInt32) : List (List UInt32) :=
  match p.perimeter with
  | [a, b, c] => [emitTriPv a b c p.provoking]
  | _ => []

def quadGroup (flat : Bool) (p : Primitive UInt32) : List (List UInt32) :=
  match p.perimeter with
  | [a, b, c, d] => if flat then [emitTri d a b, emitTri d b c] else [emitTri a b c, emitTri a c d]
  | _ => []

def quadStripGroup (flat : Bool) (p : Primitive UInt32) : List (List UInt32) :=
  match p.perimeter with
  | [a, b, d, c] => if flat then [emitTri d c a, emitTri d a b] else [emitTri a b c, emitTri c b d]
  | _ => []

def polygonGroup (p : Primitive UInt32) : List (List UInt32) :=
  match p.perimeter with
  | hub :: vs => fan hub vs
  | [] => []

/-! ## Each loop emits the groups of its primitives -/

section Emit

variable (idx : Option (List UInt32)) (base : UInt32) (count : Nat)

theorem rewritePoints_eq :
    rewritePoints idx base count =
      emitted (fun p => [p.perimeter]) (pointList (vertices idx base count)) := by
  apply emitLoop_eq (fun i => emitted (fun p => [p.perimeter]) (pointList (verticesFrom idx base count i)))
  · exact Nat.one_pos
  · intro i hi
    exact emitted_of_length (by simp; omega)
  · intro i hi
    rw [verticesFrom_cons (by omega)]
    simp [pointList]
  · omega

theorem rewriteLines_eq (last : Bool) :
    rewriteLines idx base count last = emitted lineGroup (lineList last (vertices idx base count)) := by
  apply emitLoop_eq (fun i => emitted lineGroup (lineList last (verticesFrom idx base count i)))
  · exact Nat.two_pos
  · intro i hi
    exact emitted_of_length (by simp; omega)
  · intro i hi
    simp (disch := omega) only [verticesFrom_cons, lineList]
    simp [lineGroup]
  · omega

theorem rewriteLineStrip_eq (last : Bool) :
    rewriteLineStrip idx base count last =
      emitted lineGroup (lineStrip last (vertices idx base count)) := by
  apply emitLoop_eq (fun i => emitted lineGroup (lineStrip last (verticesFrom idx base count i)))
  · exact Nat.one_pos
  · intro i hi
    exact emitted_of_length (by simp; omega)
  · intro i hi
    have hi1 : i + 1 < count := hi
    rw [verticesFrom_cons (show i < count by omega), verticesFrom_cons hi1, lineStrip]
    simp [lineGroup]
  · omega

theorem rewriteTriangles_eq (last : Bool) :
    rewriteTriangles idx base count last =
      emitted triGroup (triangleList last (vertices idx base count)) := by
  apply emitLoop_eq (fun i => emitted triGroup (triangleList last (verticesFrom idx base count i)))
  · exact Nat.succ_pos 2
  · intro i hi
    exact emitted_of_length (by simp; omega)
  · intro i hi
    simp (disch := omega) only [verticesFrom_cons, triangleList]
    simp [triGroup]
  · omega

theorem rewriteTriangleStrip_eq (last : Bool) :
    rewriteTriangleStrip idx base count last =
      emitted triGroup (triangleStrip last false (vertices idx base count)) := by
  -- at position `i` the triangles from there on are turned when `i` is odd
  apply emitLoop_eq (fun i => emitted triGroup
    (triangleStrip last (decide (i % 2 = 1)) (verticesFrom idx base count i)))
  · exact Nat.one_pos
  · intro i hi
    exact emitted_of_length (by simp; omega)
  · intro i hi
    have hodd : (!decide (i % 2 = 1)) = decide ((i + 1) % 2 = 1) := by
      rw [← decide_not, decide_eq_decide]
      omega
    have hi1 : i + 1 < count := by omega
    have hi2 : i + 1 + 1 < count := hi
    rw [verticesFrom_cons (show i < count by omega), verticesFrom_cons hi1, verticesFrom_cons hi2,
      triangleStrip, hodd]
    by_cases h : i % 2 = 1 <;> simp [triGroup, h]
  · omega

theorem vertices_cons (h : 0 < count) :
    vertices idx base count = idxAt idx 0 base :: verticesFrom idx base count 1 :=
  verticesFrom_cons h

theorem getLast_vertices (h : vertices idx base count ≠ []) :
    (vertices idx base count).getLast h = idxAt idx (count - 1) base := by
  simp [vertices, verticesFrom]

theorem vertices_ne_nil (h : 0 < count) : vertices idx base count ≠ [] := by
  simp [vertices_cons, h]

theorem rewriteLineLoop_eq (last : Bool) :
    rewriteLineLoop idx base count last =
      emitted lineGroup (lineLoop last (vertices idx base count)) := by
  have hlen : (vertices idx base count).length = count := by simp [vertices]
  rw [rewriteLineLoop, lineLoop, hlen]
  by_cases h : count < 2
  · rw [if_pos h, if_pos h, emitted_nil]
  · have hpos : 0 < count := by omega
    have hne := vertices_ne_nil idx base count hpos
    have hhead : (vertices idx base count).head?.toList = [idxAt idx 0 base] := by
      rw [vertices_cons idx base count hpos]
      rfl
    simp [lineStrip_append, rewriteLineStrip_eq, getLast_vertices, lineGroup, h, hhead, hne]

theorem rewriteTriangleFan_eq (last : Bool) :
    rewriteTriangleFan idx base count last =
      emitted triGroup (triangleFan last (vertices idx base count)) := by
  rw [rewriteTriangleFan]
  by_cases h : count < 3
  · rw [if_pos h]
    symm
    apply emitted_of_length
    by_cases hpos : 0 < count
    · rw [vertices_cons idx base count hpos, triangleFan]
      simp
      omega
    · rw [List.eq_nil_of_length_eq_zero (l := vertices idx base count) (by simp [vertices]; omega)]
      rfl
  · rw [if_neg h, vertices_cons idx base count (by omega), triangleFan]
    apply emitLoop_eq (fun i => emitted triGroup
      (fanFrom last (idxAt idx 0 base) (verticesFrom idx base count (i + 1))))
    · exact Nat.one_pos
    · intro i hi
      exact emitted_of_length (by simp; omega)
    · intro i hi
      have hi1 : i + 1 < count := by omega
      simp [verticesFrom_cons, fanFrom, triGroup, hi, hi1]
    · omega

theorem rewriteQuads_eq (flat : Bool) :
    rewriteQuads idx base count flat =
      emitted (quadGroup flat) (quadList (vertices idx base count)) := by
  apply emitLoop_eq (fun i => emitted (quadGroup flat) (quadList (verticesFrom idx base count i)))
  · exact Nat.succ_pos 3
  · intro i hi
    exact emitted_of_length (by simp; omega)
  · intro i hi
    simp (disch := omega) only [verticesFrom_cons, quadList]
    cases flat <;> simp [quadGroup]
  · omega

theorem rewriteQuadsLine_eq :
    rewriteQuadsLine idx base count =
      emitted (fun p => edges p.perimeter) (quadList (vertices idx base count)) := by
  apply emitLoop_eq (fun i => emitted (fun p => edges p.perimeter)
    (quadList (verticesFrom idx base count i)))
  · exact Nat.succ_pos 3
  · intro i hi
    exact emitted_of_length (by simp; omega)
  · intro i hi
    simp (disch := omega) only [verticesFrom_cons, quadList]
    simp [edges, pairs, emitLine]
  · omega

theorem rewriteQuadStrip_eq (flat : Bool) :
    rewriteQuadStrip idx base count flat =
      emitted (quadStripGroup flat) (quadStrip (vertices idx base count)) := by
  apply emitLoop_eq (fun i => emitted (quadStripGroup flat)
    (quadStrip (verticesFrom idx base count i)))
  · exact Nat.two_pos
  · intro i hi
    exact emitted_of_length (by simp; omega)
  · intro i hi
    have hi2 : i + 2 < count := by omega
    have hi3 : i + 2 + 1 < count := hi
    rw [verticesFrom_cons (show i < count by omega), verticesFrom_cons (show i + 1 < count by omega),
      verticesFrom_cons hi2, verticesFrom_cons hi3, quadStrip]
    cases flat <;> simp [quadStripGroup]
  · omega

theorem rewriteQuadStripLine_eq :
    rewriteQuadStripLine idx base count =
      emitted (fun p => edges p.perimeter) (quadStrip (vertices idx base count)) := by
  apply emitLoop_eq (fun i => emitted (fun p => edges p.perimeter)
    (quadStrip (verticesFrom idx base count i)))
  · exact Nat.two_pos
  · intro i hi
    exact emitted_of_length (by simp; omega)
  · intro i hi
    have hi2 : i + 2 < count := by omega
    have hi3 : i + 2 + 1 < count := hi
    rw [verticesFrom_cons (show i < count by omega), verticesFrom_cons (show i + 1 < count by omega),
      verticesFrom_cons hi2, verticesFrom_cons hi3, quadStrip]
    simp [edges, pairs, emitLine]
  · omega

theorem rewritePolygon_eq :
    rewritePolygon idx base count =
      emitted polygonGroup (polygon 3 (vertices idx base count)) := by
  have hlen : (vertices idx base count).length = count := by simp [vertices]
  rw [rewritePolygon]
  by_cases h : count < 3
  · rw [if_pos h, polygon_of_length_lt (by rwa [hlen]), emitted_nil]
  · have hcons := vertices_cons idx base count (by omega)
    rw [hcons] at hlen
    rw [if_neg h, hcons, polygon_cons (by omega)]
    simp only [emitted_cons, emitted_nil, polygonGroup, List.append_nil]
    apply emitLoop_eq (fun i => (fan (idxAt idx 0 base) (verticesFrom idx base count (i + 1))).flatten)
    · exact Nat.one_pos
    · intro i hi
      rw [List.eq_nil_of_length_eq_zero (l := fan _ _) (by simp; omega)]
      rfl
    · grind [verticesFrom_cons, fan, emitTri]
    · omega

theorem emitted_lineStrip (vs : List UInt32) : emitted lineGroup (lineStrip false vs) = (pairs vs).flatten := by
  induction vs with
  | nil => rfl
  | cons a vs ih =>
    cases vs with
    | nil => rfl
    | cons b vs =>
      simp [lineStrip, pairs, lineGroup, emitLinePv, emitLine, ih]

theorem rewritePolygonLine_eq :
    rewritePolygonLine idx base count =
      emitted (fun p => edges p.perimeter) (polygon 2 (vertices idx base count)) := by
  have hlen : (vertices idx base count).length = count := by simp [vertices]
  rw [rewritePolygonLine]
  by_cases h : count < 2
  · rw [if_pos h, polygon_of_length_lt (by rwa [hlen]), emitted_nil]
  · have hpos : 0 < count := by omega
    have hcons := vertices_cons idx base count hpos
    have hpolygon : polygon 2 (vertices idx base count) =
        [⟨vertices idx base count, idxAt idx 0 base⟩] := by
      rw [hcons] at hlen ⊢
      exact polygon_cons (by omega)
    have hedges : edges (vertices idx base count) =
        pairs (vertices idx base count) ++ [[idxAt idx (count - 1) base, idxAt idx 0 base]] := by
      grind [edges, getLast_vertices, pairs_append]
    rw [if_neg h, hpolygon, rewriteLineStrip_eq, emitted_lineStrip]
    simp [hedges, emitLine]

end Emit

def ShaderPrimitiveMode.isLines : ShaderPrimitiveMode → Bool
  | .lines | .lineStrip | .lineLoop => true
  | _ => false

def Contributes (state : PrimAssemblyState) (p : Primitive UInt32) (group : List (List UInt32)) : Prop :=
  match pgraphPrimRewriteGetOutputMode state.primitiveMode state.polygonMode with
  | some .points => group = [p.perimeter]
  | some .lines =>
    if state.primitiveMode.isLines then
      ∃ line, group = [line] ∧ line.Perm p.perimeter ∧
        (state.flatShading → line.head? = some p.provoking)
    else group = edges p.perimeter
  | some .triangles =>
    Triangulates p.perimeter group ∧
      (state.flatShading → ∀ triangle ∈ group, triangle.head? = some p.provoking)
  | _ => False

def assembled (state : PrimAssemblyState) (vs : List UInt32) : List (Primitive UInt32) :=
  match state.primitiveMode with
  | .points => pointList vs
  | .lines => lineList state.lastProvoking vs
  | .lineStrip => lineStrip state.lastProvoking vs
  | .lineLoop => lineLoop state.lastProvoking vs
  | .triangles => triangleList state.lastProvoking vs
  | .triangleStrip => triangleStrip state.lastProvoking false vs
  | .triangleFan => triangleFan state.lastProvoking vs
  | .quads => if state.polygonMode = .point then pointList vs else quadList vs
  | .quadStrip => if state.polygonMode = .point then pointList vs else quadStrip vs
  | .polygon =>
    match state.polygonMode with
    | .point => pointList vs
    | .line => polygon 2 vs
    | .fill => polygon 3 vs
  | .invalid => []

variable {p : Primitive UInt32}

theorem lineGroup_contributes (hp : p.IsLine) :
    ∃ line, lineGroup p = [line] ∧ line.Perm p.perimeter ∧ line.head? = some p.provoking := by
  obtain ⟨a, b, hperimeter, hprovoking⟩ := hp
  refine ⟨emitLinePv a b p.provoking, by simp only [lineGroup, hperimeter], ?_⟩
  rw [hperimeter, emitLinePv]
  by_cases h : p.provoking = a
  · rw [if_pos h]
    exact ⟨.refl _, congrArg some h.symm⟩
  · have hb : p.provoking = b := by simpa [h] using hprovoking
    rw [if_neg h]
    exact ⟨.swap a b [], congrArg some hb.symm⟩

theorem triGroup_contributes (hp : p.IsTriangle) :
    ∃ triangle, triGroup p = [triangle] ∧ p.perimeter ~r triangle ∧
      triangle.head? = some p.provoking := by
  obtain ⟨a, b, c, hperimeter, hprovoking⟩ := hp
  refine ⟨emitTriPv a b c p.provoking, by simp only [triGroup, hperimeter], ?_⟩
  rw [hperimeter, emitTriPv]
  by_cases ha : p.provoking = a
  · rw [if_pos ha]
    exact ⟨.refl _, congrArg some ha.symm⟩
  · rw [if_neg ha]
    by_cases hb : p.provoking = b
    · rw [if_pos hb]
      exact ⟨⟨1, rfl⟩, congrArg some hb.symm⟩
    · have hc : p.provoking = c := by simpa [ha, hb] using hprovoking
      rw [if_neg hb]
      exact ⟨⟨2, rfl⟩, congrArg some hc.symm⟩

/-! ## Reading the output back -/

def ShaderPrimitiveMode.arity : ShaderPrimitiveMode → Nat
  | .points => 1
  | .lines => 2
  | .triangles => 3
  | _ => 0

def readAs (outputMode : ShaderPrimitiveMode) (indices : List UInt32) : List (List UInt32) :=
  match outputMode with
  | .points => readPoints indices
  | .lines => readLines indices
  | .triangles => readTriangles indices
  | _ => []

variable {outputMode : ShaderPrimitiveMode}

theorem readAs_flatten {groups : List (List UInt32)}
    (hmode : 0 < outputMode.arity) (h : ∀ g ∈ groups, g.length = outputMode.arity) :
    readAs outputMode groups.flatten = groups := by
  cases outputMode with
  | points => exact readPoints_flatten h
  | lines => exact readLines_flatten h
  | triangles => exact readTriangles_flatten h
  | _ => exact absurd hmode (Nat.lt_irrefl 0)

/-- The output, read in the output mode, is for each primitive in turn what it may contribute, and
has nothing besides. -/
def Renders (state : PrimAssemblyState) (ps : List (Primitive UInt32))
    (outputMode : ShaderPrimitiveMode) (indices : List UInt32) : Prop :=
  ∃ groups : List (List (List UInt32)), readAs outputMode indices = groups.flatten ∧
    groups.flatten.flatten = indices ∧ List.Forall₂ (Contributes state) ps groups

theorem renders_emitted {state : PrimAssemblyState} (group : Primitive UInt32 → List (List UInt32))
    (hmode : 0 < outputMode.arity)
    (hgroup : ∀ p ∈ ps, Contributes state p (group p) ∧ ∀ g ∈ group p, g.length = outputMode.arity) :
    Renders state ps outputMode (emitted group ps) := by
  refine ⟨ps.map group, ?_, ?_, ?_⟩
  · apply readAs_flatten hmode
    grind
  · rw [emitted, List.flatMap_def]
  · simp_all

section Contributes

variable {state : PrimAssemblyState} {p : Primitive UInt32}

theorem contributes_point
    (h : pgraphPrimRewriteGetOutputMode state.primitiveMode state.polygonMode = some .points) :
    Contributes state p [p.perimeter] := by
  simp only [Contributes, h]

theorem contributes_line
    (h : pgraphPrimRewriteGetOutputMode state.primitiveMode state.polygonMode = some .lines)
    (hlines : state.primitiveMode.isLines = true) (hp : p.IsLine) :
    Contributes state p (lineGroup p) ∧ ∀ g ∈ lineGroup p, g.length = 2 := by
  obtain ⟨line, hgroup, hperm, hhead⟩ := lineGroup_contributes hp
  obtain ⟨a, b, hperimeter, -⟩ := hp
  simp only [Contributes, h, hlines, if_true, hgroup]
  refine ⟨⟨line, rfl, hperm, fun _ => hhead⟩, ?_⟩
  intro g hg
  rw [List.mem_singleton.mp hg, hperm.length_eq, hperimeter]
  rfl

theorem contributes_edges
    (h : pgraphPrimRewriteGetOutputMode state.primitiveMode state.polygonMode = some .lines)
    (hlines : state.primitiveMode.isLines = false) :
    Contributes state p (edges p.perimeter) ∧ ∀ g ∈ edges p.perimeter, g.length = 2 := by
  simp only [Contributes, h, hlines, Bool.false_eq_true, if_false, true_and]
  exact length_of_mem_pairs _

section Triangles

variable (h : pgraphPrimRewriteGetOutputMode state.primitiveMode state.polygonMode = some .triangles)

include h

theorem contributes_triangles {group : List (List UInt32)} (hgroup : Triangulates p.perimeter group)
    (hflat : state.flatShading → ∀ triangle ∈ group, triangle.head? = some p.provoking)
    (hlen : ∀ g ∈ group, g.length = 3) :
    Contributes state p group ∧ ∀ g ∈ group, g.length = 3 := by
  simp only [Contributes, h]
  exact ⟨⟨hgroup, hflat⟩, hlen⟩

theorem contributes_triangle (hp : p.IsTriangle) :
    Contributes state p (triGroup p) ∧ ∀ g ∈ triGroup p, g.length = 3 := by
  obtain ⟨triangle, hgroup, hrotated, hhead⟩ := triGroup_contributes hp
  obtain ⟨a, b, c, hperimeter, -⟩ := hp
  rw [hgroup]
  apply contributes_triangles h
  · rw [hperimeter] at hrotated ⊢
    exact ⟨a, [b, c], .refl _, .cons hrotated .nil⟩
  · intro _ t ht
    rw [List.mem_singleton.mp ht, hhead]
  · intro t ht
    rw [List.mem_singleton.mp ht, ← hrotated.perm.length_eq, hperimeter]
    rfl

theorem contributes_quad {a b c : UInt32} (hp : p.perimeter = [a, b, c, p.provoking]) :
    Contributes state p (quadGroup state.flatShading p) ∧
      ∀ g ∈ quadGroup state.flatShading p, g.length = 3 := by
  apply contributes_triangles h
  · simp only [quadGroup, hp]
    cases state.flatShading with
    | true => exact ⟨p.provoking, [a, b, c], ⟨3, rfl⟩, .cons (.refl _) (.cons (.refl _) .nil)⟩
    | false => exact ⟨a, [b, c, p.provoking], .refl _, .cons (.refl _) (.cons (.refl _) .nil)⟩
  · intro hflat
    simp [quadGroup, hp, hflat, emitTri]
  · grind [quadGroup, emitTri]

theorem contributes_quadStrip {a b c : UInt32} (hp : p.perimeter = [a, b, p.provoking, c]) :
    Contributes state p (quadStripGroup state.flatShading p) ∧
      ∀ g ∈ quadStripGroup state.flatShading p, g.length = 3 := by
  apply contributes_triangles h
  · simp only [quadStripGroup, hp]
    cases state.flatShading with
    | true => exact ⟨p.provoking, [c, a, b], ⟨2, rfl⟩, .cons (.refl _) (.cons (.refl _) .nil)⟩
    | false => exact ⟨c, [a, b, p.provoking], ⟨3, rfl⟩, .cons ⟨1, rfl⟩ (.cons (.refl _) .nil)⟩
  · intro hflat
    simp [quadStripGroup, hp, hflat, emitTri]
  · grind [quadStripGroup, emitTri]

theorem contributes_polygon (hp : p.perimeter = p.provoking :: vs) :
    Contributes state p (polygonGroup p) ∧ ∀ g ∈ polygonGroup p, g.length = 3 := by
  simp only [polygonGroup, hp]
  apply contributes_triangles h
  · rw [hp]
    exact ⟨p.provoking, vs, .refl _, List.forall₂_same.mpr fun _ _ => .refl _⟩
  · intro _ t ht
    obtain ⟨a, b, rfl⟩ := exists_of_mem_fan _ _ t ht
    rfl
  · intro t ht
    obtain ⟨a, b, rfl⟩ := exists_of_mem_fan _ _ t ht
    rfl

end Triangles

end Contributes

def groupOf (state : PrimAssemblyState) : Primitive UInt32 → List (List UInt32) :=
  match state.primitiveMode with
  | .lines | .lineStrip | .lineLoop => lineGroup
  | .triangles | .triangleStrip | .triangleFan => triGroup
  | .quads =>
    match state.polygonMode with
    | .point => fun p => [p.perimeter]
    | .line => fun p => edges p.perimeter
    | .fill => quadGroup state.flatShading
  | .quadStrip =>
    match state.polygonMode with
    | .point => fun p => [p.perimeter]
    | .line => fun p => edges p.perimeter
    | .fill => quadStripGroup state.flatShading
  | .polygon =>
    match state.polygonMode with
    | .point => fun p => [p.perimeter]
    | .line => fun p => edges p.perimeter
    | .fill => polygonGroup
  | .points | .invalid => fun p => [p.perimeter]

theorem rewriteIndices_eq (idx : Option (List UInt32)) (base : UInt32) (count : Nat)
    (state : PrimAssemblyState) (hmode : state.primitiveMode ≠ .invalid) :
    rewriteIndices idx base count state =
      some (emitted (groupOf state) (assembled state (vertices idx base count))) := by
  obtain ⟨mode, polygonMode, last, flat⟩ := state
  cases mode with
  | invalid => exact absurd rfl hmode
  | points => exact congrArg some (rewritePoints_eq idx base count)
  | lines => exact congrArg some (rewriteLines_eq idx base count last)
  | lineLoop => exact congrArg some (rewriteLineLoop_eq idx base count last)
  | lineStrip => exact congrArg some (rewriteLineStrip_eq idx base count last)
  | triangles => exact congrArg some (rewriteTriangles_eq idx base count last)
  | triangleStrip => exact congrArg some (rewriteTriangleStrip_eq idx base count last)
  | triangleFan => exact congrArg some (rewriteTriangleFan_eq idx base count last)
  | quads =>
    cases polygonMode with
    | fill => exact congrArg some (rewriteQuads_eq idx base count flat)
    | point => exact congrArg some (rewritePoints_eq idx base count)
    | line => exact congrArg some (rewriteQuadsLine_eq idx base count)
  | quadStrip =>
    cases polygonMode with
    | fill => exact congrArg some (rewriteQuadStrip_eq idx base count flat)
    | point => exact congrArg some (rewritePoints_eq idx base count)
    | line => exact congrArg some (rewriteQuadStripLine_eq idx base count)
  | polygon =>
    cases polygonMode with
    | fill => exact congrArg some (rewritePolygon_eq idx base count)
    | point => exact congrArg some (rewritePoints_eq idx base count)
    | line => exact congrArg some (rewritePolygonLine_eq idx base count)

theorem length_of_mem_pointList (vs : List UInt32) : ∀ p ∈ pointList vs, ∀ g ∈ [p.perimeter],
    g.length = 1 := by
  intro p hp g hg
  obtain ⟨v, -, rfl⟩ := List.mem_map.mp hp
  rw [List.mem_singleton.mp hg]
  rfl

theorem exists_of_mem_polygon {least : Nat} :
    ∀ p ∈ polygon least vs, ∃ rest, p.perimeter = p.provoking :: rest ∧ least ≤ rest.length + 1 := by
  intro p hp
  cases vs with
  | nil => exact nomatch hp
  | cons v vs =>
    rw [polygon] at hp
    simp_all

variable {outputMode : ShaderPrimitiveMode}

theorem groupOf_contributes (state : PrimAssemblyState) (vs : List UInt32)
    (h : pgraphPrimRewriteGetOutputMode state.primitiveMode state.polygonMode = some outputMode) :
    ∀ p ∈ assembled state vs, Contributes state p (groupOf state p) ∧
      ∀ g ∈ groupOf state p, g.length = outputMode.arity := by
  intro p hp
  obtain ⟨mode, polygonMode, last, flat⟩ := state
  cases mode with
  | invalid => exact nomatch h
  | points =>
    obtain rfl := Option.some.inj h
    exact ⟨contributes_point h, length_of_mem_pointList vs p hp⟩
  | lines =>
    obtain rfl := Option.some.inj h
    exact contributes_line h rfl (isLine_of_mem_lineList last vs p hp)
  | lineLoop =>
    obtain rfl := Option.some.inj h
    exact contributes_line h rfl (isLine_of_mem_lineLoop last vs p hp)
  | lineStrip =>
    obtain rfl := Option.some.inj h
    exact contributes_line h rfl (isLine_of_mem_lineStrip last vs p hp)
  | triangles =>
    obtain rfl := Option.some.inj h
    exact contributes_triangle h (isTriangle_of_mem_triangleList last vs p hp)
  | triangleStrip =>
    obtain rfl := Option.some.inj h
    exact contributes_triangle h (isTriangle_of_mem_triangleStrip last false vs p hp)
  | triangleFan =>
    obtain rfl := Option.some.inj h
    cases vs with
    | nil => exact nomatch hp
    | cons hub vs => exact contributes_triangle h (isTriangle_of_mem_fanFrom last hub vs p hp)
  | quads =>
    cases polygonMode with
    | fill =>
      obtain rfl := Option.some.inj h
      obtain ⟨a, b, c, hperimeter⟩ := exists_of_mem_quadList vs p hp
      exact contributes_quad h hperimeter
    | point =>
      obtain rfl := Option.some.inj h
      exact ⟨contributes_point h, length_of_mem_pointList vs p hp⟩
    | line =>
      obtain rfl := Option.some.inj h
      exact contributes_edges h rfl
  | quadStrip =>
    cases polygonMode with
    | fill =>
      obtain rfl := Option.some.inj h
      obtain ⟨a, b, c, hperimeter⟩ := exists_of_mem_quadStrip vs p hp
      exact contributes_quadStrip h hperimeter
    | point =>
      obtain rfl := Option.some.inj h
      exact ⟨contributes_point h, length_of_mem_pointList vs p hp⟩
    | line =>
      obtain rfl := Option.some.inj h
      exact contributes_edges h rfl
  | polygon =>
    cases polygonMode with
    | fill =>
      obtain rfl := Option.some.inj h
      obtain ⟨rest, hperimeter, -⟩ := exists_of_mem_polygon p hp
      exact contributes_polygon h hperimeter
    | point =>
      obtain rfl := Option.some.inj h
      exact ⟨contributes_point h, length_of_mem_pointList vs p hp⟩
    | line =>
      obtain rfl := Option.some.inj h
      exact contributes_edges h rfl

/-! ## The output buffer is large enough -/

theorem length_emitted_le (group : Primitive UInt32 → List (List UInt32))
    (ps : List (Primitive UInt32)) (k : Nat) (h : ∀ p ∈ ps, (group p).flatten.length ≤ k) :
    (emitted group ps).length ≤ ps.length * k := by
  induction ps with
  | nil => simp
  | cons p ps ih =>
    grind [emitted_cons, Nat.succ_mul]

theorem length_lineGroup (p : Primitive UInt32) : (lineGroup p).flatten.length ≤ 2 := by
  grind [lineGroup, emitLinePv, emitLine]

theorem length_triGroup (p : Primitive UInt32) : (triGroup p).flatten.length ≤ 3 := by
  unfold triGroup
  split
  · simp only [emitTriPv]
    split
    · simp [emitTri]
    · split <;> simp [emitTri]
  · simp

theorem length_quadGroup (flat : Bool) (p : Primitive UInt32) :
    (quadGroup flat p).flatten.length ≤ 6 := by
  unfold quadGroup
  split
  · cases flat <;> simp [emitTri]
  · simp

theorem length_quadStripGroup (flat : Bool) (p : Primitive UInt32) :
    (quadStripGroup flat p).flatten.length ≤ 6 := by
  unfold quadStripGroup
  split
  · cases flat <;> simp [emitTri]
  · simp

theorem length_pointGroups (vs : List UInt32) :
    (emitted (fun p => [p.perimeter]) (pointList vs)).length ≤ vs.length := by
  have h := length_emitted_le (fun p => [p.perimeter]) (pointList vs) 1 fun p hp => by
    obtain ⟨v, -, rfl⟩ := List.mem_map.mp hp
    simp
  simpa using h

theorem length_polygonLine (vs : List UInt32) :
    (emitted (fun p => edges p.perimeter) (polygon 2 vs)).length ≤
      if 2 ≤ vs.length then vs.length * 2 else 0 := by
  by_cases h : 2 ≤ vs.length
  · cases vs with
    | nil => exact absurd h (by decide)
    | cons v vs =>
      rw [if_pos h, polygon_cons h]
      simp only [emitted_cons, emitted_nil, List.append_nil, length_flatten_edges]
      omega
  · rw [if_neg h, polygon_of_length_lt (Nat.lt_of_not_le h)]
    exact Nat.le_refl 0

theorem length_polygonFill (vs : List UInt32) :
    (emitted polygonGroup (polygon 3 vs)).length ≤
      if 3 ≤ vs.length then (vs.length - 2) * 3 else 0 := by
  by_cases h : 3 ≤ vs.length
  · cases vs with
    | nil => exact absurd h (by decide)
    | cons v vs =>
      rw [if_pos h, polygon_cons h]
      grind [emitted_cons, emitted_nil, polygonGroup, length_flatten_fan]
  · simp [polygon_of_length_lt, Nat.lt_of_not_le, h]

theorem length_emitted_le_max (state : PrimAssemblyState) (vs : List UInt32) :
    (emitted (groupOf state) (assembled state vs)).length ≤
      maxOutputIndices state.primitiveMode state.polygonMode vs.length := by
  obtain ⟨mode, polygonMode, last, flat⟩ := state
  have hline : ∀ ps, (emitted lineGroup ps).length ≤ ps.length * 2 := fun ps =>
    length_emitted_le lineGroup ps 2 fun p _ => length_lineGroup p
  have htri : ∀ ps, (emitted triGroup ps).length ≤ ps.length * 3 := fun ps =>
    length_emitted_le triGroup ps 3 fun p _ => length_triGroup p
  have hedges : ∀ ps, (∀ p ∈ ps, p.perimeter.length = 4) →
      (emitted (fun p => edges p.perimeter) ps).length ≤ ps.length * 8 := fun ps hps =>
    length_emitted_le _ ps 8 fun p hp => by rw [length_flatten_edges, hps p hp]
  cases mode with
  | invalid => exact Nat.le_refl 0
  | points => exact length_pointGroups vs
  | lines =>
    have h := hline (lineList last vs)
    rw [length_lineList] at h
    exact Nat.le_trans h (Nat.div_mul_le_self _ _)
  | lineLoop =>
    simp only [assembled, groupOf, maxOutputIndices, lineLoop]
    split
    · exact Nat.zero_le _
    · next hlen =>
      grind [length_lineStrip]
  | lineStrip =>
    grind [length_lineStrip, assembled, groupOf, maxOutputIndices]
  | triangles =>
    have h := htri (triangleList last vs)
    rw [length_triangleList] at h
    exact Nat.le_trans h (Nat.div_mul_le_self _ _)
  | triangleStrip =>
    grind [length_triangleStrip, assembled, groupOf, maxOutputIndices]
  | triangleFan =>
    cases vs with
    | nil => exact Nat.zero_le _
    | cons hub vs =>
      grind [length_fanFrom, assembled, groupOf, maxOutputIndices, triangleFan]
  | quads =>
    cases polygonMode with
    | fill =>
      have h := length_emitted_le (quadGroup flat) (quadList vs) 6 fun p _ => length_quadGroup flat p
      rwa [length_quadList] at h
    | point => exact length_pointGroups vs
    | line =>
      have h := hedges (quadList vs) fun p hp => by
        obtain ⟨a, b, c, hperimeter⟩ := exists_of_mem_quadList vs p hp
        rw [hperimeter]
        rfl
      rwa [length_quadList] at h
  | quadStrip =>
    cases polygonMode with
    | fill =>
      have h := length_emitted_le (quadStripGroup flat) (quadStrip vs) 6 fun p _ =>
        length_quadStripGroup flat p
      rw [length_quadStrip] at h
      simp only [assembled, groupOf, maxOutputIndices, reduceCtorEq, if_false]
      split <;> omega
    | point => exact length_pointGroups vs
    | line =>
      have h := hedges (quadStrip vs) fun p hp => by
        obtain ⟨a, b, c, hperimeter⟩ := exists_of_mem_quadStrip vs p hp
        rw [hperimeter]
        rfl
      rw [length_quadStrip] at h
      simp only [assembled, groupOf, maxOutputIndices, reduceCtorEq, if_false]
      split <;> omega
  | polygon =>
    cases polygonMode with
    | fill => exact length_polygonFill vs
    | point => exact length_pointGroups vs
    | line => exact length_polygonLine vs

theorem arity_pos {mode : ShaderPrimitiveMode} {polygonMode : ShaderPolygonMode}
    (h : pgraphPrimRewriteGetOutputMode mode polygonMode = some outputMode) :
    0 < outputMode.arity := by
  cases mode <;> cases polygonMode <;> cases h <;> decide

theorem getOutputMode_isSome {state : PrimAssemblyState} (hmode : state.primitiveMode ≠ .invalid) :
    ∃ outputMode,
      pgraphPrimRewriteGetOutputMode state.primitiveMode state.polygonMode = some outputMode := by
  obtain ⟨mode, polygonMode, last, flat⟩ := state
  cases mode with
  | invalid => exact absurd rfl hmode
  | _ => cases polygonMode <;> exact ⟨_, rfl⟩

theorem renders_rewriteIndices (state : PrimAssemblyState) (vs : List UInt32)
    (h : pgraphPrimRewriteGetOutputMode state.primitiveMode state.polygonMode = some outputMode) :
    Renders state (assembled state vs) outputMode (emitted (groupOf state) (assembled state vs)) :=
  renders_emitted (groupOf state) (arity_pos h) (groupOf_contributes state vs h)

theorem pgraphPrimRewriteIndexed_eq (enabled : Bool) (state : PrimAssemblyState)
    (inputIndices : List UInt32)
    (h : pgraphPrimRewriteGetOutputMode state.primitiveMode state.polygonMode = some outputMode)
    (hneeded : pgraphPrimRewriteNeeded enabled state = true) :
    pgraphPrimRewriteIndexed enabled state inputIndices = some
      { indices := emitted (groupOf state) (assembled state inputIndices), outputMode,
        flatProvokingRewrite := state.flatShading } := by
  have hmode : state.primitiveMode ≠ .invalid := by
    intro hinvalid
    rw [hinvalid] at h
    exact nomatch h
  have hbound := length_emitted_le_max state inputIndices
  have hrewrite := rewriteIndices_eq (some inputIndices) 0 inputIndices.length state hmode
  rw [vertices_some] at hrewrite
  simp only [pgraphPrimRewriteIndexed, emptyResult, h, hneeded, Option.bind_eq_bind, Option.bind_some,
    Bool.and_true, Bool.not_true, Bool.false_eq_true, if_false]
  by_cases hzero : maxOutputIndices state.primitiveMode state.polygonMode inputIndices.length = 0
  · -- nothing can be emitted, so that the early return is the same
    simp_all
  · rw [if_neg hzero, hrewrite, Option.bind_some, if_pos hbound]

def rewritten (state : PrimAssemblyState) (vs : List UInt32) : List UInt32 :=
  emitted (groupOf state) (assembled state vs)

end DukeX.Nv2a
