import DukeX.Nv2a.VkDraw

/-!
# The element that becomes the current value

After a draw of inline elements each attribute read from memory keeps, as its current value, what it
was for one element: the one the renderer passes to its binding of the attributes.
-/

namespace DukeX.Nv2a

def glProvokingElement (elements : List UInt32) : Option UInt32 := elements.getLast?

def vkProvokingElement (enabled : Bool) (assembly : PrimAssemblyState) (elements : List UInt32) :
    Option (Option UInt32) := do
  let rewrite ← pgraphPrimRewriteIndexed enabled assembly elements
  let indexData := if rewrite.indices ≠ [] then rewrite.indices else elements
  some indexData.getLast?

/-- Whether the list a rewrite draws ends with the last element of the batch, read off the elements. -/
def KeepsLast (state : PrimAssemblyState) (elements : List UInt32) : Prop :=
  let n := elements.length
  let v := fun i => elements.getD i 0
  match state.primitiveMode with
  | .points | .invalid => True
  | .lines => 2 ≤ n → v (n / 2 * 2 - 2) = v (n - 1)
  | .lineStrip => 2 ≤ n → state.lastProvoking = true → v (n - 2) = v (n - 1)
  | .lineLoop => 2 ≤ n → state.lastProvoking = false → v 0 = v (n - 1)
  | .triangles => 3 ≤ n →
    let m := n / 3 * 3
    if v (m - 1) = v (m - 3) then v (m - 1) = v (n - 1)
    else if v (m - 1) = v (m - 2) then v (m - 3) = v (n - 1)
    else v (m - 2) = v (n - 1)
  | .triangleStrip => 3 ≤ n →
    match state.lastProvoking, decide (n % 2 = 1) with
    | true, true => v (n - 3) = v (n - 1)
    | true, false => v (n - 2) = v (n - 1)
    | false, true => True
    | false, false => v (n - 3) = v (n - 2) ∨ v (n - 2) = v (n - 1)
  | .triangleFan => 3 ≤ n →
    v 0 = v (n - 1) ∨ state.lastProvoking = false ∧ v 0 = v (n - 2)
  | .quads => 4 ≤ n →
    match state.polygonMode with
    | .point => True
    | .line => v (n / 4 * 4 - 4) = v (n - 1)
    | .fill => v (n / 4 * 4 - if state.flatShading then 2 else 1) = v (n - 1)
  | .quadStrip => 4 ≤ n →
    match state.polygonMode with
    | .point => True
    | .line => v (n / 2 * 2 - 4) = v (n - 1)
    | .fill => v (n / 2 * 2 - if state.flatShading then 3 else 1) = v (n - 1)
  | .polygon => 2 ≤ n →
    match state.polygonMode with
    | .point | .fill => True
    | .line => v 0 = v (n - 1)

variable {last step count : Nat} {body : Nat → List UInt32} {state : PrimAssemblyState}

theorem getLast?_emitLoop
    (hbody : ∀ i, body i ≠ []) (hstep : 0 < step) {k : Nat} (hk : k + last < count)
    (hend : count ≤ k + step + last) (fuel i : Nat) (hle : i ≤ k) (hdvd : step ∣ k - i)
    (hfuel : count ≤ fuel + i) :
    (emitLoop last step count body fuel i).getLast? = (body k).getLast? := by
  induction fuel generalizing i with
  | zero => exact absurd hk (by omega)
  | succ fuel ih =>
    rw [emitLoop, if_pos (by omega), List.getLast?_append]
    by_cases heq : i = k
    · -- the last round: the test fails after it
      subst heq
      have hstop : emitLoop last step count body fuel (i + step) = [] := by
        cases fuel with
        | zero => rfl
        | succ fuel => rw [emitLoop, if_neg (by omega)]
      rw [hstop]
      rfl
    · have hnext : i + step ≤ k := by
        have := Nat.le_of_dvd (by omega) hdvd
        omega
      have hdvd' : step ∣ k - (i + step) := by
        simp [Nat.sub_add_eq, hdvd]
      rw [ih (i + step) hnext hdvd' (by omega)]
      obtain ⟨x, hx⟩ := Option.ne_none_iff_exists'.mp (List.getLast?_eq_none_iff.not.mpr (hbody k))
      rw [hx]
      rfl

theorem getLast?_loop {v : Option UInt32}
    (hbody : ∀ i, body i ≠ []) (hstep : 0 < step) (k : Nat) (hk : k + last < count)
    (hend : count ≤ k + step + last) (hdvd : step ∣ k) (hv : (body k).getLast? = v) :
    (emitLoop last step count body count 0).getLast? = v := by
  rw [← hv]
  exact getLast?_emitLoop hbody hstep hk hend count 0 (Nat.zero_le k) hdvd (Nat.le_refl count)

theorem getLast?_emitLinePv (a b p : UInt32) :
    (emitLinePv a b p).getLast? = some (if p = a then b else a) := by
  rw [emitLinePv]
  split <;> rfl

theorem getLast?_emitTriPv (a b c p : UInt32) :
    (emitTriPv a b c p).getLast? = some (if p = a then c else if p = b then a else b) := by
  rw [emitTriPv]
  split
  · rfl
  · split <;> rfl

theorem emitLinePv_ne_nil (a b p : UInt32) : emitLinePv a b p ≠ [] := by
  rw [emitLinePv]
  split <;> exact List.cons_ne_nil _ _

theorem emitTriPv_ne_nil (a b c p : UInt32) : emitTriPv a b c p ≠ [] := by
  rw [emitTriPv]
  split
  · exact List.cons_ne_nil _ _
  · split <;> exact List.cons_ne_nil _ _

/-! ## The last index of each mode -/

section Last

variable (vs : List UInt32)

theorem getLast?_eq_getD (h : 0 < vs.length) : vs.getLast? = some (vs.getD (vs.length - 1) 0) := by
  grind

theorem getLast?_rewritePoints (h : 0 < vs.length) :
    (rewritePoints (some vs) 0 vs.length).getLast? = some (vs.getD (vs.length - 1) 0) :=
  getLast?_loop (fun _ => List.cons_ne_nil _ _) Nat.one_pos _ (by omega) (by omega)
    (Nat.one_dvd _) rfl

theorem getLast?_rewriteLines (h : 2 ≤ vs.length) :
    (rewriteLines (some vs) 0 vs.length true).getLast? =
      some (vs.getD (vs.length / 2 * 2 - 2) 0) := by
  rw [rewriteLines]
  refine getLast?_loop (fun _ => emitLinePv_ne_nil _ _ _) Nat.two_pos
    (vs.length / 2 * 2 - 2) (by omega) (by omega) (by omega) ?_
  simp [getLast?_emitLinePv, idxAt]

theorem getLast?_rewriteLineStrip (last : Bool) (h : 2 ≤ vs.length) :
    (rewriteLineStrip (some vs) 0 vs.length last).getLast? =
      some (vs.getD (vs.length - if last then 2 else 1) 0) := by
  have hnext : vs.length - 2 + 1 = vs.length - 1 := by omega
  rw [rewriteLineStrip]
  refine getLast?_loop (fun _ => emitLinePv_ne_nil _ _ _) Nat.one_pos
    (vs.length - 2) (by omega) (by omega) (Nat.one_dvd _) ?_
  rw [getLast?_emitLinePv, hnext]
  cases last with
  | false => simp [idxAt]
  | true =>
    simp [idxAt]

theorem getLast?_rewriteLineLoop (last : Bool) (h : 2 ≤ vs.length) :
    (rewriteLineLoop (some vs) 0 vs.length last).getLast? =
      some (vs.getD (if last then vs.length - 1 else 0) 0) := by
  rw [rewriteLineLoop, if_neg (by omega), List.getLast?_append, getLast?_emitLinePv, Option.some_or]
  cases last with
  | false => simp [idxAt]
  | true =>
    simp [idxAt]

theorem getLast?_rewriteTriangles (h : 3 ≤ vs.length) :
    (rewriteTriangles (some vs) 0 vs.length true).getLast? =
      let v := fun i => vs.getD i 0
      let m := vs.length / 3 * 3
      some (if v (m - 1) = v (m - 3) then v (m - 1)
        else if v (m - 1) = v (m - 2) then v (m - 3) else v (m - 2)) := by
  have h1 : vs.length / 3 * 3 - 3 + 1 = vs.length / 3 * 3 - 2 := by omega
  have h2 : vs.length / 3 * 3 - 3 + 2 = vs.length / 3 * 3 - 1 := by omega
  rw [rewriteTriangles]
  refine getLast?_loop (fun _ => emitTriPv_ne_nil _ _ _ _) (Nat.succ_pos 2)
    (vs.length / 3 * 3 - 3) (by omega) (by omega) (by omega) ?_
  rw [getLast?_emitTriPv, h1, h2]
  rfl

theorem getLast?_rewriteTriangleStrip (last : Bool) (h : 3 ≤ vs.length) :
    (rewriteTriangleStrip (some vs) 0 vs.length last).getLast? =
      let v := fun i => vs.getD i 0
      let n := vs.length
      let pv := if last then v (n - 1) else v (n - 3)
      some (if n % 2 = 1 then
          if pv = v (n - 3) then v (n - 1) else if pv = v (n - 2) then v (n - 3) else v (n - 2)
        else if pv = v (n - 2) then v (n - 1) else if pv =
          v (n - 3) then v (n - 2) else v (n - 3)) := by
  have h1 : vs.length - 3 + 1 = vs.length - 2 := by omega
  have h2 : vs.length - 3 + 2 = vs.length - 1 := by omega
  rw [rewriteTriangleStrip]
  refine getLast?_loop (fun i => by dsimp only; split <;> exact emitTriPv_ne_nil _ _ _ _)
    Nat.one_pos
    (vs.length - 3) (by omega) (by omega) (Nat.one_dvd _) ?_
  rw [h1, h2]
  -- the last triangle is turned when the number of vertices is even
  by_cases hodd : vs.length % 2 = 1
  · rw [if_neg (by omega), getLast?_emitTriPv]
    simp only [if_pos hodd]
    rfl
  · rw [if_pos (by omega), getLast?_emitTriPv]
    simp only [if_neg hodd]
    rfl

theorem getLast?_rewriteTriangleFan (last : Bool) (h : 3 ≤ vs.length) :
    (rewriteTriangleFan (some vs) 0 vs.length last).getLast? =
      let v := fun i => vs.getD i 0
      let n := vs.length
      let pv := if last then v (n - 1) else v (n - 2)
      some (if pv = v 0 then v (n - 1) else if pv = v (n - 2) then v 0 else v (n - 2)) := by
  have h1 : vs.length - 3 + 1 = vs.length - 2 := by omega
  have h2 : vs.length - 3 + 2 = vs.length - 1 := by omega
  rw [rewriteTriangleFan, if_neg (by omega)]
  refine getLast?_loop (fun _ => emitTriPv_ne_nil _ _ _ _) Nat.one_pos
    (vs.length - 3) (by omega) (by omega) (Nat.one_dvd _) ?_
  rw [getLast?_emitTriPv, h1, h2]
  rfl

theorem getLast?_rewriteQuads (flat : Bool) (h : 4 ≤ vs.length) :
    (rewriteQuads (some vs) 0 vs.length flat).getLast? =
      some (vs.getD (vs.length / 4 * 4 - if flat then 2 else 1) 0) := by
  have h2 : vs.length / 4 * 4 - 4 + 2 = vs.length / 4 * 4 - 2 := by omega
  have h3 : vs.length / 4 * 4 - 4 + 3 = vs.length / 4 * 4 - 1 := by omega
  rw [rewriteQuads]
  refine getLast?_loop (fun i => by dsimp only; split <;> exact List.cons_ne_nil _ _)
    (Nat.succ_pos 3)
    (vs.length / 4 * 4 - 4) (by omega) (by omega) (by omega) ?_
  rw [h2, h3]
  cases flat <;> rfl

theorem getLast?_rewriteQuadsLine (h : 4 ≤ vs.length) :
    (rewriteQuadsLine (some vs) 0 vs.length).getLast? =
      some (vs.getD (vs.length / 4 * 4 - 4) 0) := by
  rw [rewriteQuadsLine]
  refine getLast?_loop (fun i => List.cons_ne_nil _ _) (Nat.succ_pos 3)
    (vs.length / 4 * 4 - 4) (by omega) (by omega) (by omega) ?_
  rfl

theorem getLast?_rewriteQuadStrip (flat : Bool) (h : 4 ≤ vs.length) :
    (rewriteQuadStrip (some vs) 0 vs.length flat).getLast? =
      some (vs.getD (vs.length / 2 * 2 - if flat then 3 else 1) 0) := by
  have h1 : vs.length / 2 * 2 - 4 + 1 = vs.length / 2 * 2 - 3 := by omega
  have h3 : vs.length / 2 * 2 - 4 + 3 = vs.length / 2 * 2 - 1 := by omega
  rw [rewriteQuadStrip]
  refine getLast?_loop (fun i => by dsimp only; split <;> exact List.cons_ne_nil _ _) Nat.two_pos
    (vs.length / 2 * 2 - 4) (by omega) (by omega) (by omega) ?_
  rw [h1, h3]
  cases flat <;> rfl

theorem getLast?_rewriteQuadStripLine (h : 4 ≤ vs.length) :
    (rewriteQuadStripLine (some vs) 0 vs.length).getLast? =
      some (vs.getD (vs.length / 2 * 2 - 4) 0) := by
  rw [rewriteQuadStripLine]
  refine getLast?_loop (fun i => List.cons_ne_nil _ _) Nat.two_pos
    (vs.length / 2 * 2 - 4) (by omega) (by omega) (by omega) ?_
  rfl

theorem getLast?_rewritePolygon (h : 3 ≤ vs.length) :
    (rewritePolygon (some vs) 0 vs.length).getLast? = some (vs.getD (vs.length - 1) 0) := by
  have h2 : vs.length - 3 + 2 = vs.length - 1 := by omega
  rw [rewritePolygon, if_neg (by omega)]
  refine getLast?_loop (fun i => List.cons_ne_nil _ _) Nat.one_pos
    (vs.length - 3) (by omega) (by omega) (Nat.one_dvd _) ?_
  rw [h2]
  rfl

theorem getLast?_rewritePolygonLine (h : 2 ≤ vs.length) :
    (rewritePolygonLine (some vs) 0 vs.length).getLast? = some (vs.getD 0 0) := by
  rw [rewritePolygonLine, if_neg (by omega), List.getLast?_append]
  rfl

end Last

theorem keepsLast_of_lt {vs : List UInt32}
    (h : vs.length < leastVertices state) : KeepsLast state vs := by
  obtain ⟨mode, polygonMode, last, flat⟩ := state
  cases mode <;> cases polygonMode <;> simp only [leastVertices, reduceCtorEq, if_false,
    if_true] at h <;>
    first
    | exact trivial
    | exact fun _ => trivial
    | exact fun hlen => absurd h (Nat.not_lt_of_le hlen)

theorem getLast?_rewriteIndices_iff {vs out : List UInt32}
    (hlist : state.primitiveMode = .lines ∨ state.primitiveMode = .triangles →
      state.lastProvoking = true)
    (hlen : leastVertices state ≤ vs.length)
    (hout : rewriteIndices (some vs) 0 vs.length state = some out) :
    out.getLast? = some (vs.getD (vs.length - 1) 0) ↔ KeepsLast state vs := by
  obtain ⟨mode, polygonMode, last, flat⟩ := state
  cases mode with
  | invalid => cases hout
  | points =>
    obtain rfl := Option.some.inj hout
    simp only [getLast?_rewritePoints vs hlen, KeepsLast]
  | lines =>
    obtain rfl := Option.some.inj hout
    obtain rfl : last = true := hlist (.inl rfl)
    simp only [getLast?_rewriteLines vs hlen, KeepsLast, Option.some.injEq]
    exact ⟨fun h _ => h, fun h => h hlen⟩
  | lineStrip =>
    obtain rfl := Option.some.inj hout
    have hlen2 : 2 ≤ vs.length := hlen
    simp only [getLast?_rewriteLineStrip vs last hlen2, KeepsLast, Option.some.injEq]
    cases last <;> simp [hlen2]
  | lineLoop =>
    obtain rfl := Option.some.inj hout
    have hlen2 : 2 ≤ vs.length := hlen
    simp only [getLast?_rewriteLineLoop vs last hlen2, KeepsLast, Option.some.injEq]
    cases last <;> simp [hlen2]
  | triangles =>
    obtain rfl := Option.some.inj hout
    obtain rfl : last = true := hlist (.inr rfl)
    have hlen3 : 3 ≤ vs.length := hlen
    simp only [getLast?_rewriteTriangles vs hlen3, KeepsLast, Option.some.injEq, hlen3,
      true_imp_iff]
    split
    · exact Iff.rfl
    · split <;> exact Iff.rfl
  | triangleStrip =>
    obtain rfl := Option.some.inj hout
    have hlen3 : 3 ≤ vs.length := hlen
    simp only [getLast?_rewriteTriangleStrip vs last hlen3, KeepsLast, Option.some.injEq, hlen3,
      true_imp_iff]
    by_cases hodd : vs.length % 2 = 1
    · cases last with
      | false => simp only [hodd, if_true, decide_true, Bool.false_eq_true, if_false]
      | true =>
        simp only [hodd, if_true, decide_true]
        grind
    · cases last with
      | false =>
        simp only [hodd, decide_false, Bool.false_eq_true, if_false]
        grind
      | true =>
        simp only [hodd, if_true, decide_false, if_false]
        grind
  | triangleFan =>
    obtain rfl := Option.some.inj hout
    have hlen3 : 3 ≤ vs.length := hlen
    simp only [getLast?_rewriteTriangleFan vs last hlen3, KeepsLast, Option.some.injEq, hlen3,
      true_imp_iff]
    cases last <;> grind
  | quads =>
    cases polygonMode with
    | point =>
      obtain rfl := Option.some.inj hout
      have hlen1 : 1 ≤ vs.length := hlen
      simp [getLast?_rewritePoints vs hlen1, KeepsLast]
    | line =>
      obtain rfl := Option.some.inj hout
      have hlen4 : 4 ≤ vs.length := hlen
      simp [getLast?_rewriteQuadsLine vs hlen4, KeepsLast, hlen4]
    | fill =>
      obtain rfl := Option.some.inj hout
      have hlen4 : 4 ≤ vs.length := hlen
      simp [getLast?_rewriteQuads vs flat hlen4, KeepsLast, hlen4]
  | quadStrip =>
    cases polygonMode with
    | point =>
      obtain rfl := Option.some.inj hout
      have hlen1 : 1 ≤ vs.length := hlen
      simp [getLast?_rewritePoints vs hlen1, KeepsLast]
    | line =>
      obtain rfl := Option.some.inj hout
      have hlen4 : 4 ≤ vs.length := hlen
      simp [getLast?_rewriteQuadStripLine vs hlen4, KeepsLast, hlen4]
    | fill =>
      obtain rfl := Option.some.inj hout
      have hlen4 : 4 ≤ vs.length := hlen
      simp [getLast?_rewriteQuadStrip vs flat hlen4, KeepsLast, hlen4]
  | polygon =>
    cases polygonMode with
    | point =>
      obtain rfl := Option.some.inj hout
      have hlen1 : 1 ≤ vs.length := hlen
      simp [getLast?_rewritePoints vs hlen1, KeepsLast]
    | line =>
      obtain rfl := Option.some.inj hout
      have hlen2 : 2 ≤ vs.length := hlen
      simp [getLast?_rewritePolygonLine vs hlen2, KeepsLast, hlen2]
    | fill =>
      obtain rfl := Option.some.inj hout
      have hlen3 : 3 ≤ vs.length := hlen
      simp [getLast?_rewritePolygon vs hlen3, KeepsLast]

theorem vkProvokingElement_of_needed {enabled : Bool} (hmode : state.primitiveMode ≠ .invalid)
    (hneeded : pgraphPrimRewriteNeeded enabled state = true) (elements : List UInt32) :
    vkProvokingElement enabled state elements = some (glProvokingElement elements) ↔
      KeepsLast state elements := by
  obtain ⟨outputMode, houtput⟩ := getOutputMode_isSome hmode
  have hout : rewriteIndices (some elements) 0 elements.length state =
      some (rewritten state elements) := by
    rw [rewriteIndices_eq _ _ _ state hmode, vertices_some]
    rfl
  have hlist : state.primitiveMode = .lines ∨ state.primitiveMode = .triangles →
      state.lastProvoking = true := by
    intro h
    cases enabled with
    | false => cases hneeded
    | true =>
      obtain h | h := h <;>
        simp only [pgraphPrimRewriteNeeded, h, Bool.not_true, Bool.false_eq_true, if_false,
          Bool.and_eq_true] at hneeded <;>
        exact hneeded.2
  have hnil := rewritten_eq_nil_iff houtput elements
  simp only [vkProvokingElement, glProvokingElement, Option.bind_eq_bind, Option.bind_some,
    pgraphPrimRewriteIndexed_eq enabled state elements houtput hneeded, Option.some.injEq]
  rw [show emitted (groupOf state) (assembled state elements) = rewritten state elements from rfl]
  by_cases hsmall : elements.length < leastVertices state
  · rw [if_neg (not_not.mpr (hnil.mpr hsmall))]
    exact ⟨fun _ => keepsLast_of_lt hsmall, fun _ => rfl⟩
  · have hlen := Nat.le_of_not_lt hsmall
    have hpos : 0 < elements.length := by
      refine Nat.lt_of_lt_of_le ?_ hlen
      cases hprim : state.primitiveMode <;> cases hpoly : state.polygonMode <;>
        first
        | exact absurd hprim hmode
        | simp [leastVertices, hprim, hpoly]
    rw [if_pos (hnil.not.mpr hsmall), getLast?_eq_getD elements hpos]
    exact getLast?_rewriteIndices_iff hlist hlen hout

/-- **The element whose values become the current ones** is the last of the batch under Vulkan, as under
OpenGL, exactly if no rewrite is needed or the rewritten list still ends with it. -/
theorem vkProvokingElement_iff (enabled : Bool) (state : PrimAssemblyState)
    (elements : List UInt32) :
    vkProvokingElement enabled state elements = some (glProvokingElement elements) ↔
      state.primitiveMode ≠ .invalid ∧
        (pgraphPrimRewriteNeeded enabled state = true → KeepsLast state elements) := by
  by_cases hmode : state.primitiveMode = .invalid
  · have hnone : vkProvokingElement enabled state elements = none := by
      simp [vkProvokingElement, pgraphPrimRewriteIndexed, emptyResult, hmode,
        pgraphPrimRewriteGetOutputMode]
    rw [hnone]
    exact ⟨fun h => (by cases h), fun h => absurd hmode h.1⟩
  by_cases hneeded : pgraphPrimRewriteNeeded enabled state = true
  · rw [vkProvokingElement_of_needed hmode hneeded]
    exact ⟨fun h => ⟨hmode, fun _ => h⟩, fun h => h.2 hneeded⟩
  · refine ⟨fun _ => ⟨hmode, fun h => absurd h hneeded⟩, fun _ => ?_⟩
    -- nothing is rewritten, and the elements are drawn as they are
    have hempty : ∃ result, pgraphPrimRewriteIndexed enabled state elements = some result ∧
        result.indices = [] := by
      cases hprim : state.primitiveMode <;> cases hpoly : state.polygonMode <;>
        first
        | exact absurd hprim hmode
        | simp [pgraphPrimRewriteIndexed, emptyResult, hprim, hpoly, pgraphPrimRewriteGetOutputMode,
            hneeded]
    obtain ⟨result, hresult, hindices⟩ := hempty
    simp [vkProvokingElement, glProvokingElement, hresult, hindices]

theorem vkProvokingElement_turned :
    vkProvokingElement true ⟨.lineStrip, .fill, true, true⟩ [10, 11, 12] = some (some 11) ∧
      glProvokingElement [10, 11, 12] = some 12 := by
  decide

end DukeX.Nv2a
