import DukeX.Nv2a.RewriteBuffer

/-!
# Ranges and index lists are rewritten alike

The two entry points of `prim_rewrite.c` with their buffer: `pgraph_prim_rewrite_ranges` takes runs
of consecutive vertices, `pgraph_prim_rewrite_indexed` a list of indices.
-/

namespace DukeX.Nv2a

def totalMaxOutput32 (state : PrimAssemblyState) (ranges : List (Int × Int)) : Nat :=
  (ranges.map fun range =>
    if range.2 ≤ 0 then 0
    else (maxOutputIndices32 state.primitiveMode state.polygonMode
      (UInt32.ofInt range.2)).toNat).sum

def rewriteRanges32 (state : PrimAssemblyState) (fuel : Nat) :
    List (Int × Int) → Option (List UInt32)
  | [] => some []
  | range :: ranges =>
    if range.2 ≤ 0 then rewriteRanges32 state fuel ranges
    else if range.1 < 0 then none
    else do
      let indices ← rewriteIndices32 none (UInt32.ofInt range.1) (UInt32.ofInt range.2) state fuel
      let rest ← rewriteRanges32 state fuel ranges
      some (indices ++ rest)

def pgraphPrimRewriteRanges32 (enabled : Bool) (state : PrimAssemblyState) (capacity : UInt32)
    (ranges : List (Int × Int)) (fuel : Nat) : Option (PrimRewrite × UInt32) := do
  let result ← emptyResult enabled state
  if !pgraphPrimRewriteNeeded enabled state then some (result, capacity)
  else
    let total := totalMaxOutput32 state ranges
    if 2 ^ 32 ≤ total then none
    else if total = 0 then some (result, capacity)
    else
      let capacity ← ensureCapacity capacity (UInt32.ofNat total) fuel
      let indices ← rewriteRanges32 state fuel ranges
      if (UInt32.ofNat indices.length).toNat ≤ total then some ({ result with indices }, capacity)
      else none

def pgraphPrimRewriteIndexed32 (enabled : Bool) (state : PrimAssemblyState) (capacity : UInt32)
    (inputIndices : List UInt32) (fuel : Nat) : Option (PrimRewrite × UInt32) := do
  let result ← emptyResult enabled state
  if !pgraphPrimRewriteNeeded enabled state then some (result, capacity)
  else
    let count := UInt32.ofNat inputIndices.length
    let maxOutput := maxOutputIndices32 state.primitiveMode state.polygonMode count
    if maxOutput = 0 then some (result, capacity)
    else
      let capacity ← ensureCapacity capacity maxOutput fuel
      let indices ← rewriteIndices32 (some inputIndices) 0 count state fuel
      if UInt32.ofNat indices.length ≤ maxOutput then some ({ result with indices }, capacity)
      else none

/-- The call comes back with the result, whatever buffer it is given, and the buffer holds it. -/
def Produces (call : UInt32 → Nat → Option (PrimRewrite × UInt32)) (result : PrimRewrite) : Prop :=
  ∀ capacity, Grown capacity → ∃ fuel capacity', call capacity fuel = some (result, capacity') ∧
    result.indices.length ≤ capacity'.toNat

def consecutive (range : Int × Int) : List UInt32 :=
  (List.range range.2.toNat).map fun i : Nat => UInt32.ofInt (range.1 + i)

/-- A call on several ranges produces what the calls on each produce, and each of those what the call
on its vertices as a list does. -/
def RangesConsistent (enabled : Bool) (state : PrimAssemblyState)
    (ranges : List (Int × Int)) : Prop :=
  ∃ result parts,
    Produces (fun capacity => pgraphPrimRewriteRanges32 enabled state capacity ranges) result ∧
    List.Forall₂ (fun range part =>
      Produces (fun capacity => pgraphPrimRewriteRanges32 enabled state capacity [range]) part ∧
      Produces (fun capacity =>
        pgraphPrimRewriteIndexed32 enabled state capacity (consecutive range))
        part) ranges parts ∧
    result.indices = (parts.map (·.indices)).flatten

def rewrittenRange (state : PrimAssemblyState) (range : Int × Int) : List UInt32 :=
  rewritten state (vertices none (UInt32.ofInt range.1) range.2.toNat)

/-! ## The parts of a call -/

variable {needed capacity : UInt32} {fuel : Nat}

variable {fuel' : Nat} {next : UInt32} {range : Int × Int}

theorem growLoop_mono (h : fuel ≤ fuel')
    (heq : growLoop needed fuel next = some capacity) :
      growLoop needed fuel' next = some capacity := by
  induction fuel generalizing fuel' next with
  | zero => cases heq
  | succ fuel ih =>
    obtain ⟨k, rfl⟩ := Nat.exists_eq_add_of_le h
    rw [Nat.add_right_comm, growLoop]
    rw [growLoop] at heq
    by_cases hlt : next < needed
    · simp_all
    · rwa [if_neg hlt] at heq ⊢

variable {capacity' : UInt32}

theorem ensureCapacity_mono (h : fuel ≤ fuel')
    (heq : ensureCapacity capacity needed fuel = some capacity') :
    ensureCapacity capacity needed fuel' = some capacity' := by
  rw [ensureCapacity] at heq ⊢
  by_cases hfits : needed ≤ capacity
  · rwa [if_pos hfits] at heq ⊢
  · rw [if_neg hfits] at heq ⊢
    exact growLoop_mono h heq

theorem le_of_growLoop (heq : growLoop needed fuel next = some capacity) : needed ≤ capacity := by
  induction fuel generalizing next with
  | zero => cases heq
  | succ fuel ih =>
    rw [growLoop] at heq
    grind

theorem le_of_ensureCapacity
    (heq : ensureCapacity capacity needed fuel = some capacity') : needed ≤ capacity' := by
  rw [ensureCapacity] at heq
  by_cases hfits : needed ≤ capacity
  · simp_all
  · rw [if_neg hfits] at heq
    exact le_of_growLoop heq

theorem ofInt_eq_ofNat {n : Int} (hn : 0 ≤ n) : UInt32.ofInt n = UInt32.ofNat n.toNat := by
  obtain ⟨k, rfl⟩ := Int.eq_ofNat_of_zero_le hn
  apply UInt32.toNat.inj
  have hmod : ((k : Int) % 4294967296).toNat % 4294967296 = k % 4294967296 := by omega
  simpa [UInt32.ofInt] using hmod

theorem ofInt_toNat {n : Int} (h : 0 ≤ n) (hlt : n < 2 ^ 32) :
    (UInt32.ofInt n).toNat = n.toNat := by
  rw [ofInt_eq_ofNat h, UInt32.toNat_ofNat_of_lt' (show n.toNat < 2 ^ 32 by omega)]

section Parts

variable {state : PrimAssemblyState}

theorem rewriteIndices32_eventually (hmode : state.primitiveMode ≠ .invalid)
    (idx : Option (List UInt32)) (base : UInt32) {count : UInt32}
    (hwrap : ¬Wraps state.primitiveMode count.toNat) :
    ∃ fuel0, ∀ fuel, fuel0 ≤ fuel → rewriteIndices32 idx base count state fuel =
      some (rewritten state (vertices idx base count.toNat)) := by
  refine ⟨count.toNat + 1, fun fuel hfuel => rewriteIndices32_mono hfuel ?_⟩
  rw [rewriteIndices32_eq idx base count state hmode hwrap,
    rewriteIndices_eq idx base _ state hmode]
  rfl

/-- A count of triangles that wraps reserves more than any buffer holds. -/
theorem not_wraps {mode : ShaderPrimitiveMode} {polygonMode : ShaderPolygonMode} {count : Nat}
    (h : maxOutputIndices mode polygonMode count ≤ 2 ^ 31) : ¬Wraps mode count := by
  rintro ⟨rfl, rfl⟩
  simp [maxOutputIndices] at h

theorem length_rewritten_le (vs : List UInt32) : (rewritten state vs).length ≤
    maxOutputIndices state.primitiveMode state.polygonMode vs.length :=
  length_emitted_le_max state vs

theorem maxOutputIndices_zero (mode : ShaderPrimitiveMode) (polygonMode : ShaderPolygonMode) :
    maxOutputIndices mode polygonMode 0 = 0 := by
  cases mode <;> cases polygonMode <;> rfl

theorem length_rewrittenRange_le (range : Int × Int) : (rewrittenRange state range).length ≤
    maxOutputIndices state.primitiveMode state.polygonMode range.2.toNat := by
  have h := @length_rewritten_le state (vertices none (UInt32.ofInt range.1) range.2.toNat)
  rwa [show (vertices none (UInt32.ofInt range.1) range.2.toNat).length = range.2.toNat by
    simp [vertices]] at h

theorem rewrittenRange_of_nonpos (h : range.2 ≤ 0) : rewrittenRange state range = [] := by
  have hle := @length_rewrittenRange_le state range
  rw [show range.2.toNat = 0 by omega, maxOutputIndices_zero] at hle
  exact List.eq_nil_of_length_eq_zero (Nat.le_zero.mp hle)

theorem totalMaxOutput_cons (range : Int × Int) (ranges : List (Int × Int)) :
    totalMaxOutput state (range :: ranges) =
      maxOutputIndices state.primitiveMode state.polygonMode range.2.toNat +
        totalMaxOutput state ranges := by
  simp only [totalMaxOutput, List.map_cons, List.sum_cons]
  by_cases h : range.2 ≤ 0
  · rw [if_pos h, show range.2.toNat = 0 by omega, maxOutputIndices_zero]
  · rw [if_neg h]

theorem maxOutputIndices_le_total {range : Int × Int} {ranges : List (Int × Int)}
    (h : range ∈ ranges) :
    maxOutputIndices state.primitiveMode state.polygonMode range.2.toNat ≤
      totalMaxOutput state ranges := by
  obtain ⟨before, after, rfl⟩ := List.append_of_mem h
  have hcons := @totalMaxOutput_cons state range after
  grind [totalMaxOutput]

theorem length_flatten_rewrittenRange_le (ranges : List (Int × Int)) :
    (ranges.map (rewrittenRange state)).flatten.length ≤ totalMaxOutput state ranges := by
  induction ranges with
  | nil => exact Nat.zero_le _
  | cons range ranges ih =>
    grind [length_rewrittenRange_le, totalMaxOutput_cons]

variable {ranges : List (Int × Int)}

theorem totalMaxOutput32_eq (hint : ∀ range ∈ ranges, range.2 < 2 ^ 31)
    (hmax : ∀ range ∈ ranges,
      maxOutputIndices state.primitiveMode state.polygonMode range.2.toNat < 2 ^ 32) :
    totalMaxOutput32 state ranges = totalMaxOutput state ranges := by
  refine congrArg List.sum (List.map_congr_left fun range hrange => ?_)
  have hlt := hint range hrange
  by_cases h : range.2 ≤ 0
  · rw [if_pos h, if_pos h]
  · rw [if_neg h, if_neg h, toNat_maxOutputIndices32, ofInt_toNat (by omega) (by omega),
      Nat.mod_eq_of_lt (hmax range hrange)]

theorem rewriteRanges32_eventually (hmode : state.primitiveMode ≠ .invalid)
    (hint : ∀ range ∈ ranges, range.2 < 2 ^ 31)
    (hstart : ∀ range ∈ ranges, 0 < range.2 → 0 ≤ range.1) :
    ∃ fuel0, ∀ fuel, fuel0 ≤ fuel → rewriteRanges32 state fuel ranges =
      some (ranges.map (rewrittenRange state)).flatten := by
  induction ranges with
  | nil => exact ⟨0, fun _ _ => rfl⟩
  | cons range ranges ih =>
    obtain ⟨fuel1, hrest⟩ := ih (fun r hr => hint r (List.mem_cons_of_mem range hr))
      fun r hr => hstart r (List.mem_cons_of_mem range hr)
    have hlt := hint range List.mem_cons_self
    by_cases h : range.2 ≤ 0
    · refine ⟨fuel1, fun fuel hfuel => ?_⟩
      simp [rewriteRanges32, rewrittenRange_of_nonpos, h, hrest, hfuel]
    · have hstart' := hstart range List.mem_cons_self (by omega)
      have hcount := ofInt_toNat (show 0 ≤ range.2 by omega) (by omega)
      have hwrap : ¬Wraps state.primitiveMode (UInt32.ofInt range.2).toNat := by
        rintro ⟨-, hwrap⟩
        omega
      obtain ⟨fuel2, hindices⟩ :=
        rewriteIndices32_eventually hmode none (UInt32.ofInt range.1) hwrap
      refine ⟨max fuel1 fuel2, fun fuel hfuel => ?_⟩
      rw [rewriteRanges32, if_neg h, if_neg (by omega), hindices fuel (by omega),
        hrest fuel (by omega), hcount]
      rfl

theorem start_of_rewriteRanges32 {fuel : Nat} {out : List UInt32}
    (h : rewriteRanges32 state fuel ranges = some out) :
    ∀ range ∈ ranges, 0 < range.2 → 0 ≤ range.1 := by
  induction ranges generalizing out with
  | nil => exact fun range hrange => by cases hrange
  | cons range ranges ih =>
    intro r hr hpos
    rw [rewriteRanges32] at h
    by_cases hcount : range.2 ≤ 0
    · grind
    · rw [if_neg hcount] at h
      by_cases hstart : range.1 < 0
      · rw [if_pos hstart] at h
        cases h
      · rw [if_neg hstart] at h
        obtain ⟨indices, -, h⟩ := Option.bind_eq_some_iff.mp h
        obtain ⟨rest, hrest, -⟩ := Option.bind_eq_some_iff.mp h
        obtain rfl | hr := List.mem_cons.mp hr
        · omega
        · exact ih hrest r hr hpos

end Parts

theorem ensureCapacity_eventually {capacity needed : UInt32} (h : Grown capacity)
    (hneeded : needed.toNat ≤ 2 ^ 31) :
    ∃ fuel0 capacity', needed ≤ capacity' ∧ ∀ fuel, fuel0 ≤ fuel →
      ensureCapacity capacity needed fuel = some capacity' := by
  obtain ⟨fuel0, capacity', heq, hle⟩ := (ensureCapacity_iff h needed).mpr hneeded
  exact ⟨fuel0, capacity', hle, fun fuel hfuel => ensureCapacity_mono hfuel heq⟩

section Calls

variable {enabled : Bool} {state : PrimAssemblyState} {result : PrimRewrite}

theorem produces_of_not_needed {call : UInt32 → Nat → Option (PrimRewrite × UInt32)}
    (hresult : result.indices = [])
      (h : ∀ capacity fuel, call capacity fuel = some (result, capacity)) :
    Produces call result := by
  intro capacity _
  exact ⟨0, capacity, h capacity 0, by rw [hresult]; exact Nat.zero_le _⟩

theorem ranges_eventually (hempty : emptyResult enabled state = some result)
    (hmode : state.primitiveMode ≠ .invalid)
    (hneeded : pgraphPrimRewriteNeeded enabled state = true) {ranges : List (Int × Int)}
    (hint : ∀ range ∈ ranges, range.2 < 2 ^ 31) (htotal : totalMaxOutput state ranges ≤ 2 ^ 31)
    (hstart : totalMaxOutput state ranges ≠ 0 → ∀ range ∈ ranges, 0 < range.2 → 0 ≤ range.1)
    (hindices : result.indices = []) {capacity : UInt32} (hcapacity : Grown capacity) :
    ∃ fuel0 capacity', (ranges.map (rewrittenRange state)).flatten.length ≤ capacity'.toNat ∧
      ∀ fuel, fuel0 ≤ fuel → pgraphPrimRewriteRanges32 enabled state capacity ranges fuel =
        some ({ result with indices := (ranges.map (rewrittenRange state)).flatten },
          capacity') := by
  have hlen := @length_flatten_rewrittenRange_le state ranges
  have hmax : ∀ range ∈ ranges,
      maxOutputIndices state.primitiveMode state.polygonMode range.2.toNat < 2 ^ 32 := by
    intro range hrange
    have hterm := @maxOutputIndices_le_total state range ranges hrange
    omega
  have htotal32 := totalMaxOutput32_eq hint hmax
  simp only [pgraphPrimRewriteRanges32, hempty, hneeded, htotal32, Option.bind_eq_bind,
    Option.bind_some,
    Bool.not_true, Bool.false_eq_true, if_false,
      if_neg (show ¬2 ^ 32 ≤ totalMaxOutput state ranges by omega)]
  by_cases hzero : totalMaxOutput state ranges = 0
  · rw [hzero] at hlen
    have hnil := List.eq_nil_of_length_eq_zero (Nat.le_zero.mp hlen)
    refine ⟨0, capacity, by rw [hnil]; exact Nat.zero_le _, fun _ _ => ?_⟩
    rw [if_pos hzero, hnil, ← hindices]
  · have hofNat : (UInt32.ofNat (totalMaxOutput state ranges)).toNat =
        totalMaxOutput state ranges :=
      UInt32.toNat_ofNat_of_lt' (show totalMaxOutput state ranges < 2 ^ 32 by omega)
    obtain ⟨fuel1, capacity', hle, hgrow⟩ := ensureCapacity_eventually hcapacity
      (show (UInt32.ofNat (totalMaxOutput state ranges)).toNat ≤ 2 ^ 31 by omega)
    obtain ⟨fuel2, hrewrite⟩ := rewriteRanges32_eventually hmode hint (hstart hzero)
    have hle' := UInt32.le_iff_toNat_le.mp hle
    have hfits : (UInt32.ofNat (ranges.map (rewrittenRange state)).flatten.length).toNat ≤
        totalMaxOutput state ranges := by
      rw [UInt32.toNat_ofNat']
      exact Nat.le_trans (Nat.mod_le _ _) hlen
    refine ⟨max fuel1 fuel2, capacity', by omega, fun fuel hfuel => ?_⟩
    rw [if_neg hzero, hgrow fuel (by omega), Option.bind_some, hrewrite fuel (by omega),
      Option.bind_some, if_pos hfits]

theorem ranges_produces (hempty : emptyResult enabled state = some result)
    (hmode : state.primitiveMode ≠ .invalid)
    (hneeded : pgraphPrimRewriteNeeded enabled state = true) {ranges : List (Int × Int)}
    (hint : ∀ range ∈ ranges, range.2 < 2 ^ 31) (htotal : totalMaxOutput state ranges ≤ 2 ^ 31)
    (hstart : totalMaxOutput state ranges ≠ 0 → ∀ range ∈ ranges, 0 < range.2 → 0 ≤ range.1)
    (hindices : result.indices = []) :
    Produces (fun capacity => pgraphPrimRewriteRanges32 enabled state capacity ranges)
      { result with indices := (ranges.map (rewrittenRange state)).flatten } := by
  intro capacity hcapacity
  obtain ⟨fuel0, capacity', hlen, hcall⟩ :=
    ranges_eventually hempty hmode hneeded hint htotal hstart hindices hcapacity
  exact ⟨fuel0, capacity', hcall fuel0 (Nat.le_refl _), hlen⟩

theorem consecutive_eq (range : Int × Int) :
    consecutive range = vertices none (UInt32.ofInt range.1) range.2.toNat := by
  rw [consecutive, vertices, verticesFrom, Nat.sub_zero, List.range_eq_range']
  refine List.map_congr_left fun i _ => ?_
  rw [idxAt, UInt32.ofInt_add, ofInt_eq_ofNat (Int.natCast_nonneg i), Int.toNat_natCast]

theorem indexed_eventually (hempty : emptyResult enabled state = some result)
    (hmode : state.primitiveMode ≠ .invalid)
    (hneeded : pgraphPrimRewriteNeeded enabled state = true) {inputIndices : List UInt32}
    (hlength : inputIndices.length < 2 ^ 32)
    (hmax : maxOutputIndices state.primitiveMode state.polygonMode inputIndices.length ≤ 2 ^ 31)
    (hindices : result.indices = []) {capacity : UInt32} (hcapacity : Grown capacity) :
    ∃ fuel0 capacity', (rewritten state inputIndices).length ≤ capacity'.toNat ∧
      ∀ fuel, fuel0 ≤ fuel →
        pgraphPrimRewriteIndexed32 enabled state capacity inputIndices fuel =
          some ({ result with indices := rewritten state inputIndices }, capacity') := by
  have hcount : (UInt32.ofNat inputIndices.length).toNat = inputIndices.length :=
    UInt32.toNat_ofNat_of_lt' hlength
  have hmax32 : (maxOutputIndices32 state.primitiveMode state.polygonMode
      (UInt32.ofNat inputIndices.length)).toNat =
        maxOutputIndices state.primitiveMode state.polygonMode inputIndices.length := by
    rw [toNat_maxOutputIndices32, hcount, Nat.mod_eq_of_lt (by omega)]
  have hlen := @length_rewritten_le state inputIndices
  simp only [pgraphPrimRewriteIndexed32, hempty, hneeded, Option.bind_eq_bind, Option.bind_some,
    Bool.not_true, Bool.false_eq_true, if_false]
  generalize UInt32.ofNat inputIndices.length = count at hcount hmax32 ⊢
  generalize hbound : maxOutputIndices32 state.primitiveMode state.polygonMode count = bound
    at hmax32 ⊢
  by_cases hzero : bound = 0
  · rw [← hmax32, hzero] at hlen
    have hnil := List.eq_nil_of_length_eq_zero (Nat.le_zero.mp hlen)
    refine ⟨0, capacity, by rw [hnil]; exact Nat.zero_le _, fun _ _ => ?_⟩
    rw [if_pos hzero, hnil, ← hindices]
  · obtain ⟨fuel1, capacity', hle, hgrow⟩ := ensureCapacity_eventually hcapacity
      (show bound.toNat ≤ 2 ^ 31 by omega)
    obtain ⟨fuel2, hrewrite⟩ := rewriteIndices32_eventually hmode (some inputIndices) 0
      (hcount ▸ not_wraps hmax)
    rw [hcount, vertices_some] at hrewrite
    have hle' := UInt32.le_iff_toNat_le.mp hle
    have hfits : UInt32.ofNat (rewritten state inputIndices).length ≤ bound := by
      rw [UInt32.le_iff_toNat_le, UInt32.toNat_ofNat']
      exact (Nat.mod_le _ _).trans (hmax32 ▸ hlen)
    refine ⟨max fuel1 fuel2, capacity', by omega, fun fuel hfuel => ?_⟩
    rw [if_neg hzero, hgrow fuel (by omega), Option.bind_some, hrewrite fuel (by omega),
      Option.bind_some, if_pos hfits]

theorem indexed_produces (hempty : emptyResult enabled state = some result)
    (hmode : state.primitiveMode ≠ .invalid)
    (hneeded : pgraphPrimRewriteNeeded enabled state = true) {inputIndices : List UInt32}
    (hlength : inputIndices.length < 2 ^ 32)
    (hmax : maxOutputIndices state.primitiveMode state.polygonMode inputIndices.length ≤ 2 ^ 31)
    (hindices : result.indices = []) :
    Produces (fun capacity => pgraphPrimRewriteIndexed32 enabled state capacity inputIndices)
      { result with indices := rewritten state inputIndices } := by
  intro capacity hcapacity
  obtain ⟨fuel0, capacity', hlen, hcall⟩ :=
    indexed_eventually hempty hmode hneeded hlength hmax hindices hcapacity
  exact ⟨fuel0, capacity', hcall fuel0 (Nat.le_refl _), hlen⟩

end Calls

section Consistent

variable {enabled : Bool} {state : PrimAssemblyState}

theorem emptyResult_eq_none_iff : emptyResult enabled state = none ↔ state.primitiveMode =
    .invalid := by
  obtain ⟨mode, polygonMode, last, flat⟩ := state
  cases mode <;> cases polygonMode <;> simp [emptyResult, pgraphPrimRewriteGetOutputMode]

variable {result : PrimRewrite}

theorem indices_emptyResult (h : emptyResult enabled state = some result) :
    result.indices = [] := by
  obtain ⟨outputMode, -, heq⟩ := Option.bind_eq_some_iff.mp h
  exact Option.some.inj heq ▸ rfl

theorem maxOutputIndices_lt (hmode : state.primitiveMode ≠ .invalid)
    (hint : range.2 < 2 ^ 31) (hfits : (rewrittenRange state range).length < 2 ^ 32) :
    maxOutputIndices state.primitiveMode state.polygonMode range.2.toNat < 2 ^ 32 := by
  by_cases hlines : state.primitiveMode = .lines
  · simp only [hlines, maxOutputIndices]
    omega
  by_cases htriangles : state.primitiveMode = .triangles
  · simp only [htriangles, maxOutputIndices]
    omega
  have heq := rewriteIndices_eq none (UInt32.ofInt range.1) range.2.toNat state hmode
  have hlength :=
    length_rewriteIndices none (UInt32.ofInt range.1) range.2.toNat hlines htriangles heq
  rw [← hlength]
  exact hfits

theorem of_ranges_produces (hmode : state.primitiveMode ≠ .invalid)
    (hneeded : pgraphPrimRewriteNeeded enabled state = true) {ranges : List (Int × Int)}
    (hint : ∀ range ∈ ranges, range.2 < 2 ^ 31)
    (hfits : ((ranges.map (rewrittenRange state)).map List.length).sum < 2 ^ 32)
    (h : Produces
      (fun capacity => pgraphPrimRewriteRanges32 enabled state capacity ranges) result) :
    totalMaxOutput state ranges ≤ 2 ^ 31 ∧
      (totalMaxOutput state ranges ≠ 0 → ∀ range ∈ ranges, 0 < range.2 → 0 ≤ range.1) := by
  have hmax : ∀ range ∈ ranges,
      maxOutputIndices state.primitiveMode state.polygonMode range.2.toNat < 2 ^ 32 := by
    intro range hrange
    have hmem :=
      @List.mem_map_of_mem _ _ _ _ (fun range => (rewrittenRange state range).length) hrange
    have hle := List.le_sum_of_mem hmem
    rw [List.map_map] at hfits
    exact maxOutputIndices_lt hmode (hint range hrange) (Nat.lt_of_le_of_lt hle hfits)
  obtain ⟨fuel, capacity', heq, -⟩ := h 0 .init
  obtain ⟨empty, hempty, heq⟩ := Option.bind_eq_some_iff.mp heq
  simp only [hneeded, Bool.not_true, Bool.false_eq_true, if_false,
    totalMaxOutput32_eq hint hmax] at heq
  by_cases hlarge : 2 ^ 32 ≤ totalMaxOutput state ranges
  · rw [if_pos hlarge] at heq
    cases heq
  rw [if_neg hlarge] at heq
  by_cases hzero : totalMaxOutput state ranges = 0
  · exact ⟨by omega, fun h => absurd hzero h⟩
  rw [if_neg hzero] at heq
  obtain ⟨capacity, hgrow, heq⟩ := Option.bind_eq_some_iff.mp heq
  obtain ⟨indices, hindices, -⟩ := Option.bind_eq_some_iff.mp heq
  have hneeded' :=
    (ensureCapacity_iff .init _).mp ⟨fuel, capacity, hgrow, le_of_ensureCapacity hgrow⟩
  rw [UInt32.toNat_ofNat_of_lt' (show totalMaxOutput state ranges < 2 ^ 32 by omega)] at hneeded'
  exact ⟨hneeded', fun _ => start_of_rewriteRanges32 hindices⟩

/-- **Ranges and index lists are rewritten alike**, for all starts and counts whose output fits 32 bits,
exactly if the calls pass their assertions and the buffer is asked for no more than `2 ^ 31` indices. -/
theorem rangesConsistent_iff (enabled : Bool) (state : PrimAssemblyState)
    (ranges : List (Int × Int))
    (hint : ∀ range ∈ ranges, range.2 < 2 ^ 31)
    (hfits : pgraphPrimRewriteNeeded enabled state = true →
      ((ranges.map (rewrittenRange state)).map List.length).sum < 2 ^ 32) :
    RangesConsistent enabled state ranges ↔
      state.primitiveMode ≠ .invalid ∧
        (pgraphPrimRewriteNeeded enabled state = true →
          totalMaxOutput state ranges ≤ 2 ^ 31 ∧
            (totalMaxOutput state ranges ≠ 0 → ∀ range ∈ ranges, 0 < range.2 → 0 ≤ range.1)) := by
  constructor
  · rintro ⟨result, parts, hresult, _, _⟩
    have hmode : state.primitiveMode ≠ .invalid := by
      intro hinvalid
      obtain ⟨fuel, capacity', heq, -⟩ := hresult 0 .init
      simp [pgraphPrimRewriteRanges32, emptyResult_eq_none_iff.mpr hinvalid] at heq
    exact ⟨hmode, fun hneeded => of_ranges_produces hmode hneeded hint (hfits hneeded) hresult⟩
  · rintro ⟨hmode, hbounds⟩
    obtain ⟨result, hempty⟩ := Option.ne_none_iff_exists'.mp (emptyResult_eq_none_iff.not.mpr hmode)
    have hindices := indices_emptyResult hempty
    by_cases hneeded : pgraphPrimRewriteNeeded enabled state = true
    · obtain ⟨htotal, hstart⟩ := hbounds hneeded
      refine ⟨{ result with indices := (ranges.map (rewrittenRange state)).flatten },
        ranges.map fun range => { result with indices := rewrittenRange state range },
        ranges_produces hempty hmode hneeded hint htotal hstart hindices, ?_, ?_⟩
      · rw [List.forall₂_map_right_iff, List.forall₂_same]
        intro range hrange
        -- a single range is reserved no more than all of them
        have hsingle : totalMaxOutput state [range] =
            maxOutputIndices state.primitiveMode state.polygonMode range.2.toNat :=
          totalMaxOutput_cons range []
        have hle := @maxOutputIndices_le_total state range ranges hrange
        have hrange2 := hint range hrange
        have hone := @ranges_produces enabled state result hempty hmode hneeded [range]
          (fun r hr => List.mem_singleton.mp hr ▸ hrange2) (by omega)
          (fun hne r hr => List.mem_singleton.mp hr ▸ hstart (by omega) range hrange) hindices
        rw [List.map_singleton, List.flatten_singleton] at hone
        have hlength : (consecutive range).length = range.2.toNat := by simp [consecutive]
        have hlist := @indexed_produces enabled state result hempty hmode hneeded
          (consecutive range) (by omega) (by rw [hlength]; omega) hindices
        rw [consecutive_eq] at hlist
        exact ⟨hone, consecutive_eq range ▸ hlist⟩
      · rw [List.map_map]
        rfl
    · have hcall : ∀ rs capacity fuel,
          pgraphPrimRewriteRanges32 enabled state capacity rs fuel = some (result, capacity) := by
        simp [pgraphPrimRewriteRanges32, hempty, hneeded]
      have hcall' : ∀ input capacity fuel,
          pgraphPrimRewriteIndexed32 enabled state capacity input fuel =
            some (result, capacity) := by
        simp [pgraphPrimRewriteIndexed32, hempty, hneeded]
      refine ⟨result, ranges.map fun _ => result,
        produces_of_not_needed hindices (hcall ranges), ?_, ?_⟩
      · rw [List.forall₂_map_right_iff, List.forall₂_same]
        simp [produces_of_not_needed, hindices, hcall, hcall']
      · simp_all

end Consistent

/-- **The rewrite keeps the primitives**: where a rewrite is needed and its buffer can be reserved,
the call returns, and its output read in its output mode is what the complete primitives of the
guest's mode contribute, one after the other. -/
theorem pgraphPrimRewriteIndexed_renders (enabled : Bool) (state : PrimAssemblyState)
    (inputIndices : List UInt32) (hmode : state.primitiveMode ≠ .invalid)
    (hneeded : pgraphPrimRewriteNeeded enabled state = true)
    (hlength : inputIndices.length < 2 ^ 32)
    (hmax : maxOutputIndices state.primitiveMode state.polygonMode inputIndices.length ≤ 2 ^ 31) :
    ∃ result, Produces
        (fun capacity => pgraphPrimRewriteIndexed32 enabled state capacity inputIndices) result ∧
      pgraphPrimRewriteGetOutputMode state.primitiveMode state.polygonMode =
        some result.outputMode ∧
      Renders state (assembled state inputIndices) result.outputMode result.indices := by
  obtain ⟨outputMode, h⟩ := getOutputMode_isSome hmode
  have hempty : emptyResult enabled state = some
      { indices := [], outputMode, flatProvokingRewrite := state.flatShading && true } := by
    rw [emptyResult, h, hneeded]
    rfl
  refine ⟨_, indexed_produces hempty hmode hneeded hlength hmax rfl, h, ?_⟩
  exact renders_rewriteIndices state inputIndices h

theorem pgraphPrimRewriteIndexed_renders_quadStrip :
    ∃ result, Produces (fun capacity => pgraphPrimRewriteIndexed32 true
        ⟨.quadStrip, .fill, true, true⟩ capacity [4, 5, 5, 7, 8]) result ∧
      Renders ⟨.quadStrip, .fill, true, true⟩ [⟨[4, 5, 7, 5], 7⟩] .triangles result.indices := by
  obtain ⟨result, hresult, hmode, hrenders⟩ := pgraphPrimRewriteIndexed_renders true
    ⟨.quadStrip, .fill, true, true⟩ [4, 5, 5, 7, 8] (by decide) rfl (by decide) (by decide)
  rw [← Option.some.inj hmode] at hrenders
  exact ⟨result, hresult, hrenders⟩

/-- Points are left to the caller; quads drawn with points emit a vertex no quad has; a flat quad
drawn with lines has edges that do not start with its provoking vertex, or even touch it; and for
`2 ^ 30 + 2` vertices of a line strip the buffer is asked for more than it can grow to. -/
theorem pgraphPrimRewriteIndexed_differs :
    (pgraphPrimRewriteIndexed32 true ⟨.points, .fill, false, false⟩ 0 [0] 9).map (·.1.indices) =
      some [] ∧
    (pgraphPrimRewriteIndexed32 true ⟨.quads, .point, false, false⟩ 0 [0, 1, 2, 3, 4] 9).map
      (fun result => readAs result.1.outputMode result.1.indices) =
        some [[0], [1], [2], [3], [4]] ∧
    (Modes.quadList [0, 1, 2, 3, 4]).map (·.perimeter) = [[0, 1, 2, 3]] ∧
    (pgraphPrimRewriteIndexed32 true ⟨.quads, .line, false, true⟩ 0 [0, 1, 2, 3] 9).map
      (fun result => readAs result.1.outputMode result.1.indices) =
        some [[0, 1], [1, 2], [2, 3], [3, 0]] ∧
    (Modes.quadList [0, 1, 2, 3]).map (·.provoking) = [3] ∧
    ∀ fuel, ensureCapacity 0 (maxOutputIndices32 .lineStrip .fill (2 ^ 30 + 2)) fuel = none := by
  refine ⟨by decide, by decide, by decide, by decide, by decide, fun fuel => ?_⟩
  exact growLoop_eq_none (by decide) fuel (.inr ⟨8, by decide, by decide, rfl⟩)

theorem rangesConsistent_strips :
    (∀ range ∈ [((3 : Int), (5 : Int)), (20, 2)], range.2 < 2 ^ 31) ∧
      RangesConsistent true ⟨.triangleStrip, .fill, true, true⟩ [(3, 5), (20, 2)] :=
  ⟨by decide, (rangesConsistent_iff true ⟨.triangleStrip, .fill, true, true⟩ [(3, 5), (20, 2)]
    (by decide) (by decide)).mpr (by decide)⟩

/-- Two loops of `2 ^ 30` and of `2 ^ 29` lines. -/
theorem rangesConsistent_endless :
    totalMaxOutput ⟨.lineLoop, .fill, false, false⟩ [(0, 2 ^ 30), (0, 2 ^ 29)] = 3 * 2 ^ 30 ∧
      ¬RangesConsistent true ⟨.lineLoop, .fill, false, false⟩ [(0, 2 ^ 30), (0, 2 ^ 29)] := by
  have htotal : totalMaxOutput ⟨.lineLoop, .fill, false, false⟩ [(0, 2 ^ 30), (0, 2 ^ 29)] =
      3 * 2 ^ 30 := by
    simp [totalMaxOutput, maxOutputIndices]
  refine ⟨htotal, ?_⟩
  rintro ⟨result, parts, hresult, _, _⟩
  have hlen := @length_flatten_rewrittenRange_le ⟨.lineLoop, .fill, false, false⟩
    [(0, 2 ^ 30), (0, 2 ^ 29)]
  rw [htotal, List.length_flatten] at hlen
  have hbounds := of_ranges_produces (by decide) (by decide) (by decide)
    (Nat.lt_of_le_of_lt hlen (by norm_num)) hresult
  rw [htotal] at hbounds
  exact absurd hbounds.1 (by norm_num)

end DukeX.Nv2a
