import DukeX.Nv2a.PrimAssembly

/-!
# The rewrite in `unsigned int`, and its buffer

`PrimRewrite` counts with natural numbers.
-/

namespace DukeX.Nv2a

def maxOutputIndices32 (mode : ShaderPrimitiveMode) (polygonMode : ShaderPolygonMode)
    (inputCount : UInt32) : UInt32 :=
  match mode with
  | .points => inputCount
  | .lines => inputCount
  | .lineStrip => if 2 ≤ inputCount then (inputCount - 1) * 2 else 0
  | .lineLoop => if 2 ≤ inputCount then inputCount * 2 else 0
  | .triangles => inputCount
  | .triangleStrip | .triangleFan => if 3 ≤ inputCount then (inputCount - 2) * 3 else 0
  | .quads =>
    match polygonMode with
    | .point => inputCount
    | .line => inputCount / 4 * 8
    | .fill => inputCount / 4 * 6
  | .quadStrip =>
    match polygonMode with
    | .point => inputCount
    | .line => if inputCount < 4 then 0 else (inputCount - 2) / 2 * 8
    | .fill => if inputCount < 4 then 0 else (inputCount - 2) / 2 * 6
  | .polygon =>
    match polygonMode with
    | .point => inputCount
    | .line => if 2 ≤ inputCount then inputCount * 2 else 0
    | .fill => if 3 ≤ inputCount then (inputCount - 2) * 3 else 0
  | .invalid => 0

def growLoop (needed : UInt32) : Nat → UInt32 → Option UInt32
  | 0, _ => none
  | fuel + 1, next => if next < needed then growLoop needed fuel (next * 2) else some next

def ensureCapacity (capacity needed : UInt32) (fuel : Nat) : Option UInt32 :=
  if needed ≤ capacity then some capacity
  else growLoop needed fuel (if capacity ≠ 0 then capacity * 2 else 256)

inductive Grown : UInt32 → Prop
  | init : Grown 0
  | ensure {capacity capacity' : UInt32} (needed : UInt32) (fuel : Nat) (h : Grown capacity)
      (heq : ensureCapacity capacity needed fuel = some capacity') : Grown capacity'

def emitLoop32 (last step count : UInt32) (body : UInt32 → List UInt32) :
    Nat → UInt32 → Option (List UInt32)
  | 0, _ => none
  | fuel + 1, i =>
    if i + last < count then
      (emitLoop32 last step count body fuel (i + step)).map (body i ++ ·)
    else some []

section Rewrite

variable (idx : Option (List UInt32)) (base : UInt32) (count : UInt32)

def idxAt32 (i : UInt32) : UInt32 := idxAt idx i.toNat base

def rewritePoints32 (fuel : Nat) : Option (List UInt32) :=
  emitLoop32 0 1 count (fun i => [idxAt32 idx base i]) fuel 0

def rewriteLines32 (lastProvoking : Bool) (fuel : Nat) : Option (List UInt32) :=
  emitLoop32 1 2 count (fun i =>
    let v0 := idxAt32 idx base i
    let v1 := idxAt32 idx base (i + 1)
    emitLinePv v0 v1 (if lastProvoking then v1 else v0)) fuel 0

def rewriteLineStrip32 (lastProvoking : Bool) (fuel : Nat) : Option (List UInt32) :=
  emitLoop32 1 1 count (fun i =>
    let v0 := idxAt32 idx base i
    let v1 := idxAt32 idx base (i + 1)
    emitLinePv v0 v1 (if lastProvoking then v1 else v0)) fuel 0

def rewriteLineLoop32 (lastProvoking : Bool) (fuel : Nat) : Option (List UInt32) :=
  if count < 2 then some []
  else
    let vLast := idxAt32 idx base (count - 1)
    let vFirst := idxAt32 idx base 0
    (rewriteLineStrip32 idx base count lastProvoking fuel).map
      (· ++ emitLinePv vLast vFirst (if lastProvoking then vFirst else vLast))

def rewriteTriangles32 (lastProvoking : Bool) (fuel : Nat) : Option (List UInt32) :=
  emitLoop32 2 3 count (fun i =>
    let v0 := idxAt32 idx base i
    let v1 := idxAt32 idx base (i + 1)
    let v2 := idxAt32 idx base (i + 2)
    emitTriPv v0 v1 v2 (if lastProvoking then v2 else v0)) fuel 0

def rewriteTriangleStrip32 (lastProvoking : Bool) (fuel : Nat) : Option (List UInt32) :=
  emitLoop32 2 1 count (fun i =>
    let v0 := idxAt32 idx base i
    let v1 := idxAt32 idx base (i + 1)
    let v2 := idxAt32 idx base (i + 2)
    let pv := if lastProvoking then v2 else v0
    if i % 2 = 1 then emitTriPv v1 v0 v2 pv else emitTriPv v0 v1 v2 pv) fuel 0

def rewriteTriangleFan32 (lastProvoking : Bool) (fuel : Nat) : Option (List UInt32) :=
  if count < 3 then some []
  else
    let hub := idxAt32 idx base 0
    emitLoop32 2 1 count (fun i =>
      let v1 := idxAt32 idx base (i + 1)
      let v2 := idxAt32 idx base (i + 2)
      emitTriPv hub v1 v2 (if lastProvoking then v2 else v1)) fuel 0

def rewriteQuads32 (flatShading : Bool) (fuel : Nat) : Option (List UInt32) :=
  emitLoop32 3 4 count (fun i =>
    let v0 := idxAt32 idx base i
    let v1 := idxAt32 idx base (i + 1)
    let v2 := idxAt32 idx base (i + 2)
    let v3 := idxAt32 idx base (i + 3)
    if flatShading then emitTri v3 v0 v1 ++ emitTri v3 v1 v2
    else emitTri v0 v1 v2 ++ emitTri v0 v2 v3) fuel 0

def rewriteQuadsLine32 (fuel : Nat) : Option (List UInt32) :=
  emitLoop32 3 4 count (fun i =>
    let v0 := idxAt32 idx base i
    let v1 := idxAt32 idx base (i + 1)
    let v2 := idxAt32 idx base (i + 2)
    let v3 := idxAt32 idx base (i + 3)
    emitLine v0 v1 ++ emitLine v1 v2 ++ emitLine v2 v3 ++ emitLine v3 v0) fuel 0

def rewriteQuadStrip32 (flatShading : Bool) (fuel : Nat) : Option (List UInt32) :=
  emitLoop32 3 2 count (fun i =>
    let v0 := idxAt32 idx base i
    let v1 := idxAt32 idx base (i + 1)
    let v2 := idxAt32 idx base (i + 2)
    let v3 := idxAt32 idx base (i + 3)
    if flatShading then emitTri v3 v2 v0 ++ emitTri v3 v0 v1
    else emitTri v0 v1 v2 ++ emitTri v2 v1 v3) fuel 0

def rewriteQuadStripLine32 (fuel : Nat) : Option (List UInt32) :=
  emitLoop32 3 2 count (fun i =>
    let v0 := idxAt32 idx base i
    let v1 := idxAt32 idx base (i + 1)
    let v2 := idxAt32 idx base (i + 2)
    let v3 := idxAt32 idx base (i + 3)
    emitLine v0 v1 ++ emitLine v1 v3 ++ emitLine v3 v2 ++ emitLine v2 v0) fuel 0

def rewritePolygon32 (fuel : Nat) : Option (List UInt32) :=
  if count < 3 then some []
  else
    let hub := idxAt32 idx base 0
    emitLoop32 2 1 count (fun i =>
      emitTri hub (idxAt32 idx base (i + 1)) (idxAt32 idx base (i + 2))) fuel 0

def rewritePolygonLine32 (fuel : Nat) : Option (List UInt32) :=
  if count < 2 then some []
  else (rewriteLineStrip32 idx base count false fuel).map
    (· ++ emitLine (idxAt32 idx base (count - 1)) (idxAt32 idx base 0))

def rewriteIndices32 (state : PrimAssemblyState) (fuel : Nat) : Option (List UInt32) :=
  match state.primitiveMode with
  | .points => rewritePoints32 idx base count fuel
  | .lines => rewriteLines32 idx base count state.lastProvoking fuel
  | .lineStrip => rewriteLineStrip32 idx base count state.lastProvoking fuel
  | .lineLoop => rewriteLineLoop32 idx base count state.lastProvoking fuel
  | .triangles => rewriteTriangles32 idx base count state.lastProvoking fuel
  | .triangleStrip => rewriteTriangleStrip32 idx base count state.lastProvoking fuel
  | .triangleFan => rewriteTriangleFan32 idx base count state.lastProvoking fuel
  | .quads =>
    match state.polygonMode with
    | .point => rewritePoints32 idx base count fuel
    | .line => rewriteQuadsLine32 idx base count fuel
    | .fill => rewriteQuads32 idx base count state.flatShading fuel
  | .quadStrip =>
    match state.polygonMode with
    | .point => rewritePoints32 idx base count fuel
    | .line => rewriteQuadStripLine32 idx base count fuel
    | .fill => rewriteQuadStrip32 idx base count state.flatShading fuel
  | .polygon =>
    match state.polygonMode with
    | .point => rewritePoints32 idx base count fuel
    | .line => rewritePolygonLine32 idx base count fuel
    | .fill => rewritePolygon32 idx base count fuel
  -- the caller has returned: nothing is reserved for this mode
  | .invalid => some []

end Rewrite

/-! ## Where no counter wraps -/

theorem ofNat_add_ofNat (i k : Nat) : UInt32.ofNat i + UInt32.ofNat k = UInt32.ofNat (i + k) := by
  exact (UInt32.ofNat_add i k).symm

section Loop

variable {last step : Nat} {count : UInt32} {body32 : UInt32 → List UInt32} {body : Nat → List UInt32}

/-- **The rule for a loop that does not wrap**: it is the loop that counts with natural numbers. -/
theorem emitLoop32_eq (hstep : 0 < step)
    (hbody : ∀ i, i + last < count.toNat → body32 (UInt32.ofNat i) = body i)
    (hwrap : ∀ i, step ∣ i → i + last < count.toNat → i + step + last < 2 ^ 32)
    (fuel i : Nat) (hi : step ∣ i) (hlt : i + last < 2 ^ 32) (hfuel : count.toNat ≤ fuel + i) :
    emitLoop32 (UInt32.ofNat last) (UInt32.ofNat step) count body32 (fuel + 1) (UInt32.ofNat i) =
      some (emitLoop last step count.toNat body fuel i) := by
  have htest : ∀ j, j + last < 2 ^ 32 →
      (UInt32.ofNat j + UInt32.ofNat last < count ↔ j + last < count.toNat) := by
    intro j hj
    rw [ofNat_add_ofNat, UInt32.lt_iff_toNat_lt, UInt32.toNat_ofNat_of_lt' hj]
  induction fuel generalizing i with
  | zero =>
    rw [emitLoop32, if_neg]
    · rfl
    · rw [htest i hlt]
      omega
  | succ fuel ih =>
    rw [emitLoop32, emitLoop]
    by_cases h : i + last < count.toNat
    · have hnext := hwrap i hi h
      rw [if_pos ((htest i hlt).mpr h), if_pos h, ofNat_add_ofNat,
        ih (i + step) (hi.add (Nat.dvd_refl step)) hnext (by omega), hbody i h]
      rfl
    · rw [if_neg ((htest i hlt).not.mpr h), if_neg h]

end Loop

section Loops

variable {last step : Nat} {body32 : UInt32 → List UInt32} {body : Nat → List UInt32}
variable (idx : Option (List UInt32)) (base : UInt32) (count : UInt32)

theorem emitLoop32_zero (hstep : 0 < step) (hlast : last < 2 ^ 32)
    (hbody : ∀ i, i + last < count.toNat → body32 (UInt32.ofNat i) = body i)
    (hwrap : ∀ i, step ∣ i → i + last < count.toNat → i + step + last < 2 ^ 32) :
    emitLoop32 (UInt32.ofNat last) (UInt32.ofNat step) count body32 (count.toNat + 1) 0 =
      some (emitLoop last step count.toNat body count.toNat 0) := by
  refine emitLoop32_eq hstep hbody hwrap count.toNat 0 (Nat.dvd_zero step) ?_ (Nat.le_refl _)
  rwa [Nat.zero_add]

variable {i : Nat}

theorem idxAt32_ofNat (h : i < 2 ^ 32) : idxAt32 idx base (UInt32.ofNat i) = idxAt idx i base := by
  rw [idxAt32, UInt32.toNat_ofNat_of_lt' h]

theorem idxAt32_add (k : Nat) (h : i + k < 2 ^ 32) :
    idxAt32 idx base (UInt32.ofNat i + UInt32.ofNat k) = idxAt idx (i + k) base := by
  rw [ofNat_add_ofNat, idxAt32_ofNat idx base h]

theorem idxAt32_one (h : i + 1 < 2 ^ 32) :
    idxAt32 idx base (UInt32.ofNat i + 1) = idxAt idx (i + 1) base :=
  idxAt32_add idx base 1 h

theorem idxAt32_two (h : i + 2 < 2 ^ 32) :
    idxAt32 idx base (UInt32.ofNat i + 2) = idxAt idx (i + 2) base :=
  idxAt32_add idx base 2 h

theorem idxAt32_three (h : i + 3 < 2 ^ 32) :
    idxAt32 idx base (UInt32.ofNat i + 3) = idxAt idx (i + 3) base :=
  idxAt32_add idx base 3 h

/-- The modes that emit nothing for less than `k` vertices. -/
theorem small_eq {k : Nat} (hk : k < 2 ^ 32) {emitted32 : Option (List UInt32)} {emitted : List UInt32}
    (h : ¬count.toNat < k → emitted32 = some emitted) :
    (if count < UInt32.ofNat k then some [] else emitted32) =
      some (if count.toNat < k then [] else emitted) := by
  have hsmall : count < UInt32.ofNat k ↔ count.toNat < k := by
    rw [UInt32.lt_iff_toNat_lt, UInt32.toNat_ofNat_of_lt' hk]
  by_cases hlt : count.toNat < k
  · rw [if_pos (hsmall.mpr hlt), if_pos hlt]
  · rw [if_neg (hsmall.not.mpr hlt), if_neg hlt, h hlt]

theorem rewritePoints32_eq :
    rewritePoints32 idx base count (count.toNat + 1) = some (rewritePoints idx base count.toNat) := by
  have hcount := count.toNat_lt
  apply @emitLoop32_zero 0 1 _ _ count Nat.one_pos (by decide)
  · intro i hi
    rw [idxAt32_ofNat idx base (by omega)]
  · intro i _ hi
    omega

theorem rewriteLines32_eq (lastProvoking : Bool) :
    rewriteLines32 idx base count lastProvoking (count.toNat + 1) =
      some (rewriteLines idx base count.toNat lastProvoking) := by
  have hcount := count.toNat_lt
  apply @emitLoop32_zero 1 2 _ _ count Nat.two_pos (by decide)
  · intro i hi
    simp (disch := omega) only [idxAt32_ofNat, idxAt32_one]
  · -- the counter is even, so it stops short of the last value
    intro i hdvd hi
    omega

theorem rewriteLineStrip32_eq (lastProvoking : Bool) :
    rewriteLineStrip32 idx base count lastProvoking (count.toNat + 1) =
      some (rewriteLineStrip idx base count.toNat lastProvoking) := by
  have hcount := count.toNat_lt
  apply @emitLoop32_zero 1 1 _ _ count Nat.one_pos (by decide)
  · intro i hi
    simp (disch := omega) only [idxAt32_ofNat, idxAt32_one]
  · intro i _ hi
    omega

theorem rewriteTriangles32_eq (lastProvoking : Bool) (h : count.toNat ≠ 2 ^ 32 - 1) :
    rewriteTriangles32 idx base count lastProvoking (count.toNat + 1) =
      some (rewriteTriangles idx base count.toNat lastProvoking) := by
  have hcount := count.toNat_lt
  apply @emitLoop32_zero 2 3 _ _ count (Nat.succ_pos 2) (by decide)
  · intro i hi
    simp (disch := omega) only [idxAt32_ofNat, idxAt32_one, idxAt32_two]
  · intro i hdvd hi
    omega

theorem ofNat_odd_iff (hi : i < 2 ^ 32) : UInt32.ofNat i % 2 = 1 ↔ i % 2 = 1 := by
  rw [← UInt32.toNat_inj, UInt32.toNat_mod, UInt32.toNat_ofNat_of_lt' hi]
  rfl

theorem rewriteTriangleStrip32_eq (lastProvoking : Bool) :
    rewriteTriangleStrip32 idx base count lastProvoking (count.toNat + 1) =
      some (rewriteTriangleStrip idx base count.toNat lastProvoking) := by
  have hcount := count.toNat_lt
  apply @emitLoop32_zero 2 1 _ _ count Nat.one_pos (by decide)
  · intro i hi
    simp (disch := omega) only [idxAt32_ofNat, idxAt32_one, idxAt32_two, ofNat_odd_iff]
  · intro i _ hi
    omega

theorem rewriteTriangleFan32_eq (lastProvoking : Bool) :
    rewriteTriangleFan32 idx base count lastProvoking (count.toNat + 1) =
      some (rewriteTriangleFan idx base count.toNat lastProvoking) := by
  have hcount := count.toNat_lt
  refine small_eq count (k := 3) (by decide) fun _ => ?_
  apply @emitLoop32_zero 2 1 _ _ count Nat.one_pos (by decide)
  · intro i hi
    have hub : idxAt32 idx base 0 = _ := @idxAt32_ofNat idx base 0 (by decide)
    simp (disch := omega) only [hub, idxAt32_one, idxAt32_two]
  · intro i _ hi
    omega

theorem rewriteQuads32_eq (flatShading : Bool) :
    rewriteQuads32 idx base count flatShading (count.toNat + 1) =
      some (rewriteQuads idx base count.toNat flatShading) := by
  have hcount := count.toNat_lt
  apply @emitLoop32_zero 3 4 _ _ count (Nat.succ_pos 3) (by decide)
  · intro i hi
    simp (disch := omega) only [idxAt32_ofNat, idxAt32_one, idxAt32_two, idxAt32_three]
  · intro i hdvd hi
    omega

theorem rewriteQuadsLine32_eq :
    rewriteQuadsLine32 idx base count (count.toNat + 1) =
      some (rewriteQuadsLine idx base count.toNat) := by
  have hcount := count.toNat_lt
  apply @emitLoop32_zero 3 4 _ _ count (Nat.succ_pos 3) (by decide)
  · intro i hi
    simp (disch := omega) only [idxAt32_ofNat, idxAt32_one, idxAt32_two, idxAt32_three]
  · intro i hdvd hi
    omega

theorem rewriteQuadStrip32_eq (flatShading : Bool) :
    rewriteQuadStrip32 idx base count flatShading (count.toNat + 1) =
      some (rewriteQuadStrip idx base count.toNat flatShading) := by
  have hcount := count.toNat_lt
  apply @emitLoop32_zero 3 2 _ _ count Nat.two_pos (by decide)
  · intro i hi
    simp (disch := omega) only [idxAt32_ofNat, idxAt32_one, idxAt32_two, idxAt32_three]
  · intro i hdvd hi
    omega

theorem rewriteQuadStripLine32_eq :
    rewriteQuadStripLine32 idx base count (count.toNat + 1) =
      some (rewriteQuadStripLine idx base count.toNat) := by
  have hcount := count.toNat_lt
  apply @emitLoop32_zero 3 2 _ _ count Nat.two_pos (by decide)
  · intro i hi
    simp (disch := omega) only [idxAt32_ofNat, idxAt32_one, idxAt32_two, idxAt32_three]
  · intro i hdvd hi
    omega

theorem rewritePolygon32_eq :
    rewritePolygon32 idx base count (count.toNat + 1) =
      some (rewritePolygon idx base count.toNat) := by
  have hcount := count.toNat_lt
  refine small_eq count (k := 3) (by decide) fun _ => ?_
  apply @emitLoop32_zero 2 1 _ _ count Nat.one_pos (by decide)
  · intro i hi
    have hub : idxAt32 idx base 0 = _ := @idxAt32_ofNat idx base 0 (by decide)
    simp (disch := omega) only [hub, idxAt32_one, idxAt32_two]
  · intro i _ hi
    omega

theorem idxAt32_closing (h : ¬count.toNat < 2) :
    idxAt32 idx base (count - 1) = idxAt idx (count.toNat - 1) base ∧
      idxAt32 idx base 0 = idxAt idx 0 base := by
  have hle : (1 : UInt32) ≤ count := UInt32.le_iff_toNat_le.mpr (show 1 ≤ count.toNat by omega)
  simp [idxAt32, hle]

theorem rewriteLineLoop32_eq (lastProvoking : Bool) :
    rewriteLineLoop32 idx base count lastProvoking (count.toNat + 1) =
      some (rewriteLineLoop idx base count.toNat lastProvoking) := by
  refine small_eq count (k := 2) (by decide) fun h => ?_
  obtain ⟨hlast, hfirst⟩ := idxAt32_closing idx base count h
  rw [rewriteLineStrip32_eq, hlast, hfirst, Option.map_some]

theorem rewritePolygonLine32_eq :
    rewritePolygonLine32 idx base count (count.toNat + 1) =
      some (rewritePolygonLine idx base count.toNat) := by
  refine small_eq count (k := 2) (by decide) fun h => ?_
  obtain ⟨hlast, hfirst⟩ := idxAt32_closing idx base count h
  rw [rewriteLineStrip32_eq, hlast, hfirst, Option.map_some]

end Loops

def Wraps (mode : ShaderPrimitiveMode) (count : Nat) : Prop :=
  mode = .triangles ∧ count = 2 ^ 32 - 1

theorem rewriteIndices32_eq (idx : Option (List UInt32)) (base : UInt32) (count : UInt32)
    (state : PrimAssemblyState) (hmode : state.primitiveMode ≠ .invalid)
    (hwrap : ¬Wraps state.primitiveMode count.toNat) :
    rewriteIndices32 idx base count state (count.toNat + 1) =
      rewriteIndices idx base count.toNat state := by
  obtain ⟨mode, polygonMode, last, flat⟩ := state
  cases mode with
  | invalid => exact absurd rfl hmode
  | points => exact rewritePoints32_eq idx base count
  | lines => exact rewriteLines32_eq idx base count last
  | lineLoop => exact rewriteLineLoop32_eq idx base count last
  | lineStrip => exact rewriteLineStrip32_eq idx base count last
  | triangles => exact rewriteTriangles32_eq idx base count last fun h => hwrap ⟨rfl, h⟩
  | triangleStrip => exact rewriteTriangleStrip32_eq idx base count last
  | triangleFan => exact rewriteTriangleFan32_eq idx base count last
  | quads =>
    cases polygonMode with
    | fill => exact rewriteQuads32_eq idx base count flat
    | point => exact rewritePoints32_eq idx base count
    | line => exact rewriteQuadsLine32_eq idx base count
  | quadStrip =>
    cases polygonMode with
    | fill => exact rewriteQuadStrip32_eq idx base count flat
    | point => exact rewritePoints32_eq idx base count
    | line => exact rewriteQuadStripLine32_eq idx base count
  | polygon =>
    cases polygonMode with
    | fill => exact rewritePolygon32_eq idx base count
    | point => exact rewritePoints32_eq idx base count
    | line => exact rewritePolygonLine32_eq idx base count

variable {fuel fuel' : Nat} {out : List UInt32}

theorem emitLoop32_mono {last step count : UInt32} {body : UInt32 → List UInt32}
    (h : fuel ≤ fuel') {i : UInt32}
    (hout : emitLoop32 last step count body fuel i = some out) :
    emitLoop32 last step count body fuel' i = some out := by
  induction fuel generalizing fuel' i out with
  | zero => cases hout
  | succ fuel ih =>
    obtain ⟨k, rfl⟩ := Nat.exists_eq_add_of_le h
    rw [Nat.add_right_comm, emitLoop32]
    rw [emitLoop32] at hout
    by_cases hi : i + last < count
    · rw [if_pos hi] at hout ⊢
      obtain ⟨rest, hrest, rfl⟩ := Option.map_eq_some_iff.mp hout
      rw [ih (Nat.le_add_right fuel k) hrest]
      rfl
    · rwa [if_neg hi] at hout ⊢

variable {idx : Option (List UInt32)}

theorem rewriteLineStrip32_mono {base count : UInt32} {last : Bool} (h : fuel ≤ fuel') {close : List UInt32}
    (hout : (rewriteLineStrip32 idx base count last fuel).map (· ++ close) = some out) :
    (rewriteLineStrip32 idx base count last fuel').map (· ++ close) = some out := by
  obtain ⟨strip, hstrip, rfl⟩ := Option.map_eq_some_iff.mp hout
  rw [rewriteLineStrip32] at hstrip ⊢
  rw [emitLoop32_mono h hstrip]
  rfl

theorem rewriteIndices32_mono {base count : UInt32}
    {state : PrimAssemblyState} (h : fuel ≤ fuel')
    (hout : rewriteIndices32 idx base count state fuel = some out) :
    rewriteIndices32 idx base count state fuel' = some out := by
  obtain ⟨mode, polygonMode, last, flat⟩ := state
  have hguard : ∀ {c : Prop} [Decidable c] {m m' : Option (List UInt32)},
      (m = some out → m' = some out) →
      (if c then some [] else m) = some out → (if c then some [] else m') = some out := by
    grind
  cases mode with
  | invalid => exact hout
  | lineLoop => exact hguard (rewriteLineStrip32_mono h) hout
  | triangleFan => exact hguard (emitLoop32_mono h) hout
  | polygon =>
    cases polygonMode with
    | fill => exact hguard (emitLoop32_mono h) hout
    | point => exact emitLoop32_mono h hout
    | line => exact hguard (rewriteLineStrip32_mono h) hout
  | quads | quadStrip => cases polygonMode <;> exact emitLoop32_mono h hout
  | _ => exact emitLoop32_mono h hout

/-! ## How much is emitted, and how much space is reserved -/

theorem length_emitLine (a b : UInt32) : (emitLine a b).length = 2 := rfl

theorem length_emitLinePv (a b p : UInt32) : (emitLinePv a b p).length = 2 := by
  rw [emitLinePv]
  split <;> rfl

theorem length_emitTriPv (a b c p : UInt32) : (emitTriPv a b c p).length = 3 := by
  rw [emitTriPv]
  split
  · rfl
  · split <;> rfl

theorem length_emitLoop {last step count size : Nat} {body : Nat → List UInt32}
    (rounds : Nat → Nat) (hbody : ∀ i, (body i).length = size) (hstep : 0 < step)
    (hstop : ∀ i, count ≤ i + last → rounds i = 0)
    (hgo : ∀ i, i + last < count → rounds i = rounds (i + step) + 1) (fuel i : Nat)
    (hfuel : count ≤ fuel + i) :
    (emitLoop last step count body fuel i).length = rounds i * size := by
  induction fuel generalizing i with
  | zero => rw [hstop i (by omega), Nat.zero_mul, emitLoop, List.length_nil]
  | succ fuel ih =>
    rw [emitLoop]
    by_cases h : i + last < count
    · rw [if_pos h, List.length_append, hbody, ih (i + step) (by omega), hgo i h, Nat.succ_mul,
        Nat.add_comm]
    · rw [if_neg h, hstop i (Nat.le_of_not_lt h), Nat.zero_mul, List.length_nil]

section Lengths

variable (idx : Option (List UInt32)) (base : UInt32) (count : Nat)

theorem length_rewritePoints : (rewritePoints idx base count).length = count := by
  have h := @length_emitLoop 0 1 count 1 (fun i => [idxAt idx i base]) (fun i => count - i)
    (fun _ => rfl) Nat.one_pos (fun i hi => by omega) (fun i hi => by omega) count 0 (by omega)
  rw [rewritePoints, h, Nat.mul_one, Nat.sub_zero]

theorem length_rewriteLineStrip (last : Bool) :
    (rewriteLineStrip idx base count last).length = (count - 1) * 2 :=
  length_emitLoop (fun i => count - 1 - i) (fun _ => length_emitLinePv _ _ _) Nat.one_pos
    (fun i hi => by omega) (fun i hi => by omega) count 0 (by omega)

theorem length_rewriteTriangleStrip (last : Bool) :
    (rewriteTriangleStrip idx base count last).length = (count - 2) * 3 := by
  refine length_emitLoop (fun i => count - 2 - i) (fun i => ?_) Nat.one_pos
    (fun i hi => by omega) (fun i hi => by omega) count 0 (by omega)
  dsimp only
  split <;> exact length_emitTriPv _ _ _ _

theorem length_rewriteTriangleFan (last : Bool) :
    (rewriteTriangleFan idx base count last).length = (count - 2) * 3 := by
  rw [rewriteTriangleFan]
  split
  · rw [List.length_nil]
    omega
  · exact length_emitLoop (fun i => count - 2 - i) (fun _ => length_emitTriPv _ _ _ _) Nat.one_pos
      (fun i hi => by omega) (fun i hi => by omega) count 0 (by omega)

theorem length_rewriteQuads (flat : Bool) :
    (rewriteQuads idx base count flat).length = count / 4 * 6 := by
  refine length_emitLoop (fun i => (count - i) / 4) (fun i => ?_) (Nat.succ_pos 3)
    (fun i hi => by omega) (fun i hi => by omega) count 0 (by omega)
  cases flat <;> rfl

theorem length_rewriteQuadsLine : (rewriteQuadsLine idx base count).length = count / 4 * 8 := by
  refine length_emitLoop (fun i => (count - i) / 4) (fun i => ?_) (Nat.succ_pos 3)
    (fun i hi => by omega) (fun i hi => by omega) count 0 (by omega)
  rfl

theorem length_rewriteQuadStrip (flat : Bool) :
    (rewriteQuadStrip idx base count flat).length = (count - 2) / 2 * 6 := by
  refine length_emitLoop (fun i => (count - 2 - i) / 2) (fun i => ?_) Nat.two_pos
    (fun i hi => by omega) (fun i hi => by omega) count 0 (by omega)
  cases flat <;> rfl

theorem length_rewriteQuadStripLine :
    (rewriteQuadStripLine idx base count).length = (count - 2) / 2 * 8 := by
  refine length_emitLoop (fun i => (count - 2 - i) / 2) (fun i => ?_) Nat.two_pos
    (fun i hi => by omega) (fun i hi => by omega) count 0 (by omega)
  rfl

theorem length_rewritePolygon : (rewritePolygon idx base count).length = (count - 2) * 3 := by
  rw [rewritePolygon]
  split
  · rw [List.length_nil]
    omega
  · refine length_emitLoop (fun i => count - 2 - i) (fun i => ?_) Nat.one_pos
      (fun i hi => by omega) (fun i hi => by omega) count 0 (by omega)
    rfl

theorem length_rewriteIndices {state : PrimAssemblyState} {out : List UInt32}
    (hlines : state.primitiveMode ≠ .lines) (htriangles : state.primitiveMode ≠ .triangles)
    (h : rewriteIndices idx base count state = some out) :
    out.length = maxOutputIndices state.primitiveMode state.polygonMode count := by
  obtain ⟨mode, polygonMode, last, flat⟩ := state
  cases mode with
  | invalid => cases h
  | lines => exact absurd rfl hlines
  | triangles => exact absurd rfl htriangles
  | points =>
    obtain rfl := Option.some.inj h
    exact length_rewritePoints idx base count
  | lineStrip =>
    obtain rfl := Option.some.inj h
    simp only [length_rewriteLineStrip, maxOutputIndices]
    split <;> omega
  | lineLoop =>
    obtain rfl := Option.some.inj h
    simp only [rewriteLineLoop, maxOutputIndices]
    by_cases hcount : count < 2
    · rw [if_pos hcount, if_neg (show ¬2 ≤ count by omega), List.length_nil]
    · rw [if_neg hcount, if_pos (show 2 ≤ count by omega), List.length_append, length_rewriteLineStrip,
        length_emitLinePv]
      omega
  | triangleStrip =>
    obtain rfl := Option.some.inj h
    simp only [length_rewriteTriangleStrip, maxOutputIndices]
    split <;> omega
  | triangleFan =>
    obtain rfl := Option.some.inj h
    simp only [length_rewriteTriangleFan, maxOutputIndices]
    split <;> omega
  | quads =>
    cases polygonMode with
    | fill =>
      obtain rfl := Option.some.inj h
      exact length_rewriteQuads idx base count flat
    | point =>
      obtain rfl := Option.some.inj h
      exact length_rewritePoints idx base count
    | line =>
      obtain rfl := Option.some.inj h
      exact length_rewriteQuadsLine idx base count
  | quadStrip =>
    cases polygonMode with
    | fill =>
      obtain rfl := Option.some.inj h
      simp only [length_rewriteQuadStrip, maxOutputIndices]
      split <;> omega
    | point =>
      obtain rfl := Option.some.inj h
      exact length_rewritePoints idx base count
    | line =>
      obtain rfl := Option.some.inj h
      simp only [length_rewriteQuadStripLine, maxOutputIndices]
      split <;> omega
  | polygon =>
    cases polygonMode with
    | fill =>
      obtain rfl := Option.some.inj h
      simp only [length_rewritePolygon, maxOutputIndices]
      split <;> omega
    | point =>
      obtain rfl := Option.some.inj h
      exact length_rewritePoints idx base count
    | line =>
      obtain rfl := Option.some.inj h
      simp only [rewritePolygonLine, maxOutputIndices]
      by_cases hcount : count < 2
      · rw [if_pos hcount, if_neg (show ¬2 ≤ count by omega), List.length_nil]
      · rw [if_neg hcount, if_pos (show 2 ≤ count by omega), List.length_append, length_rewriteLineStrip,
          length_emitLine]
        omega

end Lengths

theorem toNat_maxOutputIndices32 (mode : ShaderPrimitiveMode) (polygonMode : ShaderPolygonMode)
    (count : UInt32) :
    (maxOutputIndices32 mode polygonMode count).toNat =
      maxOutputIndices mode polygonMode count.toNat % 2 ^ 32 := by
  have hplain : count.toNat = count.toNat % 2 ^ 32 := (Nat.mod_eq_of_lt count.toNat_lt).symm
  have htwo : (2 ≤ count) = (2 ≤ count.toNat) := propext UInt32.le_iff_toNat_le
  have hthree : (3 ≤ count) = (3 ≤ count.toNat) := propext UInt32.le_iff_toNat_le
  have hfour : (count < 4) = (count.toNat < 4) := propext UInt32.lt_iff_toNat_lt
  have hsub : ∀ k : UInt32, k.toNat ≤ count.toNat → (count - k).toNat = count.toNat - k.toNat :=
    fun k hk => UInt32.toNat_sub_of_le _ _ (UInt32.le_iff_toNat_le.mpr hk)
  -- every bound is a product, behind a guard that keeps the difference from wrapping
  have hproduct : ∀ (a k : UInt32), (a * k).toNat = a.toNat * k.toNat % 2 ^ 32 :=
    fun a k => UInt32.toNat_mul a k
  cases mode with
  | invalid => rfl
  | points | lines | triangles => exact hplain
  | lineStrip =>
    simp only [maxOutputIndices32, maxOutputIndices, htwo]
    split
    · rw [hproduct, hsub 1 (show 1 ≤ count.toNat by omega)]
      rfl
    · rfl
  | lineLoop =>
    simp only [maxOutputIndices32, maxOutputIndices, htwo]
    split
    · exact hproduct count 2
    · rfl
  | triangleStrip | triangleFan =>
    simp only [maxOutputIndices32, maxOutputIndices, hthree]
    split
    · rw [hproduct, hsub 2 (show 2 ≤ count.toNat by omega)]
      rfl
    · rfl
  | quads =>
    cases polygonMode with
    | point => exact hplain
    | line | fill =>
      simp [maxOutputIndices32, maxOutputIndices]
  | quadStrip =>
    cases polygonMode with
    | point => exact hplain
    | line | fill =>
      simp only [maxOutputIndices32, maxOutputIndices, hfour]
      split
      · rfl
      · rw [hproduct, UInt32.toNat_div, hsub 2 (show 2 ≤ count.toNat by omega)]
        rfl
  | polygon =>
    cases polygonMode with
    | point => exact hplain
    | line =>
      simp only [maxOutputIndices32, maxOutputIndices, htwo]
      split
      · exact hproduct count 2
      · rfl
    | fill =>
      simp only [maxOutputIndices32, maxOutputIndices, hthree]
      split
      · rw [hproduct, hsub 2 (show 2 ≤ count.toNat by omega)]
        rfl
      · rfl

/-- The vertices a mode may be given. -/
def countLimit (mode : ShaderPrimitiveMode) (polygonMode : ShaderPolygonMode) : Nat :=
  match mode with
  | .points | .lines | .invalid => 0xFFFFFFFF
  | .triangles => 0xFFFFFFFE
  | .lineStrip => 0x80000000
  | .lineLoop => 0x7FFFFFFF
  | .triangleStrip | .triangleFan => 0x55555557
  | .quads =>
    match polygonMode with
    | .point => 0xFFFFFFFF
    | .line => 0x7FFFFFFF
    | .fill => 0xAAAAAAAB
  | .quadStrip =>
    match polygonMode with
    | .point => 0xFFFFFFFF
    | .line => 0x40000001
    | .fill => 0x55555557
  | .polygon =>
    match polygonMode with
    | .point => 0xFFFFFFFF
    | .line => 0x7FFFFFFF
    | .fill => 0x55555557

theorem le_countLimit_iff (mode : ShaderPrimitiveMode) (polygonMode : ShaderPolygonMode)
    (count : UInt32) :
    count.toNat ≤ countLimit mode polygonMode ↔
      maxOutputIndices mode polygonMode count.toNat < 2 ^ 32 ∧ ¬Wraps mode count.toNat := by
  have hcount := count.toNat_lt
  cases mode <;> cases polygonMode <;>
    simp only [countLimit, maxOutputIndices, Wraps, reduceCtorEq, false_and, true_and, not_false_eq_true,
      and_true] <;>
    (try split) <;> omega

section Wrapped

variable {last step : Nat} {count : UInt32} {body : UInt32 → List UInt32} {size : Nat}

theorem emitLoop32_rounds (hbody : ∀ i, (body i).length = size) {k : Nat}
    (hrounds : ∀ j < k, j * step + last < count.toNat) {fuel : Nat} {out : List UInt32}
    (h : emitLoop32 (UInt32.ofNat last) (UInt32.ofNat step) count body fuel 0 = some out) :
    ∃ fuel' rest, out.length = k * size + rest.length ∧
      emitLoop32 (UInt32.ofNat last) (UInt32.ofNat step) count body fuel' (UInt32.ofNat (k * step)) =
        some rest := by
  have hcount := count.toNat_lt
  induction k with
  | zero => exact ⟨fuel, out, by omega, by rwa [Nat.zero_mul]⟩
  | succ k ih =>
    obtain ⟨fuel', rest, hlen, hrest⟩ := ih fun j hj => hrounds j (Nat.lt_succ_of_lt hj)
    have hk := hrounds k (Nat.lt_succ_self k)
    have htest : UInt32.ofNat (k * step) + UInt32.ofNat last < count := by
      rw [ofNat_add_ofNat, UInt32.lt_iff_toNat_lt, UInt32.toNat_ofNat_of_lt' (show k * step + last < 2 ^ 32 by omega)]
      exact hk
    cases fuel' with
    | zero => cases hrest
    | succ fuel' =>
      rw [emitLoop32, if_pos htest, ofNat_add_ofNat, ← Nat.succ_mul] at hrest
      obtain ⟨rest', hrest', rfl⟩ := Option.map_eq_some_iff.mp hrest
      grind

theorem length_rewriteTriangles32 {idx : Option (List UInt32)} {base count : UInt32} {last : Bool}
    (hcount : count.toNat = 2 ^ 32 - 1) {fuel : Nat} {out : List UInt32}
    (h : rewriteTriangles32 idx base count last fuel = some out) : 2 ^ 32 ≤ out.length := by
  obtain ⟨k, hk⟩ : ∃ k, k * 3 = 2 ^ 32 - 1 := ⟨1431655765, by norm_num⟩
  have hrounds : ∀ j < k, j * 3 + 2 < count.toNat := by
    intro j hj
    omega
  obtain ⟨fuel', rest, hlen, hrest⟩ := @emitLoop32_rounds 2 3 count _ 3
    (fun _ => length_emitTriPv _ _ _ _) k hrounds fuel out h
  cases fuel' with
  | zero => cases hrest
  | succ fuel' =>
    have htest : UInt32.ofNat (k * 3) + UInt32.ofNat 2 < count := by
      simp [UInt32.lt_iff_toNat_lt, hcount, hk]
    rw [emitLoop32, if_pos htest] at hrest
    obtain ⟨rest', -, rfl⟩ := Option.map_eq_some_iff.mp hrest
    rw [hlen, List.length_append, length_emitTriPv]
    omega

end Wrapped

theorem rewriteIndices32_fits_iff (idx : Option (List UInt32)) (base count : UInt32)
    (state : PrimAssemblyState) :
    (∃ fuel out, rewriteIndices32 idx base count state fuel = some out ∧
        out.length ≤ (maxOutputIndices32 state.primitiveMode state.polygonMode count).toNat) ↔
      count.toNat ≤ countLimit state.primitiveMode state.polygonMode := by
  have hcount := count.toNat_lt
  by_cases hmode : state.primitiveMode = .invalid
  · -- nothing is emitted, and every count is below the limit
    have hlimit : count.toNat ≤ countLimit state.primitiveMode state.polygonMode := by
      rw [hmode]
      simp only [countLimit]
      omega
    refine ⟨fun _ => hlimit, fun _ => ⟨0, [], ?_, Nat.zero_le _⟩⟩
    rw [rewriteIndices32, hmode]
  rw [le_countLimit_iff]
  by_cases hwrap : Wraps state.primitiveMode count.toNat
  · refine ⟨?_, fun h => absurd hwrap h.2⟩
    rintro ⟨fuel, out, hout, hlen⟩
    rw [rewriteIndices32, hwrap.1] at hout
    have hlong := length_rewriteTriangles32 hwrap.2 hout
    have hmax := (maxOutputIndices32 state.primitiveMode state.polygonMode count).toNat_lt
    omega
  -- every run that ends emits what the natural numbers emit
  obtain ⟨exact, hexact, hle⟩ : ∃ exact, rewriteIndices idx base count.toNat state = some exact ∧
      exact.length ≤ maxOutputIndices state.primitiveMode state.polygonMode count.toNat := by
    have hle := length_emitted_le_max state (vertices idx base count.toNat)
    rw [show (vertices idx base count.toNat).length = count.toNat by simp [vertices]] at hle
    exact ⟨_, rewriteIndices_eq idx base count.toNat state hmode, hle⟩
  have hrun := rewriteIndices32_eq idx base count state hmode hwrap
  rw [hexact] at hrun
  rw [toNat_maxOutputIndices32]
  constructor
  · rintro ⟨fuel, out, hout, hlen⟩
    have hsame : out = exact := by
      have h1 := rewriteIndices32_mono (Nat.le_max_left fuel (count.toNat + 1)) hout
      have h2 := rewriteIndices32_mono (Nat.le_max_right fuel (count.toNat + 1)) hrun
      exact Option.some.inj (h1.symm.trans h2)
    refine ⟨?_, hwrap⟩
    by_cases hlines : state.primitiveMode = .lines
    · simpa [hlines, maxOutputIndices] using hcount
    by_cases htriangles : state.primitiveMode = .triangles
    · simpa [htriangles, maxOutputIndices] using hcount
    have hlength := length_rewriteIndices idx base count.toNat hlines htriangles hexact
    rw [hsame, hlength] at hlen
    omega
  · grind

/-! ## The buffer grows -/

def Doubled (capacity : UInt32) : Prop :=
  capacity = 0 ∨ ∃ k, 8 ≤ k ∧ k ≤ 31 ∧ capacity.toNat = 2 ^ k

variable {capacity : UInt32}

theorem Doubled.double (h : Doubled capacity) : Doubled (capacity * 2) := by
  obtain rfl | ⟨k, hk, hk', hpow⟩ := h
  · exact .inl rfl
  · have hmul : (capacity * 2).toNat = 2 ^ (k + 1) % 2 ^ 32 := by
      rw [UInt32.toNat_mul, hpow, Nat.pow_succ]
      rfl
    by_cases hlast : k = 31
    · left
      apply UInt32.toNat.inj
      rw [hmul, hlast]
      rfl
    · refine .inr ⟨k + 1, by omega, by omega, ?_⟩
      rw [hmul, Nat.mod_eq_of_lt]
      exact Nat.pow_lt_pow_right (by decide) (by omega)

theorem Doubled.le (h : Doubled capacity) : capacity.toNat ≤ 2 ^ 31 := by
  obtain rfl | ⟨k, -, hk, hpow⟩ := h
  · exact Nat.zero_le _
  · rw [hpow]
    exact Nat.pow_le_pow_right (by decide) hk

theorem Doubled.first (h : Doubled capacity) :
    Doubled (if capacity ≠ 0 then capacity * 2 else 256) := by
  split
  · exact h.double
  · exact .inr ⟨8, by decide, by decide, rfl⟩

variable {next needed : UInt32}

theorem growLoop_doubled {fuel : Nat} (h : Doubled next)
    (heq : growLoop needed fuel next = some capacity) : Doubled capacity := by
  induction fuel generalizing next with
  | zero => cases heq
  | succ fuel ih =>
    rw [growLoop] at heq
    split at heq
    · exact ih h.double heq
    · exact Option.some.inj heq ▸ h

theorem Grown.doubled (h : Grown capacity) : Doubled capacity := by
  induction h with
  | init => exact .inl rfl
  | ensure needed fuel _ heq ih =>
    rw [ensureCapacity] at heq
    split at heq
    · exact Option.some.inj heq ▸ ih
    · exact growLoop_doubled ih.first heq

theorem growLoop_eq_none (hneeded : 2 ^ 31 < needed.toNat) (fuel : Nat) (h : Doubled next) : growLoop needed fuel next = none := by
  induction fuel generalizing next with
  | zero => rfl
  | succ fuel ih =>
    have hlt : next < needed := UInt32.lt_iff_toNat_lt.mpr (Nat.lt_of_le_of_lt h.le hneeded)
    rw [growLoop, if_pos hlt, ih h.double]

theorem growLoop_eq_some (hneeded : needed.toNat ≤ 2 ^ 31) (fuel : Nat) {k : Nat} (hk : k + fuel = 31) (hpow : next.toNat = 2 ^ k) :
    ∃ capacity, growLoop needed (fuel + 1) next = some capacity ∧ needed ≤ capacity := by
  induction fuel generalizing next k with
  | zero =>
    obtain rfl : k = 31 := hk
    have hge : ¬next < needed := by
      rw [UInt32.lt_iff_toNat_lt, hpow]
      exact Nat.not_lt_of_le hneeded
    exact ⟨next, by rw [growLoop, if_neg hge], UInt32.le_iff_toNat_le.mpr (hpow ▸ hneeded)⟩
  | succ fuel ih =>
    rw [growLoop]
    by_cases hlt : next < needed
    · rw [if_pos hlt]
      apply @ih (next * 2) (k + 1) (by omega)
      rw [UInt32.toNat_mul, hpow, Nat.pow_succ]
      exact Nat.mod_eq_of_lt (@Nat.pow_lt_pow_right 2 (k + 1) 32 (by decide) (by omega))
    · rw [if_neg hlt]
      exact ⟨next, rfl, UInt32.not_lt.mp hlt⟩

theorem ensureCapacity_iff (h : Grown capacity) (needed : UInt32) :
    (∃ fuel capacity', ensureCapacity capacity needed fuel = some capacity' ∧ needed ≤ capacity') ↔
      needed.toNat ≤ 2 ^ 31 := by
  constructor
  · rintro ⟨fuel, capacity', heq, hle⟩
    rw [ensureCapacity] at heq
    split at heq
    · next hfits => exact Nat.le_trans (UInt32.le_iff_toNat_le.mp hfits) h.doubled.le
    · by_contra hneeded
      rw [growLoop_eq_none (Nat.lt_of_not_le hneeded) fuel h.doubled.first] at heq
      cases heq
  · intro hneeded
    by_cases hfits : needed ≤ capacity
    · exact ⟨0, capacity, by rw [ensureCapacity, if_pos hfits], hfits⟩
    · -- what the buffer does not hold already is doubled up to
      simp only [ensureCapacity, if_neg hfits]
      obtain hzero | ⟨k, -, hk, hpow⟩ := h.doubled.first
      · -- only the largest capacity is doubled to nothing, and it would have held the request
        exfalso
        obtain rfl | ⟨k, hk, hk', hpow⟩ := h.doubled
        · exact absurd hzero (by decide)
        · have hne : capacity ≠ 0 := by
            grind
          rw [if_pos hne] at hzero
          have hmul := congrArg UInt32.toNat hzero
          rw [UInt32.toNat_mul, hpow] at hmul
          have hk31 : k = 31 := by
            by_contra hlast
            have hlt := @Nat.pow_lt_pow_right 2 (k + 1) 32 (by decide) (by omega)
            rw [show (2 : UInt32).toNat = 2 from rfl, ← Nat.pow_succ, Nat.mod_eq_of_lt hlt] at hmul
            exact absurd hmul (Nat.two_pow_pos (k + 1)).ne'
          apply hfits
          rw [UInt32.le_iff_toNat_le, hpow, hk31]
          exact hneeded
      · exact ⟨_, growLoop_eq_some hneeded (31 - k) (by omega) hpow⟩

/-- **The output buffer.** What a rewrite emits fits the space reserved for it, counted in 32 bits,
exactly up to the limit of its mode; and the buffer reaches a requested size exactly if a power of two
below `2 ^ 32` is as large. -/
theorem outputBuffer_iff (idx : Option (List UInt32)) (base count : UInt32)
    (state : PrimAssemblyState) {capacity : UInt32} (h : Grown capacity) (needed : UInt32) :
    ((∃ fuel out, rewriteIndices32 idx base count state fuel = some out ∧
        out.length ≤ (maxOutputIndices32 state.primitiveMode state.polygonMode count).toNat) ↔
      count.toNat ≤ countLimit state.primitiveMode state.polygonMode) ∧
    ((∃ fuel capacity', ensureCapacity capacity needed fuel = some capacity' ∧ needed ≤ capacity') ↔
      needed.toNat ≤ 2 ^ 31) :=
  ⟨rewriteIndices32_fits_iff idx base count state, ensureCapacity_iff h needed⟩

theorem outputBuffer_strip :
    Grown 0 ∧
    (∃ fuel out, rewriteIndices32 none 7 5 ⟨.triangleStrip, .fill, true, true⟩ fuel = some out ∧
      out.length ≤ (maxOutputIndices32 .triangleStrip .fill 5).toNat) ∧
    ∃ fuel capacity', ensureCapacity 0 300 fuel = some capacity' ∧ 300 ≤ capacity' :=
  ⟨.init, (outputBuffer_iff none 7 5 ⟨.triangleStrip, .fill, true, true⟩ .init 300).1.mpr (by decide),
    (outputBuffer_iff none 7 5 ⟨.triangleStrip, .fill, true, true⟩ .init 300).2.mpr (by decide)⟩

/-- A strip of `2 ^ 31` lines is given no space at all, and a buffer of one index more than `2 ^ 31` is
never reached. -/
theorem outputBuffer_wrapped :
    (maxOutputIndices32 .lineStrip .fill 0x80000001).toNat = 0 ∧
    (¬∃ fuel out, rewriteIndices32 none 0 0x80000001 ⟨.lineStrip, .fill, false, false⟩ fuel = some out ∧
      out.length ≤ (maxOutputIndices32 .lineStrip .fill 0x80000001).toNat) ∧
    ∀ fuel, ensureCapacity 0 0x80000001 fuel = none := by
  refine ⟨by decide, ?_, ?_⟩
  · intro h
    exact absurd ((rewriteIndices32_fits_iff none 0 0x80000001
      ⟨.lineStrip, .fill, false, false⟩).mp h) (by decide)
  · intro fuel
    exact growLoop_eq_none (by decide) fuel (.inr ⟨8, by decide, by decide, rfl⟩)

end DukeX.Nv2a
