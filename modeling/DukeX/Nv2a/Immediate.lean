import DukeX.Nv2a.DrawMethods

/-!
# Immediate mode

In immediate mode the guest sets the current values of the sixteen vertex attributes one by one, and
setting the position finishes a vertex: it takes the current value of every attribute.
-/

namespace DukeX.Nv2a

open Lib
open Function (update update_of_ne)

structure FloatOps (F : Type) where
  ofBits : UInt32 → F
  ofShort : UInt32 → F
  ofNormalizedShort : UInt32 → F
  ofByte : UInt32 → F
  ofByteDouble : UInt32 → F
  zero : F
  one : F

def Vec (F : Type) : Type := Fin 4 → F

structure VertexAttribute (F : Type) where
  inlineValue : Vec F
  inlineBuffer : Nat → Vec F
  inlineBufferPopulated : Bool

structure ImmediateState (F : Type) where
  vertexAttributes : Fin 16 → VertexAttribute F
  inlineBufferLength : Nat

def attrPosition : Fin 16 := 0
def attrWeight : Fin 16 := 1
def attrNormal : Fin 16 := 2
def attrDiffuse : Fin 16 := 3
def attrSpecular : Fin 16 := 4
def attrFog : Fin 16 := 5
def attrTexture (unit : Fin 4) : Fin 16 := ⟨9 + unit, by omega⟩

inductive AttributeMethod where
  | setVertex3F (slot : Fin 3)
  | setVertex4F (slot : Fin 4)
  | setFogCoord
  | setWeight1F
  | setWeight2F (slot : Fin 2)
  | setWeight3F (slot : Fin 3)
  | setWeight4F (slot : Fin 4)
  | setNormal3F (slot : Fin 3)
  | setNormal3S (slot : Fin 3)
  | setDiffuseColor3F (slot : Fin 3)
  | setDiffuseColor4F (slot : Fin 4)
  | setDiffuseColor4UB
  | setSpecularColor3F (slot : Fin 3)
  | setSpecularColor4F (slot : Fin 4)
  | setSpecularColor4UB
  | setTexcoord2F (unit : Fin 4) (slot : Fin 2)
  | setTexcoord4F (unit : Fin 4) (slot : Fin 4)
  | setTexcoord2S (unit : Fin 4)
  | setTexcoord4S (unit : Fin 4) (slot : Fin 2)
  | setVertexData2F (slot : Fin 32)
  | setVertexData4F (slot : Fin 64)
  | setVertexData2S (slot : Fin 16)
  | setVertexData4UB (slot : Fin 16)
  | setVertexData4S (slot : Fin 32)

namespace AttributeMethod

def attr : AttributeMethod → Fin 16
  | setVertex3F _ | setVertex4F _ => attrPosition
  | setFogCoord => attrFog
  | setWeight1F | setWeight2F _ | setWeight3F _ | setWeight4F _ => attrWeight
  | setNormal3F _ | setNormal3S _ => attrNormal
  | setDiffuseColor3F _ | setDiffuseColor4F _ | setDiffuseColor4UB => attrDiffuse
  | setSpecularColor3F _ | setSpecularColor4F _ | setSpecularColor4UB => attrSpecular
  | setTexcoord2F unit _ | setTexcoord4F unit _ | setTexcoord2S unit | setTexcoord4S unit _ =>
    attrTexture unit
  | setVertexData2F slot => ⟨slot / 2, by omega⟩
  | setVertexData4F slot => ⟨slot / 4, by omega⟩
  | setVertexData2S slot | setVertexData4UB slot => slot
  | setVertexData4S slot => ⟨slot / 2, by omega⟩

def finishes : AttributeMethod → Bool
  | setVertex3F slot => slot = 2
  | setVertex4F slot => slot = 3
  | setVertexData2F slot => slot.val / 2 = 0 ∧ slot.val % 2 = 1
  | setVertexData4F slot => slot.val / 4 = 0 ∧ slot.val % 4 = 3
  | setVertexData2S slot => slot = 0
  | setVertexData4UB slot => slot = 0
  | setVertexData4S slot => slot.val / 2 = 0 ∧ slot.val % 2 = 1
  | _ => false

section Write

variable {F : Type} (ops : FloatOps F)

def setF (slot : Fin 4) (parameter : UInt32) (value : Vec F) : Vec F :=
  update value slot (ops.ofBits parameter)

def set3F (slot : Fin 3) (parameter : UInt32) (value : Vec F) : Vec F :=
  update (setF ops slot.castSucc parameter value) 3 ops.one

def set2F (slot : Fin 2) (parameter : UInt32) (value : Vec F) : Vec F :=
  update (update (setF ops (slot.castLE (by decide)) parameter value) 2 ops.zero) 3
    ops.one

def set2S (parameter : UInt32) : Vec F :=
  ![ops.ofShort (parameter &&& 0xFFFF), ops.ofShort (parameter >>> 16), ops.zero, ops.one]

def setPart (part : Fin 2) (low high : F) (value : Vec F) : Vec F :=
  update (update value ⟨part * 2, by omega⟩ low) ⟨part * 2 + 1, by omega⟩ high

def set4S (part : Fin 2) (parameter : UInt32) (value : Vec F) : Vec F :=
  setPart part (ops.ofShort (parameter &&& 0xFFFF)) (ops.ofShort (parameter >>> 16)) value

def set4UB (ofByte : UInt32 → F) (parameter : UInt32) : Vec F :=
  ![ofByte (parameter &&& 0xFF), ofByte ((parameter >>> 8) &&& 0xFF),
    ofByte ((parameter >>> 16) &&& 0xFF), ofByte ((parameter >>> 24) &&& 0xFF)]

def write (parameter : UInt32) (value : Vec F) : AttributeMethod → Vec F
  | setVertex3F slot | setDiffuseColor3F slot | setSpecularColor3F slot | setWeight3F slot =>
    set3F ops slot parameter value
  | setVertex4F slot | setDiffuseColor4F slot | setSpecularColor4F slot | setWeight4F slot
  | setTexcoord4F _ slot => setF ops slot parameter value
  | setNormal3F slot => setF ops slot.castSucc parameter value
  | setFogCoord => fun _ => ops.ofBits parameter
  | setWeight1F => ![ops.ofBits parameter, ops.zero, ops.zero, ops.one]
  | setWeight2F slot | setTexcoord2F _ slot => set2F ops slot parameter value
  | setNormal3S slot =>
    setPart ⟨slot % 2, by omega⟩ (ops.ofNormalizedShort (parameter &&& 0xFFFF))
      (ops.ofNormalizedShort (parameter >>> 16)) value
  | setDiffuseColor4UB | setSpecularColor4UB => set4UB ops.ofByte parameter
  | setTexcoord2S _ | setVertexData2S _ => set2S ops parameter
  | setTexcoord4S _ slot => set4S ops slot parameter value
  | setVertexData2F slot => set2F ops ⟨slot % 2, by omega⟩ parameter value
  | setVertexData4F slot => setF ops ⟨slot % 4, by omega⟩ parameter value
  | setVertexData4UB _ => set4UB ops.ofByteDouble parameter
  | setVertexData4S slot => set4S ops ⟨slot % 2, by omega⟩ parameter value

end Write

end AttributeMethod

namespace ImmediateState

variable {F : Type}

def setAttribute (s : ImmediateState F) (attr : Fin 16) (a : VertexAttribute F) :
    ImmediateState F :=
  { s with vertexAttributes := update s.vertexAttributes attr a }

def allocateInlineBufferVertices (s : ImmediateState F) (attr : Fin 16) : ImmediateState F :=
  let a := s.vertexAttributes attr
  if a.inlineBufferPopulated || s.inlineBufferLength == 0 then s
  else s.setAttribute attr
    { a with
      inlineBufferPopulated := true
      inlineBuffer := fun i =>
        if i < s.inlineBufferLength then a.inlineValue else a.inlineBuffer i }

def finishInlineBufferVertex (s : ImmediateState F) : Option (ImmediateState F) :=
  if s.inlineBufferLength < nv2aMaxBatchLength then
    some
      { vertexAttributes := fun attr =>
          let a := s.vertexAttributes attr
          if a.inlineBufferPopulated then
            { a with
              inlineBuffer := update a.inlineBuffer s.inlineBufferLength
                a.inlineValue }
          else a
        inlineBufferLength := s.inlineBufferLength + 1 }
  else none

def step (ops : FloatOps F) (s : ImmediateState F) (m : AttributeMethod × UInt32) :
    Option (ImmediateState F) :=
  let s := s.allocateInlineBufferVertices m.1.attr
  let a := s.vertexAttributes m.1.attr
  let s := s.setAttribute m.1.attr
    { a with inlineValue := m.1.write ops m.2 a.inlineValue }
  if m.1.finishes then s.finishInlineBufferVertex else some s

def drawnValue (s : ImmediateState F) (attr : Fin 16) (i : Nat) : Vec F :=
  if (s.vertexAttributes attr).inlineBufferPopulated then (s.vertexAttributes attr).inlineBuffer i
  else (s.vertexAttributes attr).inlineValue

end ImmediateState

structure ImmediateSpec (F : Type) where
  current : Fin 16 → Vec F
  vertices : List (Fin 16 → Vec F)

namespace ImmediateSpec

variable {F : Type}

def step (ops : FloatOps F) (spec : ImmediateSpec F) (m : AttributeMethod × UInt32) : ImmediateSpec F :=
  let current := update spec.current m.1.attr (m.1.write ops m.2 (spec.current m.1.attr))
  { current, vertices := if m.1.finishes then spec.vertices ++ [current] else spec.vertices }

end ImmediateSpec

/-! ## The code refines it -/

section Refines

variable {F : Type} {ops : FloatOps F} {s s' : ImmediateState F} {spec : ImmediateSpec F}

open ImmediateState

/-- The current values are the same, and what is drawn is what the vertices were finished with. -/
structure ImmediateState.Refines (s : ImmediateState F) (spec : ImmediateSpec F) : Prop where
  length : s.inlineBufferLength = spec.vertices.length
  current : ∀ attr, (s.vertexAttributes attr).inlineValue = spec.current attr
  vertices : ∀ attr i vertex, spec.vertices[i]? = some vertex → s.drawnValue attr i = vertex attr

section

variable (h : Refines s spec)

include h

theorem ImmediateState.Refines.allocate (attr : Fin 16) :
    Refines (s.allocateInlineBufferVertices attr) spec ∧
      (((s.allocateInlineBufferVertices attr).vertexAttributes attr).inlineBufferPopulated = true ∨
        spec.vertices = []) := by
  rw [allocateInlineBufferVertices]
  by_cases hpopulated : (s.vertexAttributes attr).inlineBufferPopulated = true
  · simp_all
  · by_cases hzero : s.inlineBufferLength = 0
    · simp only [hzero, beq_self_eq_true, Bool.or_true, if_true]
      refine ⟨h, .inr (List.eq_nil_of_length_eq_zero ?_)⟩
      rw [← h.length, hzero]
    · have hcond : ¬((s.vertexAttributes attr).inlineBufferPopulated || s.inlineBufferLength == 0) =
          true := by
        simp [hpopulated, hzero]
      simp only [if_neg hcond, setAttribute, Function.update_self]
      refine ⟨⟨h.length, ?_, ?_⟩, .inl trivial⟩
      · intro other
        by_cases hother : other = attr
        · subst hother
          simpa using h.current other
        · simpa [update_of_ne hother] using h.current other
      · intro other i vertex hvertex
        have hdrawn := h.vertices other i vertex hvertex
        by_cases hother : other = attr
        · -- a vertex there is, so it is one of those filled in
          subst hother
          obtain ⟨hlt, -⟩ := List.getElem?_eq_some_iff.mp hvertex
          rw [← h.length] at hlt
          simpa [drawnValue, hpopulated, hlt] using hdrawn
        · simpa [drawnValue, update_of_ne hother] using hdrawn

theorem ImmediateState.Refines.setValue {attr : Fin 16} (value : Vec F)
    (hsafe : (s.vertexAttributes attr).inlineBufferPopulated = true ∨ spec.vertices = []) :
    Refines (s.setAttribute attr { s.vertexAttributes attr with inlineValue := value })
      { spec with current := update spec.current attr value } := by
  refine ⟨h.length, ?_, ?_⟩
  · intro other
    by_cases hother : other = attr
    · subst hother
      simp [setAttribute]
    · simpa [setAttribute, update_of_ne hother] using h.current other
  · intro other i vertex hvertex
    have hdrawn := h.vertices other i vertex hvertex
    by_cases hother : other = attr
    · subst hother
      obtain hpopulated | hnone := hsafe
      · simpa [drawnValue, setAttribute, hpopulated] using hdrawn
      · rw [hnone] at hvertex
        exact nomatch hvertex
    · simpa [drawnValue, setAttribute, update_of_ne hother] using hdrawn

theorem ImmediateState.Refines.finish (hs' : s.finishInlineBufferVertex = some s') :
    Refines s' { spec with vertices := spec.vertices ++ [spec.current] } := by
  rw [finishInlineBufferVertex, Option.ite_none_right_eq_some, Option.some.injEq] at hs'
  obtain ⟨-, rfl⟩ := hs'
  refine ⟨?_, ?_, ?_⟩
  · simp [h.length]
  · intro attr
    dsimp only
    split <;> exact h.current attr
  · intro attr i vertex hvertex
    have hcurrent := h.current attr
    by_cases hi : i < spec.vertices.length
    · -- an earlier vertex is left alone
      rw [List.getElem?_append_left hi] at hvertex
      have hdrawn := h.vertices attr i vertex hvertex
      have hne : i ≠ s.inlineBufferLength := by
        have := h.length
        omega
      by_cases hpopulated : (s.vertexAttributes attr).inlineBufferPopulated = true
      · simpa [drawnValue, hpopulated, update_of_ne hne] using hdrawn
      · simpa [drawnValue, hpopulated] using hdrawn
    · obtain ⟨hlt, hget⟩ := List.getElem?_eq_some_iff.mp hvertex
      have hlast : i = s.inlineBufferLength := by
        have := h.length
        grind
      have hvertex' : vertex = spec.current := by
        simp_all
      rw [hvertex', ← hcurrent]
      by_cases hpopulated : (s.vertexAttributes attr).inlineBufferPopulated = true
      · simp [drawnValue, hpopulated, hlast]
      · simp [drawnValue, hpopulated]

theorem ImmediateState.Refines.step {m : AttributeMethod × UInt32} (hs' : s.step ops m = some s') :
    Refines s' (spec.step ops m) := by
  obtain ⟨halloc, hsafe⟩ := h.allocate m.1.attr
  have hset := halloc.setValue (m.1.write ops m.2
    ((s.allocateInlineBufferVertices m.1.attr).vertexAttributes m.1.attr).inlineValue) hsafe
  rw [halloc.current] at hset
  rw [ImmediateState.step, halloc.current] at hs'
  rw [ImmediateSpec.step]
  by_cases hfinishes : m.1.finishes = true
  · rw [if_pos hfinishes] at hs' ⊢
    exact hset.finish hs'
  · simp_all

theorem ImmediateState.Refines.run {methods : List (AttributeMethod × UInt32)} {t : ImmediateState F}
    (hrun : methods.foldlM (ImmediateState.step ops) s = some t) :
    Refines t (methods.foldl (ImmediateSpec.step ops) spec) := by
  induction methods generalizing s spec with
  | nil => exact Option.some.inj hrun ▸ h
  | cons m methods ih =>
    obtain ⟨s', hs', hrun⟩ := run_cons.mp hrun
    exact ih (h.step hs') hrun

end

end Refines

def ImmediateSpec.begin {F : Type} (s : ImmediateState F) : ImmediateSpec F where
  current := fun attr => (s.vertexAttributes attr).inlineValue
  vertices := []

/-- **Immediate mode captures the right values.** From the beginning of a block, whatever is left in
the buffers, every vertex finished in it is drawn with the value each attribute had when it was
finished. -/
theorem drawnValue_eq {F : Type} (ops : FloatOps F) (s t : ImmediateState F)
    (hbegin : s.inlineBufferLength = 0) (methods : List (AttributeMethod × UInt32))
    (hrun : methods.foldlM (ImmediateState.step ops) s = some t) :
    t.inlineBufferLength = (methods.foldl (ImmediateSpec.step ops) (ImmediateSpec.begin s)).vertices.length ∧
      ∀ attr i vertex,
        (methods.foldl (ImmediateSpec.step ops) (ImmediateSpec.begin s)).vertices[i]? = some vertex →
          t.drawnValue attr i = vertex attr := by
  have hstart : s.Refines (ImmediateSpec.begin s) := ⟨hbegin, fun _ => rfl, nofun⟩
  have hend := hstart.run hrun
  exact ⟨hend.length, hend.vertices⟩

def rawBits : FloatOps UInt32 where
  ofBits := id
  ofShort := id
  ofNormalizedShort := id
  ofByte := id
  ofByteDouble := id
  zero := 0
  one := 0x3F800000

def colouredLine : List (AttributeMethod × UInt32) :=
  [(.setDiffuseColor4UB, 0xFF0000FF), (.setVertexData2S 0, 0x00010001), (.setDiffuseColor4UB, 0xFF00FF00),
    (.setVertexData2S 0, 0x00020002)]

theorem drawnValue_colouredLine :
    ∃ t, colouredLine.foldlM (ImmediateState.step rawBits) ⟨fun _ => ⟨fun _ => 0, fun _ _ => 7, false⟩, 0⟩ =
        some t ∧
      t.inlineBufferLength = 2 ∧ t.drawnValue attrDiffuse 0 0 = 0xFF ∧ t.drawnValue attrDiffuse 1 0 = 0 := by
  refine ⟨_, rfl, ?_⟩
  have h := drawnValue_eq rawBits ⟨fun _ => ⟨fun _ => 0, fun _ _ => 7, false⟩, 0⟩ _ rfl colouredLine rfl
  exact ⟨h.1, congrFun (h.2 attrDiffuse 0 _ rfl) 0, congrFun (h.2 attrDiffuse 1 _ rfl) 0⟩

end DukeX.Nv2a
