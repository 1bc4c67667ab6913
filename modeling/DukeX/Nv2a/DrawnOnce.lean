import DukeX.Nv2a.DrawMethods

/-!
# What a block draws

Every vertex a block submits is to be drawn once.
-/

namespace DukeX.Nv2a

open Lib DrawState

def DrawMethod.Submits : DrawMethod → Prop
  | .drawArrays _ _ | .arrayElement16 _ | .arrayElement32 _ => True
  | _ => False

def DrawMethod.submitted (block : Nat) : DrawMethod → List (Nat × UInt32)
  | .drawArrays parameter _ => (rangeOf parameter block).vertices
  | .arrayElement16 parameter => [(block, parameter &&& 0xFFFF), (block, parameter >>> 16)]
  | .arrayElement32 parameter => [(block, parameter)]
  | _ => []

def DrawMethod.blockAfter (block : Nat) : DrawMethod → Nat
  | .drawArrays _ true => block + 1
  | _ => block

def submitted : Nat → List DrawMethod → List (Nat × UInt32)
  | _, [] => []
  | block, m :: ms => m.submitted block ++ submitted (m.blockAfter block) ms

def DrawMethod.Lone (s : DrawState) : DrawMethod → Prop
  | .arrayElement16 _ | .arrayElement32 _ => s.drawArrays.length ≤ 1
  | _ => True

instance (s : DrawState) (m : DrawMethod) : Decidable (DrawMethod.Lone s m) :=
  match m with
  | .arrayElement16 _ | .arrayElement32 _ => inferInstanceAs (Decidable (s.drawArrays.length ≤ 1))
  | .setBeginEnd _ | .drawArrays _ _ | .inlineArray _ | .finishVertex | .other => .isTrue trivial

/-! ## What one method does -/

variable {s s' : DrawState}

namespace DrawState

def pending (s : DrawState) : List (Nat × UInt32) :=
  s.drawArrays.flatMap DrawRange.vertices ++ s.inlineElements

/-- What holds in a block. -/
structure InBlock (s : DrawState) : Prop where
  mode : s.primitiveMode ≠ .invalid
  kinds : s.drawArrays = [] ∨ s.inlineElements = []
  counts : ∀ range ∈ s.drawArrays, 0 < range.count
  connects : s.drawArraysPreventConnect = false →
    ∀ earlier last, s.drawArrays = earlier ++ [last] → last.block = s.block

theorem vertices_joined (last range : DrawRange) (hstart : range.start = last.start + last.count)
    (hblock : last.block = range.block) :
    ({ last with count := last.count + range.count } : DrawRange).vertices =
      last.vertices ++ range.vertices := by
  simp only [DrawRange.vertices, List.range_add, List.map_append, List.map_map, hblock, hstart]
  refine congrArg (_ ++ ·) (List.map_congr_left fun i _ => ?_)
  simp [Nat.add_assoc]

theorem vertices_ne_nil {range : DrawRange} (h : 0 < range.count) : range.vertices ≠ [] := by
  grind [length_vertices]

theorem count_rangeOf_pos (parameter : UInt32) (block : Nat) : 0 < (rangeOf parameter block).count :=
  Nat.succ_pos _

theorem InBlock.drawArraysMethod {parameter : UInt32} (hs : s.InBlock)
    (h : s.drawArraysMethod parameter = some s') :
    s'.InBlock ∧ s'.block = s.block ∧ s'.drawn = s.drawn ∧
      s'.pending = s.pending ++ (rangeOf parameter s.block).vertices := by
  obtain ⟨helements, -, rfl⟩ | ⟨helements, -, low, high, hranges⟩ := drawArraysMethod_cases h
  · have hranges : s.drawArrays = [] := hs.kinds.resolve_right helements
    refine ⟨⟨hs.mode, .inl hranges, hs.counts, hs.connects⟩, rfl, rfl, ?_⟩
    simp [pending, hranges]
  · obtain ⟨earlier, last, heq, hconnect, hstart, rfl⟩ | rfl := hranges
    · -- the last range is of this block, so its vertices and the new ones are the joined range's
      have hblock := hs.connects hconnect earlier last heq
      have hpositive := hs.counts last (heq ▸ List.mem_append_right earlier List.mem_cons_self)
      refine ⟨⟨hs.mode, .inr helements, ?_, ?_⟩, rfl, rfl, ?_⟩
      · intro range hrange
        obtain hrange | hrange := List.mem_append.mp hrange
        · exact hs.counts range (heq ▸ List.mem_append_left _ hrange)
        · simp_all
      · simp_all
      · simp only [pending, helements, heq, List.flatMap_append, List.flatMap_singleton,
          List.append_nil, List.append_assoc]
        rw [vertices_joined last (rangeOf parameter s.block) hstart hblock]
    · refine ⟨⟨hs.mode, .inr helements, ?_, ?_⟩, rfl, rfl, ?_⟩
      · intro range hrange
        obtain hrange | hrange := List.mem_append.mp hrange
        · exact hs.counts range hrange
        · grind [count_rangeOf_pos]
      · intro _ earlier' last' heq'
        obtain ⟨-, hlast⟩ := List.append_inj' heq' rfl
        rw [← List.cons.inj hlast |>.1]
        rfl
      · simp [pending, helements]

end DrawState

namespace DrawState

def total (s : DrawState) : Multiset (Nat × UInt32) := ↑s.drawn + ↑s.pending

theorem total_of_eq {s s' : DrawState} {more : List (Nat × UInt32)} (hdrawn : s'.drawn = s.drawn)
    (hpending : s'.pending = s.pending ++ more) : s'.total = s.total + ↑more := by
  rw [total, total, hdrawn, hpending, ← Multiset.coe_add, add_assoc]

theorem InBlock.expandPending (hs : s.InBlock) (h : s.expandPending = some s') :
    ∃ extra : List (Nat × UInt32), s'.InBlock ∧ s'.drawArrays = [] ∧ s'.block = s.block ∧
      s'.total = s.total + ↑extra ∧ (extra = [] ↔ s.drawArrays.length ≤ 1) := by
  rw [DrawState.expandPending] at h
  by_cases hranges : s.drawArrays ≠ []
  · rw [if_pos hranges] at h
    obtain ⟨last, hlast, h⟩ := Option.bind_eq_some_iff.mp h
    obtain ⟨earlier, hearlier⟩ := List.getLast?_eq_some_iff.mp hlast
    have helements : s.inlineElements = [] := hs.kinds.resolve_left hranges
    by_cases hmany : 1 < s.drawArrays.length
    · simp only [if_pos hmany, Option.ite_none_right_eq_some, Option.some.injEq] at h
      obtain ⟨-, rfl⟩ := h
      have hpositive := hs.counts last (hearlier ▸ List.mem_append_right earlier List.mem_cons_self)
      refine ⟨last.vertices, ⟨hs.mode, .inl rfl, (fun _ h => by cases h), ?_⟩, rfl, rfl, ?_, ?_⟩
      · intro _ earlier' last' heq
        exact absurd heq.symm (List.append_ne_nil_of_right_ne_nil _ (List.cons_ne_nil _ _))
      · simp [total, pending, resetDrawArrays, resetInlineBuffers, flushDraw, hranges, helements]
      · simp [vertices_ne_nil, hpositive, hmany]
    · simp only [if_neg hmany, Option.ite_none_right_eq_some, Option.some.injEq] at h
      obtain ⟨-, rfl⟩ := h
      refine ⟨[], ⟨hs.mode, .inl rfl, (fun _ h => by cases h), ?_⟩, rfl, rfl, ?_, by simp [Nat.le_of_not_lt hmany]⟩
      · intro _ earlier' last' heq
        exact absurd heq.symm (List.append_ne_nil_of_right_ne_nil _ (List.cons_ne_nil _ _))
      · have hnone : earlier = [] := by
          simp_all
        simp [total, pending, resetDrawArrays, helements, hearlier, hnone]
  · simp_all

theorem InBlock.arrayElements {indices : List UInt32} (hs : s.InBlock)
    (h : s.arrayElements indices = some s') :
    ∃ extra : List (Nat × UInt32), s'.InBlock ∧ s'.block = s.block ∧
      s'.total = s.total + ↑(indices.map fun index => (s.block, index)) + ↑extra ∧
      (extra = [] ↔ s.drawArrays.length ≤ 1) := by
  obtain ⟨s1, hs1, h⟩ := Option.bind_eq_some_iff.mp h
  obtain ⟨extra, hblock1, hranges, hblock, htotal, hextra⟩ := hs.expandPending hs1
  rw [Option.ite_none_right_eq_some, Option.some.injEq] at h
  obtain ⟨-, rfl⟩ := h
  refine ⟨extra, ⟨hblock1.mode, .inl hranges, hblock1.counts, hblock1.connects⟩, hblock, ?_, hextra⟩
  refine Eq.trans (@total_of_eq s1 _ (indices.map fun index => (s1.block, index)) rfl
    (by simp [pending])) ?_
  rw [htotal, hblock]
  exact add_right_comm _ _ _

/-- **One method**: what it submits is drawn or pending, and more only if it is one for indices that
finds several ranges. -/
theorem InBlock.step {m : DrawMethod} (hs : s.InBlock) (hm : m.Submits) (h : s.step m = some s') :
    ∃ extra : List (Nat × UInt32), s'.InBlock ∧ s'.block = m.blockAfter s.block ∧
      s'.total = s.total + ↑(m.submitted s.block) + ↑extra ∧ (extra = [] ↔ DrawMethod.Lone s m) := by
  cases m with
  | setBeginEnd _ | inlineArray _ | finishVertex | other => exact hm.elim
  | drawArrays parameter squashed =>
    obtain ⟨s1, hs1, h⟩ := Option.bind_eq_some_iff.mp h
    obtain ⟨hblock1, hblock, hdrawn, hpending⟩ := hs.drawArraysMethod hs1
    have htotal := total_of_eq hdrawn hpending
    cases squashed with
    | false =>
      obtain rfl := Option.some.inj h
      exact ⟨[], hblock1, hblock, by simp [htotal, DrawMethod.submitted], by simp [DrawMethod.Lone]⟩
    | true =>
      -- the next block begins, and its first range is not joined to these
      simp only [if_true, squash, Option.ite_none_right_eq_some, Option.some.injEq] at h
      obtain ⟨-, rfl⟩ := h
      refine ⟨[], ⟨hblock1.mode, hblock1.kinds, hblock1.counts, by simp⟩, ?_, ?_, by simp [DrawMethod.Lone]⟩
      · exact congrArg (· + 1) hblock
      · rw [DrawMethod.submitted, Multiset.coe_nil, add_zero, ← htotal]
        rfl
  | arrayElement16 parameter =>
    obtain ⟨extra, hblock1, hblock, htotal, hextra⟩ := hs.arrayElements h
    exact ⟨extra, hblock1, hblock, htotal, hextra⟩
  | arrayElement32 parameter =>
    obtain ⟨extra, hblock1, hblock, htotal, hextra⟩ := hs.arrayElements h
    exact ⟨extra, hblock1, hblock, htotal, hextra⟩

theorem InBlock.run {body : List DrawMethod} {s t : DrawState} (hs : s.InBlock)
    (hbody : ∀ m ∈ body, m.Submits) (hrun : body.foldlM DrawState.step s = some t) :
    ∃ extra : List (Nat × UInt32), t.InBlock ∧
      t.total = s.total + ↑(Nv2a.submitted s.block body) + ↑extra ∧
      (extra = [] ↔ Throughout DrawState.step DrawMethod.Lone body s) := by
  induction body generalizing s with
  | nil =>
    obtain rfl := Option.some.inj hrun
    exact ⟨[], hs, by simp [Nv2a.submitted], by simp [Throughout]⟩
  | cons m body ih =>
    obtain ⟨s1, hs1, hrun⟩ := run_cons.mp hrun
    obtain ⟨extra1, hblock1, hblock, htotal1, hextra1⟩ := hs.step (hbody m List.mem_cons_self) hs1
    obtain ⟨extra, ht, htotal, hextra⟩ := ih hblock1
      (fun m hm => hbody m (List.mem_cons_of_mem _ hm)) hrun
    refine ⟨extra1 ++ extra, ht, ?_, ?_⟩
    · rw [htotal, htotal1, hblock, Nv2a.submitted, ← Multiset.coe_add, ← Multiset.coe_add]
      abel
    · rw [List.append_eq_nil_iff, hextra1, hextra]
      constructor
      · rintro ⟨hlone, hrest⟩ s2 hs2
        grind
      · intro h
        exact h s1 hs1

end DrawState

theorem beginMode_ne_invalid {op : UInt32} {mode : ShaderPrimitiveMode} (h : beginMode op = some mode) :
    mode ≠ .invalid := by
  unfold beginMode at h
  split at h <;> cases h <;> decide

/-- **Every vertex is drawn once**, in its block: between a `BEGIN` and an `END`, with any number of
squashed blocks before, exactly if indices never come when several ranges are pending. -/
theorem drawn_once_iff {op : UInt32} {body : List DrawMethod} {s t : DrawState}
    (hmode : s.primitiveMode = .invalid) (hop : op ≠ 0) (hbody : ∀ m ∈ body, m.Submits)
    (hrun : (.setBeginEnd op :: (body ++ [.setBeginEnd 0])).foldlM DrawState.step s = some t) :
    (t.drawn : Multiset (Nat × UInt32)) = ↑s.drawn + ↑(submitted (s.block + 1) body) ↔
      ∀ s', s.step (.setBeginEnd op) = some s' → Throughout DrawState.step DrawMethod.Lone body s' := by
  obtain ⟨s₁, hs₁, hrun⟩ := run_cons.mp hrun
  obtain ⟨t₁, hrun, hend⟩ := run_append.mp hrun
  have hbegin : ∃ mode, beginMode op = some mode ∧
      s₁ = { s.resetInlineBuffers with primitiveMode := mode, block := s.block + 1 } := by
    simp only [DrawState.step, setBeginEnd, hop, if_false, hmode, ne_eq, not_true_eq_false] at hs₁
    obtain ⟨mode, hop, hs₁⟩ := Option.bind_eq_some_iff.mp hs₁
    exact ⟨mode, hop, (Option.some.inj hs₁).symm⟩
  obtain ⟨mode, hbeginMode, rfl⟩ := hbegin
  -- the block starts with nothing pending
  have hstart : InBlock { s.resetInlineBuffers with primitiveMode := mode, block := s.block + 1 } := by
    refine ⟨beginMode_ne_invalid hbeginMode, .inl rfl, (fun _ h => by cases h), ?_⟩
    intro _ earlier last heq
    exact absurd heq.symm (List.append_ne_nil_of_right_ne_nil _ (List.cons_ne_nil _ _))
  obtain ⟨extra, ht₁, htotal, hextra⟩ := hstart.run hbody hrun
  -- and ends with nothing pending
  have hdrawn : (t.drawn : Multiset (Nat × UInt32)) = t₁.total := by
    have hstep : t₁.step (.setBeginEnd 0) =
        some { t₁.flushDraw.resetInlineBuffers with primitiveMode := .invalid } := by
      simp [DrawState.step, setBeginEnd, ht₁.mode]
    rw [show [DrawMethod.setBeginEnd 0].foldlM DrawState.step t₁ = t₁.step (.setBeginEnd 0) by simp,
      hstep] at hend
    obtain rfl := Option.some.inj hend
    simp only [total, pending, resetInlineBuffers, resetDrawArrays, flushDraw, ← Multiset.coe_add]
    obtain hnil | hnil := ht₁.kinds
    · simp [hnil]
    · by_cases hranges : t₁.drawArrays = []
      · simp [hnil, hranges]
      · simp [hnil, hranges]
  have hsame : (t.drawn : Multiset (Nat × UInt32)) =
      ↑s.drawn + ↑(submitted (s.block + 1) body) + ↑extra := by
    rw [hdrawn, htotal]
    simp [total, pending, resetInlineBuffers, resetDrawArrays]
  rw [hsame, add_eq_left, Multiset.coe_eq_zero, hextra]
  simp_all

theorem drawn_once_expanded : ∃ t,
    [.setBeginEnd 5, .drawArrays 0x01000003 false, .arrayElement32 9, .setBeginEnd 0].foldlM
      DrawState.step DrawState.powerOn = some t ∧
    (t.drawn : Multiset (Nat × UInt32)) =
      ↑DrawState.powerOn.drawn + ↑(submitted 1 [.drawArrays 0x01000003 false, .arrayElement32 9]) := by
  have hrun : (.setBeginEnd 5 :: ([.drawArrays 0x01000003 false, .arrayElement32 9] ++
      [.setBeginEnd 0])).foldlM DrawState.step DrawState.powerOn =
        some { DrawState.powerOn.resetInlineBuffers with block := 1, drawn := [(1, 3), (1, 4), (1, 9)] } := by
    decide
  refine ⟨_, hrun, (drawn_once_iff rfl (by decide) ?_ hrun).mpr ?_⟩
  · intro m hm
    obtain rfl | rfl : m = .drawArrays 0x01000003 false ∨ m = .arrayElement32 9 := by simpa using hm
    · exact trivial
    · exact trivial
  · intro s' hs'
    obtain rfl := Option.some.inj hs'
    decide

/-- Two squashed blocks of one vertex each, and in the second an index after the range: its vertex is
drawn twice. -/
theorem drawn_twice : ∃ t,
    [.setBeginEnd 5, .drawArrays 0x00000003 true, .drawArrays 0x00000007 false, .arrayElement32 9,
      .setBeginEnd 0].foldlM DrawState.step DrawState.powerOn = some t ∧
    t.drawn = [(1, 3), (2, 7), (2, 7), (2, 9)] ∧
    submitted 1 [.drawArrays 0x00000003 true, .drawArrays 0x00000007 false, .arrayElement32 9] =
      [(1, 3), (2, 7), (2, 9)] :=
  ⟨{ DrawState.powerOn.resetInlineBuffers with block := 2, drawn := [(1, 3), (2, 7), (2, 7), (2, 9)] },
    by decide, rfl, by decide⟩

end DukeX.Nv2a
