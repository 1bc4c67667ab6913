import Mathlib

/-!
# Fetching samples

`voice_get_samples` of `hw/xbox/mcpx/apu/vp/vp.c` reads samples from the current offset of a voice
on, and moves the voice on when the offset reaches the end of its buffer or stream segment;
`voice_resample_callback` calls it until a frame is full.
-/

namespace DukeX.Apu

inductive SampleSize where
  | u8
  | s16
  | s24
  | s32

inductive ContainerSize where
  | b8
  | b16
  | adpcm
  | b32
  deriving DecidableEq

def ContainerSize.code : ContainerSize → Nat
  | .b8 => 0
  | .b16 => 1
  | .adpcm => 2
  | .b32 => 3

/-- What `voice_get_samples` reads and writes of a voice, and the two lists of its segments. -/
structure PlayingVoice where
  stereo : Bool
  sampleSize : SampleSize
  containerSize : ContainerSize
  samplesPerBlock : Nat
  stream : Bool
  loop : Bool
  paused : Bool
  persist : Bool
  active : Bool
  eacur : Nat
  cbo : Nat
  ebo : Nat
  lbo : Nat
  ba : Nat
  sslIndex : Bool
  sslSeg : Nat
  base : Bool → Nat
  count : Bool → Nat

def samplesPerFrame : Nat := 32

structure Segment where
  offset : Nat
  length : Nat

def Segment.len (s : Segment) : Nat := s.length % 2 ^ 16

/-- A call that stops at an assertion, that returns `-1`, or that returns the samples with these
indices. -/
inductive Fetch where
  | aborted
  | error (v : PlayingVoice)
  | samples (indices : List Nat) (ended : Bool) (v : PlayingVoice)

namespace PlayingVoice

def Matches (v : PlayingVoice) (s : Segment) : Prop :=
  s.offset ≠ 0 ∧ s.length ≠ 0 ∧ s.length / 2 ^ 16 % 4 = v.containerSize.code ∧
    s.length / 2 ^ 18 % 32 + 1 = v.samplesPerBlock ∧ (s.length / 2 ^ 23 % 2 = 1 ↔ v.stereo = true) ∧
    0 < s.len

instance (v : PlayingVoice) (s : Segment) : Decidable (v.Matches s) :=
  inferInstanceAs (Decidable (_ ∧ _ ∧ _ ∧ _ ∧ _ ∧ _))

def readable (v : PlayingVoice) (s : Segment) (i : Nat) : Bool :=
  v.containerSize != .adpcm || decide (i / 64 < s.len / 64)

def sampleLoop (readable : Nat → Bool) (ebo : Nat) : Nat → Nat → Option (List Nat × Nat)
  | 0, cbo => some ([], cbo)
  | requested + 1, cbo =>
    if cbo ≤ ebo then
      if readable cbo then
        (sampleLoop readable ebo requested (cbo + 1)).map fun r => (cbo :: r.1, r.2)
      else none
    else some ([], cbo)

def advance (v : PlayingVoice) : PlayingVoice :=
  if v.stream then
    if v.sslSeg + 1 < v.count v.sslIndex then { v with sslSeg := v.sslSeg + 1, cbo := 0 }
    else { v with sslIndex := !v.sslIndex, sslSeg := 0, cbo := 0 }
  else if v.loop then { v with cbo := v.lbo }
  else { v with cbo := v.ebo, active := false }

def fetch (v : PlayingVoice) (readable : Nat → Bool) (ebo requested : Nat) : Fetch :=
  match sampleLoop readable ebo requested v.cbo with
  | none => .aborted
  | some (indices, cbo) =>
    if ebo ≤ cbo then .samples indices true v.advance
    else .samples indices false { v with cbo := cbo }

def segment (segments : Nat → Segment) (v : PlayingVoice) : Segment :=
  segments (v.base v.sslIndex + v.sslSeg)

def voiceGetSamples (segments : Nat → Segment) (requested : Nat) (v : PlayingVoice) : Fetch :=
  if v.paused then .error v
  else if v.stream then
    if v.persist = false ∧ v.eacur < 6 then .error { v with active := false }
    else if v.loop then .aborted
    else if v.count v.sslIndex = 0 then
      if v.persist then .error { v with cbo := 0, sslSeg := 0 }
      else .error { v with cbo := 0, sslSeg := 0, sslIndex := false, active := false }
    else if v.Matches (v.segment segments) then
      v.fetch (v.readable (v.segment segments)) ((v.segment segments).len - 1) requested
    else .aborted
  else v.fetch (fun _ => true) v.ebo requested

/-- The loop of `voice_resample_callback`; `some none` is an assertion. -/
def resampleLoop (segments : Nat → Segment) :
    Nat → Nat → PlayingVoice → Option (Option PlayingVoice)
  | 0, _, _ => none
  | fuel + 1, sampleCount, v =>
    if sampleCount < samplesPerFrame ∧ v.active = true then
      match v.voiceGetSamples segments (samplesPerFrame - sampleCount) with
      | .aborted => some none
      | .error v => some (some v)
      | .samples indices _ v => resampleLoop segments fuel (sampleCount + indices.length) v
    else some (some v)

variable {segments : Nat → Segment} {v : PlayingVoice} {readable : Nat → Bool} {ebo cbo n : Nat}

theorem voiceGetSamples_buffer (hpaused : v.paused = false) (hstream : v.stream = false) :
    v.voiceGetSamples segments n = v.fetch (fun _ => true) v.ebo n := by
  rw [voiceGetSamples, if_neg (Bool.not_eq_true _ ▸ hpaused), if_neg (Bool.not_eq_true _ ▸ hstream)]

theorem voiceGetSamples_cases (segments : Nat → Segment) (v : PlayingVoice) (n : Nat) :
    v.voiceGetSamples segments n = .aborted ∨
    (∃ w, v.voiceGetSamples segments n = .error w) ∨
    ∃ readable ebo, v.voiceGetSamples segments n = v.fetch readable ebo n ∧
      (v.stream = false → ebo = v.ebo) := by
  unfold voiceGetSamples
  split_ifs with _ hstream
  · exact .inr (.inl ⟨_, rfl⟩)
  · exact .inr (.inl ⟨_, rfl⟩)
  · exact .inl rfl
  · exact .inr (.inl ⟨_, rfl⟩)
  · exact .inr (.inl ⟨_, rfl⟩)
  · exact .inr (.inr ⟨_, _, rfl, fun h => Bool.noConfusion (h.symm.trans hstream)⟩)
  · exact .inl rfl
  · exact .inr (.inr ⟨_, _, rfl, fun _ => rfl⟩)

theorem sampleLoop_eq (h : ∀ i, cbo ≤ i → i < cbo + n → i ≤ ebo → readable i = true) :
    sampleLoop readable ebo n cbo =
      some (List.range' cbo (min n (ebo + 1 - cbo)), cbo + min n (ebo + 1 - cbo)) := by
  induction n generalizing cbo with
  | zero => simp [sampleLoop]
  | succ n ih =>
    by_cases hcbo : cbo ≤ ebo
    · have hmin : min (n + 1) (ebo + 1 - cbo) = min n (ebo + 1 - (cbo + 1)) + 1 := by omega
      rw [sampleLoop, if_pos hcbo, if_pos (h cbo (Nat.le_refl _) (by omega) hcbo),
        ih fun i hle hlt => h i (by omega) (by omega), hmin, List.range'_succ, Option.map_some]
      congr 2
      omega
    · rw [sampleLoop, if_neg hcbo, show min (n + 1) (ebo + 1 - cbo) = 0 by omega]
      rfl

theorem sampleLoop_eq_none {i : Nat} (hfrom : cbo ≤ i) (hlt : i < cbo + n) (hle : i ≤ ebo)
    (hi : readable i = false) : sampleLoop readable ebo n cbo = none := by
  induction n generalizing cbo with
  | zero => omega
  | succ n ih =>
    rw [sampleLoop, if_pos (hfrom.trans hle)]
    obtain rfl | hnext := hfrom.eq_or_lt
    · rw [if_neg (Bool.not_eq_true _ ▸ hi)]
    · rw [ih hnext (by omega), Option.map_none, ite_self]

/-! ## A segment -/

def lastIndex (segments : Nat → Segment) (v : PlayingVoice) : Nat :=
  if v.stream then (v.segment segments).len - 1 else v.ebo

/-- A sample of a buffer can be read, one of a stream segment in ADPCM only if its block of 64
samples lies in the segment. -/
def playable (segments : Nat → Segment) (v : PlayingVoice) (i : Nat) : Bool :=
  !v.stream || v.readable (v.segment segments) i

/-- The voice is at a sample of a segment, or a buffer, that can be played. -/
structure InSegment (segments : Nat → Segment) (v : PlayingVoice) : Prop where
  running : v.paused = false
  inside : v.cbo ≤ v.lastIndex segments
  streaming : v.stream = true → (v.persist = true ∨ 6 ≤ v.eacur) ∧ v.loop = false ∧
    v.count v.sslIndex ≠ 0 ∧ v.Matches (v.segment segments)

/-- The samples successive calls return until one leaves the segment, if one does; `none` is an
assertion. -/
def playSegment (segments : Nat → Segment) : List Nat → PlayingVoice → Option (Option (List Nat))
  | [], _ => some none
  | requested :: requests, v =>
    match v.voiceGetSamples segments requested with
    | .samples indices true _ => some (some indices)
    | .samples indices false v =>
      (playSegment segments requests v).map (Option.map (indices ++ ·))
    | .aborted | .error _ => none

theorem InSegment.call (h : v.InSegment segments) :
    v.voiceGetSamples segments n = v.fetch (v.playable segments) (v.lastIndex segments) n := by
  by_cases hstream : v.stream = true
  · obtain ⟨hrelease, hloop, hcount, hmatches⟩ := h.streaming hstream
    have hplayable : v.playable segments = v.readable (v.segment segments) := by
      funext i
      rw [playable, hstream, Bool.not_true, Bool.false_or]
    rw [voiceGetSamples, if_neg (Bool.not_eq_true _ ▸ h.running), if_pos hstream, if_neg,
      if_neg (Bool.not_eq_true _ ▸ hloop), if_neg hcount, if_pos hmatches, lastIndex,
      if_pos hstream, hplayable]
    rintro ⟨hpersist, heacur⟩
    exact hrelease.elim (fun hp => Bool.noConfusion (hpersist.symm.trans hp))
      (Nat.not_le_of_lt heacur)
  · have hbuffer := Bool.eq_false_of_not_eq_true hstream
    have hplayable : v.playable segments = fun _ => true := by
      funext i
      rw [playable, hbuffer, Bool.not_false, Bool.true_or]
    rw [voiceGetSamples_buffer h.running hbuffer, lastIndex, if_neg hstream, hplayable]

/-- The samples the next `n` requested ones can be of are all there. -/
def Covers (segments : Nat → Segment) (v : PlayingVoice) (n : Nat) : Prop :=
  ∀ i, v.cbo ≤ i → i < v.cbo + n → i ≤ v.lastIndex segments → v.playable segments i = true

theorem InSegment.fetched (h : v.InSegment segments) (hcovers : v.Covers segments n) :
    v.voiceGetSamples segments n = if v.lastIndex segments ≤ v.cbo + n then
      .samples (List.range' v.cbo (min n (v.lastIndex segments + 1 - v.cbo))) true v.advance
    else .samples (List.range' v.cbo n) false { v with cbo := v.cbo + n } := by
  have hinside := h.inside
  rw [h.call, fetch, sampleLoop_eq hcovers]
  dsimp only
  by_cases hend : v.lastIndex segments ≤ v.cbo + n
  · rw [if_pos hend, if_pos (by omega)]
  · rw [if_neg hend, if_neg (by omega), Nat.min_eq_left (by omega)]

theorem InSegment.aborted (h : v.InSegment segments) (hcovers : ¬ v.Covers segments n) :
    v.voiceGetSamples segments n = .aborted := by
  simp only [Covers, not_forall] at hcovers
  obtain ⟨i, hfrom, hlt, hle, hi⟩ := hcovers
  rw [h.call, fetch, sampleLoop_eq_none hfrom hlt hle (Bool.eq_false_of_not_eq_true hi)]

theorem InSegment.moved (h : v.InSegment segments) (hn : v.cbo + n ≤ v.lastIndex segments) :
    InSegment segments { v with cbo := v.cbo + n } := ⟨h.running, hn, h.streaming⟩

theorem covers_add {m : Nat} : v.Covers segments (n + m) ↔
    v.Covers segments n ∧ Covers segments { v with cbo := v.cbo + n } m := by
  refine ⟨fun h => ⟨fun i hfrom hlt => h i hfrom (by omega), fun i hfrom hlt => ?_⟩, ?_⟩
  · dsimp only at hfrom hlt
    exact h i (by omega) (by omega)
  · rintro ⟨hfirst, hrest⟩ i hfrom hlt hle
    by_cases hi : i < v.cbo + n
    · exact hfirst i hfrom hi hle
    · refine hrest i (Nat.le_of_not_lt hi) ?_ hle
      dsimp only
      omega

/-- No first requests add up to one sample less than the segment has left. -/
def Clears (segments : Nat → Segment) (v : PlayingVoice) (requests : List Nat) : Prop :=
  ∀ p, p <+: requests → p ≠ [] → p.sum ≠ v.lastIndex segments - v.cbo

theorem clears_cons {requests : List Nat} : v.Clears segments (n :: requests) ↔
    n ≠ v.lastIndex segments - v.cbo ∧
      ∀ q, q <+: requests → q ≠ [] → n + q.sum ≠ v.lastIndex segments - v.cbo := by
  constructor
  · intro h
    refine ⟨fun hn => ?_, fun q hq _ => ?_⟩
    · refine h [n] (List.cons_prefix_cons.mpr ⟨rfl, List.nil_prefix⟩) (List.cons_ne_nil _ _) ?_
      rw [List.sum_singleton, hn]
    · rw [← List.sum_cons]
      exact h (n :: q) (List.cons_prefix_cons.mpr ⟨rfl, hq⟩) (List.cons_ne_nil _ _)
  · rintro ⟨hn, hrest⟩ p hp hne
    cases p with
    | nil => exact absurd rfl hne
    | cons m q =>
      obtain ⟨rfl, hq⟩ := List.cons_prefix_cons.mp hp
      rw [List.sum_cons]
      by_cases hnil : q = []
      · rwa [hnil, List.sum_nil]
      · exact hrest q hq hnil

theorem clears_moved {requests : List Nat} (hn : v.cbo + n < v.lastIndex segments) :
    v.Clears segments (n :: requests) ↔ Clears segments { v with cbo := v.cbo + n } requests := by
  rw [clears_cons]
  have hlast : lastIndex segments { v with cbo := v.cbo + n } = v.lastIndex segments := rfl
  constructor
  · rintro ⟨-, h⟩ q hq hne
    have := h q hq hne
    rw [hlast]
    dsimp only
    omega
  · intro h
    refine ⟨by omega, fun q hq hne => ?_⟩
    have := h q hq hne
    rw [hlast] at this
    dsimp only at this
    omega

def plainBuffer (loop : Bool) (cbo ebo lbo : Nat) : PlayingVoice where
  stereo := false
  sampleSize := .u8
  containerSize := .b8
  samplesPerBlock := 1
  stream := false
  loop := loop
  paused := false
  persist := true
  active := true
  eacur := 0
  cbo := cbo
  ebo := ebo
  lbo := lbo
  ba := 0
  sslIndex := false
  sslSeg := 0
  base _ := 0
  count _ := 0

theorem inSegment_plainBuffer (segments : Nat → Segment) (loop : Bool) (lbo : Nat) (h : cbo ≤ ebo) :
    InSegment segments (plainBuffer loop cbo ebo lbo) :=
  ⟨rfl, h, fun hstream => Bool.noConfusion hstream⟩

/-- A looping buffer whose loop starts behind its end, and that ends in this frame. -/
def Stuck (v : PlayingVoice) (sampleCount : Nat) : Prop :=
  v.active = true ∧ v.paused = false ∧ v.stream = false ∧ v.loop = true ∧ v.ebo < v.lbo ∧
    sampleCount + (v.ebo + 1 - v.cbo) < samplesPerFrame

theorem buffer_fetched (hpaused : v.paused = false) (hstream : v.stream = false) :
    v.voiceGetSamples segments n = if v.ebo ≤ v.cbo + min n (v.ebo + 1 - v.cbo) then
      .samples (List.range' v.cbo (min n (v.ebo + 1 - v.cbo))) true v.advance
    else .samples (List.range' v.cbo (min n (v.ebo + 1 - v.cbo))) false
      { v with cbo := v.cbo + min n (v.ebo + 1 - v.cbo) } := by
  rw [voiceGetSamples_buffer hpaused hstream, fetch, sampleLoop_eq fun _ _ _ _ => rfl]

theorem Stuck.forever {sampleCount : Nat} (h : v.Stuck sampleCount) (fuel : Nat) :
    resampleLoop segments fuel sampleCount v = none := by
  induction fuel generalizing v sampleCount with
  | zero => rfl
  | succ fuel ih =>
    obtain ⟨hactive, hpaused, hstream, hloop, hlbo, hroom⟩ := h
    have hmin : min (samplesPerFrame - sampleCount) (v.ebo + 1 - v.cbo) = v.ebo + 1 - v.cbo := by omega
    have hadvance : v.advance = { v with cbo := v.lbo } := by
      simp [advance, hstream, hloop]
    rw [resampleLoop, if_pos ⟨by omega, hactive⟩, buffer_fetched hpaused hstream, hmin,
      if_pos (by omega), hadvance]
    refine ih ⟨hactive, hpaused, hstream, hloop, hlbo, ?_⟩
    rw [List.length_range']
    show sampleCount + (v.ebo + 1 - v.cbo) + (v.ebo + 1 - v.lbo) < samplesPerFrame
    omega

variable {ended : Bool} {w : PlayingVoice}

theorem samples_nil (h : v.voiceGetSamples segments (n + 1) = .samples [] ended w) :
    w = v.advance ∧ 0 < v.cbo ∧ (v.stream = false → v.ebo < v.cbo) := by
  obtain hcall | ⟨_, hcall⟩ | ⟨readable, ebo, hcall, hebo⟩ :=
    voiceGetSamples_cases segments v (n + 1) <;> rw [hcall] at h
  · cases h
  · cases h
  by_cases hcbo : v.cbo ≤ ebo
  · rw [fetch, sampleLoop, if_pos hcbo] at h
    cases hreadable : readable v.cbo <;> cases hloop : sampleLoop readable ebo n (v.cbo + 1) <;> grind
  · rw [fetch, sampleLoop, if_neg hcbo] at h
    dsimp only at h
    rw [if_pos (by omega)] at h
    exact ⟨(Fetch.samples.inj h).2.2.symm, by omega, fun hbuffer => hebo hbuffer ▸ Nat.lt_of_not_le hcbo⟩

theorem samples_same {indices : List Nat}
    (h : v.voiceGetSamples segments n = .samples indices ended w) :
    w.stream = v.stream ∧ w.loop = v.loop ∧ w.lbo = v.lbo ∧ w.ebo = v.ebo := by
  obtain hcall | ⟨_, hcall⟩ | ⟨readable, ebo, hcall, -⟩ :=
    voiceGetSamples_cases segments v n <;> rw [hcall] at h
  · cases h
  · cases h
  rw [fetch] at h
  split at h
  · cases h
  · split_ifs at h
    · obtain ⟨-, -, rfl⟩ := Fetch.samples.inj h
      unfold advance
      split_ifs <;> exact ⟨rfl, rfl, rfl, rfl⟩
    · obtain ⟨-, -, rfl⟩ := Fetch.samples.inj h
      exact ⟨rfl, rfl, rfl, rfl⟩

def Ready (v : PlayingVoice) : Prop :=
  (v.stream = true ∧ v.cbo = 0) ∨ (v.stream = false ∧ v.cbo ≤ v.ebo)

instance : Decidable v.Ready := inferInstanceAs (Decidable (_ ∨ _))

theorem ready_advance (hloop : v.stream = false → v.loop = true → v.lbo ≤ v.ebo)
    (hactive : v.advance.active = true) : v.advance.Ready := by
  unfold advance at hactive ⊢
  split_ifs with hstream _ hlooping
  · exact .inl ⟨hstream, rfl⟩
  · exact .inl ⟨hstream, rfl⟩
  · have hbuffer := Bool.eq_false_of_not_eq_true hstream
    exact .inr ⟨hbuffer, hloop hbuffer hlooping⟩
  · rw [if_neg hstream, if_neg hlooping] at hactive
    cases hactive

theorem resampleLoop_ends (hloop : v.stream = false → v.loop = true → v.lbo ≤ v.ebo) (sampleCount : Nat) :
    ∃ fuel, resampleLoop segments fuel sampleCount v ≠ none := by
  -- a call without samples makes the voice ready, and a ready voice returns some
  induction hμ : 2 * (samplesPerFrame - sampleCount) + (if v.Ready then 0 else 1)
    using Nat.strong_induction_on generalizing v sampleCount with
  | _ μ ih =>
    by_cases hrun : sampleCount < samplesPerFrame ∧ v.active = true
    · obtain ⟨n, hn⟩ := Nat.exists_eq_succ_of_ne_zero (Nat.sub_ne_zero_of_lt hrun.1)
      cases hcall : v.voiceGetSamples segments (n + 1) with
      | aborted | error w => exact ⟨1, by simp [resampleLoop, hrun, hn, hcall]⟩
      | samples indices ended w =>
        obtain ⟨hstream, hlooping, hlbo, hebo⟩ := samples_same hcall
        rw [← hstream, ← hlooping, ← hlbo, ← hebo] at hloop
        cases hactive : w.active with
        | false => exact ⟨2, by simp [resampleLoop, hrun, hn, hcall, hactive]⟩
        | true =>
          have hless : 2 * (samplesPerFrame - (sampleCount + indices.length)) +
              (if w.Ready then 0 else 1) < μ := by
            cases indices with
            | cons i indices =>
              rw [← hμ, List.length_cons]
              split_ifs <;> omega
            | nil =>
              obtain ⟨rfl, hpos, hbehind⟩ := samples_nil hcall
              have hunready : ¬v.Ready := by
                rintro (⟨-, hzero⟩ | ⟨hbuffer, hle⟩)
                · omega
                · exact Nat.not_le_of_lt (hbehind hbuffer) hle
              rw [hstream, hlooping, hlbo, hebo] at hloop
              rw [← hμ, if_neg hunready, if_pos (ready_advance hloop hactive)]
              exact Nat.lt_succ_self _
          obtain ⟨fuel, hfuel⟩ := ih _ hless hloop (sampleCount + indices.length) rfl
          refine ⟨fuel + 1, ?_⟩
          rw [resampleLoop, if_pos hrun, hn, hcall]
          exact hfuel
    · exact ⟨1, by simp [resampleLoop, hrun]⟩

/-- **A frame is filled** exactly when no voice is stuck behind the end of its buffer. -/
theorem resampleLoop_ends_iff (segments : Nat → Segment) (v : PlayingVoice) :
    (∃ fuel, resampleLoop segments fuel 0 v ≠ none) ↔ ¬v.Stuck 0 := by
  refine ⟨fun hends hstuck => hends.elim fun fuel hfuel => hfuel (hstuck.forever fuel), fun h => ?_⟩
  by_cases hwedged : v.active = true ∧ v.paused = false ∧ v.stream = false ∧ v.loop = true ∧ v.ebo < v.lbo
  · -- the first call fills the frame
    obtain ⟨hactive, hpaused, hstream, hloop, hlbo⟩ := hwedged
    have hroom : ¬0 + (v.ebo + 1 - v.cbo) < samplesPerFrame :=
      fun hroom => h ⟨hactive, hpaused, hstream, hloop, hlbo, hroom⟩
    refine ⟨2, ?_⟩
    have hmin : min (samplesPerFrame - 0) (v.ebo + 1 - v.cbo) = samplesPerFrame := by omega
    rw [resampleLoop, if_pos ⟨by decide, hactive⟩, buffer_fetched hpaused hstream, hmin]
    split_ifs <;> simp [resampleLoop]
  · by_cases hends : v.active = true ∧ v.paused = false
    · refine resampleLoop_ends (fun hstream hloop => ?_) 0
      exact Nat.le_of_not_lt fun hlbo => hwedged ⟨hends.1, hends.2, hstream, hloop, hlbo⟩
    · refine ⟨1, ?_⟩
      rw [resampleLoop]
      split_ifs with hrun
      · have hpaused : v.paused = true := by
          by_contra hpaused
          exact hends ⟨hrun.2, Bool.eq_false_of_not_eq_true hpaused⟩
        simp [voiceGetSamples, hpaused]
      · exact Option.some_ne_none _

theorem resampleLoop_ends_plain :
    ∃ fuel, resampleLoop (fun _ => ⟨0, 0⟩) fuel 0 (plainBuffer true 0 3 0) ≠ none :=
  (resampleLoop_ends_iff (fun _ => ⟨0, 0⟩) (plainBuffer true 0 3 0)).mpr (by simp [Stuck, plainBuffer])

/-- A loop that starts at sample 5 of a buffer that ends at sample 3. -/
theorem resampleLoop_forever :
    ¬∃ fuel, resampleLoop (fun _ => ⟨0, 0⟩) fuel 0 (plainBuffer true 0 3 5) ≠ none := by
  rintro ⟨fuel, hends⟩
  exact hends (Stuck.forever ⟨rfl, rfl, rfl, rfl, by decide, by decide⟩ fuel)

/-! ## The bytes of a sample -/

structure PageTable where
  entry : Nat → Nat
  aligned : ∀ i, entry i % 4096 = 0
  entry_lt : ∀ i, entry i < 2 ^ 32

def getDataPtr (t : PageTable) (addr : Nat) : Nat := (t.entry (addr / 4096) + addr % 4096) % 2 ^ 32

def containerBytes (v : PlayingVoice) : Nat :=
  match v.containerSize with
  | .b8 => 1
  | .b16 => 2
  | .adpcm => 0
  | .b32 => 4

def loadBytes (v : PlayingVoice) : Nat :=
  match v.sampleSize with
  | .u8 => 1
  | .s16 => 2
  | .s24 | .s32 => 4

def channels (v : PlayingVoice) : Nat := if v.stereo then 2 else 1

def linearAddr (v : PlayingVoice) (cbo : Nat) : Nat :=
  (v.ba + cbo * (v.containerBytes * v.samplesPerBlock)) % 2 ^ 32

/-- The physical address byte `b` of a channel is loaded from. -/
def byteAddr (t : PageTable) (v : PlayingVoice) (cbo channel b : Nat) : Nat :=
  getDataPtr t (v.linearAddr cbo) + channel * v.containerBytes + b

/-- Each byte of the frame comes from its linear address, translated by the entry of its own page. -/
def HonoursPages (t : PageTable) (v : PlayingVoice) (cbo : Nat) : Prop :=
  ∀ channel < v.channels, ∀ b < v.loadBytes, byteAddr t v cbo channel b =
    getDataPtr t ((v.linearAddr cbo + channel * v.containerBytes + b) % 2 ^ 32)

def span (v : PlayingVoice) : Nat := (v.channels - 1) * v.containerBytes + v.loadBytes

theorem span_le (v : PlayingVoice) : 1 ≤ v.loadBytes ∧ v.span ≤ 8 := by
  unfold span channels containerBytes loadBytes
  cases v.sampleSize <;> cases v.containerSize <;> cases v.stereo <;> decide

theorem getDataPtr_eq (t : PageTable) (a : Nat) :
    getDataPtr t a = t.entry (a / 4096) + a % 4096 := by
  have haligned := t.aligned (a / 4096)
  have hlt := t.entry_lt (a / 4096)
  rw [getDataPtr, Nat.mod_eq_of_lt (by omega)]

/-- **The page table is honoured** exactly when the frame lies in one page, or its two pages lie one
behind the other in physical memory as well. -/
theorem honoursPages_iff (t : PageTable) (v : PlayingVoice) (cbo : Nat) : v.HonoursPages t cbo ↔
    v.linearAddr cbo % 4096 + v.span ≤ 4096 ∨
      t.entry ((v.linearAddr cbo / 4096 + 1) % 2 ^ 20) = t.entry (v.linearAddr cbo / 4096) + 4096 := by
  obtain ⟨hload, hspan⟩ := v.span_le
  have hlinear : v.linearAddr cbo < 2 ^ 32 := Nat.mod_lt _ (by decide)
  have hbyte (channel b : Nat) : byteAddr t v cbo channel b = t.entry (v.linearAddr cbo / 4096) +
      v.linearAddr cbo % 4096 + (channel * v.containerBytes + b) := by
    rw [byteAddr, getDataPtr_eq, Nat.add_assoc _ _ b]
  unfold HonoursPages
  generalize v.linearAddr cbo = linear at *
  -- byte `j` of the frame, in the first page and in the second
  have hsame {j : Nat} (hj : linear % 4096 + j < 4096) :
      getDataPtr t ((linear + j) % 2 ^ 32) = t.entry (linear / 4096) + linear % 4096 + j := by
    rw [getDataPtr_eq, show (linear + j) % 2 ^ 32 / 4096 = linear / 4096 by omega]
    omega
  have hnext {j : Nat} (hj : 4096 ≤ linear % 4096 + j) (hle : j ≤ 8) :
      getDataPtr t ((linear + j) % 2 ^ 32) =
        t.entry ((linear / 4096 + 1) % 2 ^ 20) + (linear % 4096 + j - 4096) := by
    rw [getDataPtr_eq, show (linear + j) % 2 ^ 32 / 4096 = (linear / 4096 + 1) % 2 ^ 20 by omega]
    omega
  constructor
  · intro h
    by_cases hin : linear % 4096 + v.span ≤ 4096
    · exact .inl hin
    · -- the last byte is in the second page
      have hlast := h (v.channels - 1) (by unfold channels; split <;> decide) (v.loadBytes - 1) (by omega)
      rw [hbyte, Nat.add_assoc linear] at hlast
      have hspan_eq : (v.channels - 1) * v.containerBytes + (v.loadBytes - 1) = v.span - 1 := by
        unfold span
        omega
      rw [hspan_eq, hnext (by omega) (by omega)] at hlast
      right
      omega
  · intro h channel hchannel b hb
    have hle : channel * v.containerBytes + b < v.span := by
      have := Nat.mul_le_mul_right v.containerBytes (Nat.le_sub_one_of_lt hchannel)
      unfold span
      omega
    rw [hbyte, Nat.add_assoc linear]
    by_cases hin : linear % 4096 + (channel * v.containerBytes + b) < 4096
    · rw [hsame hin]
    · rw [hnext (by omega) (by omega)]
      omega

def swappedPages : PageTable where
  entry i := if i = 0 then 4096 else 0
  aligned i := by split <;> rfl
  entry_lt i := by split <;> decide

theorem honoursPages_first : HonoursPages swappedPages (plainBuffer false 0 3 0) 0 :=
  (honoursPages_iff swappedPages (plainBuffer false 0 3 0) 0).mpr (by decide)

/-- A 16-bit sample at an odd base address, across the first page boundary. -/
theorem pages_ignored :
    ¬HonoursPages swappedPages { plainBuffer false 0 2047 0 with sampleSize := .s16, containerSize := .b16, ba := 1 }
      2047 := by
  intro h
  exact absurd (h 0 (by decide) 1 (by decide)) (by decide)

end PlayingVoice

end DukeX.Apu
