import DukeX.Apu.VoiceWork

/-!
# Parallel and sequential mixing

When spreading the voices of a frame over workers gives the mix of processing them in order.
-/

namespace DukeX.Apu

open Function (update update_of_ne update_self)

section

variable (hrtfSubmix : Fin 4 → Fin 32)

/-! ## What a voice adds -/

variable {v : Voice} {s s' : Sched} {numWorkers : Nat}

section

variable {G : Type} [AddCommGroup G]

def outputs (v : Voice) (out : Fin 8 → G) : Mixbins G :=
  fun i => ∑ b, if v.bin hrtfSubmix b = i then out b else 0

theorem foldl_update_add (bin : Fin 8 → Fin 32) (out : Fin 8 → G) (l : List (Fin 8))
    (mixbins : Mixbins G) :
    l.foldl (fun m b => update m (bin b) (m (bin b) + out b)) mixbins =
      mixbins + fun i => (l.map fun b => if bin b = i then out b else 0).sum := by
  induction l generalizing mixbins with
  | nil => exact (add_zero mixbins).symm
  | cons b l ih =>
    rw [List.foldl_cons, ih]
    funext i
    simp only [Pi.add_apply, List.map_cons, List.sum_cons]
    by_cases hi : bin b = i
    · subst hi
      rw [update_self, if_pos rfl, add_assoc]
    · rw [update_of_ne (Ne.symm hi), if_neg hi, zero_add]

def delta (sound : Nat → G → Fin 8 → G) (v : Voice) (x : G) : Mixbins G :=
  if v.paused then 0
  else if v.multipass then outputs hrtfSubmix v (sound v.number x) - Pi.single multipassBin x
  else outputs hrtfSubmix v (sound v.number 0)

def Voice.Regular (v : Voice) : Prop :=
  v.multipass = true → v.mpBin = multipassBin ∧ v.clearMix = true

theorem voiceProcess_eq (sound : Nat → G → Fin 8 → G) (hv : v.Regular) (mixbins : Mixbins G) :
    voiceProcess hrtfSubmix sound mixbins v =
      mixbins + delta hrtfSubmix sound v (mixbins multipassBin) := by
  have hsum (out : Fin 8 → G) : (fun i => ((List.finRange 8).map fun b =>
      if v.bin hrtfSubmix b = i then out b else 0).sum) = outputs hrtfSubmix v out := by
    funext i
    rw [outputs, Fin.sum_univ_def]
  rw [voiceProcess, delta]
  split
  · exact (add_zero mixbins).symm
  · dsimp only
    rw [foldl_update_add, hsum]
    cases hm : v.multipass with
    | false => rfl
    | true =>
      obtain ⟨hbin, hclear⟩ := hv hm
      rw [hbin, hclear]
      simp only [if_true, Bool.and_self]
      have hupdate : update mixbins multipassBin 0 =
          mixbins - Pi.single multipassBin (mixbins multipassBin) := by
        funext i
        by_cases hi : i = multipassBin
        · subst hi
          rw [update_self, Pi.sub_apply, Pi.single_eq_same, sub_self]
        · rw [update_of_ne hi, Pi.sub_apply, Pi.single_eq_of_ne hi, sub_zero]
      rw [hupdate]
      abel

theorem delta_congr (sound : Nat → G → Fin 8 → G)
    (hv : v.multipass = true → v.paused = true) (x y : G) :
    delta hrtfSubmix sound v x = delta hrtfSubmix sound v y := by
  rw [delta, delta]
  split
  · rfl
  case isFalse hp =>
    split
    case isTrue hm => exact absurd (hv hm) hp
    case isFalse => rfl

def Voice.feeds (v : Voice) : Bool :=
  (List.finRange 8).any fun b => v.bin hrtfSubmix b == multipassBin

theorem outputs_of_not_feeds (hv : v.feeds hrtfSubmix = false) (out : Fin 8 → G) :
    outputs hrtfSubmix v out multipassBin = 0 := by
  rw [outputs]
  apply Finset.sum_eq_zero
  intro b _
  rw [if_neg]
  intro hb
  have hany := List.any_eq_false.mp hv b (List.mem_finRange b)
  exact hany (beq_iff_eq.mpr hb)

end

theorem getLsbD_foldl_or (bin : Fin 8 → Fin 32) (l : List (Fin 8)) (dst : BitVec 32) :
    (l.foldl (fun dst b => dst ||| BitVec.twoPow 32 (bin b)) dst).getLsbD 31 =
      (dst.getLsbD 31 || l.any fun b => bin b == multipassBin) := by
  induction l generalizing dst with
  | nil => exact (Bool.or_false _).symm
  | cons b l ih =>
    rw [List.foldl_cons, ih, BitVec.getLsbD_or, List.any_cons, Bool.or_assoc]
    congr 2
    rw [BitVec.getLsbD_twoPow]
    rw [Bool.eq_iff_iff]
    simp only [Bool.and_eq_true, decide_eq_true_eq, beq_iff_eq]
    constructor
    · intro h
      exact Fin.ext h.2
    · intro h
      rw [h]
      decide

theorem and_mask_ne_zero_iff (x : BitVec 32) :
    x &&& multipassBinMask ≠ 0 ↔ x.getLsbD 31 = true := by
  rw [multipassBinMask, BitVec.and_twoPow]
  split
  case isTrue h => exact ⟨fun _ => h, fun _ => by decide⟩
  case isFalse h => exact ⟨fun hne => absurd rfl hne, fun h' => absurd h' h⟩

theorem twoPow_ne_zero (k : Fin 32) : BitVec.twoPow 32 k ≠ 0 := by
  revert k
  decide

theorem twoPow_inj (k : Fin 32) (h : BitVec.twoPow 32 k = multipassBinMask) : k = multipassBin := by
  revert k
  decide

/-! ## The course of the scheduler -/

/-- What the scheduler's choices rest on. -/
structure Lane where
  turn : Nat
  group : Bool
  dirty : Bool
  deriving DecidableEq, Repr

def Lane.init : Lane := ⟨0, false, false⟩

def Lane.step (l : Lane) (v : Voice) : Lane :=
  let group := !v.multipass && (l.group || (v.feeds hrtfSubmix && !l.dirty))
  { turn := if group then l.turn else l.turn + 1
    group := group
    dirty := (!v.multipass && l.dirty) || v.feeds hrtfSubmix }

def lane (queue : List Voice) : Lane := queue.foldl (Lane.step hrtfSubmix) .init

theorem lane_append (queue more : List Voice) :
    lane hrtfSubmix (queue ++ more) = more.foldl (Lane.step hrtfSubmix) (lane hrtfSubmix queue) := by
  rw [lane, List.foldl_append, lane]

structure Sched.Follows (numWorkers : Nat) (s : Sched) (l : Lane) : Prop where
  worker : s.nextWorkerToSchedule = l.turn % numWorkers
  group : s.group = l.group
  dirty : s.dirty.getLsbD 31 = l.dirty

theorem Sched.assign_group (numWorkers : Nat) (s : Sched) (v : Voice) (m : BinMasks) :
    (s.assign numWorkers v m).group =
      (!m.clr.getLsbD 31 && (s.group || (m.dst.getLsbD 31 && !s.dirty.getLsbD 31))) := by
  have hclr := and_mask_ne_zero_iff m.clr
  have hdst := and_mask_ne_zero_iff (m.dst &&& ~~~s.dirty)
  rw [BitVec.and_assoc, BitVec.and_comm (~~~s.dirty), ← BitVec.and_assoc, BitVec.getLsbD_and,
    BitVec.getLsbD_not] at hdst
  change (if m.clr &&& multipassBinMask ≠ 0 then false
    else if m.dst &&& multipassBinMask &&& ~~~s.dirty ≠ 0 then true else s.group) = _
  by_cases hc : m.clr.getLsbD 31 = true
  · rw [if_pos (hclr.mpr hc), hc]
    rfl
  · rw [if_neg (fun h => hc (hclr.mp h)), Bool.eq_false_of_not_eq_true hc]
    by_cases hd : (m.dst.getLsbD 31 && !s.dirty.getLsbD 31) = true
    · rw [if_pos (hdst.mpr hd), hd, Bool.or_true]
      rfl
    · rw [if_neg (fun h => hd (hdst.mp h)), Bool.eq_false_of_not_eq_true hd, Bool.or_false]
      rfl

theorem Sched.Asserts.regular (h : s.Asserts (getVoiceBinSrcDst hrtfSubmix v)) : v.Regular := by
  intro hm
  obtain ⟨hsrc, hclr, _⟩ := h
  rw [getVoiceBinSrcDst] at hsrc hclr
  simp only [hm, if_true, Bool.true_and] at hsrc hclr
  have hne := twoPow_ne_zero v.mpBin
  refine ⟨twoPow_inj _ (hsrc.resolve_left hne), ?_⟩
  cases hc : v.clearMix with
  | true => rfl
  | false =>
    rw [hc] at hclr
    cases hclr.resolve_left hne

theorem dst_getLsbD (v : Voice) :
    (getVoiceBinSrcDst hrtfSubmix v).dst.getLsbD 31 = v.feeds hrtfSubmix := by
  rw [getVoiceBinSrcDst]
  dsimp only
  rw [getLsbD_foldl_or]
  rfl

theorem clr_getLsbD (hv : v.Regular) :
    (getVoiceBinSrcDst hrtfSubmix v).clr.getLsbD 31 = v.multipass := by
  rw [getVoiceBinSrcDst]
  dsimp only
  cases hm : v.multipass with
  | false =>
    rw [Bool.false_and, if_neg Bool.false_ne_true]
    rfl
  | true =>
    obtain ⟨hbin, hclear⟩ := hv hm
    rw [hbin, hclear]
    rfl

theorem Sched.step_follows {l : Lane}
    (hs : s.Follows numWorkers l) (h : s.step hrtfSubmix numWorkers v = some s') :
    v.Regular ∧ s'.Follows numWorkers (l.step hrtfSubmix v) ∧
      s'.queues = update s.queues (l.turn % numWorkers)
        (s.queues (l.turn % numWorkers) ++ [v]) := by
  rw [Sched.step] at h
  split at h
  case isFalse => cases h
  case isTrue hassert =>
  cases h
  have hregular := hassert.regular
  have hdst := dst_getLsbD hrtfSubmix v
  have hclr := clr_getLsbD hrtfSubmix hregular
  have hgroup := s.assign_group numWorkers v (getVoiceBinSrcDst hrtfSubmix v)
  rw [hclr, hdst, hs.group, hs.dirty] at hgroup
  refine ⟨hregular, ⟨?_, hgroup, ?_⟩, hs.worker ▸ rfl⟩
  · change (if (s.assign numWorkers v _).group then s.nextWorkerToSchedule
      else (s.nextWorkerToSchedule + 1) % numWorkers) = _
    rw [hgroup, hs.worker, Lane.step]
    dsimp only
    split
    · rfl
    · exact Nat.mod_add_mod _ _ _
  · change ((s.dirty &&& ~~~_) ||| _).getLsbD 31 = _
    rw [BitVec.getLsbD_or, BitVec.getLsbD_and, BitVec.getLsbD_not, hdst, hclr, hs.dirty, Lane.step]
    exact congrArg (· || v.feeds hrtfSubmix) (Bool.and_comm _ _)

def share (numWorkers w : Nat) : Lane → List Voice → List Voice
  | _, [] => []
  | l, v :: queue =>
    if l.turn % numWorkers = w then v :: share numWorkers w (l.step hrtfSubmix v) queue
    else share numWorkers w (l.step hrtfSubmix v) queue

theorem share_append (numWorkers w : Nat) (l : Lane) (queue more : List Voice) :
    share hrtfSubmix numWorkers w l (queue ++ more) = share hrtfSubmix numWorkers w l queue ++
      share hrtfSubmix numWorkers w (queue.foldl (Lane.step hrtfSubmix) l) more := by
  induction queue generalizing l with
  | nil => rfl
  | cons v queue ih =>
    rw [List.cons_append, share, share, ih]
    split
    · rfl
    · rfl

theorem share_subset (numWorkers w : Nat) (l : Lane) (queue : List Voice) :
    (share hrtfSubmix numWorkers w l queue).Sublist queue := by
  induction queue generalizing l with
  | nil => exact .slnil
  | cons v queue ih =>
    rw [share]
    split
    · exact (ih _).cons_cons v
    · exact (ih _).cons v

theorem foldlM_step_share (queue : List Voice) {l : Lane} (hs : s.Follows numWorkers l)
    (h : queue.foldlM (Sched.step hrtfSubmix numWorkers) s = some s') :
    (∀ v ∈ queue, v.Regular) ∧
      ∀ w, s'.queues w = s.queues w ++ share hrtfSubmix numWorkers w l queue := by
  induction queue generalizing s l with
  | nil =>
    cases h
    exact ⟨fun v hv => absurd hv List.not_mem_nil, fun w => (List.append_nil _).symm⟩
  | cons v queue ih =>
    rw [List.foldlM_cons] at h
    obtain ⟨s1, hstep, hrest⟩ := Option.bind_eq_some_iff.mp h
    obtain ⟨hv, hs1, hqueues⟩ := s.step_follows hrtfSubmix hs hstep
    obtain ⟨hregular, hshare⟩ := ih hs1 hrest
    refine ⟨List.forall_mem_cons.mpr ⟨hv, hregular⟩, fun w => ?_⟩
    rw [hshare, hqueues, share]
    by_cases hw : l.turn % numWorkers = w
    · rw [if_pos hw, hw, update_self, List.append_assoc]
      rfl
    · rw [if_neg hw, update_of_ne (Ne.symm hw)]

theorem voiceWorkSchedule_share {queue : List Voice}
    (h : voiceWorkSchedule hrtfSubmix numWorkers queue = some s) :
    (∀ v ∈ queue, v.Regular) ∧
      ∀ w, s.queues w = share hrtfSubmix numWorkers w .init queue :=
  foldlM_step_share hrtfSubmix queue ⟨(Nat.zero_mod _).symm, rfl, rfl⟩ h

end

end DukeX.Apu
