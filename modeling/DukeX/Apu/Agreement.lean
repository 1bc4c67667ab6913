import DukeX.Apu.Scheduling

/-!
# Which queues are mixed alike

A voice that feeds the multipass bin is kept, with what it fed, for the next multipass voice that is
not paused.
-/

namespace DukeX.Apu

section

variable (hrtfSubmix : Fin 4 → Fin 32)

structure Source (queue before : List Voice) (p : Voice) (between : List Voice) : Prop where
  queue_eq : queue = before ++ p :: between
  unpaused : p.paused = false
  feeds : p.feeds hrtfSubmix = true
  unread : ∀ v ∈ between, v.multipass = true → v.paused = true

def lastMultipass (queue : List Voice) : Option Voice := queue.reverse.find? Voice.multipass

structure Kept (before : List Voice) (p : Voice) (between : List Voice) : Prop where
  single : p.multipass = false
  grouped : ∀ v ∈ between, v.multipass = false
  emptied : (lastMultipass before).any (Voice.feeds hrtfSubmix) = false

def Coherent (queue : List Voice) : Prop :=
  ∀ pre c after, queue = pre ++ c :: after → c.multipass = true → c.paused = false →
    ∀ before p between, Source hrtfSubmix pre before p between → Kept hrtfSubmix before p between

/-! ## Where the scheduler parts voices -/

theorem lastMultipass_concat (queue : List Voice) (v : Voice) :
    lastMultipass (queue ++ [v]) = if v.multipass then some v else lastMultipass queue := by
  grind [lastMultipass]

theorem lane_dirty_and_not_group (queue : List Voice) :
    ((lane hrtfSubmix queue).dirty && !(lane hrtfSubmix queue).group) =
      (lastMultipass queue).any (Voice.feeds hrtfSubmix) := by
  induction queue using List.reverseRecOn with
  | nil => rfl
  | append_singleton queue v ih =>
    rw [lane_append, lastMultipass_concat, List.foldl_cons, List.foldl_nil, Lane.step]
    grind

theorem Lane.turn_le_step (l : Lane) (v : Voice) : l.turn ≤ (l.step hrtfSubmix v).turn := by
  rw [Lane.step]
  grind

theorem Lane.turn_le_foldl (l : Lane) (queue : List Voice) :
    l.turn ≤ (queue.foldl (Lane.step hrtfSubmix) l).turn := by
  induction queue generalizing l with
  | nil => exact le_rfl
  | cons v queue ih => exact (l.turn_le_step hrtfSubmix v).trans (ih _)

theorem Lane.turn_foldl_le (l : Lane) (queue : List Voice) :
    (queue.foldl (Lane.step hrtfSubmix) l).turn ≤ l.turn + queue.length := by
  induction queue generalizing l with
  | nil => exact le_rfl
  | cons v queue ih =>
    have hstep : (l.step hrtfSubmix v).turn ≤ l.turn + 1 := by
      rw [Lane.step]
      grind
    grind

variable {l : Lane}

theorem Lane.turn_lt_step {v : Voice} (h : (l.step hrtfSubmix v).group = false) :
    l.turn < (l.step hrtfSubmix v).turn := by
  change l.turn < if (l.step hrtfSubmix v).group then l.turn else l.turn + 1
  simp_all

theorem Lane.step_group_of_multipass (l : Lane) {v : Voice} (hv : v.multipass = true) :
    (l.step hrtfSubmix v).group = false := by
  rw [Lane.step, hv]
  rfl

theorem Lane.foldl_of_group (hl : l.group = true) {queue : List Voice}
    (h : ∀ v ∈ queue, v.multipass = false) :
    (queue.foldl (Lane.step hrtfSubmix) l).turn = l.turn := by
  induction queue generalizing l with
  | nil => rfl
  | cons v queue ih =>
    obtain ⟨hv, hqueue⟩ := List.forall_mem_cons.mp h
    have hgroup : (l.step hrtfSubmix v).group = true := by
      rw [Lane.step, hv, hl]
      rfl
    rw [List.foldl_cons, ih hgroup hqueue]
    change (if (l.step hrtfSubmix v).group then l.turn else l.turn + 1) = l.turn
    rw [hgroup, if_pos rfl]

variable {p : Voice}

theorem Lane.step_group (hp : p.multipass = false)
    (hfeeds : p.feeds hrtfSubmix = true) :
      (l.step hrtfSubmix p).group = !(l.dirty && !l.group) := by
  grind [Lane.step]

theorem Kept.turn_eq {before between : List Voice} (h : Kept hrtfSubmix before p between)
    (hfeeds : p.feeds hrtfSubmix = true) :
    (lane hrtfSubmix (before ++ p :: between)).turn = (lane hrtfSubmix before).turn := by
  have hgroup : ((lane hrtfSubmix before).step hrtfSubmix p).group = true := by
    rw [Lane.step_group hrtfSubmix h.single hfeeds, lane_dirty_and_not_group, h.emptied]
    rfl
  rw [lane_append, List.foldl_cons, Lane.foldl_of_group hrtfSubmix hgroup h.grouped]
  change (if ((lane hrtfSubmix before).step hrtfSubmix p).group then _ else _) = _
  rw [hgroup, if_pos rfl]

theorem turn_lt_of_not_kept {before between : List Voice}
    (hfeeds : p.feeds hrtfSubmix = true) (h : ¬ Kept hrtfSubmix before p between) :
    (lane hrtfSubmix before).turn < (lane hrtfSubmix (before ++ p :: between)).turn := by
  rw [lane_append, List.foldl_cons]
  generalize hl : lane hrtfSubmix before = l
  have hle := l.turn_le_step hrtfSubmix p
  by_cases hgroup : (l.step hrtfSubmix p).group = true
  · -- The source opened or joined a group, so a multipass voice closed it.
    have hsingle : p.multipass = false := by
      by_contra hp
      rw [Lane.step_group_of_multipass hrtfSubmix l (Bool.eq_true_of_not_eq_false hp)] at hgroup
      cases hgroup
    have hemptied : (lastMultipass before).any (Voice.feeds hrtfSubmix) = false := by
      rw [← lane_dirty_and_not_group, hl]
      rw [Lane.step_group hrtfSubmix hsingle hfeeds] at hgroup
      exact Bool.not_eq_true' _ ▸ hgroup
    have hclosed : ∃ v ∈ between, v.multipass = true := by
      by_contra hnone
      push Not at hnone
      exact h ⟨hsingle, fun v hv => Bool.eq_false_of_not_eq_true (hnone v hv), hemptied⟩
    obtain ⟨v, hv, hmulti⟩ := hclosed
    obtain ⟨xs, ys, rfl⟩ := List.append_of_mem hv
    rw [List.foldl_append, List.foldl_cons]
    have hxs := (l.step hrtfSubmix p).turn_le_foldl hrtfSubmix xs
    have hv' := Lane.turn_lt_step hrtfSubmix (Lane.step_group_of_multipass hrtfSubmix
      (xs.foldl (Lane.step hrtfSubmix) (l.step hrtfSubmix p)) hmulti)
    grind [Lane.turn_le_foldl]
  · have hlt := Lane.turn_lt_step hrtfSubmix (Bool.eq_false_of_not_eq_true hgroup)
    exact hlt.trans_le (Lane.turn_le_foldl hrtfSubmix _ between)

/-! ## Mixing on one worker and on several -/

section

variable {G : Type} [AddCommGroup G]

theorem mix_append (sound : Nat → G → Fin 8 → G) (queue more : List Voice) :
    mix hrtfSubmix sound (queue ++ more) =
      more.foldl (voiceProcess hrtfSubmix sound) (mix hrtfSubmix sound queue) := by
  rw [mix, List.foldl_append, mix]

theorem mix_concat (sound : Nat → G → Fin 8 → G) (queue : List Voice) {v : Voice} (hv : v.Regular) :
    mix hrtfSubmix sound (queue ++ [v]) = mix hrtfSubmix sound queue +
      delta hrtfSubmix sound v (mix hrtfSubmix sound queue multipassBin) := by
  rw [mix_append, List.foldl_cons, List.foldl_nil, voiceProcess_eq hrtfSubmix sound hv]

theorem share_concat (numWorkers w : Nat) (queue : List Voice) (v : Voice) :
    share hrtfSubmix numWorkers w .init (queue ++ [v]) =
      share hrtfSubmix numWorkers w .init queue ++
        if (lane hrtfSubmix queue).turn % numWorkers = w then [v] else [] := by
  rw [share_append]
  rfl

variable {queue : List Voice}

theorem Source.concat {before between : List Voice} {p v : Voice}
    (h : Source hrtfSubmix queue before p between) (hv : v.multipass = true → v.paused = true) :
    Source hrtfSubmix (queue ++ [v]) before p (between ++ [v]) where
  queue_eq := by rw [h.queue_eq, List.append_assoc, List.cons_append]
  unpaused := h.unpaused
  feeds := h.feeds
  unread u hu := by
    cases List.mem_append.mp hu with
    | inl hu => exact h.unread u hu
    | inr hu =>
      rw [List.mem_singleton.mp hu]
      exact hv

theorem Coherent.of_concat {v : Voice} (h : Coherent hrtfSubmix (queue ++ [v])) :
    Coherent hrtfSubmix queue := by
  intro pre c after hqueue
  refine h pre c (after ++ [v]) ?_
  rw [hqueue, List.append_assoc, List.cons_append]

theorem delta_multipassBin (sound : Nat → G → Fin 8 → G) (v : Voice) (x : G) :
    x + delta hrtfSubmix sound v x multipassBin ≠ 0 →
      (x ≠ 0 ∧ (v.multipass = true → v.paused = true)) ∨
        (v.paused = false ∧ v.feeds hrtfSubmix = true) := by
  intro h
  rw [delta] at h
  cases hp : v.paused with
  | true =>
    simp_all
  | false =>
    rw [hp, if_neg Bool.false_ne_true] at h
    cases hf : v.feeds hrtfSubmix with
    | true => exact .inr ⟨rfl, rfl⟩
    | false =>
      cases hm : v.multipass with
      | true =>
        rw [hm, if_pos rfl, Pi.sub_apply, outputs_of_not_feeds hrtfSubmix hf, Pi.single_eq_same,
          zero_sub, add_neg_cancel] at h
        exact absurd rfl h
      | false =>
        rw [hm, if_neg Bool.false_ne_true, outputs_of_not_feeds hrtfSubmix hf, add_zero] at h
        exact .inl ⟨h, fun hf => absurd hf Bool.false_ne_true⟩

theorem source_of_ne_zero (sound : Nat → G → Fin 8 → G) (numWorkers w : Nat)
    (hregular : ∀ v ∈ queue, v.Regular) (hcoherent : Coherent hrtfSubmix queue)
    (h : mix hrtfSubmix sound (share hrtfSubmix numWorkers w .init queue) multipassBin ≠ 0) :
    ∃ before p between, Source hrtfSubmix queue before p between ∧
      (lane hrtfSubmix before).turn % numWorkers = w := by
  induction queue using List.reverseRecOn with
  | nil => exact absurd rfl h
  | append_singleton queue v ih =>
    have hv : v.Regular := hregular v (List.mem_append_right _ List.mem_cons_self)
    have hprev := ih (fun u hu => hregular u (List.mem_append_left _ hu)) hcoherent.of_concat
    rw [share_concat] at h
    split at h
    case isTrue hw =>
      rw [mix_concat hrtfSubmix sound _ hv, Pi.add_apply] at h
      cases delta_multipassBin hrtfSubmix sound v _ h with
      | inl hleft =>
        obtain ⟨before, p, between, hsource, hturn⟩ := hprev hleft.1
        exact ⟨before, p, between ++ [v], hsource.concat hrtfSubmix hleft.2, hturn⟩
      | inr hfed => exact ⟨queue, v, [], ⟨rfl, hfed.1, hfed.2, fun u hu => absurd hu
          List.not_mem_nil⟩, hw⟩
    case isFalse hw =>
      rw [List.append_nil] at h
      obtain ⟨before, p, between, hsource, hturn⟩ := hprev h
      refine ⟨before, p, between ++ [v], hsource.concat hrtfSubmix ?_, hturn⟩
      -- A voice that empties the bin elsewhere would have had the source on its own worker.
      intro hm
      by_contra hp
      have hkept := hcoherent queue v [] rfl hm (Bool.eq_false_of_not_eq_true hp) before p between
        hsource
      have hsame := hkept.turn_eq hrtfSubmix hsource.feeds
      rw [← hsource.queue_eq] at hsame
      exact hw (hsame ▸ hturn)

theorem sum_update {n w : Nat} (hw : w < n) (f g : Nat → Mixbins G) (d : Mixbins G)
    (hself : g w = f w + d) (hother : ∀ u, u ≠ w → g u = f u) :
    ∑ u ∈ Finset.range n, g u = ∑ u ∈ Finset.range n, f u + d := by
  rw [← Finset.add_sum_erase _ f (Finset.mem_range.mpr hw),
    ← Finset.add_sum_erase _ g (Finset.mem_range.mpr hw), hself,
    Finset.sum_congr rfl fun u hu => hother u (Finset.ne_of_mem_erase hu)]
  exact add_right_comm _ _ _

variable {numWorkers : Nat}

theorem sum_mix_share (sound : Nat → G → Fin 8 → G) (hn : 0 < numWorkers)
    (hregular : ∀ v ∈ queue, v.Regular) (hcoherent : Coherent hrtfSubmix queue) :
    ∑ w ∈ Finset.range numWorkers,
      mix hrtfSubmix sound (share hrtfSubmix numWorkers w .init queue) =
      mix hrtfSubmix sound queue := by
  induction queue using List.reverseRecOn with
  | nil => exact Finset.sum_const_zero
  | append_singleton queue v ih =>
    have hv : v.Regular := hregular v (List.mem_append_right _ List.mem_cons_self)
    have hregular' : ∀ u ∈ queue, u.Regular := fun u hu => hregular u (List.mem_append_left _ hu)
    have hprev := ih hregular' hcoherent.of_concat
    generalize hw : (lane hrtfSubmix queue).turn % numWorkers = w
    have hlt : w < numWorkers := hw ▸ Nat.mod_lt _ hn
    have hdelta : delta hrtfSubmix sound v
          (mix hrtfSubmix sound (share hrtfSubmix numWorkers w .init queue) multipassBin) =
        delta hrtfSubmix sound v (mix hrtfSubmix sound queue multipassBin) := by
      by_cases hreads : v.multipass = true ∧ v.paused = false
      case neg =>
        refine delta_congr hrtfSubmix sound (fun hm => ?_) _ _
        exact Bool.eq_true_of_not_eq_false fun hp => hreads ⟨hm, hp⟩
      case pos =>
        -- Every other worker's bin is empty, so this one holds all that was fed.
        obtain ⟨hm, hp⟩ := hreads
        rw [← hprev, Finset.sum_apply, Finset.sum_eq_single w]
        · intro u _ hu
          by_contra hne
          obtain ⟨before, p, between, hsource, hturn⟩ :=
            source_of_ne_zero hrtfSubmix sound numWorkers u hregular' hcoherent.of_concat hne
          have hkept := hcoherent queue v [] rfl hm hp before p between hsource
          have hsame := hkept.turn_eq hrtfSubmix hsource.feeds
          rw [← hsource.queue_eq] at hsame
          rw [hsame, hturn] at hw
          exact hu hw
        · simp_all
    rw [mix_concat hrtfSubmix sound queue hv, ← hdelta, ← hprev]
    apply sum_update hlt
    · rw [share_concat, if_pos hw, mix_concat hrtfSubmix sound _ hv]
    · intro u hu
      rw [share_concat, hw, if_neg (Ne.symm hu), List.append_nil]

theorem voiceWorkDispatch_eq_sum (sound : Nat → G → Fin 8 → G) (s : Sched)
    {order : List Nat} (horder : order.Perm (List.range numWorkers)) :
    voiceWorkDispatch hrtfSubmix sound s order =
      ∑ w ∈ Finset.range numWorkers, mix hrtfSubmix sound (s.queues w) := by
  have hfold (l : List Nat) (m : Mixbins G) :
      l.foldl (fun m w => m + mix hrtfSubmix sound (s.queues w)) m =
        m + (l.map fun w => mix hrtfSubmix sound (s.queues w)).sum := by
    induction l generalizing m with
    | nil => exact (add_zero m).symm
    | cons w l ih => rw [List.foldl_cons, ih, List.map_cons, List.sum_cons, add_assoc]
  rw [voiceWorkDispatch, hfold, zero_add, (horder.map _).sum_eq]
  rfl

end

/-! ## Hearing a source that was left behind -/

/-- The sounds that tell. -/
def tell (p c : Nat) (b : Fin 8) : Nat → ℤ → Fin 8 → ℤ := fun v x o =>
  if v = p then if o = b then 1 else 0 else if v = c then 0 else if o = 0 then x else 0

theorem outputs_zero (v : Voice) : outputs hrtfSubmix v (fun _ => (0 : ℤ)) = 0 := by
  funext i
  simp [outputs]

theorem outputs_single (v : Voice) (b : Fin 8) (x : ℤ) :
    outputs hrtfSubmix v (fun o => if o = b then x else 0) = Pi.single (v.bin hrtfSubmix b) x := by
  funext i
  rw [outputs, Finset.sum_eq_single b]
  · grind
  · intro o _ ho
    rw [if_neg ho, ite_self]
  · intro h
    exact absurd (Finset.mem_univ b) h

section

variable {p c : Nat} {b : Fin 8}

theorem tell_silent {v : Nat} (hv : v ≠ p) : tell p c b v 0 = fun _ => 0 := by
  funext o
  rw [tell, if_neg hv]
  split
  · rfl
  · exact ite_self 0

variable {v : Voice}

theorem delta_tell_silent (hv : v.number ≠ p) :
    delta hrtfSubmix (tell p c b) v 0 = 0 := by
  rw [delta, tell_silent hv, outputs_zero, Pi.single_zero, sub_zero, ite_self, ite_self]

variable {queue : List Voice}

theorem foldl_tell_silent (hregular : ∀ v ∈ queue, v.Regular)
    (hp : ∀ v ∈ queue, v.number ≠ p) :
    queue.foldl (voiceProcess hrtfSubmix (tell p c b)) 0 = 0 := by
  induction queue with
  | nil => rfl
  | cons v queue ih =>
    obtain ⟨hv, hregular⟩ := List.forall_mem_cons.mp hregular
    obtain ⟨hvp, hp⟩ := List.forall_mem_cons.mp hp
    rw [List.foldl_cons, voiceProcess_eq hrtfSubmix _ hv, Pi.zero_apply,
      delta_tell_silent hrtfSubmix hvp, add_zero]
    exact ih hregular hp

theorem voiceProcess_tell (hregular : v.Regular) (hpaused : v.paused = false)
    (hb : v.bin hrtfSubmix b = multipassBin) :
    voiceProcess hrtfSubmix (tell v.number c b) 0 v = Pi.single multipassBin 1 := by
  have htell : tell v.number c b v.number 0 = fun o => if o = b then 1 else 0 := by
    funext o
    exact if_pos rfl
  simp [voiceProcess_eq, delta, outputs_single, hregular, htell, hb, hpaused]

theorem foldl_tell_unread (hregular : ∀ v ∈ queue, v.Regular)
    (hp : ∀ v ∈ queue, v.number ≠ p) (hunread : ∀ v ∈ queue, v.multipass = true → v.paused = true)
    (mixbins : Mixbins ℤ) :
    queue.foldl (voiceProcess hrtfSubmix (tell p c b)) mixbins = mixbins := by
  induction queue with
  | nil => rfl
  | cons v queue ih =>
    obtain ⟨hv, hregular⟩ := List.forall_mem_cons.mp hregular
    obtain ⟨hvp, hp⟩ := List.forall_mem_cons.mp hp
    obtain ⟨hvu, hunread⟩ := List.forall_mem_cons.mp hunread
    rw [List.foldl_cons, voiceProcess_eq hrtfSubmix _ hv, delta_congr hrtfSubmix _ hvu _ 0,
      delta_tell_silent hrtfSubmix hvp, add_zero]
    exact ih hregular hp hunread

theorem voiceProcess_tell_swallow (hregular : v.Regular) (hpaused : v.paused = false)
    (hmulti : v.multipass = true) (hv : v.number ≠ p) (x : ℤ) :
    voiceProcess hrtfSubmix (tell p v.number b) (Pi.single multipassBin x) v = 0 := by
  have htell : tell p v.number b v.number x = fun _ => 0 := by
    funext o
    rw [tell, if_neg hv, if_pos rfl]
  rw [voiceProcess_eq hrtfSubmix _ hregular, Pi.single_eq_same, delta, hpaused, hmulti, htell,
    outputs_zero, if_neg Bool.false_ne_true, if_pos rfl, zero_sub, add_neg_cancel]

theorem sum_foldl_tell (hregular : ∀ v ∈ queue, v.Regular)
    (hp : ∀ v ∈ queue, v.number ≠ p) (hc : ∀ v ∈ queue, v.number ≠ c) (mixbins : Mixbins ℤ) :
    ∑ i, queue.foldl (voiceProcess hrtfSubmix (tell p c b)) mixbins i = ∑ i, mixbins i := by
  induction queue generalizing mixbins with
  | nil => rfl
  | cons v queue ih =>
    obtain ⟨hv, hregular⟩ := List.forall_mem_cons.mp hregular
    obtain ⟨hvp, hp⟩ := List.forall_mem_cons.mp hp
    obtain ⟨hvc, hc⟩ := List.forall_mem_cons.mp hc
    rw [List.foldl_cons, ih hregular hp hc, voiceProcess_eq hrtfSubmix _ hv]
    have htell (x : ℤ) : tell p c b v.number x = fun o => if o = 0 then x else 0 := by
      funext o
      rw [tell, if_neg hvp, if_neg hvc]
    have hdelta (x : ℤ) : ∑ i, delta hrtfSubmix (tell p c b) v x i = 0 := by
      rw [delta, htell, htell, outputs_single, outputs_single]
      split
      · exact Finset.sum_const_zero
      · split
        · simp
        · simp
    simp only [Pi.add_apply, Finset.sum_add_distrib, hdelta, add_zero]

end

theorem exists_workers {k : Nat} (hpos : 0 < k) (hlt : k < 420) :
    ∃ n, 0 < n ∧ n ≤ maxVoiceWorkers ∧ k % n ≠ 0 := by
  by_contra hnone
  push Not at hnone
  have h4 := hnone 4 (by decide) (by decide)
  have h3 := hnone 3 (by decide) (by decide)
  have h5 := hnone 5 (by decide) (by decide)
  have h7 := hnone 7 (by decide) (by decide)
  omega

theorem number_ne_of_nodup {before rest : List Voice} {p : Voice}
    (h : ((before ++ p :: rest).map Voice.number).Nodup) :
    ∀ v ∈ before ++ rest, v.number ≠ p.number := by
  rw [List.map_append, List.map_cons, List.nodup_middle, ← List.map_append, List.nodup_cons] at h
  intro v hv hne
  exact h.1 (hne ▸ List.mem_map_of_mem hv)

theorem length_le_maxVoices {queue : List Voice} (hnumbers : ∀ v ∈ queue, v.number < maxVoices)
    (hdistinct : (queue.map Voice.number).Nodup) : queue.length ≤ maxVoices := by
  have hsub : queue.map Voice.number ⊆ List.range maxVoices := by
    intro k hk
    obtain ⟨v, hv, rfl⟩ := List.mem_map.mp hk
    exact List.mem_range.mpr (hnumbers v hv)
  have hle := (List.subperm_of_subset hdistinct hsub).length_le
  rwa [List.length_map, List.length_range] at hle

section

variable {before between after : List Voice} {p c : Voice} {b : Fin 8}
  (hregular : ∀ v ∈ before ++ p :: between ++ c :: after, v.Regular)
  (hdistinct : ((before ++ p :: between ++ c :: after).map Voice.number).Nodup)
  (hsource : Source hrtfSubmix (before ++ p :: between) before p between)
  (hb : p.bin hrtfSubmix b = multipassBin)

include hregular hdistinct hsource hb

theorem mix_tell (hmulti : c.multipass = true) (hpaused : c.paused = false) :
    mix hrtfSubmix (tell p.number c.number b) (before ++ p :: between ++ c :: after) = 0 := by
  have hc := number_ne_of_nodup hdistinct
  have hp := number_ne_of_nodup (List.append_assoc before _ _ ▸ hdistinct)
  have hcp : c.number ≠ p.number :=
    (hc p (List.mem_append_left _ (List.mem_append_right _ List.mem_cons_self))).symm
  rw [mix_append, mix_append, List.foldl_cons, List.foldl_cons, mix,
    foldl_tell_silent hrtfSubmix, voiceProcess_tell hrtfSubmix _ hsource.unpaused hb,
    foldl_tell_unread hrtfSubmix _ _ hsource.unread, voiceProcess_tell_swallow hrtfSubmix _ hpaused
      hmulti hcp, foldl_tell_silent hrtfSubmix]
  all_goals grind

theorem sum_mix_tell (numWorkers : Nat)
    (hparted : (lane hrtfSubmix before).turn % numWorkers ≠
      (lane hrtfSubmix (before ++ p :: between)).turn % numWorkers) (w : Nat) :
    ∑ i, mix hrtfSubmix (tell p.number c.number b) (share hrtfSubmix numWorkers w .init
      (before ++ p :: between ++ c :: after)) i =
        if w = (lane hrtfSubmix before).turn % numWorkers then 1 else 0 := by
  have hc := number_ne_of_nodup hdistinct
  have hp := number_ne_of_nodup (List.append_assoc before _ _ ▸ hdistinct)
  have hbefore := (share_subset hrtfSubmix numWorkers w .init before).subset
  rw [share_append, share_append, ← lane, ← lane, List.append_assoc]
  by_cases hw : w = (lane hrtfSubmix before).turn % numWorkers
  · have hbetween := (share_subset hrtfSubmix numWorkers w
      ((lane hrtfSubmix before).step hrtfSubmix p) between).subset
    have hafter := (share_subset hrtfSubmix numWorkers w
      ((lane hrtfSubmix (before ++ p :: between)).step hrtfSubmix c) after).subset
    rw [if_pos hw, share, if_pos hw.symm, share, if_neg (fun h => hparted (hw ▸ h.symm)),
      List.cons_append, mix_append, mix, foldl_tell_silent hrtfSubmix, List.foldl_cons,
      voiceProcess_tell hrtfSubmix _ hsource.unpaused hb, sum_foldl_tell hrtfSubmix]
    · exact Fintype.sum_pi_single' multipassBin 1
    all_goals grind
  · have hbetween := (share_subset hrtfSubmix numWorkers w
      ((lane hrtfSubmix before).step hrtfSubmix p) between).subset
    have hafter := (share_subset hrtfSubmix numWorkers w
      (lane hrtfSubmix (before ++ p :: between)) (c :: after)).subset
    rw [if_neg hw, share, if_neg (Ne.symm hw), mix, foldl_tell_silent hrtfSubmix]
    · exact Finset.sum_const_zero
    all_goals grind

end

theorem isSome_foldlM_step (n m : Nat) (queue : List Voice) {s t : Sched}
    (hdirty : s.dirty = t.dirty)
    (h : (queue.foldlM (Sched.step hrtfSubmix n) s).isSome) :
    (queue.foldlM (Sched.step hrtfSubmix m) t).isSome := by
  induction queue generalizing s t with
  | nil => rfl
  | cons v queue ih =>
    rw [List.foldlM_cons, Sched.step] at h ⊢
    have hiff : s.Asserts (getVoiceBinSrcDst hrtfSubmix v) ↔
        t.Asserts (getVoiceBinSrcDst hrtfSubmix v) := by
      rw [Sched.Asserts, Sched.Asserts, hdirty]
    by_cases hs : s.Asserts (getVoiceBinSrcDst hrtfSubmix v)
    · rw [if_pos hs] at h
      rw [if_pos (hiff.mp hs)]
      refine ih ?_ h
      change (s.dirty &&& _) ||| _ = (t.dirty &&& _) ||| _
      rw [hdirty]
    · rw [if_neg hs] at h
      cases h

/-- However many workers there are and in whatever order they finish, whatever the voices do to their
input. -/
def MixedAlike (queue : List Voice) : Prop :=
  ∀ numWorkers, 0 < numWorkers → numWorkers ≤ maxVoiceWorkers →
    ∀ s, voiceWorkSchedule hrtfSubmix numWorkers queue = some s →
      ∀ order : List Nat, order.Perm (List.range numWorkers) →
        ∀ (G : Type) [AddCommGroup G] (sound : Nat → G → Fin 8 → G),
          voiceWorkDispatch hrtfSubmix sound s order = mix hrtfSubmix sound queue

theorem MixedAlike.coherent {numWorkers : Nat} {queue : List Voice}
    (hnumbers : ∀ v ∈ queue, v.number < maxVoices) (hdistinct : (queue.map Voice.number).Nodup)
    (hassert : (voiceWorkSchedule hrtfSubmix numWorkers queue).isSome)
    (h : MixedAlike hrtfSubmix queue) : Coherent hrtfSubmix queue := by
  intro pre c after hqueue hmulti hpaused before p between hsource
  by_contra hnot
  have hturn := turn_lt_of_not_kept hrtfSubmix hsource.feeds hnot
  have hlength := length_le_maxVoices hnumbers hdistinct
  cases hsource.queue_eq
  subst hqueue
  -- Voices that are at most 256 turns apart are on different workers for some number of workers.
  have hbound := Lane.turn_foldl_le hrtfSubmix (lane hrtfSubmix before) (p :: between)
  rw [← lane_append] at hbound
  rw [List.length_append, List.length_append] at hlength
  have hmax : maxVoices = 256 := rfl
  obtain ⟨n, hpos, hle, hparted⟩ := exists_workers (Nat.sub_pos_of_lt hturn) (by omega)
  obtain ⟨s, hs⟩ :=
    Option.isSome_iff_exists.mp (isSome_foldlM_step hrtfSubmix numWorkers n _ rfl hassert)
  obtain ⟨hregular, hshare⟩ := voiceWorkSchedule_share hrtfSubmix hs
  obtain ⟨b, _, hb⟩ := List.any_eq_true.mp hsource.feeds
  have hb := beq_iff_eq.mp hb
  have halike := h n hpos hle s hs _ (List.Perm.refl _) ℤ (tell p.number c.number b)
  rw [voiceWorkDispatch_eq_sum hrtfSubmix _ s (List.Perm.refl _),
    mix_tell hrtfSubmix hregular hdistinct hsource hb hmulti hpaused] at halike
  have hsum := sum_mix_tell hrtfSubmix hregular hdistinct hsource hb n fun heq =>
    hparted (Nat.mod_eq_zero_of_dvd ((Nat.modEq_iff_dvd' hturn.le).mp heq))
  have htotal : ∑ i, (∑ w ∈ Finset.range n,
      mix hrtfSubmix (tell p.number c.number b) (s.queues w)) i = 1 := by
    simp only [Finset.sum_apply]
    rw [Finset.sum_comm]
    simp only [hshare, hsum]
    rw [Finset.sum_ite_eq', if_pos (Finset.mem_range.mpr (Nat.mod_lt _ hpos))]
  rw [halike] at htotal
  exact absurd htotal (by decide)

/-- Mixing on workers is mixing in order, for every number of workers, exactly if every unpaused
multipass voice finds what was fed since the bin was last emptied on its own worker. -/
theorem mixedAlike_iff (numWorkers : Nat) (queue : List Voice)
    (hnumbers : ∀ v ∈ queue, v.number < maxVoices) (hdistinct : (queue.map Voice.number).Nodup)
    (hassert : (voiceWorkSchedule hrtfSubmix numWorkers queue).isSome) :
    MixedAlike hrtfSubmix queue ↔ Coherent hrtfSubmix queue := by
  constructor
  · exact MixedAlike.coherent hrtfSubmix hnumbers hdistinct hassert
  · intro hcoherent n hpos _ s hs order horder G _ sound
    obtain ⟨hregular, hshare⟩ := voiceWorkSchedule_share hrtfSubmix hs
    rw [voiceWorkDispatch_eq_sum hrtfSubmix sound s horder]
    simp only [hshare]
    exact sum_mix_share hrtfSubmix sound hpos hregular hcoherent

theorem coherent_of_single (pre : List Voice) (hpre : ∀ v ∈ pre, v.multipass = false) (c : Voice) :
    Coherent hrtfSubmix (pre ++ [c]) := by
  intro pre' c' after hqueue hmulti _ before p between hsource
  have hpre' : pre' = pre := by
    cases List.eq_nil_or_concat after with
    | inl hnil =>
      subst hnil
      exact (List.append_inj' hqueue rfl).1.symm
    | inr hconcat =>
      obtain ⟨after', v, rfl⟩ := hconcat
      rw [List.concat_eq_append, ← List.cons_append, ← List.append_assoc] at hqueue
      have hmem : c' ∈ pre := by
        rw [(List.append_inj' hqueue rfl).1]
        exact List.mem_append_right _ List.mem_cons_self
      rw [hpre c' hmem] at hmulti
      cases hmulti
  have hall : ∀ v ∈ before ++ p :: between, v.multipass = false := by
    rw [← hsource.queue_eq, hpre']
    exact hpre
  refine ⟨hall p (List.mem_append_right _ List.mem_cons_self), fun v hv => hall v
    (List.mem_append_right _ (List.mem_cons_of_mem _ hv)), ?_⟩
  have hnone : lastMultipass before = none := by
    apply List.find?_eq_none.mpr
    intro v hv hm
    rw [hall v (List.mem_append_left _ (List.mem_reverse.mp hv))] at hm
    cases hm
  rw [hnone]
  rfl

end

def voiceInto (number : Nat) (multipass paused : Bool) (bin : Fin 32) : Voice where
  number := number
  paused := paused
  multipass := multipass
  mpBin := if multipass then multipassBin else ⟨0, Nat.zero_lt_succ 31⟩
  clearMix := multipass
  vbin b := if b = 0 then bin else ⟨0, Nat.zero_lt_succ 31⟩

theorem mixedAlike_submix : MixedAlike (fun _ => 0)
    [voiceInto 64 false false 31, voiceInto 65 false false 31, voiceInto 66 true false 1] :=
  (mixedAlike_iff (fun _ => 0) 2 _ (by decide) (by decide) (by decide)).mpr
    (coherent_of_single (fun _ => 0) [voiceInto 64 false false 31, voiceInto 65 false false 31]
      (by decide) (voiceInto 66 true false 1))

def plusOne : Nat → ℤ → Fin 8 → ℤ := fun _ x b => if b = 0 then x + 1 else 0

/-- Of two workers the second reads an empty bin. -/
theorem mixing_parted :
    (∃ s, voiceWorkSchedule (fun _ => 0) 2 [voiceInto 64 true false 31, voiceInto 65 true false 1] =
        some s ∧ voiceWorkDispatch (fun _ => 0) plusOne s [0, 1] ≠
          mix (fun _ => 0) plusOne [voiceInto 64 true false 31, voiceInto 65 true false 1]) ∧
      ∃ s, voiceWorkSchedule (fun _ => 0) 2 [voiceInto 64 false false 31, voiceInto 65 true true 1,
          voiceInto 66 true false 1] = some s ∧
        voiceWorkDispatch (fun _ => 0) plusOne s [0, 1] ≠ mix (fun _ => 0) plusOne
          [voiceInto 64 false false 31, voiceInto 65 true true 1, voiceInto 66 true false 1] := by
  refine ⟨⟨_, rfl, fun h => ?_⟩, ⟨_, rfl, fun h => ?_⟩⟩
  · exact absurd (congrFun h 31) (by decide +kernel)
  · exact absurd (congrFun h 31) (by decide +kernel)

end DukeX.Apu
