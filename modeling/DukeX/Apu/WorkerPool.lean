import DukeX.Apu.Agreement
import DukeX.Lib.Trace

/-!
# The worker threads of the voice processor

`voice_work_dispatch` hands the voices of a frame to worker threads and waits for them, once,
without asking again what it waited for.
-/

namespace DukeX.Apu

open Lib

inductive WorkerPc where
  | asleep
  | awake
  | mixing
  deriving DecidableEq

/-- `VoiceWorkDispatch`; `frame` is the queue the dispatcher waits for, and `processed` are the voices
the workers have processed for it. -/
structure Pool (G : Type) where
  queues : Nat → List Voice
  pending : Nat → Bool
  pc : Nat → WorkerPc
  mixbins : Mixbins G
  processed : List Voice
  frame : Option (List Voice)
  signalled : Bool

inductive PoolEvent where
  /-- The dispatcher drops the voices of a frame, or schedules them and waits. -/
  | dispatch (pauseRequested : Bool) (queue : List Voice)
  /-- A worker gets the lock after `qemu_cond_wait`. -/
  | lock (worker : Nat)
  /-- A worker gets the lock after mixing its voices. -/
  | finish (worker : Nat)
  /-- A worker wakes up without a signal. -/
  | stir (worker : Nat)
  /-- The wait of the dispatcher ends at the signal, and it returns. -/
  | wake
  /-- The wait of the dispatcher ends without a signal, and it returns. -/
  | spurious
  deriving DecidableEq

section

variable (hrtfSubmix : Fin 4 → Fin 32) {G : Type} [AddCommGroup G] (sound : Nat → G → Fin 8 → G)
  (numWorkers : Nat)

def Pool.init : Pool G where
  queues _ := []
  pending _ := false
  pc _ := .asleep
  mixbins := 0
  processed := []
  frame := none
  signalled := false

def Pool.Idle (s : Pool G) : Prop := ∀ w < numWorkers, s.pending w = false

instance (s : Pool G) : Decidable (s.Idle numWorkers) := inferInstanceAs (Decidable (∀ _ < _, _))

def Pool.rest (s : Pool G) (w : Nat) : Pool G :=
  let s := { s with pending := Function.update s.pending w false, pc := Function.update s.pc w .asleep }
  { s with signalled := s.signalled || (s.frame.isSome && decide (s.Idle numWorkers)) }

def Pool.step (s : Pool G) : PoolEvent → Option (Pool G)
  | .dispatch pauseRequested queue =>
    if s.frame ≠ none then none
    else if pauseRequested = true ∨ queue = [] then some s
    else (voiceWorkSchedule hrtfSubmix numWorkers queue).map fun sched =>
      { s with
        queues := fun w => s.queues w ++ sched.queues w
        pending := fun w => s.pending w || !(sched.queues w).isEmpty
        pc := fun w => if s.pc w = .asleep then .awake else s.pc w
        mixbins := 0
        processed := []
        frame := some queue
        signalled := false }
  | .lock w =>
    if w < numWorkers ∧ s.pc w = .awake then
      if s.queues w = [] then some (s.rest numWorkers w)
      else some { s with pc := Function.update s.pc w .mixing }
    else none
  | .finish w =>
    if w < numWorkers ∧ s.pc w = .mixing then
      let s := { s with
        mixbins := s.mixbins + mix hrtfSubmix sound (s.queues w)
        processed := s.processed ++ s.queues w
        queues := Function.update s.queues w [] }
      some (s.rest numWorkers w)
    else none
  | .stir w =>
    if w < numWorkers ∧ s.pc w = .asleep then some { s with pc := Function.update s.pc w .awake }
    else none
  | .wake =>
    if s.frame ≠ none ∧ s.signalled = true then some { s with frame := none, signalled := false }
    else none
  | .spurious => if s.frame ≠ none then some { s with frame := none, signalled := false } else none

/-- What a call for `queue` has to have done. -/
def Pool.Mixed (s : Pool G) (queue processed : List Voice) (mixbins : Mixbins G) : Prop :=
  s.Idle numWorkers ∧ (processed : Multiset Voice) = queue ∧
    mixbins = ∑ w ∈ Finset.range numWorkers,
      mix hrtfSubmix sound (share hrtfSubmix numWorkers w .init queue)

/-- The call that the event ends, if it ends one, has done its work. -/
def Pool.Complete (s : Pool G) : PoolEvent → Prop
  | .dispatch pauseRequested queue =>
    s.frame = none → pauseRequested = true ∨ queue = [] →
      s.Mixed hrtfSubmix sound numWorkers queue [] 0
  | .wake =>
    ∀ queue, s.frame = some queue → s.signalled = true →
      s.Mixed hrtfSubmix sound numWorkers queue s.processed s.mixbins
  | .spurious =>
    ∀ queue, s.frame = some queue →
      s.Mixed hrtfSubmix sound numWorkers queue s.processed s.mixbins
  | _ => True

/-- No frame is dropped, and the dispatcher does not wake up early. -/
def PoolEvent.Orderly (s : Pool G) : PoolEvent → Prop
  | .dispatch pauseRequested queue => pauseRequested = true → queue = []
  | .spurious => s.Idle numWorkers
  | _ => True

/-- What holds at every point. -/
structure Pool.Inv (s : Pool G) : Prop where
  pending : ∀ w, s.pending w = false ↔ s.queues w = []
  workers : ∀ w, numWorkers ≤ w → s.queues w = []
  signal : s.signalled = true → s.Idle numWorkers
  outside : s.frame = none → s.Idle numWorkers
  voices : ∀ queue, s.frame = some queue →
    (s.processed : Multiset Voice) + ∑ w ∈ Finset.range numWorkers, (s.queues w : Multiset Voice) = queue
  mixed : ∀ queue, s.frame = some queue →
    s.mixbins + ∑ w ∈ Finset.range numWorkers, mix hrtfSubmix sound (s.queues w) =
      ∑ w ∈ Finset.range numWorkers, mix hrtfSubmix sound (share hrtfSubmix numWorkers w .init queue)

variable {hrtfSubmix sound numWorkers} {s s' : Pool G} {e : PoolEvent}

theorem Pool.inv_init : (Pool.init : Pool G).Inv hrtfSubmix sound numWorkers where
  pending _ := ⟨fun _ => rfl, fun _ => rfl⟩
  workers _ _ := rfl
  signal h := by cases h
  outside _ _ _ := rfl
  voices _ h := by cases h
  mixed _ h := by cases h

theorem sum_share (hn : 0 < numWorkers) (l : Lane) (queue : List Voice) :
    ∑ w ∈ Finset.range numWorkers, (share hrtfSubmix numWorkers w l queue : Multiset Voice) = queue := by
  induction queue generalizing l with
  | nil => simp [share]
  | cons v queue ih =>
    have hstep (w : Nat) : (share hrtfSubmix numWorkers w l (v :: queue) : Multiset Voice) =
        (if l.turn % numWorkers = w then {v} else 0) +
          (share hrtfSubmix numWorkers w (l.step hrtfSubmix v) queue : Multiset Voice) := by
      rw [share]
      split
      · rfl
      · rw [zero_add]
    simp only [hstep, Finset.sum_add_distrib, ih, Finset.sum_ite_eq, Finset.mem_range,
      Nat.mod_lt _ hn, if_true]
    rfl

theorem Pool.Inv.empty (h : s.Inv hrtfSubmix sound numWorkers) (hidle : s.Idle numWorkers) (w : Nat) :
    s.queues w = [] := by
  by_cases hw : w < numWorkers
  · exact (h.pending w).mp (hidle w hw)
  · exact h.workers w (Nat.le_of_not_lt hw)

variable {w : Nat} {queue : List Voice}

theorem share_eq_nil (hn : 0 < numWorkers) (hw : numWorkers ≤ w) (l : Lane)
    (queue : List Voice) : share hrtfSubmix numWorkers w l queue = [] := by
  induction queue generalizing l with
  | nil => rfl
  | cons v queue ih =>
    have hne : l.turn % numWorkers ≠ w := (Nat.lt_of_lt_of_le (Nat.mod_lt _ hn) hw).ne
    rw [share, if_neg hne, ih]

theorem sum_taken {M : Type} [AddCommMonoid M] (f : List Voice → M) (hf : f [] = 0)
    (queues : Nat → List Voice) (hw : w < numWorkers) :
    f (queues w) + ∑ v ∈ Finset.range numWorkers, f (Function.update queues w [] v) =
      ∑ v ∈ Finset.range numWorkers, f (queues v) := by
  have hmem : w ∈ Finset.range numWorkers := Finset.mem_range.mpr hw
  have hothers : ∑ v ∈ (Finset.range numWorkers).erase w, f (Function.update queues w [] v) =
      ∑ v ∈ (Finset.range numWorkers).erase w, f (queues v) :=
    Finset.sum_congr rfl fun v hv => by
      rw [Function.update_of_ne (Finset.ne_of_mem_erase hv)]
  rw [← Finset.add_sum_erase _ _ hmem, ← Finset.add_sum_erase _ (fun v => f (queues v)) hmem,
    Function.update_self, hf, zero_add, hothers]

theorem Pool.Inv.mixed_of_idle (h : s.Inv hrtfSubmix sound numWorkers) (hidle : s.Idle numWorkers)
    (hframe : s.frame = some queue) :
    s.Mixed hrtfSubmix sound numWorkers queue s.processed s.mixbins := by
  have hempty := h.empty hidle
  refine ⟨hidle, ?_, ?_⟩
  · rw [← h.voices queue hframe]
    simp [hempty]
  · rw [← h.mixed queue hframe]
    simp [hempty, mix]

theorem Pool.Inv.mixed_nil_iff (h : s.Inv hrtfSubmix sound numWorkers) (hframe : s.frame = none)
    (queue : List Voice) : s.Mixed hrtfSubmix sound numWorkers queue [] 0 ↔ queue = [] := by
  constructor
  · rintro ⟨-, hqueue, -⟩
    exact (Multiset.coe_eq_zero queue).mp hqueue.symm
  · rintro rfl
    refine ⟨h.outside hframe, rfl, ?_⟩
    simp [share, mix]

theorem Pool.Inv.returned (h : s.Inv hrtfSubmix sound numWorkers) (hidle : s.Idle numWorkers) :
    Pool.Inv hrtfSubmix sound numWorkers { s with frame := none, signalled := false } where
  pending := h.pending
  workers := h.workers
  signal _ := hidle
  outside _ := hidle
  voices _ hq := by cases hq
  mixed _ hq := by cases hq

/-! ## The steps -/

instance (s : Pool G) (e : PoolEvent) : Decidable (e.Orderly numWorkers s) :=
  match e with
  | .dispatch pauseRequested queue => inferInstanceAs (Decidable (pauseRequested = true → queue = []))
  | .spurious => inferInstanceAs (Decidable (s.Idle numWorkers))
  | .lock _ | .finish _ | .stir _ | .wake => .isTrue trivial

theorem Pool.Inv.rest (h : Pool.Inv hrtfSubmix sound numWorkers
    { s with pending := Function.update s.pending w false }) :
    (s.rest numWorkers w).Inv hrtfSubmix sound numWorkers := by
  refine ⟨h.pending, h.workers, fun hsignal => ?_, h.outside, h.voices, h.mixed⟩
  obtain hs | hs := Bool.or_eq_true_iff.mp hsignal
  · exact h.signal hs
  · exact of_decide_eq_true (Bool.and_eq_true_iff.mp hs).2

omit [AddCommGroup G] in
theorem Pool.Idle.update (h : s.Idle numWorkers) (w v : Nat) (hv : v < numWorkers) :
    Function.update s.pending w false v = false := by
  by_cases hvw : v = w
  · rw [hvw, Function.update_self]
  · rw [Function.update_of_ne hvw, h v hv]

theorem Pool.Inv.scheduled (h : s.Inv hrtfSubmix sound numWorkers) (hn : 0 < numWorkers)
    {sched : Sched}
    (hsched : voiceWorkSchedule hrtfSubmix numWorkers queue = some sched) (hframe : s.frame = none)
    (pc : Nat → WorkerPc) :
    Pool.Inv hrtfSubmix sound numWorkers
      { s with
        queues := fun w => s.queues w ++ sched.queues w
        pending := fun w => s.pending w || !(sched.queues w).isEmpty
        pc := pc
        mixbins := 0
        processed := []
        frame := some queue
        signalled := false } := by
  have hshare := (voiceWorkSchedule_share hrtfSubmix hsched).2
  have hempty := h.empty (h.outside hframe)
  have hpending (w : Nat) : s.pending w = false := (h.pending w).mpr (hempty w)
  refine ⟨fun w => ?_, fun w hw => ?_, fun hs => ?_, fun hs => ?_, fun q hq => ?_, fun q hq => ?_⟩
  · simp [hempty, hpending]
  · simp only [hempty, hshare, share_eq_nil hn hw, List.append_nil]
  · cases hs
  · cases hs
  · cases hq
    simp only [hempty, hshare, List.nil_append, sum_share hn]
    exact zero_add _
  · cases hq
    simp only [hempty, hshare, List.nil_append, zero_add]

theorem Pool.step_inv (hn : 0 < numWorkers) (h : s.Inv hrtfSubmix sound numWorkers)
    (he : e.Orderly numWorkers s) (hstep : s.step hrtfSubmix sound numWorkers e = some s') :
    s'.Inv hrtfSubmix sound numWorkers := by
  cases e with
  | dispatch pauseRequested queue =>
    rw [Pool.step] at hstep
    obtain ⟨hframe, hstep⟩ := Option.ite_none_left_eq_some.mp hstep
    split at hstep
    · exact Option.some.inj hstep ▸ h
    · obtain ⟨sched, hsched, rfl⟩ := Option.map_eq_some_iff.mp hstep
      exact h.scheduled hn hsched (not_not.mp hframe) _
  | lock w =>
    obtain ⟨hw, hstep⟩ := Option.ite_none_right_eq_some.mp hstep
    split at hstep
    case isTrue hqueue =>
      cases hstep
      -- the bit of a worker without voices is clear already
      have hsame : Function.update s.pending w false = s.pending :=
        Function.update_eq_self_iff.mpr ((h.pending w).mpr hqueue).symm
      exact Pool.Inv.rest (hsame.symm ▸ h)
    case isFalse =>
      cases hstep
      exact ⟨h.pending, h.workers, h.signal, h.outside, h.voices, h.mixed⟩
  | finish w =>
    obtain ⟨⟨hw, -⟩, hstep⟩ := Option.ite_none_right_eq_some.mp hstep
    cases hstep
    refine Pool.Inv.rest ⟨fun v => ?_, fun v hv => ?_, fun hs => (h.signal hs).update w,
      fun hframe => (h.outside hframe).update w, fun queue hqueue => ?_, fun queue hqueue => ?_⟩
    · dsimp only
      by_cases hvw : v = w
      · simp only [hvw, Function.update_self]
      · simp only [Function.update_of_ne hvw, h.pending v]
    · exact (Function.update_of_ne (Nat.lt_of_lt_of_le hw hv).ne' ..).trans (h.workers v hv)
    · rw [← h.voices queue hqueue, ← sum_taken (fun q => (q : Multiset Voice)) rfl s.queues hw,
        ← add_assoc, Multiset.coe_add]
    · rw [← h.mixed queue hqueue, ← sum_taken (mix hrtfSubmix sound) rfl s.queues hw, ← add_assoc]
  | stir w =>
    obtain ⟨-, hstep⟩ := Option.ite_none_right_eq_some.mp hstep
    cases hstep
    exact ⟨h.pending, h.workers, h.signal, h.outside, h.voices, h.mixed⟩
  | wake =>
    obtain ⟨⟨-, hsignal⟩, hstep⟩ := Option.ite_none_right_eq_some.mp hstep
    cases hstep
    exact h.returned (h.signal hsignal)
  | spurious =>
    obtain ⟨-, hstep⟩ := Option.ite_none_right_eq_some.mp hstep
    cases hstep
    exact h.returned he

theorem Pool.complete_iff (h : s.Inv hrtfSubmix sound numWorkers)
    (hstep : s.step hrtfSubmix sound numWorkers e = some s') :
    s.Complete hrtfSubmix sound numWorkers e ↔ e.Orderly numWorkers s := by
  cases e with
  | dispatch pauseRequested queue =>
    have hframe : s.frame = none := not_not.mp (Option.ite_none_left_eq_some.mp hstep).1
    have hmixed := h.mixed_nil_iff hframe queue
    constructor
    · intro hcomplete hpause
      exact hmixed.mp (hcomplete hframe (.inl hpause))
    · rintro horderly - (hpause | hqueue)
      · exact hmixed.mpr (horderly hpause)
      · exact hmixed.mpr hqueue
  | wake => exact ⟨fun _ => trivial, fun _ queue hframe hs => h.mixed_of_idle (h.signal hs) hframe⟩
  | spurious =>
    obtain ⟨queue, hframe⟩ := Option.ne_none_iff_exists'.mp (Option.ite_none_right_eq_some.mp hstep).1
    exact ⟨fun hcomplete => (hcomplete queue hframe).1,
      fun hidle queue hframe => h.mixed_of_idle hidle hframe⟩
  | lock w | finish w | stir w => exact Iff.rfl

theorem Pool.complete_of_stops (hstep : s.step hrtfSubmix sound numWorkers e = none) :
    s.Complete hrtfSubmix sound numWorkers e := by
  cases e with
  | dispatch pauseRequested queue =>
    intro hframe hends
    rw [Pool.step, if_neg (not_not.mpr hframe), if_pos hends] at hstep
    cases hstep
  | wake =>
    intro queue hframe hs
    rw [Pool.step, if_pos ⟨hframe ▸ Option.some_ne_none queue, hs⟩] at hstep
    cases hstep
  | spurious =>
    intro queue hframe
    rw [Pool.step, if_pos (hframe ▸ Option.some_ne_none queue)] at hstep
    cases hstep
  | lock w | finish w | stir w => exact trivial

/-- **What `voice_work_dispatch` waits for**: over every interleaving, each call has mixed all its
voices when it returns exactly if none is made while a pause is requested and no wait of the
dispatcher ends before its workers are done. -/
theorem dispatch_complete_iff (hn : 0 < numWorkers) (es : List PoolEvent) :
    (∀ js e (s : Pool G), js ++ [e] <+: es →
        js.foldlM (Pool.step hrtfSubmix sound numWorkers) Pool.init = some s →
        s.Complete hrtfSubmix sound numWorkers e) ↔
      Throughout (Pool.step hrtfSubmix sound numWorkers) (fun s e => e.Orderly numWorkers s) es
        (Pool.init : Pool G) :=
  throughout_iff_before (fun _ _ _ h he hstep => Pool.step_inv hn h he hstep)
    (fun _ _ _ h hstep => Pool.complete_iff h hstep) (fun _ _ => Pool.complete_of_stops) Pool.inv_init

end

def calmVoice : Voice := voiceInto 64 false false multipassBin

def calmRun : List PoolEvent :=
  [.dispatch false [calmVoice], .lock 1, .stir 1, .lock 0, .lock 1, .finish 0, .wake]

theorem dispatch_complete_calm :
    (calmRun.foldlM (Pool.step (fun _ => multipassBin) plusOne 2) Pool.init).isSome = true ∧
      ∀ js e (s : Pool ℤ), js ++ [e] <+: calmRun →
        js.foldlM (Pool.step (fun _ => multipassBin) plusOne 2) Pool.init = some s →
        s.Complete (fun _ => multipassBin) plusOne 2 e :=
  ⟨by decide +kernel, (dispatch_complete_iff (by decide) calmRun).mpr (by decide +kernel)⟩

/-- The wait ends before the worker has run, and a call made while a pause is requested returns with
its voice unprocessed. -/
theorem dispatch_incomplete :
    (∃ s : Pool ℤ, Pool.step (fun _ => multipassBin) plusOne 2 .init (.dispatch false [calmVoice]) =
        some s ∧ s.pending 0 = true ∧ s.processed = [] ∧
          ¬s.Complete (fun _ => multipassBin) plusOne 2 .spurious) ∧
      ¬(Pool.init : Pool ℤ).Complete (fun _ => multipassBin) plusOne 2
        (.dispatch true [calmVoice]) := by
  refine ⟨⟨_, rfl, by decide +kernel, rfl, fun h => ?_⟩, fun h => ?_⟩
  · exact absurd ((h _ rfl).1 0 (by decide)) (by decide +kernel)
  · exact absurd (h rfl (.inl rfl)).2.1 (by decide)

end DukeX.Apu
