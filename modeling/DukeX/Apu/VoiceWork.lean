import Mathlib

/-!
# Mixing voices

The voices of a frame and how they are mixed: one after the other into an array of mixbins, or
spread over worker threads that each mix their share into an array of their own.
-/

namespace DukeX.Apu

def numMixbins : Nat := 32
def multipassBin : Fin 32 := 31
def multipassBinMask : BitVec 32 := BitVec.twoPow 32 31
def maxVoices : Nat := 256
def max3dVoices : Nat := 64
def maxVoiceWorkers : Nat := 16

structure Voice where
  number : Nat
  paused : Bool
  multipass : Bool
  mpBin : Fin 32
  clearMix : Bool
  vbin : Fin 8 → Fin 32
  deriving DecidableEq

section

variable (hrtfSubmix : Fin 4 → Fin 32)

def Voice.bin (v : Voice) (b : Fin 8) : Fin 32 :=
  if h : v.number < max3dVoices ∧ b.val < 4 then hrtfSubmix ⟨b.val, h.2⟩ else v.vbin b

structure BinMasks where
  src : BitVec 32
  dst : BitVec 32
  clr : BitVec 32

def getVoiceBinSrcDst (v : Voice) : BinMasks where
  src := if v.multipass then BitVec.twoPow 32 v.mpBin else 0
  dst := (List.finRange 8).foldl (fun dst b => dst ||| BitVec.twoPow 32 (v.bin hrtfSubmix b)) 0
  clr := if v.multipass && v.clearMix then BitVec.twoPow 32 v.mpBin else 0

abbrev Mixbins (G : Type) := Fin 32 → G

section

variable {G : Type} [AddCommGroup G]

def voiceProcess (sound : Nat → G → Fin 8 → G) (mixbins : Mixbins G) (v : Voice) : Mixbins G :=
  if v.paused then mixbins
  else
    let input := if v.multipass then mixbins v.mpBin else 0
    let mixbins :=
      if v.multipass && v.clearMix then Function.update mixbins v.mpBin 0 else mixbins
    (List.finRange 8).foldl (fun mixbins b =>
      Function.update mixbins (v.bin hrtfSubmix b)
        (mixbins (v.bin hrtfSubmix b) + sound v.number input b)) mixbins

def mix (sound : Nat → G → Fin 8 → G) (queue : List Voice) : Mixbins G :=
  queue.foldl (voiceProcess hrtfSubmix sound) 0

end

structure Sched where
  nextWorkerToSchedule : Nat
  group : Bool
  dirty : BitVec 32
  queues : Nat → List Voice

def Sched.init : Sched := ⟨0, false, 0, fun _ => []⟩

/-- The assertions of `voice_work_schedule`. -/
def Sched.Asserts (s : Sched) (m : BinMasks) : Prop :=
  (m.src = 0 ∨ m.src = multipassBinMask) ∧ (m.src = 0 ∨ m.clr = multipassBinMask) ∧
    (m.src ≠ 0 ∨ m.dst &&& multipassBinMask ≠ 0 ∨ s.dirty &&& multipassBinMask = 0)

instance (s : Sched) (m : BinMasks) : Decidable (s.Asserts m) :=
  inferInstanceAs (Decidable (_ ∧ _ ∧ _))

def Sched.assign (numWorkers : Nat) (s : Sched) (v : Voice) (m : BinMasks) : Sched :=
  let group := if m.dst &&& multipassBinMask &&& ~~~s.dirty ≠ 0 then true else s.group
  let group := if m.clr &&& multipassBinMask ≠ 0 then false else group
  { nextWorkerToSchedule :=
      if group then s.nextWorkerToSchedule else (s.nextWorkerToSchedule + 1) % numWorkers
    group := group
    dirty := (s.dirty &&& ~~~m.clr) ||| m.dst
    queues := Function.update s.queues s.nextWorkerToSchedule
      (s.queues s.nextWorkerToSchedule ++ [v]) }

def Sched.step (numWorkers : Nat) (s : Sched) (v : Voice) : Option Sched :=
  let m := getVoiceBinSrcDst hrtfSubmix v
  if s.Asserts m then some (s.assign numWorkers v m) else none

def voiceWorkSchedule (numWorkers : Nat) (queue : List Voice) : Option Sched :=
  queue.foldlM (Sched.step hrtfSubmix numWorkers) Sched.init

/-- `voice_work_dispatch`: each worker mixes its own queue into zeroed bins and adds them to the
result, in whatever order the workers come to it. -/
def voiceWorkDispatch {G : Type} [AddCommGroup G] (sound : Nat → G → Fin 8 → G) (s : Sched)
    (order : List Nat) : Mixbins G :=
  order.foldl (fun mixbins w => mixbins + mix hrtfSubmix sound (s.queues w)) 0

end

end DukeX.Apu
