import DukeX.Nv2a.StagingBuffer
import DukeX.Nv2a.TextureCache

/-!
# Vertex memory synchronisation

`sync_vertex_ram_buffer` of `hw/xbox/nv2a/pgraph/vk/draw.c`: the ranges of vertex memory a draw
reads are widened to pages, sorted and merged, and the dirty bits of the merged ranges are tested.
-/

namespace DukeX.Nv2a

structure MemorySyncRequirement where
  addr : Nat
  size : Nat
  deriving DecidableEq, Repr

def alignToPages (r : MemorySyncRequirement) : MemorySyncRequirement :=
  let startAddr := r.addr / targetPageSize * targetPageSize
  let endAddr := roundUp (r.addr + r.size) targetPageSize
  ⟨startAddr, endAddr - startAddr⟩

def mergeRequirement (merged : List MemorySyncRequirement) (t : MemorySyncRequirement) :
    List MemorySyncRequirement :=
  match merged with
  | [] => [t]
  | p :: rest =>
    if t.addr ≤ p.addr + p.size then
      { p with size := max (p.addr + p.size) (t.addr + t.size) - p.addr } :: rest
    else t :: p :: rest

def mergeRequirements (sorted : List MemorySyncRequirement) : List MemorySyncRequirement :=
  (sorted.foldl mergeRequirement []).reverse

def MemorySyncRequirement.Covers (r : MemorySyncRequirement) (b : Nat) : Prop :=
  r.addr ≤ b ∧ b < r.addr + r.size

def MemorySyncRequirement.Paged (r : MemorySyncRequirement) : Prop :=
  targetPageSize ∣ r.addr ∧ targetPageSize ∣ r.size

structure Merged (read merged : List MemorySyncRequirement) : Prop where
  paged : ∀ r ∈ merged, r.Paged
  apart : merged.Pairwise fun later earlier => earlier.addr + earlier.size < later.addr
  length : merged.length ≤ read.length
  covers : ∀ b, (∃ r ∈ merged, r.Covers b) ↔ ∃ r ∈ read, r.Covers b
  addr : ∀ r ∈ merged, ∃ r' ∈ read, r.addr = r'.addr

variable {read merged : List MemorySyncRequirement} {t : MemorySyncRequirement}

theorem Merged.step (h : Merged read merged) (hpaged : t.Paged)
    (hle : ∀ r ∈ read, r.addr ≤ t.addr) : Merged (read ++ [t]) (mergeRequirement merged t) := by
  have hbelow : ∀ r ∈ merged, r.addr ≤ t.addr := by
    intro r hr
    obtain ⟨r', hr', heq⟩ := h.addr r hr
    exact heq ▸ hle r' hr'
  have hread : ∀ b, (∃ r ∈ read ++ [t], r.Covers b) ↔ (∃ r ∈ merged, r.Covers b) ∨ t.Covers b := by
    intro b
    simp [h.covers b, or_and_right, exists_or]
  have hkeep : ∀ r ∈ merged, ∃ r' ∈ read ++ [t], r.addr = r'.addr := by
    intro r hr
    obtain ⟨r', hr', heq⟩ := h.addr r hr
    exact ⟨r', List.mem_append_left _ hr', heq⟩
  have hlength := h.length
  cases merged with
  | nil =>
    refine ⟨by simpa [mergeRequirement] using hpaged, List.pairwise_singleton _ _, by simp
      [mergeRequirement], ?_, by simp [mergeRequirement]⟩
    intro b
    rw [hread]
    simp [mergeRequirement]
  | cons p rest =>
    obtain ⟨hp, hrest⟩ := List.forall_mem_cons.mp h.paged
    obtain ⟨happ, happart⟩ := List.pairwise_cons.mp h.apart
    have hpt := hbelow p List.mem_cons_self
    rw [mergeRequirement]
    split
    next htouch =>
      -- The last range grows at its end only, so it stays apart from those before it.
      refine ⟨List.forall_mem_cons.mpr ⟨⟨hp.1, ?_⟩, hrest⟩, List.pairwise_cons.mpr ⟨happ, happart⟩,
        Nat.le_trans hlength (by simp), ?_, ?_⟩
      · rcases max_choice (p.addr + p.size) (t.addr + t.size) with hmax | hmax
        · rw [hmax, Nat.add_sub_cancel_left]
          exact hp.2
        · rw [hmax]
          exact Nat.dvd_sub (Nat.dvd_add hpaged.1 hpaged.2) hp.1
      · intro b
        have hgrown : (p.addr ≤ b ∧
            b < p.addr + (max (p.addr + p.size) (t.addr + t.size) - p.addr)) ↔
            p.Covers b ∨ t.Covers b := by
          simp only [MemorySyncRequirement.Covers]
          omega
        rw [hread, List.exists_mem_cons_iff, List.exists_mem_cons_iff, or_right_comm]
        exact or_congr_left hgrown
      · exact List.forall_mem_cons.mpr (List.forall_mem_cons.mp hkeep)
    next htouch =>
      refine ⟨List.forall_mem_cons.mpr ⟨hpaged, h.paged⟩, List.pairwise_cons.mpr ⟨?_, h.apart⟩,
        ?_, ?_, List.forall_mem_cons.mpr ⟨⟨t, by simp, rfl⟩, hkeep⟩⟩
      · refine List.forall_mem_cons.mpr ⟨by omega, ?_⟩
        intro r hr
        have := happ r hr
        omega
      · rw [List.length_append]
        exact Nat.succ_le_succ hlength
      · intro b
        rw [hread, List.exists_mem_cons_iff]
        exact or_comm

theorem foldl_merged (sorted : List MemorySyncRequirement) (h : Merged read merged)
    (hpaged : ∀ r ∈ sorted, r.Paged)
    (hsorted : (read ++ sorted).Pairwise fun a b => a.addr ≤ b.addr) :
    Merged (read ++ sorted) (sorted.foldl mergeRequirement merged) := by
  induction sorted generalizing read merged with
  | nil => rwa [List.append_nil]
  | cons t sorted ih =>
    have hle : ∀ r ∈ read, r.addr ≤ t.addr := fun r hr =>
      (List.pairwise_append.mp hsorted).2.2 r hr t List.mem_cons_self
    rw [List.append_cons] at hsorted ⊢
    exact ih (h.step (hpaged t List.mem_cons_self) hle)
      (fun r hr => hpaged r (List.mem_cons_of_mem t hr)) hsorted

theorem alignToPages_spec (r : MemorySyncRequirement) : (alignToPages r).Paged ∧
    ∀ b, (alignToPages r).Covers b ↔ r.addr / targetPageSize * targetPageSize ≤ b ∧
      b < roundUp (r.addr + r.size) targetPageSize := by
  have hend := le_roundUp (r.addr + r.size) (d := targetPageSize) (by decide)
  have hstart := Nat.div_mul_le_self r.addr targetPageSize
  refine ⟨⟨Nat.dvd_mul_left _ _, Nat.dvd_sub (dvd_roundUp _ _) (Nat.dvd_mul_left _ _)⟩, ?_⟩
  intro b
  simp only [alignToPages, MemorySyncRequirement.Covers]
  omega

/-- **Every requested byte is tested**: the merged ranges are whole pages, in order, with a gap
between any two, no more than the requests, and cover the pages of the requests. -/
theorem syncVertexRam_covers (requests sorted : List MemorySyncRequirement)
    (hperm : sorted.Perm (requests.map alignToPages))
    (hsorted : sorted.Pairwise fun a b => a.addr ≤ b.addr) :
    let tested := mergeRequirements sorted
    (∀ r ∈ tested, r.Paged) ∧ (tested.Pairwise fun a b => a.addr + a.size < b.addr) ∧
      tested.length ≤ requests.length ∧
      ∀ b, (∃ r ∈ tested, r.Covers b) ↔
        ∃ r ∈ requests, r.addr / targetPageSize * targetPageSize ≤ b ∧
          b < roundUp (r.addr + r.size) targetPageSize := by
  have hpaged : ∀ r ∈ sorted, r.Paged := by
    intro r hr
    obtain ⟨r, -, rfl⟩ := List.mem_map.mp (hperm.mem_iff.mp hr)
    exact (alignToPages_spec r).1
  have hnil : Merged [] [] := ⟨by simp, List.Pairwise.nil, Nat.le_refl 0, by simp, by simp⟩
  have h := foldl_merged sorted hnil hpaged hsorted
  rw [List.nil_append] at h
  refine ⟨?_, List.pairwise_reverse.mpr h.apart, ?_, ?_⟩
  · intro r hr
    exact h.paged r (List.mem_reverse.mp hr)
  · have hlen := hperm.length_eq
    rw [List.length_map] at hlen
    rw [mergeRequirements, List.length_reverse, ← hlen]
    exact h.length
  · intro b
    simp only [mergeRequirements, List.mem_reverse, h.covers b, hperm.mem_iff, List.mem_map,
      exists_exists_and_eq_and, (alignToPages_spec _).2]

theorem syncVertexRam_three :
    ∃ r ∈ mergeRequirements [⟨0, 4096⟩, ⟨4096, 4096⟩, ⟨12288, 4096⟩], r.Covers 5009 :=
  ((syncVertexRam_covers [⟨5000, 10⟩, ⟨12300, 1⟩, ⟨0, 4096⟩] _ (by decide) (by decide)).2.2.2
    5009).mpr ⟨⟨5000, 10⟩, by decide, by decide⟩

end DukeX.Nv2a
