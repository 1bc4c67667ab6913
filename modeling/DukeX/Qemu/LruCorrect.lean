import DukeX.Qemu.Lru

/-!
# The cache is one

What holds of the lists and counters after any history of calls, which node a lookup returns, and
which one it evicts: among the nodes in use the order of the global list is the order of the last
lookups, so the search from its tail meets the oldest first.
-/

namespace DukeX.Qemu

open Function (update update_of_ne update_self)
open Option (bind_eq_some_iff)

section Lists

variable {N : Type}

variable {l : List N}

theorem find?_reverse_last {p : N → Bool} {n : N}
    (h : l.reverse.find? p = some n) :
    p n = true ∧ ∃ before after, l = before ++ n :: after ∧ ∀ m ∈ after, p m = false := by
  obtain ⟨hp, as, bs, heq, has⟩ := List.find?_eq_some_iff_append.mp h
  refine ⟨hp, bs.reverse, as.reverse, ?_, ?_⟩
  · rw [← List.reverse_reverse l, heq, List.reverse_append, List.reverse_cons, List.append_assoc]
    rfl
  · intro m hm
    have := has m (List.mem_reverse.mp hm)
    simpa using this

variable [DecidableEq N]

theorem countP_update (hnd : l.Nodup) {n : N} (hn : n ∈ l) (p : N → Bool) (b : Bool) :
    (l.countP (update p n b) : Int) = l.countP p - (p n).toNat + b.toNat := by
  have hsplit : ∀ q : N → Bool, l.countP q = (l.erase n).countP q + (q n).toNat := by
    intro q
    rw [(List.perm_cons_erase hn).countP_eq q, List.countP_cons]
    cases q n <;> rfl
  have hrest : (l.erase n).countP (update p n b) = (l.erase n).countP p := by
    apply List.countP_congr
    intro m hm
    rw [update_of_ne]
    intro hmn
    exact hnd.not_mem_erase (hmn ▸ hm)
  simp_all

theorem not_update (p : N → Bool) (n : N) (b : Bool) :
    (fun m => !update p n b m) = update (fun m => !p m) n !b := by
  grind

end Lists

/-! ## The order of the global list -/

section Order

variable {N Key : Type}

def Lru.Used (lru : Lru N Key) (n : N) : Prop := n ∈ lru.global ∧ lru.inUse n = true

variable [DecidableEq N]

structure Lru.Recent (lru : Lru N Key) (returned : List N) : Prop where
  looked : ∀ n, lru.Used n → n ∈ returned
  sorted : (lru.global.filter lru.inUse).Pairwise fun a b => returned.idxOf a < returned.idxOf b

variable {lru lru' : Lru N Key} {returned : List N}

theorem Lru.Recent.of_sublist (h : lru.Recent returned)
    (hsub : (lru'.global.filter lru'.inUse).Sublist (lru.global.filter lru.inUse)) :
    lru'.Recent returned := by
  refine ⟨?_, h.sorted.sublist hsub⟩
  intro n hn
  have hmem := hsub.subset (List.mem_filter.mpr hn)
  exact h.looked n (List.mem_filter.mp hmem)

variable {n : N}

theorem Lru.Recent.first
    (h : lru.Recent returned) (hnd : lru.global.Nodup)
    (hglobal : lru'.global = n :: lru.global.erase n)
    (hinUse : lru'.inUse = update lru.inUse n true) : lru'.Recent (n :: returned) := by
  have hother : ∀ m ∈ lru.global.erase n, m ≠ n := by
    intro m hm he
    exact hnd.not_mem_erase (he ▸ hm)
  have hrest : (lru.global.erase n).filter lru'.inUse = (lru.global.erase n).filter lru.inUse := by
    apply List.filter_congr
    simp_all
  have hfilter : lru'.global.filter lru'.inUse = n :: (lru.global.erase n).filter lru.inUse := by
    simp_all
  have hidx : ∀ m ∈ (lru.global.erase n).filter lru.inUse,
      (n :: returned).idxOf m = returned.idxOf m + 1 := by
    grind
  constructor
  · intro m hm
    have hmem : m ∈ lru'.global.filter lru'.inUse := List.mem_filter.mpr hm
    rw [hfilter, List.mem_cons] at hmem
    rcases hmem with rfl | hmem
    · exact List.mem_cons_self
    · obtain ⟨hm', hu⟩ := List.mem_filter.mp hmem
      exact List.mem_cons_of_mem n (h.looked m ⟨List.mem_of_mem_erase hm', hu⟩)
  · rw [hfilter, List.pairwise_cons]
    constructor
    · grind
    · refine (h.sorted.sublist (List.erase_sublist.filter lru.inUse)).imp_of_mem ?_
      intro a b ha hb hab
      rw [hidx a ha, hidx b hb]
      exact Nat.succ_lt_succ hab

theorem lruEvictNode_global (lru : Lru N Key) (node : N) :
    (lruEvictNode lru node).global = lru.global := by
  rw [lruEvictNode]
  split <;> rfl

theorem lruEvictNode_inUse (lru : Lru N Key) (node : N) :
    (lruEvictNode lru node).inUse = update lru.inUse node false := by
  rw [lruEvictNode]
  grind

theorem filter_evict_sublist (lru : Lru N Key) (node : N) (l : List N) :
    (l.filter (lruEvictNode lru node).inUse).Sublist (l.filter lru.inUse) := by
  rw [lruEvictNode_inUse]
  apply List.monotone_filter_right
  grind

theorem lruEvictNode_used {node : N} (hu : lru.inUse node = true) (m : N) :
    (lruEvictNode lru node).Used m ↔ lru.Used m ∧ m ≠ node := by
  rw [lruEvictNode, if_pos hu]
  grind [Lru.Used]

theorem Lru.Recent.evictNode (h : lru.Recent returned)
    (node : N) : (lruEvictNode lru node).Recent returned := by
  apply h.of_sublist
  simp [lruEvictNode_global, filter_evict_sublist]

theorem Lru.Recent.addFree {node : N}
    (h : lru.Recent returned) (hadd : lruAddFree lru node = some lru') : lru'.Recent returned := by
  rw [lruAddFree] at hadd
  split at hadd
  · cases hadd
  · rename_i hnew
    cases hadd
    apply h.of_sublist
    have hlast : [node].filter (update lru.inUse node false) = [] := by simp
    simp only [List.filter_append, hlast, List.append_nil]
    apply List.monotone_filter_right
    grind

variable {preNodeEvict : N → Bool}

theorem lruTryEvictOne_oldest (hr : lru.Recent returned)
    (h : lruTryEvictOne lru preNodeEvict = (some n, lru')) :
    lru.Used n ∧ preNodeEvict n = true ∧ lru' = lruEvictNode lru n ∧
      ∀ m, lru.Used m → preNodeEvict m = true → m ≠ n → returned.idxOf m < returned.idxOf n := by
  rw [lruTryEvictOne] at h
  split at h
  · rename_i found hfound
    cases h
    obtain ⟨hp, before, after, hsplit, hafter⟩ := find?_reverse_last hfound
    rw [Bool.and_eq_true] at hp
    refine ⟨⟨?_, hp.1⟩, hp.2, rfl, ?_⟩
    · rw [hsplit]
      simp
    · intro m hm hallow hne
      have hbefore : m ∈ before := by
        have hmem := hm.1
        rw [hsplit, List.mem_append, List.mem_cons] at hmem
        rcases hmem with hmem | hmem | hmem
        · exact hmem
        · exact absurd hmem hne
        · have := hafter m hmem
          rw [hm.2, hallow] at this
          cases this
      have hsorted := hr.sorted
      rw [hsplit, List.filter_append, List.filter_cons_of_pos hp.1, List.pairwise_append] at hsorted
      exact hsorted.2.2 m (List.mem_filter.mpr ⟨hbefore, hm.2⟩) n List.mem_cons_self
  · cases h

theorem lruGetOneFree_cases
    (h : lruGetOneFree lru preNodeEvict = some (n, lru')) :
    (n ∈ lru.global ∧ lru.inUse n = false ∧ lru' = lru) ∨
      ((∀ m ∈ lru.global, lru.inUse m = true) ∧
        lruTryEvictOne lru preNodeEvict = (some n, lru')) := by
  rw [lruGetOneFree] at h
  split at h
  · grind
  · grind [lruEvictOne]

theorem lruGetOneFree_isSome_iff :
    (lruGetOneFree lru preNodeEvict).isSome ↔
      ∃ n ∈ lru.global, lru.inUse n = false ∨ preNodeEvict n = true := by
  rw [lruGetOneFree]
  split
  · grind
  · rename_i hnone
    have hall : ∀ m ∈ lru.global, lru.inUse m = true := by
      simp_all
    rw [lruEvictOne, lruTryEvictOne]
    split
    · rename_i found htry
      grind
    · rename_i htry
      split at htry
      · cases htry
      · rename_i hnone'
        refine iff_of_false (by simp) ?_
        intro hex
        obtain ⟨m, hm, hmay⟩ := hex
        rw [hall m hm] at hmay
        rcases hmay with hmay | hmay
        · cases hmay
        · have := List.find?_eq_none.mp hnone' m (List.mem_reverse.mpr hm)
          rw [hall m hm, hmay] at this
          exact this rfl

end Order

section Invariant

variable {N Key : Type} [Setoid Key]

def Lru.Matches (lru : Lru N Key) (n : N) (hash : UInt64) (key : Key) : Prop :=
  lru.hash n = hash ∧ lru.key n ≈ key

structure Lru.Wf (lru : Lru N Key) : Prop where
  nodup : lru.global.Nodup
  mem_bins : ∀ b n, n ∈ lru.bins b ↔ lru.Used n ∧ b = lruGetNodeBin lru n
  bins_nodup : ∀ b, (lru.bins b).Nodup
  numUsed : lru.numUsed = lru.global.countP lru.inUse
  numFree : lru.numFree = lru.global.countP fun n => !lru.inUse n
  unique : ∀ n m, lru.Used n → lru.Used m → lru.hash n = lru.hash m → lru.key n ≈ lru.key m → n = m

variable {lru : Lru N Key}

theorem Lru.Wf.of_perm (h : lru.Wf) {global : List N} {bins : Nat → List N}
    (hglobal : global.Perm lru.global) (hbins : ∀ b, (bins b).Perm (lru.bins b)) :
    ({ lru with global := global, bins := bins } : Lru N Key).Wf := by
  have hused : ∀ n, ({ lru with global := global, bins := bins } : Lru N Key).Used n ↔
      lru.Used n := fun n => and_congr_left' hglobal.mem_iff
  exact
    { nodup := hglobal.nodup_iff.mpr h.nodup
      mem_bins := fun b n => by rw [(hbins b).mem_iff, h.mem_bins, hused]; rfl
      bins_nodup := fun b => (hbins b).nodup_iff.mpr (h.bins_nodup b)
      numUsed := by rw [hglobal.countP_eq]; exact h.numUsed
      numFree := by rw [hglobal.countP_eq]; exact h.numFree
      unique := fun n m hn hm => h.unique n m ((hused n).mp hn) ((hused m).mp hm) }

variable [DecidableEq N]

variable {lru' : Lru N Key}

theorem Lru.Wf.addFree {node : N} (h : lru.Wf)
    (hadd : lruAddFree lru node = some lru') : lru'.Wf ∧ node ∉ lru.global := by
  rw [lruAddFree] at hadd
  split at hadd
  · cases hadd
  · rename_i hnew
    cases hadd
    have hother : ∀ m ∈ lru.global, update lru.inUse node false m = lru.inUse m := by
      grind
    have hused : ∀ m, (m ∈ lru.global ++ [node] ∧ update lru.inUse node false m = true) ↔
        lru.Used m := by
      intro m
      rw [List.mem_append, List.mem_singleton]
      constructor
      · intro hm
        obtain ⟨hm | rfl, hu⟩ := hm
        · exact ⟨hm, hother m hm ▸ hu⟩
        · rw [update_self] at hu
          cases hu
      · intro hm
        exact ⟨.inl hm.1, (hother m hm.1).trans hm.2⟩
    refine ⟨?_, hnew⟩
    exact
      { nodup := by
          rw [List.nodup_append]
          refine ⟨h.nodup, List.nodup_singleton node, ?_⟩
          grind
        mem_bins := fun b n => (h.mem_bins b n).trans (and_congr_left' (hused n).symm)
        bins_nodup := h.bins_nodup
        numUsed := by
          have hcount : lru.global.countP (update lru.inUse node false) =
              lru.global.countP lru.inUse := List.countP_congr fun m hm => by rw [hother m hm]
          simp [hcount, h.numUsed]
        numFree := by
          have hcount : (lru.global.countP fun m => !update lru.inUse node false m) =
              lru.global.countP fun m => !lru.inUse m :=
            List.countP_congr fun m hm => by rw [hother m hm]
          simp [hcount, h.numFree]
        unique := fun n m hn hm => h.unique n m ((hused n).mp hn) ((hused m).mp hm) }

theorem Lru.Wf.evictNode {node : N} (h : lru.Wf) (hn : lru.Used node) :
    (lruEvictNode lru node).Wf := by
  have hused := lruEvictNode_used hn.2
  have hbins : (lruEvictNode lru node).bins = update lru.bins (lruGetNodeBin lru node)
      ((lru.bins (lruGetNodeBin lru node)).erase node) := by rw [lruEvictNode, if_pos hn.2]
  have hbin : lruGetNodeBin (lruEvictNode lru node) = lruGetNodeBin lru := by
    rw [lruEvictNode, if_pos hn.2]
    rfl
  refine
    { nodup := ?_, mem_bins := ?_, bins_nodup := ?_, numUsed := ?_, numFree := ?_, unique := ?_ }
  · rw [lruEvictNode, if_pos hn.2]
    exact h.nodup
  · intro b m
    rw [hused, hbins, hbin]
    by_cases hb : b = lruGetNodeBin lru node
    · subst hb
      rw [update_self, (h.bins_nodup _).mem_erase_iff, h.mem_bins]
      tauto
    · rw [update_of_ne hb, h.mem_bins]
      grind
  · intro b
    rw [hbins]
    by_cases hb : b = lruGetNodeBin lru node
    · subst hb
      rw [update_self]
      exact (h.bins_nodup _).erase node
    · rw [update_of_ne hb]
      exact h.bins_nodup b
  · rw [lruEvictNode, if_pos hn.2]
    have := countP_update h.nodup hn.1 lru.inUse false
    rw [hn.2] at this
    simp only [Bool.toNat_true, Bool.toNat_false, Nat.cast_one, Nat.cast_zero] at this
    simp only [this, h.numUsed]
    ring
  · rw [lruEvictNode, if_pos hn.2]
    have := countP_update h.nodup hn.1 (fun m => !lru.inUse m) true
    rw [hn.2] at this
    simp only [Bool.not_true, Bool.toNat_true, Bool.toNat_false, Nat.cast_one, Nat.cast_zero] at this
    simp only [not_update, Bool.not_false, this, h.numFree]
    ring
  · intro n m hun hum
    have hhash : (lruEvictNode lru node).hash = lru.hash := by rw [lruEvictNode, if_pos hn.2]
    have hkey : (lruEvictNode lru node).key = lru.key := by rw [lruEvictNode, if_pos hn.2]
    rw [hhash, hkey]
    exact h.unique n m ((hused n).mp hun).1 ((hused m).mp hum).1

variable {hash : UInt64} {key : Key}

theorem Lru.Wf.take {found : N} (h : lru.Wf)
    (hn : found ∈ lru.global) (hfree : lru.inUse found = false)
    (hnew : ∀ m, lru.Used m → ¬ lru.Matches m hash key) :
    (linkFirst (initNode lru found hash key) found (lruHashToBin hash)).Wf := by
  have hglobal : (found :: lru.global.erase found).Perm lru.global := (List.perm_cons_erase hn).symm
  have hother : ∀ m, lru.Used m → m ≠ found := by
    intro m hm he
    rw [← he, hm.2] at hfree
    cases hfree
  have hused : ∀ m, (linkFirst (initNode lru found hash key) found (lruHashToBin hash)).Used m ↔
      m = found ∨ lru.Used m := by
    intro m
    change m ∈ found :: lru.global.erase found ∧ update lru.inUse found true m = true ↔ _
    grind [Lru.Used]
  have hbin : ∀ m, m ≠ found →
      lruGetNodeBin (linkFirst (initNode lru found hash key) found (lruHashToBin hash)) m =
        lruGetNodeBin lru m := by
    intro m hm
    simp only [lruGetNodeBin, linkFirst, initNode, update_of_ne hm]
  have hbinFound :
      lruGetNodeBin (linkFirst (initNode lru found hash key) found (lruHashToBin hash)) found =
        lruHashToBin hash := by
    simp only [lruGetNodeBin, linkFirst, initNode, update_self]
  have hnotIn : ∀ b, found ∉ lru.bins b := by
    intro b hb
    exact hother found ((h.mem_bins b found).mp hb).1 rfl
  have hmem : ∀ b m, m ∈ update lru.bins (lruHashToBin hash)
      (found :: lru.bins (lruHashToBin hash)) b ↔
      m = found ∧ b = lruHashToBin hash ∨ m ∈ lru.bins b := by
    grind
  refine
    { nodup := hglobal.nodup_iff.mpr h.nodup, mem_bins := ?_, bins_nodup := ?_, numUsed := ?_
      numFree := ?_, unique := ?_ }
  · intro b m
    rw [hused]
    refine (hmem b m).trans ?_
    by_cases hm : m = found
    · subst hm
      rw [hbinFound]
      simp [hnotIn b]
    · rw [hbin m hm, h.mem_bins]
      simp [hm]
  · intro b
    change (update lru.bins (lruHashToBin hash) (found :: lru.bins (lruHashToBin hash))
      b).Nodup
    by_cases hb : b = lruHashToBin hash
    · subst hb
      rw [update_self, List.nodup_cons]
      exact ⟨hnotIn _, h.bins_nodup _⟩
    · rw [update_of_ne hb]
      exact h.bins_nodup b
  · have hcount := countP_update h.nodup hn lru.inUse true
    rw [hfree] at hcount
    simp only [Bool.toNat_true, Bool.toNat_false, Nat.cast_one, Nat.cast_zero] at hcount
    simp only [linkFirst, initNode, hglobal.countP_eq, hcount, h.numUsed]
    ring
  · have hcount := countP_update h.nodup hn (fun m => !lru.inUse m) false
    rw [hfree] at hcount
    simp only [Bool.not_false, Bool.toNat_true, Bool.toNat_false, Nat.cast_one,
      Nat.cast_zero] at hcount
    simp only [linkFirst, initNode, hglobal.countP_eq, not_update, Bool.not_true, hcount, h.numFree]
    ring
  · intro n m hun hum hhash hkey
    simp only [linkFirst, initNode] at hhash hkey
    -- two old nodes are told apart as before; an old one and the new one by the key
    rcases (hused n).mp hun with rfl | hun'
    · rcases (hused m).mp hum with rfl | hum'
      · rfl
      · have hne := hother m hum'
        rw [update_self, update_of_ne hne] at hhash hkey
        exact absurd ⟨hhash.symm, Setoid.symm hkey⟩ (hnew m hum')
    · have hne := hother n hun'
      rcases (hused m).mp hum with rfl | hum'
      · rw [update_self, update_of_ne hne] at hhash hkey
        exact absurd ⟨hhash, hkey⟩ (hnew n hun')
      · have hne' := hother m hum'
        rw [update_of_ne hne, update_of_ne hne'] at hhash hkey
        exact h.unique n m hun' hum' hhash hkey

variable {returned : List N} {n : N}

theorem flushNode_spec
    (preNodeEvict : N → Bool) (h : lru.Wf) (hr : lru.Recent returned) (hn : n ∈ lru.global) :
    (flushNode preNodeEvict lru n).Wf ∧ (flushNode preNodeEvict lru n).Recent returned ∧
      (flushNode preNodeEvict lru n).global.Perm lru.global := by
  rw [flushNode]
  split
  · have hwf : (lruEvictNode lru n).Wf := by
      by_cases hu : lru.inUse n = true
      · exact h.evictNode ⟨hn, hu⟩
      · rwa [lruEvictNode, if_neg hu]
    have hglobal := lruEvictNode_global lru n
    have hperm : ((lruEvictNode lru n).global.erase n ++ [n]).Perm (lruEvictNode lru n).global := by
      rw [hglobal]
      exact List.perm_append_comm.trans (List.perm_cons_erase hn).symm
    refine ⟨hwf.of_perm hperm fun b => List.Perm.refl _, ?_, ?_⟩
    · have hlast : [n].filter (lruEvictNode lru n).inUse = [] := by
        rw [lruEvictNode_inUse]
        simp
      apply (hr.evictNode n).of_sublist
      simp only [List.filter_append, hlast, List.append_nil]
      exact List.erase_sublist.filter _
    · rw [← hglobal]
      exact hperm
  · exact ⟨h, hr, List.Perm.refl _⟩

theorem flushBin_spec (preNodeEvict : N → Bool) (l : List N) :
    ∀ {lru : Lru N Key}, lru.Wf → lru.Recent returned → l ⊆ lru.global →
      (l.foldl (flushNode preNodeEvict) lru).Wf ∧
        (l.foldl (flushNode preNodeEvict) lru).Recent returned ∧
        (l.foldl (flushNode preNodeEvict) lru).global.Perm lru.global := by
  induction l with
  | nil =>
    intro lru h hr _
    exact ⟨h, hr, List.Perm.refl _⟩
  | cons n l ih =>
    intro lru h hr hsub
    obtain ⟨h1, hr1, hperm1⟩ :=
      flushNode_spec preNodeEvict h hr (hsub List.mem_cons_self)
    grind

theorem lruFlush_spec (preNodeEvict : N → Bool) (h : lru.Wf)
    (hr : lru.Recent returned) :
    (lruFlush lru preNodeEvict).Wf ∧ (lruFlush lru preNodeEvict).Recent returned ∧
      (lruFlush lru preNodeEvict).global.Perm lru.global := by
  rw [lruFlush]
  generalize List.range lruNumBins = bins
  induction bins generalizing lru with
  | nil => exact ⟨h, hr, List.Perm.refl _⟩
  | cons b bins ih =>
    have hsub : lru.bins b ⊆ lru.global := fun m hm => ((h.mem_bins b m).mp hm).1.1
    grind [flushBin_spec]

variable [DecidableRel ((· ≈ ·) : Key → Key → Prop)]

omit [DecidableEq N] in
theorem lruFind_some (h : lru.Wf)
    (hfind : lruFind lru hash key = some n) :
    lru.Used n ∧ lru.Matches n hash key ∧ n ∈ lru.bins (lruHashToBin hash) := by
  have hmem := List.mem_of_find?_eq_some hfind
  have hp : lru.hash n = hash ∧ lru.key n ≈ key := by
    have := List.find?_some hfind
    rwa [decide_eq_true_eq] at this
  exact ⟨((h.mem_bins _ n).mp hmem).1, hp, hmem⟩

omit [DecidableEq N] in
theorem lruFind_none (h : lru.Wf)
    (hfind : lruFind lru hash key = none) {m : N} (hm : lru.Used m) : ¬ lru.Matches m hash key := by
  intro hmatch
  have hmem : m ∈ lru.bins (lruHashToBin hash) := by
    rw [h.mem_bins]
    exact ⟨hm, by rw [lruGetNodeBin, hmatch.1]⟩
  have := List.find?_eq_none.mp hfind m hmem
  rw [decide_eq_true_eq] at this
  exact this hmatch

variable {preNodeEvict : N → Bool}

theorem Lru.Wf.lookup (h : lru.Wf) (hr : lru.Recent returned)
    (hl : lruLookup lru hash key preNodeEvict = some (n, lru')) :
    lru'.Wf ∧ lru'.Recent (n :: returned) ∧ lru'.global.Perm lru.global ∧ lru'.Used n ∧
      lru'.Matches n hash key := by
  rw [lruLookup] at hl
  split at hl
  · rename_i found hfind
    cases hl
    obtain ⟨hused, hmatch, hbin⟩ := lruFind_some h hfind
    have hperm : (n :: lru.global.erase n).Perm lru.global :=
      (List.perm_cons_erase hused.1).symm
    have hinUse : update lru.inUse n true = lru.inUse := by
      rw [← hused.2, Function.update_eq_self]
    have hfirst : ∀ bins : Nat → List N, ({ lru with
        global := n :: lru.global.erase n, bins := bins
        inUse := update lru.inUse n true } : Lru N Key).Recent (n :: returned) :=
      fun _ => hr.first h.nodup rfl rfl
    refine ⟨?_, hfirst _, hperm, ⟨List.mem_cons_self, update_self ..⟩, hmatch⟩
    simp only [linkFirst, hinUse]
    refine h.of_perm hperm ?_
    intro b
    by_cases hb : b = lruHashToBin hash
    · grind
    · rw [update_of_ne hb, update_of_ne hb]
  · rename_i hfind
    obtain ⟨⟨found, lru1⟩, hget, hret⟩ := bind_eq_some_iff.mp hl
    cases hret
    have hnone : ∀ m, lru.Used m → ¬ lru.Matches m hash key := fun m hm => lruFind_none h hfind hm
    -- a free node is taken as it is; an evicted one is free then
    have hfree : lru1.Wf ∧ lru1.Recent returned ∧ lru1.global = lru.global ∧ n ∈ lru1.global ∧
        lru1.inUse n = false ∧ ∀ m, lru1.Used m → ¬ lru1.Matches m hash key := by
      rcases lruGetOneFree_cases hget with ⟨hmem, hfree, rfl⟩ | ⟨_, htry⟩
      · exact ⟨h, hr, rfl, hmem, hfree, hnone⟩
      · obtain ⟨hused, _, rfl, _⟩ := lruTryEvictOne_oldest hr htry
        refine ⟨h.evictNode hused, hr.evictNode n, lruEvictNode_global lru n, ?_, ?_, ?_⟩
        · rw [lruEvictNode_global]
          exact hused.1
        · rw [lruEvictNode_inUse, update_self]
        · intro m hm hmatch
          have hold := ((lruEvictNode_used hused.2 m).mp hm).1
          refine hnone m hold ?_
          rw [lruEvictNode, if_pos hused.2] at hmatch
          exact hmatch
    obtain ⟨hwf, hrecent, hglobal, hmem, hfree, hnew⟩ := hfree
    refine ⟨hwf.take hmem hfree hnew, ?_, ?_, ?_, ?_⟩
    · exact hrecent.first hwf.nodup rfl rfl
    · rw [← hglobal]
      exact (List.perm_cons_erase hmem).symm
    · exact ⟨List.mem_cons_self, update_self ..⟩
    · constructor
      · exact update_self ..
      · simp [linkFirst, initNode]

theorem lruLookup_frame (hl : lruLookup lru hash key preNodeEvict = some (n, lru')) :
    (lruFind lru hash key = some n ∧ lru'.inUse = update lru.inUse n true ∧
        lru'.key = lru.key) ∨
      (lruFind lru hash key = none ∧ (lru.inUse n = false ∨ preNodeEvict n = true) ∧
        lru'.inUse = update lru.inUse n true ∧
        lru'.key = update lru.key n key) := by
  rw [lruLookup] at hl
  split at hl
  · rename_i found hfind
    cases hl
    exact .inl ⟨hfind, rfl, rfl⟩
  · rename_i hfind
    obtain ⟨⟨found, lru1⟩, hget, hret⟩ := bind_eq_some_iff.mp hl
    cases hret
    refine .inr ⟨hfind, ?_⟩
    rcases lruGetOneFree_cases hget with ⟨_, hfree, rfl⟩ | ⟨_, htry⟩
    · exact ⟨.inl hfree, rfl, rfl⟩
    · rw [lruTryEvictOne] at htry
      split at htry
      · rename_i hfound
        cases htry
        have hp := List.find?_some hfound
        rw [Bool.and_eq_true] at hp
        refine ⟨.inr hp.2, ?_, ?_⟩
        · simp only [linkFirst, initNode, lruEvictNode_inUse, Function.update_idem]
        · simp only [linkFirst, initNode, lruEvictNode, hp.1, if_true]
      · cases htry

theorem lruLookup_isSome_iff (h : lru.Wf) :
    (lruLookup lru hash key preNodeEvict).isSome ↔
      (∃ n, lru.Used n ∧ lru.Matches n hash key) ∨
        ∃ n ∈ lru.global, lru.inUse n = false ∨ preNodeEvict n = true := by
  rw [lruLookup]
  split
  · rename_i found hfind
    obtain ⟨hused, hmatch, _⟩ := lruFind_some h hfind
    exact iff_of_true rfl (.inl ⟨found, hused, hmatch⟩)
  · rename_i hfind
    rw [← lruGetOneFree_isSome_iff]
    have hno : ¬ ∃ n, lru.Used n ∧ lru.Matches n hash key := by
      grind [lruFind_none]
    cases lruGetOneFree lru preNodeEvict with
    | none => simp [hno]
    | some r => simp

omit [DecidableRel ((· ≈ ·) : Key → Key → Prop)] in
/-! ## Whole histories -/

structure History.Inv (h : History N Key) : Prop where
  wf : h.lru.Wf
  recent : h.lru.Recent h.returned
  added : h.lru.global.Perm h.added

theorem History.Inv.step {h h' : History N Key} {op : Op N Key} (hi : h.Inv)
    (hstep : h.step op = some h') : h'.Inv := by
  cases op with
  | addFree node =>
    obtain ⟨lru, hadd, hret⟩ := bind_eq_some_iff.mp hstep
    cases hret
    obtain ⟨hwf, hnew⟩ := hi.wf.addFree hadd
    refine ⟨hwf, hi.recent.addFree hadd, ?_⟩
    rw [lruAddFree, if_neg hnew] at hadd
    cases hadd
    exact List.perm_append_comm.trans (hi.added.cons node)
  | lookup hash key preNodeEvict =>
    obtain ⟨⟨found, lru⟩, hl, hret⟩ := bind_eq_some_iff.mp hstep
    cases hret
    obtain ⟨hwf, hrecent, hperm, _, _⟩ := hi.wf.lookup hi.recent hl
    exact ⟨hwf, hrecent, hperm.trans hi.added⟩
  | tryEvictOne preNodeEvict =>
    cases hstep
    cases htry : lruTryEvictOne h.lru preNodeEvict with
    | mk r lru =>
      cases r with
      | none =>
        rw [lruTryEvictOne] at htry
        split at htry
        · cases htry
        · cases htry
          exact hi
      | some n =>
        obtain ⟨hused, _, rfl, _⟩ := lruTryEvictOne_oldest hi.recent htry
        refine ⟨hi.wf.evictNode hused, hi.recent.evictNode n, ?_⟩
        rw [lruEvictNode_global]
        exact hi.added
  | evictOne preNodeEvict =>
    obtain ⟨⟨n, lru⟩, hevict, hret⟩ := bind_eq_some_iff.mp hstep
    cases hret
    rw [lruEvictOne] at hevict
    split at hevict
    · rename_i htry
      cases hevict
      obtain ⟨hused, _, rfl, _⟩ := lruTryEvictOne_oldest hi.recent htry
      refine ⟨hi.wf.evictNode hused, hi.recent.evictNode n, ?_⟩
      rw [lruEvictNode_global]
      exact hi.added
    · cases hevict
  | flush preNodeEvict =>
    rw [History.step, Option.some.injEq] at hstep
    rw [← hstep]
    have hflush := lruFlush_spec preNodeEvict hi.wf hi.recent
    generalize lruFlush h.lru preNodeEvict = lru at hflush ⊢
    exact ⟨hflush.1, hflush.2.1, hflush.2.2.trans hi.added⟩

theorem History.Inv.run {h h' : History N Key} (ops : List (Op N Key)) (hi : h.Inv)
    (hrun : ops.foldlM History.step h = some h') : h'.Inv := by
  induction ops generalizing h with
  | nil =>
    cases hrun
    exact hi
  | cons op ops ih =>
    obtain ⟨h1, hstep, hrest⟩ := bind_eq_some_iff.mp hrun
    exact ih (hi.step hstep) hrest

omit [DecidableRel ((· ≈ ·) : Key → Key → Prop)] in
theorem History.Inv.init (hash : N → UInt64) (inUse : N → Bool) (key : N → Key) :
    (History.init hash inUse key).Inv where
  wf :=
    { nodup := List.nodup_nil
      mem_bins := fun b n => by simp [History.init, Lru.Used]
      bins_nodup := fun b => List.nodup_nil
      numUsed := rfl
      numFree := rfl
      unique := fun n m hn => by simp [History.init, Lru.Used] at hn }
  recent := ⟨fun n hn => by simp [History.init, Lru.Used] at hn, List.Pairwise.nil⟩
  added := List.Perm.refl _

/-- After any history of calls the lists and counters agree with the nodes in use, and the next
lookup finds, takes or evicts the right node. -/
theorem lru_correct {hash : N → UInt64} {inUse : N → Bool} {key : N → Key} {ops : List (Op N Key)}
    {h : History N Key} (hrun : ops.foldlM History.step (History.init hash inUse key) = some h) :
    (h.lru.global.Nodup ∧ h.lru.global.Perm h.added) ∧
    (∀ b, (h.lru.bins b).Nodup ∧
      ∀ n, n ∈ h.lru.bins b ↔ h.lru.Used n ∧ b = (h.lru.hash n).toNat % lruNumBins) ∧
    (∀ n m hash key, h.lru.Used n → h.lru.Used m → h.lru.Matches n hash key →
      h.lru.Matches m hash key → n = m) ∧
    (h.lru.numUsed = h.lru.global.countP h.lru.inUse ∧
      h.lru.numFree = h.lru.global.countP fun n => !h.lru.inUse n) ∧
    ∀ hash key preNodeEvict,
      ((lruLookup h.lru hash key preNodeEvict).isSome ↔
        (∃ n, h.lru.Used n ∧ h.lru.Matches n hash key) ∨
          ∃ n ∈ h.lru.global, h.lru.inUse n = false ∨ preNodeEvict n = true) ∧
      ∀ n lru', lruLookup h.lru hash key preNodeEvict = some (n, lru') →
        lru'.Used n ∧ lru'.Matches n hash key ∧
        -- no node has the key and none is free
        ((∀ m, h.lru.Used m → ¬ h.lru.Matches m hash key) → (∀ m ∈ h.lru.global, h.lru.Used m) →
          h.lru.Used n ∧ preNodeEvict n = true ∧
          (∀ m, h.lru.Used m → preNodeEvict m = true → m ≠ n →
            h.returned.idxOf m < h.returned.idxOf n) ∧
          ∀ m, m ≠ n → (lru'.Used m ↔ h.lru.Used m)) := by
  have hi := (History.Inv.init hash inUse key).run ops hrun
  refine ⟨⟨hi.wf.nodup, hi.added⟩, fun b => ⟨hi.wf.bins_nodup b, hi.wf.mem_bins b⟩, ?_,
    ⟨hi.wf.numUsed, hi.wf.numFree⟩, ?_⟩
  · intro n m hash key hn hm hmatch hmatch'
    exact hi.wf.unique n m hn hm (hmatch.1.trans hmatch'.1.symm)
      (Setoid.trans hmatch.2 (Setoid.symm hmatch'.2))
  · intro hash key preNodeEvict
    refine ⟨lruLookup_isSome_iff hi.wf, ?_⟩
    intro n lru' hl
    obtain ⟨hwf', _, hperm, hused, hmatch⟩ := hi.wf.lookup hi.recent hl
    refine ⟨hused, hmatch, ?_⟩
    intro hnone hfull
    have hfind : lruFind h.lru hash key = none := by
      cases hfind : lruFind h.lru hash key with
      | none => rfl
      | some m =>
        obtain ⟨hm, hmatch, _⟩ := lruFind_some hi.wf hfind
        exact absurd hmatch (hnone m hm)
    rw [lruLookup, hfind] at hl
    obtain ⟨⟨found, lru₁⟩, hget, hret⟩ := bind_eq_some_iff.mp hl
    cases hret
    rcases lruGetOneFree_cases hget with ⟨hmem, hfree, _⟩ | ⟨_, htry⟩
    · rw [(hfull n hmem).2] at hfree
      cases hfree
    · obtain ⟨hn, hallow, rfl, hold⟩ := lruTryEvictOne_oldest hi.recent htry
      refine ⟨hn, hallow, hold, ?_⟩
      intro m hm
      have hglobal : m ∈ (linkFirst (initNode (lruEvictNode h.lru n) n hash key) n
          (lruHashToBin hash)).global ↔ m ∈ h.lru.global := hperm.mem_iff
      rw [Lru.Used, hglobal]
      simp only [linkFirst, initNode, lruEvictNode_inUse, update_of_ne hm]
      rfl

end Invariant

inductive Colour where
  | red
  | green
  | blue
  deriving DecidableEq, Repr

instance : Setoid Colour := ⟨Eq, eq_equivalence⟩

instance : DecidableRel ((· ≈ ·) : Colour → Colour → Prop) :=
  inferInstanceAs (DecidableEq Colour)

theorem lru_correct_evicting :
    ∃ h : History Nat Colour, List.foldlM History.step
        (History.init (fun _ => 0) (fun _ => true) fun _ => .red)
        [.addFree 0, .addFree 1, .lookup 5 .red fun _ => true, .lookup 6 .green fun _ => true] =
          some h ∧
      h.lru.numUsed = h.lru.global.countP h.lru.inUse ∧
      (lruLookup h.lru 7 .blue fun _ => true).map Prod.fst = h.returned.getLast? :=
  ⟨_, rfl, (@lru_correct Nat Colour _ _ _ (fun _ => 0) (fun _ => true) (fun _ => .red)
    [.addFree 0, .addFree 1, .lookup 5 .red fun _ => true, .lookup 6 .green fun _ => true] _
    rfl).2.2.2.1.1, rfl⟩

theorem lruLookup_stuck :
    (lruLookup (History.init (fun _ : Nat => 0) (fun _ => false) fun _ => Colour.red).lru 5 .red
      fun _ => true) = none ∧
    ∃ h : History Nat Colour, List.foldlM History.step
        (History.init (fun _ => 0) (fun _ => true) fun _ => .red)
        [.addFree 0, .lookup 5 .red fun _ => true] = some h ∧
      (lruLookup h.lru 6 .green fun _ => false) = none :=
  ⟨rfl, _, rfl, rfl⟩

end DukeX.Qemu
