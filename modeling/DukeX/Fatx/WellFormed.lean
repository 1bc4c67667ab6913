import DukeX.Fatx.Import

/-!
# Well-formed volumes

What it means for a volume to be in order, stated over the cluster tables: the root directory and
every entry reachable from it own a chain that ends with an end-of-chain mark, and no two of them
share a cluster.
-/

namespace DukeX.Fatx

open DukeX.Lib DukeX.Swift

namespace FATXVolume

variable (v : FATXVolume)

/-! ## Chains of a volume -/

/-- The allocation chain from `c`. -/
def FatChain (a : ClusterStore) (c : Nat) (l : List Nat) : Prop :=
  Chain (v.next a) c l ∧ ∀ x ∈ l, v.inRange x = true

def SameOn (P : Nat → Prop) (a a' : ClusterStore) : Prop :=
  ∀ c, P c → v.next a' c = v.next a c ∧ a'.data c = a.data c

variable {v} {a a' : ClusterStore} {c d k : Nat} {l l' : List Nat}

theorem SameOn.trans {P : Nat → Prop} {a1 a2 a3 : ClusterStore} (h : v.SameOn P a1 a2)
    (h' : v.SameOn P a2 a3) : v.SameOn P a1 a3 := fun c hc =>
  ⟨(h' c hc).1.trans (h c hc).1, (h' c hc).2.trans (h c hc).2⟩

section

variable (h : v.FatChain a c l)

include h

theorem FatChain.unique (h' : v.FatChain a c l') : l = l' :=
  h.1.unique h'.1

theorem FatChain.inRange (hk : k ∈ l) : v.inRange k = true := h.2 k hk

theorem FatChain.start_pos : c ≠ 0 := by
  have := inRange_iff.mp (h.inRange h.1.head_mem)
  omega

theorem FatChain.length_le : l.length ≤ v.clusterCount := by
  have hsub : l ⊆ List.range' 1 v.clusterCount := fun x hx => by
    have := inRange_iff.mp (h.inRange hx)
    exact List.mem_range'_1.mpr ⟨by omega, by omega⟩
  simpa using (h.1.nodup.subperm hsub).length_le

theorem FatChain.chainOf_eq : v.chainOf a c = l := by
  have := h.length_le
  exact walk_eq h.1 h.2 (by omega) (by simp)

theorem FatChain.fat_ne_zero (hk : k ∈ l) : a.fat k ≠ 0 := by
  rcases h.1.next_mem hk with hn | ⟨y, hy, hn⟩
  · unfold next at hn
    split at hn
    · rename_i he
      have h1 := isEndOfChain_iff.mp he
      have h2 := v.endOfChainValue_pos
      omega
    · cases hn
  · unfold next at hn
    split at hn
    · cases hn
    · have hy := inRange_iff.mp (h.inRange hy)
      rw [Option.some.injEq] at hn
      omega

theorem FatChain.congr (hs : ∀ x ∈ l, v.next a' x = v.next a x) :
    v.FatChain a' c l :=
  ⟨h.1.congr hs, h.2⟩

theorem FatChain.entriesOf_eq :
    v.entriesOf a c = l.flatMap fun k => v.clusterEntries k (a.data k) := by
  rw [entriesOf, h.chainOf_eq]

theorem FatChain.entriesOf_congr (hs : v.SameOn (· ∈ l) a a') :
    v.entriesOf a' c = v.entriesOf a c := by
  rw [h.entriesOf_eq, (h.congr fun x hx => (hs x hx).1).entriesOf_eq]
  exact List.flatMap_congr fun x hx => by rw [(hs x hx).2]

end

theorem collect_congr (hs : ∀ x ∈ l, a'.data x = a.data x) (n : Nat) :
    v.collect a' l n = v.collect a l n := by
  induction l generalizing n with
  | nil => rfl
  | cons x l ih => rw [collect, collect, hs x (by simp), ih fun y hy => hs y (by simp [hy])]

variable {e : FATXDirectoryEntry}

theorem FatChain.contents_congr (h : v.FatChain a e.startCluster l)
    (hs : v.SameOn (· ∈ l) a a') : v.contents a' e = v.contents a e := by
  have h' := h.congr fun x hx => (hs x hx).1
  rw [contents, contents, h.chainOf_eq, h'.chainOf_eq, collect_congr fun x hx => (hs x hx).2]

theorem entriesOf_zero (a : ClusterStore) : v.entriesOf a 0 = [] := by
  rw [entriesOf, chainOf_zero]; rfl

theorem contents_of_start_zero (h : e.startCluster = 0) :
    v.contents a e = [] := by
  rw [contents, if_neg (by omega)]

/-! ## Objects -/

inductive Object where
  | root (c : Nat)
  | entry (e : FATXDirectoryEntry)

def Object.start : Object → Nat
  | .root c => c
  | .entry e => e.startCluster

variable (v)

inductive Reachable (R : List Nat) (a : ClusterStore) : FATXDirectoryEntry → Prop
  | root {c : Nat} {e : FATXDirectoryEntry} : c ∈ R → e ∈ v.entriesOf a c → Reachable R a e
  | child {p e : FATXDirectoryEntry} : Reachable R a p → p.isDirectory = true →
      e ∈ v.entriesOf a p.startCluster → Reachable R a e

def Present (R : List Nat) (a : ClusterStore) : Object → Prop
  | .root c => c ∈ R
  | .entry e => v.Reachable R a e

/-- **The volume is in order**: every object that names a start cluster has a chain, and the
chains of distinct objects are disjoint. -/
structure WellFormed (R : List Nat) (a : ClusterStore) : Prop where
  chain : ∀ o, v.Present R a o → o.start ≠ 0 → ∃ l, v.FatChain a o.start l
  disjoint : ∀ o o', v.Present R a o → v.Present R a o' → o ≠ o' → ∀ l l',
    v.FatChain a o.start l → v.FatChain a o'.start l' → l.Disjoint l'

def DirectoryAt (R : List Nat) (a : ClusterStore) (c : Nat) : Prop :=
  c ≠ 0 ∧ (c ∈ R ∨ ∃ e, v.Reachable R a e ∧ e.isDirectory = true ∧ e.startCluster = c)

def Live (R : List Nat) (a : ClusterStore) (k : Nat) : Prop :=
  ∃ o l, v.Present R a o ∧ v.FatChain a o.start l ∧ k ∈ l

variable {v} {R : List Nat}

theorem DirectoryAt.ne_zero (h : v.DirectoryAt R a c) : c ≠ 0 := h.1

theorem DirectoryAt.object (h : v.DirectoryAt R a c) :
    ∃ o, v.Present R a o ∧ o.start = c ∧ ∀ e, o = .entry e → e.isDirectory = true := by
  obtain ⟨_, hc | ⟨e, hr, hd, rfl⟩⟩ := h
  · exact ⟨.root c, hc, rfl, fun _ h => by cases h⟩
  · exact ⟨.entry e, hr, rfl, fun _ h => by cases h; exact hd⟩

theorem DirectoryAt.chain (hwf : v.WellFormed R a) (h : v.DirectoryAt R a c) :
    ∃ l, v.FatChain a c l := by
  obtain ⟨o, ho, rfl, _⟩ := h.object
  exact hwf.chain o ho h.ne_zero

theorem DirectoryAt.live (h : v.DirectoryAt R a c) (hl : v.FatChain a c l) (hk : k ∈ l) :
    v.Live R a k := by
  obtain ⟨o, ho, rfl, _⟩ := h.object
  exact ⟨o, l, ho, hl, hk⟩

theorem Reachable.live (h : v.Reachable R a e)
    (hl : v.FatChain a e.startCluster l) (hk : k ∈ l) : v.Live R a k :=
  ⟨.entry e, l, h, hl, hk⟩

theorem not_live_of_free (h : a.fat k = 0) : ¬ v.Live R a k := by
  rintro ⟨o, l, _, hl, hk⟩
  exact hl.fat_ne_zero hk h

theorem entriesOf_child (h : v.Reachable R a e)
    (hd : e.isDirectory = true) : v.DirectoryAt R a e.startCluster ∨ e.startCluster = 0 := by
  by_cases h0 : e.startCluster = 0
  · exact .inr h0
  · exact .inl ⟨h0, .inr ⟨e, h, hd, rfl⟩⟩

theorem directoryAt_root (hc : c ∈ R) (he : e ∈ v.entriesOf a' c) :
    v.DirectoryAt R a c := by
  refine ⟨fun h0 => ?_, .inl hc⟩
  rw [h0, entriesOf_zero] at he
  cases he

theorem DirectoryAt.reachable (h : v.DirectoryAt R a c)
    (he : e ∈ v.entriesOf a c) : v.Reachable R a e := by
  obtain ⟨_, hc | ⟨p, hp, hd, rfl⟩⟩ := h
  · exact .root hc he
  · exact .child hp hd he

theorem WellFormed.disjoint_directories (hwf : v.WellFormed R a) (hc : v.DirectoryAt R a c)
    (hd : v.DirectoryAt R a d) (hne : c ≠ d) (hl : v.FatChain a c l) (hl' : v.FatChain a d l') :
    l.Disjoint l' := by
  obtain ⟨o, ho, rfl, _⟩ := hc.object
  obtain ⟨o', ho', rfl, _⟩ := hd.object
  exact hwf.disjoint o o' ho ho' (fun h => hne (by rw [h])) l l' hl hl'

theorem WellFormed.disjoint_file (hwf : v.WellFormed R a)
    (he : v.Reachable R a e) (hf : e.isDirectory = false) (hd : v.DirectoryAt R a d)
    (hl : v.FatChain a e.startCluster l) (hl' : v.FatChain a d l') : l.Disjoint l' := by
  obtain ⟨o, ho, rfl, hdir⟩ := hd.object
  refine hwf.disjoint (.entry e) o he ho (fun h => ?_) l l' hl hl'
  have := hdir e h.symm
  rw [hf] at this
  cases this

theorem reachable_iff {new : FATXDirectoryEntry → Prop} (hd : ∀ x, new x → v.DirectoryAt R a d)
    (hdir : ∀ c, v.DirectoryAt R a c → ∀ x, x ∈ v.entriesOf a' c ↔
      x ∈ v.entriesOf a c ∨ c = d ∧ new x)
    (hnew : ∀ x, new x → x.isDirectory = true → v.entriesOf a' x.startCluster = [])
    (e : FATXDirectoryEntry) : v.Reachable R a' e ↔ v.Reachable R a e ∨ new e := by
  constructor
  · intro h
    induction h with
    | root hc he =>
      rcases (hdir _ (directoryAt_root hc he) _).mp he with he | ⟨_, hn⟩
      · exact .inl (.root hc he)
      · exact .inr hn
    | @child p e _ hpd he ih =>
      rcases ih with hp | hn
      · rcases entriesOf_child hp hpd with hpc | h0
        · rcases (hdir _ hpc _).mp he with he | ⟨_, hn⟩
          · exact .inl (.child hp hpd he)
          · exact .inr hn
        · rw [h0, entriesOf_zero] at he
          cases he
      · rw [hnew p hn hpd] at he
        cases he
  · have hmono : ∀ e, v.Reachable R a e → v.Reachable R a' e := by
      intro e h
      induction h with
      | root hc he => exact .root hc ((hdir _ (directoryAt_root hc he) _).mpr (.inl he))
      | @child p e hp hpd he ih =>
        refine .child ih hpd ?_
        rcases entriesOf_child hp hpd with hpc | h0
        · exact (hdir _ hpc _).mpr (.inl he)
        · rw [h0, entriesOf_zero] at he
          cases he
    rintro (h | hn)
    · exact hmono e h
    · have he := (hdir d (hd e hn) e).mpr (.inr ⟨rfl, hn⟩)
      obtain ⟨_, hc | ⟨p, hp, hpd, rfl⟩⟩ := hd e hn
      · exact .root hc he
      · exact .child (hmono p hp) hpd he

theorem reachable_congr (h : ∀ c, v.DirectoryAt R a c → v.entriesOf a' c = v.entriesOf a c)
    (e : FATXDirectoryEntry) : v.Reachable R a' e ↔ v.Reachable R a e := by
  have key : v.Reachable R a' e ↔ v.Reachable R a e ∨ False :=
    reachable_iff (d := 0) (fun _ => False.elim) (fun c hc x => by rw [h c hc]; simp)
      (fun _ => False.elim) e
  simpa using key

/-- **A volume stays in order as long as every cluster in it has one owner**: each cluster of a
chain was already its owner's, or is one of the `fresh` ones, which were nobody's before and have
a single owner now. -/
theorem WellFormed.of_fresh (hwf : v.WellFormed R a) (fresh : Object → Nat → Prop)
    (hlive : ∀ o x, fresh o x → ¬ v.Live R a x) (hone : ∀ o o' x, fresh o x → fresh o' x → o = o')
    (hchain : ∀ o, v.Present R a' o → o.start ≠ 0 → ∃ l', v.FatChain a' o.start l' ∧
      ∀ x ∈ l', (∃ l, v.Present R a o ∧ v.FatChain a o.start l ∧ x ∈ l) ∨ fresh o x) :
    v.WellFormed R a' where
  chain o ho h0 := let ⟨l', hl', _⟩ := hchain o ho h0; ⟨l', hl'⟩
  disjoint o o' ho ho' hne l l' hl hl' := by
    intro x hx hx'
    obtain ⟨m, hm, hmem⟩ := hchain o ho hl.start_pos
    obtain ⟨m', hm', hmem'⟩ := hchain o' ho' hl'.start_pos
    rw [hl.unique hm] at hx
    rw [hl'.unique hm'] at hx'
    rcases hmem x hx with ⟨n, hp, hn, hxn⟩ | hf <;>
      rcases hmem' x hx' with ⟨n', hp', hn', hxn'⟩ | hf'
    · exact hwf.disjoint o o' hp hp' hne n n' hn hn' hxn hxn'
    · exact hlive o' x hf' ⟨o, n, hp, hn, hxn⟩
    · exact hlive o x hf ⟨o', n', hp', hn', hxn'⟩
    · exact hne (hone o o' x hf hf')

variable (v)

/-- Everything on `a` is still on `a'`. -/
structure Extends (R : List Nat) (a a' : ClusterStore) : Prop where
  entries : ∀ c, v.DirectoryAt R a c → ∀ e ∈ v.entriesOf a c, e ∈ v.entriesOf a' c
  contents : ∀ e, v.Reachable R a e → e.isDirectory = false → v.contents a' e = v.contents a e

variable {v}

theorem Extends.reachable (h : v.Extends R a a') (he : v.Reachable R a e) :
    v.Reachable R a' e := by
  induction he with
  | root hc he => exact .root hc (h.entries _ (directoryAt_root hc he) _ he)
  | @child p e hp hpd he ih =>
    refine .child ih hpd ?_
    rcases entriesOf_child hp hpd with hpc | h0
    · exact h.entries _ hpc _ he
    · rw [h0, entriesOf_zero] at he
      cases he

theorem Extends.directoryAt (h : v.Extends R a a') (hc : v.DirectoryAt R a c) : v.DirectoryAt R a' c := by
  obtain ⟨h0, hc | ⟨e, he, hd, hs⟩⟩ := hc
  · exact ⟨h0, .inl hc⟩
  · exact ⟨h0, .inr ⟨e, h.reachable he, hd, hs⟩⟩

theorem Extends.refl (a : ClusterStore) : v.Extends R a a :=
  ⟨fun _ _ _ he => he, fun _ _ _ => rfl⟩

theorem Extends.trans {a1 a2 a3 : ClusterStore} (h : v.Extends R a1 a2) (h' : v.Extends R a2 a3) :
    v.Extends R a1 a3 where
  entries c hc e he := h'.entries c (h.directoryAt hc) e (h.entries c hc e he)
  contents e he hf := (h'.contents e (h.reachable he) hf).trans (h.contents e he hf)

/-- **The live clusters decide everything.** A change elsewhere leaves every object and every
chain as it was. -/
theorem WellFormed.frame (hwf : v.WellFormed R a) (hs : v.SameOn (v.Live R a) a a') :
    (∀ e, v.Reachable R a' e ↔ v.Reachable R a e) ∧ v.WellFormed R a' ∧ v.Extends R a a' ∧
      (∀ c, v.DirectoryAt R a c → v.entriesOf a' c = v.entriesOf a c) ∧
      ∀ c l, v.FatChain a c l → (∀ x ∈ l, v.Live R a x) → v.FatChain a' c l := by
  have hentries : ∀ c, v.DirectoryAt R a c → v.entriesOf a' c = v.entriesOf a c := by
    intro c hc
    obtain ⟨l, hl⟩ := hc.chain hwf
    exact hl.entriesOf_congr fun x hx => hs x (hc.live hl hx)
  have hreach : ∀ e, v.Reachable R a' e ↔ v.Reachable R a e := by
    intro e
    exact reachable_congr hentries e
  have hchain : ∀ c l, v.FatChain a c l → (∀ x ∈ l, v.Live R a x) → v.FatChain a' c l :=
    fun c l hl hlive => hl.congr fun x hx => (hs x (hlive x hx)).1
  have hpresent : ∀ o, v.Present R a' o → v.Present R a o := by
    intro o ho
    cases o with
    | root c => exact ho
    | entry e => exact (hreach e).mp ho
  refine ⟨hreach, ?_, ⟨fun c hc e he => by rw [hentries c hc]; exact he, ?_⟩, hentries, hchain⟩
  · refine hwf.of_fresh (fun _ _ => False) (fun _ _ h => h.elim) (fun _ _ _ h => h.elim) ?_
    intro o ho h0
    obtain ⟨l, hl⟩ := hwf.chain o (hpresent o ho) h0
    exact ⟨l, hchain _ l hl fun x hx => ⟨o, l, hpresent o ho, hl, hx⟩,
      fun x hx => .inl ⟨l, hpresent o ho, hl, hx⟩⟩
  · intro e he hf
    by_cases h0 : e.startCluster = 0
    · rw [contents_of_start_zero h0, contents_of_start_zero h0]
    · obtain ⟨l, hl⟩ := hwf.chain (.entry e) he h0
      exact FatChain.contents_congr hl fun x hx => hs x (he.live hl hx)

end FATXVolume

end DukeX.Fatx
