import DukeX.Fatx.Exact

/-!
# What an import leaves behind

An import that stops half way undoes nothing.
-/

namespace DukeX.Fatx

open DukeX.Lib DukeX.Swift

namespace FATXVolume

section Due

variable (v : FATXVolume) (F : Foundation) (d₀ : Nat) (n₀ : HostNode)

/-- Importing `n₀` into `d₀` will import the node into the directory: below `n₀` that is what is
visible and can be stored, with everything above it. -/
inductive Due (a : ClusterStore) : Nat → HostNode → Prop
  | here : Due a d₀ n₀
  | inside {d : Nat} {name : String} {children : List HostNode} {e : FATXDirectoryEntry} {n : HostNode} :
      Due a d (.dir name children) → e ∈ v.entriesOf a d → e.isDirectory = true →
      (e.name = name ∨ F.caseInsensitiveSame e.name name = true) → n ∈ children →
      Storable n → Due a e.startCluster n

def IsNode (a : ClusterStore) (e : FATXDirectoryEntry) : HostNode → Prop
  | .file name data => e.name = name ∧ e.isDirectory = false ∧ v.contents a e = data
  | .dir name _ => e.name = name ∧ e.isDirectory = true

def Traced (R₀ : List Nat) (a₀ : ClusterStore) (R : List Nat) (a : ClusterStore) : Prop :=
  ∀ c, v.DirectoryAt R a c → ∀ e ∈ v.entriesOf a c,
    (v.DirectoryAt R₀ a₀ c ∧ e ∈ v.entriesOf a₀ c) ∨ ∃ n, v.Due F d₀ n₀ a c n ∧ v.IsNode a e n

end Due

variable {v : FATXVolume} {F : Foundation} {d₀ : Nat} {n₀ : HostNode}
variable {R R' R₀ : List Nat} {a a' a₀ : ClusterStore} {c d k i : Nat} {l : List Nat}

variable {n : HostNode} {e : FATXDirectoryEntry}

theorem Due.place (h0 : v.Place R a d₀) (h : v.Due F d₀ n₀ a d n) : v.Place R a d := by
  induction h with
  | here => exact h0
  | inside _ he hdir _ _ _ ih => exact ih.child he hdir

theorem Due.mono (hext : v.Extends R a a') (h0 : v.Place R a d₀)
    (h : v.Due F d₀ n₀ a d n) : v.Due F d₀ n₀ a' d n := by
  induction h with
  | here => exact .here
  | inside hd he hdir hname hn hs ih =>
    exact .inside ih ((hd.place h0).entries hext he) hdir hname hn hs

theorem IsNode.congr (h : v.IsNode a e n)
    (hcontents : e.isDirectory = false → v.contents a' e = v.contents a e) : v.IsNode a' e n := by
  cases n with
  | file name data => exact ⟨h.1, h.2.1, (hcontents h.2.1).trans h.2.2⟩
  | dir name children => exact h

theorem IsNode.mono (hext : v.Extends R a a') (he : v.Reachable R a e)
    (h : v.IsNode a e n) : v.IsNode a' e n :=
  h.congr fun hf => hext.contents e he hf

theorem Traced.of_same (h : v.Traced F d₀ n₀ R₀ a₀ R a) (h0 : v.Place R a d₀) (hext : v.Extends R a a')
    (hreach : ∀ e, v.Reachable R a' e ↔ v.Reachable R a e)
    (hent : ∀ c, v.DirectoryAt R a c → v.entriesOf a' c = v.entriesOf a c) :
    v.Traced F d₀ n₀ R₀ a₀ R a' := by
  intro c hc e he
  have hc : v.DirectoryAt R a c :=
    ⟨hc.1, hc.2.imp id fun ⟨p, hp, hdir, hstart⟩ => ⟨p, (hreach p).mp hp, hdir, hstart⟩⟩
  rw [hent c hc] at he
  refine (h c hc e he).imp_right ?_
  intro ⟨n, hdue, hnode⟩
  exact ⟨n, hdue.mono hext h0, hnode.mono hext (hc.reachable he)⟩

def Asked (v : FATXVolume) (F : Foundation) (d₀ : Nat) (n₀ : HostNode) (_ : List Nat) (a : ClusterStore)
    (d : Nat) (e : FATXDirectoryEntry) : Prop :=
  v.AllLinkable → ∃ n, v.Due F d₀ n₀ a d n ∧ v.IsNode a e n

theorem Traced.record (h : v.Traced F d₀ n₀ R₀ a₀ R a) (hwf : v.WellFormed R a) (h₀ : v.Place R a d₀)
    (hd : v.DirectoryAt R a d) (hl : v.FatChain a d l) (hk : k ∈ l) (hi : i < v.recordsPerCluster)
    (hsize : (a.data k).length = v.clusterSize) {r : Data} (hr : r.length = 64)
    (hfree : parseRecord (Fatx.record (a.data k) i) (v.dataOffset k + i * 64) = none)
    (hnew : ∀ e, parseRecord r (v.dataOffset k + i * 64) = some e →
      (∃ n, v.Due F d₀ n₀ a d n ∧ v.IsNode a e n) ∧
      ∃ ls, v.FatChain a e.startCluster ls ∧ (∀ x ∈ ls, ¬ v.Live R a x) ∧
        (e.isDirectory = true → ∀ x ∈ ls, v.clusterEntries x (a.data x) = [])) :
    v.Traced F d₀ n₀ R₀ a₀ R (a.setData k (splice (a.data k) (i * 64) r)) := by
  obtain ⟨-, hext, hother, hreach, -⟩ := hwf.record hd hl hk hi hsize hr hfree fun e he => (hnew e he).2
  have hperm := hl.entriesOf_record hk hi hsize hr hfree
  -- the chain of the new entry does not contain the cluster that is written
  have hsame : ∀ (e : FATXDirectoryEntry) ls, v.FatChain a e.startCluster ls → (∀ x ∈ ls, ¬ v.Live R a x) →
      v.SameOn (· ∈ ls) a (a.setData k (splice (a.data k) (i * 64) r)) :=
    fun e ls _ hlive => sameOn_setData fun hmem => hlive k hmem (hd.live hl hk)
  intro c hc e he
  by_cases hold : v.DirectoryAt R a c
  · have hcases : e ∈ v.entriesOf a c ∨ c = d ∧ parseRecord r (v.dataOffset k + i * 64) = some e := by
      grind
    rcases hcases with he | ⟨rfl, hparse⟩
    · refine (h c hold e he).imp_right ?_
      intro ⟨n, hdue, hnode⟩
      exact ⟨n, hdue.mono hext h₀, hnode.mono hext (hold.reachable he)⟩
    · obtain ⟨⟨n, hdue, hnode⟩, ls, hls, hlive, -⟩ := hnew e hparse
      refine .inr ⟨n, hdue.mono hext h₀, hnode.congr fun _ => ?_⟩
      exact hls.contents_congr (hsame e ls hls hlive)
  · -- a directory that was not there is the new one, which is empty
    obtain ⟨h0, hcR | ⟨p, hp, hdir, hstart⟩⟩ := hc
    · exact absurd ⟨h0, .inl hcR⟩ hold
    · rcases (hreach p).mp hp with hp | hparse
      · exact absurd ⟨h0, .inr ⟨p, hp, hdir, hstart⟩⟩ hold
      · obtain ⟨-, ls, hls, hlive, hempty⟩ := hnew p hparse
        rw [← hstart, (fatChain_setData.mpr hls).entriesOf_eq] at he
        obtain ⟨x, hx, he⟩ := List.mem_flatMap.mp he
        rw [(hsame p ls hls hlive x hx).2, hempty hdir x hx] at he
        cases he

theorem Run.traced (hall : v.AllLinkable) {x : List Nat × ClusterStore}
    (h : v.Run (v.Asked F d₀ n₀) (R₀, a₀) x) (hwf : v.WellFormed R₀ a₀) (h₀ : v.Place R₀ a₀ d₀) :
    v.Traced F d₀ n₀ R₀ a₀ x.1 x.2 := by
  induction h with
  | refl => exact fun c hc e he => .inl ⟨hc, he⟩
  | @tail y z hrun hstep ih =>
    obtain ⟨hwf1, hext1, hsub1⟩ := Run.preserves (x := (R₀, a₀)) hwf hrun
    have h1 : v.Place y.1 y.2 d₀ := h₀.imp_left fun hd => (hext1.directoryAt hd).mono hsub1
    cases hstep with
    | step hs =>
      cases hs with
      | detached c hc hkeep =>
        obtain ⟨hreach, _, hext, hent, _⟩ := hwf1.frame (sameOn_of_detached hc hkeep)
        exact ih.of_same h1 hext hreach hent
      | grow hd hl hk hn hlive hend hempty =>
        obtain ⟨_, hext, hent, hreach, _⟩ := hwf1.grow hd hl hk hn hlive hend hempty
        exact ih.of_same h1 hext hreach hent
      | record hd hl hk hi hsize hr hfree hnew =>
        exact ih.record hwf1 h1 hd hl hk hi hsize hr hfree fun e he =>
          ⟨(hnew e he).1 hall, (hnew e he).2⟩
    | @adopt R a c l hl hnl hempty =>
      intro c' hc' e he
      obtain ⟨h0, hmem | ⟨p, hp, hdir, hstart⟩⟩ := hc'
      · rcases List.mem_cons.mp hmem with rfl | hmem
        · rw [hempty] at he
          cases he
        · exact ih c' ⟨h0, .inl hmem⟩ e he
      · exact ih c' ⟨h0, .inr ⟨p, hp.of_cons hempty, hdir, hstart⟩⟩ e he

theorem mem_sortVisible {ns : List HostNode} {n' : HostNode} (h : n' ∈ sortVisible F (listedAll F ns)) :
    ∃ n ∈ ns, isHidden n.name = false ∧ n' = n.listed F := by
  grind [sortVisible, List.mem_insertionSort, listedAll_eq, name_listed]

theorem licence_asked : v.Licence F
    (fun R a d n' => v.AllLinkable → v.Place R a d₀ ∧
      ∃ n, n' = n.listed F ∧ (isStorable n.name = true → v.Due F d₀ n₀ a d n))
    (v.Asked F d₀ n₀) where
  mono hwf hrun hctx hall := by
    obtain ⟨h0, n, hn, hdue⟩ := hctx hall
    obtain ⟨-, hext, hsub⟩ := hrun.preserves hwf
    exact ⟨h0.imp_left fun hd => (hext.directoryAt hd).mono hsub, n, hn,
      fun hs => (hdue hs).mono hext h0⟩
  file hs hctx hf hname hdata hall := by
    obtain ⟨-, n, hn, hdue⟩ := hctx hall
    cases n with
    | file name data =>
      cases hn
      exact ⟨_, hdue hs, hname, hf, hdata hall⟩
    | dir name children => cases hn
  dir hs hctx hdir hname _ hall := by
    obtain ⟨-, n, hn, hdue⟩ := hctx hall
    cases n with
    | file name data => cases hn
    | dir name children =>
      cases hn
      exact ⟨_, hdue hs, hname, hdir⟩
  enter hs hctx he hdir hname n' hn' hall := by
    obtain ⟨h0, n, hn, hdue⟩ := hctx hall
    cases n with
    | file name data => cases hn
    | dir name children =>
      cases hn
      obtain ⟨m, hm, hvisible, rfl⟩ := mem_sortVisible hn'
      exact ⟨h0, m, rfl, fun hm' => .inside (hdue hs) he hdir hname hm ⟨hvisible, hm'⟩⟩
  loose hnot _ hall := absurd hall hnot

end FATXVolume

end DukeX.Fatx
