import DukeX.Fatx.Damaged
import DukeX.Swift.Paths

/-!
# Where an extraction writes

The names `extractDirectory` appends to its destination are up to 42 bytes of the image.
-/

namespace DukeX.Fatx

open DukeX.Lib DukeX.Swift Relation

/-! ## One entry -/

/-- What the loop body does to the host for an entry extracted at `here`, the directories below
it apart. -/
def placeEntry (here : Path) (e : FATXDirectoryEntry) (data : Data) : SessionM Unit :=
  if e.isDirectory then do
    let _ ← createDirectory here e.name
    return ()
  else writeToURL here e.name data

/-- The places a directory name makes on its way, or the place a file name ends at, are in line with
the destination. -/
def KeepsInLine (dest here : Path) (e : FATXDirectoryEntry) : Prop :=
  ∀ cs, components e.name = some cs →
    if e.isDirectory then ∀ q ∈ trail here cs, InLine dest q
    else ∀ ds f, fileTrail here cs = some (ds, f) → f ∉ ds → InLine dest f

def Kept (b : Store) (dest : Path) (host : Host) (s : Session) : Prop :=
  s.disk.bytes = b ∧ Rooted dest s.host ∧ Untouched dest host s.host

variable {v : FATXVolume} {b : Store} {dest here : Path} {host : Host} {name : String}
  {e : FATXDirectoryEntry}

theorem kept_onDisk {α : Type} {m : DiskM α} {f : Store → Except Halt α} (hm : Reads m f) :
    Upholds (Kept b dest host) (fun _ => True) (onDisk m) := by
  intro s hs
  refine wp_onDisk.mpr (wp_mono (hm s.disk) (fun _ d hd => ?_) fun _ d hd => ⟨?_, trivial⟩)
  · exact ⟨hd.1.1.trans hs.1, hs.2⟩
  · exact ⟨hd.1.1.trans hs.1, hs.2⟩

theorem kept_createDirectory
    (h : ∀ cs, components name = some cs → ∀ q ∈ trail here cs, InLine dest q) (s : Session)
    (hs : Kept b dest host s) :
    wp (createDirectory here name)
      (fun path s' => Kept b dest host s' ∧ ∃ cs, components name = some cs ∧ path = resolve here cs)
      (fun _ s' => Kept b dest host s' ∧ True) s := by
  unfold createDirectory
  refine wp_seq (kept_onDisk reads_storageCall s hs) (fun _ s1 hs1 => ?_) fun _ _ h => h
  cases hcs : components name with
  | none => exact ⟨hs1, trivial⟩
  | some cs =>
    have hkept : Untouched dest s1.host (s1.host.makeDirectories here cs).1 :=
      Host.makeDirectories_untouched hs1.2.1 (h cs hcs)
    have hpath : ∀ path, (s1.host.makeDirectories here cs).2 = some path → path = resolve here cs :=
      fun _ => Host.makeDirectories_path
    unfold wp
    rcases hmake : s1.host.makeDirectories here cs with ⟨host', _ | path⟩
    · simp only [hmake] at hkept ⊢
      exact ⟨⟨hs1.1, hkept.rooted hs1.2.1, hs1.2.2.trans hkept⟩, trivial⟩
    · simp only [hmake] at hkept hpath ⊢
      exact ⟨⟨hs1.1, hkept.rooted hs1.2.1, hs1.2.2.trans hkept⟩, cs, rfl, hpath path rfl⟩

variable {data : Data} {cs : List String}

theorem kept_writeToURL
    (h : ∀ cs, components name = some cs → ∀ ds f, fileTrail here cs = some (ds, f) → f ∉ ds →
      InLine dest f) :
    Upholds (Kept b dest host) (fun _ => True) (writeToURL here name data) := by
  refine (kept_onDisk reads_storageCall).bind fun _ => ?_
  cases hcs : components name with
  | none => exact .throw trivial
  | some cs =>
    intro s hs
    unfold wp
    cases hloc : s.host.locate here cs with
    | none =>
      simp only [hloc]
      exact ⟨hs, trivial⟩
    | some path =>
      simp only [hloc]
      obtain ⟨ds, htrail, hds, hne⟩ := Host.locate_eq_some.mp hloc
      -- a directory is not overwritten, so the place is neither on the trail nor above `dest`
      have hline : InLine dest path := h cs hcs ds path htrail fun hmem => hne (hds path hmem)
      have hinside := hline.inside_of_not_above fun hp => hne (hs.2.1 path hp)
      have hset : Untouched dest s.host (s.host.set path (.file data)) := untouched_set hinside
      exact ⟨hs.1, hset.rooted hs.2.1, hs.2.2.trans hset⟩

theorem kept_placeEntry (h : KeepsInLine dest here e) :
    Upholds (Kept b dest host) (fun _ => True) (placeEntry here e data) := by
  unfold placeEntry
  refine .ite (fun hdir => ?_) fun hdir => ?_
  · refine Upholds.bind_of (kept_createDirectory fun cs hcs => ?_) fun _ _ => .pure _
    have hline := h cs hcs
    rwa [if_pos hdir] at hline
  · refine kept_writeToURL fun cs hcs => ?_
    have hline := h cs hcs
    rwa [if_neg hdir] at hline

def quietSession (host : Host) : Session := ⟨⟨fun _ => 0, [], 0⟩, host⟩

theorem storageCall_quietSession (host : Host) :
    onDisk storageCall (quietSession host) = .ok () (quietSession host) := rfl

theorem host_createDirectory (hcs : components name = some cs) :
    wp (createDirectory here name) (fun _ s => s.host = (host.makeDirectories here cs).1)
      (fun _ s => s.host = (host.makeDirectories here cs).1) (quietSession host) := by
  unfold createDirectory
  refine wp_bind.mpr ((wp_of_eq_ok (storageCall_quietSession host)).mpr ?_)
  grind [wp, quietSession]

theorem host_writeToURL {f : Path} (hcs : components name = some cs)
    (hloc : host.locate here cs = some f) (data : Data) :
    wp (writeToURL here name data) (fun _ s => s.host = host.set f (.file data))
      (fun _ _ => False) (quietSession host) := by
  unfold writeToURL
  refine wp_bind.mpr ((wp_of_eq_ok (storageCall_quietSession host)).mpr ?_)
  rw [hcs]
  unfold wp
  simp only [quietSession, hloc]

theorem placeEntry_untouched_iff (hhere : InLine dest here) (data : Data) :
    (∀ s : Session, Rooted dest s.host →
      Untouched dest s.host (endState (placeEntry here e data) s).host) ↔ KeepsInLine dest here e := by
  constructor
  · intro h cs hcs
    by_cases hdir : e.isDirectory = true
    · rw [if_pos hdir]
      by_contra hcon
      obtain ⟨q, hq, hmade⟩ := Host.exists_made_of_trail hhere hcon
      have hkept := h (quietSession (Host.allBut q)) (Host.allBut_rooted hq) q fun hi => hq (.inr hi.1)
      have hrun : wp (placeEntry here e data)
          (fun _ s => s.host = ((Host.allBut q).makeDirectories here cs).1)
          (fun _ s => s.host = ((Host.allBut q).makeDirectories here cs).1)
          (quietSession (Host.allBut q)) := by
        rw [placeEntry, if_pos hdir]
        exact wp_seq (host_createDirectory hcs) (fun _ _ h => h) fun _ _ h => h
      rw [hrun.endState (P := fun s => s.host = _) (fun _ _ h => h) fun _ _ h => h, hmade] at hkept
      exact absurd (hkept.trans (Host.allBut_self q)) (by simp)
    · rw [if_neg hdir]
      intro ds f htrail hf
      by_contra hline
      have hloc := Host.locate_allBut hhere htrail hf hline
      have hkept := h (quietSession (Host.allBut f)) (Host.allBut_rooted hline) f
        fun hi => hline (.inr hi.1)
      have hrun := host_writeToURL hcs hloc data
      rw [placeEntry, if_neg hdir, hrun.endState (P := fun s => s.host = _) (fun _ _ h => h)
        fun _ _ h => h.elim] at hkept
      exact absurd (hkept.trans (Host.allBut_self f)) (by simp [Host.set])
  · intro h s hs
    refine (kept_placeEntry h s ⟨rfl, hs, .refl dest s.host⟩).endState
      (P := fun s' => Untouched dest s.host s'.host) ?_ ?_
    · exact fun _ _ hk => hk.2.2
    · exact fun _ _ hk => hk.1.2.2

/-- From a directory and the place it is extracted to, to a directory it lists and the place that
one is extracted to. -/
def FATXVolume.ExtractsTo (v : FATXVolume) (a : ClusterStore) (x y : Nat × Path) : Prop :=
  ∃ e ∈ v.entriesOf a x.1, e.isDirectory = true ∧
    ∃ cs, components e.name = some cs ∧ y = (e.startCluster, resolve x.2 cs)

def FATXVolume.AllInLine (v : FATXVolume) (a : ClusterStore) (dest : Path) (x : Nat × Path) : Prop :=
  ∀ y, ReflTransGen (v.ExtractsTo a) x y → ∀ e ∈ v.entriesOf a y.1, KeepsInLine dest y.2 e

theorem kept_extractDirectory {depth c : Nat}
    (h : ∀ cs, components name = some cs → (∀ q ∈ trail here cs, InLine dest q) ∧
      v.AllInLine (v.view b) dest (c, resolve here cs)) :
    Upholds (Kept b dest host) (fun _ => True) (v.extractDirectory depth c here name) := by
  induction depth generalizing c here name with
  | zero => exact .throw trivial
  | succ depth ih =>
    unfold FATXVolume.extractDirectory
    refine Upholds.bind_of (kept_createDirectory fun cs hcs => (h cs hcs).1) ?_
    rintro place ⟨cs, hcs, rfl⟩
    obtain ⟨-, hall⟩ := h cs hcs
    refine Upholds.bind_of (P := fun es => es = v.entriesOf (v.view b) c) (fun s hs => ?_) ?_
    · refine wp_onDisk.mpr (wp_mono (FATXVolume.wp_directoryEntries_of_bytes s.disk hs.1) ?_ ?_)
      · exact fun _ _ hd => ⟨⟨hd.1, hs.2⟩, hd.2⟩
      · exact fun _ _ hd => ⟨⟨hd.1, hs.2⟩, trivial⟩
    · rintro _ rfl
      refine Upholds.forM fun e he => .ite (fun hdir => ?_) fun hdir => ?_
      · -- the directory's own name keeps in line, and so does what is met below it
        refine ih fun cs' hcs' => ⟨?_, fun y hy => ?_⟩
        · have hline := hall _ .refl e he cs' hcs'
          rwa [if_pos hdir] at hline
        · exact hall y (.head ⟨e, he, hdir, cs', hcs', rfl⟩ hy)
      · refine (kept_onDisk (FATXVolume.reads_readFile e)).bind fun data => ?_
        refine kept_writeToURL fun cs' hcs' => ?_
        have hline := hall _ .refl e he cs' hcs'
        rwa [if_neg hdir] at hline

/-- As long as every entry it meets keeps in line with the destination, an extraction changes
nothing outside it, however it ends. -/
theorem extraction_inside (v : FATXVolume) (b : Store) (cluster : Nat) (here : Path) (name : String)
    (hname : isComponent name = true) :
    (v.AllInLine (v.view b) (here ++ [name]) (cluster, here ++ [name]) →
      ∀ depth (s : Session), s.disk.bytes = b → Rooted (here ++ [name]) s.host →
        Untouched (here ++ [name]) s.host
          (endState (v.extractDirectory depth cluster here name) s).host) ∧
    ∀ place e data, InLine (here ++ [name]) place →
      ((∀ s : Session, Rooted (here ++ [name]) s.host →
        Untouched (here ++ [name]) s.host (endState (placeEntry place e data) s).host) ↔
          KeepsInLine (here ++ [name]) place e) := by
  refine ⟨fun hall depth s hb hs => ?_, fun place e data hplace =>
    placeEntry_untouched_iff hplace data⟩
  have hrun : Upholds (Kept b (here ++ [name]) s.host) (fun _ => True)
      (v.extractDirectory depth cluster here name) := by
    refine kept_extractDirectory fun cs hcs => ?_
    rw [components_of_isComponent hname] at hcs
    cases hcs
    have hup := ne_up_of_isComponent hname
    constructor
    · simp only [trail, if_neg hup, List.mem_singleton]
      rintro q rfl
      exact .inl (List.prefix_refl _)
    · simpa only [resolve, if_neg hup] using hall
  refine (hrun s ⟨hb, hs, .refl _ s.host⟩).endState
    (P := fun s' => Untouched (here ++ [name]) s.host s'.host) ?_ ?_
  · exact fun _ _ hk => hk.2.2
  · exact fun _ _ hk => hk.1.2.2

def namedImage (name : Data) : Store := fun a =>
  if a = 4096 ∨ a = 4097 then 0xFF
  else if a = 8192 then UInt8.ofNat name.length
  else if a = 8193 then 0x20
  else if 8194 ≤ a ∧ a < 8194 + name.length then name.getD (a - 8194) 0
  else 0

def savesHost : Host := fun q => if q <+: ["saves"] then some .directory else none

theorem entriesOf_namedImage :
    smallVolume.entriesOf (smallVolume.view (namedImage (utf8 "a"))) 1 =
      [⟨"a", 0x20, 0, 0, 8192, none⟩] := by
  decide +kernel

theorem extraction_inside_file :
    Untouched ["saves"] savesHost
      (endState (smallVolume.extractDirectory 1 1 [] "saves")
        ⟨⟨namedImage (utf8 "a"), [], 0⟩, savesHost⟩).host := by
  refine (extraction_inside smallVolume (namedImage (utf8 "a")) 1 [] "saves" (by decide)).1 ?_ 1 _ rfl
    fun q hq => if_pos hq
  intro y hy
  have hstart : y = (1, ["saves"]) := by
    cases hy.cases_head with
    | inl heq => exact heq.symm
    | inr hstep =>
      obtain ⟨z, ⟨e, he, hdir, -⟩, -⟩ := hstep
      rw [entriesOf_namedImage, List.mem_singleton] at he
      rw [he] at hdir
      exact absurd hdir (by decide)
  subst hstart
  intro e he cs hcs
  rw [entriesOf_namedImage, List.mem_singleton] at he
  subst he
  rw [components_of_isComponent (by decide)] at hcs
  cases hcs
  rw [if_neg (by decide)]
  rintro ds f htrail -
  cases htrail
  exact .inr ⟨["a"], rfl⟩

/-- A file named `../x` is written next to the destination. -/
theorem extraction_outside :
    ¬ Inside ["saves"] ["x"] ∧ savesHost ["x"] = none ∧
      (endState (smallVolume.extractDirectory 1 1 [] "saves")
        ⟨⟨namedImage (utf8 "../x"), [], 0⟩, savesHost⟩).host ["x"] = some (.file []) := by
  refine ⟨fun h => absurd h.1 (by decide), by decide, by decide +kernel⟩

end DukeX.Fatx
