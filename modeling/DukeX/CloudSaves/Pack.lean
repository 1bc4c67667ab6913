import DukeX.CloudSaves.ContentHash
import DukeX.CloudSaves.ZipArchive
import DukeX.Fatx.HostTrees

/-!
# Packing a directory

`createArchiveAtPath:fromDirectory:error:` adds the files below a directory to an archive, each
under its path relative to the directory.
-/

namespace DukeX.CloudSaves

open DukeX.Swift DukeX.Fatx

def pathString (path : Path) : String :=
  String.ofList ('/' :: ['/'].intercalate (path.map String.toList))

def zipArchiveRelativePath (basePath filePath : String) : String :=
  if basePath.toList <+: filePath.toList then
    let relative := (filePath.toList.drop basePath.toList.length).dropWhile (· == '/')
    String.ofList (relative.map fun c => if c = '\\' then '/' else c)
  else lastPathComponent filePath

/-- A file added to the archive, as the reader gives it back. -/
def addedFile (name : String) (data : Data) : ZipEntry where
  relativePath := some name
  isDirectory := name.toList.getLast? == some '/'
  written := data
  complete := true

def createArchive (host : Host) (directory : Path) (enumerated : List Path) : List ZipEntry :=
  enumerated.filterMap fun url =>
    match host url with
    | some (.file data) =>
      let relativePath := zipArchiveRelativePath (pathString directory) (pathString url)
      if relativePath.isEmpty then none else some (addedFile relativePath data)
    | some .directory => none
    | none => none

def Enumerates (host : Host) (directory : Path) (enumerated : List Path) : Prop :=
  ∀ url, url ∈ enumerated ↔ Inside directory url ∧ host url ≠ none

def portableName (name : String) : Bool := isComponent name && !name.toList.contains '\\'

structure Packable (t : Path → Option HostItem) : Prop where
  root : t [] = some .directory
  parent : ∀ path c, t (path ++ [c]) ≠ none → t path = some .directory
  name : ∀ path c, t (path ++ [c]) ≠ none → portableName c = true
  /-- A name `..` at the end of a directory's would be taken for the way up. -/
  directory : ∀ path c, t (path ++ [c]) = some .directory → ¬ ['.', '.'] <:+ c.toList

variable {t : Path → Option HostItem} {path : Path}

section

variable (ht : Packable t)

include ht

theorem Packable.above {rest : Path}
    (h : t (path ++ rest) ≠ none) (hrest : rest ≠ []) : t path = some .directory := by
  induction rest using List.reverseRecOn with
  | nil => exact absurd rfl hrest
  | append_singleton rest c ih =>
    rw [← List.append_assoc] at h
    have hdir := ht.parent _ c h
    grind

theorem Packable.ne_nil_of_file {data : Data}
    (h : t path = some (.file data)) : path ≠ [] := by
  rintro rfl
  rw [ht.root] at h
  cases h

theorem Packable.names (h : t path ≠ none) : ∀ c ∈ path, portableName c = true := by
  induction path using List.reverseRecOn with
  | nil => exact fun _ hc => by cases hc
  | append_singleton path c ih =>
    intro d hd
    cases List.mem_append.mp hd with
    | inl hd => exact ih (by rw [ht.parent path c h]; simp) d hd
    | inr hd =>
      obtain rfl := List.mem_singleton.mp hd
      exact ht.name path _ h

theorem Packable.proper {p : Path}
    (h : t path ≠ none) (hp : p <+: path.dropLast) (hne : path ≠ []) : t p = some .directory := by
  obtain ⟨rest, hrest⟩ := hp
  rw [← List.dropLast_append_getLast hne, ← hrest, List.append_assoc] at h
  exact ht.above h (by simp)

theorem Packable.inner (h : t path ≠ none) : ∀ c ∈ path.dropLast, ¬ ['.', '.'] <:+ c.toList := by
  intro c hc
  obtain ⟨before, after, hsplit⟩ := List.append_of_mem hc
  have hne : path ≠ [] := by
    rintro rfl
    cases hc
  have hpath : path = before ++ [c] ++ (after ++ [path.getLast hne]) := by
    conv_lhs => rw [← List.dropLast_append_getLast hne, hsplit]
    simp
  rw [hpath] at h
  exact ht.directory before c (ht.above h (by simp))

end

/-! ## The name of a file in the archive -/

section Names

variable {q : Path}

def joined (q : Path) : List Char := ['/'].intercalate (q.map String.toList)

variable {c : String}

theorem isComponent_of_portableName (h : portableName c = true) : isComponent c = true :=
  (Bool.and_eq_true _ _ ▸ h).1

theorem slash_notMem (h : isComponent c = true) : '/' ∉ c.toList := by
  simp only [isComponent, Bool.and_eq_true, Bool.not_eq_true', List.contains_eq_mem,
    decide_eq_false_iff_not] at h
  exact h.1.2

theorem ne_empty_of_isComponent (h : isComponent c = true) : c ≠ "" := by
  simp only [isComponent, Bool.and_eq_true, bne_iff_ne] at h
  exact h.1.1.1.1

theorem ne_dot_of_isComponent (h : isComponent c = true) : c ≠ "." := by
  simp only [isComponent, Bool.and_eq_true, bne_iff_ne] at h
  exact h.1.1.1.2

theorem joined_cons {d : String} (q : Path) :
    joined (c :: d :: q) = c.toList ++ ('/' :: joined (d :: q)) := intercalate_cons_append

theorem joined_append {dir : Path} (hdir : dir ≠ []) (hq : q ≠ []) :
    joined (dir ++ q) = joined dir ++ '/' :: joined q := by
  induction dir with
  | nil => exact absurd rfl hdir
  | cons c dir ih =>
    cases dir with
    | nil =>
      cases q with
      | nil => exact absurd rfl hq
      | cons d q => exact (joined_cons q).trans (by simp [joined, List.intercalate])
    | cons d dir =>
      have hrest := ih (List.cons_ne_nil d dir)
      grind [joined_cons]

theorem splitOn_joined (hq : q ≠ []) (h : ∀ c ∈ q, isComponent c = true) :
    (joined q).splitOn '/' = q.map String.toList := by
  refine List.splitOn_intercalate '/' ?_ ?_
  · intro part hpart
    obtain ⟨c, hc, rfl⟩ := List.mem_map.mp hpart
    exact slash_notMem (h c hc)
  · exact fun hnil => hq (List.map_eq_nil_iff.mp hnil)

theorem pathComponents_joined (hq : q ≠ []) (h : ∀ c ∈ q, isComponent c = true) :
    pathComponents (String.ofList (joined q)) = q := by
  rw [pathComponents, String.toList_ofList, splitOn_joined hq h, List.map_map]
  have hid : q.map (String.ofList ∘ String.toList) = q :=
    (List.map_congr_left fun c _ => String.ofList_toList).trans (List.map_id' q)
  rw [hid]
  exact List.filter_eq_self.mpr fun c hc => by simpa using ne_empty_of_isComponent (h c hc)

theorem head_joined (q : Path) (hc : isComponent c = true) :
    ∃ x rest, joined (c :: q) = x :: rest ∧ x ≠ '/' := by
  obtain ⟨x, rest, hx⟩ := List.exists_cons_of_ne_nil
    (fun hnil => ne_empty_of_isComponent hc (String.toList_eq_nil_iff.mp hnil) : c.toList ≠ [])
  have hne : x ≠ '/' := fun heq => slash_notMem hc (by rw [hx, heq]; exact List.mem_cons_self)
  cases q with
  | nil => exact ⟨x, rest, by simp [joined, List.intercalate, hx], hne⟩
  | cons d q => exact ⟨x, _, by rw [joined_cons, hx, List.cons_append], hne⟩

theorem getLast_joined (hq : q ≠ []) (h : ∀ c ∈ q, isComponent c = true) :
    (joined q).getLast? ≠ some '/' := by
  induction q with
  | nil => exact absurd rfl hq
  | cons c q ih =>
    cases q with
    | nil =>
      intro hlast
      have hsingle : joined [c] = c.toList := by simp [joined, List.intercalate]
      rw [hsingle] at hlast
      exact slash_notMem (h c List.mem_cons_self) (List.mem_of_getLast? hlast)
    | cons d q =>
      have hrest := ih (List.cons_ne_nil d q) fun x hx => h x (List.mem_cons_of_mem c hx)
      obtain ⟨x, rest, hx, -⟩ := head_joined q (h d (List.mem_cons_of_mem c List.mem_cons_self))
      rw [hx] at hrest
      rwa [joined_cons, hx, List.getLast?_append, List.getLast?_cons_cons, List.getLast?_cons,
        Option.some_or, ← List.getLast?_cons]

theorem infix_parent {part rest : List Char} (hpart : '/' ∉ part)
    (h : ['.', '.', '/'] <:+: part ++ '/' :: rest) :
    ['.', '.'] <:+ part ∨ ['.', '.', '/'] <:+: rest := by
  obtain ⟨before, after, heq⟩ := h
  have heq' : (before ++ ['.', '.']) ++ '/' :: after = part ++ '/' :: rest := by
    rw [← heq]
    simp
  rcases List.append_eq_append_iff.mp heq' with ⟨mid, hmid, hrest⟩ | ⟨mid, hmid, hrest⟩
  · cases mid with
    | nil =>
      simp_all
    | cons x mid =>
      -- the slash of the pattern would be in the component
      simp_all
  · cases mid with
    | nil =>
      grind
    | cons x mid =>
      injection hrest with hx hrest
      -- the pattern is after the slash, since the slash is none of its dots
      have hdots : ['.', '.'] <:+ part ++ x :: mid := ⟨before, hmid⟩
      cases List.suffix_or_suffix_of_suffix hdots (List.suffix_append part (x :: mid)) with
      | inl hsuffix =>
        cases List.suffix_cons_iff.mp hsuffix with
        | inl heq =>
          rw [← hx] at heq
          cases heq
        | inr hsuffix =>
          obtain ⟨front, hfront⟩ := hsuffix
          right
          rw [hrest, ← hfront]
          exact ⟨front, after, by simp⟩
      | inr hsuffix =>
        grind [List.mem_cons_self]

section

variable (hq : q ≠ []) (h : ∀ c ∈ q, isComponent c = true)
  (hinner : ∀ c ∈ q.dropLast, ¬ ['.', '.'] <:+ c.toList)

include hq h hinner

theorem no_parent_joined : ¬ ['.', '.', '/'] <:+: joined q := by
  induction q with
  | nil => exact absurd rfl hq
  | cons c q ih =>
    cases q with
    | nil =>
      intro hwithin
      have hsingle : joined [c] = c.toList := by simp [joined, List.intercalate]
      rw [hsingle] at hwithin
      exact slash_notMem (h c List.mem_cons_self) (hwithin.subset (by simp))
    | cons d q =>
      rw [joined_cons]
      intro hinfix
      cases infix_parent (slash_notMem (h c List.mem_cons_self)) hinfix with
      | inl hc => exact hinner c (by simp) hc
      | inr hrest =>
        simp_all

theorem skips_joined (combining : Char → Bool) :
    skips combining (String.ofList (joined q)) = false := by
  cases q with
  | nil => exact absurd rfl hq
  | cons c q =>
    obtain ⟨x, rest, hx, hne⟩ := head_joined q (h c List.mem_cons_self)
    have hempty : (String.ofList (joined (c :: q))).isEmpty = false := by
      simp_all
    refine skips_of_no_marker hempty ?_
    rintro rest' (hparent | hroot) <;> rw [String.toList_ofList] at *
    · exact no_parent_joined hq h hinner
        ((List.prefix_append ['.', '.', '/'] rest').isInfix.trans hparent.isInfix)
    · rw [hx] at hroot
      exact hne (List.cons.inj hroot).1.symm

end

theorem mem_joined {x : Char} (hx : x ∈ joined q) : x = '/' ∨ ∃ c ∈ q, x ∈ c.toList := by
  induction q with
  | nil => cases hx
  | cons c q ih =>
    cases q with
    | nil =>
      have hsingle : joined [c] = c.toList := by simp [joined, List.intercalate]
      exact .inr ⟨c, List.mem_cons_self, hsingle ▸ hx⟩
    | cons d q =>
      grind [joined_cons]

theorem zipArchiveRelativePath_joined (directory : Path) (hq : q ≠ [])
    (h : ∀ c ∈ q, portableName c = true) :
    zipArchiveRelativePath (pathString directory) (pathString (directory ++ q)) =
      String.ofList (joined q) := by
  have hcomp := fun c hc => isComponent_of_portableName (h c hc)
  -- a slash or none, and then the name
  obtain ⟨slash, hpath, hslash⟩ : ∃ slash, (pathString (directory ++ q)).toList =
      (pathString directory).toList ++ (slash ++ joined q) ∧ (slash = [] ∨ slash = ['/']) := by
    simp only [pathString, String.toList_ofList]
    by_cases hdir : directory = []
    · exact ⟨[], by rw [hdir]; rfl, .inl rfl⟩
    · refine ⟨['/'], ?_, .inr rfl⟩
      grind [joined_append, joined]
  have hdrop : (slash ++ joined q).dropWhile (· == '/') = joined q := by
    cases q with
    | nil => exact absurd rfl hq
    | cons c q =>
      obtain ⟨x, rest, hx, hne⟩ := head_joined q (hcomp c List.mem_cons_self)
      rw [hx]
      rcases hslash with rfl | rfl <;> simp [hne]
  have hmap : (joined q).map (fun c => if c = '\\' then '/' else c) = joined q := by
    refine (List.map_congr_left fun x hx => ?_).trans (List.map_id' _)
    refine if_neg ?_
    rintro rfl
    cases mem_joined hx with
    | inl heq => cases heq
    | inr hmem =>
      grind [portableName]
  simp [zipArchiveRelativePath, hpath, hdrop, hmap]

end Names

section Place

variable {h : Host} {here : Path} {cs : List String}

theorem makeDirectories_down (hdown : ∀ c ∈ cs, c ≠ "..")
    (hway : ∀ p, p <+: cs → p ≠ [] → ∀ data, h (here ++ p) ≠ some (.file data)) :
    (∀ p, p <+: cs → p ≠ [] → (h.makeDirectories here cs).1 (here ++ p) = some .directory) ∧
    ∀ r, (∀ p, p <+: cs → p ≠ [] → r ≠ here ++ p) → (h.makeDirectories here cs).1 r = h r := by
  induction cs generalizing h here with
  | nil => exact ⟨fun p hp hne => absurd (List.prefix_nil.mp hp) hne, fun _ _ => rfl⟩
  | cons c rest ih =>
    have hassoc : ∀ p, here ++ [c] ++ p = here ++ c :: p := fun p => by simp
    have hfirst : ∀ data, h (here ++ [c]) ≠ some (.file data) :=
      hway [c] (List.prefix_append [c] rest) (List.cons_ne_nil c [])
    have hrest : ∀ {p}, p <+: rest → c :: p <+: c :: rest := fun hp => List.cons_prefix_cons.mpr ⟨rfl, hp⟩
    -- the host on which the rest of the way is made
    obtain ⟨h1, hmake, hthere, hother⟩ : ∃ h1 : Host,
        (h.makeDirectories here (c :: rest)).1 = (h1.makeDirectories (here ++ [c]) rest).1 ∧
        h1 (here ++ [c]) = some .directory ∧ ∀ r, r ≠ here ++ [c] → h1 r = h r := by
      have hup := hdown c List.mem_cons_self
      cases hitem : h (here ++ [c]) with
      | none =>
        refine ⟨h.set (here ++ [c]) .directory, ?_, if_pos rfl, fun r hr => if_neg hr⟩
        rw [Host.makeDirectories, if_neg hup, hitem]
      | some item =>
        cases item with
        | file data => exact absurd hitem (hfirst data)
        | directory =>
          refine ⟨h, ?_, hitem, fun _ _ => rfl⟩
          rw [Host.makeDirectories, if_neg hup, hitem]
    have hway1 : ∀ p, p <+: rest → p ≠ [] → ∀ data, h1 (here ++ [c] ++ p) ≠ some (.file data) := by
      grind
    obtain ⟨hmade, hkept⟩ := ih (fun d hd => hdown d (List.mem_cons_of_mem c hd)) hway1
    rw [hmake]
    constructor
    · intro p hp hne
      cases p with
      | nil => exact absurd rfl hne
      | cons d p =>
        grind
    · grind

theorem locate_down (hdown : ∀ c ∈ cs, c ≠ "..") (hcs : cs ≠ [])
    (hway : ∀ p, p <+: cs.dropLast → p ≠ [] → h (here ++ p) = some .directory)
    (hfree : h (here ++ cs) ≠ some .directory) : h.locate here cs = some (here ++ cs) := by
  induction cs generalizing here with
  | nil => exact absurd rfl hcs
  | cons c rest ih =>
    unfold Host.locate
    rw [if_neg (hdown c List.mem_cons_self)]
    by_cases hlast : rest = []
    · subst hlast
      rw [if_pos rfl, if_neg hfree]
    · have hdrop : (c :: rest).dropLast = c :: rest.dropLast := List.dropLast_cons_of_ne_nil hlast
      have hfirst := hway [c] (hdrop ▸ List.prefix_append [c] rest.dropLast) (List.cons_ne_nil c [])
      rw [if_neg hlast, if_pos hfirst]
      have hassoc : ∀ p, here ++ [c] ++ p = here ++ c :: p := fun p => by simp
      rw [← hassoc rest]
      refine ih (fun d hd => hdown d (List.mem_cons_of_mem c hd)) hlast (fun p hp hne => ?_) ?_
      · grind
      · rwa [hassoc]

end Place

section Unpack

variable {t : Path → Option HostItem} {directory : Path} {host : Host} {combining : Char → Bool}

open Classical in
noncomputable def partTree (t : Path → Option HostItem) (done : List Path) (path : Path) : Option HostItem :=
  if path = [] ∨ ∃ q ∈ done, path <+: q then t path else none

variable {done : List Path}

theorem partTree_of_above {path : Path}
    (h : path = [] ∨ ∃ q ∈ done, path <+: q) : partTree t done path = t path := if_pos h

theorem partTree_cases (t : Path → Option HostItem) (done : List Path) (path : Path) :
    partTree t done path = t path ∨ partTree t done path = none := by
  unfold partTree
  split
  · exact .inl rfl
  · exact .inr rfl

variable {q : Path}

theorem partTree_cons {path : Path} (h : ¬ path <+: q) :
    partTree t (q :: done) path = partTree t done path := by
  unfold partTree
  simp [h]

theorem set_partTree (ht : Packable t) {data : Data} {h1 : Host}
    (hfile : t q = some (.file data))
    (hmade : ∀ p, p <+: q.dropLast → p ≠ [] → h1 (directory ++ p) = some .directory)
    (hkept : ∀ r, (∀ p, p <+: q.dropLast → p ≠ [] → r ≠ directory ++ p) →
      h1 r = host.graft directory (partTree t done) r) :
    h1.set (directory ++ q) (.file data) = host.graft directory (partTree t (q :: done)) := by
  have hsome : t q ≠ none := by rw [hfile]; simp
  have hq := ht.ne_nil_of_file hfile
  funext r
  by_cases hr : directory <+: r
  · obtain ⟨x, rfl⟩ := hr
    rw [Host.graft_below, Host.set]
    -- the file, a directory it is in, or what was there
    by_cases hx : x = q
    · simp [partTree_of_above, hx, hfile]
    · rw [if_neg fun heq => hx (List.append_cancel_left heq)]
      by_cases hp : x <+: q
      · have hproper : x <+: q.dropLast := by
          refine List.prefix_of_prefix_length_le hp ( List.dropLast_prefix q) ?_
          have hle := hp.length_le
          have hlen : x.length ≠ q.length := fun heq => hx (hp.eq_of_length heq)
          rw [List.length_dropLast]
          omega
        rw [partTree_of_above (.inr ⟨q, List.mem_cons_self, hp⟩), ht.proper hsome hproper hq]
        by_cases hnil : x = []
        · rw [hkept _ fun p _ hne heq => hne (by rw [hnil] at heq; simpa using heq), Host.graft_below, hnil]
          exact (partTree_of_above (.inl rfl)).trans ht.root
        · exact hmade x hproper hnil
      · grind [partTree_cons, Host.graft_below, List.append_cancel_left, List.dropLast_prefix]
  · rw [Host.graft_outside hr, Host.set, if_neg, hkept, Host.graft_outside hr]
    · rintro p - - rfl
      exact hr (List.prefix_append _ _)
    · rintro rfl
      exact hr (List.prefix_append _ _)

theorem extractEntry_file {entry : ZipEntry} {name : String} {path : Path}
    (hname : entry.relativePath = some name) (hskip : ¬ skips combining name = true)
    (hdir : ¬ entry.isDirectory = true)
    (hopen : openForWriting (createDirectories host directory (pathComponents name).dropLast) directory
      (pathComponents name) = some path) :
    extractEntry combining directory host entry =
      ((createDirectories host directory (pathComponents name).dropLast).set path (.file entry.written),
        entry.complete) := by
  simp [extractEntry, hname, hskip, hdir, hopen]

theorem extractEntry_addedFile (ht : Packable t) {data : Data}
    (hfile : t q = some (.file data)) :
    extractEntry combining directory (host.graft directory (partTree t done))
        (addedFile (String.ofList (joined q)) data) =
      (host.graft directory (partTree t (q :: done)), true) := by
  have hsome : t q ≠ none := by rw [hfile]; simp
  have hq := ht.ne_nil_of_file hfile
  have hcomp := fun c hc => isComponent_of_portableName (ht.names hsome c hc)
  have hup : ∀ c ∈ q, c ≠ ".." := fun c hc => ne_up_of_isComponent (hcomp c hc)
  have hdot : ∀ c ∈ q, c ≠ "." := fun c hc => ne_dot_of_isComponent (hcomp c hc)
  have hskip := skips_joined hq hcomp (ht.inner hsome) combining
  have hparts := pathComponents_joined hq hcomp
  have hnotdir : (addedFile (String.ofList (joined q)) data).isDirectory = false := by
    rw [addedFile, String.toList_ofList, beq_eq_false_iff_ne]
    exact getLast_joined hq hcomp
  -- the directories the file is in
  obtain ⟨h1, hcreate, hmade, hkept⟩ : ∃ h1,
      createDirectories (host.graft directory (partTree t done)) directory q.dropLast = h1 ∧
      (∀ p, p <+: q.dropLast → p ≠ [] → h1 (directory ++ p) = some .directory) ∧
      ∀ r, (∀ p, p <+: q.dropLast → p ≠ [] → r ≠ directory ++ p) →
        h1 r = host.graft directory (partTree t done) r := by
    have hsub : ∀ c ∈ q.dropLast, c ∈ q := fun c hc => List.mem_of_mem_dropLast hc
    refine ⟨_, rfl, ?_⟩
    have hfilter : q.dropLast.filter (· ≠ ".") = q.dropLast :=
      List.filter_eq_self.mpr fun c hc => by simpa using hdot c (hsub c hc)
    rw [createDirectories, hfilter]
    refine makeDirectories_down (fun c hc => hup c (hsub c hc)) fun p hp hne d => ?_
    rw [Host.graft_below]
    cases partTree_cases t done p with
    | inl heq =>
      rw [heq, ht.proper hsome hp hq]
      simp
    | inr heq =>
      rw [heq]
      simp
  have hself : ∀ p, p <+: q.dropLast → p ≠ [] → directory ++ q ≠ directory ++ p := by
    intro p hp _ heq
    rw [List.append_cancel_left heq] at hq
    have hlen := (List.append_cancel_left heq) ▸ hp.length_le
    rw [List.length_dropLast] at hlen
    have := List.length_pos_iff.mpr hq
    omega
  have hopen : openForWriting h1 directory q = some (directory ++ q) := by
    have hlast : ¬ (q.getLast? = some "." ∨ q.getLast? = some "..") := by
      grind
    have hfilter : q.filter (· ≠ ".") = q :=
      List.filter_eq_self.mpr fun c hc => by simpa using hdot c hc
    rw [openForWriting, if_neg hlast, hfilter]
    refine locate_down hup hq hmade ?_
    rw [hkept _ hself, Host.graft_below]
    cases partTree_cases t done q with
    | inl heq =>
      rw [heq, hfile]
      simp
    | inr heq =>
      rw [heq]
      simp
  have hentry := @extractEntry_file directory (host.graft directory (partTree t done)) combining
    (addedFile (String.ofList (joined q)) data) _ (directory ++ q) rfl (by simp [hskip])
    (by simp [hnotdir])
  rw [hparts, hcreate] at hentry
  rw [hentry hopen]
  exact Prod.ext (set_partTree ht hfile hmade hkept) rfl

theorem extractEntries_createArchive (ht : Packable t) {source : Host} {base : Path}
    (hsource : ∀ q, source (base ++ q) = t q) (urls : List Path) (hurls : ∀ url ∈ urls, base <+: url)
    (done : List Path) :
    ∃ done', extractEntries combining directory (host.graft directory (partTree t done))
        ((createArchive source base urls).map some) = (host.graft directory (partTree t done'), true) ∧
      ∀ q, q ∈ done' ↔ q ∈ done ∨ base ++ q ∈ urls ∧ ∃ data, t q = some (.file data) := by
  induction urls generalizing done with
  | nil => exact ⟨done, rfl, fun q => by simp⟩
  | cons url urls ih =>
    have hrest := fun u hu => hurls u (List.mem_cons_of_mem url hu)
    obtain ⟨q, rfl⟩ := hurls url List.mem_cons_self
    by_cases hfile : ∃ data, t q = some (.file data)
    · obtain ⟨data, hfile⟩ := hfile
      have hsome : t q ≠ none := by rw [hfile]; simp
      have hq := ht.ne_nil_of_file hfile
      have hnames := ht.names hsome
      have hname := zipArchiveRelativePath_joined base hq hnames
      have hskip := skips_joined hq (fun c hc => isComponent_of_portableName (hnames c hc))
        (ht.inner hsome) combining
      have hempty : (String.ofList (joined q)).isEmpty = false := by
        grind [skips]
      have harchive : createArchive source base ((base ++ q) :: urls) =
          addedFile (String.ofList (joined q)) data :: createArchive source base urls := by
        refine List.filterMap_cons_some ?_
        rw [hsource, hfile]
        dsimp only
        rw [hname, hempty]
        rfl
      obtain ⟨done', heq, hmem⟩ := ih hrest (q :: done)
      refine ⟨done', ?_, fun p => ?_⟩
      · rw [harchive, List.map_cons, extractEntries, extractEntry_addedFile ht hfile]
        exact heq
      · rw [hmem p, List.mem_cons, List.mem_cons]
        constructor
        · rintro ((rfl | hp) | ⟨hp, hd⟩)
          · exact .inr ⟨.inl rfl, data, hfile⟩
          · exact .inl hp
          · exact .inr ⟨.inr hp, hd⟩
        · rintro (hp | ⟨hp | hp, hd⟩)
          · exact .inl (.inr hp)
          · exact .inl (.inl (List.append_cancel_left hp))
          · exact .inr ⟨hp, hd⟩
    · have harchive : createArchive source base ((base ++ q) :: urls) = createArchive source base urls := by
        unfold createArchive
        rw [List.filterMap_cons, hsource]
        cases hitem : t q with
        | none => rfl
        | some item =>
          cases item with
          | directory => rfl
          | file data => exact absurd ⟨data, hitem⟩ hfile
      obtain ⟨done', heq, hmem⟩ := ih hrest done
      refine ⟨done', by rw [harchive, heq], fun p => ?_⟩
      rw [hmem p, List.mem_cons]
      constructor
      · rintro (hp | ⟨hp, hd⟩)
        · exact .inl hp
        · exact .inr ⟨.inr hp, hd⟩
      · rintro (hp | ⟨hp | hp, hd⟩)
        · exact .inl hp
        · rw [List.append_cancel_left hp] at hd
          exact absurd hd hfile
        · exact .inr ⟨hp, hd⟩

/-- **Unpacking what was packed** makes an empty directory the tree of the files. -/
theorem extractArchive_createArchive (ht : Packable t) {source : Host} {base : Path}
    (hsource : ∀ q, source (base ++ q) = t q) {urls : List Path} (hurls : Enumerates source base urls)
    (hthere : host directory = some .directory) (hbare : Bare host directory) :
    extractArchive combining (some ((createArchive source base urls).map some)) directory host =
      (host.graft directory (packedTree t), true) := by
  have hstart : host = host.graft directory (partTree t []) := by
    funext r
    by_cases hr : directory <+: r
    · obtain ⟨x, rfl⟩ := hr
      rw [Host.graft_below]
      by_cases hx : x = []
      · rw [partTree_of_above (.inl hx), hx, List.append_nil, hthere, ht.root]
      · rw [hbare x hx, partTree, if_neg]
        simp [hx]
    · rw [Host.graft_outside hr]
  obtain ⟨done, heq, hmem⟩ := @extractEntries_createArchive t directory host combining ht source base hsource
    urls
    (fun url hurl => ((hurls url).mp hurl).1.1) []
  have hdone : partTree t done = packedTree t := by
    funext path
    unfold partTree packedTree
    have hsame : (∃ q ∈ done, path <+: q) ↔ LeadsToFile t path := by
      constructor
      · rintro ⟨q, hq, rest, rfl⟩
        obtain ⟨-, data, hfile⟩ := ((hmem _).mp hq).resolve_left List.not_mem_nil
        exact ⟨rest, data, hfile⟩
      · rintro ⟨rest, data, hfile⟩
        refine ⟨path ++ rest, (hmem _).mpr (.inr ⟨(hurls _).mpr ⟨⟨List.prefix_append _ _, ?_⟩, ?_⟩, data, hfile⟩),
          List.prefix_append _ _⟩
        · intro hself
          exact ht.ne_nil_of_file hfile (by simpa using hself)
        · rw [hsource, hfile]
          simp
    by_cases h : path = [] ∨ LeadsToFile t path
    · rw [if_pos h, if_pos (h.imp_right hsame.mpr)]
    · rw [if_neg h, if_neg fun h' => h (h'.imp_right hsame.mp)]
  unfold extractArchive
  rw [if_pos hthere]
  dsimp only
  conv_lhs => rw [hstart]
  rw [heq, hdone]

end Unpack

end DukeX.CloudSaves
