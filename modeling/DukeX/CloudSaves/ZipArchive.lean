import DukeX.Swift.Paths

/-!
# Extracting an archive

`extractArchiveAtPath:toDirectory:error:` follows the names of the archive below a directory. It
passes over names that are empty, hold `../` or begin with a slash. Both searches are those of
`NSString` without options: a match has to end where a composed character ends, so neither finds a
slash with a combining mark behind it. Which scalars combine is a parameter.
-/

namespace DukeX.CloudSaves

open DukeX.Swift

/-! ## The reader -/

structure ZipEntry where
  relativePath : Option String
  isDirectory : Bool
  written : Data
  complete : Bool

def pathComponents (name : String) : List String :=
  ((name.toList.splitOn '/').map String.ofList).filter (· ≠ "")

def endsCharacter (combining : Char → Bool) (rest : List Char) : Bool := !rest.head?.any combining

/-- `[relativePath containsString:@"../"]` -/
def containsParent (combining : Char → Bool) (name : String) : Bool :=
  name.toList.tails.any fun tail =>
    ['.', '.', '/'].isPrefixOf tail && endsCharacter combining (tail.drop 3)

/-- `[relativePath hasPrefix:@"/"]` -/
def isAbsolute (combining : Char → Bool) (name : String) : Bool :=
  ['/'].isPrefixOf name.toList && endsCharacter combining (name.toList.drop 1)

def skips (combining : Char → Bool) (name : String) : Bool :=
  name.isEmpty || containsParent combining name || isAbsolute combining name

def createDirectories (host : Host) (directory : Path) (cs : List String) : Host :=
  (host.makeDirectories directory (cs.filter (· ≠ "."))).1

def openForWriting (host : Host) (directory : Path) (cs : List String) : Option Path :=
  if cs.getLast? = some "." ∨ cs.getLast? = some ".." then none
  else host.locate directory (cs.filter (· ≠ "."))

def extractEntry (combining : Char → Bool) (directory : Path) (host : Host) (entry : ZipEntry) :
    Host × Bool :=
  match entry.relativePath with
  | none => (host, true)
  | some relativePath =>
    if skips combining relativePath then (host, true)
    else
      let destination := pathComponents relativePath
      if entry.isDirectory then (createDirectories host directory destination, true)
      else
        let host := createDirectories host directory destination.dropLast
        match openForWriting host directory destination with
        | some path => (host.set path (.file entry.written), entry.complete)
        | none => (host, false)

/-- The loop over the entries; `none` is an entry whose metadata cannot be read. -/
def extractEntries (combining : Char → Bool) (directory : Path) :
    Host → List (Option ZipEntry) → Host × Bool
  | host, [] => (host, true)
  | host, none :: _ => (host, false)
  | host, some entry :: rest =>
    let (host, ok) := extractEntry combining directory host entry
    if ok then extractEntries combining directory host rest else (host, false)

def extractArchive (combining : Char → Bool) (archive : Option (List (Option ZipEntry)))
    (directory : Path) (host : Host) : Host × Bool :=
  -- a directory that is there is left as it is
  let host := if host directory = some .directory then host
    else createDirectories host [] directory
  match archive with
  | none => (host, false)
  | some entries => extractEntries combining directory host entries

/-! ## What the filter sees -/

section Filter

variable {combining : Char → Bool} {name : String}

/-- The text `../`, or a slash that begins the name, with `rest` behind it. -/
def Marker (name : String) (rest : List Char) : Prop :=
  '.' :: '.' :: '/' :: rest <:+ name.toList ∨ '/' :: rest = name.toList

/-- If a name has a marker, it has one without a combining mark behind it. -/
def Unmarked (combining : Char → Bool) (name : String) : Prop :=
  ∀ rest, Marker name rest → ∃ rest, Marker name rest ∧ endsCharacter combining rest = true

theorem containsParent_iff : containsParent combining name = true ↔
    ∃ rest, '.' :: '.' :: '/' :: rest <:+ name.toList ∧ endsCharacter combining rest = true := by
  simp only [containsParent, List.any_eq_true, List.mem_tails, Bool.and_eq_true,
    List.isPrefixOf_iff_prefix]
  constructor
  · rintro ⟨_, hsuffix, ⟨rest, rfl⟩, hends⟩
    exact ⟨rest, hsuffix, hends⟩
  · rintro ⟨rest, hsuffix, hends⟩
    exact ⟨_, hsuffix, List.prefix_append ['.', '.', '/'] rest, hends⟩

theorem isAbsolute_iff : isAbsolute combining name = true ↔
    ∃ rest, '/' :: rest = name.toList ∧ endsCharacter combining rest = true := by
  simp only [isAbsolute, Bool.and_eq_true, List.isPrefixOf_iff_prefix]
  constructor
  · rintro ⟨⟨rest, hrest⟩, hends⟩
    rw [← hrest] at hends
    exact ⟨rest, hrest, hends⟩
  · rintro ⟨rest, hrest, hends⟩
    rw [← hrest]
    exact ⟨List.prefix_append ['/'] rest, hends⟩

theorem skips_of_marker (hname : Unmarked combining name) (rest : List Char)
    (h : Marker name rest) : skips combining name = true := by
  obtain ⟨rest, hparent | habsolute, hends⟩ := hname rest h
  · simp [skips, containsParent_iff.mpr ⟨rest, hparent, hends⟩]
  · simp [skips, isAbsolute_iff.mpr ⟨rest, habsolute, hends⟩]

/-- A name without a marker is unmarked, and passes unless it is empty. -/
theorem skips_of_no_marker (hne : name.isEmpty = false) (h : ∀ rest, ¬ Marker name rest) :
    skips combining name = false := by
  have hparent : containsParent combining name = false := by
    rw [← Bool.not_eq_true, containsParent_iff]
    exact fun ⟨rest, hrest, _⟩ => h rest (.inl hrest)
  have habsolute : isAbsolute combining name = false := by
    rw [← Bool.not_eq_true, isAbsolute_iff]
    exact fun ⟨rest, hrest, _⟩ => h rest (.inr hrest)
  rw [skips, hne, hparent, habsolute]
  rfl

theorem no_parent_of_passes (hname : Unmarked combining name)
    (hskip : ¬ skips combining name = true) :
    ¬ ['.', '.', '/'] <:+: name.toList := by
  rintro ⟨before, rest, hsplit⟩
  rw [List.append_assoc] at hsplit
  exact hskip (skips_of_marker hname rest (.inl ⟨before, hsplit⟩))

theorem no_root_of_passes (hname : Unmarked combining name)
    (hskip : ¬ skips combining name = true) :
    name.toList.head? ≠ some '/' := by
  intro hhead
  obtain ⟨rest, hrest⟩ := List.head?_eq_some_iff.mp hhead
  exact hskip (skips_of_marker hname rest (.inr hrest.symm))

end Filter

/-! ## Where a name that passes leads -/

theorem intercalate_cons_append {c : Char} {x y : List Char} {xs : List (List Char)} :
    [c].intercalate (x :: y :: xs) = x ++ ([c] ++ [c].intercalate (y :: xs)) := by
  simp [List.intercalate, List.intersperse_cons_cons]

theorem infix_intercalate (c : Char) (parts rest : List (List Char)) (part next : List Char) :
    part ++ [c] <:+: [c].intercalate (parts ++ part :: next :: rest) := by
  induction parts with
  | nil =>
    rw [List.nil_append, intercalate_cons_append, ← List.append_assoc]
    exact List.infix_append' [] _ _
  | cons x parts ih =>
    obtain ⟨y, ys, hy⟩ : ∃ y ys, parts ++ part :: next :: rest = y :: ys :=
      List.exists_cons_of_ne_nil (by simp)
    grind [intercalate_cons_append]

variable {name : String}

theorem parts_of_no_parent (h : ¬ ['.', '.', '/'] <:+: name.toList)
    (parts rest : List (List Char)) (next : List Char) :
    name.toList.splitOn '/' ≠ parts ++ ['.', '.'] :: next :: rest := by
  intro hsplit
  have hjoin : ['/'].intercalate (name.toList.splitOn '/') = name.toList :=
    List.intercalate_splitOn '/'
  rw [hsplit] at hjoin
  have hinfix := infix_intercalate '/' parts rest ['.', '.'] next
  rw [hjoin] at hinfix
  exact h hinfix

theorem pairwise_ne_of_last {α : Type} {x : α} {l : List α}
    (h : ∀ parts next rest, l ≠ parts ++ x :: next :: rest) : l.Pairwise fun a _ => a ≠ x := by
  induction l with
  | nil => exact .nil
  | cons a l ih =>
    refine .cons ?_ (ih ?_)
    · rintro b hb rfl
      obtain ⟨next, rest, hl⟩ := List.exists_cons_of_ne_nil (List.ne_nil_of_mem hb)
      exact h [] next rest (by rw [hl]; rfl)
    · grind

theorem ofList_eq_up {l : List Char} : String.ofList l = ".." ↔ l = ['.', '.'] := by
  constructor
  · intro h
    have hlist := congrArg String.toList h
    rwa [String.toList_ofList] at hlist
  · rintro rfl
    rfl

theorem pairwise_pathComponents (h : ¬ ['.', '.', '/'] <:+: name.toList) :
    (pathComponents name).Pairwise fun a _ => a ≠ ".." := by
  have hparts := pairwise_ne_of_last fun parts next rest =>
    parts_of_no_parent h parts rest next
  refine List.Pairwise.filter _ (List.pairwise_map.mpr (hparts.imp ?_))
  intro a _ ha hup
  exact ha (ofList_eq_up.mp hup)

variable {cs : List String}

theorem ne_up_of_mem_dropLast (h : cs.Pairwise fun a _ => a ≠ "..")
    {c : String} (hc : c ∈ cs.dropLast) : c ≠ ".." := by
  have hne : cs ≠ [] := by
    rintro rfl
    cases hc
  rw [← List.dropLast_append_getLast hne, List.pairwise_append] at h
  exact h.2.2 c hc _ (List.mem_singleton.mpr rfl)

variable {here path : Path}

theorem below_of_mem_trail (h : cs.Pairwise fun a _ => a ≠ "..")
    {q : Path} (hq : q ∈ trail here cs) : here <+: q := by
  induction cs generalizing here with
  | nil => cases hq
  | cons c rest ih =>
    obtain ⟨hfirst, hrest⟩ := List.pairwise_cons.mp h
    unfold trail at hq
    by_cases hup : c = ".."
    · -- nothing follows a component that leads up
      have hnil : rest = [] := by
        by_contra hne
        obtain ⟨d, ds, hd⟩ := List.exists_cons_of_ne_nil hne
        exact hfirst d (by rw [hd]; exact List.mem_cons_self) hup
      rw [if_pos hup, hnil] at hq
      cases hq
    · rw [if_neg hup] at hq
      grind [List.prefix_append]

theorem inside_of_fileTrail (h : ∀ c ∈ cs, c ≠ "..")
    {ds : List Path} (htrail : fileTrail here cs = some (ds, path)) :
    Inside here path := by
  induction cs generalizing here ds with
  | nil => cases htrail
  | cons c rest ih =>
    unfold fileTrail at htrail
    rw [if_neg (h c List.mem_cons_self)] at htrail
    by_cases hlast : rest = []
    · rw [if_pos hlast] at htrail
      cases htrail
      exact ⟨List.prefix_append here [c], by simp⟩
    · rw [if_neg hlast] at htrail
      obtain ⟨⟨ds', path'⟩, hrest, heq⟩ := Option.map_eq_some_iff.mp htrail
      cases heq
      obtain ⟨hbelow, -⟩ := ih (fun d hd => h d (List.mem_cons_of_mem c hd)) hrest
      refine ⟨(List.prefix_append here [c]).trans hbelow, ?_⟩
      rintro rfl
      have := hbelow.length_le
      simp at this

section Extract

variable {combining : Char → Bool} {directory : Path} {host : Host} {cs : List String}

theorem createDirectories_untouched (hroot : Rooted directory host)
    (h : cs.Pairwise fun a _ => a ≠ "..") :
    Untouched directory host (createDirectories host directory cs) := by
  refine Host.makeDirectories_untouched hroot fun q hq => .inr ?_
  exact below_of_mem_trail (h.filter _) hq

theorem inside_of_openForWriting (h : cs.Pairwise fun a _ => a ≠ "..")
    (hopen : openForWriting host directory cs = some path) : Inside directory path := by
  unfold openForWriting at hopen
  by_cases hlast : cs.getLast? = some "." ∨ cs.getLast? = some ".."
  · rw [if_pos hlast] at hopen
    cases hopen
  · rw [if_neg hlast] at hopen
    obtain ⟨ds, htrail, -, -⟩ := Host.locate_eq_some.mp hopen
    refine inside_of_fileTrail (fun c hc => ?_) htrail
    have hmem := List.mem_of_mem_filter hc
    -- the last component is not `..`, and those before it never are
    rintro rfl
    have hne := List.ne_nil_of_mem hmem
    rw [← List.dropLast_append_getLast hne, List.mem_append, List.mem_singleton] at hmem
    cases hmem with
    | inl hbefore => exact ne_up_of_mem_dropLast h hbefore rfl
    | inr heq => exact hlast (.inr (by rw [List.getLast?_eq_some_getLast hne, ← heq]))

theorem extractEntry_untouched (hroot : Rooted directory host) {entry : ZipEntry}
    (hentry : ∀ name, entry.relativePath = some name → Unmarked combining name) :
    Untouched directory host (extractEntry combining directory host entry).1 := by
  unfold extractEntry
  cases hname : entry.relativePath with
  | none => exact .refl directory host
  | some name =>
    dsimp only
    by_cases hskip : skips combining name = true
    · rw [if_pos hskip]
      exact .refl directory host
    · rw [if_neg hskip]
      have hcs := pairwise_pathComponents (no_parent_of_passes (hentry name hname) hskip)
      by_cases hdir : entry.isDirectory = true
      · simp [createDirectories_untouched, hdir, hroot, hcs]
      · rw [if_neg hdir]
        have hmade := createDirectories_untouched hroot
          (hcs.sublist (List.dropLast_sublist (pathComponents name)))
        cases hopen : openForWriting
            (createDirectories host directory (pathComponents name).dropLast)
            directory (pathComponents name) with
        | none => exact hmade
        | some path =>
          exact hmade.trans (untouched_set (inside_of_openForWriting hcs hopen))

def Names (combining : Char → Bool) (entries : List (Option ZipEntry)) : Prop :=
  ∀ entry, some entry ∈ entries → ∀ name, entry.relativePath = some name → Unmarked combining name

theorem extractEntries_untouched (hroot : Rooted directory host)
    {entries : List (Option ZipEntry)} (hnames : Names combining entries) :
    Untouched directory host (extractEntries combining directory host entries).1 := by
  induction entries generalizing host with
  | nil => exact .refl directory host
  | cons entry rest ih =>
    cases entry with
    | none => exact .refl directory host
    | some entry =>
      have hone := extractEntry_untouched hroot (hnames entry List.mem_cons_self)
      have hrest : Names combining rest := fun e he => hnames e (List.mem_cons_of_mem _ he)
      unfold extractEntries
      dsimp only
      split
      · exact hone.trans (ih (hone.rooted hroot) hrest)
      · exact hone

theorem extractArchive_untouched (hroot : Rooted directory host)
    {archive : Option (List (Option ZipEntry))}
    (hnames : ∀ entries, archive = some entries → Names combining entries) :
    Untouched directory host (extractArchive combining archive directory host).1 := by
  unfold extractArchive
  rw [if_pos (hroot directory (List.prefix_refl directory))]
  cases archive with
  | none => exact .refl directory host
  | some entries => exact extractEntries_untouched hroot (hnames entries rfl)

/-! ## Names with a parent component -/

def LeadsUp (name : String) : Prop :=
  name.toList.head? = some '/' ∨ ".." ∈ pathComponents name

def Rejected (combining : Char → Bool) (directory : Path) (entry : ZipEntry) : Prop :=
  ∀ host, Rooted directory host → (extractEntry combining directory host entry).2 = false ∨
    (extractEntry combining directory host entry).1 = host

def FollowedUp (combining : Char → Bool) (entry : ZipEntry) (name : String) : Prop :=
  entry.isDirectory = true ∧ skips combining name = false ∧
    ∃ c ∈ pathComponents name, c ≠ "." ∧ c ≠ ".."

def onlyDirectory (directory : Path) : Host := fun q =>
  if q <+: directory then some .directory else none

theorem rooted_onlyDirectory (directory : Path) : Rooted directory (onlyDirectory directory) :=
  fun _ hq => if_pos hq

theorem makeDirectories_up (h : ∀ c ∈ cs, c = "..") : (host.makeDirectories here cs).1 = host := by
  induction cs generalizing here with
  | nil => rfl
  | cons c rest ih =>
    unfold Host.makeDirectories
    simp_all

theorem makeDirectories_onlyDirectory (h : cs.Pairwise fun a _ => a ≠ "..")
    (hdown : ∃ c ∈ cs, c ≠ "..") :
    ((onlyDirectory directory).makeDirectories directory cs).1 ≠ onlyDirectory directory := by
  obtain ⟨c, hc, hne⟩ := hdown
  cases cs with
  | nil => cases hc
  | cons first rest =>
    have hfirst : first ≠ ".." := by
      cases List.mem_cons.mp hc with
      | inl heq => exact heq ▸ hne
      | inr hmem => exact (List.pairwise_cons.mp h).1 c hmem
    have hnew : onlyDirectory directory (directory ++ [first]) = none := by
      refine if_neg fun hp => ?_
      have := hp.length_le
      simp at this
    intro heq
    have hmade : ((onlyDirectory directory).makeDirectories directory (first :: rest)).1
        (directory ++ [first]) = some .directory := by
      simp [Host.makeDirectories, Host.makeDirectories_keeps, Host.set, hfirst, hnew]
    rw [heq, hnew] at hmade
    cases hmade

end Extract

variable {combining : Char → Bool} {directory : Path} {host : Host} {entry : ZipEntry}
  {name : String}

section

variable (hname : entry.relativePath = some name)

include hname

theorem extractEntry_of_skips (hskip : skips combining name = true) :
    extractEntry combining directory host entry = (host, true) := by
  unfold extractEntry
  rw [hname]
  exact if_pos hskip

theorem extractEntry_directory (hskip : ¬ skips combining name = true)
    (hdir : entry.isDirectory = true) : extractEntry combining directory host entry =
      (createDirectories host directory (pathComponents name), true) := by
  simp [extractEntry, hname, hskip, hdir]

theorem extractEntry_file_up (hskip : ¬ skips combining name = true)
    (hdir : ¬ entry.isDirectory = true) (hlast : (pathComponents name).getLast? = some "..") :
    (extractEntry combining directory host entry).2 = false := by
  simp [extractEntry, openForWriting, hname, hskip, hdir, hlast]

end

def parentFile : ZipEntry :=
  { relativePath := some "..", isDirectory := false, written := [1], complete := true }

def isAcute (c : Char) : Bool := c == '\u0301'

theorem unmarked_up : Unmarked isAcute ".." := by
  rintro rest (⟨before, hsplit⟩ | hroot)
  · exact absurd (congrArg List.length hsplit) (by simp; omega)
  · cases hroot

def parentDirectory : ZipEntry :=
  { relativePath := some "a/..", isDirectory := true, written := [], complete := true }

def markedFile : ZipEntry :=
  { relativePath := some "../\u0301x", isDirectory := false, written := [1], complete := true }

end DukeX.CloudSaves
