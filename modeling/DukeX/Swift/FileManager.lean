import DukeX.Swift.Data

/-!
# The host file system

What the save code asks of `FileManager`, `URL` and `Data.write(to:)`: directories and files under
absolute paths.
-/

namespace DukeX.Swift

abbrev Path := List String

inductive HostItem where
  | directory
  | file (data : Data)
  deriving DecidableEq, Repr

abbrev Host := Path → Option HostItem

/-- The components a name adds to a path, `none` for a name no path can have. -/
def components (name : String) : Option (List String) :=
  if '\x00' ∈ name.toList then none
  else some (((name.toList.splitOn '/').map String.ofList).filter fun c => c ≠ "" ∧ c ≠ ".")

def isComponent (name : String) : Bool :=
  name != "" && name != "." && name != ".." && !name.toList.contains '/' &&
    !name.toList.contains '\x00'

namespace Host

def set (h : Host) (path : Path) (item : HostItem) : Host :=
  fun q => if q = path then some item else h q

def makeDirectories (h : Host) (here : Path) : List String → Host × Option Path
  | [] => (h, some here)
  | c :: rest =>
    if c = ".." then makeDirectories h here.dropLast rest
    else match h (here ++ [c]) with
    | some (.file _) => (h, none)
    | some .directory => makeDirectories h (here ++ [c]) rest
    | none => makeDirectories (h.set (here ++ [c]) .directory) (here ++ [c]) rest

/-- The path of a file that can be written. -/
def locate (h : Host) (here : Path) : List String → Option Path
  | [] => none
  | c :: rest =>
    if c = ".." then locate h here.dropLast rest
    else if rest = [] then
      if h (here ++ [c]) = some .directory then none else some (here ++ [c])
    else if h (here ++ [c]) = some .directory then locate h (here ++ [c]) rest else none

def graft (h : Host) (path : Path) (t : Path → Option HostItem) : Host :=
  fun q => if path <+: q then t (q.drop path.length) else h q

variable {h : Host} {path : Path} {t : Path → Option HostItem}

theorem graft_below (q : Path) : h.graft path t (path ++ q) = t q := by
  rw [graft, if_pos (List.prefix_append path q), List.drop_left]

theorem graft_outside {q : Path} (hq : ¬ path <+: q) : h.graft path t q = h q := by
  rw [graft, if_neg hq]

end Host

theorem components_of_isComponent {name : String} (h : isComponent name = true) :
    components name = some [name] := by
  simp only [isComponent, Bool.and_eq_true, bne_iff_ne, ne_eq, Bool.not_eq_true',
    List.contains_eq_mem, decide_eq_false_iff_not] at h
  obtain ⟨⟨⟨⟨h0, h1⟩, _⟩, hslash⟩, hnul⟩ := h
  have hsplit : name.toList.splitOn '/' = [name.toList] := List.splitOnP_eq_singleton fun c hc =>
    beq_false_of_ne fun heq => hslash (heq ▸ hc)
  rw [components, if_neg hnul, hsplit]
  simp [h0, h1]

theorem ne_up_of_isComponent {name : String} (h : isComponent name = true) : name ≠ ".." := by
  rintro rfl
  exact absurd h (by decide)

end DukeX.Swift
