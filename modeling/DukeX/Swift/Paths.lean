import DukeX.Swift.FileManager

/-!
# Where a name leads

A name appended to a path is followed component by component.
-/

namespace DukeX.Swift

/-! ## Places -/

def trail : Path → List String → List Path
  | _, [] => []
  | here, c :: rest =>
    if c = ".." then trail here.dropLast rest else (here ++ [c]) :: trail (here ++ [c]) rest

def resolve : Path → List String → Path
  | here, [] => here
  | here, c :: rest => if c = ".." then resolve here.dropLast rest else resolve (here ++ [c]) rest

def fileTrail : Path → List String → Option (List Path × Path)
  | _, [] => none
  | here, c :: rest =>
    if c = ".." then fileTrail here.dropLast rest
    else if rest = [] then some ([], here ++ [c])
    else (fileTrail (here ++ [c]) rest).map fun p => ((here ++ [c]) :: p.1, p.2)

def Inside (dest q : Path) : Prop := dest <+: q ∧ q ≠ dest

def InLine (dest q : Path) : Prop := q <+: dest ∨ dest <+: q

variable {dest here q q' : Path} {c : String}

theorem InLine.above (h : InLine dest q) (hq : q' <+: q) : InLine dest q' := by
  cases h with
  | inl h => exact .inl (hq.trans h)
  | inr h => exact List.prefix_or_prefix_of_prefix hq h

theorem InLine.dropLast (h : InLine dest q) : InLine dest q.dropLast :=
  h.above ( List.dropLast_prefix q)

theorem InLine.inside_of_not_above (h : InLine dest q) (hq : ¬ q <+: dest) : Inside dest q := by
  refine ⟨h.resolve_left hq, ?_⟩
  rintro rfl
  exact hq (List.prefix_refl q)

theorem not_inside_of_above (h : q <+: dest) : ¬ Inside dest q :=
  fun hi => hi.2 (List.IsPrefix.eq_of_length_le h hi.1.length_le)

variable {ds : List Path} {item : HostItem}

theorem mem_or_above_of_fileTrail {cs : List String} {f d : Path}
    (h : fileTrail here cs = some (ds, f)) (hd : d ∈ ds) (hq : q <+: d) :
    q ∈ ds ∨ q <+: here := by
  induction cs generalizing here ds with
  | nil => cases h
  | cons c rest ih =>
    unfold fileTrail at h
    by_cases hup : c = ".."
    · rw [if_pos hup] at h
      exact (ih h hd).imp id fun hp => hp.trans ( List.dropLast_prefix here)
    · rw [if_neg hup] at h
      by_cases hlast : rest = []
      · rw [if_pos hlast] at h
        cases h
        cases hd
      · rw [if_neg hlast] at h
        obtain ⟨⟨ds', f'⟩, hrest, heq⟩ := Option.map_eq_some_iff.mp h
        cases heq
        -- a place above the first one is that place itself or above the start
        have habove : q <+: here ++ [c] → q ∈ (here ++ [c]) :: ds' ∨ q <+: here := by
          intro hp
          cases List.prefix_concat_iff.mp hp with
          | inl heq => exact .inl (by simp [heq])
          | inr hp => exact .inr hp
        grind

/-! ## What the calls change -/

def Rooted (dest : Path) (h : Host) : Prop := ∀ q, q <+: dest → h q = some .directory

def Untouched (dest : Path) (h h' : Host) : Prop := ∀ q, ¬ Inside dest q → h' q = h q

theorem Untouched.refl (dest : Path) (h : Host) : Untouched dest h h := fun _ _ => rfl

theorem Untouched.trans {h h' h'' : Host} (h1 : Untouched dest h h') (h2 : Untouched dest h' h'') :
    Untouched dest h h'' := fun q hq => (h2 q hq).trans (h1 q hq)

theorem Untouched.rooted {h h' : Host} (hu : Untouched dest h h') (hr : Rooted dest h) :
    Rooted dest h' := fun q hq => (hu q (not_inside_of_above hq)).trans (hr q hq)

theorem untouched_set {h : Host} (hq : Inside dest q) : Untouched dest h (h.set q item) := by
  intro p hp
  rw [Host.set, if_neg]
  rintro rfl
  exact hp hq

namespace Host

variable {h : Host} {cs : List String}

theorem makeDirectories_untouched (hr : Rooted dest h)
    (hcs : ∀ p ∈ trail here cs, InLine dest p) :
    Untouched dest h (h.makeDirectories here cs).1 := by
  induction cs generalizing h here with
  | nil => exact .refl dest h
  | cons c rest ih =>
    unfold makeDirectories
    unfold trail at hcs
    by_cases hup : c = ".."
    · rw [if_pos hup] at hcs ⊢
      exact ih hr hcs
    · rw [if_neg hup] at hcs ⊢
      have hrest := fun p hp => hcs p (List.mem_cons_of_mem (here ++ [c]) hp)
      cases hitem : h (here ++ [c]) with
      | none =>
        -- a place that is missing is not one of those above the destination
        have hinside : Inside dest (here ++ [c]) :=
          (hcs _ List.mem_cons_self).inside_of_not_above fun hp => by
            rw [hr _ hp] at hitem
            cases hitem
        have hset : Untouched dest h (h.set (here ++ [c]) .directory) := untouched_set hinside
        exact hset.trans (ih (hset.rooted hr) hrest)
      | some item =>
        cases item with
        | directory => exact ih hr hrest
        | file data => exact .refl dest h

theorem makeDirectories_path {path : Path} (hpath : (h.makeDirectories here cs).2 = some path) :
    path = resolve here cs := by
  induction cs generalizing h here with
  | nil => exact (Option.some.inj hpath).symm
  | cons c rest ih =>
    unfold makeDirectories at hpath
    unfold resolve
    by_cases hup : c = ".."
    · rw [if_pos hup] at hpath ⊢
      exact ih hpath
    · rw [if_neg hup] at hpath ⊢
      grind

theorem makeDirectories_keeps (hq : h q = some item) :
    (h.makeDirectories here cs).1 q = some item := by
  induction cs generalizing h here with
  | nil => exact hq
  | cons c rest ih =>
    unfold makeDirectories
    by_cases hup : c = ".."
    · rw [if_pos hup]
      exact ih hq
    · rw [if_neg hup]
      cases hitem : h (here ++ [c]) with
      | none =>
        refine ih ?_
        rw [Host.set, if_neg]
        · exact hq
        · rintro rfl
          rw [hitem] at hq
          cases hq
      | some found =>
        cases found with
        | directory => exact ih hq
        | file data => exact hq

theorem locate_eq_some {path : Path} : h.locate here cs = some path ↔
    ∃ ds, fileTrail here cs = some (ds, path) ∧ (∀ d ∈ ds, h d = some .directory) ∧
      h path ≠ some .directory := by
  induction cs generalizing here with
  | nil => simp [locate, fileTrail]
  | cons c rest ih =>
    unfold locate fileTrail
    by_cases hup : c = ".."
    · rw [if_pos hup, if_pos hup]
      exact ih
    · rw [if_neg hup, if_neg hup]
      by_cases hlast : rest = []
      · rw [if_pos hlast, if_pos hlast]
        by_cases hdir : h (here ++ [c]) = some .directory
        · grind
        · rw [if_neg hdir]
          constructor
          · intro heq
            simp_all
          · simp_all
      · rw [if_neg hlast, if_neg hlast]
        by_cases hdir : h (here ++ [c]) = some .directory
        · rw [if_pos hdir, ih]
          constructor
          · rintro ⟨ds, heq, hds, hne⟩
            exact ⟨(here ++ [c]) :: ds, by rw [heq]; rfl, by simpa using ⟨hdir, hds⟩, hne⟩
          · rintro ⟨ds, heq, hds, hne⟩
            obtain ⟨⟨ds', f⟩, hrest, heq⟩ := Option.map_eq_some_iff.mp heq
            cases heq
            exact ⟨ds', hrest, fun d hd => hds d (List.mem_cons_of_mem _ hd), hne⟩
        · simp_all

def allBut (q : Path) : Host := fun p => if q <+: p then none else some .directory

theorem allBut_rooted (hq : ¬ InLine dest q) : Rooted dest (allBut q) := by
  intro p hp
  exact if_neg fun hqp => hq (.inl (hqp.trans hp))

theorem allBut_of_inLine {p : Path} (hq : ¬ InLine dest q) (hp : InLine dest p) :
    allBut q p = some .directory :=
  if_neg fun hqp => hq (hp.above hqp)

theorem allBut_self (q : Path) : allBut q q = none := if_pos (List.prefix_refl q)

theorem exists_made_of_trail (hhere : InLine dest here)
    (hcs : ¬ ∀ p ∈ trail here cs, InLine dest p) :
    ∃ q, ¬ InLine dest q ∧ ((allBut q).makeDirectories here cs).1 q = some .directory := by
  induction cs generalizing here with
  | nil => exact absurd (fun p hp => nomatch hp) hcs
  | cons c rest ih =>
    unfold trail at hcs
    by_cases hup : c = ".."
    · rw [if_pos hup] at hcs
      obtain ⟨q, hq, hmade⟩ := ih hhere.dropLast hcs
      refine ⟨q, hq, ?_⟩
      unfold makeDirectories
      rwa [if_pos hup]
    · rw [if_neg hup] at hcs
      by_cases hline : InLine dest (here ++ [c])
      · obtain ⟨q, hq, hmade⟩ := ih hline fun hall => hcs fun p hp => by
          cases List.mem_cons.mp hp with
          | inl heq => exact heq ▸ hline
          | inr hmem => exact hall p hmem
        refine ⟨q, hq, ?_⟩
        unfold makeDirectories
        rw [if_neg hup, allBut_of_inLine hq hline]
        exact hmade
      · refine ⟨here ++ [c], hline, ?_⟩
        simp [makeDirectories, allBut_self, makeDirectories_keeps, Host.set, hup]

theorem locate_allBut {f : Path} (hhere : InLine dest here)
    (htrail : fileTrail here cs = some (ds, f)) (hf : f ∉ ds) (hline : ¬ InLine dest f) :
    (allBut f).locate here cs = some f := by
  refine locate_eq_some.mpr ⟨ds, htrail, fun d hd => if_neg fun hfd => ?_, by simp [allBut_self]⟩
  cases mem_or_above_of_fileTrail htrail hd hfd with
  | inl hmem => exact hf hmem
  | inr hp => exact hline (hhere.above hp)

end Host

end DukeX.Swift
