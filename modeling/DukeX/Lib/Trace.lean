import Mathlib

/-!
# Runs of a machine that may stop

A machine takes one input at a time and may refuse it; a run over a list of inputs is the fold, and
goes as far as no input is refused.
-/

namespace DukeX.Lib

section Trace

variable {σ ι : Type} (step : σ → ι → Option σ) {P : σ → ι → Prop} {I : σ → Prop}

def Throughout (P : σ → ι → Prop) : List ι → σ → Prop
  | [], _ => True
  | i :: is, s => ∀ s', step s i = some s' → P s i ∧ Throughout P is s'

variable {step}

variable {is : List ι} {s t : σ}

theorem run_cons {i : ι} :
    (i :: is).foldlM step s = some t ↔ ∃ s', step s i = some s' ∧ is.foldlM step s' = some t := by
  rw [List.foldlM_cons]
  exact Option.bind_eq_some_iff

theorem run_append {is js : List ι} :
    (is ++ js).foldlM step s = some t ↔
      ∃ s', is.foldlM step s = some s' ∧ js.foldlM step s' = some t := by
  rw [List.foldlM_append]
  exact Option.bind_eq_some_iff

/-- **The invariant rule**: what every step that meets the condition keeps, every run of such steps
keeps. -/
theorem Throughout.invariant (h : Throughout step P is s)
    (hstep : ∀ s i s', I s → P s i → step s i = some s' → I s') (hs : I s)
    (hrun : is.foldlM step s = some t) : I t := by
  induction is generalizing s with
  | nil => exact Option.some.inj hrun ▸ hs
  | cons i is ih =>
    obtain ⟨s', hs', hrun⟩ := run_cons.mp hrun
    obtain ⟨hP, hrest⟩ := h s' hs'
    exact ih hrest (hstep s i s' hs hP hs') hrun

theorem throughout_of_forall (h : ∀ s i s', step s i = some s' → P s i) :
    Throughout step P is s := by
  induction is generalizing s with
  | nil => exact trivial
  | cons i is ih => exact fun s' hs' => ⟨h s i s' hs', ih⟩

theorem Throughout.left {is more : List ι} (h : Throughout step P (is ++ more) s) :
    Throughout step P is s := by
  induction is generalizing s with
  | nil => exact trivial
  | cons i is ih => exact fun s' hs' => ⟨(h s' hs').1, ih (h s' hs').2⟩

theorem throughout_iff (hstep : ∀ s i s', I s → step s i = some s' → (I s' ↔ P s i)) (hs : I s) :
    (∀ js u, js <+: is → js.foldlM step s = some u → I u) ↔ Throughout step P is s := by
  constructor
  · intro h
    induction is generalizing s with
    | nil => exact trivial
    | cons i is ih =>
      intro s' hs'
      have hI : I s' := h [i] s' ⟨is, rfl⟩ (run_cons.mpr ⟨s', hs', rfl⟩)
      refine ⟨(hstep s i s' hs hs').mp hI, ih hI fun js u hjs hrun => ?_⟩
      exact h (i :: js) u (List.cons_prefix_cons.mpr ⟨rfl, hjs⟩) (run_cons.mpr ⟨s', hs', hrun⟩)
  · intro h js u hjs hrun
    induction js generalizing is s with
    | nil => exact Option.some.inj hrun ▸ hs
    | cons j js ih =>
      cases is with
      | nil => exact absurd (List.prefix_nil.mp hjs) (List.cons_ne_nil j js)
      | cons i is =>
        obtain ⟨rfl, htail⟩ := List.cons_prefix_cons.mp hjs
        obtain ⟨s', hs', hrun⟩ := run_cons.mp hrun
        obtain ⟨hP, hrest⟩ := h s' hs'
        exact ih ((hstep s j s' hs hs').mpr hP) hrest htail hrun

theorem throughout_iff_before {Q : σ → ι → Prop}
    (hstep : ∀ s i s', I s → P s i → step s i = some s' → I s')
    (hQ : ∀ s i s', I s → step s i = some s' → (Q s i ↔ P s i))
    (hnone : ∀ s i, step s i = none → Q s i) (hs : I s) :
    (∀ js i u, js ++ [i] <+: is → js.foldlM step s = some u → Q u i) ↔ Throughout step P is s := by
  constructor
  · intro h
    induction is generalizing s with
    | nil => exact trivial
    | cons i is ih =>
      intro s' hs'
      have hP : P s i := (hQ s i s' hs hs').mp (h [] i s ⟨is, rfl⟩ rfl)
      refine ⟨hP, ih (hstep s i s' hs hP hs') fun js j u hjs hrun => ?_⟩
      exact h (i :: js) j u (List.cons_prefix_cons.mpr ⟨rfl, hjs⟩) (run_cons.mpr ⟨s', hs', hrun⟩)
  · intro h js i u hjs hrun
    have hrest : Throughout step P (js ++ [i]) s := by
      obtain ⟨more, rfl⟩ := hjs
      exact h.left
    clear h hjs
    induction js generalizing s with
    | nil =>
      have hu : s = u := Option.some.inj hrun
      subst hu
      cases hi : step s i with
      | none => exact hnone s i hi
      | some s' => exact (hQ s i s' hs hi).mpr (hrest s' hi).1
    | cons j js ih =>
      obtain ⟨s', hs', hrun⟩ := run_cons.mp hrun
      obtain ⟨hP, hrest⟩ := hrest s' hs'
      exact ih (hstep s j s' hs hP hs') hrun hrest

end Trace

instance decidableThroughout {σ ι : Type} (step : σ → ι → Option σ) (P : σ → ι → Prop)
    [∀ s i, Decidable (P s i)] : ∀ (is : List ι) (s : σ), Decidable (Throughout step P is s)
  | [], _ => .isTrue trivial
  | i :: is, s =>
    match h : step s i with
    | none => .isTrue fun _ hs' => absurd (h.symm.trans hs') nofun
    | some s' =>
      have := decidableThroughout step P is s'
      decidable_of_iff (P s i ∧ Throughout step P is s')
        ⟨fun hp _ ht => Option.some.inj (h.symm.trans ht) ▸ hp, fun hall => hall s' h⟩

end DukeX.Lib
