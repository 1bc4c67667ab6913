import DukeX.Nv2a.Surface

/-!
# What the surface cache keeps

Everything the renderer does to its surfaces is made of a few steps: programming registers, binding
and unbinding, downloading a surface, changing its flags, taking a clean one out of the list and
putting in a new one that overlaps none.
-/

namespace DukeX.Nv2a.Vk

open Function (update)

/-- The live surfaces are apart, the bound ones are among them, and those that have left were clean or
had no pixels. -/
structure ValidCache (surfaces invalid : List SurfaceBinding) (binding : Bool → Option Nat)
    (nextId : Nat) : Prop where
  apart : surfaces.Pairwise fun s t => checkSurfacesOverlap s t = false
  addresses : (surfaces.map SurfaceBinding.vramAddr).Nodup
  ids : (surfaces.map SurfaceBinding.id).Nodup
  fresh : ∀ s ∈ surfaces, s.id < nextId
  bound : ∀ color id, binding color = some id → ∃ s ∈ surfaces, s.id = id
  clean : ∀ s ∈ invalid, s.drawDirty = false ∨ s.width = 0 ∨ s.height = 0
  known : ∀ id < nextId, id ∈ surfaces.map SurfaceBinding.id ∨ id ∈ invalid.map SurfaceBinding.id

abbrev SurfaceState.Valid (st : SurfaceState) : Prop :=
  ValidCache st.surfaces st.invalidSurfaces st.binding st.nextId

theorem checkSurfacesOverlap_comm (s t : SurfaceBinding) :
    checkSurfacesOverlap s t = checkSurfacesOverlap t s := by
  simp [checkSurfacesOverlap, checkSurfaceOverlapsRange, Bool.or_comm]

variable {surfaces : List SurfaceBinding} {s : SurfaceBinding}

variable {t : SurfaceBinding} {st' : SurfaceState}

theorem eq_of_id
    (hids : (surfaces.map SurfaceBinding.id).Nodup) (hs : s ∈ surfaces)
    (ht : t ∈ surfaces) (h : s.id = t.id) : s = t :=
  List.inj_on_of_nodup_map hids hs ht h

theorem eq_of_address
    (haddresses : (surfaces.map SurfaceBinding.vramAddr).Nodup)
    (hs : s ∈ surfaces) (ht : t ∈ surfaces) (h : s.vramAddr = t.vramAddr) : s = t :=
  List.inj_on_of_nodup_map haddresses hs ht h

structure Keeps (f : SurfaceBinding → SurfaceBinding) : Prop where
  id (s : SurfaceBinding) : (f s).id = s.id
  vramAddr (s : SurfaceBinding) : (f s).vramAddr = s.vramAddr
  size (s : SurfaceBinding) : (f s).size = s.size
  width (s : SurfaceBinding) : (f s).width = s.width
  height (s : SurfaceBinding) : (f s).height = s.height

def Marks (f : SurfaceBinding → SurfaceBinding) : Prop :=
  ∀ s, ∃ frameTime downloadPending uploadPending,
    f s = { s with
      frameTime := frameTime
      downloadPending := downloadPending
      uploadPending := uploadPending }

def mapSurfaces (st : SurfaceState) (f : SurfaceBinding → SurfaceBinding) : SurfaceState :=
  { st with surfaces := st.surfaces.map f }

inductive CacheStep (quiet : Bool) : SurfaceState → SurfaceState → Prop where
  | program (st : SurfaceState) (regs : SurfaceRegs) :
    CacheStep quiet st { st with toSurfaceRegs := regs }
  | unbind (st : SurfaceState) (color : Bool) : CacheStep quiet st (unbindSurface st color)
  | bind (st : SurfaceState) (color : Bool) (s : SurfaceBinding) (hs : s ∈ st.surfaces) :
    CacheStep quiet st (st.setBinding color (some s.id))
  | download (st : SurfaceState) (s : SurfaceBinding) (force : Bool) (hs : s ∈ st.surfaces) :
    CacheStep quiet st (downloadSurface st s force)
  | mark (st : SurfaceState) (f : SurfaceBinding → SurfaceBinding) (hf : Marks f) :
    CacheStep quiet st (mapSurfaces st f)
  | alter (st : SurfaceState) (f : SurfaceBinding → SurfaceBinding) (transfers : List Transfer)
    (hf : Keeps f) (hquiet : quiet = false) :
    CacheStep quiet st { mapSurfaces st f with transfers := transfers }
  | remove (st : SurfaceState) (s : SurfaceBinding) (hs : s ∈ st.surfaces)
    (hclean : s.drawDirty = false ∨ s.width = 0 ∨ s.height = 0)
    (hunbound : ∀ color, st.binding color ≠ some s.id) :
    CacheStep quiet st (removeSurface st s.id)
  | put (st : SurfaceState) (s : SurfaceBinding) (hid : s.id = st.nextId)
    (haddress : ∀ t ∈ st.surfaces, t.vramAddr ≠ s.vramAddr)
    (hapart : ∀ t ∈ st.surfaces, checkSurfacesOverlap s t = false) (hclean : s.drawDirty = false) :
    CacheStep quiet st { st with surfaces := s :: st.surfaces, nextId := st.nextId + 1 }

abbrev CacheSteps (quiet : Bool) : SurfaceState → SurfaceState → Prop :=
  Relation.ReflTransGen (CacheStep quiet)

variable {f : SurfaceBinding → SurfaceBinding}

theorem Marks.keeps (hf : Marks f) : Keeps f := by
  constructor
  all_goals
    intro s
    obtain ⟨_, _, _, h⟩ := hf s
    rw [h]

/-! ## The invariant -/

theorem Keeps.overlap (hf : Keeps f) (s t : SurfaceBinding) :
    checkSurfacesOverlap (f s) (f t) = checkSurfacesOverlap s t := by
  rw [checkSurfacesOverlap, checkSurfacesOverlap, checkSurfaceOverlapsRange,
    checkSurfaceOverlapsRange, hf.vramAddr, hf.vramAddr, hf.size, hf.size]

variable {invalid : List SurfaceBinding} {binding : Bool → Option Nat} {nextId : Nat}

theorem ValidCache.map (h : ValidCache surfaces invalid binding nextId) (hf : Keeps f) :
    ValidCache (surfaces.map f) invalid binding nextId := by
  have hids : (surfaces.map f).map SurfaceBinding.id = surfaces.map SurfaceBinding.id := by
    rw [List.map_map]
    exact List.map_congr_left fun s _ => hf.id s
  have haddresses : (surfaces.map f).map SurfaceBinding.vramAddr =
      surfaces.map SurfaceBinding.vramAddr := by
    rw [List.map_map]
    exact List.map_congr_left fun s _ => hf.vramAddr s
  constructor
  · rw [List.pairwise_map]
    exact h.apart.imp fun hst => (hf.overlap _ _).trans hst
  · exact haddresses ▸ h.addresses
  · exact hids ▸ h.ids
  · intro t ht
    obtain ⟨s, hs, rfl⟩ := List.mem_map.mp ht
    exact hf.id s ▸ h.fresh s hs
  · intro color id hbinding
    obtain ⟨s, hs, hid⟩ := h.bound color id hbinding
    exact ⟨f s, List.mem_map_of_mem hs, (hf.id s).trans hid⟩
  · exact h.clean
  · exact hids ▸ h.known

theorem keeps_if (id : Nat) (hf : Keeps f) :
    Keeps fun s => if s.id = id then f s else s := by
  constructor
  all_goals
    intro s
    split
  · exact hf.id s
  · rfl
  · exact hf.vramAddr s
  · rfl
  · exact hf.size s
  · rfl
  · exact hf.width s
  · rfl
  · exact hf.height s
  · rfl

def downloaded (s : SurfaceBinding) : SurfaceBinding :=
  { s with downloadPending := false, drawDirty := false }

theorem keeps_downloaded : Keeps downloaded :=
  ⟨fun _ => rfl, fun _ => rfl, fun _ => rfl, fun _ => rfl, fun _ => rfl⟩

section

variable (h : ValidCache surfaces invalid binding nextId)

include h

theorem ValidCache.rebind (color : Bool) {new : Option Nat}
    (hnew : ∀ id, new = some id → ∃ s ∈ surfaces, s.id = id) :
    ValidCache surfaces invalid (update binding color new) nextId where
  apart := h.apart
  addresses := h.addresses
  ids := h.ids
  fresh := h.fresh
  bound c id hc := by
    by_cases heq : c = color
    · simp_all
    · rw [Function.update_of_ne heq] at hc
      exact h.bound c id hc
  clean := h.clean
  known := h.known

theorem ValidCache.remove (hs : s ∈ surfaces) (hclean : s.drawDirty = false ∨ s.width = 0 ∨ s.height = 0)
    (hunbound : ∀ color, binding color ≠ some s.id) :
    ValidCache (surfaces.filter fun t => t.id ≠ s.id)
      ((surfaces.filter fun t => t.id = s.id) ++ invalid) binding nextId where
  apart := h.apart.filter _
  addresses := h.addresses.sublist (List.filter_sublist.map _)
  ids := h.ids.sublist (List.filter_sublist.map _)
  fresh t ht := h.fresh t (List.mem_of_mem_filter ht)
  bound color id hc := by
    obtain ⟨t, ht, hid⟩ := h.bound color id hc
    grind
  clean t ht := by
    cases List.mem_append.mp ht with
    | inl ht =>
      obtain ⟨hmem, hid⟩ := List.mem_filter.mp ht
      rw [eq_of_id h.ids hmem hs (of_decide_eq_true hid)]
      exact hclean
    | inr ht => exact h.clean t ht
  known id hid := by
    rw [List.map_append, List.mem_append]
    cases h.known id hid with
    | inr hinvalid => exact .inr (.inr hinvalid)
    | inl hlive =>
      grind

theorem ValidCache.put (hid : s.id = nextId) (haddress : ∀ t ∈ surfaces, t.vramAddr ≠ s.vramAddr)
    (hapart : ∀ t ∈ surfaces, checkSurfacesOverlap s t = false) :
    ValidCache (s :: surfaces) invalid binding (nextId + 1) where
  apart := List.pairwise_cons.mpr ⟨hapart, h.apart⟩
  addresses := by
    rw [List.map_cons, List.nodup_cons]
    refine ⟨fun hmem => ?_, h.addresses⟩
    grind
  ids := by
    rw [List.map_cons, List.nodup_cons]
    refine ⟨fun hmem => ?_, h.ids⟩
    obtain ⟨t, ht, heq⟩ := List.mem_map.mp hmem
    have := h.fresh t ht
    omega
  fresh t ht := by
    cases List.mem_cons.mp ht with
    | inl heq =>
      subst heq
      omega
    | inr ht => exact (h.fresh t ht).trans (Nat.lt_succ_self _)
  bound color id hc := by
    obtain ⟨t, ht, heq⟩ := h.bound color id hc
    exact ⟨t, List.mem_cons_of_mem _ ht, heq⟩
  clean := h.clean
  known id hlt := by
    cases Nat.lt_succ_iff_lt_or_eq.mp hlt with
    | inl hlt =>
      cases h.known id hlt with
      | inl hlive => exact .inl (List.mem_cons_of_mem _ hlive)
      | inr hinvalid => exact .inr hinvalid
    | inr heq =>
      rw [heq, ← hid]
      exact .inl List.mem_cons_self

end

variable {st : SurfaceState}

theorem downloadSurface_valid (h : st.Valid) (s : SurfaceBinding) (force : Bool) :
    (downloadSurface st s force).Valid := by
  rw [downloadSurface]
  split
  · exact h
  · exact h.map (keeps_if s.id keeps_downloaded)

variable {quiet : Bool}

theorem CacheStep.valid (h : CacheStep quiet st st') (hvalid : st.Valid) : st'.Valid := by
  cases h with
  | program regs => exact hvalid
  | unbind color =>
    refine hvalid.rebind color fun id hid => ?_
    cases hid
  | bind color s hs =>
    refine hvalid.rebind color fun id hid => ?_
    cases hid
    exact ⟨s, hs, rfl⟩
  | download s force hs => exact downloadSurface_valid hvalid s force
  | mark f hf => exact hvalid.map hf.keeps
  | alter f transfers hf hquiet => exact hvalid.map hf
  | remove s hs hclean hunbound => exact hvalid.remove hs hclean hunbound
  | put s hid haddress hapart hclean => exact hvalid.put hid haddress hapart

theorem CacheSteps.valid (h : CacheSteps quiet st st') (hvalid : st.Valid) : st'.Valid := by
  induction h with
  | refl => exact hvalid
  | tail _ hstep ih => exact hstep.valid ih

/-! ## Evictions -/

/-- Nothing keeps the surface from being invalidated. -/
def Free (st : SurfaceState) (s : SurfaceBinding) : Prop :=
  ∀ color, st.binding color = some s.id → (st.surface color).bufferDirty = true

instance (st : SurfaceState) (s : SurfaceBinding) : Decidable (Free st s) :=
  inferInstanceAs (Decidable (∀ _ : Bool, _))

def unboundFrom (binding : Bool → Option Nat) (id : Nat) (color : Bool) : Option Nat :=
  if binding color = some id then none else binding color

def evicted (st : SurfaceState) (s : SurfaceBinding) : SurfaceState :=
  removeSurface { surfaceDownloadIfDirty st s with binding := unboundFrom st.binding s.id } s.id

theorem surfaceDownloadIfDirty_fields (st : SurfaceState) (s : SurfaceBinding) :
    (surfaceDownloadIfDirty st s).binding = st.binding ∧
      (surfaceDownloadIfDirty st s).toSurfaceRegs = st.toSurfaceRegs ∧
      (surfaceDownloadIfDirty st s).nextId = st.nextId ∧
      (surfaceDownloadIfDirty st s).surfaces.filter (fun t => t.id ≠ s.id) =
        st.surfaces.filter (fun t => t.id ≠ s.id) := by
  rw [surfaceDownloadIfDirty]
  split
  case isFalse => exact ⟨rfl, rfl, rfl, rfl⟩
  case isTrue =>
  rw [downloadSurface]
  split
  case isTrue => exact ⟨rfl, rfl, rfl, rfl⟩
  case isFalse =>
  refine ⟨rfl, rfl, rfl, ?_⟩
  change ((st.surfaces.map fun t => if t.id = s.id then downloaded t else t).filter _) = _
  rw [List.filter_map]
  have hcomp : ((fun t : SurfaceBinding => decide (t.id ≠ s.id)) ∘
      fun t => if t.id = s.id then downloaded t else t) = fun t => decide (t.id ≠ s.id) := by
    funext t
    dsimp only [Function.comp]
    split
    · rfl
    · rfl
  rw [hcomp]
  have hid : ∀ t ∈ st.surfaces.filter (fun t => t.id ≠ s.id),
      (if t.id = s.id then downloaded t else t) = id t := by
    simp_all
  rw [List.map_congr_left hid, List.map_id]

variable {color : Bool}

theorem unbindIf_error
    (hbound : st.binding color = some s.id) (hdirty : (st.surface color).bufferDirty = false) :
    unbindIf st s color = .error .boundInvalidated := by
  rw [unbindIf, if_pos hbound, hdirty, if_neg Bool.false_ne_true]

theorem unbindIf_ok
    (h : st.binding color = some s.id → (st.surface color).bufferDirty = true) :
    unbindIf st s color = .ok { st with
      binding := update st.binding color (unboundFrom st.binding s.id color) } := by
  rw [unbindIf]
  by_cases hbound : st.binding color = some s.id
  · rw [if_pos hbound, unboundFrom, if_pos hbound, if_pos (h hbound)]
    rfl
  · rw [if_neg hbound, unboundFrom, if_neg hbound, Function.update_eq_self]

theorem evictSurface_ok (h : Free st s) :
    evictSurface st s = .ok (evicted st s) := by
  obtain ⟨hbinding, hregs, _, _⟩ := surfaceDownloadIfDirty_fields st s
  have hsurface :=
    congrArg SurfaceRegs.surface hregs
  rw [evictSurface, invalidateSurface, unbindIf_ok (by rw [hbinding, hsurface]; exact h true)]
  change (unbindIf _ s false >>= fun st => .ok (removeSurface st s.id)) = _
  rw [unbindIf_ok (by rw [hbinding, hsurface]; exact h false), evicted, ← hbinding]
  generalize surfaceDownloadIfDirty st s = st1
  have hboth : update (update st1.binding true (unboundFrom st1.binding s.id true))
      false (unboundFrom st1.binding s.id false) = unboundFrom st1.binding s.id := by
    grind
  rw [← hboth]
  rfl

theorem evictSurface_error (h : ¬ Free st s) :
    evictSurface st s = .error .boundInvalidated := by
  obtain ⟨hbinding, hregs, _, _⟩ := surfaceDownloadIfDirty_fields st s
  have hsurface :=
    congrArg SurfaceRegs.surface hregs
  rw [evictSurface, invalidateSurface]
  by_cases hcolor : st.binding true = some s.id → (st.surface true).bufferDirty = true
  · rw [unbindIf_ok (by rw [hbinding, hsurface]; exact hcolor)]
    change (unbindIf _ s false >>= fun st => .ok (removeSurface st s.id)) = _
    by_cases hzeta : st.binding false = some s.id → (st.surface false).bufferDirty = true
    · exact absurd (Bool.forall_bool.mpr ⟨hzeta, hcolor⟩) h
    · obtain ⟨hbound, hdirty⟩ := Classical.not_imp.mp hzeta
      rw [unbindIf_error]
      · rfl
      · exact hbinding ▸ hbound
      · exact hsurface ▸ Bool.eq_false_of_not_eq_true hdirty
  · obtain ⟨hbound, hdirty⟩ := Classical.not_imp.mp hcolor
    rw [unbindIf_error (hbinding ▸ hbound) (hsurface ▸ Bool.eq_false_of_not_eq_true hdirty)]
    rfl

section

variable (st : SurfaceState) (s : SurfaceBinding)

@[simp] theorem evicted_surfaces :
    (evicted st s).surfaces = st.surfaces.filter fun t => t.id ≠ s.id :=
  (surfaceDownloadIfDirty_fields st s).2.2.2

@[simp] theorem evicted_binding : (evicted st s).binding = unboundFrom st.binding s.id := rfl

@[simp] theorem evicted_regs : (evicted st s).toSurfaceRegs = st.toSurfaceRegs :=
  (surfaceDownloadIfDirty_fields st s).2.1

@[simp] theorem evicted_nextId : (evicted st s).nextId = st.nextId :=
  (surfaceDownloadIfDirty_fields st s).2.2.1

end

theorem unboundFrom_steps (quiet : Bool) (st : SurfaceState) (id : Nat) :
    CacheSteps quiet st { st with binding := unboundFrom st.binding id } := by
  have hside (color : Bool) (st : SurfaceState) : CacheSteps quiet st
      { st with binding := update st.binding color (unboundFrom st.binding id color) } := by
    rw [unboundFrom]
    split
    · exact .single (.unbind st color)
    · rw [Function.update_eq_self]
  have hboth := (hside true st).trans (hside false _)
  have heq : unboundFrom st.binding id = update (update st.binding true
      (unboundFrom st.binding id true)) false (unboundFrom (update st.binding true
      (unboundFrom st.binding id true)) id false) := by
    funext color
    cases color with
    | true | false => rfl
  rw [heq]
  exact hboth

variable {st : SurfaceState} {s : SurfaceBinding}

theorem surfaceDownloadIfDirty_clean (hs : s ∈ st.surfaces) :
    ∃ t ∈ (surfaceDownloadIfDirty st s).surfaces, t.id = s.id ∧
      (t.drawDirty = false ∨ t.width = 0 ∨ t.height = 0) := by
  rw [surfaceDownloadIfDirty]
  split
  case isFalse hdirty => exact ⟨s, hs, rfl, .inl (Bool.eq_false_of_not_eq_true hdirty)⟩
  case isTrue =>
  rw [downloadSurface]
  split
  case isTrue hempty =>
    refine ⟨s, hs, rfl, .inr ?_⟩
    simpa using hempty
  case isFalse =>
    refine ⟨downloaded s, ?_, rfl, .inl rfl⟩
    have hmem := List.mem_map_of_mem (f := fun t => if t.id = s.id then downloaded t else t) hs
    rwa [if_pos rfl] at hmem

theorem evicted_steps (quiet : Bool) (hs : s ∈ st.surfaces) :
    CacheSteps quiet st (evicted st s) := by
  obtain ⟨t, ht, hid, hclean⟩ := surfaceDownloadIfDirty_clean hs
  have hdownload : CacheSteps quiet st (surfaceDownloadIfDirty st s) := by
    rw [surfaceDownloadIfDirty]
    split
    · exact .single (.download st s true hs)
    · exact .refl
  have hbinding := (surfaceDownloadIfDirty_fields st s).1
  refine (hdownload.trans (unboundFrom_steps quiet _ s.id)).tail ?_
  rw [evicted, ← hbinding, ← hid]
  refine .remove _ t ht hclean fun color hbound => ?_
  rw [hid] at hbound
  change unboundFrom _ s.id color = some s.id at hbound
  by_cases hb : (surfaceDownloadIfDirty st s).binding color = some s.id
  · rw [unboundFrom, if_pos hb] at hbound
    cases hbound
  · rw [unboundFrom, if_neg hb] at hbound
    exact hb hbound

/-! ## Evicting the surfaces of a kind -/

def evictIf (p : SurfaceBinding → Bool) (st : SurfaceState) (s : SurfaceBinding) : SurfaceState :=
  if p s then evicted st s else st

def evictedWhere (p : SurfaceBinding → Bool) (st : SurfaceState) : SurfaceState :=
  st.surfaces.foldl (evictIf p) st

section

variable (p : SurfaceBinding → Bool)

theorem evictIf_free (st : SurfaceState) {s t : SurfaceBinding} (hne : t.id ≠ s.id) :
    Free (evictIf p st s) t ↔ Free st t := by
  rw [evictIf]
  split
  case isFalse => exact Iff.rfl
  case isTrue =>
  apply forall_congr'
  intro color
  rw [evicted_binding, evicted_regs, unboundFrom]
  split
  case isFalse => exact Iff.rfl
  case isTrue hbound =>
    grind

variable {l : List SurfaceBinding} {st : SurfaceState}

theorem evict_step (h : p s = true → Free st s) :
    (if p s then evictSurface st s else .ok st) = .ok (evictIf p st s) := by
  rw [evictIf]
  split
  case isTrue hp => exact evictSurface_ok (h hp)
  case isFalse => rfl

theorem foldlM_evict_ok (hids : (l.map SurfaceBinding.id).Nodup) (h : ∀ s ∈ l, p s = true → Free st s) :
    l.foldlM (fun st s => if p s then evictSurface st s else .ok st) st =
      .ok (l.foldl (evictIf p) st) := by
  induction l generalizing st with
  | nil => rfl
  | cons s l ih =>
    obtain ⟨hs, hl⟩ := List.forall_mem_cons.mp h
    obtain ⟨hnew, hids⟩ := List.nodup_cons.mp hids
    rw [List.foldlM_cons, evict_step p hs, List.foldl_cons]
    refine ih hids fun t ht hp => (evictIf_free p st fun heq => ?_).mpr (hl t ht hp)
    exact hnew (heq ▸ List.mem_map_of_mem ht)

theorem foldlM_evict_error (hids : (l.map SurfaceBinding.id).Nodup) (h : ¬ ∀ s ∈ l, p s = true → Free st s) :
    l.foldlM (fun st s => if p s then evictSurface st s else .ok st) st =
      .error .boundInvalidated := by
  induction l generalizing st with
  | nil => exact absurd (fun s hs => absurd hs List.not_mem_nil) h
  | cons s l ih =>
    obtain ⟨hnew, hids⟩ := List.nodup_cons.mp hids
    rw [List.foldlM_cons]
    by_cases hs : p s = true → Free st s
    · rw [evict_step p hs]
      refine ih hids fun hall => h (List.forall_mem_cons.mpr ⟨hs, fun t ht hp => ?_⟩)
      refine (evictIf_free p st fun heq => ?_).mp (hall t ht hp)
      exact hnew (heq ▸ List.mem_map_of_mem ht)
    · obtain ⟨hp, hbound⟩ := Classical.not_imp.mp hs
      rw [if_pos hp, evictSurface_error hbound]
      rfl

theorem evictWhere_ok (hvalid : st.Valid)
    (h : ∀ s ∈ st.surfaces, p s = true → Free st s) : evictWhere p st = .ok (evictedWhere p st) :=
  foldlM_evict_ok p hvalid.ids h

theorem evictWhere_error (hvalid : st.Valid)
    (h : ¬ ∀ s ∈ st.surfaces, p s = true → Free st s) :
    evictWhere p st = .error .boundInvalidated :=
  foldlM_evict_error p hvalid.ids h

structure Rest (l : List SurfaceBinding) (st st' : SurfaceState) : Prop where
  surfaces : st'.surfaces = st.surfaces.filter fun t => !(l.any fun s => p s && s.id = t.id)
  regs : st'.toSurfaceRegs = st.toSurfaceRegs
  nextId : st'.nextId = st.nextId
  binding : ∀ color, st'.binding color =
    if ∃ s ∈ l, p s = true ∧ st.binding color = some s.id then none else st.binding color

theorem foldl_evictIf_rest (l : List SurfaceBinding) (st : SurfaceState) :
    Rest p l st (l.foldl (evictIf p) st) := by
  induction l generalizing st with
  | nil =>
    refine ⟨?_, rfl, rfl, fun color => ?_⟩
    · exact (List.filter_eq_self.mpr fun t _ => rfl).symm
    · simp_all
  | cons s l ih =>
    obtain ⟨hsurfaces, hregs, hnext, hbinding⟩ := ih (evictIf p st s)
    rw [List.foldl_cons]
    cases hp : p s with
    | false =>
      have hkeep : evictIf p st s = st := by rw [evictIf, hp]; rfl
      rw [hkeep] at hsurfaces hregs hnext hbinding ⊢
      refine ⟨?_, hregs, hnext, fun color => ?_⟩
      · simp_all
      · rw [hbinding color]
        congr 1
        simp_all
    | true =>
      have hgone : evictIf p st s = evicted st s := by rw [evictIf, hp]; rfl
      rw [hgone] at hsurfaces hregs hnext hbinding ⊢
      refine ⟨?_, hregs.trans (evicted_regs st s), hnext.trans (evicted_nextId st s), fun color => ?_⟩
      · simp [Bool.and_comm, ne_comm, hsurfaces, hp]
      · rw [hbinding color, evicted_binding, unboundFrom]
        by_cases hb : st.binding color = some s.id
        · rw [if_pos hb, ite_self, if_pos ⟨s, List.mem_cons_self, hp, hb⟩]
        · rw [if_neg hb]
          congr 1
          rw [eq_iff_iff]
          constructor
          · intro ⟨t, ht, h⟩
            exact ⟨t, List.mem_cons_of_mem _ ht, h⟩
          · intro ⟨t, ht, hpt, h⟩
            cases List.mem_cons.mp ht with
            | inl heq => exact absurd (heq ▸ h) hb
            | inr ht => exact ⟨t, ht, hpt, h⟩

theorem evictedWhere_surfaces (hvalid : st.Valid) :
    (evictedWhere p st).surfaces = st.surfaces.filter fun t => !p t := by
  rw [evictedWhere, (foldl_evictIf_rest p st.surfaces st).surfaces]
  apply List.filter_congr
  intro t ht
  congr 1
  rw [Bool.eq_iff_iff, List.any_eq_true]
  constructor
  · intro ⟨s, hs, h⟩
    obtain ⟨hp, hid⟩ := (Bool.and_eq_true _ _).mp h
    rwa [← eq_of_id hvalid.ids hs ht (of_decide_eq_true hid)]
  · grind

theorem evictedWhere_binding (st : SurfaceState) (color : Bool) :
    (evictedWhere p st).binding color =
      if ∃ s ∈ st.surfaces, p s = true ∧ st.binding color = some s.id then none
      else st.binding color :=
  (foldl_evictIf_rest p st.surfaces st).binding color

theorem evictedWhere_nextId (st : SurfaceState) : (evictedWhere p st).nextId = st.nextId :=
  (foldl_evictIf_rest p st.surfaces st).nextId

theorem foldl_evictIf_steps (quiet : Bool)
    (hids : (l.map SurfaceBinding.id).Nodup) (h : ∀ s ∈ l, s ∈ st.surfaces) :
    CacheSteps quiet st (l.foldl (evictIf p) st) := by
  induction l generalizing st with
  | nil => exact .refl
  | cons s l ih =>
    obtain ⟨hs, hl⟩ := List.forall_mem_cons.mp h
    obtain ⟨hnew, hids⟩ := List.nodup_cons.mp hids
    have hstep : CacheSteps quiet st (evictIf p st s) := by
      rw [evictIf]
      split
      · exact evicted_steps quiet hs
      · exact .refl
    refine hstep.trans (ih hids fun t ht => ?_)
    rw [evictIf]
    split
    · rw [evicted_surfaces]
      refine List.mem_filter.mpr ⟨hl t ht, decide_eq_true fun heq => ?_⟩
      exact hnew (heq ▸ List.mem_map_of_mem ht)
    · exact hl t ht

theorem evictedWhere_steps (quiet : Bool) (hvalid : st.Valid) :
    CacheSteps quiet st (evictedWhere p st) :=
  foldl_evictIf_steps p quiet hvalid.ids fun _ hs => hs

theorem evictWhere_steps (quiet : Bool) (hvalid : st.Valid)
    (h : evictWhere p st = .ok st') : CacheSteps quiet st st' := by
  by_cases hfree : ∀ s ∈ st.surfaces, p s = true → Free st s
  · rw [evictWhere_ok p hvalid hfree] at h
    cases h
    exact evictedWhere_steps p quiet hvalid
  · rw [evictWhere_error p hvalid hfree] at h
    cases h

end

end DukeX.Nv2a.Vk
