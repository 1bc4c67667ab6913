import DukeX.Nv2a.SurfaceCache

/-!
# Runs of the surface cache

The functions of the renderer take no other steps than those of the cache, so its invariant holds in
every run.
-/

namespace DukeX.Nv2a.Vk

/-! ## The functions of the renderer -/

section

variable {quiet : Bool} {st st' : SurfaceState}

theorem onSurface_steps (st : SurfaceState) (id : Nat) {f : SurfaceBinding → SurfaceBinding}
    (hf : Marks f) : CacheSteps quiet st (st.onSurface id f) := by
  refine .single (.mark st _ fun s => ?_)
  split
  · exact hf s
  · exact ⟨s.frameTime, s.downloadPending, s.uploadPending, rfl⟩

theorem setSurface_steps (st : SurfaceState) (color : Bool) (f : Surface → Surface) :
    CacheSteps quiet st (st.setSurface color f) :=
  .single (.program st _)

variable {s : SurfaceBinding}

theorem bindSurface_steps (color : Bool) (hs : s ∈ st.surfaces) :
    CacheSteps quiet st (bindSurface st color s.id) :=
  .trans (.single (.bind st color s hs)) (setSurface_steps _ color _)

theorem reuseSurface_steps (color memDirty : Bool) (hs : s ∈ st.surfaces) :
    CacheSteps quiet st (reuseSurface st color memDirty s) := by
  have hmark : Marks fun s : SurfaceBinding =>
      { s with uploadPending := s.uploadPending || memDirty } :=
    fun s => ⟨s.frameTime, s.downloadPending, s.uploadPending || memDirty, rfl⟩
  have hmem := List.mem_map_of_mem (f := fun t : SurfaceBinding => if t.id = s.id then
    { t with uploadPending := t.uploadPending || memDirty } else t) hs
  rw [if_pos rfl] at hmem
  refine .trans ?_ (bindSurface_steps color
    (s := { s with uploadPending := s.uploadPending || memDirty }) hmem)
  exact (onSurface_steps st s.id hmark).trans (setSurface_steps _ false _)

theorem surfaceGet_eq_none {addr : Nat} :
    surfaceGet st addr = none ↔ ∀ t ∈ st.surfaces, t.vramAddr ≠ addr := by
  rw [surfaceGet, List.find?_eq_none]
  exact forall₂_congr fun t _ => not_congr decide_eq_true_iff

theorem surfaceGet_eq_some {addr : Nat} (h : surfaceGet st addr = some s) :
    s ∈ st.surfaces ∧ s.vramAddr = addr := by
  have haddr := List.find?_some h
  exact ⟨List.mem_of_find?_eq_some h, of_decide_eq_true haddr⟩

variable {color : Bool}

theorem bound_eq_some (h : st.bound color = some s) :
    s ∈ st.surfaces ∧ st.binding color = some s.id := by
  obtain ⟨id, hid, hfind⟩ := Option.bind_eq_some_iff.mp h
  grind

def put (st : SurfaceState) (target : SurfaceBinding) : SurfaceState :=
  let rest := evictedWhere (checkSurfacesOverlap target) st
  { rest with surfaces := target :: rest.surfaces, nextId := rest.nextId + 1 }

variable {target : SurfaceBinding}

theorem put_steps (hvalid : st.Valid) (hid : target.id = st.nextId)
    (hfree : surfaceGet st target.vramAddr = none) (hclean : target.drawDirty = false) :
    CacheSteps quiet st (put st target) := by
  have hnext := evictedWhere_nextId (checkSurfacesOverlap target) st
  have hmem : ∀ t ∈ (evictedWhere (checkSurfacesOverlap target) st).surfaces,
      t ∈ st.surfaces ∧ checkSurfacesOverlap target t = false := by
    simp [evictedWhere_surfaces, hvalid]
  refine (evictedWhere_steps (checkSurfacesOverlap target) quiet hvalid).tail ?_
  refine .put _ target (hid.trans hnext.symm) (fun t ht => ?_) (fun t ht => (hmem t ht).2) hclean
  exact surfaceGet_eq_none.mp hfree t (hmem t ht).1

def Room (st : SurfaceState) (target : SurfaceBinding) : Prop :=
  ∀ s ∈ st.surfaces, checkSurfacesOverlap target s = true → Free st s

def created (st : SurfaceState) (color : Bool) (target : SurfaceBinding) : SurfaceState :=
  bindSurface ((put st target).setSurface false fun s =>
    { s with bufferDirty := s.bufferDirty || outgrowsZeta (put st target) color target }) color target.id

theorem createSurface_ok (hvalid : st.Valid) (color : Bool)
    (hget : surfaceGet st target.vramAddr = none) (hroom : Room st target) :
    createSurface st color target = .ok (created st color target) := by
  rw [createSurface, surfacePut, SurfaceM.assert, if_pos hget, invalidateOverlappingSurfaces]
  rw [evictWhere_ok _ hvalid hroom]
  rfl

theorem createSurface_error (hvalid : st.Valid) (color : Bool)
    (hget : surfaceGet st target.vramAddr = none) (hroom : ¬ Room st target) :
    createSurface st color target = .error .boundInvalidated := by
  rw [createSurface, surfacePut, SurfaceM.assert, if_pos hget, invalidateOverlappingSurfaces]
  rw [evictWhere_error _ hvalid hroom]
  rfl

theorem created_steps (hvalid : st.Valid) (color : Bool)
    (hid : target.id = st.nextId) (hget : surfaceGet st target.vramAddr = none)
    (hclean : target.drawDirty = false) : CacheSteps quiet st (created st color target) := by
  refine .trans ?_ (bindSurface_steps color (s := target) List.mem_cons_self)
  exact (put_steps hvalid hid hget hclean).trans (setSurface_steps _ false _)

structure Target (st : SurfaceState) (color : Bool) (target : SurfaceBinding) : Prop where
  id : target.id = st.nextId
  clean : target.drawDirty = false
  pending : target.uploadPending = true
  side : target.color = color

theorem populateSized_target {width height : Nat}
    (h : populateSurfaceBindingTargetSized st color width height = .ok target) :
    Target st color target ∧ target.width = width ∧ target.height = height := by
  unfold populateSurfaceBindingTargetSized at h
  split at h
  case h_2 => cases h
  case h_1 =>
  dsimp only at h
  split at h
  case isFalse => cases h
  case isTrue =>
    cases h
    exact ⟨⟨rfl, rfl, rfl, rfl⟩, rfl, rfl⟩

theorem populate_target
    (h : populateSurfaceBindingTarget st color = .ok target) : Target st color target := by
  unfold populateSurfaceBindingTarget at h
  split at h
  · exact (populateSized_target h).1
  · cases hdim : registerDimensions st with
    | error fault =>
      rw [hdim] at h
      cases h
    | ok dim =>
      rw [hdim] at h
      exact (populateSized_target h).1

/-! ### Binding a target -/

theorem bound_eq_some_iff (hvalid : st.Valid) :
    st.bound color = some s ↔ s ∈ st.surfaces ∧ st.binding color = some s.id := by
  constructor
  · exact bound_eq_some
  · rintro ⟨hs, hbinding⟩
    rw [SurfaceState.bound, hbinding, Option.bind_some]
    cases hfind : st.surfaces.find? fun t => t.id = s.id with
    | none =>
      grind
    | some t =>
      have ht := List.find?_some hfind
      rw [eq_of_id hvalid.ids (List.mem_of_find?_eq_some hfind) hs (of_decide_eq_true ht)]

theorem unbindOther_steps (color : Bool) (s : SurfaceBinding) :
    CacheSteps quiet st (unbindOther st color s) := by
  rw [unbindOther]
  split
  · exact .single (.unbind st (!color))
  · exact .refl

def chosen (st : SurfaceState) (color : Bool) (target : SurfaceBinding) :
    SurfaceM (Option SurfaceBinding) :=
  match surfaceGet st target.vramAddr with
  | none => .ok none
  | some s => do
    SurfaceM.assert (!(target.swizzle && st.clearing)) .unsupported
    let compatible ← isCompatible (unbindOther (unbindSurface st color) color s) color s target
    .ok (if compatible then some s else none)

/-- The state in which a target's surface is made. -/
def cleared (st : SurfaceState) (color : Bool) (target : SurfaceBinding) : SurfaceState :=
  match surfaceGet st target.vramAddr with
  | none => unbindSurface st color
  | some s => evicted (unbindOther (unbindSurface st color) color s) s

theorem unbindOther_binding (color : Bool) (s : SurfaceBinding) (hown : st.binding color = none) :
    (unbindOther st color s).binding = unboundFrom st.binding s.id := by
  funext c
  rw [unbindOther, unboundFrom]
  split
  case isTrue hother =>
    change Function.update st.binding (!color) none c = _
    by_cases hc : c = !color
    · rw [hc, Function.update_self, if_pos hother]
    · rw [Function.update_of_ne hc, Bool.eq_not.not_left.mp hc, hown, if_neg fun h => by cases h]
  case isFalse hother =>
    by_cases hc : c = !color
    · rw [hc, if_neg hother]
    · rw [Bool.eq_not.not_left.mp hc, hown, if_neg fun h => by cases h]

theorem unbindSurface_binding (st : SurfaceState) (color : Bool) :
    (unbindSurface st color).binding color = none := by
  exact Function.update_self ..

theorem unbindSurface_binding_other (st : SurfaceState) (color : Bool) :
    (unbindSurface st color).binding (!color) = st.binding (!color) := by
  exact Function.update_of_ne (Bool.not_ne_self color) ..

theorem unbindOther_fields (st : SurfaceState) (color : Bool) (s : SurfaceBinding) :
    (unbindOther st color s).toSurfaceRegs = st.toSurfaceRegs ∧
      (unbindOther st color s).surfaces = st.surfaces ∧
      (unbindOther st color s).nextId = st.nextId := by
  rw [unbindOther]
  split
  · exact ⟨rfl, rfl, rfl⟩
  · exact ⟨rfl, rfl, rfl⟩

theorem free_of_unbound (h : ∀ color, st.binding color ≠ some s.id) : Free st s :=
  fun color hbound => absurd hbound (h color)

theorem unboundFrom_ne (binding : Bool → Option Nat) (id : Nat) (color : Bool) :
    unboundFrom binding id color ≠ some id := by
  simp [unboundFrom]

theorem bindTarget_eq (st : SurfaceState) (color memDirty : Bool) (target : SurfaceBinding) :
    bindTarget st color memDirty target = (do
      match ← chosen st color target with
      | some s => .ok (reuseSurface (unbindOther (unbindSurface st color) color s) color memDirty s)
      | none => createSurface (cleared st color target) color target) := by
  have hget : surfaceGet (unbindSurface st color) target.vramAddr =
    surfaceGet st target.vramAddr := rfl
  unfold bindTarget chosen cleared
  dsimp only
  rw [hget]
  cases surfaceGet st target.vramAddr with
  | none => rfl
  | some s =>
    have hclearing : (unbindOther (unbindSurface st color) color s).clearing = st.clearing :=
      congrArg SurfaceRegs.clearing (unbindOther_fields _ color s).1
    dsimp only
    rw [hclearing, SurfaceM.assert]
    split
    case isFalse => rfl
    case isTrue =>
    have hfree : Free (unbindOther (unbindSurface st color) color s) s := by
      simp [free_of_unbound, unbindOther_binding, unbindSurface_binding, unboundFrom_ne]
    cases isCompatible (unbindOther (unbindSurface st color) color s) color s target with
    | error fault => rfl
    | ok compatible =>
      cases compatible with
      | true => rfl
      | false =>
        rw [evictSurface_ok hfree]
        rfl

section

variable (hvalid : st.Valid) (color : Bool) (target : SurfaceBinding)

theorem cleared_steps : CacheSteps quiet st (cleared st color target) := by
  unfold cleared
  cases hget : surfaceGet st target.vramAddr with
  | none => exact .single (.unbind st color)
  | some s =>
    have hs := (surfaceGet_eq_some hget).1
    refine .trans (.single (.unbind st color)) (.trans (unbindOther_steps color s) ?_)
    refine evicted_steps quiet ?_
    rw [(unbindOther_fields _ color s).2.1]
    exact hs

include hvalid in
theorem mem_cleared (t : SurfaceBinding) : t ∈ (cleared st color target).surfaces ↔
    t ∈ st.surfaces ∧ t.vramAddr ≠ target.vramAddr := by
  unfold cleared
  cases hget : surfaceGet st target.vramAddr with
  | none => exact ⟨fun ht => ⟨ht, surfaceGet_eq_none.mp hget t ht⟩, And.left⟩
  | some s =>
    obtain ⟨hs, haddr⟩ := surfaceGet_eq_some hget
    dsimp only
    rw [evicted_surfaces, (unbindOther_fields _ color s).2.1, List.mem_filter]
    apply and_congr_right
    intro ht
    rw [decide_eq_true_iff, ← haddr]
    apply not_congr
    constructor
    · intro hid
      rw [eq_of_id hvalid.ids ht hs hid]
    · intro heq
      rw [eq_of_address hvalid.addresses ht hs heq]

include hvalid in
theorem surfaceGet_cleared : surfaceGet (cleared st color target) target.vramAddr = none :=
  surfaceGet_eq_none.mpr fun t ht => ((mem_cleared hvalid color target t).mp ht).2

theorem cleared_regs : (cleared st color target).toSurfaceRegs = st.toSurfaceRegs := by
  unfold cleared
  cases surfaceGet st target.vramAddr with
  | none => rfl
  | some s => exact (evicted_regs _ s).trans (unbindOther_fields _ color s).1

theorem cleared_nextId : (cleared st color target).nextId = st.nextId := by
  unfold cleared
  cases surfaceGet st target.vramAddr with
  | none => rfl
  | some s => exact (evicted_nextId _ s).trans (unbindOther_fields _ color s).2.2

theorem cleared_binding_own : (cleared st color target).binding color = none := by
  unfold cleared
  cases surfaceGet st target.vramAddr with
  | none => exact unbindSurface_binding st color
  | some s =>
    simp [unbindOther_binding, unbindSurface_binding, unboundFrom]

include hvalid in
theorem cleared_bound_other (s : SurfaceBinding) :
    (cleared st color target).bound (!color) = some s ↔
      st.bound (!color) = some s ∧ s.vramAddr ≠ target.vramAddr := by
  have hsteps : CacheSteps true st (cleared st color target) := cleared_steps color target
  rw [bound_eq_some_iff (hsteps.valid hvalid), bound_eq_some_iff hvalid, mem_cleared hvalid]
  constructor
  · rintro ⟨⟨hs, haddr⟩, hbinding⟩
    refine ⟨⟨hs, ?_⟩, haddr⟩
    unfold cleared at hbinding
    cases hget : surfaceGet st target.vramAddr with
    | none =>
      grind [unbindSurface_binding_other]
    | some t =>
      rw [hget] at hbinding
      dsimp only at hbinding
      rw [evicted_binding, unbindOther_binding color t (unbindSurface_binding st color), unboundFrom,
        unboundFrom, unbindSurface_binding_other] at hbinding
      split at hbinding
      · cases hbinding
      · exact hbinding
  · rintro ⟨⟨hs, hbinding⟩, haddr⟩
    refine ⟨⟨hs, haddr⟩, ?_⟩
    unfold cleared
    cases hget : surfaceGet st target.vramAddr with
    | none => exact (unbindSurface_binding_other st color).trans hbinding
    | some t =>
      obtain ⟨ht, htaddr⟩ := surfaceGet_eq_some hget
      have hne : ¬ some s.id = some t.id := by
        intro heq
        exact haddr (eq_of_id hvalid.ids hs ht (Option.some.inj heq) ▸ htaddr)
      simp [unbindOther_binding, unbindSurface_binding, unboundFrom, unbindSurface_binding_other,
        hbinding, hne]

end

variable {color : Bool} {target : SurfaceBinding}

theorem surfaceGet_of_chosen {s : SurfaceBinding}
    (h : chosen st color target = .ok (some s)) : surfaceGet st target.vramAddr = some s := by
  unfold chosen at h
  cases hget : surfaceGet st target.vramAddr with
  | none =>
    rw [hget] at h
    cases h
  | some t =>
    rw [hget] at h
    dsimp only at h
    rw [SurfaceM.assert] at h
    split at h
    case isFalse => cases h
    case isTrue =>
    cases hcompatible : isCompatible (unbindOther (unbindSurface st color) color t) color t target with
    | error fault =>
      rw [hcompatible] at h
      cases h
    | ok compatible =>
      rw [hcompatible] at h
      cases compatible with
      | true =>
        cases h
        rfl
      | false => cases h

theorem bindTarget_steps (hvalid : st.Valid) {memDirty : Bool}
    (htarget : Target st color target) (h : bindTarget st color memDirty target = .ok st') :
    CacheSteps quiet st st' := by
  rw [bindTarget_eq] at h
  cases hchosen : chosen st color target with
  | error fault =>
    rw [hchosen] at h
    cases h
  | ok choice =>
    rw [hchosen] at h
    cases choice with
    | some s =>
      cases h
      have hs := (surfaceGet_eq_some (surfaceGet_of_chosen hchosen)).1
      refine .trans (.single (.unbind st color)) (.trans (unbindOther_steps color s) ?_)
      refine reuseSurface_steps color memDirty ?_
      rw [(unbindOther_fields _ color s).2.1]
      exact hs
    | none =>
      have hclear : CacheSteps quiet st (cleared st color target) := cleared_steps color target
      have hvalid' := hclear.valid hvalid
      have hget := surfaceGet_cleared hvalid color target
      by_cases hroom : Room (cleared st color target) target
      · rw [createSurface_ok hvalid' color hget hroom] at h
        cases h
        exact hclear.trans (created_steps hvalid' color
          (htarget.id.trans (cleared_nextId color target).symm) hget htarget.clean)
      · rw [createSurface_error hvalid' color hget hroom] at h
        cases h

/-! ### Updates -/

theorem SurfaceM.bind_eq_ok {α β : Type} {x : SurfaceM α} {f : α → SurfaceM β} {b : β}
    (h : x >>= f = .ok b) : ∃ a, x = .ok a ∧ f a = .ok b := by
  cases x with
  | error e => cases h
  | ok a => exact ⟨a, rfl, h⟩

theorem flushSurface_steps (tcgEnabled : Bool) (st : SurfaceState) (color : Bool) :
    CacheSteps quiet st (flushSurface tcgEnabled st color) := by
  unfold flushSurface
  refine .trans ?_ (setSurface_steps _ color _)
  split
  case h_1 s hbound => exact .single (.download st s true (bound_eq_some hbound).1)
  case h_2 => exact .refl

variable {upload tcgEnabled : Bool}

theorem updateSurfacePart_steps {memDirty : Bool} (hvalid : st.Valid)
    (h : updateSurfacePart tcgEnabled st upload color memDirty = .ok st') : CacheSteps quiet st st' := by
  obtain ⟨target, htarget, h⟩ := SurfaceM.bind_eq_ok h
  obtain ⟨st1, hbind, h⟩ := SurfaceM.bind_eq_ok h
  cases h
  have hfirst : CacheSteps quiet st st1 := by
    rw [bindIfNeeded] at hbind
    split at hbind
    · exact bindTarget_steps hvalid (populate_target htarget) hbind
    · cases hbind
      exact .refl
  split
  · exact hfirst.trans (flushSurface_steps tcgEnabled st1 color)
  · exact hfirst

theorem noteShape_steps (st : SurfaceState) : CacheSteps quiet st (noteShape st) := by
  rw [noteShape]
  split
  · exact .single (.program st _)
  · exact .refl

theorem unbindDirty_steps (st : SurfaceState) (color : Bool) :
    CacheSteps quiet st (unbindDirty st color) := by
  rw [unbindDirty]
  split
  · exact .single (.unbind st color)
  · exact .refl

theorem uploadPart_steps {write memDirty : Bool} (hvalid : st.Valid)
    (h : uploadPart tcgEnabled st color write memDirty = .ok st') : CacheSteps quiet st st' := by
  have hunbind : CacheSteps quiet st (unbindDirty st color) := unbindDirty_steps st color
  rw [uploadPart] at h
  split at h
  · exact hunbind.trans (updateSurfacePart_steps (hunbind.valid hvalid) h)
  · cases h
    exact hunbind

theorem flushPart_steps {write memDirty : Bool} (hvalid : st.Valid)
    (h : flushPart tcgEnabled st color write memDirty = .ok st') : CacheSteps quiet st st' := by
  rw [flushPart] at h
  split at h
  · exact updateSurfacePart_steps hvalid h
  · cases h
    exact .refl

variable {memDirty : Bool → Bool}

theorem updateParts_steps {write : Bool → Bool}
    (hvalid : st.Valid) (h : updateParts tcgEnabled st upload write memDirty = .ok st') :
    CacheSteps quiet st st' := by
  rw [updateParts] at h
  split at h
  · obtain ⟨st1, hcolor, hzeta⟩ := SurfaceM.bind_eq_ok h
    have hnote : CacheSteps quiet st (noteShape st) := noteShape_steps st
    have hfirst : CacheSteps quiet st st1 :=
      hnote.trans (uploadPart_steps (hnote.valid hvalid) hcolor)
    exact hfirst.trans (uploadPart_steps (hfirst.valid hvalid) hzeta)
  · obtain ⟨st1, hcolor, hzeta⟩ := SurfaceM.bind_eq_ok h
    have hfirst : CacheSteps quiet st st1 := flushPart_steps hvalid hcolor
    exact hfirst.trans (flushPart_steps (hfirst.valid hvalid) hzeta)

theorem touched_marks (frameTime : Int) :
    Marks fun s : SurfaceBinding => { s with frameTime := frameTime } :=
  fun s => ⟨frameTime, s.downloadPending, s.uploadPending, rfl⟩

theorem touchBound_steps (st : SurfaceState) (upload color : Bool) :
    CacheSteps (!upload) st (touchBound st upload color) := by
  unfold touchBound
  cases st.bound color with
  | none => exact .refl
  | some s =>
    dsimp only
    refine .trans (onSurface_steps st s.id (touched_marks st.frameTime)) ?_
    split
    case isFalse => exact .refl
    case isTrue hupload =>
    have hquiet : (!upload) = false := by rw [hupload]; rfl
    refine .trans ?_ (.single (.alter _ _ _ (keeps_if s.id ⟨fun _ => rfl, fun _ => rfl, fun _ => rfl,
      fun _ => rfl, fun _ => rfl⟩) hquiet))
    rw [uploadSurfaceData]
    split
    case isFalse => exact .refl
    case isTrue =>
    exact .single (.alter _ _ _ (keeps_if s.id ⟨fun _ => rfl, fun _ => rfl, fun _ => rfl,
      fun _ => rfl, fun _ => rfl⟩) hquiet)

theorem surfaceUpdate_steps {requested : Bool → Bool}
    (hvalid : st.Valid) (h : surfaceUpdate tcgEnabled st upload requested memDirty = .ok st') :
    CacheSteps (!upload) st st' := by
  obtain ⟨st1, hparts, h⟩ := SurfaceM.bind_eq_ok h
  obtain ⟨_, _, h⟩ := SurfaceM.bind_eq_ok h
  have hprogram : CacheSteps (!upload) st { st with
      surfaceShape := { st.surfaceShape with zFormat := st.setupRasterZFormat } } :=
    .single (.program st _)
  have hfirst : CacheSteps (!upload) st st1 :=
    hprogram.trans (updateParts_steps (hprogram.valid hvalid) hparts)
  have htouched : CacheSteps (!upload) st (touchBound (touchBound st1 upload true) upload false) :=
    hfirst.trans ((touchBound_steps st1 upload true).trans (touchBound_steps _ upload false))
  exact htouched.trans (evictWhere_steps _ _ (htouched.valid hvalid) h)

/-! ### Events -/

theorem drawn_keeps (drawn : Bool) (frameTime : Int) : Keeps fun s : SurfaceBinding =>
    { s with drawDirty := s.drawDirty || drawn, frameTime := frameTime } :=
  ⟨fun _ => rfl, fun _ => rfl, fun _ => rfl, fun _ => rfl, fun _ => rfl⟩

def markedDrawn (st : SurfaceState) (color drawn : Bool) : SurfaceState :=
  st.setSurface color fun s => { s with drawDirty := s.drawDirty || drawn }

def drawnSide (st : SurfaceState) (color drawn : Bool) : SurfaceState :=
  match (markedDrawn st color drawn).binding color with
  | none => markedDrawn st color drawn
  | some id => (markedDrawn st color drawn).onSurface id fun s =>
      { s with drawDirty := s.drawDirty || drawn, frameTime := st.frameTime }

theorem setSurfaceDirty_eq (st : SurfaceState) (drawn : Bool → Bool) :
    setSurfaceDirty st drawn = drawnSide (drawnSide st true (drawn true && st.writeEnabled true)) false
      (drawn false && st.writeEnabled false) :=
  rfl

theorem setSurfaceDirty_steps (st : SurfaceState) (drawn : Bool → Bool) :
    CacheSteps false st (setSurfaceDirty st drawn) := by
  have hdraw (st : SurfaceState) (color drawn : Bool) :
      CacheSteps false st (drawnSide st color drawn) := by
    have hset : CacheSteps false st (markedDrawn st color drawn) := setSurface_steps st color _
    unfold drawnSide
    cases (markedDrawn st color drawn).binding color with
    | none => exact hset
    | some id =>
      exact hset.tail (.alter _ _ _ (keeps_if id (drawn_keeps drawn st.frameTime)) rfl)
  rw [setSurfaceDirty_eq]
  exact (hdraw st true _).trans (hdraw _ false _)

theorem surfaceFlush_steps (hvalid : st.Valid) (h : surfaceFlush st = .ok st') :
    CacheSteps quiet st st' := by
  refine .trans ?_ (evictWhere_steps _ quiet ?_ h)
  · exact .trans (.trans (.single (.program st _)) (.single (.unbind _ true))) (.single (.unbind _ false))
  · refine (hvalid.rebind true fun _ hid => ?_).rebind false fun _ hid => ?_
    · cases hid
    · cases hid

theorem surfaceAccess_steps (st : SurfaceState) (addr len : Nat) (write : Bool) :
    CacheSteps quiet st (surfaceAccess st addr len write) := by
  refine .single (.mark st _ fun s => ?_)
  split
  · exact ⟨s.frameTime, s.downloadPending || s.drawDirty, s.uploadPending || write, rfl⟩
  · exact ⟨s.frameTime, s.downloadPending, s.uploadPending, rfl⟩

theorem downloadSurface_keeps_others (st : SurfaceState) {s t : SurfaceBinding} (force : Bool)
    (ht : t ∈ st.surfaces) (hne : t.id ≠ s.id) : t ∈ (downloadSurface st s force).surfaces := by
  rw [downloadSurface]
  split
  · exact ht
  · have hmem := List.mem_map_of_mem (f := fun t => if t.id = s.id then downloaded t else t) ht
    rwa [if_neg hne] at hmem

theorem processPendingDownloads_steps (hvalid : st.Valid) :
    CacheSteps quiet st (processPendingDownloads st) := by
  have hloop : ∀ (l : List SurfaceBinding) (st : SurfaceState),
      (l.map SurfaceBinding.id).Nodup → (∀ s ∈ l, s ∈ st.surfaces) →
        CacheSteps quiet st (l.foldl (fun st s => downloadSurface st s false) st) := by
    intro l
    induction l with
    | nil => exact fun _ _ _ => .refl
    | cons s l ih =>
      intro st hids hmem
      obtain ⟨hs, hl⟩ := List.forall_mem_cons.mp hmem
      obtain ⟨hnew, hids⟩ := List.nodup_cons.mp hids
      refine .trans (.single (.download st s false hs)) (ih _ hids fun t ht => ?_)
      grind [downloadSurface_keeps_others]
  exact hloop st.surfaces st hvalid.ids fun _ hs => hs

theorem program_steps (event : SurfaceEvent) (st : SurfaceState) :
    CacheSteps quiet st (event.program st) := by
  cases event with
  | setSurfaceFormat parameter =>
    change CacheSteps quiet st (setSurfaceFormat st parameter)
    rw [setSurfaceFormat]
    split
    · exact .single (.program st _)
    · exact .single (.program st _)
  | surfaceUpdate | waitForIdle | clearSurface | setSurfaceDirty | surfaceFlush | surfaceAccess
  | processPendingDownloads => exact .refl
  | _ => exact .single (.program st _)

theorem flushFirst_steps {flushes : Bool} (hvalid : st.Valid)
    (h : flushFirst tcgEnabled st flushes memDirty = .ok st') : CacheSteps true st st' := by
  rw [flushFirst] at h
  split at h
  · exact surfaceUpdate_steps hvalid h
  · cases h
    exact .refl

theorem CacheStep.loud (h : CacheStep quiet st st') : CacheStep false st st' := by
  cases h with
  | program regs => exact .program _ regs
  | unbind color => exact .unbind _ color
  | bind color s hs => exact .bind _ color s hs
  | download s force hs => exact .download _ s force hs
  | mark f hf => exact .mark _ f hf
  | alter f transfers hf hquiet => exact .alter _ f transfers hf rfl
  | remove s hs hclean hunbound => exact .remove _ s hs hclean hunbound
  | put s hid haddress hapart hclean => exact .put _ s hid haddress hapart hclean

theorem CacheSteps.loud (h : CacheSteps quiet st st') : CacheSteps false st st' := by
  induction h with
  | refl => exact .refl
  | tail _ hstep ih => exact ih.tail hstep.loud

theorem clearSurface_steps {written : Bool → Bool} (hvalid : st.Valid)
    (h : clearSurface tcgEnabled st written memDirty = .ok st') : CacheSteps false st st' := by
  obtain ⟨st1, hupdate, h⟩ := SurfaceM.bind_eq_ok h
  cases h
  have hclearing : CacheSteps false st { st with clearing := true } := .single (.program st _)
  have hupdated : CacheSteps false st st1 :=
    hclearing.trans (surfaceUpdate_steps (hclearing.valid hvalid) hupdate)
  have hdone : CacheSteps false st1 { st1 with clearing := false } := .single (.program st1 _)
  refine hupdated.trans (hdone.trans ?_)
  split
  · exact .refl
  · exact setSurfaceDirty_steps _ written

theorem SurfaceEvent.step_steps {event : SurfaceEvent}
    (hvalid : st.Valid) (h : event.step tcgEnabled st memDirty = .ok st') : CacheSteps false st st' := by
  have hmethod (hstep : (do
      let st ← flushFirst tcgEnabled st event.flushes memDirty
      .ok (event.program st)) = (.ok st' : SurfaceM SurfaceState)) : CacheSteps false st st' := by
    obtain ⟨st1, hflush, hprogram⟩ := SurfaceM.bind_eq_ok hstep
    cases hprogram
    exact (flushFirst_steps hvalid hflush).loud.trans (program_steps event st1)
  cases event with
  | surfaceUpdate upload requested => exact (surfaceUpdate_steps hvalid h).loud
  | clearSurface written => exact clearSurface_steps hvalid h
  | setSurfaceDirty drawn =>
    cases h
    exact setSurfaceDirty_steps st drawn
  | surfaceFlush => exact surfaceFlush_steps hvalid h
  | surfaceAccess addr len write =>
    cases h
    exact surfaceAccess_steps st addr len write
  | processPendingDownloads =>
    cases h
    exact processPendingDownloads_steps hvalid
  | _ => exact hmethod h

theorem CacheSteps.nextId_le (h : CacheSteps quiet st st') : st.nextId ≤ st'.nextId := by
  induction h with
  | refl => exact le_rfl
  | tail _ hstep ih =>
    refine ih.trans ?_
    cases hstep with
    | put s hid haddress hapart hclean => exact Nat.le_succ _
    | download s force hs =>
      rw [downloadSurface]
      split
      · exact le_rfl
      · exact le_rfl
    | _ => exact le_rfl

/-! ## Runs -/

theorem runSurfaces_steps {events : List (SurfaceEvent × (Bool → Bool))}
    (hvalid : st.Valid) (h : runSurfaces tcgEnabled st events = .ok st') : CacheSteps false st st' := by
  induction events generalizing st with
  | nil =>
    cases h
    exact .refl
  | cons e events ih =>
    obtain ⟨st1, hstep, hrest⟩ := SurfaceM.bind_eq_ok h
    have hfirst := SurfaceEvent.step_steps hvalid hstep
    exact hfirst.trans (ih (hfirst.valid hvalid) hrest)

end

theorem SurfaceRegs.start_valid (regs : SurfaceRegs) : regs.start.Valid where
  apart := .nil
  addresses := .nil
  ids := .nil
  fresh _ hs := absurd hs List.not_mem_nil
  bound _ _ h := by cases h
  clean _ hs := absurd hs List.not_mem_nil
  known id hid := absurd hid (Nat.not_lt_zero id)

def SurfaceBinding.Occupies (s : SurfaceBinding) (a : Nat) : Prop :=
  s.vramAddr ≤ a ∧ a < s.vramAddr + s.size

theorem not_occupies_both {s t : SurfaceBinding} (h : checkSurfacesOverlap s t = false) (a : Nat) :
    ¬ (s.Occupies a ∧ t.Occupies a) := by
  rw [checkSurfacesOverlap, checkSurfaceOverlapsRange, Bool.not_eq_false', Bool.or_eq_true,
    decide_eq_true_iff, decide_eq_true_iff] at h
  rintro ⟨⟨hs, hs'⟩, ht, ht'⟩
  omega

/-- In every run the live surfaces are at different addresses and share no byte, what is bound is
live, and a surface that was live earlier is live still or has left the list clean, unless it has no
pixels that could be downloaded. -/
theorem surfaceCache_coherent (tcgEnabled : Bool) (regs : SurfaceRegs)
    (before after : List (SurfaceEvent × (Bool → Bool))) (st₁ st₂ : SurfaceState)
    (hbefore : runSurfaces tcgEnabled regs.start before = .ok st₁)
    (hafter : runSurfaces tcgEnabled st₁ after = .ok st₂) :
    (st₂.surfaces.Pairwise fun s t =>
        s.vramAddr ≠ t.vramAddr ∧ ∀ a, ¬ (s.Occupies a ∧ t.Occupies a)) ∧
      (∀ color id, st₂.binding color = some id → ∃ s ∈ st₂.surfaces, s.id = id) ∧
      ∀ s ∈ st₁.surfaces, (∃ t ∈ st₂.surfaces, t.id = s.id) ∨
        ∃ t ∈ st₂.invalidSurfaces, t.id = s.id ∧
          (t.drawDirty = false ∨ t.width = 0 ∨ t.height = 0) := by
  have hvalid₁ := (runSurfaces_steps regs.start_valid hbefore).valid regs.start_valid
  have hsteps := runSurfaces_steps hvalid₁ hafter
  have hvalid₂ := hsteps.valid hvalid₁
  refine ⟨?_, hvalid₂.bound, fun s hs => ?_⟩
  · have haddresses := List.pairwise_map.mp hvalid₂.addresses
    exact (haddresses.and hvalid₂.apart).imp fun h => ⟨h.1, not_occupies_both h.2⟩
  · have hlt := (hvalid₁.fresh s hs).trans_le hsteps.nextId_le
    cases hvalid₂.known s.id hlt with
    | inl hlive =>
      simp_all
    | inr hinvalid =>
      obtain ⟨t, ht, hid⟩ := List.mem_map.mp hinvalid
      exact .inr ⟨t, ht, hid, hvalid₂.clean t ht⟩

def colorBuffer (width : Nat) : SurfaceRegs where
  ramin := fun _ => some ⟨nvDmaInMemoryClass, 0, 0x3FFFFFF⟩
  dma := fun _ => 0
  surfaceShape := ⟨0, 8, 2, 0, 0, 0, 0, width, 16, 0⟩
  lastSurfaceShape := .zero
  setupRasterZFormat := 0
  surfaceType := 1
  surface := fun _ => ⟨false, false, false, 256, 0⟩
  writeEnabled := id
  clearing := false
  frameTime := 0

def drawColor : List (SurfaceEvent × (Bool → Bool)) :=
  [(.surfaceUpdate true id, fun _ => false), (.setSurfaceDirty id, fun _ => false)]

def moveAndDraw : List (SurfaceEvent × (Bool → Bool)) :=
  (.setSurfaceColorOffset 64, fun _ => false) :: drawColor

theorem surfaceCache_coherent_moved : ∃ st₁ st₂,
    runSurfaces true (colorBuffer 64).start drawColor = .ok st₁ ∧
      runSurfaces true st₁ moveAndDraw = .ok st₂ ∧
      (st₂.surfaces.Pairwise fun s t =>
        s.vramAddr ≠ t.vramAddr ∧ ∀ a, ¬ (s.Occupies a ∧ t.Occupies a)) :=
  ⟨_, _, rfl, rfl, (surfaceCache_coherent true (colorBuffer 64) drawColor moveAndDraw _ _ rfl rfl).1⟩

theorem surfaceCache_leaves_dirty : ∃ st,
    runSurfaces true (colorBuffer 0).start (drawColor ++ moveAndDraw) = .ok st ∧
      ∃ s ∈ st.invalidSurfaces, s.drawDirty = true :=
  ⟨_, rfl, _, List.mem_cons_self, rfl⟩

end DukeX.Nv2a.Vk
