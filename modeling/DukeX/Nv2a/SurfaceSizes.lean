import DukeX.Nv2a.SurfaceRuns

/-!
# Which updates keep the bound surfaces in step

The colour and the zeta surface that are bound together have to have the same size, and a surface
that is bound may leave the list only when its buffer has been programmed anew.
-/

namespace DukeX.Nv2a.Vk

def SameSize (s t : SurfaceBinding) : Prop := s.width = t.width ∧ s.height = t.height

theorem SameSize.refl (s : SurfaceBinding) : SameSize s s := ⟨rfl, rfl⟩

theorem SameSize.symm {s t : SurfaceBinding} (h : SameSize s t) : SameSize t s :=
  ⟨h.1.symm, h.2.symm⟩

theorem SameSize.trans {s t u : SurfaceBinding} (h : SameSize s t) (h' : SameSize t u) :
    SameSize s u :=
  ⟨h.1.trans h'.1, h.2.trans h'.2⟩

theorem Keeps.sameSize {f : SurfaceBinding → SurfaceBinding} (hf : Keeps f) (s : SurfaceBinding) :
    SameSize (f s) s :=
  ⟨hf.width s, hf.height s⟩

def Matched (st : SurfaceState) : Prop :=
  ∀ c z, st.bound true = some c → st.bound false = some z → SameSize c z

theorem dimensionsMatch_iff (st : SurfaceState) : dimensionsMatch st = true ↔ Matched st := by
  unfold dimensionsMatch Matched
  split
  case h_1 c z hc hz =>
    rw [Bool.and_eq_true, beq_iff_eq, beq_iff_eq, hc, hz]
    constructor
    · intro h c' z' hc' hz'
      cases hc'
      cases hz'
      exact h
    · intro h
      exact h c z rfl rfl
  simp_all

/-! ## What stays bound -/

section

variable {st st' : SurfaceState}

variable {f : SurfaceBinding → SurfaceBinding}

theorem bound_map (hf : Keeps f) (color : Bool)
    (transfers : List Transfer) :
    ({ mapSurfaces st f with transfers := transfers }).bound color = (st.bound color).map f := by
  change ((st.binding color).bind fun id => (st.surfaces.map f).find? fun s => s.id = id) = _
  rw [SurfaceState.bound]
  cases st.binding color with
  | none => rfl
  | some id =>
    rw [Option.bind_some, List.find?_map]
    congr 2
    funext s
    exact congrArg (fun n => decide (n = id)) (hf.id s)

theorem Matched.of_map (h : Matched st) (hf : Keeps f)
    (hbound : ∀ color, st'.bound color = (st.bound color).map f) : Matched st' := by
  intro c z hc hz
  rw [hbound] at hc hz
  obtain ⟨c', hc', rfl⟩ := Option.map_eq_some_iff.mp hc
  obtain ⟨z', hz', rfl⟩ := Option.map_eq_some_iff.mp hz
  exact (hf.sameSize c').trans ((h c' z' hc' hz').trans (hf.sameSize z').symm)

theorem keeps_id :
    Keeps id := ⟨fun _ => rfl, fun _ => rfl, fun _ => rfl, fun _ => rfl, fun _ => rfl⟩

def Alike (st st' : SurfaceState) : Prop :=
  ∃ f, Keeps f ∧ ∀ color, st'.bound color = (st.bound color).map f

theorem Alike.refl (st : SurfaceState) : Alike st st :=
  ⟨id, keeps_id, fun _ => Option.map_id_fun.symm ▸ rfl⟩

theorem Alike.matched (h : Alike st st') (hmatched : Matched st) : Matched st' := by
  obtain ⟨f, hf, hbound⟩ := h
  exact hmatched.of_map hf hbound

theorem Alike.unmatched (h : Alike st st') (hmatched : Matched st') : Matched st := by
  obtain ⟨f, hf, hbound⟩ := h
  intro c z hc hz
  have hfc := hmatched (f c) (f z) (by rw [hbound, hc]; rfl) (by rw [hbound, hz]; rfl)
  exact (hf.sameSize c).symm.trans (hfc.trans (hf.sameSize z))

theorem downloadSurface_alike (st : SurfaceState) (s : SurfaceBinding) (force : Bool) :
    Alike st (downloadSurface st s force) := by
  rw [downloadSurface]
  split
  · exact .refl st
  · exact ⟨_, keeps_if s.id keeps_downloaded, fun color =>
      bound_map (keeps_if s.id keeps_downloaded) color _⟩

theorem onSurface_alike (st : SurfaceState) (id : Nat)
    (hf : Keeps f) : Alike st (st.onSurface id f) :=
  ⟨_, keeps_if id hf, fun color => bound_map (keeps_if id hf) color st.transfers⟩

theorem Alike.trans {st'' : SurfaceState} (h : Alike st st') (h' : Alike st' st'') :
    Alike st st'' := by
  obtain ⟨f, hf, hbound⟩ := h
  obtain ⟨g, hg, hbound'⟩ := h'
  refine ⟨g ∘ f,
    ⟨fun s => (hg.id _).trans (hf.id s), fun s => (hg.vramAddr _).trans (hf.vramAddr s),
    fun s => (hg.size _).trans (hf.size s), fun s => (hg.width _).trans (hf.width s),
    fun s => (hg.height _).trans (hf.height s)⟩, fun color => ?_⟩
  rw [hbound', hbound, Option.map_map]

theorem matched_unbind (st : SurfaceState) (color : Bool) : Matched (unbindSurface st color) := by
  intro c z hc hz
  cases color with
  | true =>
    cases hc
  | false =>
    cases hz

/-! ## Binding a target -/

/-- The surface bound as the other buffer stays bound. -/
structure Stays (st : SurfaceState) (color : Bool) (target t : SurfaceBinding) : Prop where
  bound : st.bound (!color) = some t
  address : t.vramAddr ≠ target.vramAddr
  apart : chosen st color target = .ok none → checkSurfacesOverlap target t = false

theorem bound_bindSurface (st : SurfaceState) (color : Bool) (id : Nat) :
    (bindSurface st color id).bound color = st.surfaces.find? fun s => s.id = id := by
  change ((Function.update st.binding color (some id)) color).bind _ = _
  rw [Function.update_self]
  rfl

theorem bound_bindSurface_other (st : SurfaceState) (color : Bool) (id : Nat) :
    (bindSurface st color id).bound (!color) = st.bound (!color) := by
  change ((Function.update st.binding color (some id)) (!color)).bind _ = _
  rw [Function.update_of_ne (Bool.not_ne_self color)]
  rfl

variable {target : SurfaceBinding}

theorem put_bound (hvalid : st.Valid) (hid : target.id = st.nextId)
    (hget : surfaceGet st target.vramAddr = none) (hclean : target.drawDirty = false) (color : Bool)
    (t : SurfaceBinding) : (put st target).bound color = some t ↔
      st.bound color = some t ∧ checkSurfacesOverlap target t = false := by
  have hsteps : CacheSteps true st (put st target) := put_steps hvalid hid hget hclean
  rw [bound_eq_some_iff (hsteps.valid hvalid), bound_eq_some_iff hvalid]
  change t ∈ target :: (evictedWhere (checkSurfacesOverlap target) st).surfaces ∧
    (evictedWhere (checkSurfacesOverlap target) st).binding color = some t.id ↔ _
  rw [evictedWhere_surfaces _ hvalid, evictedWhere_binding]
  constructor
  · rintro ⟨hmem, hbinding⟩
    split at hbinding
    case isTrue => cases hbinding
    case isFalse =>
    cases List.mem_cons.mp hmem with
    | inl heq =>
      -- The new surface has a number that nothing is bound to yet.
      obtain ⟨u, hu, huid⟩ := hvalid.bound color t.id hbinding
      have hlt := hvalid.fresh u hu
      simp_all
    | inr hmem =>
      simp_all
  · rintro ⟨⟨ht, hbinding⟩, hapart⟩
    refine ⟨List.mem_cons_of_mem _ (List.mem_filter.mpr ⟨ht, by simpa using hapart⟩), ?_⟩
    rw [if_neg, hbinding]
    rintro ⟨u, hu, hoverlap, hu'⟩
    rw [hbinding] at hu'
    rw [eq_of_id hvalid.ids hu ht (Option.some.inj hu').symm, hapart] at hoverlap
    cases hoverlap

variable {s : SurfaceBinding}

theorem readied_bound_other (hvalid : st.Valid) (hs : s ∈ st.surfaces)
    (color : Bool) (t : SurfaceBinding) :
    (unbindOther (unbindSurface st color) color s).bound (!color) = some t ↔
      st.bound (!color) = some t ∧ t.vramAddr ≠ s.vramAddr := by
  have hsteps : CacheSteps true st (unbindOther (unbindSurface st color) color s) :=
    .trans (.single (.unbind st color)) (unbindOther_steps color s)
  rw [bound_eq_some_iff (hsteps.valid hvalid), bound_eq_some_iff hvalid,
    (unbindOther_fields _ color s).2.1,
      unbindOther_binding color s (unbindSurface_binding st color),
    unboundFrom, unbindSurface_binding_other]
  constructor
  · rintro ⟨ht, hbinding⟩
    split at hbinding
    case isTrue => cases hbinding
    case isFalse hne =>
    refine ⟨⟨ht, hbinding⟩, fun haddr => hne ?_⟩
    rw [hbinding, eq_of_address hvalid.addresses ht hs haddr]
  · rintro ⟨⟨ht, hbinding⟩, haddr⟩
    refine ⟨ht, ?_⟩
    rw [if_neg, hbinding]
    intro heq
    rw [hbinding] at heq
    exact haddr (congrArg _ (eq_of_id hvalid.ids ht hs (Option.some.inj heq)))

structure Binds (st : SurfaceState) (color : Bool) (target : SurfaceBinding) (st' : SurfaceState)
    (s : SurfaceBinding) : Prop where
  bound : st'.bound color = some s
  size : (∃ c, chosen st color target = .ok (some c) ∧ SameSize s c) ∨
    chosen st color target = .ok none ∧ SameSize s target
  only : ∀ t, st'.bound (!color) = some t → ∃ t₀, Stays st color target t₀ ∧ SameSize t t₀
  stays : ∀ t₀, Stays st color target t₀ → ∃ t, st'.bound (!color) = some t ∧ SameSize t t₀

theorem reuseSurface_bound (st : SurfaceState) (color memDirty : Bool) (s : SurfaceBinding) :
    ∃ f, Keeps f ∧
      (reuseSurface st color memDirty s).bound color =
        (st.surfaces.find? fun t => t.id = s.id).map f ∧
      (reuseSurface st color memDirty s).bound (!color) = (st.bound (!color)).map f := by
  have hf : Keeps fun t : SurfaceBinding => if t.id = s.id then
      { t with uploadPending := t.uploadPending || memDirty } else t :=
    keeps_if s.id ⟨fun _ => rfl, fun _ => rfl, fun _ => rfl, fun _ => rfl, fun _ => rfl⟩
  refine ⟨_, hf, ?_, ?_⟩
  · rw [reuseSurface, bound_bindSurface]
    change (st.surfaces.map _).find? _ = _
    grind
  · rw [reuseSurface, bound_bindSurface_other]
    exact bound_map hf (!color) st.transfers

theorem find?_id (hvalid : st.Valid) (hs : s ∈ st.surfaces) :
    (st.surfaces.find? fun t => t.id = s.id) = some s := by
  cases hfind : st.surfaces.find? fun t => t.id = s.id with
  | none =>
    grind
  | some t =>
    have ht := List.find?_some hfind
    rw [eq_of_id hvalid.ids (List.mem_of_find?_eq_some hfind) hs (of_decide_eq_true ht)]

variable {color memDirty : Bool}

theorem binds_of_reuse (hvalid : st.Valid)
    (hchosen : chosen st color target = .ok (some s)) :
    ∃ t, Binds st color target
      (reuseSurface (unbindOther (unbindSurface st color) color s) color memDirty s) t := by
  obtain ⟨hs, haddr⟩ := surfaceGet_eq_some (surfaceGet_of_chosen hchosen)
  obtain ⟨f, hf, hown, hother⟩ :=
    reuseSurface_bound (unbindOther (unbindSurface st color) color s) color memDirty s
  have hfind : (unbindOther (unbindSurface st color) color s).surfaces.find?
      (fun t => t.id = s.id) = some s := by
    rw [(unbindOther_fields _ color s).2.1]
    have hfound := find?_id hvalid hs
    exact hfound
  rw [hfind] at hown
  refine ⟨f s, hown, .inl ⟨s, hchosen, hf.sameSize s⟩, fun t ht => ?_, fun t0 ht0 => ?_⟩
  · rw [hother] at ht
    obtain ⟨t0, ht0, rfl⟩ := Option.map_eq_some_iff.mp ht
    obtain ⟨hbound, hne⟩ := (readied_bound_other hvalid hs color t0).mp ht0
    refine ⟨t0, ⟨hbound, haddr ▸ hne, fun hnone => ?_⟩, hf.sameSize t0⟩
    simp_all
  · refine ⟨f t0, ?_, hf.sameSize t0⟩
    rw [hother, (readied_bound_other hvalid hs color t0).mpr ⟨ht0.bound, haddr ▸ ht0.address⟩]
    rfl

theorem binds_of_create (hvalid : st.Valid)
    (htarget : Target st color target) (hchosen : chosen st color target = .ok none) :
    Binds st color target (created (cleared st color target) color target) target := by
  have hclear : CacheSteps true st (cleared st color target) := cleared_steps color target
  have hvalid' := hclear.valid hvalid
  have hget := surfaceGet_cleared hvalid color target
  have hput := put_bound hvalid' (htarget.id.trans (cleared_nextId color target).symm) hget
    htarget.clean (!color)
  have hother : (created (cleared st color target) color target).bound (!color) =
      (put (cleared st color target) target).bound (!color) :=
    bound_bindSurface_other _ color target.id
  refine ⟨?_, .inr ⟨hchosen, .refl target⟩, fun t ht => ?_, fun t0 ht0 => ?_⟩
  · rw [created, bound_bindSurface]
    exact List.find?_cons_of_pos (decide_eq_true rfl)
  · obtain ⟨hbound, hapart⟩ := (hput t).mp (hother ▸ ht)
    obtain ⟨hbound, haddr⟩ := (cleared_bound_other hvalid color target t).mp hbound
    exact ⟨t, ⟨hbound, haddr, fun _ => hapart⟩, .refl t⟩
  · refine ⟨t0, ?_, .refl t0⟩
    rw [hother]
    exact (hput t0).mpr ⟨(cleared_bound_other hvalid color target t0).mpr ⟨ht0.bound, ht0.address⟩,
      ht0.apart hchosen⟩

/-! ## Where binding a target stops -/

/-- The only fault a computation can end with is an assertion on what the guest has programmed. -/
def Sound {α : Type} (x : SurfaceM α) : Prop := ∀ fault, x = .error fault → fault = .unsupported

theorem Sound.ok {α : Type} (a : α) : Sound (.ok a) := fun _ h => by cases h

theorem Sound.unsupported {α : Type} : Sound (.error .unsupported : SurfaceM α) := by
  intro fault h
  cases h
  rfl

theorem Sound.bind {α β : Type} {x : SurfaceM α} {f : α → SurfaceM β} (hx : Sound x)
    (hf : ∀ a, x = .ok a → Sound (f a)) : Sound (x >>= f) := by
  cases x with
  | error fault =>
    intro fault' h
    cases h
    exact hx fault rfl
  | ok a => exact hf a rfl

theorem sound_populateSized (st : SurfaceState) (color : Bool) (width height : Nat) :
    Sound (populateSurfaceBindingTargetSized st color width height) := by
  unfold populateSurfaceBindingTargetSized
  split
  · dsimp only
    split
    · exact .ok _
    · exact .unsupported
  · exact .unsupported

theorem sound_registerDimensions (st : SurfaceState) : Sound (registerDimensions st) := by
  apply Sound.bind
  · unfold getSurfaceDimensions
    dsimp only
    split
    · split
      · exact .ok _
      · exact .unsupported
    · exact .ok _
  · intro dim _
    apply Sound.bind
    · unfold applyAntiAliasingFactor
      split
      · exact .ok _
      · exact .ok _
      · exact .ok _
      · exact .unsupported
    · intro _ _
      exact .ok _

theorem sound_populate (st : SurfaceState) (color : Bool) :
    Sound (populateSurfaceBindingTarget st color) := by
  unfold populateSurfaceBindingTarget
  split
  · exact sound_populateSized st false _ _
  · exact (sound_registerDimensions st).bind fun _ _ => sound_populateSized st _ _ _

theorem sound_isCompatible (st : SurfaceState) (color : Bool) (s target : SurfaceBinding) :
    Sound (isCompatible st color s target) := by
  rw [isCompatible]
  split
  case isFalse => exact .ok _
  case isTrue =>
  apply Sound.bind
  · rw [leavesRoom]
    split
    · exact (sound_populateSized st _ _ _).bind fun _ _ => .ok _
    · exact .ok _
  · intro _ _
    exact .ok _

theorem sound_chosen (st : SurfaceState) (color : Bool) (target : SurfaceBinding) :
    Sound (chosen st color target) := by
  unfold chosen
  split
  · exact .ok _
  · apply Sound.bind
    · rw [SurfaceM.assert]
      split
      · exact .ok _
      · exact .unsupported
    · intro _ _
      exact (sound_isCompatible _ color _ target).bind fun _ _ => .ok _

/-- A surface that has to be made is not in the way of the one bound as the other buffer, unless that
buffer has been programmed anew. -/
def Clear (st : SurfaceState) (color : Bool) (target : SurfaceBinding) : Prop :=
  chosen st color target = .ok none → ∀ t, st.bound (!color) = some t →
    t.vramAddr ≠ target.vramAddr → checkSurfacesOverlap target t = true →
      (st.surface (!color)).bufferDirty = true

theorem room_iff (hvalid : st.Valid)
    (hchosen : chosen st color target = .ok none) :
    Room (cleared st color target) target ↔ Clear st color target := by
  have hclear : CacheSteps true st (cleared st color target) := cleared_steps color target
  have hvalid' := hclear.valid hvalid
  have hsurface : (cleared st color target).surface = st.surface :=
    congrArg SurfaceRegs.surface (cleared_regs color target)
  constructor
  · intro hroom _ t hbound haddr hoverlap
    have hbound' := (cleared_bound_other hvalid color target t).mpr ⟨hbound, haddr⟩
    obtain ⟨ht, hbinding⟩ := bound_eq_some hbound'
    exact hsurface ▸ hroom t ht hoverlap (!color) hbinding
  · intro hclear t ht hoverlap c hbinding
    cases Bool.eq_or_eq_not c color with
    | inl hc =>
      rw [hc, cleared_binding_own] at hbinding
      cases hbinding
    | inr hc =>
      subst hc
      have hbound := (bound_eq_some_iff hvalid').mpr ⟨ht, hbinding⟩
      obtain ⟨hbound, haddr⟩ := (cleared_bound_other hvalid color target t).mp hbound
      rw [hsurface]
      exact hclear hchosen t hbound haddr hoverlap

theorem bindTarget_sound (hvalid : st.Valid)
    (hclear : Clear st color target) : Sound (bindTarget st color memDirty target) := by
  rw [bindTarget_eq]
  refine (sound_chosen st color target).bind fun choice hchosen => ?_
  cases choice with
  | some s => exact .ok _
  | none =>
    have hsteps : CacheSteps true st (cleared st color target) := cleared_steps color target
    rw [createSurface_ok (hsteps.valid hvalid) color (surfaceGet_cleared hvalid color target)
      ((room_iff hvalid hchosen).mpr hclear)]
    exact .ok _

theorem bindTarget_binds (hvalid : st.Valid)
    (htarget : Target st color target) (h : bindTarget st color memDirty target = .ok st') :
    Clear st color target ∧ ∃ s, Binds st color target st' s := by
  rw [bindTarget_eq] at h
  obtain ⟨choice, hchosen, h⟩ := SurfaceM.bind_eq_ok h
  cases choice with
  | some s =>
    cases h
    refine ⟨fun hnone => ?_, binds_of_reuse hvalid hchosen⟩
    simp_all
  | none =>
    have hsteps : CacheSteps true st (cleared st color target) := cleared_steps color target
    have hvalid' := hsteps.valid hvalid
    have hget := surfaceGet_cleared hvalid color target
    grind [createSurface_ok, room_iff, binds_of_create, createSurface_error]

theorem outgrowsZeta_eq_false (h : outgrowsZeta st true target = false)
    {z : SurfaceBinding} (hz : st.bound false = some z) : SameSize z target := by
  unfold outgrowsZeta at h
  rw [hz] at h
  rw [Bool.or_eq_false_iff, bne_eq_false_iff_eq, bne_eq_false_iff_eq] at h
  exact h

theorem bindTarget_color (hvalid : st.Valid)
    (htarget : Target st true target) (h : bindTarget st true memDirty target = .ok st') :
    (st'.surface false).bufferDirty = true ∨ Matched st' := by
  rw [bindTarget_eq] at h
  obtain ⟨choice, hchosen, h⟩ := SurfaceM.bind_eq_ok h
  cases choice with
  | some s =>
    cases h
    exact .inl (Bool.or_true _)
  | none =>
    have hsteps : CacheSteps true st (cleared st true target) := cleared_steps true target
    have hvalid' := hsteps.valid hvalid
    have hget := surfaceGet_cleared hvalid true target
    by_cases hroom : Room (cleared st true target) target
    case neg =>
      rw [createSurface_error hvalid' true hget hroom] at h
      cases h
    case pos =>
    rw [createSurface_ok hvalid' true hget hroom] at h
    cases h
    cases hout : outgrowsZeta (put (cleared st true target) target) true target with
    | true =>
      refine .inl ?_
      change (_ || outgrowsZeta (put (cleared st true target) target) true target) = true
      rw [hout, Bool.or_true]
    | false =>
      refine .inr fun c z hc hz => ?_
      have hbinds := binds_of_create hvalid htarget hchosen
      rw [hbinds.bound] at hc
      cases hc
      have hother : (created (cleared st true target) true target).bound false =
        (put (cleared st true target) target).bound false :=
          bound_bindSurface_other _ true target.id
      exact (outgrowsZeta_eq_false hout (hother ▸ hz)).symm

theorem goesWithColor_of_chosen
    (h : chosen st false target = .ok (some s)) :
    goesWithColor (unbindOther (unbindSurface st false) false s) false s = true := by
  unfold chosen at h
  cases hget : surfaceGet st target.vramAddr with
  | none =>
    rw [hget] at h
    cases h
  | some t =>
    rw [hget] at h
    obtain ⟨_, _, h⟩ := SurfaceM.bind_eq_ok h
    obtain ⟨compatible, hcompatible, h⟩ := SurfaceM.bind_eq_ok h
    cases compatible with
    | false => cases h
    | true =>
      rw [isCompatible] at hcompatible
      split at hcompatible
      case isFalse => cases hcompatible
      case isTrue =>
      obtain ⟨room, _, hboth⟩ := SurfaceM.bind_eq_ok hcompatible
      simp_all

theorem populate_zeta_size {c : SurfaceBinding}
    (h : populateSurfaceBindingTarget st false = .ok target) (hc : st.bound true = some c) :
    SameSize target c := by
  unfold populateSurfaceBindingTarget at h
  rw [hc] at h
  exact (populateSized_target h).2

theorem bindTarget_zeta (hvalid : st.Valid)
    (htarget : populateSurfaceBindingTarget st false = .ok target)
    (h : bindTarget st false memDirty target = .ok st') : Matched st' := by
  obtain ⟨_, s, hbinds⟩ := bindTarget_binds hvalid (populate_target htarget) h
  intro c z hc hz
  rw [hbinds.bound] at hz
  cases hz
  obtain ⟨c0, hstays, hsize⟩ := hbinds.only c hc
  refine hsize.trans ?_
  cases hbinds.size with
  | inr hmade => exact ((hmade.2).trans (populate_zeta_size htarget hstays.bound)).symm
  | inl hreused =>
    obtain ⟨t, hchosen, hsize'⟩ := hreused
    obtain ⟨ht, haddr⟩ := surfaceGet_eq_some (surfaceGet_of_chosen hchosen)
    have hbound : (unbindOther (unbindSurface st false) false t).bound true = some c0 :=
      (readied_bound_other hvalid ht false c0).mpr ⟨hstays.bound, haddr ▸ hstays.address⟩
    have hgoes := goesWithColor_of_chosen hchosen
    unfold goesWithColor at hgoes
    rw [hbound] at hgoes
    rw [Bool.and_eq_true, beq_iff_eq, beq_iff_eq] at hgoes
    exact (hsize'.trans hgoes).symm

def Sized (st : SurfaceState) (target : SurfaceBinding) : Prop :=
  ∀ z, Stays st true target z →
    (∀ c, chosen st true target = .ok (some c) → SameSize c z) ∧
      (chosen st true target = .ok none → SameSize target z)

theorem Binds.matched_iff (h : Binds st true target st' s) :
    Matched st' ↔ Sized st target := by
  constructor
  · intro hmatched z hstays
    obtain ⟨z', hz', hsize⟩ := h.stays z hstays
    have hs := (hmatched s z' h.bound hz').trans hsize
    cases h.size with
    | inl hreused =>
      obtain ⟨c, hchosen, hc⟩ := hreused
      refine ⟨fun c' hc' => ?_, fun hnone => ?_⟩
      · rw [hchosen] at hc'
        cases hc'
        exact hc.symm.trans hs
      simp_all
    | inr hmade =>
      refine ⟨fun c' hc' => ?_, fun _ => hmade.2.symm.trans hs⟩
      simp_all
  · intro hsized c z hc hz
    rw [h.bound] at hc
    cases hc
    obtain ⟨z0, hstays, hsize⟩ := h.only z hz
    obtain ⟨hreused, hmade⟩ := hsized z0 hstays
    refine SameSize.trans ?_ hsize.symm
    cases h.size with
    | inl hr =>
      obtain ⟨c, hchosen, hc⟩ := hr
      exact hc.trans (hreused c hchosen)
    | inr hm => exact hm.2.trans (hmade hm.1)

/-- One side of an update fits. -/
def PartFits (tcgEnabled : Bool) (st : SurfaceState) (upload color memDirty : Bool) : Prop :=
  ∀ target, populateSurfaceBindingTarget st color = .ok target →
    mustBind st upload color (!tcgEnabled && memDirty) = true →
      Clear st color target ∧ (upload = false → color = true → Sized st target)

variable {upload tcgEnabled : Bool}

theorem updateSurfacePart_sound (hvalid : st.Valid)
    (hfits : PartFits tcgEnabled st upload color memDirty) :
    Sound (updateSurfacePart tcgEnabled st upload color memDirty) := by
  refine (sound_populate st color).bind fun target htarget => ?_
  refine Sound.bind ?_ fun _ _ => .ok _
  rw [bindIfNeeded]
  split
  case isTrue hmust => exact bindTarget_sound hvalid (hfits target htarget hmust).1
  case isFalse => exact .ok _

theorem flushSurface_alike (tcgEnabled : Bool) (st : SurfaceState) (color : Bool) :
    Alike st (flushSurface tcgEnabled st color) := by
  unfold flushSurface
  split
  case h_1 s _ => exact downloadSurface_alike st s true
  case h_2 => exact .refl st

theorem updateSurfacePart_ok
    (h : updateSurfacePart tcgEnabled st upload color memDirty = .ok st') :
    ∃ target st1, populateSurfaceBindingTarget st color = .ok target ∧
      (mustBind st upload color (!tcgEnabled && memDirty) = false ∧ st1 = st ∨
        mustBind st upload color (!tcgEnabled && memDirty) = true ∧
          bindTarget st color (!tcgEnabled && memDirty) target = .ok st1) ∧
      st' = if !upload && (st1.surface color).drawDirty then flushSurface tcgEnabled st1 color
        else st1 := by
  obtain ⟨target, htarget, h⟩ := SurfaceM.bind_eq_ok h
  obtain ⟨st1, hbind, h⟩ := SurfaceM.bind_eq_ok h
  rw [bindIfNeeded] at hbind
  grind

theorem flushed_alike (tcgEnabled c : Bool) (st : SurfaceState) (color : Bool) :
    Alike st (if c then flushSurface tcgEnabled st color else st) := by
  split
  · exact flushSurface_alike tcgEnabled st color
  · exact .refl st

theorem updateSurfacePart_fits (hvalid : st.Valid)
    (h : updateSurfacePart tcgEnabled st upload color memDirty = .ok st')
    (hsized : ∀ target, mustBind st upload color (!tcgEnabled && memDirty) = true → upload = false →
      color = true → ∀ s st1, Binds st true target st1 s → Alike st1 st' → Sized st target) :
    PartFits tcgEnabled st upload color memDirty := by
  intro target htarget hmust
  obtain ⟨target', st1, htarget', hcase, rfl⟩ := updateSurfacePart_ok h
  rw [htarget] at htarget'
  cases htarget'
  cases hcase with
  | inl hskip =>
    simp_all
  | inr hbind =>
    obtain ⟨hclear, s, hbinds⟩ := bindTarget_binds hvalid (populate_target htarget) hbind.2
    refine ⟨hclear, fun hupload hcolor => ?_⟩
    subst hcolor
    exact hsized target hmust hupload rfl s st1 hbinds (flushed_alike tcgEnabled _ st1 true)

theorem unbindDirty_matched (hmatched : (st.surface false).bufferDirty = true ∨ Matched st)
    (color : Bool) (hcolor : color = true → Matched st) : Matched (unbindDirty st color) := by
  rw [unbindDirty]
  split
  case isTrue => exact matched_unbind st color
  case isFalse hclean =>
    cases color with
    | true => exact hcolor rfl
    | false => exact hmatched.resolve_left hclean

variable {write : Bool}

theorem uploadPart_color_matched (hvalid : st.Valid)
    (hmatched : Matched st) (h : uploadPart tcgEnabled st true write memDirty = .ok st') :
    (st'.surface false).bufferDirty = true ∨ Matched st' := by
  have hunbind : CacheSteps true st (unbindDirty st true) := unbindDirty_steps st true
  have hfirst := unbindDirty_matched (.inr hmatched) true fun _ => hmatched
  rw [uploadPart] at h
  split at h
  case isFalse =>
    cases h
    exact .inr hfirst
  case isTrue =>
  obtain ⟨target, st1, htarget, hcase, rfl⟩ := updateSurfacePart_ok h
  cases hcase with
  | inl hskip => exact .inr (hskip.2 ▸ hfirst)
  | inr hbind =>
    exact bindTarget_color (hunbind.valid hvalid) (populate_target htarget) hbind.2

theorem uploadPart_zeta_matched (hvalid : st.Valid)
    (hmatched : (st.surface false).bufferDirty = true ∨ Matched st)
    (h : uploadPart tcgEnabled st false write memDirty = .ok st') : Matched st' := by
  have hunbind : CacheSteps true st (unbindDirty st false) := unbindDirty_steps st false
  have hfirst := unbindDirty_matched hmatched false fun hfalse => by cases hfalse
  rw [uploadPart] at h
  split at h
  case isFalse =>
    cases h
    exact hfirst
  case isTrue =>
  obtain ⟨target, st1, htarget, hcase, rfl⟩ := updateSurfacePart_ok h
  cases hcase with
  | inl hskip => exact hskip.2 ▸ hfirst
  | inr hbind => exact bindTarget_zeta (hunbind.valid hvalid) htarget hbind.2

def UploadFits (tcgEnabled : Bool) (st : SurfaceState) (color write memDirty : Bool) : Prop :=
  write = true → PartFits tcgEnabled (unbindDirty st color) true color memDirty

theorem uploadPart_sound (hvalid : st.Valid)
    (hfits : UploadFits tcgEnabled st color write memDirty) :
    Sound (uploadPart tcgEnabled st color write memDirty) := by
  have hunbind : CacheSteps true st (unbindDirty st color) := unbindDirty_steps st color
  rw [uploadPart]
  split
  case isTrue hwrite => exact updateSurfacePart_sound (hunbind.valid hvalid) (hfits hwrite)
  case isFalse => exact .ok _

theorem uploadPart_fits (hvalid : st.Valid)
    (h : uploadPart tcgEnabled st color write memDirty = .ok st') :
    UploadFits tcgEnabled st color write memDirty := by
  intro hwrite
  have hunbind : CacheSteps true st (unbindDirty st color) := unbindDirty_steps st color
  rw [hwrite] at h
  exact updateSurfacePart_fits (hunbind.valid hvalid) h fun _ _ hupload => by cases hupload

/-! ### Without upload -/

def FlushFits (tcgEnabled : Bool) (st : SurfaceState) (color write memDirty : Bool) : Prop :=
  ((write || (st.surface color).writeEnabledCache) && (st.surface color).drawDirty) = true →
    PartFits tcgEnabled st false color memDirty

section

variable (hvalid : st.Valid)

include hvalid

theorem flushPart_sound (hfits : FlushFits tcgEnabled st color write memDirty) :
    Sound (flushPart tcgEnabled st color write memDirty) := by
  rw [flushPart]
  split
  case isTrue hflush => exact updateSurfacePart_sound hvalid (hfits hflush)
  case isFalse => exact .ok _

theorem flushPart_color_matched (hmatched : Matched st)
    (hfits : FlushFits tcgEnabled st true write memDirty)
    (h : flushPart tcgEnabled st true write memDirty = .ok st') : Matched st' := by
  rw [flushPart] at h
  split at h
  case isFalse =>
    cases h
    exact hmatched
  case isTrue hflush =>
  obtain ⟨target, st1, htarget, hcase, rfl⟩ := updateSurfacePart_ok h
  refine (flushed_alike tcgEnabled _ st1 true).matched ?_
  cases hcase with
  | inl hskip => exact hskip.2 ▸ hmatched
  | inr hbind =>
    obtain ⟨_, s, hbinds⟩ := bindTarget_binds hvalid (populate_target htarget) hbind.2
    exact hbinds.matched_iff.mpr ((hfits hflush target htarget hbind.1).2 rfl rfl)

theorem flushPart_color_fits (h : flushPart tcgEnabled st true write memDirty = .ok st')
    (hmatched : Matched st') :
    FlushFits tcgEnabled st true write memDirty := by
  intro hflush
  rw [flushPart, if_pos hflush] at h
  refine updateSurfacePart_fits hvalid h fun target _ _ _ s st1 hbinds halike => ?_
  exact hbinds.matched_iff.mp (halike.unmatched hmatched)

theorem flushPart_zeta_matched (h : flushPart tcgEnabled st false write memDirty = .ok st') :
    Matched st' ↔ Matched st := by
  rw [flushPart] at h
  split at h
  case isFalse =>
    cases h
    exact Iff.rfl
  case isTrue hflush =>
  obtain ⟨target, st1, htarget, hcase, rfl⟩ := updateSurfacePart_ok h
  have halike := flushed_alike tcgEnabled (!false && (st1.surface false).drawDirty) st1 false
  have hst1 : Matched st1 ↔ Matched st := by
    cases hcase with
    | inl hskip => rw [hskip.2]
    | inr hbind =>
      have hnone : st.binding false = none := by
        have hmust := hbind.1
        rw [mustBind, Bool.false_and, Bool.or_false] at hmust
        exact Option.isNone_iff_eq_none.mp hmust
      refine iff_of_true (bindTarget_zeta hvalid htarget hbind.2) fun c z _ hz => ?_
      rw [SurfaceState.bound, hnone] at hz
      cases hz
  exact ⟨fun hm => hst1.mp (halike.unmatched hm), fun hm => halike.matched (hst1.mpr hm)⟩

theorem flushPart_zeta_fits (h : flushPart tcgEnabled st false write memDirty = .ok st') :
    FlushFits tcgEnabled st false write memDirty := by
  intro hflush
  rw [flushPart, if_pos hflush] at h
  exact updateSurfacePart_fits hvalid h fun _ _ _ hcolor => by cases hcolor

end

def PartsFit (tcgEnabled : Bool) (st : SurfaceState) (upload : Bool)
    (write memDirty : Bool → Bool) :
    Prop :=
  if upload then
    UploadFits tcgEnabled (noteShape st) true (write true) (memDirty true) ∧
      ∀ st₁, uploadPart tcgEnabled (noteShape st) true (write true) (memDirty true) = .ok st₁ →
        UploadFits tcgEnabled st₁ false (write false) (memDirty false)
  else
    FlushFits tcgEnabled st true (write true) (memDirty true) ∧
      ∀ st₁, flushPart tcgEnabled st true (write true) (memDirty true) = .ok st₁ →
        FlushFits tcgEnabled st₁ false (write false) (memDirty false)

theorem noteShape_matched (hmatched : Matched st) : Matched (noteShape st) := by
  rw [noteShape]
  split
  · exact hmatched
  · exact hmatched

theorem updateParts_sound {write memDirty : Bool → Bool}
    (hvalid : st.Valid) (hfits : PartsFit tcgEnabled st upload write memDirty) :
    Sound (updateParts tcgEnabled st upload write memDirty) := by
  have hnote : CacheSteps true st (noteShape st) := noteShape_steps st
  rw [PartsFit] at hfits
  rw [updateParts]
  split
  case isTrue hupload =>
    rw [if_pos hupload] at hfits
    refine (uploadPart_sound (hnote.valid hvalid) hfits.1).bind fun st1 hst1 => ?_
    have hsteps : CacheSteps true (noteShape st) st1 := uploadPart_steps (hnote.valid hvalid) hst1
    exact uploadPart_sound (hsteps.valid (hnote.valid hvalid)) (hfits.2 st1 hst1)
  case isFalse hupload =>
    rw [if_neg hupload] at hfits
    refine (flushPart_sound hvalid hfits.1).bind fun st1 hst1 => ?_
    have hsteps : CacheSteps true st st1 := flushPart_steps hvalid hst1
    exact flushPart_sound (hsteps.valid hvalid) (hfits.2 st1 hst1)

theorem updateParts_matched {write memDirty : Bool → Bool}
    (hvalid : st.Valid) (hmatched : Matched st)
    (h : updateParts tcgEnabled st upload write memDirty = .ok st') :
    Matched st' ↔ PartsFit tcgEnabled st upload write memDirty := by
  have hnote : CacheSteps true st (noteShape st) := noteShape_steps st
  rw [PartsFit]
  rw [updateParts] at h
  split
  case isTrue hupload =>
    rw [if_pos hupload] at h
    obtain ⟨st1, hcolor, hzeta⟩ := SurfaceM.bind_eq_ok h
    have hsteps : CacheSteps true (noteShape st) st1 := uploadPart_steps (hnote.valid hvalid) hcolor
    have hvalid1 := hsteps.valid (hnote.valid hvalid)
    refine iff_of_true ?_ ⟨uploadPart_fits (hnote.valid hvalid) hcolor, fun st2 hst2 => ?_⟩
    · exact uploadPart_zeta_matched hvalid1 (uploadPart_color_matched (hnote.valid hvalid)
        (noteShape_matched hmatched) hcolor) hzeta
    grind [uploadPart_fits]
  case isFalse hupload =>
    rw [if_neg hupload] at h
    obtain ⟨st1, hcolor, hzeta⟩ := SurfaceM.bind_eq_ok h
    have hsteps : CacheSteps true st st1 := flushPart_steps hvalid hcolor
    have hvalid1 := hsteps.valid hvalid
    grind [flushPart_zeta_matched, flushPart_color_fits, flushPart_zeta_fits,
      flushPart_color_matched]

/-! ### The whole update -/

def Fresh (st : SurfaceState) (color : Bool) : Prop :=
  ∀ s, st.bound color = some s → s.frameTime = st.frameTime

theorem onSurface_bound (st : SurfaceState) (id : Nat)
    (hf : Keeps f) (color : Bool) :
    (st.onSurface id f).bound color = (st.bound color).map fun s => if s.id = id then f s else s :=
  bound_map (keeps_if id hf) color st.transfers

theorem Fresh.onSurface (h : Fresh st color) (id : Nat) (hf : Keeps f)
    (htime : ∀ s, (f s).frameTime = s.frameTime ∨ (f s).frameTime = st.frameTime) :
    Fresh (st.onSurface id f) color := by
  intro s hs
  rw [onSurface_bound st id hf] at hs
  obtain ⟨t, ht, rfl⟩ := Option.map_eq_some_iff.mp hs
  split
  case isTrue =>
    cases htime t with
    | inl hkept => exact hkept.trans (h t ht)
    | inr hset => exact hset
  case isFalse => exact h t ht

theorem uploadSurfaceData_bound (st : SurfaceState) (s : SurfaceBinding) :
    Alike st (uploadSurfaceData st s) ∧
      ∀ color, Fresh st color → Fresh (uploadSurfaceData st s) color := by
  have hkeeps : Keeps fun s : SurfaceBinding => { s with uploadPending := false } :=
    ⟨fun _ => rfl, fun _ => rfl, fun _ => rfl, fun _ => rfl, fun _ => rfl⟩
  rw [uploadSurfaceData]
  split
  case isTrue =>
    exact ⟨onSurface_alike st s.id hkeeps, fun color hfresh =>
      hfresh.onSurface s.id hkeeps fun _ => .inl rfl⟩
  case isFalse => exact ⟨.refl st, fun _ hfresh => hfresh⟩

theorem touchBound_bound (st : SurfaceState) (upload color : Bool) :
    Alike st (touchBound st upload color) ∧ Fresh (touchBound st upload color) color ∧
      ∀ c, Fresh st c → Fresh (touchBound st upload color) c := by
  unfold touchBound
  cases hbound : st.bound color with
  | none =>
    refine ⟨.refl st, fun s hs => ?_, fun _ hfresh => hfresh⟩
    rw [hbound] at hs
    cases hs
  | some s =>
    have htouch := (touched_marks st.frameTime).keeps
    have hfresh :
        Fresh (st.onSurface s.id fun s => { s with frameTime := st.frameTime }) color := by
      intro t ht
      rw [onSurface_bound st s.id htouch, hbound] at ht
      cases ht
      exact congrArg SurfaceBinding.frameTime (if_pos rfl)
    have hothers (c : Bool) (hc : Fresh st c) :
        Fresh (st.onSurface s.id fun s => { s with frameTime := st.frameTime }) c :=
      hc.onSurface s.id htouch fun _ => .inr rfl
    have halike := onSurface_alike st s.id htouch
    have hswizzle (b : Bool) : Keeps fun s : SurfaceBinding => { s with swizzle := b } :=
      ⟨fun _ => rfl, fun _ => rfl, fun _ => rfl, fun _ => rfl, fun _ => rfl⟩
    dsimp only
    split
    case isTrue =>
      obtain ⟨hup, hupFresh⟩ := uploadSurfaceData_bound
        (st.onSurface s.id fun s => { s with frameTime := st.frameTime }) s
      have hlast (c : Bool) (hc : Fresh _ c) := (hupFresh c hc).onSurface s.id
        (hswizzle (st.surfaceType = surfaceTypeSwizzle)) fun _ => .inl rfl
      exact ⟨halike.trans (hup.trans (onSurface_alike _ _ (hswizzle _))), hlast color hfresh,
        fun c hc => hlast c (hothers c hc)⟩
    case isFalse => exact ⟨halike, hfresh, hothers⟩

theorem touchBound_both (hvalid : st.Valid) (upload : Bool) :
    Alike st (touchBound (touchBound st upload true) upload false) ∧
      (touchBound (touchBound st upload true) upload false).Valid ∧
      ∀ color, Fresh (touchBound (touchBound st upload true) upload false) color := by
  obtain ⟨hcolor, hfreshColor, _⟩ := touchBound_bound st upload true
  obtain ⟨hzeta, hfreshZeta, hkept⟩ := touchBound_bound (touchBound st upload true) upload false
  refine ⟨hcolor.trans hzeta, ?_, fun color => ?_⟩
  · exact (touchBound_steps _ upload false).valid ((touchBound_steps st upload true).valid hvalid)
  · cases color with
    | true => exact hkept true hfreshColor
    | false => exact hfreshZeta

theorem expireOldSurfaces_ok (hvalid : st.Valid) (hfresh : ∀ color, Fresh st color) :
    ∃ p, expireOldSurfaces st = .ok (evictedWhere p st) := by
  refine ⟨_, evictWhere_ok _ hvalid fun s hs hold color hbound => ?_⟩
  have htime := hfresh color s ((bound_eq_some_iff hvalid).mpr ⟨hs, hbound⟩)
  have hdelta := of_decide_eq_true hold
  rw [htime, sub_self] at hdelta
  exact absurd hdelta (by decide)

theorem evictedWhere_matched (p : SurfaceBinding → Bool) (hvalid : st.Valid)
    (hmatched : Matched st) :
    Matched (evictedWhere p st) := by
  have hvalid' : (evictedWhere p st).Valid :=
    (evictedWhere_steps p true hvalid : CacheSteps true st _).valid hvalid
  have hkept (color : Bool) (s : SurfaceBinding) (hs : (evictedWhere p st).bound color = some s) :
      st.bound color = some s := by
    obtain ⟨hmem, hbinding⟩ := (bound_eq_some_iff hvalid').mp hs
    rw [evictedWhere_surfaces p hvalid] at hmem
    rw [evictedWhere_binding] at hbinding
    split at hbinding
    · cases hbinding
    · exact (bound_eq_some_iff hvalid).mpr ⟨(List.mem_filter.mp hmem).1, hbinding⟩
  exact fun c z hc hz => hmatched c z (hkept true c hc) (hkept false z hz)

def withZFormat (st : SurfaceState) : SurfaceState :=
  { st with surfaceShape := { st.surfaceShape with zFormat := st.setupRasterZFormat } }

def UpdateFits (tcgEnabled : Bool) (st : SurfaceState) (upload : Bool)
    (requested memDirty : Bool → Bool) : Prop :=
  PartsFit tcgEnabled (withZFormat st) upload (writes st requested) memDirty

theorem surfaceUpdate_sound {requested memDirty : Bool → Bool}
    (hvalid : st.Valid) (hmatched : Matched st)
    (hfits : UpdateFits tcgEnabled st upload requested memDirty) :
    Sound (surfaceUpdate tcgEnabled st upload requested memDirty) := by
  have hprogram : CacheSteps (!upload) st (withZFormat st) := .single (.program st _)
  have hvalid0 := hprogram.valid hvalid
  refine (updateParts_sound hvalid0 hfits).bind fun st1 hparts => ?_
  have hsteps : CacheSteps (!upload) (withZFormat st) st1 := updateParts_steps hvalid0 hparts
  obtain ⟨halike, hvalid2, hfresh⟩ := touchBound_both (hsteps.valid hvalid0) upload
  have hmatched1 : Matched st1 := (updateParts_matched hvalid0 hmatched hparts).mpr hfits
  have hmatch := (dimensionsMatch_iff _).mpr (halike.matched hmatched1)
  refine Sound.bind ?_ fun _ _ => ?_
  · rw [hmatch]
    exact .ok ()
  · obtain ⟨p, hexpire⟩ := expireOldSurfaces_ok hvalid2 hfresh
    rw [hexpire]
    exact .ok _

theorem surfaceUpdate_matched {requested memDirty : Bool → Bool}
    (hvalid : st.Valid) (hmatched : Matched st)
    (h : surfaceUpdate tcgEnabled st upload requested memDirty = .ok st') :
    UpdateFits tcgEnabled st upload requested memDirty ∧ Matched st' := by
  have hprogram : CacheSteps (!upload) st (withZFormat st) := .single (.program st _)
  have hvalid0 := hprogram.valid hvalid
  obtain ⟨st1, hparts, h⟩ := SurfaceM.bind_eq_ok h
  obtain ⟨_, hassert, h⟩ := SurfaceM.bind_eq_ok h
  have hsteps : CacheSteps (!upload) (withZFormat st) st1 := updateParts_steps hvalid0 hparts
  obtain ⟨halike, hvalid2, hfresh⟩ := touchBound_both (hsteps.valid hvalid0) upload
  have hmatch : Matched (touchBound (touchBound st1 upload true) upload false) := by
    rw [← dimensionsMatch_iff]
    by_contra hdiffer
    rw [Bool.eq_false_of_not_eq_true hdiffer] at hassert
    cases hassert
  constructor
  · exact (updateParts_matched hvalid0 hmatched hparts).mp (halike.unmatched hmatch)
  grind [expireOldSurfaces_ok, evictedWhere_matched]

/-! ## Events -/

def SurfaceEvent.Fits (tcgEnabled : Bool) (st : SurfaceState) (memDirty : Bool → Bool) :
    SurfaceEvent → Prop
  | .surfaceUpdate upload requested => UpdateFits tcgEnabled st upload requested memDirty
  | .clearSurface written =>
    UpdateFits tcgEnabled { st with clearing := true } true written memDirty
  | event => event.flushes = true → UpdateFits tcgEnabled st false (fun _ => true) memDirty

theorem clearSurface_sound {written memDirty : Bool → Bool} (hvalid : st.Valid)
    (hmatched : Matched st)
    (hfits : UpdateFits tcgEnabled { st with clearing := true } true written memDirty) :
    Sound (clearSurface tcgEnabled st written memDirty) := by
  have hclearing : CacheSteps false st { st with clearing := true } := .single (.program st _)
  exact (surfaceUpdate_sound (hclearing.valid hvalid) hmatched hfits).bind fun _ _ => .ok _

theorem surfaceFlush_ok (hvalid : st.Valid) :
    ∃ st', surfaceFlush st = .ok st' ∧ ∀ color, st'.binding color = none := by
  have hunbound (st0 : SurfaceState) (color : Bool) :
      (unbindSurface (unbindSurface st0 true) false).binding color = none := by
    cases color with
    | true => exact (unbindSurface_binding_other _ false).trans (unbindSurface_binding st0 true)
    | false => exact unbindSurface_binding _ false
  have hsteps (st0 : SurfaceState) :
      CacheSteps true st0 (unbindSurface (unbindSurface st0 true) false) :=
    .tail (.single (.unbind st0 true)) (.unbind _ false)
  refine ⟨_, evictWhere_ok _ ((hsteps _).valid hvalid) fun s _ _ color hbound => ?_,
    fun color => ?_⟩
  · rw [hunbound _ color] at hbound
    cases hbound
  · rw [evictedWhere_binding, hunbound _ color, ite_self]

theorem matched_of_unbound (h : st.binding true = none) : Matched st := by
  intro c z hc _
  rw [SurfaceState.bound, h] at hc
  cases hc

theorem setSurfaceDirty_alike (st : SurfaceState) (drawn : Bool → Bool) :
    Alike st (setSurfaceDirty st drawn) := by
  have hdraw (st : SurfaceState) (color drawn : Bool) : Alike st (drawnSide st color drawn) := by
    unfold drawnSide
    cases (markedDrawn st color drawn).binding color with
    | none => exact Alike.refl st
    | some id =>
      exact onSurface_alike (markedDrawn st color drawn) id (drawn_keeps drawn st.frameTime)
  rw [setSurfaceDirty_eq]
  exact (hdraw st true _).trans (hdraw _ false _)

theorem surfaceAccess_alike (st : SurfaceState) (addr len : Nat) (write : Bool) :
    Alike st (surfaceAccess st addr len write) := by
  refine ⟨_, ?_, fun color => bound_map ?_ color st.transfers⟩
  all_goals
    constructor
    all_goals
      intro s
      split
      · rfl
      · rfl

theorem processPendingDownloads_alike (st : SurfaceState) :
    Alike st (processPendingDownloads st) := by
  have hfold (l : List SurfaceBinding) (st : SurfaceState) :
      Alike st (l.foldl (fun st s => downloadSurface st s false) st) := by
    induction l generalizing st with
    | nil => exact .refl st
    | cons s l ih => exact (downloadSurface_alike st s false).trans (ih _)
  exact hfold st.surfaces st

theorem program_bound (event : SurfaceEvent) (st : SurfaceState) (color : Bool) :
    (event.program st).bound color = st.bound color := by
  cases event with
  | setSurfaceFormat parameter =>
    change (Vk.setSurfaceFormat st parameter).bound color = _
    rw [Vk.setSurfaceFormat]
    split
    · rfl
    · rfl
  | _ => rfl

theorem flushFirst_sound {flushes : Bool} {memDirty : Bool → Bool} (hvalid : st.Valid)
    (hmatched : Matched st)
    (hfits : flushes = true → UpdateFits tcgEnabled st false (fun _ => true) memDirty) :
    Sound (flushFirst tcgEnabled st flushes memDirty) := by
  rw [flushFirst]
  split
  case isTrue hflushes => exact surfaceUpdate_sound hvalid hmatched (hfits hflushes)
  case isFalse => exact .ok st

theorem flushFirst_matched {flushes : Bool} {memDirty : Bool → Bool} (hvalid : st.Valid)
    (hmatched : Matched st) (h : flushFirst tcgEnabled st flushes memDirty = .ok st') :
    (flushes = true → UpdateFits tcgEnabled st false (fun _ => true) memDirty) ∧ Matched st' := by
  rw [flushFirst] at h
  split at h
  case isTrue =>
    obtain ⟨hfits, hmatched'⟩ := surfaceUpdate_matched hvalid hmatched h
    exact ⟨fun _ => hfits, hmatched'⟩
  simp_all

variable {event : SurfaceEvent}

theorem SurfaceEvent.step_sound {memDirty : Bool → Bool}
    (hvalid : st.Valid) (hmatched : Matched st) (hfits : event.Fits tcgEnabled st memDirty) :
    Sound (event.step tcgEnabled st memDirty) := by
  have hmethod
      (hflush : event.flushes = true → UpdateFits tcgEnabled st false (fun _ => true) memDirty) :
      Sound (do
        let st ← flushFirst tcgEnabled st event.flushes memDirty
        .ok (event.program st)) :=
    (flushFirst_sound hvalid hmatched hflush).bind fun _ _ => .ok _
  cases event with
  | surfaceUpdate upload requested => exact surfaceUpdate_sound hvalid hmatched hfits
  | clearSurface written => exact clearSurface_sound hvalid hmatched hfits
  | setSurfaceDirty drawn => exact .ok _
  | surfaceFlush =>
    obtain ⟨st', hflush, _⟩ := surfaceFlush_ok hvalid
    change Sound (Vk.surfaceFlush st)
    rw [hflush]
    exact .ok st'
  | surfaceAccess addr len write | processPendingDownloads => exact .ok _
  | _ => exact hmethod hfits

theorem SurfaceEvent.step_matched {memDirty : Bool → Bool}
    (hvalid : st.Valid) (hmatched : Matched st) (h : event.step tcgEnabled st memDirty = .ok st') :
    event.Fits tcgEnabled st memDirty ∧ Matched st' := by
  have hmethod (hstep : (do
      let st ← flushFirst tcgEnabled st event.flushes memDirty
      .ok (event.program st)) = (.ok st' : SurfaceM SurfaceState)) :
      (event.flushes = true → UpdateFits tcgEnabled st false (fun _ => true) memDirty) ∧
        Matched st' := by
    obtain ⟨st1, hflush, hprogram⟩ := SurfaceM.bind_eq_ok hstep
    cases hprogram
    obtain ⟨hfits, hmatched1⟩ := flushFirst_matched hvalid hmatched hflush
    refine ⟨hfits, fun c z hc hz => hmatched1 c z ?_ ?_⟩
    · rwa [program_bound] at hc
    · rwa [program_bound] at hz
  cases event with
  | surfaceUpdate upload requested => exact surfaceUpdate_matched hvalid hmatched h
  | clearSurface written =>
    obtain ⟨st1, hupdate, h⟩ := SurfaceM.bind_eq_ok h
    cases h
    have hclearing : CacheSteps false st { st with clearing := true } := .single (.program st _)
    obtain ⟨hfits, hmatched1⟩ := surfaceUpdate_matched (hclearing.valid hvalid) hmatched hupdate
    refine ⟨hfits, ?_⟩
    split
    · exact hmatched1
    · exact (setSurfaceDirty_alike { st1 with clearing := false } written).matched hmatched1
  | setSurfaceDirty drawn =>
    cases h
    exact ⟨(fun hflush => by cases hflush), (setSurfaceDirty_alike st drawn).matched hmatched⟩
  | surfaceFlush =>
    obtain ⟨st1, hflush, hunbound⟩ := surfaceFlush_ok hvalid
    change Vk.surfaceFlush st = .ok st' at h
    rw [hflush] at h
    cases h
    exact ⟨(fun hflush => by cases hflush), matched_of_unbound (hunbound true)⟩
  | surfaceAccess addr len write =>
    cases h
    exact ⟨(fun hflush => by cases hflush),
      (surfaceAccess_alike st addr len write).matched hmatched⟩
  | processPendingDownloads =>
    cases h
    exact ⟨(fun hflush => by cases hflush), (processPendingDownloads_alike st).matched hmatched⟩
  | _ => exact hmethod h

/-! ## Runs -/

def Meets (tcgEnabled : Bool) : SurfaceState → List (SurfaceEvent × (Bool → Bool)) → Prop
  | _, [] => True
  | st, e :: events => e.1.Fits tcgEnabled st e.2 ∧
      ∀ st', e.1.step tcgEnabled st e.2 = .ok st' → Meets tcgEnabled st' events

variable {events : List (SurfaceEvent × (Bool → Bool))}

theorem runSurfaces_sound
    (hvalid : st.Valid) (hmatched : Matched st) (hmeets : Meets tcgEnabled st events) :
    Sound (runSurfaces tcgEnabled st events) := by
  induction events generalizing st with
  | nil => exact .ok st
  | cons e events ih =>
    refine (SurfaceEvent.step_sound hvalid hmatched hmeets.1).bind fun st1 hstep => ?_
    exact ih ((SurfaceEvent.step_steps hvalid hstep).valid hvalid)
      (SurfaceEvent.step_matched hvalid hmatched hstep).2 (hmeets.2 st1 hstep)

theorem runSurfaces_matched
    (hvalid : st.Valid) (hmatched : Matched st) (h : runSurfaces tcgEnabled st events = .ok st') :
    Meets tcgEnabled st events ∧ Matched st' := by
  induction events generalizing st with
  | nil =>
    cases h
    exact ⟨trivial, hmatched⟩
  | cons e events ih =>
    obtain ⟨st1, hstep, hrest⟩ := SurfaceM.bind_eq_ok h
    obtain ⟨hfits, hmatched1⟩ := SurfaceEvent.step_matched hvalid hmatched hstep
    obtain ⟨hmeets, hmatched'⟩ :=
      ih ((SurfaceEvent.step_steps hvalid hstep).valid hvalid) hmatched1 hrest
    refine ⟨⟨hfits, fun st2 hst2 => ?_⟩, hmatched'⟩
    simp_all

end

/-- A run that the renderer supports gets through, with a bound colour and a bound zeta surface of
the same size, just when whatever its updates have to bind fits. -/
theorem surfaceSizes_agree_iff (tcgEnabled : Bool) (regs : SurfaceRegs)
    (events : List (SurfaceEvent × (Bool → Bool)))
    (hsupported : runSurfaces tcgEnabled regs.start events ≠ .error .unsupported) :
    (∃ st, runSurfaces tcgEnabled regs.start events = .ok st ∧
        ∀ c z, st.bound true = some c → st.bound false = some z →
          c.width = z.width ∧ c.height = z.height) ↔
      Meets tcgEnabled regs.start events := by
  have hmatched : Matched regs.start := matched_of_unbound rfl
  constructor
  · rintro ⟨st, hrun, _⟩
    exact (runSurfaces_matched regs.start_valid hmatched hrun).1
  · intro hmeets
    have hsound := runSurfaces_sound regs.start_valid hmatched hmeets
    cases hrun : runSurfaces tcgEnabled regs.start events with
    | error fault => exact absurd (hrun.trans (hsound fault hrun ▸ rfl)) hsupported
    | ok st => exact ⟨st, rfl, (runSurfaces_matched regs.start_valid hmatched hrun).2⟩

/-- Registers for a colour buffer of 64 by 16 pixels at the beginning of VRAM with a zeta buffer apart
from it. -/
def bothBuffers : SurfaceRegs :=
  { colorBuffer 64 with
    surface := fun color => ⟨false, false, false, 256, if color then 0 else 0x10000⟩
    writeEnabled := fun _ => true }

def drawBoth : List (SurfaceEvent × (Bool → Bool)) :=
  [(.surfaceUpdate true fun _ => true, fun _ => false),
    (.setSurfaceDirty fun _ => true, fun _ => false)]

def moveZeta (offset : Nat) : List (SurfaceEvent × (Bool → Bool)) :=
  drawBoth ++ (.setSurfaceZetaOffset offset, fun _ => false) :: drawBoth

/-- Colour writes are switched off in the register itself while a draw is still to be flushed, and on
again after the colour buffer was moved and the clip rectangle made smaller. -/
def lateColor : List (SurfaceEvent × (Bool → Bool)) :=
  drawBoth ++
    [(.writeControl0 (!·), fun _ => false), (.setSurfaceColorOffset 0x20000, fun _ => false)] ++
    drawBoth ++ [(.setSurfaceClipHorizontal (32 * 2 ^ 16), fun _ => false),
      (.writeControl0 fun _ => true, fun _ => false), (.waitForIdle, fun _ => false)]

theorem surfaceSizes_agree_moved :
    runSurfaces true bothBuffers.start (moveZeta 0x30000) ≠ .error .unsupported ∧
      Meets true bothBuffers.start (moveZeta 0x30000) := by
  have hrun : ∃ st, runSurfaces true bothBuffers.start (moveZeta 0x30000) = .ok st ∧
      dimensionsMatch st = true := ⟨_, rfl, rfl⟩
  obtain ⟨st, hrun, hmatch⟩ := hrun
  have hsupported : runSurfaces true bothBuffers.start (moveZeta 0x30000) ≠
      .error .unsupported := by
    simp [hrun]
  exact ⟨hsupported, (surfaceSizes_agree_iff true bothBuffers (moveZeta 0x30000) hsupported).mp
    ⟨st, hrun, (dimensionsMatch_iff st).mp hmatch⟩⟩

/-- A zeta buffer that overlaps the colour buffer takes the bound colour surface away, and a flush
binds a colour surface that is smaller than the zeta surface. -/
theorem surfaceSizes_part :
    runSurfaces true bothBuffers.start (moveZeta 64) = .error .boundInvalidated ∧
      runSurfaces true bothBuffers.start lateColor = .error .dimensionsDiffer :=
  ⟨rfl, rfl⟩

end DukeX.Nv2a.Vk
