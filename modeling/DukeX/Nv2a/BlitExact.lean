import DukeX.Nv2a.Blit

/-!
# When an image blit is exact

Everything a blit does moves bytes about, so a byte of the guest's view has an *origin*: VRAM as it
was, or the image of a surface.
-/

namespace DukeX.Nv2a.Vk

open DukeX.Lib
open Option (getD_none none_or some_or)

/-! ## Origins -/

/-- The byte at an address that VRAM (`none`) or the image of a surface holds. -/
def Contents.value (c : Contents) : Option Nat → Nat → UInt8
  | none, a => c.vram a
  | some id, a => c.image id a

def Contents.spot (o : Option Nat) (a : Nat) : Contents where
  vram x := if o = none ∧ x = a then 1 else 0
  image id x := if o = some id ∧ x = a then 1 else 0
  dirty _ := false

theorem Contents.value_spot (o : Option Nat) (a : Nat) : (Contents.spot o a).value o a = 1 := by
  cases o with
  | none | some id => exact if_pos ⟨rfl, rfl⟩

variable {a : Nat}

theorem Contents.value_spot_ne {o o' : Option Nat} {a' : Nat} (h : o' ≠ o ∨ a' ≠ a) :
    (Contents.spot o a).value o' a' = 0 := by
  cases o' with
  | none => exact if_neg fun heq => h.elim (fun hne => hne heq.1.symm) fun hne => hne heq.2
  | some id => exact if_neg fun heq => h.elim (fun hne => hne heq.1.symm) fun hne => hne heq.2

def landed (log : List Transfer) (a : Nat) : Option Nat :=
  log.foldl (fun o t =>
    match t with
    | .download s => if s.covers a then some s.id else o
    | .upload _ => o) none

def Downloads (log : List Transfer) : Prop := ∀ t ∈ log, ∃ s, t = .download s

def marks (log : List Transfer) (page : Nat) : Prop :=
  ∃ s, .download s ∈ log ∧ inDirtyRange s.vramAddr (s.pitch * s.height % 2 ^ 32) page = true

theorem landed_concat (log : List Transfer) (s : SurfaceBinding) (a : Nat) :
    landed (log ++ [.download s]) a = if s.covers a then some s.id else landed log a := by
  rw [landed, List.foldl_append]
  rfl

variable {log : List Transfer}

theorem landed_eq_some (hlog : Downloads log) {id : Nat}
    (h : landed log a = some id) : ∃ s, .download s ∈ log ∧ s.id = id ∧ s.covers a = true := by
  induction log using List.reverseRecOn with
  | nil => cases h
  | append_singleton log t ih =>
    obtain ⟨s, rfl⟩ := hlog t (List.mem_append_right log List.mem_cons_self)
    rw [landed_concat] at h
    split at h
    case isTrue hcovers =>
      simp_all
    case isFalse =>
      obtain ⟨s', hs', heq⟩ := ih (fun t ht => hlog t (List.mem_append_left _ ht)) h
      exact ⟨s', List.mem_append_left _ hs', heq⟩

variable {s : SurfaceBinding}

theorem landed_ne_none (hlog : Downloads log)
    (hs : .download s ∈ log) (hcovers : s.covers a = true) : landed log a ≠ none := by
  induction log using List.reverseRecOn with
  | nil => cases hs
  | append_singleton log t ih =>
    obtain ⟨s', rfl⟩ := hlog t (List.mem_append_right log List.mem_cons_self)
    rw [landed_concat]
    split
    case isTrue => exact Option.some_ne_none _
    case isFalse hnot =>
      apply ih fun t ht => hlog t (List.mem_append_left _ ht)
      grind

theorem foldl_transfer (hlog : Downloads log) (c : Contents) :
    (∀ a, (log.foldl Contents.transfer c).vram a = c.value (landed log a) a) ∧
      (log.foldl Contents.transfer c).image = c.image ∧
      ∀ page, (log.foldl Contents.transfer c).dirty page = true ↔ c.dirty page = true ∨
        marks log page := by
  induction log using List.reverseRecOn with
  | nil =>
    refine ⟨fun _ => rfl, rfl, fun page => ⟨.inl, fun h => h.elim id fun ⟨_, hs, _⟩ => by cases hs⟩⟩
  | append_singleton log t ih =>
    obtain ⟨s, rfl⟩ := hlog t (List.mem_append_right log List.mem_cons_self)
    obtain ⟨hvram, himage, hdirty⟩ := ih fun t ht => hlog t (List.mem_append_left _ ht)
    rw [List.foldl_append, List.foldl_cons, List.foldl_nil]
    refine ⟨fun a => ?_, himage, fun page => ?_⟩
    · rw [landed_concat]
      change (if s.covers a then (log.foldl Contents.transfer c).image s.id a
        else (log.foldl Contents.transfer c).vram a) = _
      rw [himage, hvram]
      split
      · rfl
      · rfl
    · change ((log.foldl Contents.transfer c).dirty page ||
        inDirtyRange s.vramAddr (s.pitch * s.height % 2 ^ 32) page) = true ↔ _
      rw [Bool.or_eq_true, hdirty, or_assoc]
      refine or_congr_right ⟨fun h => ?_, fun ⟨s', hs', hrange⟩ => ?_⟩
      · cases h with
        | inl hbefore =>
          obtain ⟨s', hs', hrange⟩ := hbefore
          exact ⟨s', List.mem_append_left _ hs', hrange⟩
        | inr hnow => exact ⟨s, List.mem_append_right log List.mem_cons_self, hnow⟩
      · cases List.mem_append.mp hs' with
        | inl hmem => exact .inl ⟨s', hmem, hrange⟩
        | inr hlast =>
          simp_all

def dirtyOver (st : SurfaceState) (a : Nat) : Option Nat :=
  (st.surfaces.find? fun s => s.drawDirty && s.covers a).map SurfaceBinding.id

theorem guestView_eq (st : SurfaceState) (c : Contents) (a : Nat) :
    guestView st c a = c.value (dirtyOver st a) a := by
  rw [guestView, dirtyOver]
  cases st.surfaces.find? fun s => s.drawDirty && s.covers a with
  | none | some s => rfl

theorem covers_occupies (h : s.covers a = true) : s.Occupies a := by
  rw [SurfaceBinding.covers, Bool.and_eq_true, Bool.and_eq_true] at h
  exact ⟨of_decide_eq_true h.1.1, of_decide_eq_true h.1.2⟩

variable {st : SurfaceState}

theorem eq_of_covers (hvalid : st.Valid) {t : SurfaceBinding}
    (hs : s ∈ st.surfaces) (ht : t ∈ st.surfaces) (hsa : s.covers a = true)
    (hta : t.covers a = true) : s = t := by
  by_contra hne
  have hsymm : Std.Symm fun s t : SurfaceBinding => checkSurfacesOverlap s t = false :=
    ⟨fun s t h => (checkSurfacesOverlap_comm t s).trans h⟩
  have hapart := hvalid.apart.forall hs ht hne
  exact not_occupies_both hapart a ⟨covers_occupies hsa, covers_occupies hta⟩

theorem dirtyOver_eq_some (hvalid : st.Valid)
    (hs : s ∈ st.surfaces) (hdirty : s.drawDirty = true) (hcovers : s.covers a = true) :
    dirtyOver st a = some s.id := by
  rw [dirtyOver]
  cases hfind : st.surfaces.find? fun s => s.drawDirty && s.covers a with
  | none =>
    simp_all
  | some t =>
    have ht := List.find?_some hfind
    rw [Bool.and_eq_true] at ht
    rw [eq_of_covers hvalid hs (List.mem_of_find?_eq_some hfind) hcovers ht.2]
    rfl

theorem of_dirtyOver {id : Nat} (h : dirtyOver st a = some id) :
    ∃ s ∈ st.surfaces, s.drawDirty = true ∧ s.covers a = true ∧ s.id = id := by
  obtain ⟨s, hfind, hid⟩ := Option.map_eq_some_iff.mp h
  grind

/-- The log only grows, by downloads, and a surface that is still dirty was so before and has not been
downloaded. -/
structure Settles (st st' : SurfaceState) : Prop where
  log : ∃ l, st'.transfers = st.transfers ++ l ∧ Downloads l
  dirty : ∀ s' ∈ st'.surfaces, s'.drawDirty = true →
    (∃ s ∈ st.surfaces, s.drawDirty = true ∧ s.id = s'.id ∧ s.covers = s'.covers) ∧
      ∀ s, .download s ∈ transfersSince st st' → s.id ≠ s'.id

theorem transfersSince_eq {st' : SurfaceState} {l : List Transfer}
    (h : st'.transfers = st.transfers ++ l) : transfersSince st st' = l := by
  rw [transfersSince, h, List.drop_left]

theorem transfersSince_congr {st' st'' : SurfaceState} (h : st''.transfers = st'.transfers) :
    transfersSince st st'' = transfersSince st st' := by
  rw [transfersSince, h, transfersSince]

theorem Settles.refl (st : SurfaceState) : Settles st st where
  log := ⟨[], (List.append_nil _).symm, fun _ ht => by cases ht⟩
  dirty s' hs' hdirty := by
    refine ⟨⟨s', hs', hdirty, rfl, rfl⟩, fun s hs => ?_⟩
    rw [transfersSince_eq (List.append_nil _).symm] at hs
    cases hs

theorem Settles.downloads {st' : SurfaceState} (h : Settles st st') :
    Downloads (transfersSince st st') := by
  obtain ⟨l, hl, hdownloads⟩ := h.log
  rwa [transfersSince_eq hl]

section

variable {st st₁ st₂ : SurfaceState}

theorem Settles.quietly (h : Settles st st₁) (htransfers : st₂.transfers = st₁.transfers)
    (hsurfaces : ∀ s2 ∈ st₂.surfaces, s2.drawDirty = true →
      ∃ s1 ∈ st₁.surfaces, s1.drawDirty = true ∧ s1.id = s2.id ∧ s1.covers = s2.covers) :
    Settles st st₂ where
  log := by
    obtain ⟨l, hl, hdownloads⟩ := h.log
    exact ⟨l, htransfers.trans hl, hdownloads⟩
  dirty s2 hs2 hdirty := by
    obtain ⟨s1, hs1, hdirty1, hid, hcovers⟩ := hsurfaces s2 hs2 hdirty
    obtain ⟨⟨s, hs, hdirty, hid', hcovers'⟩, hnot⟩ := h.dirty s1 hs1 hdirty1
    rw [transfersSince_congr htransfers, ← hid]
    exact ⟨⟨s, hs, hdirty, hid', hcovers'.trans hcovers⟩, hnot⟩

theorem Settles.download (h : Settles st st₁) (s : SurfaceBinding) (force : Bool) :
    Settles st (downloadSurface st₁ s force) := by
  rw [downloadSurface]
  split
  case isTrue => exact h
  case isFalse =>
    obtain ⟨l, hl, hdownloads⟩ := h.log
    have hlog : st₁.transfers ++ [.download s] = st.transfers ++ (l ++ [.download s]) := by
      rw [hl, List.append_assoc]
    refine ⟨⟨l ++ [.download s], hlog, fun t ht => ?_⟩, fun s' hs' hdirty => ?_⟩
    · cases List.mem_append.mp ht with
      | inl hmem => exact hdownloads t hmem
      | inr hlast => exact ⟨s, List.mem_singleton.mp hlast⟩
    · obtain ⟨s1, hs1, heq⟩ := List.mem_map.mp hs'
      split at heq
      case isTrue =>
        rw [← heq] at hdirty
        cases hdirty
      case isFalse hid =>
        subst heq
        obtain ⟨hbefore, hnot⟩ := h.dirty s1 hs1 hdirty
        refine ⟨hbefore, fun t ht => ?_⟩
        grind [transfersSince_eq]

theorem Settles.step (h : Settles st st₁) (hstep : CacheStep true st₁ st₂) : Settles st st₂ := by
  cases hstep with
  | program regs => exact h.quietly rfl fun s hs hdirty => ⟨s, hs, hdirty, rfl, rfl⟩
  | unbind color => exact h.quietly rfl fun s hs hdirty => ⟨s, hs, hdirty, rfl, rfl⟩
  | bind color s hs => exact h.quietly rfl fun s hs hdirty => ⟨s, hs, hdirty, rfl, rfl⟩
  | download s force hs => exact h.download s force
  | mark f hf =>
    refine h.quietly rfl fun s2 hs2 hdirty => ?_
    obtain ⟨s1, hs1, rfl⟩ := List.mem_map.mp hs2
    obtain ⟨_, _, _, hmark⟩ := hf s1
    rw [hmark] at hdirty ⊢
    exact ⟨s1, hs1, hdirty, rfl, rfl⟩
  | alter f transfers hf hquiet => cases hquiet
  | remove s hs hclean hunbound =>
    exact h.quietly rfl fun s hs hdirty => ⟨s, (List.mem_filter.mp hs).1, hdirty, rfl, rfl⟩
  | put s hid haddress hapart hclean =>
    refine h.quietly rfl fun s2 hs2 hdirty => ?_
    grind

theorem settles_of_steps (h : CacheSteps true st st₁) : Settles st st₁ := by
  induction h with
  | refl => exact .refl st
  | tail _ hstep ih => exact ih.step hstep

end

/-! ## The surfaces of the blit -/

theorem covers_eq_false {s : SurfaceBinding} (h : s.width = 0 ∨ s.height = 0) (a : Nat) :
    s.covers a = false := by
  grind [SurfaceBinding.covers]

section

variable {st st₀ : SurfaceState} {s : SurfaceBinding}

def setClean (st : SurfaceState) (s : SurfaceBinding) : SurfaceState := st.onSurface s.id downloaded

theorem setClean_valid (hvalid : st.Valid) (s : SurfaceBinding) : (setClean st s).Valid :=
  hvalid.map (keeps_if s.id keeps_downloaded)

theorem dirtyOver_setClean (hvalid : st.Valid) (hs : s ∈ st.surfaces) (a : Nat) :
    dirtyOver (setClean st s) a = if s.covers a then none else dirtyOver st a := by
  -- what is dirty afterwards is another surface, which is as it was
  have hafter {id : Nat} (h : dirtyOver (setClean st s) a = some id) :
      ∃ t ∈ st.surfaces, t.id ≠ s.id ∧ t.drawDirty = true ∧ t.covers a = true ∧ t.id = id := by
    obtain ⟨t', ht', hdirty, hcovers, hid⟩ := of_dirtyOver h
    obtain ⟨t, ht, heq⟩ := List.mem_map.mp ht'
    split at heq
    case isTrue =>
      rw [← heq] at hdirty
      cases hdirty
    case isFalse hne =>
      grind
  split
  case isTrue hcovers =>
    by_contra hsome
    obtain ⟨id, hid⟩ := Option.ne_none_iff_exists'.mp hsome
    obtain ⟨t, ht, hne, _, htcovers, _⟩ := hafter hid
    exact hne (congrArg SurfaceBinding.id (eq_of_covers hvalid ht hs htcovers hcovers))
  case isFalse hcovers =>
    apply Option.ext
    intro id
    constructor
    · intro h
      obtain ⟨t, ht, _, hdirty, htcovers, rfl⟩ := hafter h
      exact dirtyOver_eq_some hvalid ht hdirty htcovers
    · intro h
      obtain ⟨t, ht, hdirty, htcovers, rfl⟩ := of_dirtyOver h
      have hne : t.id ≠ s.id := by
        intro hid
        rw [eq_of_id hvalid.ids ht hs hid] at htcovers
        exact hcovers htcovers
      have hmem : t ∈ (setClean st s).surfaces :=
        List.mem_map.mpr ⟨t, ht, if_neg hne⟩
      exact dirtyOver_eq_some (setClean_valid hvalid s) hmem hdirty htcovers

variable {a : Nat}

theorem dirtyOver_clean (hvalid : st.Valid) (hs : s ∈ st.surfaces) (hclean : s.drawDirty = false)
    (hcovers : s.covers a = true) : dirtyOver st a = none := by
  by_contra hsome
  obtain ⟨id, hid⟩ := Option.ne_none_iff_exists'.mp hsome
  obtain ⟨t, ht, hdirty, htcovers, _⟩ := of_dirtyOver hid
  rw [eq_of_covers hvalid ht hs htcovers hcovers, hclean] at hdirty
  cases hdirty

theorem download_at (hvalid : st.Valid) (hs : s ∈ st.surfaces)
    (hlog : ∃ l, st.transfers = st₀.transfers ++ l)
    (a : Nat) :
    dirtyOver (surfaceDownloadIfDirty st s) a = (if s.covers a then none else dirtyOver st a) ∧
      landed (transfersSince st₀ (surfaceDownloadIfDirty st s)) a =
        if s.covers a then (dirtyOver st a).or (landed (transfersSince st₀ st) a)
        else landed (transfersSince st₀ st) a := by
  rw [surfaceDownloadIfDirty]
  split
  case isFalse hclean =>
    split
    case isTrue hcovers =>
      have hnone := dirtyOver_clean hvalid hs (Bool.eq_false_of_not_eq_true hclean) hcovers
      exact ⟨hnone, by rw [hnone, none_or]⟩
    case isFalse => exact ⟨rfl, rfl⟩
  case isTrue hdirty =>
    rw [downloadSurface]
    split
    case isTrue hempty =>
      -- without pixels there is nothing to download
      have hdim : s.width = 0 ∨ s.height = 0 := by simpa using hempty
      rw [covers_eq_false hdim]
      exact ⟨rfl, rfl⟩
    case isFalse =>
      obtain ⟨l, hl⟩ := hlog
      have hsince : st.transfers ++ [.download s] = st₀.transfers ++ (l ++ [.download s]) := by
        rw [hl, List.append_assoc]
      rw [transfersSince_eq hsince, transfersSince_eq hl, landed_concat]
      refine ⟨dirtyOver_setClean hvalid hs a, ?_⟩
      split
      case isTrue hcovers => rw [dirtyOver_eq_some hvalid hs hdirty hcovers, some_or]
      case isFalse => rfl

structure Flags (f : SurfaceBinding → SurfaceBinding) : Prop where
  keeps : Keeps f
  covers (s : SurfaceBinding) : (f s).covers = s.covers

theorem flags_if (id : Nat) {f : SurfaceBinding → SurfaceBinding} (hf : Flags f) :
    Flags fun s => if s.id = id then f s else s where
  keeps := keeps_if id hf.keeps
  covers s := by
    split
    · exact hf.covers s
    · rfl

theorem flags_downloaded : Flags downloaded := ⟨keeps_downloaded, fun _ => rfl⟩

theorem flags_id : Flags id :=
  ⟨⟨fun _ => rfl, fun _ => rfl, fun _ => rfl, fun _ => rfl, fun _ => rfl⟩, fun _ => rfl⟩

theorem surfaceDownloadIfDirty_flags (st : SurfaceState) (s : SurfaceBinding) :
    ∃ f, Flags f ∧ (surfaceDownloadIfDirty st s).surfaces = st.surfaces.map f := by
  rw [surfaceDownloadIfDirty, downloadSurface]
  split
  case isTrue =>
    split
    · exact ⟨id, flags_id, (List.map_id _).symm⟩
    · exact ⟨_, flags_if s.id flags_downloaded, rfl⟩
  case isFalse => exact ⟨id, flags_id, (List.map_id _).symm⟩

theorem surfaceDownloadIfDirty_valid (hvalid : st.Valid) (s : SurfaceBinding) :
    (surfaceDownloadIfDirty st s).Valid := by
  grind [surfaceDownloadIfDirty, downloadSurface_valid]

theorem surfaceDownloadIfDirty_log (hlog : ∃ l, st.transfers = st₀.transfers ++ l ∧ Downloads l)
    (s : SurfaceBinding) :
    ∃ l, (surfaceDownloadIfDirty st s).transfers = st₀.transfers ++ l ∧ Downloads l := by
  rw [surfaceDownloadIfDirty, downloadSurface]
  split
  case isFalse => exact hlog
  case isTrue =>
    split
    case isTrue => exact hlog
    case isFalse =>
      obtain ⟨l, hl, hdownloads⟩ := hlog
      refine ⟨l ++ [.download s], ?_, fun t ht => ?_⟩
      · simp_all
      · cases List.mem_append.mp ht with
        | inl hmem => exact hdownloads t hmem
        | inr hlast => exact ⟨s, List.mem_singleton.mp hlast⟩

theorem surfaceGet_of_mem (hvalid : st.Valid) (hs : s ∈ st.surfaces) :
    surfaceGet st s.vramAddr = some s := by
  cases hget : surfaceGet st s.vramAddr with
  | none => exact absurd rfl (surfaceGet_eq_none.mp hget s hs)
  | some t =>
    obtain ⟨ht, haddress⟩ := surfaceGet_eq_some hget
    rw [eq_of_address hvalid.addresses ht hs haddress]

def Replaces (b : Blit) (s : SurfaceBinding) : Prop :=
  ¬ (b.adjustedHeight < s.height ∨ b.rowPixels < s.width)

theorem dirtyOver_uploadPending (st : SurfaceState) (id a : Nat) :
    dirtyOver (st.onSurface id fun s => { s with uploadPending := true }) a = dirtyOver st a := by
  have hkeeps : Keeps fun s : SurfaceBinding => { s with uploadPending := true } :=
    ⟨fun _ => rfl, fun _ => rfl, fun _ => rfl, fun _ => rfl, fun _ => rfl⟩
  have hfind (s : SurfaceBinding) : ((if s.id = id then { s with uploadPending := true } else s :
      SurfaceBinding).drawDirty && SurfaceBinding.covers
        (if s.id = id then { s with uploadPending := true }
        else s) a) = (s.drawDirty && s.covers a) := by
    split
    · rfl
    · rfl
  change Option.map _ (List.find? _ (st.surfaces.map _)) = _
  rw [List.find?_map, Option.map_map]
  simp only [Function.comp_def, hfind]
  congr 1
  funext s
  exact (keeps_if id hkeeps).id s

section

variable (b : Blit) (hvalid : st.Valid) (hlog : ∃ l, st.transfers = st₀.transfers ++ l)

include hvalid hlog

theorem fetchSource_at (hs : s ∈ st.surfaces)
    (hcovers : s.covers a = true) (haddr : s.vramAddr = b.sourceAddr) :
    dirtyOver (fetchSource st b) a = none ∧
      landed (transfersSince st₀ (fetchSource st b)) a =
        (dirtyOver st a).or (landed (transfersSince st₀ st) a) := by
  rw [fetchSource, ← haddr, surfaceGet_of_mem hvalid hs]
  have hat := download_at hvalid hs hlog a
  rwa [if_pos hcovers, if_pos hcovers] at hat

theorem fetchSource_off (hoff : ∀ s ∈ st.surfaces, s.covers a = true → s.vramAddr ≠ b.sourceAddr) :
    dirtyOver (fetchSource st b) a = dirtyOver st a ∧
      landed (transfersSince st₀ (fetchSource st b)) a = landed (transfersSince st₀ st) a := by
  rw [fetchSource]
  cases hget : surfaceGet st b.sourceAddr with
  | none => exact ⟨rfl, rfl⟩
  | some t =>
    obtain ⟨ht, haddr⟩ := surfaceGet_eq_some hget
    have hat := download_at hvalid ht hlog a
    have hnot : ¬ t.covers a = true := fun hcovers => hoff t ht hcovers haddr
    rwa [if_neg hnot, if_neg hnot] at hat

theorem prepareDest_at (hs : s ∈ st.surfaces)
    (hcovers : s.covers a = true) (haddr : s.vramAddr = b.destAddr) :
    dirtyOver (prepareDest st b) a = none ∧
      (¬ Replaces b s → landed (transfersSince st₀ (prepareDest st b)) a =
        (dirtyOver st a).or (landed (transfersSince st₀ st) a)) ∧
      (Replaces b s → landed (transfersSince st₀ (prepareDest st b)) a =
        landed (transfersSince st₀ st) a) := by
  rw [prepareDest, ← haddr, surfaceGet_of_mem hvalid hs]
  by_cases hreplaces : Replaces b s
  · dsimp only
    rw [if_neg hreplaces]
    have hclean := dirtyOver_setClean hvalid hs a
    rw [if_pos hcovers] at hclean
    exact ⟨(dirtyOver_uploadPending _ s.id a).trans hclean, fun hnot => absurd hreplaces hnot,
      fun _ => rfl⟩
  · have hdownload := not_not.mp hreplaces
    have hat := download_at hvalid hs hlog a
    rw [if_pos hcovers, if_pos hcovers] at hat
    dsimp only
    rw [if_pos hdownload]
    exact ⟨(dirtyOver_uploadPending _ s.id a).trans hat.1, fun _ => hat.2, fun hrep =>
      absurd hrep hreplaces⟩

theorem prepareDest_off (hoff : ∀ s ∈ st.surfaces, s.covers a = true → s.vramAddr ≠ b.destAddr) :
    dirtyOver (prepareDest st b) a = dirtyOver st a ∧
      landed (transfersSince st₀ (prepareDest st b)) a = landed (transfersSince st₀ st) a := by
  rw [prepareDest]
  cases hget : surfaceGet st b.destAddr with
  | none => exact ⟨rfl, rfl⟩
  | some t =>
    obtain ⟨ht, haddr⟩ := surfaceGet_eq_some hget
    have hnot : ¬ t.covers a = true := fun hcovers => hoff t ht hcovers haddr
    dsimp only
    split
    case isTrue =>
      have hat := download_at hvalid ht hlog a
      rw [if_neg hnot, if_neg hnot] at hat
      exact ⟨(dirtyOver_uploadPending _ t.id a).trans hat.1, hat.2⟩
    case isFalse =>
      have hclean := dirtyOver_setClean hvalid ht a
      rw [if_neg hnot] at hclean
      exact ⟨(dirtyOver_uploadPending _ t.id a).trans hclean, rfl⟩

end

structure Stale (st : SurfaceState) (b : Blit) (s : SurfaceBinding) : Prop where
  mem : s ∈ st.surfaces
  dirty : s.drawDirty = true
  source : s.vramAddr ≠ b.sourceAddr
  dest : s.vramAddr ≠ b.destAddr

structure GivenUp (st : SurfaceState) (b : Blit) (s : SurfaceBinding) : Prop where
  mem : s ∈ st.surfaces
  dirty : s.drawDirty = true
  source : s.vramAddr ≠ b.sourceAddr
  dest : s.vramAddr = b.destAddr
  replaces : Replaces b s

theorem fetchSource_frame (hvalid : st.Valid)
    (hlog : ∃ l, st.transfers = st₀.transfers ++ l ∧ Downloads l) (b : Blit) :
    (fetchSource st b).Valid ∧ (∃ f, Flags f ∧ (fetchSource st b).surfaces = st.surfaces.map f) ∧
      ∃ l, (fetchSource st b).transfers = st₀.transfers ++ l ∧ Downloads l := by
  rw [fetchSource]
  split
  · exact ⟨surfaceDownloadIfDirty_valid hvalid _, surfaceDownloadIfDirty_flags st _,
      surfaceDownloadIfDirty_log hlog _⟩
  · exact ⟨hvalid, ⟨id, flags_id, (List.map_id _).symm⟩, hlog⟩

theorem blitSurfaces_log (hvalid : st.Valid)
    (hlog : ∃ l, st.transfers = st₀.transfers ++ l ∧ Downloads l) (b : Blit) :
    ∃ l, (blitSurfaces st b).transfers = st₀.transfers ++ l ∧ Downloads l := by
  have hfetched := (fetchSource_frame hvalid hlog b).2.2
  rw [blitSurfaces, prepareDest]
  split
  case h_2 => exact hfetched
  case h_1 =>
    split
    · exact surfaceDownloadIfDirty_log hfetched _
    · exact hfetched

section

variable (b : Blit) (hvalid : st.Valid)
  (hlog : ∃ l, st.transfers = st₀.transfers ++ l ∧ Downloads l)
  {a : Nat}

include hvalid hlog

theorem blitSurfaces_off
    (hsource : ∀ s ∈ st.surfaces, s.covers a = true → s.vramAddr ≠ b.sourceAddr)
    (hdest : ∀ s ∈ st.surfaces, s.covers a = true → s.vramAddr ≠ b.destAddr) :
    dirtyOver (blitSurfaces st b) a = dirtyOver st a ∧
      landed (transfersSince st₀ (blitSurfaces st b)) a = landed (transfersSince st₀ st) a := by
  obtain ⟨hvalid', ⟨f, hf, hsurfaces⟩, l, hl, _⟩ := fetchSource_frame hvalid hlog b
  obtain ⟨l', hl', _⟩ := hlog
  obtain ⟨hdirty, hlanded⟩ := fetchSource_off b hvalid ⟨l', hl'⟩ hsource
  have hrest := prepareDest_off b hvalid' ⟨l, hl⟩ (a := a) fun s hs hcovers => by
    rw [hsurfaces] at hs
    obtain ⟨t, ht, rfl⟩ := List.mem_map.mp hs
    rw [hf.covers] at hcovers
    rw [hf.keeps.vramAddr]
    exact hdest t ht hcovers
  exact ⟨hrest.1.trans hdirty, hrest.2.trans hlanded⟩

theorem blitSurfaces_source (hs : s ∈ st.surfaces) (hcovers : s.covers a = true)
    (haddr : s.vramAddr = b.sourceAddr) :
    dirtyOver (blitSurfaces st b) a = none ∧
      landed (transfersSince st₀ (blitSurfaces st b)) a =
        (dirtyOver st a).or (landed (transfersSince st₀ st) a) := by
  obtain ⟨hvalid', ⟨f, hf, hsurfaces⟩, l, hl, _⟩ := fetchSource_frame hvalid hlog b
  obtain ⟨l', hl', _⟩ := hlog
  obtain ⟨hdirty, hlanded⟩ := fetchSource_at b hvalid ⟨l', hl'⟩ hs hcovers haddr
  have hmem : f s ∈ (fetchSource st b).surfaces := hsurfaces ▸ List.mem_map_of_mem hs
  have hcovers' : (f s).covers a = true := by rw [hf.covers, hcovers]
  by_cases hsame : s.vramAddr = b.destAddr
  · -- the destination surface is the source surface, and no longer dirty
    have hat := prepareDest_at b hvalid' ⟨l, hl⟩ hmem hcovers' ((hf.keeps.vramAddr s).trans hsame)
    rw [hdirty, none_or, hlanded] at hat
    refine ⟨hat.1, ?_⟩
    by_cases hreplaces : Replaces b (f s)
    · exact hat.2.2 hreplaces
    · exact hat.2.1 hreplaces
  · have hoff := prepareDest_off b hvalid' ⟨l, hl⟩ (a := a) fun t ht htcovers haddr' => by
      rw [eq_of_covers hvalid' ht hmem htcovers hcovers', hf.keeps.vramAddr] at haddr'
      exact hsame haddr'
    exact ⟨hoff.1.trans hdirty, hoff.2.trans hlanded⟩

theorem blitSurfaces_dest (hs : s ∈ st.surfaces) (hcovers : s.covers a = true)
    (hsource : s.vramAddr ≠ b.sourceAddr) (haddr : s.vramAddr = b.destAddr) :
    dirtyOver (blitSurfaces st b) a = none ∧
      (¬ Replaces b s → landed (transfersSince st₀ (blitSurfaces st b)) a =
        (dirtyOver st a).or (landed (transfersSince st₀ st) a)) ∧
      (Replaces b s → landed (transfersSince st₀ (blitSurfaces st b)) a =
        landed (transfersSince st₀ st) a) := by
  obtain ⟨hvalid', ⟨f, hf, hsurfaces⟩, l, hl, _⟩ := fetchSource_frame hvalid hlog b
  obtain ⟨l', hl', _⟩ := hlog
  obtain ⟨hdirty, hlanded⟩ := fetchSource_off b hvalid ⟨l', hl'⟩ (a := a) fun t ht htcovers =>
    eq_of_covers hvalid ht hs htcovers hcovers ▸ hsource
  have hmem : f s ∈ (fetchSource st b).surfaces := hsurfaces ▸ List.mem_map_of_mem hs
  have hat := prepareDest_at b hvalid' ⟨l, hl⟩ hmem
    (by rw [hf.covers, hcovers]) ((hf.keeps.vramAddr s).trans haddr)
  rwa [hdirty, hlanded, Replaces, hf.keeps.height, hf.keeps.width] at hat

theorem blitSurfaces_stale (hstale : Stale st b s) (hcovers : s.covers a = true) :
    dirtyOver (blitSurfaces st b) a = some s.id ∧
      landed (transfersSince st₀ (blitSurfaces st b)) a = landed (transfersSince st₀ st) a := by
  have hoff := blitSurfaces_off b hvalid hlog (a := a)
    (fun t ht htcovers => eq_of_covers hvalid ht hstale.mem htcovers hcovers ▸ hstale.source)
    (fun t ht htcovers => eq_of_covers hvalid ht hstale.mem htcovers hcovers ▸ hstale.dest)
  exact ⟨hoff.1.trans (dirtyOver_eq_some hvalid hstale.mem hstale.dirty hcovers), hoff.2⟩

theorem blitSurfaces_givenUp (hgiven : GivenUp st b s) (hcovers : s.covers a = true) :
    dirtyOver (blitSurfaces st b) a = none ∧
      landed (transfersSince st₀ (blitSurfaces st b)) a = landed (transfersSince st₀ st) a := by
  have hat := blitSurfaces_dest b hvalid hlog hgiven.mem hcovers hgiven.source hgiven.dest
  exact ⟨hat.1, hat.2.2 hgiven.replaces⟩

theorem blitSurfaces_rest (hstale : ∀ s, Stale st b s → s.covers a = false)
    (hgiven : ∀ s, GivenUp st b s → s.covers a = false) :
    dirtyOver (blitSurfaces st b) a = none ∧
      landed (transfersSince st₀ (blitSurfaces st b)) a =
        (dirtyOver st a).or (landed (transfersSince st₀ st) a) := by
  by_cases hsome : ∃ s ∈ st.surfaces, s.covers a = true
  · obtain ⟨s, hs, hcovers⟩ := hsome
    by_cases hsource : s.vramAddr = b.sourceAddr
    · exact blitSurfaces_source b hvalid hlog hs hcovers hsource
    by_cases hdest : s.vramAddr = b.destAddr
    · obtain ⟨hnone, hdownload, hreplace⟩ :=
        blitSurfaces_dest b hvalid hlog hs hcovers hsource hdest
      refine ⟨hnone, ?_⟩
      by_cases hreplaces : Replaces b s
      · -- it is not given up, so it was clean
        have hclean : s.drawDirty = false := by
          by_contra hdirty
          have hfalse :=
            hgiven s ⟨hs, Bool.eq_true_of_not_eq_false hdirty, hsource, hdest, hreplaces⟩
          rw [hcovers] at hfalse
          cases hfalse
        rw [hreplace hreplaces, dirtyOver_clean hvalid hs hclean hcovers, none_or]
      · exact hdownload hreplaces
    · have hclean : s.drawDirty = false := by
        by_contra hdirty
        have hfalse := hstale s ⟨hs, Bool.eq_true_of_not_eq_false hdirty, hsource, hdest⟩
        rw [hcovers] at hfalse
        cases hfalse
      have hnone := dirtyOver_clean hvalid hs hclean hcovers
      have hoff := blitSurfaces_off b hvalid hlog (a := a)
        (fun t ht htcovers => eq_of_covers hvalid ht hs htcovers hcovers ▸ hsource)
        (fun t ht htcovers => eq_of_covers hvalid ht hs htcovers hcovers ▸ hdest)
      simp_all
  · have hnone : dirtyOver st a = none := by
      by_contra hne
      obtain ⟨id, hid⟩ := Option.ne_none_iff_exists'.mp hne
      grind [of_dirtyOver]
    have hoff := blitSurfaces_off b hvalid hlog (a := a)
      (fun t ht htcovers => absurd ⟨t, ht, htcovers⟩ hsome)
      (fun t ht htcovers => absurd ⟨t, ht, htcovers⟩ hsome)
    simp_all

end

end

/-! ## Exact blits -/

def Blit.IsDest (b : Blit) (a : Nat) : Prop := ∃ y j, b.Below y j ∧ a = b.destAt y j

/-- The guest sees the source rectangle copied below the clip and everything else as it was, and pages
of VRAM that have changed are dirty. -/
structure BlitExact (b : Blit) (st : SurfaceState) (c : Contents) (st' : SurfaceState)
    (c' : Contents) :
    Prop where
  copied : ∀ y j, b.Below y j →
    guestView st' c' (b.destAt y j) = (b.alphaAt j).getD (guestView st c (b.sourceAt y j))
  kept : ∀ a, ¬ b.IsDest a → guestView st' c' a = guestView st c a
  marked : ∀ a, c'.vram a ≠ c.vram a → c'.dirty (a / 2 ^ 12) = true

/-- What the surfaces must be like, `st` being the state before the blit and `st₁` the one its
`pgraph_vk_surface_update` leaves. -/
structure BlitFits (b : Blit) (st st₁ : SurfaceState) : Prop where
  /-- No surface the blit does not look at hides a byte of the destination. -/
  dest : ∀ y j, b.Below y j → ∀ s, Stale st₁ b s → s.covers (b.destAt y j) = false
  /-- No such surface, and none that is given up, holds a byte that is to be copied. -/
  source : ∀ y j, b.Below y j → b.alphaAt j = none → ∀ s, Stale st₁ b s ∨ GivenUp st₁ b s →
    s.covers (b.sourceAt y j) = false
  replaced : ∀ s, GivenUp st₁ b s → ∀ a, s.covers a = true → b.IsDest a
  /-- The clip does not end between two rows, or the bytes there are hidden. -/
  rows : ∀ j, b.rowLength ≤ j → j < b.leftoverBytes →
    ∃ s, Stale st₁ b s ∧ s.covers (b.destAt b.adjustedHeight j) = true
  pages : ∀ s, .download s ∈ transfersSince st (blitSurfaces st₁ b) → ∀ a, s.covers a = true →
    marks (transfersSince st (blitSurfaces st₁ b)) (a / 2 ^ 12) ∨
      inDirtyRange b.destRow b.clippedDestSize (a / 2 ^ 12) = true
  /-- The update leaves the bytes outside the destination as the guest saw them. -/
  update : ∀ a, ¬ b.IsDest a →
    (dirtyOver st₁ a).or (landed (transfersSince st st₁) a) = dirtyOver st a

theorem Settles.dirtyOver_eq {st st₁ : SurfaceState} (h : Settles st st₁) (hvalid : st.Valid)
    {a id : Nat}
    (hdirty : dirtyOver st₁ a = some id) :
    dirtyOver st a = some id ∧ landed (transfersSince st st₁) a ≠ some id := by
  obtain ⟨s1, hs1, hdirty1, hcovers, rfl⟩ := of_dirtyOver hdirty
  obtain ⟨⟨s, hs, hdirty, hid, hsame⟩, hnot⟩ := h.dirty s1 hs1 hdirty1
  constructor
  · rw [← hid]
    exact dirtyOver_eq_some hvalid hs hdirty (by rw [hsame, hcovers])
  · intro hlanded
    obtain ⟨t, ht, hid, _⟩ := landed_eq_some h.downloads hlanded
    exact hnot t ht hid

section

variable {b : Blit} {vramSize : Nat} {st st₁ : SurfaceState}

theorem Blit.Below.written (h : b.Proper vramSize) (hvram : vramSize ≤ 2 ^ 27) {y j : Nat}
    (hbelow : b.Below y j) : b.Written y j ∧ j < b.rowLength := by
  obtain ⟨hj, hrow⟩ := (h.below_iff hvram y j).mp hbelow
  exact ⟨hrow.imp (fun hy => ⟨hy, hj⟩) id, hj⟩

theorem Blit.Written.cases (h : b.Proper vramSize) (hvram : vramSize ≤ 2 ^ 27) {y j : Nat}
    (hwritten : b.Written y j) :
    b.Below y j ∨ y = b.adjustedHeight ∧ b.rowLength ≤ j ∧ j < b.leftoverBytes := by
  rw [h.below_iff hvram]
  cases hwritten with
  | inl hrow => exact .inl ⟨hrow.2, .inl hrow.1⟩
  | inr hlast =>
    grind

variable {log : List Transfer}

theorem blitContents_vram (c : Contents) (hlog : Downloads log) :
    ∃ v : Store, (blitContents c log b).vram = blitVram v b ∧ ∀ a, v a = c.value (landed log a) a :=
  ⟨(log.foldl Contents.transfer c).vram, rfl, (foldl_transfer hlog c).1⟩

theorem guestView_hidden (c : Contents) (hlog : Downloads log) {a id : Nat}
    (hdirty : dirtyOver st a = some id) :
      guestView st (blitContents c log b) a = c.value (some id) a := by
  rw [guestView_eq, hdirty]
  exact congrFun (congrFun (foldl_transfer hlog c).2.1 id) a

theorem guestView_plain (c : Contents) {a : Nat} (hdirty : dirtyOver st a = none) :
    guestView st (blitContents c log b) a = (blitContents c log b).vram a := by
  rw [guestView_eq, hdirty]
  rfl

theorem blitContents_dirty (c : Contents) (hlog : Downloads log) (page : Nat) :
    (blitContents c log b).dirty page = true ↔
      c.dirty page = true ∨ marks log page ∨ inDirtyRange b.destRow b.clippedDestSize page =
        true := by
  change ((log.foldl Contents.transfer c).dirty page ||
    inDirtyRange b.destRow b.clippedDestSize page) = true ↔ _
  rw [Bool.or_eq_true, (foldl_transfer hlog c).2.2, or_assoc]

theorem inDirtyRange_of_mem {addr size a : Nat} (hlo : addr ≤ a) (hhi : a < addr + size) :
    inDirtyRange addr size (a / 2 ^ 12) = true := by
  rw [inDirtyRange, Bool.and_eq_true, decide_eq_true_eq, decide_eq_true_eq]
  exact ⟨Nat.div_le_div_right hlo, (Nat.div_mul_le_self a _).trans_lt hhi⟩

theorem Blit.Written.marked (h : b.Proper vramSize) (hvram : vramSize ≤ 2 ^ 27) {y j : Nat}
    (hwritten : b.Written y j) :
    inDirtyRange b.destRow b.clippedDestSize (b.destAt y j / 2 ^ 12) = true := by
  have hpitch : j < b.destPitch ∧ y * b.destPitch + j < b.clippedDestSize := by
    cases hwritten.cases h hvram with
    | inl hbelow => exact ⟨hbelow.2.1.trans_le h.destPitch, hbelow.2.2⟩
    | inr hextra =>
      obtain ⟨rfl, _, hj⟩ := hextra
      refine ⟨hj.trans (Blit.leftoverBytes_lt h), ?_⟩
      rw [Blit.leftoverBytes] at hj
      split at hj
      · omega
      · exact absurd hj (Nat.not_lt_zero j)
  rw [← h.destRow_eq hvram]
  exact inDirtyRange_of_mem (by omega) (by omega)

def blitted (b : Blit) (st st₁ : SurfaceState) (c : Contents) : Contents :=
  blitContents c (transfersSince st (blitSurfaces st₁ b)) b

section

variable (h : b.Proper vramSize) (hvram : vramSize ≤ 2 ^ 27) (hcopy : b.operation = .srccopy)
  (hvalid : st.Valid) (hvalid₁ : st₁.Valid) (hsettles : Settles st st₁)

include hvalid₁ hsettles

theorem blitSurfaces_downloads (b : Blit) : Downloads (transfersSince st (blitSurfaces st₁ b)) := by
  obtain ⟨l, hl, hdownloads⟩ := blitSurfaces_log hvalid₁ hsettles.log b
  rwa [transfersSince_eq hl]

theorem vram_at (c : Contents) : ∃ v : Store, (blitted b st st₁ c).vram = blitVram v b ∧
    (∀ a s, Stale st₁ b s ∨ GivenUp st₁ b s → s.covers a = true →
      v a = c.value (landed (transfersSince st st₁) a) a) ∧
    ∀ a, (∀ s, Stale st₁ b s ∨ GivenUp st₁ b s → s.covers a = false) →
      v a = c.value ((dirtyOver st₁ a).or (landed (transfersSince st st₁) a)) a := by
  obtain ⟨v, hv, hvalue⟩ := blitContents_vram (b := b) c (blitSurfaces_downloads hvalid₁ hsettles b)
  refine ⟨v, hv, fun a s hs hcovers => ?_, fun a hnone => ?_⟩
  · rw [hvalue]
    cases hs with
    | inl hstale => rw [(blitSurfaces_stale b hvalid₁ hsettles.log hstale hcovers).2]
    | inr hgiven => rw [(blitSurfaces_givenUp b hvalid₁ hsettles.log hgiven hcovers).2]
  · rw [hvalue, (blitSurfaces_rest b hvalid₁ hsettles.log (fun s hs => hnone s (.inl hs))
      fun s hs => hnone s (.inr hs)).2]

variable {s : SurfaceBinding} {a : Nat}

theorem guestView_stale (c : Contents) (hstale : Stale st₁ b s)
    (hcovers : s.covers a = true) :
    guestView (blitSurfaces st₁ b) (blitted b st st₁ c) a = c.value (some s.id) a :=
  guestView_hidden c (blitSurfaces_downloads hvalid₁ hsettles b)
    (blitSurfaces_stale b hvalid₁ hsettles.log hstale hcovers).1

theorem guestView_open (c : Contents) (hstale : ∀ s, Stale st₁ b s → s.covers a = false) :
    guestView (blitSurfaces st₁ b) (blitted b st st₁ c) a = (blitted b st st₁ c).vram a := by
  apply guestView_plain
  by_cases hgiven : ∃ s, GivenUp st₁ b s ∧ s.covers a = true
  · obtain ⟨s, hs, hcovers⟩ := hgiven
    exact (blitSurfaces_givenUp b hvalid₁ hsettles.log hs hcovers).1
  · refine (blitSurfaces_rest b hvalid₁ hsettles.log hstale fun s hs => ?_).1
    exact Bool.eq_false_of_not_eq_true fun hcovers => hgiven ⟨s, hs, hcovers⟩

include h hvram hcopy

variable {j : Nat}

theorem blitExact_copied (hfits : BlitFits b st st₁) (c : Contents) {y : Nat}
    (hbelow : b.Below y j) :
    guestView (blitSurfaces st₁ b) (blitted b st st₁ c) (b.destAt y j) =
      (b.alphaAt j).getD (guestView st c (b.sourceAt y j)) := by
  obtain ⟨hwritten, hj⟩ := hbelow.written h hvram
  obtain ⟨v, hv, _, hrest⟩ := vram_at (b := b) hvalid₁ hsettles c
  rw [guestView_open hvalid₁ hsettles c fun s hs => hfits.dest y j hbelow s hs, hv,
    Blit.blitVram_written h hvram v hwritten, Blit.blitRows_inside h hvram hcopy v hwritten hj]
  cases halpha : b.alphaAt j with
  | some alphaVal => rfl
  | none =>
    have hout : ¬ b.IsDest (b.sourceAt y j) := by
      rintro ⟨y', j', hbelow', heq⟩
      exact h.apart y hbelow.1 j hbelow.2.1 y' hbelow'.1 j' hbelow'.2.1 heq
    rw [getD_none, getD_none, hrest _ (hfits.source y j hbelow halpha),
      hfits.update _ hout, guestView_eq]

include hvalid in
theorem blitExact_kept (hfits : BlitFits b st st₁) (c : Contents) {a : Nat} (hout : ¬ b.IsDest a) :
    guestView (blitSurfaces st₁ b) (blitted b st st₁ c) a = guestView st c a := by
  rw [guestView_eq st]
  by_cases hstale : ∃ s, Stale st₁ b s ∧ s.covers a = true
  · obtain ⟨s, hs, hcovers⟩ := hstale
    have hbefore := hsettles.dirtyOver_eq hvalid (dirtyOver_eq_some hvalid₁ hs.mem hs.dirty hcovers)
    rw [guestView_stale hvalid₁ hsettles c hs hcovers, hbefore.1]
  · have hopen (s : SurfaceBinding) (hs : Stale st₁ b s) : s.covers a = false :=
      Bool.eq_false_of_not_eq_true fun hcovers => hstale ⟨s, hs, hcovers⟩
    obtain ⟨v, hv, _, hrest⟩ := vram_at (b := b) hvalid₁ hsettles c
    rw [guestView_open hvalid₁ hsettles c hopen, hv, Blit.blitVram_outside h hvram hcopy v, hrest,
      hfits.update a hout]
    · intro s hs
      cases hs with
      | inl hstale => exact hopen s hstale
      | inr hgiven =>
        exact Bool.eq_false_of_not_eq_true fun hcovers => hout (hfits.replaced s hgiven a hcovers)
    · intro y j hwritten heq
      cases hwritten.cases h hvram with
      | inl hbelow => exact hout ⟨y, j, hbelow, heq⟩
      | inr hextra =>
        obtain ⟨rfl, hlo, hj⟩ := hextra
        obtain ⟨s, hs, hcovers⟩ := hfits.rows j hlo hj
        exact hstale ⟨s, hs, heq ▸ hcovers⟩

theorem blitExact_marked (hfits : BlitFits b st st₁) (c : Contents)
    (hchanged : (blitted b st st₁ c).vram a ≠ c.vram a) :
    (blitted b st st₁ c).dirty (a / 2 ^ 12) = true := by
  have hdownloads := blitSurfaces_downloads hvalid₁ hsettles b
  refine (blitContents_dirty c hdownloads _).mpr (.inr ?_)
  by_cases hwritten : ∃ y j, b.Written y j ∧ a = b.destAt y j
  · obtain ⟨y, j, hwritten, rfl⟩ := hwritten
    exact .inr (hwritten.marked h hvram)
  · -- then a download has changed it
    obtain ⟨v, hv, hvalue⟩ := blitContents_vram (b := b) c hdownloads
    have hout : blitVram v b a = v a := Blit.blitVram_outside h hvram hcopy v fun y j hw heq =>
      hwritten ⟨y, j, hw, heq⟩
    change (blitContents c _ b).vram a ≠ c.vram a at hchanged
    rw [hv, hout, hvalue] at hchanged
    cases hlanded : landed (transfersSince st (blitSurfaces st₁ b)) a with
    | none =>
      rw [hlanded] at hchanged
      exact absurd rfl hchanged
    | some id =>
      obtain ⟨s, hs, _, hcovers⟩ := landed_eq_some hdownloads hlanded
      exact hfits.pages s hs a hcovers

/-! ### The conditions are needed -/

def AlwaysExact (b : Blit) (st st₁ : SurfaceState) : Prop :=
  ∀ c, BlitExact b st c (blitSurfaces st₁ b) (blitted b st st₁ c)

omit h hvram hcopy hvalid₁ hsettles in
theorem alphaOverride_ne_one (b : Blit) (j : Nat) : b.alphaAt j ≠ some 1 := by
  rw [Blit.alphaAt]
  split
  case isTrue =>
    cases b.colorFormat with
    | _ => decide
  case isFalse => exact fun hnone => by cases hnone

omit hvram hcopy in
theorem fits_dest (hexact : AlwaysExact b st st₁) {y : Nat} (hbelow : b.Below y j)
    (hstale : Stale st₁ b s) : s.covers (b.destAt y j) = false := by
  apply Bool.eq_false_of_not_eq_true
  intro hcovers
  -- give the hidden byte a value that is nowhere else
  have hcopied := (hexact (.spot (some s.id) (b.destAt y j))).copied y j hbelow
  have hapart := h.apart y hbelow.1 j hbelow.2.1 y hbelow.1 j hbelow.2.1
  rw [guestView_stale hvalid₁ hsettles _ hstale hcovers, Contents.value_spot, guestView_eq,
    Contents.value_spot_ne (.inr hapart)] at hcopied
  cases halpha : b.alphaAt j with
  | none =>
    rw [halpha] at hcopied
    exact absurd hcopied (by decide)
  | some alphaVal =>
    grind [alphaOverride_ne_one]

include hvalid in
theorem fits_source (hexact : AlwaysExact b st st₁) {y j : Nat} (hbelow : b.Below y j)
    (halpha : b.alphaAt j = none) {s : SurfaceBinding} (hs : Stale st₁ b s ∨ GivenUp st₁ b s) :
    s.covers (b.sourceAt y j) = false := by
  apply Bool.eq_false_of_not_eq_true
  intro hcovers
  have hmem : s ∈ st₁.surfaces ∧ s.drawDirty = true :=
    hs.elim (fun hstale => ⟨hstale.mem, hstale.dirty⟩) fun hgiven => ⟨hgiven.mem, hgiven.dirty⟩
  obtain ⟨hbefore, hlanded⟩ :=
    hsettles.dirtyOver_eq hvalid (dirtyOver_eq_some hvalid₁ hmem.1 hmem.2 hcovers)
  obtain ⟨hwritten, hj⟩ := hbelow.written h hvram
  obtain ⟨v, hv, hkept, _⟩ := vram_at (b := b) hvalid₁ hsettles (.spot (some s.id) (b.sourceAt y j))
  have hcopied := (hexact (.spot (some s.id) (b.sourceAt y j))).copied y j hbelow
  rw [guestView_open hvalid₁ hsettles _ fun t ht =>
    fits_dest h hvalid₁ hsettles hexact hbelow ht, hv,
    Blit.blitVram_written h hvram v hwritten, Blit.blitRows_inside h hvram hcopy v hwritten hj,
    halpha, getD_none, getD_none, hkept _ s hs hcovers, guestView_eq, hbefore,
    Contents.value_spot, Contents.value_spot_ne (.inl hlanded)] at hcopied
  exact absurd hcopied (by decide)

theorem fits_rows (hexact : AlwaysExact b st st₁) (hlo : b.rowLength ≤ j)
    (hj : j < b.leftoverBytes) :
    ∃ s, Stale st₁ b s ∧ s.covers (b.destAt b.adjustedHeight j) = true := by
  by_contra hnone
  have hopen (s : SurfaceBinding) (hs : Stale st₁ b s) :
      s.covers (b.destAt b.adjustedHeight j) = false :=
    Bool.eq_false_of_not_eq_true fun hcovers => hnone ⟨s, hs, hcovers⟩
  have hout : ¬ b.IsDest (b.destAt b.adjustedHeight j) := by
    rintro ⟨y', j', hbelow, heq⟩
    have hinj := Blit.destAt_inj (hj.trans (Blit.leftoverBytes_lt h))
      (hbelow.2.1.trans_le h.destPitch) heq
    have hrow := hbelow.2.1
    omega
  -- the byte gets the value of another one, or of the alpha channel
  obtain ⟨x, hx, hextra⟩ := Blit.blitRows_extra h hvram hcopy hlo hj
  obtain ⟨v, hv, hvalue⟩ := blitContents_vram (b := b)
    (.spot (dirtyOver st (b.destAt b.adjustedHeight j)) (b.destAt b.adjustedHeight j))
    (blitSurfaces_downloads hvalid₁ hsettles b)
  have hkept := (hexact (.spot (dirtyOver st (b.destAt b.adjustedHeight j))
    (b.destAt b.adjustedHeight j))).kept _ hout
  have hvram' : (blitted b st st₁ (.spot (dirtyOver st (b.destAt b.adjustedHeight j))
      (b.destAt b.adjustedHeight j))).vram = blitVram v b := hv
  rw [guestView_open hvalid₁ hsettles _ hopen, guestView_eq, Contents.value_spot, hvram',
    Blit.blitVram_written h hvram v (.inr ⟨rfl, hj⟩), hextra, hvalue,
    Contents.value_spot_ne (.inr hx)] at hkept
  cases halpha : b.alphaAt j with
  | none =>
    rw [halpha] at hkept
    exact absurd hkept (by decide)
  | some alphaVal =>
    grind [alphaOverride_ne_one]

theorem not_written (hexact : AlwaysExact b st st₁) (hout : ¬ b.IsDest a)
    (hopen : ∀ s, Stale st₁ b s → s.covers a = false) {y : Nat} (hwritten : b.Written y j) :
    a ≠ b.destAt y j := by
  intro heq
  cases hwritten.cases h hvram with
  | inl hbelow => exact hout ⟨y, j, hbelow, heq⟩
  | inr hextra =>
    obtain ⟨rfl, hlo, hj⟩ := hextra
    grind [fits_rows]

include hvalid in
theorem fits_replaced (hexact : AlwaysExact b st st₁) {s : SurfaceBinding}
    (hgiven : GivenUp st₁ b s)
    {a : Nat} (hcovers : s.covers a = true) : b.IsDest a := by
  by_contra hout
  obtain ⟨hbefore, hlanded⟩ :=
    hsettles.dirtyOver_eq hvalid (dirtyOver_eq_some hvalid₁ hgiven.mem hgiven.dirty hcovers)
  have hopen (t : SurfaceBinding) (ht : Stale st₁ b t) : t.covers a = false := by
    apply Bool.eq_false_of_not_eq_true
    intro htcovers
    exact ht.dest (eq_of_covers hvalid₁ ht.mem hgiven.mem htcovers hcovers ▸ hgiven.dest)
  obtain ⟨v, hv, hlost, _⟩ := vram_at (b := b) hvalid₁ hsettles (.spot (some s.id) a)
  have hkept := (hexact (.spot (some s.id) a)).kept a hout
  rw [guestView_open hvalid₁ hsettles _ hopen, hv,
    Blit.blitVram_outside h hvram hcopy v fun y j hw =>
      not_written h hvram hcopy hvalid₁ hsettles hexact hout hopen hw,
    hlost a s (.inr hgiven) hcovers, guestView_eq, hbefore, Contents.value_spot,
    Contents.value_spot_ne (.inl hlanded)] at hkept
  exact absurd hkept (by decide)

theorem fits_pages (hexact : AlwaysExact b st st₁)
    (hs : .download s ∈ transfersSince st (blitSurfaces st₁ b)) (hcovers : s.covers a = true) :
    marks (transfersSince st (blitSurfaces st₁ b)) (a / 2 ^ 12) ∨
      inDirtyRange b.destRow b.clippedDestSize (a / 2 ^ 12) = true := by
  have hdownloads := blitSurfaces_downloads hvalid₁ hsettles b
  by_cases hwritten : ∃ y j, b.Written y j ∧ a = b.destAt y j
  · obtain ⟨y, j, hwritten, rfl⟩ := hwritten
    exact .inr (hwritten.marked h hvram)
  · -- VRAM alone holds a value there, which the download replaces
    obtain ⟨v, hv, hvalue⟩ := blitContents_vram (b := b) (.spot none a) hdownloads
    have hout : blitVram v b a = v a := Blit.blitVram_outside h hvram hcopy v fun y j hw heq =>
      hwritten ⟨y, j, hw, heq⟩
    have hchanged : (blitted b st st₁ (.spot none a)).vram a ≠ (Contents.spot none a).vram a := by
      change (blitContents _ _ b).vram a ≠ (Contents.spot none a).value none a
      rw [hv, hout, hvalue, Contents.value_spot,
        Contents.value_spot_ne (.inl (landed_ne_none hdownloads hs hcovers))]
      decide
    have hmarked := (hexact (.spot none a)).marked a hchanged
    exact ((blitContents_dirty _ hdownloads _).mp hmarked).resolve_left fun hfalse =>
      by cases hfalse

include hvalid in
theorem fits_update (hexact : AlwaysExact b st st₁) {a : Nat} (hout : ¬ b.IsDest a) :
    (dirtyOver st₁ a).or (landed (transfersSince st st₁) a) = dirtyOver st a := by
  cases hdirty : dirtyOver st₁ a with
  | some id =>
    rw [some_or]
    exact (hsettles.dirtyOver_eq hvalid hdirty).1.symm
  | none =>
    by_contra hne
    -- nothing is newer than VRAM here, so the guest sees what the update has left
    have hclean (s : SurfaceBinding) (hs : Stale st₁ b s ∨ GivenUp st₁ b s) :
        s.covers a = false := by
      apply Bool.eq_false_of_not_eq_true
      intro hcovers
      have hmem : s ∈ st₁.surfaces ∧ s.drawDirty = true :=
        hs.elim (fun hstale => ⟨hstale.mem, hstale.dirty⟩) fun hgiven => ⟨hgiven.mem, hgiven.dirty⟩
      rw [dirtyOver_eq_some hvalid₁ hmem.1 hmem.2 hcovers] at hdirty
      cases hdirty
    have hopen (s : SurfaceBinding) (hs : Stale st₁ b s) : s.covers a = false := hclean s (.inl hs)
    obtain ⟨v, hv, _, hrest⟩ := vram_at (b := b) hvalid₁ hsettles (.spot (dirtyOver st a) a)
    have hkept := (hexact (.spot (dirtyOver st a) a)).kept a hout
    rw [guestView_open hvalid₁ hsettles _ hopen, hv,
      Blit.blitVram_outside h hvram hcopy v fun y j hw =>
        not_written h hvram hcopy hvalid₁ hsettles hexact hout hopen hw,
      hrest a hclean, guestView_eq, Contents.value_spot, hdirty,
      Contents.value_spot_ne (.inl hne)] at hkept
    exact absurd hkept (by decide)

include hvalid in
theorem alwaysExact_iff : AlwaysExact b st st₁ ↔ BlitFits b st st₁ := by
  constructor
  · intro hexact
    exact {
      dest := fun y j hbelow s hs => fits_dest h hvalid₁ hsettles hexact hbelow hs
      source := fun y j hbelow halpha s hs =>
        fits_source h hvram hcopy hvalid hvalid₁ hsettles hexact hbelow halpha hs
      replaced := fun s hs a hcovers =>
        fits_replaced h hvram hcopy hvalid hvalid₁ hsettles hexact hs hcovers
      rows := fun j hlo hj => fits_rows h hvram hcopy hvalid₁ hsettles hexact hlo hj
      pages := fun s hs a hcovers => fits_pages h hvram hcopy hvalid₁ hsettles hexact hs hcovers
      update := fun a hout => fits_update h hvram hcopy hvalid hvalid₁ hsettles hexact hout }
  · intro hfits c
    exact {
      copied := fun y j hbelow => blitExact_copied h hvram hcopy hvalid₁ hsettles hfits c hbelow
      kept := fun a hout => blitExact_kept h hvram hcopy hvalid hvalid₁ hsettles hfits c hout
      marked := fun a hchanged => blitExact_marked h hvram hcopy hvalid₁ hsettles hfits c hchanged }

end

end

/-- A copy of a rectangle is exact for all contents of VRAM and of the surfaces just when the surfaces
fit it. -/
theorem imageBlit_exact_iff (tcgEnabled : Bool) (st st₁ : SurfaceState) (vramSize : Nat)
    (contextSurfaces : ContextSurfaces2D) (image : ImageBlit) (tiles : List GpuTile)
    (memDirty : Bool → Bool) (b : Blit) (hvalid : st.Valid) (hvram : vramSize ≤ 2 ^ 27)
    (hupdate : surfaceUpdate tcgEnabled st false (fun _ => true) memDirty = .ok st₁)
    (hlocate : locateBlit st₁ vramSize contextSurfaces image tiles = .ok b)
    (hproper : b.Proper vramSize) (hcopy : b.operation = .srccopy) :
    (∀ c st' c', imageBlit tcgEnabled st c vramSize contextSurfaces image tiles memDirty =
      .ok (st', c') →
        BlitExact b st c st' c') ↔ BlitFits b st st₁ := by
  have hsteps : CacheSteps true st st₁ := surfaceUpdate_steps hvalid hupdate
  have hblit (c : Contents) :
      imageBlit tcgEnabled st c vramSize contextSurfaces image tiles memDirty =
      .ok (blitSurfaces st₁ b, blitted b st st₁ c) := by
    rw [imageBlit, hupdate]
    change (locateBlit st₁ vramSize contextSurfaces image tiles >>= _) = _
    rw [hlocate]
    rfl
  rw [← alwaysExact_iff hproper hvram hcopy hvalid (hsteps.valid hvalid) (settles_of_steps hsteps)]
  constructor
  · intro hexact c
    exact hexact c _ _ (hblit c)
  · intro hexact c st' c' hrun
    cases (hblit c).symm.trans hrun
    exact hexact c

def SurfaceM.state (st : SurfaceState) : SurfaceM SurfaceState → SurfaceState
  | .ok st' => st'
  | .error _ => st

def drawnColor : SurfaceState :=
  SurfaceM.state (colorBuffer 64).start (runSurfaces true (colorBuffer 64).start drawColor)

def flushedColor : SurfaceState :=
  SurfaceM.state drawnColor (surfaceUpdate true drawnColor false (fun _ => true) fun _ => false)

def blitContext (sourceOffset destOffset : Nat) : ContextSurfaces2D where
  objectInstance := 0
  dmaImageSource := 0
  dmaImageDest := 0
  colorFormat := .a8r8g8b8
  sourcePitch := 256
  destPitch := 256
  sourceOffset := sourceOffset
  destOffset := destOffset

def blitImage : ImageBlit where
  contextSurfaces := 0
  operation := .srccopy
  inX := 0
  inY := 0
  outX := 0
  outY := 0
  width := 2
  height := 2

def blitAt (sourceAddr destAddr : Nat) (tiles : List GpuTile) : Blit :=
  { blitImage with
    colorFormat := .a8r8g8b8
    sourcePitch := 256
    destPitch := 256
    sourceAddr := sourceAddr
    destAddr := destAddr
    tiles := tiles }

theorem blitAt_proper : (blitAt 0 0x10000 []).Proper (2 ^ 26) where
  width := by decide
  height := by decide
  sourcePitch := by decide
  destPitch := by decide
  source := by decide
  dest := by decide
  apart := by decide

theorem blitAt_fits : BlitFits (blitAt 0 0x10000 []) drawnColor flushedColor where
  dest y j hbelow s hs := by
    cases List.mem_singleton.mp hs.mem
    exact absurd rfl hs.source
  source y j hbelow halpha s hs := by
    cases hs with
    | inl hstale =>
      cases List.mem_singleton.mp hstale.mem
      exact absurd rfl hstale.source
    | inr hgiven =>
      cases List.mem_singleton.mp hgiven.mem
      exact absurd rfl hgiven.source
  replaced s hs a hcovers := by
    cases List.mem_singleton.mp hs.mem
    exact absurd rfl hs.source
  rows j hlo hj := by
    have hnone : (blitAt 0 0x10000 []).leftoverBytes = 0 := by decide
    rw [hnone] at hj
    cases hj
  pages s hs a hcovers := by
    have hrange := covers_occupies hcovers
    refine .inl ⟨s, hs, inDirtyRange_of_mem hrange.1 ?_⟩
    cases List.mem_singleton.mp hs
    exact hrange.2
  update a hout := Option.or_none

theorem imageBlit_exact_drawn :
    surfaceUpdate true drawnColor false (fun _ => true) (fun _ => false) = .ok flushedColor ∧
      ∀ c st' c', imageBlit true drawnColor c (2 ^ 26) (blitContext 0 0x10000) blitImage []
        (fun _ => false) = .ok (st', c') → BlitExact (blitAt 0 0x10000 []) drawnColor c st' c' := by
  have hrun : runSurfaces true (colorBuffer 64).start drawColor = .ok drawnColor := rfl
  have hvalid :=
    (runSurfaces_steps (colorBuffer 64).start_valid hrun).valid (colorBuffer 64).start_valid
  exact ⟨rfl,
    (imageBlit_exact_iff true drawnColor flushedColor (2 ^ 26) (blitContext 0 0x10000) blitImage
    [] (fun _ => false) (blitAt 0 0x10000 []) hvalid (by decide) rfl rfl blitAt_proper rfl).mpr
      blitAt_fits⟩

/-- A source that begins inside the drawn surface is copied as VRAM has it, and a clip that ends between
two rows lets a row run on. -/
theorem imageBlit_inexact :
    (∃ c st' c', imageBlit true drawnColor c (2 ^ 26) (blitContext 64 0x10000) blitImage []
        (fun _ => false) = .ok (st', c') ∧
      guestView st' c' 0x10000 ≠ guestView drawnColor c 64) ∧
    ∃ c st' c', imageBlit true drawnColor c (2 ^ 26) (blitContext 0 0x10000) blitImage
        [⟨true, 0x10014⟩] (fun _ => false) = .ok (st', c') ∧
      guestView st' c' 0x1000A ≠ guestView drawnColor c 0x1000A :=
  ⟨⟨.spot (some 0) 64, _, _, rfl, by decide⟩, ⟨.spot none 0x1000A, _, _, rfl, by decide⟩⟩

end DukeX.Nv2a.Vk
