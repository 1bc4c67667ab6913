import DukeX.Qcow2.Grow

/-!
# The edits of a write

Everything `write` does to an image is one of a few edits: the bookkeeping of an allocation, a new
L2 table, a new data cluster, and bytes stored in a data cluster.
-/

namespace DukeX.Qcow2

open DukeX.Lib DukeX.Swift

namespace Qcow2DiskImage

variable (img : Qcow2DiskImage)

abbrev View := (Nat → Nat) × HostFile

structure Free (e : Nat) (x : View) (o : Nat) : Prop where
  new : e ≤ o
  aligned : o % img.clusterSize = 0
  inside : o < img.fileEnd x.2
  small : o < 2 ^ 56
  pos : o ≠ 0
  unused : ∀ r, img.place x.1 x.2.bytes r ≠ some o
  clear : ∀ a, o ≤ a → a < o + img.clusterSize → x.2.bytes a = 0
  one : img.refcount x.2.bytes (o / img.clusterSize) = 1

def entryFor (o : Nat) : Data := writeUInt64BE (List.replicate 8 0) (o ||| copiedFlag) 0

def entryAt (t g : Nat) : Nat := t + g % img.l2Entries * 8

inductive Link (e : Nat) (G : Nat → Prop) (ok synced : Prop) : View → View → Prop
  | grow {l1 : Nat → Nat} {f f' : HostFile} (he : e ≤ img.fileEnd f)
      (hg : img.Grown l1 (img.fileEnd f) f f')
      (hok : ok → img.Counted l1 f.bytes → img.Counted l1 f'.bytes) :
      Link e G ok synced (l1, f) (l1, f')
  | table {l1 : Nat → Nat} {f f' : HostFile} {g o : Nat} (hg : G g)
      (hi : g / img.l2Entries < img.l1Size)
      (hnone : img.place l1 f.bytes (.l2 (g / img.l2Entries)) = none) (ho : img.Free e (l1, f) o)
      (hf' : f' = f.write (img.l1TableOffset + g / img.l2Entries * 8) (entryFor o) ∨
        ¬ synced ∧ f' = f) :
      Link e G ok synced (l1, f)
        (Function.update l1 (g / img.l2Entries) (o ||| copiedFlag), f')
  | data {l1 : Nat → Nat} {f : HostFile} {g t o : Nat} (hg : G g)
      (ht : img.place l1 f.bytes (.l2 (g / img.l2Entries)) = some t)
      (hplain : ¬ isCompressed (entry64 f.bytes (img.entryAt t g)))
      (hnone : hostOffset (entry64 f.bytes (img.entryAt t g)) = 0) (ho : img.Free e (l1, f) o) :
      Link e G ok synced (l1, f) (l1, f.write (img.entryAt t g) (entryFor o))

inductive Stored (cursor : Nat) (chunk : Data) : View → View → Prop
  | mk {l1 : Nat → Nat} {f : HostFile} {t : Nat}
      (ht : img.place l1 f.bytes (.l2 (cursor / img.clusterSize / img.l2Entries)) = some t)
      (hplain : ¬ isCompressed (entry64 f.bytes (img.entryAt t (cursor / img.clusterSize))))
      (hsome : hostOffset (entry64 f.bytes (img.entryAt t (cursor / img.clusterSize))) ≠ 0)
      (hfit : cursor % img.clusterSize + chunk.length ≤ img.clusterSize) :
      Stored cursor chunk (l1, f)
        (l1, f.write (hostOffset (entry64 f.bytes (img.entryAt t (cursor / img.clusterSize))) +
          cursor % img.clusterSize) chunk)

inductive Edit (e : Nat) (G : Nat → Prop) (ok : Prop) : View → View → Prop
  | link {x y : View} (h : img.Link e G ok False x y) : Edit e G ok x y
  | store {x y : View} {cursor : Nat} {chunk : Data} (hg : G (cursor / img.clusterSize))
      (h : img.Stored cursor chunk x y) : Edit e G ok x y

def Writable (G : Nat → Prop) : Ref → Prop
  | .header => False
  | .l1 _ => True
  | .table _ => True
  | .block _ => True
  | .l2 i => ∃ g, G g ∧ i = g / img.l2Entries
  | .data i j p => ∃ g, G g ∧ i = g / img.l2Entries ∧ j = g % img.l2Entries ∧ p = 0

structure Preserved (e : Nat) (G : Nat → Prop) (ok : Prop) (x y : View) : Prop where
  sound : img.Sound y.1 y.2
  grow : img.fileEnd x.2 ≤ img.fileEnd y.2
  kept : ∀ r o, img.place x.1 x.2.bytes r = some o → img.place y.1 y.2.bytes r = some o
  fresh : ∀ r o, img.place y.1 y.2.bytes r = some o → img.place x.1 x.2.bytes r = some o ∨ e ≤ o
  same : ∀ o, o % img.clusterSize = 0 →
    (∀ r, img.Writable G r → img.place y.1 y.2.bytes r ≠ some o) →
    img.Same x.2.bytes y.2.bytes o
  counts : ∀ c, c * img.clusterSize < img.fileEnd x.2 →
    img.refcount y.2.bytes c = img.refcount x.2.bytes c
  counted : ok → img.Counted x.1 x.2.bytes → img.Counted y.1 y.2.bytes

variable {img} {G : Nat → Prop} {ok synced : Prop} {x y : View} {l1 : Nat → Nat}
variable {f f' : HostFile} {r : Ref} {e o o' t g at' offset cursor : Nat} {data chunk : Data}

theorem length_entryFor (o : Nat) : (entryFor o).length = 8 := length_writeUInt64BE ..

theorem Free.value_lt (h : img.Free e x o) : o ||| copiedFlag < 2 ^ 64 := by
  have := h.small
  rw [or_copiedFlag (by omega)]
  omega

theorem Free.host (h : img.Free e x o) (hs : img.Sound x.1 x.2) :
    hostOffset (o ||| copiedFlag) = o :=
  hostOffset_or_copiedFlag h.small (hs.sector h.aligned)

theorem Free.hosts (h : img.Free e x o) (hs : img.Sound x.1 x.2) :
    img.hosts (o ||| copiedFlag) = [o] := by
  have hsome : hostOffset (o ||| copiedFlag) ≠ 0 := by
    rw [h.host hs]
    exact h.pos
  rw [hosts_of_some (not_isCompressed_or_copiedFlag h.small) hsome, h.host hs]

theorem Sound.mod_entries_lt (h : img.Sound l1 f) (g : Nat) : g % img.l2Entries < img.l2Entries := by
  obtain ⟨_, _, _, hE⟩ := h.entries
  exact Nat.mod_lt g (by omega)

theorem Sound.entryAt_fits (h : img.Sound l1 f) (t g o : Nat) : t ≤ img.entryAt t g ∧
    img.entryAt t g + (entryFor o).length ≤ t + img.clusterSize := by
  obtain ⟨hE, _⟩ := h.entries
  have := h.mod_entries_lt g
  rw [length_entryFor, entryAt]
  omega

/-! ## Writes that leave the references alone -/

theorem Counted.of_kept (h : img.Sound x.1 x.2) (hcount : img.Counted x.1 x.2.bytes)
    (hcounts : ∀ c, c * img.clusterSize < img.fileEnd x.2 →
      img.refcount y.2.bytes c = img.refcount x.2.bytes c)
    (hplace : ∀ r o, img.place y.1 y.2.bytes r = some o → img.place x.1 x.2.bytes r = some o ∨
      img.refcount y.2.bytes (o / img.clusterSize) = 1) : img.Counted y.1 y.2.bytes := by
  intro r o ho
  rcases hplace r o ho with hold | hone
  · rw [hcounts _ (by rw [h.div_mul_of_place hold]; exact h.below r o hold)]
    exact hcount r o hold
  · exact hone

theorem Preserved.of_write (h : img.Sound l1 f) (ho : img.place l1 f.bytes r = some o)
    (hw : img.Writable G r) (hle : o ≤ offset)
    (hfit : offset + data.length ≤ o + img.clusterSize) (htable : ∀ i, r ≠ .table i)
    (hl2 : ∀ i, r ≠ .l2 i) (hblock : ∀ k, r ≠ .block k) :
    img.Preserved e G ok (l1, f) (l1, f.write offset data) := by
  have hpos := h.clusterSize_pos
  have hplace := h.place_write ho hle hfit htable hl2
  have hend : img.fileEnd (f.write offset data) = img.fileEnd f := by
    have := h.le_end ho
    exact fileEnd_write hpos (by omega)
  have hsame : ∀ r' {o'}, img.place l1 f.bytes r' = some o' → r' ≠ r →
      img.Same f.bytes (f.bytes.write offset data) o' := fun _ _ ho' hne =>
    h.same_write ho hle hfit ho' hne
  have hcounts : ∀ c, img.refcount (f.bytes.write offset data) c = img.refcount f.bytes c :=
    fun c => h.refcount_congr (hplace _) fun o' ho' => hsame _ ho' fun heq => hblock _ heq.symm
  refine ⟨?_, Nat.le_of_eq hend.symm, fun r' o' ho' => (hplace r').trans ho',
    fun r' o' ho' => .inl ((hplace r').symm.trans ho'), fun o' ho' hout => ?_, fun c _ => hcounts c,
    fun _ hcount => ?_⟩
  · refine h.congr (hsame .header rfl ?_) (Nat.le_of_eq hend.symm) hplace
    rintro rfl
    exact hw
  · exact Same.write ho' (h.aligned _ _ ho) (fun heq => hout r hw (heq ▸ (hplace r).trans ho)) hle
      hfit
  · exact Counted.of_kept (x := (l1, f)) h hcount (fun c _ => hcounts c) fun r' o' ho' =>
      .inl ((hplace r').symm.trans ho')

theorem Preserved.refl (h : img.Sound x.1 x.2) : img.Preserved e G ok x x where
  sound := h
  grow := Nat.le_refl _
  kept _ _ ho := ho
  fresh _ _ ho := .inl ho
  same _ _ _ := .of_bytes rfl
  counts _ _ := rfl
  counted _ h := h

theorem Preserved.trans {z : View} (h : img.Preserved e G ok x y) (h' : img.Preserved e G ok y z) :
    img.Preserved e G ok x z where
  sound := h'.sound
  grow := h.grow.trans h'.grow
  kept r o ho := h'.kept r o (h.kept r o ho)
  fresh r o ho := by
    rcases h'.fresh r o ho with ho | hle
    · exact h.fresh r o ho
    · exact .inr hle
  same o ho hout :=
    (h.same o ho fun r hr hp => hout r hr (h'.kept r o hp)).trans (h'.same o ho hout)
  counts c hc := (h'.counts c (Nat.lt_of_lt_of_le hc h.grow)).trans (h.counts c hc)
  counted hok hcount := h'.counted hok (h.counted hok hcount)

theorem Free.preserved (ho : img.Free e x o) (h : img.Preserved e G ok x y)
    (hunused : ∀ r, img.place y.1 y.2.bytes r ≠ some o) : img.Free e y o where
  new := ho.new
  aligned := ho.aligned
  inside := Nat.lt_of_lt_of_le ho.inside h.grow
  small := ho.small
  pos := ho.pos
  unused := hunused
  clear a h1 h2 := (h.same o ho.aligned (fun r _ => hunused r) a h1 h2).trans (ho.clear a h1 h2)
  one := by
    rw [h.counts _ (by rw [div_mul_of_aligned ho.aligned]; exact ho.inside)]
    exact ho.one

theorem place_update (b : Store) {i : Nat} (hi : i < img.l1Size)
    (hnone : img.place l1 b (.l2 i) = none) {value : Nat} (hvalue : hostOffset value = o)
    (h0 : o ≠ 0) (hE : img.l2Entries * 8 ≤ img.clusterSize)
    (hclear : ∀ a, o ≤ a → a < o + img.clusterSize → b a = 0) :
    img.place (Function.update l1 i value) b (.l2 i) = some o ∧
      ∀ r, r ≠ .l2 i → img.place (Function.update l1 i value) b r = img.place l1 b r := by
  have hself : Function.update l1 i value i = value := Function.update_self ..
  have hold : ¬ hostOffset (l1 i) ≠ 0 := fun hne => by
    rw [place_l2.mpr ⟨hi, rfl, hne⟩] at hnone
    cases hnone
  refine ⟨place_l2.mpr ⟨hi, by rw [hself, hvalue], h0⟩, fun r hr => ?_⟩
  cases r with
  | header | l1 i' | table i' | block k => rfl
  | l2 i' =>
    grind [place]
  | data i' j p =>
    simp only [place]
    by_cases hii : i' = i
    · subst hii
      have hnothing : ¬ (i' < img.l1Size ∧ hostOffset (l1 i') ≠ 0 ∧ j < img.l2Entries) :=
        fun hc => hold hc.2.1
      rw [hself, hvalue, if_neg hnothing]
      grind [entry64_zero, hosts_zero]
    · rw [Function.update_of_ne hii]

theorem Preserved.update (h : img.Sound l1 f) (hi : g / img.l2Entries < img.l1Size)
    (hnone : img.place l1 f.bytes (.l2 (g / img.l2Entries)) = none) (ho : img.Free e (l1, f) o) :
    img.Preserved e G ok (l1, f)
      (Function.update l1 (g / img.l2Entries) (o ||| copiedFlag), f) := by
  obtain ⟨hE, _⟩ := h.entries
  obtain ⟨hnew, hrest⟩ := place_update f.bytes hi hnone (ho.host h) ho.pos (Nat.le_of_eq hE) ho.clear
  have hcases : ∀ r o', img.place (Function.update l1 (g / img.l2Entries) (o ||| copiedFlag))
      f.bytes r = some o' → img.place l1 f.bytes r = some o' ∨
        r = .l2 (g / img.l2Entries) ∧ o' = o := by
    grind
  refine ⟨?_, Nat.le_refl _, fun r o' ho' => ?_, fun r o' ho' => ?_, fun _ _ _ => .of_bytes rfl,
    fun _ _ => rfl, fun _ hcount => ?_⟩
  · exact h.extend (.of_bytes rfl) (Nat.le_refl _) (.l2 (g / img.l2Entries)) ho.aligned ho.inside
      ho.unused hcases
  · grind
  · exact (hcases r o' ho').imp_right fun ⟨_, heq⟩ => heq ▸ ho.new
  · exact Counted.of_kept (x := (l1, f)) h hcount (fun _ _ => rfl) fun r o' ho' =>
      (hcases r o' ho').imp_right fun ⟨_, heq⟩ => heq ▸ ho.one

theorem Preserved.link (h : img.Sound l1 f) (hg : G g)
    (ht : img.place l1 f.bytes (.l2 (g / img.l2Entries)) = some t)
    (hplain : ¬ isCompressed (entry64 f.bytes (img.entryAt t g)))
    (hnone : hostOffset (entry64 f.bytes (img.entryAt t g)) = 0) (ho : img.Free e (l1, f) o) :
    img.Preserved e G ok (l1, f) (l1, f.write (img.entryAt t g) (entryFor o)) := by
  have hpos := h.clusterSize_pos
  obtain ⟨hle, hfit⟩ := h.entryAt_fits t g o
  have hj := h.mod_entries_lt g
  obtain ⟨hnew, hrest⟩ := h.place_link_data ht hj ho.value_lt
  rw [ho.hosts h] at hnew
  -- the entry referred to nothing
  have hold : ∀ p, img.place l1 f.bytes (.data (g / img.l2Entries) (g % img.l2Entries) p) = none := by
    intro p
    cases hp : img.place l1 f.bytes (.data (g / img.l2Entries) (g % img.l2Entries) p) with
    | none => rfl
    | some o' =>
      obtain ⟨t', ht', _, hhost⟩ := place_data.mp hp
      obtain rfl := Option.some.inj (ht.symm.trans ht')
      have hempty : img.hosts (entry64 f.bytes (t + g % img.l2Entries * 8)) = [] :=
        hosts_of_none hplain hnone
      rw [hempty] at hhost
      cases hhost
  have hend : img.fileEnd (f.write (img.entryAt t g) (entryFor o)) = img.fileEnd f := by
    have := h.le_end ht
    exact fileEnd_write hpos (by omega)
  have hsame : ∀ r' {o'}, img.place l1 f.bytes r' = some o' → r' ≠ .l2 (g / img.l2Entries) →
      img.Same f.bytes (f.bytes.write (img.entryAt t g) (entryFor o)) o' := fun _ _ ho' hne =>
    h.same_write ht hle hfit ho' hne
  have hcounts : ∀ c, img.refcount (f.bytes.write (img.entryAt t g) (entryFor o)) c =
      img.refcount f.bytes c := fun c =>
    h.refcount_congr (hrest _ fun p heq => by cases heq) fun o' ho' =>
      hsame _ ho' (fun heq => by cases heq)
  have hcases : ∀ r o', img.place l1 (f.bytes.write (img.entryAt t g) (entryFor o)) r = some o' →
      img.place l1 f.bytes r = some o' ∨
        r = .data (g / img.l2Entries) (g % img.l2Entries) 0 ∧ o' = o := by
    intro r o' ho'
    by_cases hr : ∃ p, r = .data (g / img.l2Entries) (g % img.l2Entries) p
    · obtain ⟨p, rfl⟩ := hr
      have hp := (hnew p).symm.trans ho'
      cases p with
      | zero => exact .inr ⟨rfl, (Option.some.inj hp).symm⟩
      | succ p => cases hp
    · exact .inl ((hrest r fun p heq => hr ⟨p, heq⟩).symm.trans ho')
  refine ⟨?_, Nat.le_of_eq hend.symm, fun r o' ho' => ?_, fun r o' ho' => ?_,
    fun o' ho' hout => ?_, fun c _ => hcounts c, fun _ hcount => ?_⟩
  · exact h.extend (hsame .header rfl (fun heq => by cases heq)) (Nat.le_of_eq hend.symm) _
      ho.aligned (Nat.lt_of_lt_of_le ho.inside (Nat.le_of_eq hend.symm)) ho.unused hcases
  · refine (hrest r fun p heq => ?_).trans ho'
    rw [heq, hold p] at ho'
    cases ho'
  · exact (hcases r o' ho').imp_right fun ⟨_, heq⟩ => heq ▸ ho.new
  · refine Same.write ho' (h.aligned _ _ ht) (fun heq => ?_) hle hfit
    refine hout (.l2 (g / img.l2Entries)) ⟨g, hg, rfl⟩ ?_
    rw [heq]
    exact (hrest _ fun p heq => by cases heq).trans ht
  · exact Counted.of_kept (x := (l1, f)) h hcount (fun c _ => hcounts c) fun r o' ho' =>
      (hcases r o' ho').imp_right fun ⟨_, heq⟩ => (hcounts _).trans (heq ▸ ho.one)

theorem Preserved.writeL1 (h : img.Sound l1 f) (hi : g / img.l2Entries < img.l1Size) (o : Nat) :
    img.Preserved e G ok (l1, f)
        (l1, f.write (img.l1TableOffset + g / img.l2Entries * 8) (entryFor o)) ∧
      ∀ r, img.place l1 (f.write (img.l1TableOffset + g / img.l2Entries * 8) (entryFor o)).bytes r =
        img.place l1 f.bytes r := by
  obtain ⟨t, ht, hle, hfit⟩ := h.l1_entry hi
  have hfit' : img.l1TableOffset + g / img.l2Entries * 8 + (entryFor o).length ≤
      t + img.clusterSize := by rw [length_entryFor]; exact hfit
  exact ⟨.of_write h ht trivial hle hfit' (fun _ heq => by cases heq) (fun _ heq => by cases heq)
      (fun _ heq => by cases heq),
    h.place_write ht hle hfit' (fun _ heq => by cases heq) (fun _ heq => by cases heq)⟩

theorem Link.preserved (h : img.Sound x.1 x.2) (hlink : img.Link e G ok synced x y) :
    img.Preserved e G ok x y := by
  cases hlink with
  | grow he hg hok =>
    refine ⟨hg.sound, hg.grow, hg.kept, fun r o ho => ?_, fun o ho hout => ?_, hg.counts, hok⟩
    · exact (hg.fresh r o ho).imp_right fun hnew => he.trans hnew.2
    · exact hg.same o ho (fun i => hout _ trivial) (fun k => hout _ trivial)
  | table hg hi hnone ho hf' =>
    rcases hf' with rfl | ⟨_, rfl⟩
    · obtain ⟨hpre, hplace⟩ := Preserved.writeL1 (G := G) h hi _
      refine hpre.trans (.update hpre.sound hi ((hplace _).trans hnone) ?_)
      exact ho.preserved hpre fun r hr => ho.unused r ((hplace r).symm.trans hr)
    · exact .update h hi hnone ho
  | data hg ht hplain hnone ho => exact .link h hg ht hplain hnone ho

theorem Sound.place_normal (h : img.Sound l1 f)
    (ht : img.place l1 f.bytes (.l2 (g / img.l2Entries)) = some t)
    (hplain : ¬ isCompressed (entry64 f.bytes (img.entryAt t g)))
    (hsome : hostOffset (entry64 f.bytes (img.entryAt t g)) ≠ 0) :
    img.place l1 f.bytes (.data (g / img.l2Entries) (g % img.l2Entries) 0) =
      some (hostOffset (entry64 f.bytes (img.entryAt t g))) := by
  refine place_data.mpr ⟨t, ht, h.mod_entries_lt g, ?_⟩
  exact congrArg (·[0]?) (hosts_of_some hplain hsome)

theorem Stored.preserved (h : img.Sound x.1 x.2) (hg : G (cursor / img.clusterSize))
    (hstore : img.Stored cursor chunk x y) : img.Preserved e G ok x y := by
  cases hstore with
  | mk ht hplain hsome hfit =>
    refine .of_write h (h.place_normal ht hplain hsome) ⟨_, hg, rfl, rfl, rfl⟩ (Nat.le_add_right ..)
      ?_ (fun _ heq => by cases heq) (fun _ heq => by cases heq) (fun _ heq => by cases heq)
    rw [Nat.add_assoc]
    exact Nat.add_le_add_left hfit _

theorem Edit.preserved (h : img.Sound x.1 x.2) (hedit : img.Edit e G ok x y) :
    img.Preserved e G ok x y := by
  cases hedit with
  | link hlink => exact hlink.preserved h
  | store hg hstore => exact hstore.preserved h hg

variable (img) in
def Edits (e : Nat) (G : Nat → Prop) (ok : Prop) : View → View → Prop :=
  Relation.ReflTransGen (img.Edit e G ok)

theorem Edits.preserved (h : img.Sound x.1 x.2) (hedits : img.Edits e G ok x y) :
    img.Preserved e G ok x y := by
  induction hedits with
  | refl => exact .refl h
  | tail _ hedit ih => exact ih.trans (hedit.preserved ih.sound)

end Qcow2DiskImage

end DukeX.Qcow2
