import DukeX.Fatx.Directory

/-!
# The directory of a disc image

A directory table of an Xbox disc is a run of sectors; the records in them are aligned to four bytes
and do not cross the end of a sector, and what is left of a sector is filled with `0xFF`.
-/

namespace DukeX.Xiso

open DukeX.Lib DukeX.Swift DukeX.Fatx

/-! ## The reader -/

structure DirectoryEntry where
  name : String
  sector : Nat
  size : Nat
  deriving DecidableEq

def littleEndianUInt32 (data : Data) (offset : Nat) : Option Nat :=
  if offset + 4 ≤ data.length then some (uint32LE data offset) else none

def stringFromASCII (data : Data) : Option String :=
  if data.all (· < 128) then some (String.ofList (data.map fun b => Char.ofNat b.toNat)) else none

def nameOf (nameData : Data) : Option String :=
  ((stringFromUTF8 nameData).or (stringFromASCII nameData)).filter fun name => !name.isEmpty

def parseFrom : Nat → Nat → Data → List (Nat × DirectoryEntry)
  | 0, _, _ => []
  | fuel + 1, offset, rest =>
    if 14 ≤ rest.length then
      match littleEndianUInt32 rest 4, littleEndianUInt32 rest 8 with
      | some sector, some size =>
        let nameLength := byte rest 13
        if 0 < nameLength ∧ 14 + nameLength ≤ rest.length then
          let entryLength := (14 + nameLength + 3) / 4 * 4
          let entries := parseFrom fuel (offset + entryLength) (rest.drop entryLength)
          match nameOf ((rest.drop 14).take nameLength) with
          | some name => (offset, { name, sector, size }) :: entries
          | none => entries
        else []
      | _, _ => []
    else []

def locatedEntries (data : Data) : List (Nat × DirectoryEntry) := parseFrom data.length 0 data

def parseDirectoryEntries (data : Data) : List DirectoryEntry := (locatedEntries data).map Prod.snd

structure VolumeDescriptor where
  baseSector : Nat
  rootDirectorySector : Nat
  rootDirectorySize : Nat

def readData (file : Data) (offset length : Nat) : Data := (file.drop offset).take length

def findDefaultXBE (lowercased : String → String) (file : Data) (descriptor : VolumeDescriptor) :
    Option DirectoryEntry :=
  let rootOffset := (descriptor.baseSector + descriptor.rootDirectorySector) * 2048
  let rootLength := min descriptor.rootDirectorySize (4 * 1024 * 1024)
  (parseDirectoryEntries (readData file rootOffset rootLength)).find? fun entry =>
    let name := lowercased entry.name
    name == "default.xbe" || name == "default.xeb"

/-! ## Directory tables -/

structure Record where
  left : Nat
  right : Nat
  sector : Nat
  size : Nat
  attributes : UInt8
  name : Data
  name_pos : 0 < name.length
  name_le : name.length ≤ 255
  sector_lt : sector < 2 ^ 32
  size_lt : size < 2 ^ 32

def Record.length (r : Record) : Nat := (14 + r.name.length + 3) / 4 * 4

def Record.header (r : Record) : Data :=
  leBytes 2 r.left ++ leBytes 2 r.right ++ leBytes 4 r.sector ++ leBytes 4 r.size ++
    [r.attributes, UInt8.ofNat r.name.length]

def filling (n : Nat) : Data := List.replicate n 0xFF

def Record.bytes (r : Record) : Data :=
  r.header ++ (r.name ++ filling (r.length - (14 + r.name.length)))

def Record.entry (r : Record) : Option DirectoryEntry :=
  (nameOf r.name).map fun name => { name, sector := r.sector, size := r.size }

structure Slot where
  gap : Nat
  record : Record

def bytesOf (slots : List Slot) (rest : Data) : Data :=
  match slots with
  | [] => rest
  | slot :: slots => filling slot.gap ++ (slot.record.bytes ++ bytesOf slots rest)

def offsetsFrom (offset : Nat) : List Slot → List Nat
  | [] => []
  | slot :: slots =>
    (offset + slot.gap) :: offsetsFrom (offset + slot.gap + slot.record.length) slots

def placesFrom (offset : Nat) : List Slot → List (Nat × Nat)
  | [] => []
  | slot :: slots =>
    (offset + slot.gap, 14 + slot.record.name.length) ::
      placesFrom (offset + slot.gap + slot.record.length) slots

/-- A well-formed directory table. -/
structure DirectoryTable where
  slots : List Slot
  tail : Nat
  aligned : ∀ place ∈ placesFrom 0 slots, place.1 % 4 = 0
  inside : ∀ place ∈ placesFrom 0 slots, place.1 / 2048 = (place.1 + place.2 - 1) / 2048
  sectors : (bytesOf slots (filling tail)).length % 2048 = 0

namespace DirectoryTable

def bytes (t : DirectoryTable) : Data := bytesOf t.slots (filling t.tail)

def offsets (t : DirectoryTable) : List Nat := offsetsFrom 0 t.slots

end DirectoryTable

variable {n : Nat}

theorem ofNat_ne_ff (h : n < 255) : (0xFF : UInt8) ≠ UInt8.ofNat n := by
  intro heq
  have hnat := congrArg UInt8.toNat heq
  rw [UInt8.toNat_ofNat', Nat.mod_eq_of_lt (by omega)] at hnat
  have : (0xFF : UInt8).toNat = 255 := rfl
  omega

theorem notMem_utf8EncodeChar (c : Char) : (0xFF : UInt8) ∉ String.utf8EncodeChar c := by
  unfold String.utf8EncodeChar
  dsimp only
  split
  · simp only [List.mem_singleton]
    exact ofNat_ne_ff (by omega)
  · split
    · simp only [List.mem_cons, List.not_mem_nil, or_false, not_or]
      exact ⟨ofNat_ne_ff (by omega), ofNat_ne_ff (by omega)⟩
    · split
      · simp only [List.mem_cons, List.not_mem_nil, or_false, not_or]
        exact ⟨ofNat_ne_ff (by omega), ofNat_ne_ff (by omega), ofNat_ne_ff (by omega)⟩
      · simp only [List.mem_cons, List.not_mem_nil, or_false, not_or]
        grind [ofNat_ne_ff]

variable {data xs : Data}

theorem stringFromUTF8_of_mem (h : (0xFF : UInt8) ∈ data) : stringFromUTF8 data = none := by
  unfold stringFromUTF8 String.fromUTF8?
  by_cases hvalid : ByteArray.IsValidUTF8 ⟨data.toArray⟩
  · -- valid bytes are those of a string
    have hdata : utf8 (String.fromUTF8 ⟨data.toArray⟩ hvalid) = data := rfl
    grind [utf8_eq_flatMap, notMem_utf8EncodeChar]
  · exact dif_neg hvalid

theorem nameOf_of_mem (h : (0xFF : UInt8) ∈ data) : nameOf data = none := by
  have hascii : stringFromASCII data = none := by
    refine if_neg fun hall => ?_
    have := List.all_eq_true.mp hall _ h
    simp at this
  rw [nameOf, stringFromUTF8_of_mem h, hascii]
  rfl

def parse (offset : Nat) (rest : Data) : List (Nat × DirectoryEntry) :=
  parseFrom rest.length offset rest

def turn (offset : Nat) (rest : Data) (next : Nat → List (Nat × DirectoryEntry)) :
    List (Nat × DirectoryEntry) :=
  let nameLength := byte rest 13
  if 14 ≤ rest.length ∧ 0 < nameLength ∧ 14 + nameLength ≤ rest.length then
    let entries := next ((14 + nameLength + 3) / 4 * 4)
    match nameOf ((rest.drop 14).take nameLength) with
    | some name =>
      (offset, { name, sector := uint32LE rest 4, size := uint32LE rest 8 }) :: entries
    | none => entries
  else []

theorem parseFrom_succ (fuel offset : Nat) (rest : Data) :
    parseFrom (fuel + 1) offset rest =
      turn offset rest fun n => parseFrom fuel (offset + n) (rest.drop n) := by
  rw [parseFrom, turn]
  by_cases hlen : 14 ≤ rest.length
  · rw [if_pos hlen, littleEndianUInt32, littleEndianUInt32, if_pos (by omega), if_pos (by omega)]
    simp only [hlen, true_and]
  · rw [if_neg hlen, if_neg (fun h => hlen h.1)]

variable {offset : Nat} {rest : Data}

theorem parseFrom_of_le {fuel : Nat} (h : rest.length ≤ fuel) :
    parseFrom fuel offset rest = parse offset rest := by
  suffices hboth : ∀ fuel fuel' offset (rest : Data), rest.length ≤ fuel → rest.length ≤ fuel' →
      parseFrom fuel offset rest = parseFrom fuel' offset rest from
    hboth _ _ _ _ h (Nat.le_refl _)
  clear h
  intro fuel
  induction fuel with
  | zero =>
    intro fuel' offset rest h _
    have hnil : rest = [] := List.length_eq_zero_iff.mp (Nat.le_zero.mp h)
    subst hnil
    cases fuel' <;> rfl
  | succ fuel ih =>
    intro fuel' offset rest h h'
    cases fuel' with
    | zero =>
      grind
    | succ fuel' =>
      rw [parseFrom_succ, parseFrom_succ, turn, turn]
      split
      · rename_i hturn
        have hdrop : (rest.drop ((14 + byte rest 13 + 3) / 4 * 4)).length + 1 ≤ rest.length := by
          rw [List.length_drop]
          omega
        dsimp only
        rw [ih fuel' _ _ (by omega) (by omega)]
      · rfl

theorem parse_eq (offset : Nat) (rest : Data) :
    parse offset rest = turn offset rest fun n => parse (offset + n) (rest.drop n) := by
  rw [← parseFrom_of_le (Nat.le_succ rest.length), parseFrom_succ, turn, turn]
  simp [parseFrom_of_le]

/-! ## Records and filling -/

theorem length_header (r : Record) : r.header.length = 14 := by
  simp [Record.header]

theorem name_le_length (r : Record) : 14 + r.name.length ≤ r.length := by
  unfold Record.length
  omega

theorem length_bytes (r : Record) : r.bytes.length = r.length := by
  grind [name_le_length, Record.bytes, filling, length_header]

variable {i : Nat}

theorem byte_append_left (ys : Data) (h : i < xs.length) : byte (xs ++ ys) i = byte xs i := by
  simp only [byte, List.getD_eq_getElem?_getD, List.getElem?_append_left h]

theorem uint32LE_append_left (ys : Data) (h : i + 4 ≤ xs.length) :
    uint32LE (xs ++ ys) i = uint32LE xs i := by
  grind [uint32LE_eq, byte_append_left]

theorem uint32LE_header_sector (r : Record) : uint32LE r.header 4 = r.sector := by
  have h := r.sector_lt
  rw [uint32LE_eq]
  simp [Record.header, leBytes, byte]
  omega

theorem uint32LE_header_size (r : Record) : uint32LE r.header 8 = r.size := by
  have h := r.size_lt
  rw [uint32LE_eq]
  simp [Record.header, leBytes, byte]
  omega

theorem byte_header_name (r : Record) : byte r.header 13 = r.name.length := by
  have h := r.name_le
  simp [Record.header, leBytes, byte]
  omega

theorem parse_record (offset : Nat) (r : Record) (tail : Data) :
    parse offset (r.bytes ++ tail) =
      (r.entry.map fun entry => (offset, entry)).toList ++ parse (offset + r.length) tail := by
  have hlen := length_header r
  have hbytes : r.bytes ++ tail =
      r.header ++ (r.name ++ (filling (r.length - (14 + r.name.length)) ++ tail)) := by
    simp [Record.bytes]
  have hdrop : (r.bytes ++ tail).drop r.length = tail := by
    rw [← length_bytes, List.drop_left]
  have htotal : 14 + r.name.length ≤ (r.bytes ++ tail).length := by
    simp_all
  rw [parse_eq, turn]
  rw [hbytes] at htotal hdrop ⊢
  rw [byte_append_left _ (by omega), byte_header_name, if_pos ⟨by omega, r.name_pos, htotal⟩,
    uint32LE_append_left _ (by omega), uint32LE_append_left _ (by omega), uint32LE_header_sector,
    uint32LE_header_size]
  simp only
  rw [← hlen, List.drop_left, List.take_left, hlen]
  change (match nameOf r.name with
    | some name => (offset, _) :: parse (offset + r.length) (List.drop r.length _)
    | none => parse (offset + r.length) (List.drop r.length _)) = _
  rw [hdrop]
  unfold Record.entry
  cases nameOf r.name <;> rfl

theorem byte_filling (tail : Data) (h : i < n) : byte (filling n ++ tail) i = 255 := by
  rw [byte_append_left _ (by simpa [filling] using h)]
  simp [byte, filling, h]

theorem drop_filling (k m : Nat) (tail : Data) :
    (filling (k + m) ++ tail).drop k = filling m ++ tail := by
  grind [filling]

theorem mem_take_filling {k m : Nat} (hk : 0 < k) (hm : 0 < m) (tail : Data) :
    (0xFF : UInt8) ∈ (filling m ++ tail).take k := by
  cases k with
  | zero => cases hk
  | succ k =>
    cases m with
    | zero => cases hm
    | succ m =>
      simp [filling, List.replicate_succ]

theorem parse_filling_chunk (offset n : Nat) (tail : Data) :
    parse offset (filling (272 + n) ++ tail) = parse (offset + 272) (filling n ++ tail) := by
  have hlen : (filling (272 + n) ++ tail).length = 272 + n + tail.length := by
    simp [filling]
  have hname : nameOf (((filling (272 + n) ++ tail).drop 14).take 255) = none := by
    refine nameOf_of_mem ?_
    rw [show 272 + n = 14 + (258 + n) by omega, drop_filling]
    exact mem_take_filling (by omega) (by omega) tail
  rw [parse_eq, turn, byte_filling tail (by omega)]
  simp only
  rw [if_pos ⟨by omega, by omega, by omega⟩, hname]
  simp only
  rw [drop_filling]

theorem parse_filling_multiple (offset q : Nat) (tail : Data) :
    parse offset (filling (272 * q) ++ tail) = parse (offset + 272 * q) tail := by
  induction q generalizing offset with
  | zero => rfl
  | succ q ih =>
    rw [Nat.mul_succ, Nat.add_comm, parse_filling_chunk, ih, Nat.add_assoc, Nat.add_comm 272]

variable {place : Nat × DirectoryEntry}

theorem mem_turn {next : Nat → List (Nat × DirectoryEntry)} (h : place ∈ turn offset rest next) :
    14 ≤ rest.length ∧ (place.1 = offset ∨ place ∈ next ((14 + byte rest 13 + 3) / 4 * 4)) := by
  unfold turn at h
  dsimp only at h
  split at h
  · rename_i hturn
    refine ⟨hturn.1, ?_⟩
    grind
  · cases h

theorem le_of_mem_parse
    (h : place ∈ parse offset rest) : offset ≤ place.1 := by
  induction hn : rest.length using Nat.strong_induction_on generalizing offset rest with
  | _ n ih =>
    rw [parse_eq] at h
    obtain ⟨hlen, heq | hmem⟩ := mem_turn h
    · omega
    · grind

theorem parse_filling (offset n : Nat) : parse offset (filling n) = [] := by
  refine List.eq_nil_iff_forall_not_mem.mpr fun place h => ?_
  induction n using Nat.strong_induction_on generalizing offset with
  | _ n ih =>
    rw [parse_eq] at h
    have hlength : (filling n).length = n := by simp [filling]
    by_cases hn : 14 ≤ n
    · -- the length of the name is taken from the filling
      have hbyte : byte (filling n) 13 = 255 := by
        have := byte_filling [] (show 13 < n by omega)
        rwa [List.append_nil] at this
      have hname : nameOf (((filling n).drop 14).take 255) = none := by
        by_cases hlast : n = 14
        · subst hlast
          rfl
        · refine nameOf_of_mem ?_
          have hdrop := drop_filling 14 (n - 14) []
          grind [mem_take_filling]
      unfold turn at h
      dsimp only at h
      split at h
      · rw [hbyte] at h
        simp only [hname] at h
        have hrest : (filling n).drop 272 = filling (n - 272) := by
          simp [filling]
        exact ih (n - 272) (by omega) (offset + 272) (hrest ▸ h)
      · cases h
    · have := (mem_turn h).1
      omega

theorem notMem_parse_filling (offset : Nat) {gap : Nat} (hgap : gap % 272 ≠ 0) (tail : Data) :
    offset + gap ∉ (parse offset (filling gap ++ tail)).map Prod.fst := by
  induction gap using Nat.strong_induction_on generalizing offset with
  | _ gap ih =>
    by_cases hlong : 272 ≤ gap
    · obtain ⟨n, rfl⟩ := Nat.exists_eq_add_of_le hlong
      rw [parse_filling_chunk, ← Nat.add_assoc]
      exact ih n (by omega) (offset + 272) (by omega)
    · intro hmem
      obtain ⟨place, hplace, heq⟩ := List.mem_map.mp hmem
      rw [parse_eq] at hplace
      obtain ⟨_, hown | hnext⟩ := mem_turn hplace
      · omega
      · -- the next turn starts behind the record: 16 bytes on at least, and 272 from a header of filling
        have hle := le_of_mem_parse hnext
        by_cases hheader : 14 ≤ gap
        · rw [byte_filling tail (by omega)] at hle
          omega
        · omega

/-! ## The whole table -/

def InStep (slots : List Slot) : Prop :=
  ∀ slot ∈ slots, slot.gap % 272 = 0 ∧ slot.record.entry.isSome = true

def placed (offset : Nat) : List Slot → List (Nat × DirectoryEntry)
  | [] => []
  | slot :: slots =>
    (slot.record.entry.map fun entry => (offset + slot.gap, entry)).toList ++
      placed (offset + slot.gap + slot.record.length) slots

variable {slots : List Slot}

theorem parse_bytesOf (h : InStep slots) (offset n : Nat) :
    parse offset (bytesOf slots (filling n)) = placed offset slots := by
  induction slots generalizing offset with
  | nil => exact parse_filling offset n
  | cons slot slots ih =>
    obtain ⟨hgap, _⟩ := h slot List.mem_cons_self
    obtain ⟨q, hq⟩ := Nat.dvd_of_mod_eq_zero hgap
    rw [bytesOf, hq, parse_filling_multiple, parse_record, ← hq,
      ih fun s hs => h s (List.mem_cons_of_mem slot hs)]
    rfl

theorem placed_fst (h : InStep slots) (offset : Nat) :
    (placed offset slots).map Prod.fst = offsetsFrom offset slots := by
  induction slots generalizing offset with
  | nil => rfl
  | cons slot slots ih =>
    obtain ⟨_, hname⟩ := h slot List.mem_cons_self
    obtain ⟨entry, hentry⟩ := Option.isSome_iff_exists.mp hname
    rw [placed, hentry, offsetsFrom, ← ih fun s hs => h s (List.mem_cons_of_mem slot hs)]
    rfl

theorem placed_snd (slots : List Slot) (offset : Nat) :
    (placed offset slots).map Prod.snd = slots.filterMap fun slot => slot.record.entry := by
  induction slots generalizing offset with
  | nil => rfl
  | cons slot slots ih =>
    rw [placed, List.map_append, ih, List.filterMap_cons]
    cases slot.record.entry <;> rfl

theorem inStep_of_parse
    (h : (parse offset (bytesOf slots (filling n))).map Prod.fst = offsetsFrom offset slots) :
    InStep slots := by
  induction slots generalizing offset with
  | nil => exact fun _ hs => nomatch hs
  | cons slot slots ih =>
    rw [bytesOf, offsetsFrom] at h
    have hgap : slot.gap % 272 = 0 := by
      by_contra hgap
      have hmem : offset + slot.gap ∈ (parse offset (filling slot.gap ++
          (slot.record.bytes ++ bytesOf slots (filling n)))).map Prod.fst := by
        rw [h]
        exact List.mem_cons_self
      exact notMem_parse_filling offset hgap _ hmem
    obtain ⟨q, hq⟩ := Nat.dvd_of_mod_eq_zero hgap
    rw [hq, parse_filling_multiple, ← hq, parse_record] at h
    cases hentry : slot.record.entry with
    | none =>
      -- what follows the record is found behind it
      rw [hentry] at h
      have hmem : offset + slot.gap ∈ (parse (offset + slot.gap + slot.record.length)
          (bytesOf slots (filling n))).map Prod.fst := by
        have h : (parse (offset + slot.gap + slot.record.length)
          (bytesOf slots (filling n))).map Prod.fst = _ := h
        rw [h]
        exact List.mem_cons_self
      obtain ⟨place, hplace, heq⟩ := List.mem_map.mp hmem
      have hle := le_of_mem_parse hplace
      have hpos := name_le_length slot.record
      omega
    | some entry =>
      rw [hentry] at h
      have hrest := (List.cons.inj h).2
      intro s hs
      cases List.mem_cons.mp hs with
      | inl heq =>
        subst heq
        exact ⟨hgap, by rw [hentry]; rfl⟩
      | inr hmem => exact ih hrest s hmem

def IsRoot (t : DirectoryTable) (file : Data) (descriptor : VolumeDescriptor) : Prop :=
  descriptor.rootDirectorySize = t.bytes.length ∧
    (file.drop ((descriptor.baseSector + descriptor.rootDirectorySector) * 2048)).take
      t.bytes.length = t.bytes

def HasDefaultXBE (lowercased : String → String) (t : DirectoryTable) : Prop :=
  ∃ slot ∈ t.slots, ∃ name, nameOf slot.record.name = some name ∧ lowercased name = "default.xbe"

/-- **When the reader finds every record.** It makes entries of the records of a table, each at its
place and nothing else, exactly when the filling before every record is a multiple of 272 bytes and
every name can be read. -/
theorem locatedEntries_iff (lowercased : String → String) (t : DirectoryTable) :
    ((locatedEntries t.bytes).map Prod.fst = t.offsets ↔ InStep t.slots) ∧
    (InStep t.slots → parseDirectoryEntries t.bytes = t.slots.filterMap fun slot => slot.record.entry) ∧
    (InStep t.slots → t.bytes.length ≤ 4 * 1024 * 1024 → HasDefaultXBE lowercased t →
      ∀ file descriptor, IsRoot t file descriptor →
        ∃ entry, findDefaultXBE lowercased file descriptor = some entry) := by
  have hentries : InStep t.slots →
      parseDirectoryEntries t.bytes = t.slots.filterMap fun slot => slot.record.entry := by
    intro h
    have hparse : locatedEntries t.bytes = placed 0 t.slots := parse_bytesOf h 0 t.tail
    rw [parseDirectoryEntries, hparse, placed_snd]
  refine ⟨⟨inStep_of_parse, fun h => ?_⟩, hentries, ?_⟩
  · have hparse : locatedEntries t.bytes = placed 0 t.slots := parse_bytesOf h 0 t.tail
    rw [hparse]
    exact placed_fst h 0
  · intro h hsize ⟨slot, hslot, name, hname, hlower⟩ file descriptor ⟨hroot, hfile⟩
    have hdata : readData file ((descriptor.baseSector + descriptor.rootDirectorySector) * 2048)
        (min descriptor.rootDirectorySize (4 * 1024 * 1024)) = t.bytes := by
      rw [hroot, Nat.min_eq_left hsize]
      exact hfile
    have hmem : (⟨name, slot.record.sector, slot.record.size⟩ : DirectoryEntry) ∈
        parseDirectoryEntries t.bytes := by
      rw [hentries h]
      refine List.mem_filterMap.mpr ⟨slot, hslot, ?_⟩
      rw [Record.entry, hname]
      rfl
    unfold findDefaultXBE
    simp only [hdata]
    refine Option.isSome_iff_exists.mp (List.find?_isSome.mpr ⟨_, hmem, ?_⟩)
    simp [hlower]

theorem isRoot_start (file : Data) : (file.drop ((0 + 0) * 2048)).take file.length = file := by
  simp

def fileRecord (name : String) (hpos : 0 < (utf8 name).length) (hle : (utf8 name).length ≤ 255) :
    Record :=
  { left := 0, right := 0, sector := 40, size := 4096, attributes := 0x20, name := utf8 name,
    name_pos := hpos, name_le := hle, sector_lt := by decide, size_lt := by decide }

def defaultRecord : Record := fileRecord "Default.xbe" (by decide) (by decide)

def oneSector : DirectoryTable where
  slots := [⟨0, defaultRecord⟩]
  tail := 2020
  aligned := by decide
  inside := by decide
  sectors := by decide +kernel

def twoSectors : DirectoryTable where
  slots := [⟨0, fileRecord "a" (by decide) (by decide)⟩, ⟨2032, defaultRecord⟩]
  tail := 2020
  aligned := by decide
  inside := by decide
  sectors := by decide +kernel

theorem findDefaultXBE_oneSector :
    InStep oneSector.slots ∧
    ∃ entry, findDefaultXBE String.toLower oneSector.bytes ⟨0, 0, 2048⟩ = some entry := by
  have hstep : InStep oneSector.slots := by
    intro slot hslot
    rw [List.mem_singleton.mp hslot]
    decide
  refine ⟨hstep, (locatedEntries_iff String.toLower oneSector).2.2 hstep (by decide +kernel) ?_ _ _ ?_⟩
  · exact ⟨_, List.mem_singleton.mpr rfl, "Default.xbe", by decide +kernel, by decide +kernel⟩
  · exact ⟨by decide +kernel, isRoot_start _⟩

theorem findDefaultXBE_twoSectors :
    HasDefaultXBE String.toLower twoSectors ∧ IsRoot twoSectors twoSectors.bytes ⟨0, 0, 4096⟩ ∧
    (parseDirectoryEntries twoSectors.bytes).map (·.name) = ["a"] ∧
    findDefaultXBE String.toLower twoSectors.bytes ⟨0, 0, 4096⟩ = none := by
  refine ⟨⟨⟨2032, defaultRecord⟩, ?_, "Default.xbe", ?_, ?_⟩, ⟨?_, isRoot_start _⟩, ?_, ?_⟩
  · exact List.mem_cons_of_mem _ (List.mem_singleton.mpr rfl)
  all_goals decide +kernel

end DukeX.Xiso
