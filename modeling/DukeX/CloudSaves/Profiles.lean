import DukeX.CloudSaves.ContentHash
import DukeX.Fatx.Partition

/-!
# The rules of the content hash

A profile says, title by title, which part of a file counts for the content hash.
-/

namespace DukeX.CloudSaves

open DukeX.Lib DukeX.Swift DukeX.Fatx

def IsInt (i : Int) : Prop := -2 ^ 63 ≤ i ∧ i < 2 ^ 63

instance (i : Int) : Decidable (IsInt i) := by
  unfold IsInt
  infer_instance

abbrev SwiftInt := { i : Int // IsInt i }

def checkedInt (i : Int) : Except Halt Int := if IsInt i then .ok i else .error .trap

def uniqueKeysWithValues {α : Type} (pairs : List (String × α)) :
    Except Halt (List (String × α)) :=
  if (pairs.map Prod.fst).Nodup then .ok pairs else .error .trap

theorem checkedInt_of_isInt {i : Int} (h : IsInt i) : checkedInt i = .ok i := if_pos h

theorem uniqueKeysWithValues_ok_iff {α : Type} (pairs : List (String × α)) :
    (∃ dictionary, uniqueKeysWithValues pairs = .ok dictionary) ↔ (pairs.map Prod.fst).Nodup := by
  unfold uniqueKeysWithValues
  by_cases h : (pairs.map Prod.fst).Nodup
  · simp_all
  · simp_all

/-! ## A rule -/

structure XBLCloudSaveContentHashRule where
  dataFile : String
  dataOffset : Option SwiftInt
  dataLen : Option SwiftInt
  noRoam : Bool

namespace XBLCloudSaveContentHashRule

def ofDecoded (dataFile : Option String) (dataOffset dataLen : Option SwiftInt)
    (noRoam : Option Bool) : XBLCloudSaveContentHashRule :=
  { dataFile := dataFile.getD "", dataOffset, dataLen, noRoam := noRoam.getD false }

def «matches» (wildcard : String → String → Bool) (rule : XBLCloudSaveContentHashRule)
    (relativePath : String) : Bool :=
  if rule.dataFile.isEmpty then false
  else
    let normalizedPath := slashed relativePath
    let candidate := if rule.dataFile.contains '/' then normalizedPath else lastPathComponent normalizedPath
    wildcard rule.dataFile candidate

def startFor (rule : XBLCloudSaveContentHashRule) (count : Int) : Except Halt Int :=
  let offset : Int := (rule.dataOffset.map Subtype.val).getD 0
  if 0 ≤ offset then .ok offset else checkedInt (count + offset)

def lengthFor (rule : XBLCloudSaveContentHashRule) (count start : Int) : Except Halt Int :=
  match rule.dataLen with
  | some dataLen =>
    if 0 ≤ dataLen.1 then .ok dataLen.1
    else do
      let rest ← checkedInt (count - start)
      checkedInt (rest + dataLen.1)
  | none => checkedInt (count - start)

def payloadForHash (rule : XBLCloudSaveContentHashRule) (data : Data) : Except Halt Data := do
  let count : Int := data.length
  let start ← rule.startFor count
  if 0 ≤ start ∧ start ≤ count then
    let length ← rule.lengthFor count start
    if 0 ≤ length then
      let reach ← checkedInt (start + length)
      let stop := min count reach
      if start ≤ stop then return (data.drop start.toNat).take (stop - start).toNat
      else return data
    else return data
  else return data

def start (rule : XBLCloudSaveContentHashRule) (count : Nat) : Int :=
  let offset : Int := (rule.dataOffset.map Subtype.val).getD 0
  if 0 ≤ offset then offset else count + offset

/-- The payload of a file with `count` bytes starts inside the file and is said to end beyond what an
`Int` can hold. -/
def Overflows (rule : XBLCloudSaveContentHashRule) (count : Nat) : Prop :=
  0 ≤ rule.start count ∧ rule.start count ≤ count ∧
    ∃ dataLen, rule.dataLen = some dataLen ∧ 2 ^ 63 ≤ rule.start count + dataLen.1

variable {rule : XBLCloudSaveContentHashRule} {data : Data}

theorem isInt_offset (rule : XBLCloudSaveContentHashRule) :
    IsInt ((rule.dataOffset.map Subtype.val).getD 0) := by
  cases rule.dataOffset with
  | none => decide
  | some offset => exact offset.2

theorem startFor_eq {count : Nat} (hlen : count < 2 ^ 63) :
    rule.startFor count = .ok (rule.start count) := by
  have hoffset := rule.isInt_offset
  unfold startFor start
  generalize (rule.dataOffset.map Subtype.val).getD 0 = offset at *
  by_cases h : 0 ≤ offset
  · simp only [if_pos h]
  · simp only [if_neg h]
    refine checkedInt_of_isInt ?_
    unfold IsInt at *
    omega

theorem lengthFor_cases {count : Nat} (hlen : count < 2 ^ 63) {start : Int} (h0 : 0 ≤ start)
    (hle : start ≤ count) :
    (∃ dataLen, rule.dataLen = some dataLen ∧ 0 ≤ dataLen.1 ∧
      rule.lengthFor count start = .ok dataLen.1) ∨
    ∃ length, rule.lengthFor count start = .ok length ∧ start + length ≤ count ∧
      -2 ^ 63 ≤ length ∧ ∀ dataLen, rule.dataLen = some dataLen → dataLen.1 < 0 := by
  have hrest : checkedInt (count - start) = .ok (count - start) := by
    refine checkedInt_of_isInt ?_
    unfold IsInt
    omega
  unfold lengthFor
  cases hl : rule.dataLen with
  | none => exact .inr ⟨_, hrest, by omega, by omega, fun _ h => nomatch h⟩
  | some dataLen =>
    by_cases hneg : 0 ≤ dataLen.1
    · exact .inl ⟨dataLen, rfl, hneg, if_pos hneg⟩
    · have hint : IsInt (count - start + dataLen.1) := by
        have := dataLen.2
        unfold IsInt at *
        omega
      refine .inr ⟨count - start + dataLen.1, ?_, by omega, hint.1, fun _ h => ?_⟩
      · simp [ok_bind, checkedInt_of_isInt, hneg, hrest, hint]
      · cases h
        omega

theorem payloadForHash_ok_iff (hlen : data.length < 2 ^ 63) :
    (∃ payload, rule.payloadForHash data = .ok payload) ↔ ¬ rule.Overflows data.length := by
  unfold payloadForHash Overflows
  simp only [startFor_eq hlen, ok_bind]
  generalize rule.start data.length = start
  by_cases hin : 0 ≤ start ∧ start ≤ data.length
  · rw [if_pos hin]
    -- once the sum is an `Int`, nothing that follows can fail
    have hreturns : ∀ length, IsInt (start + length) → ∃ payload, (if 0 ≤ length then do
        let reach ← checkedInt (start + length)
        if start ≤ min ↑data.length reach then
          return (data.drop start.toNat).take (min ↑data.length reach - start).toNat
        else return data
      else return data : Except Halt Data) = .ok payload := by
      intro length hint
      rw [checkedInt_of_isInt hint, ok_bind]
      split_ifs <;> exact ⟨_, rfl⟩
    rcases @lengthFor_cases rule _ hlen _ hin.1 hin.2 with
      ⟨dataLen, hl, hnn, hlength⟩ | ⟨length, hlength, hend, hlow, hneg⟩
    · rw [hlength, ok_bind]
      have hrange := dataLen.2
      unfold IsInt at hrange
      by_cases hover : 2 ^ 63 ≤ start + dataLen.1
      · -- the sum is not an `Int`
        have htrap : checkedInt (start + dataLen.1) = .error .trap :=
          if_neg fun h => absurd h.2 (by omega)
        rw [if_pos hnn, htrap, error_bind]
        grind
      · refine iff_of_true (hreturns _ ⟨by omega, by omega⟩) ?_
        grind
    · rw [hlength, ok_bind]
      refine iff_of_true (hreturns _ ⟨by omega, by omega⟩) ?_
      grind
  · rw [if_neg hin]
    exact ⟨fun _ h => hin ⟨h.1, h.2.1⟩, fun _ => ⟨data, rfl⟩⟩

end XBLCloudSaveContentHashRule

structure XBLCloudSaveContentHashProfiles where
  rulesByTitleID : List (String × List XBLCloudSaveContentHashRule)

namespace XBLCloudSaveContentHashProfiles

def empty : XBLCloudSaveContentHashProfiles := { rulesByTitleID := [] }

def ofDecoded (F : Foundation) (rawRules : List (String × List XBLCloudSaveContentHashRule)) :
    Except Halt XBLCloudSaveContentHashProfiles := do
  let rulesByTitleID ← uniqueKeysWithValues (rawRules.map fun pair => (F.uppercased pair.1, pair.2))
  return { rulesByTitleID }

def rule (F : Foundation) (wildcard : String → String → Bool)
    (profiles : XBLCloudSaveContentHashProfiles) (titleID relativePath : String) :
    Option XBLCloudSaveContentHashRule :=
  (profiles.rulesByTitleID.lookup (F.uppercased titleID)).bind fun rules =>
    rules.find? fun rule => rule.noRoam && rule.matches wildcard relativePath

theorem ofDecoded_ok_iff (F : Foundation)
    (rawRules : List (String × List XBLCloudSaveContentHashRule)) :
    (∃ profiles, ofDecoded F rawRules = .ok profiles) ↔
      (rawRules.map fun pair => F.uppercased pair.1).Nodup := by
  have hkeys := uniqueKeysWithValues_ok_iff
    (rawRules.map fun pair => (F.uppercased pair.1, pair.2))
  rw [List.map_map] at hkeys
  refine Iff.trans ?_ hkeys
  unfold ofDecoded
  cases uniqueKeysWithValues (rawRules.map fun pair => (F.uppercased pair.1, pair.2)) with
  | error e =>
    simp_all
  | ok dictionary => exact iff_of_true ⟨_, rfl⟩ ⟨_, rfl⟩

end XBLCloudSaveContentHashProfiles

namespace XBLCloudSaveContentHasher

def hashedPart (ruleFor : String → Option XBLCloudSaveContentHashRule) (file : SaveFile) :
    Except Halt Data := do
  let payload ← match ruleFor file.1 with
    | some rule => rule.payloadForHash file.2
    | none => .ok file.2
  return utf8 file.1 ++ 10 :: payload

def contentHash (less : String → String → Bool) (sha256 : Data → String)
    (ruleFor : String → Option XBLCloudSaveContentHashRule) (files : List SaveFile) :
    Except Halt String := do
  let parts ← (sortedFiles less files).mapM (hashedPart ruleFor)
  return sha256 parts.flatten

def payloads (ruleFor : String → Option XBLCloudSaveContentHashRule) (path : String) :
    Option (Data → Data) :=
  (ruleFor path).map fun rule data => (rule.payloadForHash data).toOption.getD data

variable {less : String → String → Bool} {sha256 : Data → String}
  {ruleFor : String → Option XBLCloudSaveContentHashRule} {files : List SaveFile} {file : SaveFile}

theorem hashedPart_ok_iff (hlen : file.2.length < 2 ^ 63) :
    (∃ part, hashedPart ruleFor file = .ok part) ↔
      ∀ rule, ruleFor file.1 = some rule → ¬ rule.Overflows file.2.length := by
  unfold hashedPart
  cases hrule : ruleFor file.1 with
  | none => exact iff_of_true ⟨_, rfl⟩ fun _ h => nomatch h
  | some rule =>
    have hpayload := rule.payloadForHash_ok_iff hlen
    simp only [Option.some.injEq, forall_eq']
    rw [← hpayload]
    cases rule.payloadForHash file.2 with
    | error e =>
      simp_all
    | ok payload => exact iff_of_true ⟨_, rfl⟩ ⟨_, rfl⟩

theorem hashedPart_eq {part : Data} (h : hashedPart ruleFor file = .ok part) :
    hashedPart ruleFor file = .ok (hashedBytes (payloads ruleFor) file) := by
  unfold hashedPart hashedBytes payloads at *
  cases hrule : ruleFor file.1 with
  | none => rfl
  | some rule =>
    simp only [hrule, Option.map_some] at h ⊢
    cases hpayload : rule.payloadForHash file.2 with
    | error e =>
      rw [hpayload] at h
      cases h
    | ok payload => rfl

theorem contentHash_eq (hlen : ∀ f ∈ files, f.2.length < 2 ^ 63)
    (h : ∀ f ∈ files, ∀ rule, ruleFor f.1 = some rule → ¬ rule.Overflows f.2.length) :
    contentHash less sha256 ruleFor files =
      .ok (sha256 (hashInput less (payloads ruleFor) files)) := by
  have hparts : (sortedFiles less files).mapM (hashedPart ruleFor) =
      .ok ((sortedFiles less files).map (hashedBytes (payloads ruleFor))) := by
    refine mapM_of_ok fun f hf => ?_
    have hf := (sortedFiles_perm less files).mem_iff.mp hf
    obtain ⟨part, hpart⟩ := (hashedPart_ok_iff (hlen f hf)).mpr (h f hf)
    exact hashedPart_eq hpart
  unfold contentHash hashInput
  rw [hparts, List.flatMap_def]
  rfl

theorem contentHash_ok_iff (hlen : ∀ f ∈ files, f.2.length < 2 ^ 63) :
    (∃ hash, contentHash less sha256 ruleFor files = .ok hash) ↔
      ∀ f ∈ files, ∀ rule, ruleFor f.1 = some rule → ¬ rule.Overflows f.2.length := by
  constructor
  · intro ⟨hash, h⟩ f hf
    rw [← hashedPart_ok_iff (hlen f hf)]
    unfold contentHash at h
    cases hparts : (sortedFiles less files).mapM (hashedPart ruleFor) with
    | error e =>
      rw [hparts] at h
      cases h
    | ok parts => exact exists_of_mapM_ok hparts f ((sortedFiles_perm less files).mem_iff.mpr hf)
  · intro h
    exact ⟨_, contentHash_eq hlen h⟩

end XBLCloudSaveContentHasher

end DukeX.CloudSaves
