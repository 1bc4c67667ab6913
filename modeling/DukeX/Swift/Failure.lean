import DukeX.Lib.Effect

/-!
# How a Swift call can end early

`FATXCloudSaveError` is the error the save store throws itself.
-/

namespace DukeX.Swift

structure FATXCloudSaveScanReport where
  partitionOffset : Nat
  rootDirectoryNames : List String
  udataDirectoryNames : List String
  udataTitleDirectoryNames : List String
  tdataDirectoryNames : List String
  deriving DecidableEq, Repr

inductive FATXCloudSaveError where
  | fatxPartitionMissing
  | invalidFATXVolume
  | invalidTitleID (value : String)
  | noSaveArchives (report : FATXCloudSaveScanReport)
  | pathAlreadyExists (name : String)
  | pathMissing (name : String)
  | readOnlyImage
  | unsupportedHDDFormat (message : String)
  | volumeFull
  deriving DecidableEq, Repr

inductive Halt where
  | thrown (error : FATXCloudSaveError)
  | io
  | trap
  deriving DecidableEq, Repr

def Halt.isError : Halt → Bool
  | .thrown _ => true
  | .io => true
  | .trap => false

/-- The part of Foundation the save store leans on and this project does not look inside. -/
structure Foundation where
  caseInsensitiveSame : String → String → Bool
  standardAscending : String → String → Bool
  uppercased : String → String
  clock : Nat → Nat × Nat

structure Foundation.Lawful (F : Foundation) : Prop where
  refl : ∀ a, F.caseInsensitiveSame a a = true
  symm : ∀ a b, F.caseInsensitiveSame a b = true → F.caseInsensitiveSame b a = true
  trans : ∀ a b c, F.caseInsensitiveSame a b = true → F.caseInsensitiveSame b c = true →
    F.caseInsensitiveSame a c = true

end DukeX.Swift
