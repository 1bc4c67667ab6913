import DukeX.Eeprom.Sha1
import DukeX.Eeprom.Rc4

/-!
# The EEPROM image, generated by the emulator and read by the app

`eeprom_generation.c` lays out a 256-byte image with random keys and encrypts its security section;
`XboxEEPROMIdentity` finds the version whose keyed hash explains the section, and takes the hard
disk key from it.
-/

namespace DukeX.Eeprom

def le32 (value : UInt32) : List UInt8 :=
  [value.toUInt8, (value >>> 8).toUInt8, (value >>> 16).toUInt8, (value >>> 24).toUInt8]

@[simp] theorem length_le32 (value : UInt32) : (le32 value).length = 4 := rfl

/-! ## The generator -/

inductive XboxEEPROMVersion where
  | d
  | r1
  | r2
  | r3
  deriving DecidableEq, Repr

structure XboxEEPROM where
  hash : List UInt8
  confounder : List UInt8
  hddKey : List UInt8
  region : List UInt8
  checksum : List UInt8
  serial : List UInt8
  mac : List UInt8
  padding : List UInt8
  onlineKey : List UInt8
  videoStandard : List UInt8
  padding2 : List UInt8
  userChecksum : List UInt8
  userSection : List UInt8

def XboxEEPROM.fromSerial (e : XboxEEPROM) : List UInt8 :=
  e.serial ++ e.mac ++ e.padding ++ e.onlineKey ++ e.videoStandard ++ e.padding2 ++ e.userChecksum ++
    e.userSection

def XboxEEPROM.security (e : XboxEEPROM) : List UInt8 := e.confounder ++ e.hddKey ++ e.region

def XboxEEPROM.bytes (e : XboxEEPROM) : List UInt8 :=
  e.hash ++ e.security ++ e.checksum ++ e.fromSerial

def crcStep (data : List UInt8) (acc : UInt32 × UInt32) (i : Nat) : UInt32 × UInt32 :=
  let val := (data.getD (4 * i) 0).toUInt32 ||| ((data.getD (4 * i + 1) 0).toUInt32 <<< 8) |||
    ((data.getD (4 * i + 2) 0).toUInt32 <<< 16) ||| ((data.getD (4 * i + 3) 0).toUInt32 <<< 24)
  let sum := (acc.1.toUInt64 <<< 32) ||| acc.2.toUInt64
  (((sum + val.toUInt64) >>> 32).toUInt32, acc.2 + val)

def xboxEepromCrc (data : List UInt8) (len : Nat) : UInt32 :=
  let acc := (List.range (len / 4)).foldl (crcStep data) (0, 0)
  ~~~(acc.1 + acc.2)

def xboxSha1Reset (ctx : SHA1Context) (ver : XboxEEPROMVersion) (first : Bool) : SHA1Context :=
  { ctx with
    msgBlkIndex := 0
    computed := false
    length := 512
    intermediate := match ver, first with
      | .d, true => ⟨0x85F9E51A, 0xE04613D2, 0x6D86A50C, 0x77C32E3C, 0x4BD717A4⟩
      | .d, false => ⟨0x5D7A9C6B, 0xE1922BEB, 0xB82CCDBC, 0x3137AB34, 0x486B52B3⟩
      | .r2, true => ⟨0x39B06E79, 0xC9BD25E8, 0xDBC6B498, 0x40B4389D, 0x86BBD7ED⟩
      | .r2, false => ⟨0x9B49BED3, 0x84B430FC, 0x6B8749CD, 0xEBFE5FE5, 0xD96E7393⟩
      | .r3, true => ⟨0x8058763A, 0xF97D4E0E, 0x865A9762, 0x8A3D920D, 0x08995B2C⟩
      | .r3, false => ⟨0x01075307, 0xA2F1E037, 0x1186EEEA, 0x88DA9992, 0x168A5609⟩
      | _, true => ⟨0x72127625, 0x336472B9, 0xBE609BEA, 0xF55E226B, 0x99958DAC⟩
      | _, false => ⟨0x76441D41, 0x4DE82659, 0x2E8EF85E, 0xB256FACA, 0xC4FE2DE8⟩ }

def xboxSha1Compute (ctx : SHA1Context) (ver : XboxEEPROMVersion) (data : List UInt8) :
    List UInt8 × SHA1Context :=
  let ctx := sha1Input (xboxSha1Reset ctx ver true) data
  -- the inner digest is stored into the block of the context itself
  let (digest, ctx) := sha1Result ctx
  let ctx := { ctx with msgBlk := digest ++ ctx.msgBlk.drop 20 }
  let ctx := xboxSha1Reset ctx ver false
  -- and read from there: byte `i` is written back at `i`, after it has been read
  sha1Result (sha1Input ctx (ctx.msgBlk.take 20))

structure RandomBytes where
  confounder : Vector UInt8 8
  hddKey : Vector UInt8 16
  onlineKey : Vector UInt8 16
  mac : Vector UInt8 3
  serial : Vector UInt8 12

structure StackContext where
  ctx : SHA1Context
  size : ctx.msgBlk.length = 64

def defaultUserSection : List UInt8 :=
  [0x00, 0x00, 0x00, 0x00, 0x47, 0x4D, 0x54, 0x00, 0x42, 0x53, 0x54, 0x00,
    0x00, 0x00, 0x00, 0x00, 0x00, 0x00, 0x00, 0x00, 0x0A, 0x05, 0x00, 0x02, 0x03, 0x05, 0x00, 0x01,
    0x00, 0x00, 0x00, 0x00, 0x00, 0x00, 0x00, 0x00, 0x00, 0x00, 0x00, 0x00, 0xC4, 0xFF, 0xFF, 0xFF] ++
  le32 1 ++ List.replicate 108 0

def plainEeprom (region : UInt32) (rnd : RandomBytes) : XboxEEPROM :=
  let e : XboxEEPROM :=
    { hash := List.replicate 20 0
      confounder := rnd.confounder.toList
      hddKey := rnd.hddKey.toList
      region := le32 region
      checksum := List.replicate 4 0
      serial := rnd.serial.toList.map fun byte => 0x30 + byte % 10
      mac := [0x00, 0x50, 0xF2] ++ rnd.mac.toList
      padding := List.replicate 2 0
      onlineKey := rnd.onlineKey.toList
      videoStandard := le32 0x00400100
      padding2 := List.replicate 4 0
      userChecksum := List.replicate 4 0
      userSection := defaultUserSection }
  { e with
    checksum := le32 (xboxEepromCrc e.fromSerial 0x2C)
    userChecksum := le32 (xboxEepromCrc e.userSection 0x5C) }

/-- The last part of `xbox_eeprom_generate`. -/
def sealSecurity (ver : XboxEEPROMVersion) (sctx : SHA1Context) (e : XboxEEPROM) : XboxEEPROM :=
  let (hash, sctx) := xboxSha1Compute sctx ver e.security
  let (seed, _) := xboxSha1Compute sctx ver hash
  let encrypted := rc4Crypt (rc4Init seed) e.security
  { e with
    hash := hash
    confounder := encrypted.take 8
    hddKey := (encrypted.drop 8).take 16
    region := encrypted.drop 24 }

def eepromOf (region : UInt32) (ver : XboxEEPROMVersion) (rnd : RandomBytes) (sctx : StackContext) :
    XboxEEPROM :=
  sealSecurity ver sctx.ctx (plainEeprom region rnd)

def xboxEepromGenerate (ver : XboxEEPROMVersion) (rnd : RandomBytes) (sctx : StackContext) :
    List UInt8 :=
  (eepromOf 1 ver rnd sctx).bytes

/-! ## The decoder -/

namespace XboxEEPROMIdentity

inductive XboxEEPROMVersion where
  | debug
  | retailFirst
  | retailMiddle
  | retailLast
  deriving DecidableEq, Repr

def XboxEEPROMVersion.allCases : List XboxEEPROMVersion :=
  [.debug, .retailFirst, .retailMiddle, .retailLast]

def XboxEEPROMVersion.firstInitialHash : XboxEEPROMVersion → Chain
  | .debug => ⟨0x85F9E51A, 0xE04613D2, 0x6D86A50C, 0x77C32E3C, 0x4BD717A4⟩
  | .retailFirst => ⟨0x72127625, 0x336472B9, 0xBE609BEA, 0xF55E226B, 0x99958DAC⟩
  | .retailMiddle => ⟨0x39B06E79, 0xC9BD25E8, 0xDBC6B498, 0x40B4389D, 0x86BBD7ED⟩
  | .retailLast => ⟨0x8058763A, 0xF97D4E0E, 0x865A9762, 0x8A3D920D, 0x08995B2C⟩

def XboxEEPROMVersion.secondInitialHash : XboxEEPROMVersion → Chain
  | .debug => ⟨0x5D7A9C6B, 0xE1922BEB, 0xB82CCDBC, 0x3137AB34, 0x486B52B3⟩
  | .retailFirst => ⟨0x76441D41, 0x4DE82659, 0x2E8EF85E, 0xB256FACA, 0xC4FE2DE8⟩
  | .retailMiddle => ⟨0x9B49BED3, 0x84B430FC, 0x6B8749CD, 0xEBFE5FE5, 0xD96E7393⟩
  | .retailLast => ⟨0x01075307, 0xA2F1E037, 0x1186EEEA, 0x88DA9992, 0x168A5609⟩

inductive XboxEEPROMIdentityError where
  | invalidSize (size : Nat)
  | unsupportedVersion
  deriving DecidableEq, Repr

inductive Stop where
  | thrown (error : XboxEEPROMIdentityError)
  | trap
  deriving DecidableEq, Repr

def input (x : XboxSHA1) (data : List UInt8) : Except Stop XboxSHA1 :=
  match x.input data with
  | some x => .ok x
  | none => .error .trap

def compute (version : XboxEEPROMVersion) (data : List UInt8) : Except Stop (List UInt8) := do
  let first ← input (XboxSHA1.init version.firstInitialHash 512) data
  let second ← input (XboxSHA1.init version.secondInitialHash 512) first.result.1
  return second.result.1

def decryptFrom (bytes : List UInt8) : List XboxEEPROMVersion → Except Stop (List UInt8)
  | [] => .error (.thrown .unsupportedVersion)
  | version :: versions => do
    let originalHash := bytes.take 20
    let seed ← compute version originalHash
    let decrypted := (XboxRC4.init seed).crypt ((bytes.take 0x30).drop 0x14)
    if (← compute version decrypted) = originalHash then
      return decrypted
    else
      decryptFrom bytes versions

def decryptSecuritySection (bytes : List UInt8) : Except Stop (List UInt8) :=
  decryptFrom bytes XboxEEPROMVersion.allCases

def hexDigits : List Char :=
  ['0', '1', '2', '3', '4', '5', '6', '7', '8', '9', 'A', 'B', 'C', 'D', 'E', 'F']

def hexByte (byte : UInt8) : String :=
  String.ofList [hexDigits.getD (byte.toNat / 16) '0', hexDigits.getD (byte.toNat % 16) '0']

def serialFrom (bytes : List UInt8) : String :=
  let raw := (bytes.take (0x34 + 12)).drop 0x34
  let printable := raw.takeWhile fun byte => 0x20 ≤ byte && byte ≤ 0x7E
  String.ofList (printable.map fun byte => Char.ofNat byte.toNat)

end XboxEEPROMIdentity

structure XboxEEPROMIdentity where
  eepromData : List UInt8
  serial : String
  hddKeyHex : String

def XboxEEPROMIdentity.init (data : List UInt8) :
    Except XboxEEPROMIdentity.Stop XboxEEPROMIdentity := do
  if data.length ≠ 256 then
    throw (.thrown (.invalidSize data.length))
  let decryptedSecurity ← decryptSecuritySection data
  let hddKey := (decryptedSecurity.take 24).drop 8
  return { eepromData := data, serial := serialFrom data, hddKeyHex := String.join (hddKey.map hexByte) }

def XboxEEPROMVersion.inApp : XboxEEPROMVersion → XboxEEPROMIdentity.XboxEEPROMVersion
  | .d => .debug
  | .r1 => .retailFirst
  | .r2 => .retailMiddle
  | .r3 => .retailLast

open XboxEEPROMIdentity (Stop compute decryptFrom decryptSecuritySection)

theorem agree_reset (ctx : SHA1Context) (hsize : ctx.msgBlk.length = 64) (ver : XboxEEPROMVersion)
    (first : Bool) :
    Agree (xboxSha1Reset ctx ver first)
      (XboxSHA1.init (if first then ver.inApp.firstInitialHash else ver.inApp.secondInitialHash) 512)
    where
  hash := by cases ver <;> cases first <;> rfl
  index := rfl
  bound := Nat.succ_pos 63
  blocks := SameBelow.start hsize (by simp [XboxSHA1.init])
  pending := rfl
  pending' := rfl

theorem half_agrees (ctx : SHA1Context) (hsize : ctx.msgBlk.length = 64) (ver : XboxEEPROMVersion)
    (first : Bool) (data : List UInt8) (hdata : data.length ≤ 2 ^ 31) :
    ∃ x, XboxEEPROMIdentity.input (XboxSHA1.init
        (if first then ver.inApp.firstInitialHash else ver.inApp.secondInitialHash) 512) data = .ok x ∧
      (sha1Result (sha1Input (xboxSha1Reset ctx ver first) data)).1 = x.result.1 ∧
      (sha1Result (sha1Input (xboxSha1Reset ctx ver first) data)).2.msgBlk.length = 64 := by
  obtain ⟨x, hinput, hagree, hlength⟩ := (agree_reset ctx hsize ver first).input rfl hdata
  refine ⟨x, ?_, hagree.result hlength, ?_⟩
  · simp only [XboxEEPROMIdentity.input, hinput]
  · simp only [sha1Result, hagree.pending, Bool.false_eq_true, if_false]
    exact (hagree.pad hlength).2

theorem xboxSha1Reset_msgBlk (ctx : SHA1Context) (ver : XboxEEPROMVersion) (first : Bool) :
    (xboxSha1Reset ctx ver first).msgBlk = ctx.msgBlk := rfl

theorem xboxSha1Compute_eq (ctx : SHA1Context) (ver : XboxEEPROMVersion) (data digest : List UInt8)
    (left : SHA1Context) (hlen : digest.length = 20)
    (h : sha1Result (sha1Input (xboxSha1Reset ctx ver true) data) = (digest, left)) :
    xboxSha1Compute ctx ver data = sha1Result (sha1Input
      (xboxSha1Reset { left with msgBlk := digest ++ left.msgBlk.drop 20 } ver false) digest) := by
  simp [xboxSha1Compute, xboxSha1Reset_msgBlk, hlen, h]

theorem ok_bind {ε α β : Type} (a : α) (f : α → Except ε β) : (Except.ok a >>= f) = f a := rfl

theorem compute_of_halves {version : XboxEEPROMIdentity.XboxEEPROMVersion} {data : List UInt8}
    {x y : XboxSHA1}
    (hx : XboxEEPROMIdentity.input (XboxSHA1.init version.firstInitialHash 512) data = .ok x)
    (hy : XboxEEPROMIdentity.input (XboxSHA1.init version.secondInitialHash 512) x.result.1 = .ok y) :
    compute version data = .ok y.result.1 := by
  unfold compute
  rw [hx, ok_bind, hy, ok_bind]
  rfl

theorem compute_eq (ctx : SHA1Context) (hsize : ctx.msgBlk.length = 64) (ver : XboxEEPROMVersion)
    (data : List UInt8) (hdata : data.length ≤ 2 ^ 31) :
    compute ver.inApp data = .ok (xboxSha1Compute ctx ver data).1 ∧
      (xboxSha1Compute ctx ver data).1.length = 20 ∧
      (xboxSha1Compute ctx ver data).2.msgBlk.length = 64 := by
  obtain ⟨x, hx, hdigest, hleft⟩ := half_agrees ctx hsize ver true data hdata
  have hlen := sha1Result_length (sha1Input (xboxSha1Reset ctx ver true) data)
  cases hinner : sha1Result (sha1Input (xboxSha1Reset ctx ver true) data) with
  | mk digest left =>
    rw [hinner] at hdigest hleft hlen
    rw [xboxSha1Compute_eq ctx ver data digest left hlen hinner]
    have hblock : (digest ++ left.msgBlk.drop 20).length = 64 := by
      simp only [List.length_append, List.length_drop, hlen, hleft]
    obtain ⟨y, hy, houter, hend⟩ := half_agrees
      { left with msgBlk := digest ++ left.msgBlk.drop 20 } hblock ver false digest (hlen.trans_le (by decide))
    rw [if_pos rfl] at hx
    rw [if_neg Bool.false_ne_true, show digest = x.result.1 from hdigest] at hy
    grind [sha1Result_length, compute_of_halves]

/-! ## The decoder undoes the generator -/

def PassesHashCheck (bytes : List UInt8) (version : XboxEEPROMIdentity.XboxEEPROMVersion) : Prop :=
  ∃ seed, compute version (bytes.take 20) = .ok seed ∧
    compute version ((XboxRC4.init seed).crypt ((bytes.take 0x30).drop 0x14)) = .ok (bytes.take 20)

theorem compute_ok (version : XboxEEPROMIdentity.XboxEEPROMVersion) (data : List UInt8) :
    ∃ digest, compute version data = .ok digest := by
  exact ⟨_, rfl⟩

theorem decryptFrom_cons (bytes : List UInt8) (version : XboxEEPROMIdentity.XboxEEPROMVersion)
    (versions : List XboxEEPROMIdentity.XboxEEPROMVersion) :
    (PassesHashCheck bytes version ∧ ∃ seed, compute version (bytes.take 20) = .ok seed ∧
      decryptFrom bytes (version :: versions) =
        .ok ((XboxRC4.init seed).crypt ((bytes.take 0x30).drop 0x14))) ∨
    (¬PassesHashCheck bytes version ∧
      decryptFrom bytes (version :: versions) = decryptFrom bytes versions) := by
  obtain ⟨seed, hseed⟩ := compute_ok version (bytes.take 20)
  obtain ⟨check, hcheck⟩ :=
    compute_ok version ((XboxRC4.init seed).crypt ((bytes.take 0x30).drop 0x14))
  have hround : decryptFrom bytes (version :: versions) =
      if check = bytes.take 20 then .ok ((XboxRC4.init seed).crypt ((bytes.take 0x30).drop 0x14))
      else decryptFrom bytes versions := by
    simp only [decryptFrom, hseed, ok_bind, hcheck]
    rfl
  rw [hround]
  by_cases hpass : check = bytes.take 20
  · rw [if_pos hpass]
    exact .inl ⟨⟨seed, hseed, hpass ▸ hcheck⟩, seed, hseed, rfl⟩
  · rw [if_neg hpass]
    refine .inr ⟨?_, rfl⟩
    intro ⟨seed', hseed', hcheck'⟩
    rw [hseed, Except.ok.injEq] at hseed'
    rw [← hseed', hcheck, Except.ok.injEq] at hcheck'
    exact hpass hcheck'

theorem decryptFrom_append (bytes : List UInt8)
    (earlier versions : List XboxEEPROMIdentity.XboxEEPROMVersion)
    (hearlier : ∀ version ∈ earlier, ¬PassesHashCheck bytes version) :
    decryptFrom bytes (earlier ++ versions) = decryptFrom bytes versions := by
  induction earlier with
  | nil => rfl
  | cons version earlier ih =>
    grind [decryptFrom_cons, List.mem_cons_self]

theorem not_passes_of_decryptFrom_error (bytes : List UInt8) (stop : Stop)
    (versions : List XboxEEPROMIdentity.XboxEEPROMVersion)
    (h : decryptFrom bytes versions = .error stop) :
    ∀ version ∈ versions, ¬PassesHashCheck bytes version := by
  induction versions with
  | nil => exact fun version hv => absurd hv List.not_mem_nil
  | cons first versions ih =>
    obtain ⟨-, seed, -, hok⟩ | ⟨hfail, hskip⟩ := decryptFrom_cons bytes first versions
    · rw [hok] at h
      exact nomatch h
    · simp_all

theorem mem_allCases (version : XboxEEPROMIdentity.XboxEEPROMVersion) :
    version ∈ XboxEEPROMIdentity.XboxEEPROMVersion.allCases := by
  cases version <;> decide

def preceding (version : XboxEEPROMIdentity.XboxEEPROMVersion) :
    List XboxEEPROMIdentity.XboxEEPROMVersion :=
  XboxEEPROMIdentity.XboxEEPROMVersion.allCases.takeWhile (· ≠ version)

theorem allCases_eq (version : XboxEEPROMIdentity.XboxEEPROMVersion) :
    ∃ later, XboxEEPROMIdentity.XboxEEPROMVersion.allCases = preceding version ++ version :: later := by
  cases version with
  | debug => exact ⟨[.retailFirst, .retailMiddle, .retailLast], rfl⟩
  | retailFirst => exact ⟨[.retailMiddle, .retailLast], rfl⟩
  | retailMiddle => exact ⟨[.retailLast], rfl⟩
  | retailLast => exact ⟨[], rfl⟩

theorem sealSecurity_security (ver : XboxEEPROMVersion) (sctx : SHA1Context) (e : XboxEEPROM) :
    (sealSecurity ver sctx e).security =
      rc4Crypt (rc4Init (xboxSha1Compute (xboxSha1Compute sctx ver e.security).2 ver
        (xboxSha1Compute sctx ver e.security).1).1) e.security := by
  simp only [sealSecurity, XboxEEPROM.security]
  rw [show ∀ l : List UInt8, l.drop 24 = (l.drop 8).drop 16 by simp, List.append_assoc,
    List.take_append_drop, List.take_append_drop]

theorem sealSecurity_bytes (ver : XboxEEPROMVersion) (sctx : SHA1Context) (e : XboxEEPROM) :
    (sealSecurity ver sctx e).bytes = (xboxSha1Compute sctx ver e.security).1 ++
      (sealSecurity ver sctx e).security ++ e.checksum ++ e.fromSerial := rfl

section Sealed

variable (region : UInt32) (ver : XboxEEPROMVersion) (rnd : RandomBytes) (sctx : StackContext)

theorem length_plain_security : (plainEeprom region rnd).security.length = 0x1C := by
  simp [plainEeprom, XboxEEPROM.security]

theorem length_plain_fromSerial : (plainEeprom region rnd).fromSerial.length = 0xCC := by
  have huser : defaultUserSection.length = 156 := by decide +kernel
  simp [plainEeprom, XboxEEPROM.fromSerial, huser]

theorem eepromOf_layout :
    ∃ hash seed, compute ver.inApp (plainEeprom region rnd).security = .ok hash ∧
      compute ver.inApp hash = .ok seed ∧ seed ≠ [] ∧
      (eepromOf region ver rnd sctx).bytes.length = 256 ∧
      (eepromOf region ver rnd sctx).bytes.take 20 = hash ∧
      ((eepromOf region ver rnd sctx).bytes.take 0x30).drop 0x14 =
        rc4Crypt (rc4Init seed) (plainEeprom region rnd).security := by
  have hbytes := sealSecurity_bytes ver sctx.ctx (plainEeprom region rnd)
  have hsecurity := sealSecurity_security ver sctx.ctx (plainEeprom region rnd)
  have hplain := length_plain_security region rnd
  obtain ⟨hcompute, hlen, hsize⟩ := compute_eq sctx.ctx sctx.size ver
    (plainEeprom region rnd).security (hplain.trans_le (by decide))
  have htail := length_plain_fromSerial region rnd
  cases hhash : xboxSha1Compute sctx.ctx ver (plainEeprom region rnd).security with
  | mk hash left =>
    rw [hhash] at hcompute hlen hsize hbytes hsecurity
    obtain ⟨hseed, hseedLen, -⟩ := compute_eq left hsize ver hash (hlen.trans_le (by decide))
    have hne : (xboxSha1Compute left ver hash).1 ≠ [] := by
      grind
    refine ⟨hash, (xboxSha1Compute left ver hash).1, hcompute, hseed, hne, ?_⟩
    generalize (xboxSha1Compute left ver hash).1 = seed at *
    have hcrypt : (sealSecurity ver sctx.ctx (plainEeprom region rnd)).security.length = 0x1C := by
      rw [hsecurity, rc4Crypt, length_rc4CryptFrom, hplain]
    have hchecksum : (plainEeprom region rnd).checksum.length = 4 := rfl
    rw [eepromOf, ← hsecurity, hbytes]
    generalize (sealSecurity ver sctx.ctx (plainEeprom region rnd)).security = security at *
    refine ⟨?_, ?_, ?_⟩
    · simp only [List.length_append, hlen, hcrypt, hchecksum, htail]
    · rw [List.append_assoc, List.append_assoc, ← hlen, List.take_left]
    · have hhead : (hash ++ security).length = 0x30 := by
        rw [List.length_append, hlen, hcrypt]
      grind

end Sealed

open XboxEEPROMIdentity (hexByte) in
/-- Reading a generated image gives back what was generated, unless a version that is tried earlier
passes the check by accident. -/
theorem decryptSecuritySection_eepromOf (region : UInt32) (ver : XboxEEPROMVersion)
    (rnd : RandomBytes) (sctx : StackContext)
    (hfirst : ∀ version ∈ preceding ver.inApp,
      ¬PassesHashCheck (eepromOf region ver rnd sctx).bytes version) :
    (eepromOf region ver rnd sctx).bytes.length = 256 ∧
    decryptSecuritySection (eepromOf region ver rnd sctx).bytes =
      .ok (rnd.confounder.toList ++ rnd.hddKey.toList ++ le32 region) ∧
    (XboxEEPROMIdentity.init (eepromOf region ver rnd sctx).bytes).map (·.hddKeyHex) =
      .ok (String.join (rnd.hddKey.toList.map hexByte)) ∧
    ∀ bytes stop, decryptSecuritySection bytes = .error stop →
      ∀ version, ¬PassesHashCheck bytes version := by
  obtain ⟨hash, seed, hhash, hseed, hne, hlen, htake, hslice⟩ := eepromOf_layout region ver rnd sctx
  generalize (eepromOf region ver rnd sctx).bytes = image at *
  have hsecurity : (plainEeprom region rnd).security =
      rnd.confounder.toList ++ rnd.hddKey.toList ++ le32 region := rfl
  -- the seed is the same, so the cipher is undone and the hash is the one stored
  have hcrypt : (XboxRC4.init seed).crypt ((image.take 0x30).drop 0x14) =
      (plainEeprom region rnd).security := by
    rw [hslice, crypt_rc4Crypt seed hne]
  have hpass : PassesHashCheck image ver.inApp := by
    refine ⟨seed, by rw [htake, hseed], ?_⟩
    rw [hcrypt, htake, hhash]
  have hdecrypt : decryptSecuritySection image =
      .ok (rnd.confounder.toList ++ rnd.hddKey.toList ++ le32 region) := by
    obtain ⟨later, hall⟩ := allCases_eq ver.inApp
    grind [decryptSecuritySection, decryptFrom_append, decryptFrom_cons]
  refine ⟨hlen, hdecrypt, ?_, ?_⟩
  · have hkey : ((rnd.confounder.toList ++ rnd.hddKey.toList ++ le32 region).take 24).drop 8 =
        rnd.hddKey.toList := by
      have hhead : (rnd.confounder.toList ++ rnd.hddKey.toList).length = 24 := by simp
      rw [← hhead, List.take_left, List.drop_left' (by simp)]
    simp only [XboxEEPROMIdentity.init, hlen, ne_eq, not_true_eq_false, if_false, hdecrypt, ok_bind]
    rw [hkey]
    rfl
  · intro bytes stop hstop version
    exact not_passes_of_decryptFrom_error bytes stop _ hstop version (mem_allCases version)

theorem decryptSecuritySection_debug :
    decryptSecuritySection (eepromOf 1 .d
        ⟨Vector.replicate 8 7, Vector.replicate 16 0xAB, Vector.replicate 16 1, Vector.replicate 3 2,
          Vector.replicate 12 3⟩
        ⟨⟨⟨0, 0, 0, 0, 0⟩, List.replicate 64 0, 0, 0, false⟩, by simp⟩).bytes =
      .ok (List.replicate 8 7 ++ List.replicate 16 0xAB ++ [1, 0, 0, 0]) := by
  have h := decryptSecuritySection_eepromOf 1 .d
    ⟨Vector.replicate 8 7, Vector.replicate 16 0xAB, Vector.replicate 16 1, Vector.replicate 3 2,
      Vector.replicate 12 3⟩
    ⟨⟨⟨0, 0, 0, 0, 0⟩, List.replicate 64 0, 0, 0, false⟩, by simp⟩
    (fun version hv => absurd hv List.not_mem_nil)
  exact h.2.1

end DukeX.Eeprom
