import DukeX.Lib.Store

/-!
# Ethernet frames

The part of a frame that the DNS redirection reads and writes: the Ethernet header with up to two
VLAN tags, an IPv4 header without options, the ports of UDP or TCP, and the checksums.
-/

namespace DukeX.Slirp

open Lib

structure Frame where
  size : Nat
  bytes : Store

def Frame.byte (f : Frame) (offset : Nat) : Nat := (f.bytes offset).toNat

def Frame.be16 (f : Frame) (offset : Nat) : Nat := beNat (f.bytes.read offset 2)

def Frame.addr (f : Frame) (offset : Nat) : Nat := leNat (f.bytes.read offset 4)

def Frame.put (f : Frame) (offset : Nat) (data : List UInt8) : Frame :=
  { f with bytes := f.bytes.write offset data }

/-! ## Parsing -/

def ethHeaderSize : Nat := 14
def vlanHeaderSize : Nat := 4
def ipHeaderSize : Nat := 20
def udpHeaderSize : Nat := 8
def tcpHeaderSize : Nat := 20
def ethPIp : Nat := 0x0800
def ethPVlan : Nat := 0x8100
def ethPDvlan : Nat := 0x88A8
def ipProtoTcp : Nat := 6
def ipProtoUdp : Nat := 17
def intMax : Nat := 2 ^ 31 - 1

def l3Offset (f : Frame) : Option (Nat × Nat) :=
  if f.size < ethHeaderSize then none
  else
    let proto := f.be16 12
    if proto = ethPVlan then
      if f.size < ethHeaderSize + vlanHeaderSize then none else some (18, f.be16 16)
    else if proto = ethPDvlan then
      if f.size < ethHeaderSize + vlanHeaderSize then none
      else if f.be16 16 = ethPVlan then
        if f.size < ethHeaderSize + 2 * vlanHeaderSize then none else some (22, f.be16 20)
      else some (18, f.be16 16)
    else some (14, proto)

structure CsumFlags where
  ip : Bool
  tcp : Bool
  udp : Bool
  deriving DecidableEq, Repr

structure DnsFrameInfo where
  l3Offset : Nat
  l4Offset : Nat
  csumFlags : CsumFlags
  proto : Nat
  srcPort : Nat
  dstPort : Nat
  srcIp : Nat
  dstIp : Nat
  deriving DecidableEq, Repr

def ipHeaderVersion (f : Frame) (l3 : Nat) : Nat := f.byte l3 / 16 % 16

def ip4IsFragment (f : Frame) (l3 : Nat) : Bool := f.be16 (l3 + 6) % 0x4000 != 0

def ipHdrLen (f : Frame) (l3 : Nat) : Nat := f.byte l3 % 16 * 4

def l4HeaderSize (proto : Nat) : Option Nat :=
  if proto = ipProtoUdp then some udpHeaderSize
  else if proto = ipProtoTcp then some tcpHeaderSize
  else none

def dnsFrameInfo (f : Frame) : Option DnsFrameInfo :=
  if f.size > intMax then none
  else
    match l3Offset f with
    | none => none
    | some (l3, ethProto) =>
      let ipLen := f.be16 (l3 + 2)
      if ethProto ≠ ethPIp then none
      else if f.size < l3 + ipHeaderSize then none
      else if ipHeaderVersion f l3 ≠ 4 ∨ ip4IsFragment f l3 then none
      else if ipHdrLen f l3 ≠ ipHeaderSize ∨ ipLen < ipHdrLen f l3 ∨ f.size < l3 + ipLen then none
      else
        match l4HeaderSize (f.byte (l3 + 9)) with
        | none => none
        | some headerSize =>
          if ipLen - ipHdrLen f l3 < headerSize then none
          else some {
            l3Offset := l3
            l4Offset := l3 + ipHdrLen f l3
            csumFlags := ⟨true, f.byte (l3 + 9) == ipProtoTcp, f.byte (l3 + 9) == ipProtoUdp⟩
            proto := f.byte (l3 + 9)
            srcPort := f.be16 (l3 + ipHdrLen f l3)
            dstPort := f.be16 (l3 + ipHdrLen f l3 + 2)
            srcIp := f.addr (l3 + 12)
            dstIp := f.addr (l3 + 16) }

def netChecksumAdd (f : Frame) (offset len : Nat) : Nat :=
  ((List.range len).foldl (fun sum i =>
    sum + f.byte (offset + i) * if i % 2 = 0 then 256 else 1) 0) % 2 ^ 32

def foldCarry (sum : Nat) : Nat :=
  if sum / 2 ^ 16 = 0 then sum else sum % 2 ^ 16 + sum / 2 ^ 16

def netChecksumFinish (sum : Nat) : Nat := 2 ^ 16 - 1 - foldCarry (foldCarry sum) % 2 ^ 16

def netChecksumTcpudp (f : Frame) (length proto addrs buf : Nat) : Nat :=
  netChecksumFinish
    ((netChecksumAdd f buf length + netChecksumAdd f addrs 8 + proto + length) % 2 ^ 32)

def putChecksum (f : Frame) (offset : Nat) (sum : Frame → Nat) : Frame :=
  let f := f.put offset [0, 0]
  f.put offset (beBytes 2 (sum f))

def macHdrLen (f : Frame) : Nat :=
  if f.be16 12 = ethPVlan then 18
  else if f.be16 12 = ethPDvlan then if f.be16 16 = ethPVlan then 22 else 18
  else 14

def l4Checksum (f : Frame) (flags : CsumFlags) (l3 : Nat) : Frame :=
  let proto := f.byte (l3 + 9)
  let ipLen := f.be16 (l3 + 2) - ipHdrLen f l3
  let l4 := l3 + ipHeaderSize
  if proto = ipProtoTcp then
    if flags.tcp = false ∨ ipLen < tcpHeaderSize then f
    else putChecksum f (l4 + 16) fun f => netChecksumTcpudp f ipLen proto (l3 + 12) l4
  else if proto = ipProtoUdp then
    if flags.udp = false ∨ ipLen < udpHeaderSize then f
    else putChecksum f (l4 + 6) fun f => netChecksumTcpudp f ipLen proto (l3 + 12) l4
  else f

def netChecksumCalculate (f : Frame) (flags : CsumFlags) : Frame :=
  let l3 := macHdrLen f
  if f.size < ethHeaderSize ∨ f.size - l3 < ipHeaderSize ∨ ipHeaderVersion f l3 ≠ 4 then f
  else
    let f :=
      if flags.ip then
        putChecksum f (l3 + 10) fun f => netChecksumFinish (netChecksumAdd f l3 (ipHdrLen f l3))
      else f
    if ip4IsFragment f l3 ∨ f.size - l3 < f.be16 (l3 + 2) then f else l4Checksum f flags l3

/-- The bytes that rewriting an address may change. -/
def Rewritable (l3 o : Nat) : Prop := (l3 + 10 ≤ o ∧ o < l3 + 20) ∨ l3 + 24 ≤ o

structure Agrees (l3 : Nat) (f f' : Frame) : Prop where
  size : f.size ≤ f'.size
  max : f'.size ≤ intMax
  bytes : ∀ o, o < f.size → ¬ Rewritable l3 o → f'.bytes o = f.bytes o

variable {l3 : Nat} {f f' : Frame}

theorem Agrees.read (h : Agrees l3 f f') {o n : Nat}
    (hsize : o + n ≤ f.size) (hout : o + n ≤ l3 + 10 ∨ (l3 + 20 ≤ o ∧ o + n ≤ l3 + 24)) :
    f'.bytes.read o n = f.bytes.read o n := by
  apply Store.read_congr
  intro a ha hb
  apply h.bytes a (by omega)
  intro hr
  cases hr with
  | inl hr | inr hr => omega

variable {o proto a : Nat}

theorem Agrees.be16_eq (h : Agrees l3 f f')
    (hsize : o + 2 ≤ f.size) (hout : o + 2 ≤ l3 + 10 ∨ (l3 + 20 ≤ o ∧ o + 2 ≤ l3 + 24)) :
    f'.be16 o = f.be16 o := by
  rw [Frame.be16, Frame.be16, h.read hsize hout]

theorem Agrees.byte_eq (h : Agrees l3 f f')
    (hsize : o + 1 ≤ f.size) (hout : o + 1 ≤ l3 + 10) : f'.byte o = f.byte o := by
  rw [Frame.byte, Frame.byte, h.bytes o (by omega)]
  intro hr
  cases hr with
  | inl hr | inr hr => omega

theorem Agrees.l3Offset_eq (h : Agrees l3 f f')
    (hl3 : l3Offset f = some (l3, proto)) : l3Offset f' = some (l3, proto) := by
  have hle := h.size
  have hethSize : ethHeaderSize = 14 := rfl
  have hvlanSize : vlanHeaderSize = 4 := rfl
  rw [l3Offset] at hl3 ⊢
  dsimp only at hl3 ⊢
  split at hl3
  · cases hl3
  case isFalse heth =>
    rw [if_neg (by omega)]
    split at hl3
    case isTrue hvlan =>
      split at hl3
      · cases hl3
      · cases hl3
        rw [h.be16_eq (by omega) (by omega), if_pos hvlan, if_neg (by omega),
          h.be16_eq (by omega) (by omega)]
    case isFalse hvlan =>
      split at hl3
      case isTrue hdvlan =>
        split at hl3
        · cases hl3
        · split at hl3
          case isTrue hinner =>
            split at hl3
            · cases hl3
            · cases hl3
              rw [h.be16_eq (o := 12) (by omega) (by omega), if_neg hvlan, if_pos hdvlan,
                if_neg (by omega), h.be16_eq (o := 16) (by omega) (by omega), if_pos hinner,
                if_neg (by omega), h.be16_eq (o := 20) (by omega) (by omega)]
          case isFalse hinner =>
            cases hl3
            rw [h.be16_eq (o := 12) (by omega) (by omega), if_neg hvlan, if_pos hdvlan,
              if_neg (by omega), h.be16_eq (o := 16) (by omega) (by omega), if_neg hinner]
      case isFalse hdvlan =>
        cases hl3
        rw [h.be16_eq (o := 12) (by omega) (by omega), if_neg hvlan, if_neg hdvlan]

structure Parsed (f : Frame) (info : DnsFrameInfo) (headerSize : Nat) : Prop where
  max : f.size ≤ intMax
  l3 : l3Offset f = some (info.l3Offset, ethPIp)
  version : ipHeaderVersion f info.l3Offset = 4
  whole : ip4IsFragment f info.l3Offset = false
  hdrLen : ipHdrLen f info.l3Offset = ipHeaderSize
  ipLen : ipHeaderSize ≤ f.be16 (info.l3Offset + 2)
  inside : info.l3Offset + f.be16 (info.l3Offset + 2) ≤ f.size
  l4Offset : info.l4Offset = info.l3Offset + ipHeaderSize
  header : l4HeaderSize (f.byte (info.l3Offset + 9)) = some headerSize
  l4Inside : headerSize ≤ f.be16 (info.l3Offset + 2) - ipHeaderSize
  csumFlags : info.csumFlags = ⟨true, f.byte (info.l3Offset + 9) == ipProtoTcp,
    f.byte (info.l3Offset + 9) == ipProtoUdp⟩
  proto : info.proto = f.byte (info.l3Offset + 9)
  srcPort : info.srcPort = f.be16 info.l4Offset
  dstPort : info.dstPort = f.be16 (info.l4Offset + 2)
  srcIp : info.srcIp = f.addr (info.l3Offset + 12)
  dstIp : info.dstIp = f.addr (info.l3Offset + 16)

variable {info : DnsFrameInfo}

theorem dnsFrameInfo_eq_some_iff :
    dnsFrameInfo f = some info ↔ ∃ headerSize, Parsed f info headerSize := by
  constructor
  · intro h
    rw [dnsFrameInfo] at h
    split at h
    · cases h
    case isFalse hmax =>
    split at h
    · cases h
    case h_2 l3 ethProto hl3 =>
    dsimp only at h
    split at h
    · cases h
    case isFalse hproto =>
    split at h
    · cases h
    case isFalse hsize =>
    split at h
    · cases h
    case isFalse hversion =>
    split at h
    · cases h
    case isFalse hlen =>
    split at h
    · cases h
    case h_2 headerSize hheader =>
    split at h
    · cases h
    case isFalse hl4 =>
    obtain ⟨hv, hfrag⟩ := not_or.mp hversion
    obtain ⟨hhdr, hrest⟩ := not_or.mp hlen
    obtain ⟨hip, hin⟩ := not_or.mp hrest
    rw [not_not] at hproto hv hhdr
    rw [hhdr] at hip hl4 h
    rw [hproto] at hl3
    cases h
    exact ⟨headerSize, Nat.not_lt.mp hmax, hl3, hv, Bool.eq_false_of_not_eq_true hfrag, hhdr,
      Nat.not_lt.mp hip, Nat.not_lt.mp hin, rfl, hheader, Nat.not_lt.mp hl4, rfl, rfl, rfl, rfl,
      rfl, rfl⟩
  · intro h
    obtain ⟨headerSize, h⟩ := h
    have hsize : ¬ f.size < info.l3Offset + ipHeaderSize := by
      have := h.ipLen
      have := h.inside
      omega
    have hversion : ¬ (ipHeaderVersion f info.l3Offset ≠ 4 ∨ ip4IsFragment f info.l3Offset = true) := by
      rw [h.version, h.whole]
      decide
    have hlen : ¬ (ipHdrLen f info.l3Offset ≠ ipHeaderSize ∨
        f.be16 (info.l3Offset + 2) < ipHdrLen f info.l3Offset ∨
        f.size < info.l3Offset + f.be16 (info.l3Offset + 2)) := by
      have := h.ipLen
      have := h.inside
      rw [h.hdrLen]
      omega
    have hl4 : ¬ f.be16 (info.l3Offset + 2) - ipHdrLen f info.l3Offset < headerSize := by
      rw [h.hdrLen]
      exact Nat.not_lt.mpr h.l4Inside
    rw [dnsFrameInfo, if_neg (Nat.not_lt.mpr h.max), h.l3]
    dsimp only
    rw [if_neg (not_not.mpr rfl), if_neg hsize, if_neg hversion, if_neg hlen, h.header]
    dsimp only
    rw [if_neg hl4, h.hdrLen, ← h.l4Offset, ← h.csumFlags, ← h.proto, ← h.srcPort, ← h.dstPort,
      ← h.srcIp, ← h.dstIp]

/-- **Parsing a rewritten frame**: the addresses are read from the new frame, all else is as it was. -/
theorem Agrees.dnsFrameInfo_eq
    (h : Agrees info.l3Offset f f') (hinfo : dnsFrameInfo f = some info) :
    dnsFrameInfo f' = some { info with
      srcIp := f'.addr (info.l3Offset + 12), dstIp := f'.addr (info.l3Offset + 16) } := by
  obtain ⟨headerSize, hp⟩ := dnsFrameInfo_eq_some_iff.mp hinfo
  have hle := h.size
  have hlen := hp.ipLen
  have hin := hp.inside
  have hhdr : ipHeaderSize = 20 := rfl
  have hl4 := hp.l4Inside
  have hheader : 8 ≤ headerSize := by
    have hh := hp.header
    rw [l4HeaderSize] at hh
    split at hh
    · cases hh
      decide
    · split at hh
      · cases hh
        decide
      · cases hh
  have hbyte0 := h.byte_eq (o := info.l3Offset) (by omega) (by omega)
  have hbyte9 := h.byte_eq (o := info.l3Offset + 9) (by omega) (by omega)
  have hlen' := h.be16_eq (o := info.l3Offset + 2) (by omega) (by omega)
  have hfrag' := h.be16_eq (o := info.l3Offset + 6) (by omega) (by omega)
  have hl4o := hp.l4Offset
  have hport := h.be16_eq (o := info.l4Offset) (by omega) (by omega)
  have hport' := h.be16_eq (o := info.l4Offset + 2) (by omega) (by omega)
  refine dnsFrameInfo_eq_some_iff.mpr ⟨headerSize, h.max, h.l3Offset_eq hp.l3, ?_, ?_, ?_, ?_, ?_,
    hl4o, ?_, ?_, ?_, ?_, ?_, ?_, rfl, rfl⟩
  · rw [ipHeaderVersion, hbyte0]
    exact hp.version
  · rw [ip4IsFragment, hfrag']
    exact hp.whole
  · rw [ipHdrLen, hbyte0]
    exact hp.hdrLen
  · rw [hlen']
    exact hlen
  · rw [hlen']
    exact hin.trans hle
  · rw [hbyte9]
    exact hp.header
  · rw [hlen']
    exact hl4
  · rw [hbyte9]
    exact hp.csumFlags
  · rw [hbyte9]
    exact hp.proto
  · rw [hport]
    exact hp.srcPort
  · rw [hport']
    exact hp.dstPort

/-! ## Rewriting an address -/

theorem macHdrLen_eq (h : l3Offset f = some (l3, proto)) : macHdrLen f = l3 := by
  rw [l3Offset] at h
  dsimp only at h
  rw [macHdrLen]
  split at h
  · cases h
  split at h
  case isTrue hvlan =>
    simp_all
  case isFalse hvlan =>
    rw [if_neg hvlan]
    split at h
    case isTrue hdvlan =>
      grind
    case isFalse hdvlan =>
      cases h
      exact if_neg hdvlan

theorem putChecksum_bytes (f : Frame) (sum : Frame → Nat) {offset a : Nat}
    (h : a < offset ∨ offset + 2 ≤ a) : (putChecksum f offset sum).bytes a = f.bytes a := by
  have hlen : (beBytes 2 (sum (f.put offset [0, 0]))).length = 2 := length_beBytes _ _
  rw [putChecksum]
  change ((f.bytes.write offset [0, 0]).write offset _) a = _
  rw [Store.write_outside (by rw [hlen]; exact h), Store.write_outside h]

theorem l4Checksum_bytes (f : Frame) (flags : CsumFlags) (h : a < l3 + 24) :
    (l4Checksum f flags l3).size = f.size ∧ (l4Checksum f flags l3).bytes a = f.bytes a := by
  have hhdr : ipHeaderSize = 20 := rfl
  rw [l4Checksum]
  split
  · split
    · exact ⟨rfl, rfl⟩
    · exact ⟨rfl, putChecksum_bytes f _ (by omega)⟩
  · split
    · split
      · exact ⟨rfl, rfl⟩
      · exact ⟨rfl, putChecksum_bytes f _ (by omega)⟩
    · exact ⟨rfl, rfl⟩

theorem netChecksumCalculate_bytes (f : Frame) (flags : CsumFlags)
    (h : a < macHdrLen f + 10 ∨ (macHdrLen f + 12 ≤ a ∧ a < macHdrLen f + 24)) :
    (netChecksumCalculate f flags).size = f.size ∧
      (netChecksumCalculate f flags).bytes a = f.bytes a := by
  rw [netChecksumCalculate]
  split
  · exact ⟨rfl, rfl⟩
  · generalize hg : (if flags.ip then putChecksum f (macHdrLen f + 10) fun f' =>
      netChecksumFinish (netChecksumAdd f' (macHdrLen f) (ipHdrLen f' (macHdrLen f))) else f) = g
    have hip : g.size = f.size ∧ g.bytes a = f.bytes a := by
      rw [← hg]
      split
      · exact ⟨rfl, putChecksum_bytes f _ (by omega)⟩
      · exact ⟨rfl, rfl⟩
    grind [l4Checksum_bytes]

def readdress (f : Frame) (info : DnsFrameInfo) (offset ip : Nat) : Frame :=
  netChecksumCalculate (f.put (info.l3Offset + offset) (leBytes 4 ip)) info.csumFlags

section Readdress

variable {f : Frame} {info : DnsFrameInfo} (hinfo : dnsFrameInfo f = some info)
include hinfo

variable {offset : Nat}

variable {field ip : Nat}

section

variable (hoff : offset = 12 ∨ offset = 16)

include hoff

theorem agrees_put (ip : Nat) :
    Agrees info.l3Offset f (f.put (info.l3Offset + offset) (leBytes 4 ip)) where
  size := Nat.le_refl _
  max := by
    obtain ⟨_, hp⟩ := dnsFrameInfo_eq_some_iff.mp hinfo
    exact hp.max
  bytes o _ hr := by
    apply Store.write_outside
    rw [length_leBytes]
    by_contra hin
    exact hr (Or.inl (by omega))

theorem readdress_bytes (ip : Nat)
    (h : a < info.l3Offset + 10 ∨ (info.l3Offset + 12 ≤ a ∧ a < info.l3Offset + 24)) :
    (readdress f info offset ip).size = f.size ∧
      (readdress f info offset ip).bytes a =
        f.bytes.write (info.l3Offset + offset) (leBytes 4 ip) a := by
  obtain ⟨_, hp⟩ := dnsFrameInfo_eq_some_iff.mp hinfo
  have hmac := macHdrLen_eq ((agrees_put hinfo hoff ip).l3Offset_eq hp.l3)
  have hbytes := netChecksumCalculate_bytes (f.put (info.l3Offset + offset) (leBytes 4 ip))
    info.csumFlags (a := a) (by rw [hmac]; exact h)
  exact hbytes

theorem agrees_readdress (ip : Nat) :
    Agrees info.l3Offset f (readdress f info offset ip) := by
  have hput := agrees_put hinfo hoff ip
  have hsize := (readdress_bytes hinfo hoff ip (a := info.l3Offset) (by omega)).1
  refine ⟨hsize.ge, hsize ▸ hput.max, ?_⟩
  intro o ho hr
  have hout : o < info.l3Offset + 10 ∨ (info.l3Offset + 20 ≤ o ∧ o < info.l3Offset + 24) := by
    by_contra hno
    exact hr (by rw [Rewritable]; omega)
  rw [(readdress_bytes hinfo hoff ip (a := o) (by omega)).2]
  exact hput.bytes o ho hr

theorem readdress_addr (hfield : field = 12 ∨ field = 16) (ip : Nat) :
    (readdress f info offset ip).addr (info.l3Offset + field) =
      leNat ((f.bytes.write (info.l3Offset + offset) (leBytes 4 ip)).read
        (info.l3Offset + field) 4) := by
  rw [Frame.addr]
  congr 1
  apply Store.read_congr
  intro a ha hb
  exact (readdress_bytes hinfo hoff ip (by omega)).2

theorem readdress_addr_same
    (hip : ip < 2 ^ 32) : (readdress f info offset ip).addr (info.l3Offset + offset) = ip := by
  grind [Store.read_write_same, length_leBytes, readdress_addr, leNat_leBytes]

end

theorem readdress_addr_other
    (h : (offset = 12 ∧ field = 16) ∨ (offset = 16 ∧ field = 12)) (ip : Nat) :
    (readdress f info offset ip).addr (info.l3Offset + field) =
      f.addr (info.l3Offset + field) := by
  rw [readdress_addr hinfo (by omega) (by omega), Store.read_write_disjoint, Frame.addr]
  rw [length_leBytes]
  omega

theorem dnsFrameInfo_readdress_src (hip : ip < 2 ^ 32) :
    dnsFrameInfo (readdress f info 12 ip) = some { info with srcIp := ip } := by
  obtain ⟨_, hp⟩ := dnsFrameInfo_eq_some_iff.mp hinfo
  rw [(agrees_readdress hinfo (Or.inl rfl) ip).dnsFrameInfo_eq hinfo,
    readdress_addr_same hinfo (Or.inl rfl) hip,
    readdress_addr_other hinfo (Or.inl ⟨rfl, rfl⟩) ip, ← hp.dstIp]

end Readdress

end DukeX.Slirp
