import DukeX.Slirp.Frame

/-!
# Answering for the Insignia zones

A query for one of five names is answered without asking a server.
-/

namespace DukeX.Slirp

open Lib

def asciiToLower (b : UInt8) : UInt8 := if 65 ≤ b ∧ b ≤ 90 then b + 32 else b

def cString (buffer : List UInt8) : List UInt8 := buffer.takeWhile (· != 0)

def sameIgnoringCase (a b : List UInt8) : Bool := a.map asciiToLower == b.map asciiToLower

/-! ## The zones -/

def bytesOf (text : String) : List UInt8 := text.toList.map fun c => UInt8.ofNat c.toNat

structure InsigniaZone where
  name : List UInt8
  target : String

def insigniaZones : List InsigniaZone := [
  ⟨bytesOf "macs.xboxlive.com", "macs.insig.uk"⟩,
  ⟨bytesOf "as.xboxlive.com", "as.insig.uk"⟩,
  ⟨bytesOf "tgs.xboxlive.com", "tgs.insig.uk"⟩,
  ⟨bytesOf "xds.xboxlive.com", "xexds.xboxlive.com"⟩,
  ⟨bytesOf "insignia.live", "insignia.live"⟩]

def findInsigniaZone (name : List UInt8) : Option Nat :=
  insigniaZones.findIdx? fun zone => sameIgnoringCase (cString name) zone.name

structure DnsEnv where
  forceInsigniaNat : Bool
  getaddrinfo : String → Option Nat

abbrev ZoneCache := Nat → Nat

def resolveInsigniaZone (env : DnsEnv) (cache : ZoneCache) (zone : Nat) : ZoneCache × Option Nat :=
  if cache zone ≠ 0 then (cache, some (cache zone))
  else
    match (insigniaZones[zone]?).bind fun z => env.getaddrinfo z.target with
    | some ip => (Function.update cache zone ip, some ip)
    | none => (cache, none)

structure DnsQuestion where
  name : List UInt8
  questionLen : Nat
  qtype : Nat
  qclass : Nat

def label (f : Frame) (dns pos len : Nat) : List UInt8 := f.bytes.read (dns + pos) len

/-- The loop over the labels of the name, from the position `pos` with `name` written so far. -/
def parseLabels (f : Frame) (dns dnsLen nameLen : Nat) :
    Nat → Nat → List UInt8 → Option (List UInt8 × Nat)
  | 0, _, _ => none
  | fuel + 1, pos, name =>
    if pos < dnsLen then
      let labelLen := f.byte (dns + pos)
      let pos := pos + 1
      if labelLen = 0 then some (name, pos)
      else if labelLen &&& 0xc0 ≠ 0 ∨ 63 < labelLen ∨ dnsLen < pos + labelLen then none
      else if name.length ≠ 0 ∧ nameLen ≤ name.length + 1 then none
      else
        let name := if name.length ≠ 0 then name ++ [0x2e] else name
        if nameLen ≤ name.length + labelLen then none
        else
          parseLabels f dns dnsLen nameLen fuel (pos + labelLen)
            (name ++ (label f dns pos labelLen).map asciiToLower)
    else some (name, pos)

def parseDnsQuestion (f : Frame) (dns dnsLen nameLen : Nat) : Option DnsQuestion :=
  if dnsLen < 12 ∨ nameLen = 0 then none
  else if f.be16 (dns + 4) = 0 then none
  else
    match parseLabels f dns dnsLen nameLen (dnsLen + 1) 12 [] with
    | none => none
    | some (name, pos) =>
      if dnsLen ≤ pos ∨ dnsLen < pos + 4 then none
      else some {
        name
        questionLen := pos + 4 - 12
        qtype := f.be16 (dns + pos)
        qclass := f.be16 (dns + pos + 2) }

def dnsMessage (f : Frame) : Option (DnsFrameInfo × Nat × Nat) :=
  match dnsFrameInfo f with
  | none => none
  | some info =>
    if info.proto ≠ ipProtoUdp ∨ info.dstPort ≠ 53 then none
    else
      let udpLen := f.be16 (info.l4Offset + 4)
      if udpLen < udpHeaderSize then none
      else if f.size < info.l4Offset + udpHeaderSize + (udpLen - udpHeaderSize) then none
      else some (info, info.l4Offset + udpHeaderSize, udpLen - udpHeaderSize)

def insigniaQuery (f : Frame) : Option (DnsFrameInfo × Nat × DnsQuestion) :=
  match dnsMessage f with
  | none => none
  | some (info, dns, dnsLen) =>
    if f.be16 (dns + 2) &&& 0x8000 ≠ 0 then none
    else
      match parseDnsQuestion f dns dnsLen 256 with
      | none => none
      | some question =>
        if (question.qtype = 1 ∨ question.qtype = 255) ∧ (question.qclass = 1 ∨ question.qclass = 255) then
          some (info, dns, question)
        else none

def insigniaResponse (f : Frame) (info : DnsFrameInfo) (dns : Nat) (question : DnsQuestion)
    (answerIp : Nat) : List UInt8 :=
  let dnsLen := 12 + question.questionLen + 16
  -- Ethernet
  f.bytes.read 6 6 ++ f.bytes.read 0 6 ++ beBytes 2 ethPIp ++
  -- IPv4
  [0x45, f.bytes (info.l3Offset + 1)] ++ beBytes 2 (ipHeaderSize + udpHeaderSize + dnsLen) ++
  f.bytes.read (info.l3Offset + 4) 2 ++ beBytes 2 0 ++ [64, 17, 0, 0] ++
  f.bytes.read (info.l3Offset + 16) 4 ++ f.bytes.read (info.l3Offset + 12) 4 ++
  -- UDP
  beBytes 2 53 ++ beBytes 2 info.srcPort ++ beBytes 2 (udpHeaderSize + dnsLen) ++ beBytes 2 0 ++
  -- DNS: the header, the question and one answer
  f.bytes.read dns 2 ++ beBytes 2 0x8180 ++ beBytes 2 1 ++ beBytes 2 1 ++ beBytes 2 0 ++ beBytes 2 0 ++
  f.bytes.read (dns + 12) question.questionLen ++
  beBytes 2 0xc00c ++ beBytes 2 1 ++ beBytes 2 1 ++ beBytes 4 300 ++ beBytes 2 4 ++ leBytes 4 answerIp

def answerInsigniaDns (env : DnsEnv) (cache : ZoneCache) (f : Frame) : ZoneCache × Option Frame :=
  if env.forceInsigniaNat = false then (cache, none)
  else
    match insigniaQuery f with
    | none => (cache, none)
    | some (info, dns, question) =>
      match findInsigniaZone question.name with
      | none => (cache, none)
      | some zone =>
        match resolveInsigniaZone env cache zone with
        | (cache, none) => (cache, none)
        | (cache, some answerIp) =>
          let response := insigniaResponse f info dns question answerIp
          (cache, some (netChecksumCalculate ⟨response.length, fun a => response.getD a 0⟩
            ⟨true, false, true⟩))

/-! ## The labels of a question -/

/-- The labels of the name at `pos`, up to the empty one that ends it, and the position behind it. -/
def labelsFrom (f : Frame) (dns dnsLen : Nat) : Nat → Nat → Option (List (List UInt8) × Nat)
  | 0, _ => none
  | fuel + 1, pos =>
    if pos < dnsLen then
      let labelLen := f.byte (dns + pos)
      if labelLen = 0 then some ([], pos + 1)
      else if 63 < labelLen ∨ dnsLen < pos + 1 + labelLen then none
      else (labelsFrom f dns dnsLen fuel (pos + 1 + labelLen)).map fun (labels, pos') =>
        (label f dns (pos + 1) labelLen :: labels, pos')
    else none

structure LabelledQuestion where
  labels : List (List UInt8)
  qtype : Nat
  qclass : Nat
deriving DecidableEq

def firstQuestion (f : Frame) : Option LabelledQuestion :=
  (dnsMessage f).bind fun (_, dns, dnsLen) =>
    (labelsFrom f dns dnsLen (dnsLen + 1) 12).map fun (labels, pos) =>
      ⟨labels, f.be16 (dns + pos), f.be16 (dns + pos + 2)⟩

def zoneLabels (zone : InsigniaZone) : List (List UInt8) :=
  (zone.name.map asciiToLower).splitOn 0x2e

/-- The labels, one by one and without regard to case, are those of one of the zones, and the question
is for an address. -/
def LabelledQuestion.Owned (q : LabelledQuestion) : Prop :=
  (∃ zone ∈ insigniaZones, q.labels.map (·.map asciiToLower) = zoneLabels zone) ∧
    (q.qtype = 1 ∨ q.qtype = 255) ∧ (q.qclass = 1 ∨ q.qclass = 255)

instance (q : LabelledQuestion) : Decidable q.Owned := inferInstanceAs (Decidable (_ ∧ _))

def LabelledQuestion.Plain (q : LabelledQuestion) : Prop :=
  ∀ l ∈ q.labels, (0x2e : UInt8) ∉ l ∧ (0 : UInt8) ∉ l

def ReadsAsZone (f : Frame) : Prop :=
  ∃ info dns question, insigniaQuery f = some (info, dns, question) ∧
    (findInsigniaZone question.name).isSome

variable {name : List UInt8} {labels : List (List UInt8)}

section Labels

variable {f : Frame} {dns dnsLen nameLen : Nat}

theorem asciiToLower_eq_iff {b c : UInt8} (hc : c.toNat < 65) : asciiToLower b = c ↔ b = c := by
  unfold asciiToLower
  split
  · rename_i h
    have h1 : 65 ≤ b.toNat := UInt8.le_iff_toNat_le.mp h.1
    have h2 : b.toNat ≤ 90 := UInt8.le_iff_toNat_le.mp h.2
    constructor
    · intro heq
      have hnat := congrArg UInt8.toNat heq
      rw [UInt8.toNat_add] at hnat
      have h32 : (32 : UInt8).toNat = 32 := rfl
      omega
    · intro heq
      rw [heq] at h1
      omega
  · rfl

theorem mem_map_asciiToLower {l : List UInt8} {c : UInt8} (hc : c.toNat < 65) :
    c ∈ l.map asciiToLower ↔ c ∈ l := by
  rw [List.mem_map]
  constructor
  · simp [asciiToLower_eq_iff, hc]
  · intro h
    exact ⟨c, h, (asciiToLower_eq_iff hc).mpr rfl⟩

theorem asciiToLower_idem (b : UInt8) : asciiToLower (asciiToLower b) = asciiToLower b := by
  unfold asciiToLower
  split
  · rename_i h
    have h1 : 65 ≤ b.toNat := UInt8.le_iff_toNat_le.mp h.1
    grind
  · rfl

def joinOnto : List UInt8 → List (List UInt8) → List UInt8
  | name, [] => name
  | name, l :: ls =>
    joinOnto ((if name.length ≠ 0 then name ++ [0x2e] else name) ++ l.map asciiToLower) ls

theorem joinOnto_of_ne_nil (hname : name ≠ []) (labels : List (List UInt8)) :
    joinOnto name labels = [0x2e].intercalate (name :: labels.map (·.map asciiToLower)) := by
  induction labels generalizing name with
  | nil => simp [joinOnto, List.intercalate]
  | cons l ls ih =>
    have hlen : name.length ≠ 0 := fun h => hname (List.length_eq_zero_iff.mp h)
    rw [joinOnto, if_pos hlen, ih (by simp)]
    cases ls with
    | nil | cons l' ls => simp [List.intercalate, List.intersperse_cons_cons]

theorem joinOnto_nil (h : ∀ l ∈ labels, l ≠ []) :
    joinOnto [] labels = [0x2e].intercalate (labels.map (·.map asciiToLower)) := by
  cases labels with
  | nil => rfl
  | cons l ls =>
    simp [joinOnto, joinOnto_of_ne_nil, h]

theorem labelsFrom_ne_nil {fuel pos : Nat} {r : List (List UInt8) × Nat}
    (h : labelsFrom f dns dnsLen fuel pos = some r) : ∀ l ∈ r.1, l ≠ [] := by
  induction fuel generalizing pos r with
  | zero => cases h
  | succ fuel ih =>
    unfold labelsFrom at h
    by_cases hpos : pos < dnsLen
    · rw [if_pos hpos] at h
      dsimp only at h
      by_cases hzero : f.byte (dns + pos) = 0
      · grind
      · rw [if_neg hzero] at h
        split at h
        · cases h
        · obtain ⟨rest, hrest, rfl⟩ := Option.map_eq_some_iff.mp h
          intro l hl
          cases List.mem_cons.mp hl with
          | inl heq =>
            subst heq
            exact fun hnil => hzero (by simpa [label] using congrArg List.length hnil)
          | inr hmem => exact ih hrest l hmem
    · rw [if_neg hpos] at h
      cases h

theorem parseLabels_eq {fuel pos pos' : Nat} {name name' : List UInt8}
    (h : parseLabels f dns dnsLen nameLen fuel pos name = some (name', pos')) (hpos : pos' < dnsLen) :
    ∃ labels, labelsFrom f dns dnsLen fuel pos = some (labels, pos') ∧ name' = joinOnto name labels := by
  induction fuel generalizing pos name with
  | zero => cases h
  | succ fuel ih =>
    unfold parseLabels at h
    unfold labelsFrom
    by_cases hin : pos < dnsLen
    · rw [if_pos hin] at h ⊢
      dsimp only at h ⊢
      by_cases hzero : f.byte (dns + pos) = 0
      · rw [if_pos hzero] at h ⊢
        cases h
        exact ⟨[], rfl, rfl⟩
      · rw [if_neg hzero] at h ⊢
        by_cases hlabel : f.byte (dns + pos) &&& 0xc0 ≠ 0 ∨ 63 < f.byte (dns + pos) ∨
            dnsLen < pos + 1 + f.byte (dns + pos)
        · rw [if_pos hlabel] at h
          cases h
        · rw [if_neg hlabel] at h
          rw [if_neg fun hbad => hlabel (.inr hbad)]
          replace h := Option.ite_none_left_eq_some.mp (Option.ite_none_left_eq_some.mp h).2
          obtain ⟨labels, hlabels, hname⟩ := ih h.2
          rw [hlabels]
          exact ⟨_, rfl, hname⟩
    · simp_all

end Labels

/-! ## Which questions are answered -/

section Answer

variable {f : Frame}

theorem insigniaQuery_eq {info : DnsFrameInfo} {dns : Nat} {question : DnsQuestion}
    (h : insigniaQuery f = some (info, dns, question)) :
    ∃ labels, firstQuestion f = some ⟨labels, question.qtype, question.qclass⟩ ∧
      question.name = [0x2e].intercalate (labels.map (·.map asciiToLower)) ∧
      (question.qtype = 1 ∨ question.qtype = 255) ∧ (question.qclass = 1 ∨ question.qclass = 255) := by
  unfold insigniaQuery at h
  unfold firstQuestion
  cases hm : dnsMessage f with
  | none => rw [hm] at h; cases h
  | some m =>
    obtain ⟨info', dns', dnsLen⟩ := m
    rw [hm] at h
    dsimp only at h
    obtain ⟨-, h⟩ := Option.ite_none_left_eq_some.mp h
    cases hp : parseDnsQuestion f dns' dnsLen 256 with
    | none => rw [hp] at h; cases h
    | some question' =>
      rw [hp] at h
      obtain ⟨htype, heq⟩ := Option.ite_none_right_eq_some.mp h
      cases heq
      unfold parseDnsQuestion at hp
      obtain ⟨-, hp⟩ := Option.ite_none_left_eq_some.mp hp
      obtain ⟨-, hp⟩ := Option.ite_none_left_eq_some.mp hp
      cases hl : parseLabels f dns dnsLen 256 (dnsLen + 1) 12 [] with
      | none => rw [hl] at hp; cases hp
      | some r =>
        rw [hl] at hp
        obtain ⟨hend, heq⟩ := Option.ite_none_left_eq_some.mp hp
        cases heq
        -- the loop left on the empty label, not at the end of the message
        obtain ⟨labels, hlabels, hname⟩ := parseLabels_eq hl (by omega)
        refine ⟨labels, ?_, ?_, htype⟩
        · grind
        · rw [hname]
          exact joinOnto_nil (labelsFrom_ne_nil hlabels)

theorem cString_of_notMem {buffer : List UInt8} (h : (0 : UInt8) ∉ buffer) : cString buffer = buffer :=
  List.takeWhile_eq_self_iff.mpr fun b hb => by
    grind

theorem mem_of_mem_intercalate {b sep : UInt8} {ls : List (List UInt8)}
    (h : b ∈ [sep].intercalate ls) : b = sep ∨ ∃ l ∈ ls, b ∈ l := by
  induction ls with
  | nil => cases h
  | cons l ls ih =>
    cases ls with
    | nil => exact .inr ⟨l, List.mem_cons_self, by simpa [List.intercalate] using h⟩
    | cons l' ls =>
      rw [List.intercalate, List.intersperse_cons_cons, List.flatten_cons, List.flatten_cons,
        List.mem_append, List.mem_append, List.mem_singleton] at h
      obtain hl | hsep | hrest := h
      · exact .inr ⟨l, List.mem_cons_self, hl⟩
      · exact .inl hsep
      · refine (ih hrest).imp_right ?_
        simp_all

theorem map_asciiToLower_intercalate (labels : List (List UInt8)) :
    ([0x2e].intercalate (labels.map (·.map asciiToLower))).map asciiToLower =
      [0x2e].intercalate (labels.map (·.map asciiToLower)) := by
  refine (List.map_congr_left fun b hb => ?_).trans (List.map_id _)
  cases mem_of_mem_intercalate hb with
  | inl hsep => exact hsep ▸ rfl
  | inr hpart =>
    obtain ⟨l, hl, hmem⟩ := hpart
    obtain ⟨l', -, rfl⟩ := List.mem_map.mp hl
    obtain ⟨b', -, rfl⟩ := List.mem_map.mp hmem
    exact asciiToLower_idem b'

theorem insigniaZones_name_ne_nil : ∀ zone ∈ insigniaZones, zone.name ≠ [] := by decide

theorem zoneLabels_plain : ∀ zone ∈ insigniaZones, ∀ l ∈ zoneLabels zone,
    (0x2e : UInt8) ∉ l ∧ (0 : UInt8) ∉ l := by
  decide

theorem findInsigniaZone_isSome_iff :
    (findInsigniaZone name).isSome ↔
      ∃ zone ∈ insigniaZones, (cString name).map asciiToLower = zone.name.map asciiToLower := by
  simp [findInsigniaZone, sameIgnoringCase]

theorem owned_of_plain {qtype qclass : Nat}
    (hplain : (⟨labels, qtype, qclass⟩ : LabelledQuestion).Plain)
    (h : (findInsigniaZone ([0x2e].intercalate (labels.map (·.map asciiToLower)))).isSome) :
    ∃ zone ∈ insigniaZones, labels.map (·.map asciiToLower) = zoneLabels zone := by
  obtain ⟨zone, hzone, heq⟩ := findInsigniaZone_isSome_iff.mp h
  refine ⟨zone, hzone, ?_⟩
  have hdot : ∀ l ∈ labels.map (·.map asciiToLower), (0x2e : UInt8) ∉ l := by
    intro l hl
    obtain ⟨l', hl', rfl⟩ := List.mem_map.mp hl
    exact fun hmem => (hplain l' hl').1 ((mem_map_asciiToLower (by decide)).mp hmem)
  have hzero : ∀ l ∈ labels.map (·.map asciiToLower), (0 : UInt8) ∉ l := by
    intro l hl
    obtain ⟨l', hl', rfl⟩ := List.mem_map.mp hl
    exact fun hmem => (hplain l' hl').2 ((mem_map_asciiToLower (by decide)).mp hmem)
  have hend : (0 : UInt8) ∉ [0x2e].intercalate (labels.map (·.map asciiToLower)) := by
    grind [mem_of_mem_intercalate]
  rw [cString_of_notMem hend, map_asciiToLower_intercalate] at heq
  have hne : labels.map (·.map asciiToLower) ≠ [] := by
    intro hnil
    rw [hnil] at heq
    exact insigniaZones_name_ne_nil zone hzone (List.map_eq_nil_iff.mp heq.symm)
  rw [zoneLabels, ← heq, List.splitOn_intercalate 0x2e hdot hne]

theorem answerInsigniaDns_of_readsAsZone (h : ReadsAsZone f) :
    (answerInsigniaDns ⟨true, fun _ => some 1⟩ (fun _ => 0) f).2 ≠ none := by
  obtain ⟨info, dns, question, hquery, hzone⟩ := h
  obtain ⟨zone, hfind⟩ := Option.isSome_iff_exists.mp hzone
  have hlt : zone < insigniaZones.length := (List.findIdx?_eq_some_iff_findIdx_eq.mp hfind).1
  simp [resolveInsigniaZone, answerInsigniaDns, hlt, hquery, hfind]

theorem readsAsZone_of_answerInsigniaDns {env : DnsEnv} {cache : ZoneCache}
    (h : (answerInsigniaDns env cache f).2 ≠ none) : ReadsAsZone f := by
  unfold answerInsigniaDns at h
  split at h
  · exact absurd rfl h
  · split at h
    · exact absurd rfl h
    · rename_i info dns question hquery
      refine ⟨info, dns, question, hquery, ?_⟩
      grind

/-- Every answer is to a question for the address of a zone, label by label, exactly when a question
that reads as a zone has no dot and no zero byte in its labels. -/
theorem answerInsigniaDns_owned_iff (f : Frame) :
    (∀ env cache, (answerInsigniaDns env cache f).2 ≠ none →
        ∃ question, firstQuestion f = some question ∧ question.Owned) ↔
      (ReadsAsZone f → ∀ question, firstQuestion f = some question → question.Plain) := by
  constructor
  · intro howned hreads question hfirst l hl
    obtain ⟨question', hfirst', ⟨zone, hzone, hlabels⟩, -⟩ :=
      howned _ _ (answerInsigniaDns_of_readsAsZone hreads)
    cases hfirst.symm.trans hfirst'
    -- the labels of a zone have neither, and lower case is no dot and no zero byte
    grind [asciiToLower, List.mem_map_of_mem, zoneLabels_plain]
  · intro hplain env cache hanswer
    have hreads := readsAsZone_of_answerInsigniaDns hanswer
    have hplain := hplain hreads
    obtain ⟨info, dns, question, hquery, hzone⟩ := hreads
    obtain ⟨labels, hfirst, hname, htype⟩ := insigniaQuery_eq hquery
    refine ⟨_, hfirst, owned_of_plain (hplain _ hfirst) ?_, htype⟩
    rw [← hname]
    exact hzone

end Answer

def queryFrame (name : List UInt8) : Frame :=
  let dns := beBytes 2 0x1234 ++ beBytes 2 0x0100 ++ beBytes 2 1 ++ beBytes 2 0 ++ beBytes 4 0 ++
    name ++ beBytes 2 1 ++ beBytes 2 1
  let udp := beBytes 2 1024 ++ beBytes 2 53 ++ beBytes 2 (8 + dns.length) ++ beBytes 2 0 ++ dns
  let ip := [0x45, 0] ++ beBytes 2 (20 + udp.length) ++ beBytes 4 0 ++ [64, 17, 0, 0] ++
    [10, 0, 2, 15] ++ [10, 0, 2, 3] ++ udp
  let bytes := List.replicate 12 0 ++ beBytes 2 ethPIp ++ ip
  ⟨bytes.length, fun a => bytes.getD a 0⟩

/-- One label that holds the whole dotted name is answered for, and so are two labels of which the
second goes on behind a zero byte. -/
theorem answerInsigniaDns_dotted_label :
    ((answerInsigniaDns ⟨true, fun _ => some 1⟩ (fun _ => 0)
        (queryFrame (15 :: bytesOf "as.xboxlive.com" ++ [0]))).2 ≠ none ∧
      firstQuestion (queryFrame (15 :: bytesOf "as.xboxlive.com" ++ [0])) =
        some ⟨[bytesOf "as.xboxlive.com"], 1, 1⟩ ∧
      ¬(⟨[bytesOf "as.xboxlive.com"], 1, 1⟩ : LabelledQuestion).Owned) ∧
    ((answerInsigniaDns ⟨true, fun _ => some 1⟩ (fun _ => 0)
        (queryFrame (8 :: bytesOf "insignia" ++ [6] ++ bytesOf "live" ++ [0, 0x78] ++ [0]))).2 ≠ none ∧
      firstQuestion
          (queryFrame (8 :: bytesOf "insignia" ++ [6] ++ bytesOf "live" ++ [0, 0x78] ++ [0])) =
        some ⟨[bytesOf "insignia", bytesOf "live" ++ [0, 0x78]], 1, 1⟩ ∧
      ¬(⟨[bytesOf "insignia", bytesOf "live" ++ [0, 0x78]], 1, 1⟩ : LabelledQuestion).Owned) := by
  refine ⟨⟨?_, by decide, by decide⟩, ?_, by decide, by decide⟩
  · exact Option.isSome_iff_ne_none.mp (by decide)
  · exact Option.isSome_iff_ne_none.mp (by decide)

end DukeX.Slirp
