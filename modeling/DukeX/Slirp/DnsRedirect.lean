import DukeX.Slirp.Frame

/-!
# DNS redirection

Queries to any name server are sent to the configured one instead, and its responses are given back
the address the guest asked.
-/

namespace DukeX.Slirp

open Lib

/-! ## The ring of redirections -/

def redirectLimit : Nat := 64

structure DnsRedirect where
  active : Bool
  proto : Nat
  guestPort : Nat
  guestIp : Nat
  originalDns : Nat
  deriving DecidableEq, Repr

structure Redirects where
  entries : Nat → DnsRedirect
  next : Nat

def Redirects.init : Redirects := ⟨fun _ => ⟨false, 0, 0, 0, 0⟩, 0⟩

def DnsRedirect.ofQuery (info : DnsFrameInfo) : DnsRedirect :=
  ⟨true, info.proto, info.srcPort, info.srcIp, info.dstIp⟩

def storeDnsRedirect (r : Redirects) (info : DnsFrameInfo) : Redirects where
  entries := Function.update r.entries r.next (DnsRedirect.ofQuery info)
  next := (r.next + 1) % redirectLimit

def DnsRedirect.answers (entry : DnsRedirect) (info : DnsFrameInfo) : Bool :=
  entry.active && entry.proto == info.proto && entry.guestPort == info.dstPort &&
    entry.guestIp == info.dstIp

def Redirects.index (r : Redirects) (i : Nat) : Nat :=
  (r.next + redirectLimit - 1 - i) % redirectLimit

def findDnsRedirect (r : Redirects) (info : DnsFrameInfo) : Option Nat :=
  (((List.range redirectLimit).map fun i => r.entries (r.index i)).find? (·.answers info)).map
    DnsRedirect.originalDns

def redirectDnsQuery (direct : Nat) (r : Redirects) (f : Frame) : Redirects × Frame :=
  match dnsFrameInfo f with
  | none => (r, f)
  | some info =>
    if info.dstPort ≠ 53 ∨ info.dstIp = direct then (r, f)
    else (storeDnsRedirect r info, readdress f info 16 direct)

def redirectDnsResponse (direct : Nat) (r : Redirects) (f : Frame) : Frame :=
  match dnsFrameInfo f with
  | none => f
  | some info =>
    if info.srcPort ≠ 53 ∨ info.srcIp ≠ direct then f
    else
      match findDnsRedirect r info with
      | none => f
      | some originalDns => if originalDns = direct then f else readdress f info 12 originalDns

def padShortFrame (needsPadding : Bool) (f : Frame) : Frame :=
  if needsPadding = true ∧ f.size < 60 then
    ⟨60, fun o => if o < f.size then f.bytes o else 0⟩
  else f

def netSlirpSendPacket (direct : Nat) (needsPadding : Bool) (r : Redirects) (f : Frame) : Frame :=
  redirectDnsResponse direct r (padShortFrame needsPadding f)

def netSlirpReceive (direct : Nat) (insignia : Frame → Bool) (r : Redirects) (f : Frame) :
    Redirects × Option Frame :=
  if insignia f then (r, none)
  else
    let (r, f) := redirectDnsQuery direct r f
    (r, some f)

inductive Event where
  | query (f : Frame)
  | response (q : DnsFrameInfo) (f : Frame)

section Runs

variable (direct : Nat) (needsPadding : Bool) (insignia : Frame → Bool)

def stepEvent (r : Redirects) : Event → Redirects
  | .query f => (netSlirpReceive direct insignia r f).1
  | .response _ _ => r

def delivered : Redirects → List Event → List (DnsFrameInfo × Frame)
  | _, [] => []
  | r, .query f :: es => delivered (stepEvent direct insignia r (.query f)) es
  | r, .response q f :: es =>
    (q, netSlirpSendPacket direct needsPadding r f) :: delivered r es

def redirected (es : List Event) : List DnsFrameInfo :=
  (es.filterMap fun
    | .query f =>
      if insignia f then none
      else (dnsFrameInfo f).filter fun info => info.dstPort = 53 ∧ info.dstIp ≠ direct
    | .response _ _ => none).reverse

end Runs

/-- Slirp answers a query it got for the configured server. -/
def Answers (direct : Nat) (q : DnsFrameInfo) (f : Frame) : Prop :=
  ∃ info, dnsFrameInfo f = some info ∧ info.proto = q.proto ∧ info.srcIp = direct ∧
    info.srcPort = 53 ∧ info.dstIp = q.srcIp ∧ info.dstPort = q.srcPort

def DnsFrameInfo.sameGuest (q q' : DnsFrameInfo) : Bool :=
  q'.proto == q.proto && q'.srcPort == q.srcPort && q'.srcIp == q.srcIp

/-- Of the last redirections, the latest from the guest's port went to the server the query went to;
or there is none, and the query went to the configured server. -/
def Unmistaken (direct : Nat) (log : List DnsFrameInfo) (q : DnsFrameInfo) : Prop :=
  match (log.take redirectLimit).find? q.sameGuest with
  | some q' => q'.dstIp = q.dstIp
  | none => q.dstIp = direct

structure Redirects.Holds (r : Redirects) (log : List DnsFrameInfo) : Prop where
  next_lt : r.next < redirectLimit
  dst_lt : ∀ info ∈ log, info.dstIp < 2 ^ 32
  entries : ∀ i < redirectLimit, (log[i]? = none ∧ (r.entries (r.index i)).active = false) ∨
    ∃ info, log[i]? = some info ∧ r.entries (r.index i) = DnsRedirect.ofQuery info

theorem holds_init : Redirects.init.Holds [] where
  next_lt := by decide
  dst_lt _ h := absurd h List.not_mem_nil
  entries _ _ := Or.inl ⟨rfl, rfl⟩

variable {r : Redirects} {log : List DnsFrameInfo} {info : DnsFrameInfo}

theorem Redirects.Holds.store (h : r.Holds log) (hinfo : info.dstIp < 2 ^ 32) :
    (storeDnsRedirect r info).Holds (info :: log) where
  next_lt := Nat.mod_lt _ (by decide)
  dst_lt q hq := by
    cases List.mem_cons.mp hq with
    | inl heq => exact heq ▸ hinfo
    | inr hmem => exact h.dst_lt q hmem
  entries i hi := by
    have hnext : r.next < 64 := h.next_lt
    have hlt : i < 64 := hi
    cases i with
    | zero =>
      have hidx : (storeDnsRedirect r info).index 0 = r.next := by
        simp only [storeDnsRedirect, Redirects.index, redirectLimit]
        omega
      refine Or.inr ⟨info, rfl, ?_⟩
      rw [hidx]
      exact Function.update_self _ _ _
    | succ i =>
      have hidx : (storeDnsRedirect r info).index (i + 1) = r.index i := by
        simp only [storeDnsRedirect, Redirects.index, redirectLimit]
        omega
      have hother : r.index i ≠ r.next := by
        simp only [Redirects.index, redirectLimit]
        omega
      rw [hidx, List.getElem?_cons_succ]
      change (_ ∧ (Function.update r.entries r.next _ _).active = false) ∨
        ∃ q, _ ∧ Function.update r.entries r.next _ _ = _
      rw [Function.update_of_ne hother]
      exact h.entries i (Nat.lt_of_succ_lt hi)

theorem Redirects.Holds.find (h : r.Holds log)
    (info : DnsFrameInfo) (k : Nat) (hk : k ≤ redirectLimit) :
    ((List.range k).map fun i => r.entries (r.index i)).find? (·.answers info) =
      ((log.take k).map DnsRedirect.ofQuery).find? (·.answers info) := by
  induction k with
  | zero => rfl
  | succ k ih =>
    rw [List.range_succ, List.map_append, List.find?_append, ih (by omega), List.take_add_one,
      List.map_append, List.find?_append]
    congr 1
    cases h.entries k (by omega) with
    | inl hnone =>
      simp [DnsRedirect.answers, hnone]
    | inr hsome =>
      grind

theorem Redirects.Holds.findDnsRedirect_eq
    (h : r.Holds log) {q : DnsFrameInfo} (hproto : info.proto = q.proto)
    (hport : info.dstPort = q.srcPort) (hip : info.dstIp = q.srcIp) :
    findDnsRedirect r info =
      ((log.take redirectLimit).find? q.sameGuest).map DnsFrameInfo.dstIp := by
  have htest : (fun entry : DnsRedirect => entry.answers info) ∘ DnsRedirect.ofQuery = q.sameGuest := by
    funext q'
    simp [DnsRedirect.answers, DnsRedirect.ofQuery, DnsFrameInfo.sameGuest, hproto, hport, hip]
  rw [findDnsRedirect, h.find info redirectLimit (Nat.le_refl _), List.find?_map, htest,
    Option.map_map]
  rfl

theorem dnsFrameInfo_pad {f : Frame} (hinfo : dnsFrameInfo f = some info)
    (needsPadding : Bool) : dnsFrameInfo (padShortFrame needsPadding f) = some info := by
  rw [padShortFrame]
  split
  case isFalse => exact hinfo
  case isTrue hshort =>
    obtain ⟨_, hp⟩ := dnsFrameInfo_eq_some_iff.mp hinfo
    have hin := hp.inside
    have hlen := hp.ipLen
    have hhdr : ipHeaderSize = 20 := rfl
    have hbytes : ∀ o, o < f.size → (if o < f.size then f.bytes o else 0) = f.bytes o :=
      fun o ho => if_pos ho
    have hagrees : Agrees info.l3Offset f ⟨60, fun o => if o < f.size then f.bytes o else 0⟩ :=
      ⟨hshort.2.le, (by decide : 60 ≤ intMax), fun o ho _ => hbytes o ho⟩
    have haddr (o : Nat) (ho : o + 4 ≤ f.size) :
        Frame.addr ⟨60, fun o => if o < f.size then f.bytes o else 0⟩ o = f.addr o := by
      grind [Frame.addr, Store.read_congr]
    rw [hagrees.dnsFrameInfo_eq hinfo, haddr _ (by omega), haddr _ (by omega), ← hp.srcIp,
      ← hp.dstIp]

def sourceIp (f : Frame) : Option Nat := (dnsFrameInfo f).map DnsFrameInfo.srcIp

/-- **One response** comes from the server the guest asked exactly if it is not mistaken for the
answer to another query. -/
theorem sourceIp_send_iff (h : r.Holds log)
    {direct : Nat} {q : DnsFrameInfo} {f : Frame} (hf : Answers direct q f) (needsPadding : Bool) :
    sourceIp (netSlirpSendPacket direct needsPadding r f) = some q.dstIp ↔
      Unmistaken direct log q := by
  obtain ⟨info, hinfo, hproto, hsrc, hport, hdst, hdport⟩ := hf
  have hpad := dnsFrameInfo_pad hinfo needsPadding
  have hplain : sourceIp (padShortFrame needsPadding f) = some direct := by
    rw [sourceIp, hpad, ← hsrc]
    rfl
  have hno : ¬ (info.srcPort ≠ 53 ∨ info.srcIp ≠ direct) := by
    rw [hport, hsrc]
    simp
  rw [netSlirpSendPacket, redirectDnsResponse, hpad]
  dsimp only
  rw [if_neg hno, h.findDnsRedirect_eq hproto hdport hdst, Unmistaken]
  cases hfind : (log.take redirectLimit).find? q.sameGuest with
  | none =>
    grind
  | some q' =>
    have hmem : q' ∈ log := List.mem_of_mem_take (List.mem_of_find?_eq_some hfind)
    rw [Option.map_some]
    dsimp only
    split
    case isTrue heq => rw [hplain, heq, Option.some.injEq]
    case isFalse hne =>
      rw [sourceIp, dnsFrameInfo_readdress_src hpad (h.dst_lt q' hmem), Option.map_some,
        Option.some.injEq]

theorem addr_lt (f : Frame) (o : Nat) : f.addr o < 2 ^ 32 := by
  have h := leNat_lt (f.bytes.read o 4)
  rw [Store.length_read] at h
  exact h

section Runs

variable (direct : Nat) (needsPadding : Bool) (insignia : Frame → Bool)

variable {r : Redirects} {log : List DnsFrameInfo}

theorem Redirects.Holds.receive (h : r.Holds log)
    (f : Frame) :
    (stepEvent direct insignia r (.query f)).Holds (redirected direct insignia [.query f] ++ log) := by
  rw [stepEvent, netSlirpReceive, redirected]
  by_cases hins : insignia f
  · simpa [hins] using h
  · simp only [hins, Bool.false_eq_true, if_false, List.filterMap_cons, List.filterMap_nil,
      redirectDnsQuery]
    cases hinfo : dnsFrameInfo f with
    | none => exact h
    | some info =>
      obtain ⟨_, hp⟩ := dnsFrameInfo_eq_some_iff.mp hinfo
      have hlt : info.dstIp < 2 ^ 32 := hp.dstIp ▸ addr_lt f _
      dsimp only
      split
      case isTrue hno =>
        grind
      case isFalse hyes =>
        obtain ⟨hport, hip⟩ := not_or.mp hyes
        rw [not_not] at hport
        simpa [Option.filter, hport, hip] using h.store hlt

theorem redirected_cons (e : Event) (es : List Event) :
    redirected direct insignia (e :: es) =
      redirected direct insignia es ++ redirected direct insignia [e] := by
  grind [redirected]

theorem delivered_iff (h : r.Holds log) (es : List Event)
    (hslirp : ∀ q f, .response q f ∈ es → Answers direct q f) :
    (∀ p ∈ delivered direct needsPadding insignia r es, sourceIp p.2 = some p.1.dstIp) ↔
      ∀ before q f after, es = before ++ .response q f :: after →
        Unmistaken direct (redirected direct insignia before ++ log) q := by
  induction es generalizing r log with
  | nil =>
    constructor
    · grind
    · intro _ p hp
      exact absurd hp List.not_mem_nil
  | cons e es ih =>
    have htail : ∀ q f, .response q f ∈ es → Answers direct q f :=
      fun q f hmem => hslirp q f (List.mem_cons_of_mem _ hmem)
    cases e with
    | query f =>
      have hstep := ih (h.receive direct insignia f) htail
      rw [delivered, hstep]
      constructor
      · intro hall before q f' after heq
        cases before with
        | nil => cases heq
        | cons e before =>
          cases heq
          have hq := hall before q f' after rfl
          rw [redirected_cons, List.append_assoc]
          exact hq
      · grind [redirected_cons]
    | response q f =>
      have hone := sourceIp_send_iff h (hslirp q f List.mem_cons_self) needsPadding
      have hrest := ih h htail
      rw [delivered, List.forall_mem_cons, hone, hrest]
      constructor
      · intro hall before q' f' after heq
        cases before with
        | nil =>
          cases heq
          exact hall.1
        | cons e before =>
          cases heq
          have hq := hall.2 before q' f' after rfl
          rw [redirected_cons]
          simpa [redirected] using hq
      · intro hall
        refine ⟨hall [] q f es rfl, ?_⟩
        grind [redirected]

/-- **DNS redirection.** In every run in which slirp answers the queries it gets, every response that
reaches the guest comes from the server the guest asked if and only if no response is mistaken: of
the last 64 redirected queries, the latest from the same protocol, address and port went to the same
server, or there is none and the query went to the configured server. -/
theorem dnsRedirect_transparent_iff (es : List Event)
    (hslirp : ∀ q f, .response q f ∈ es → Answers direct q f) :
    (∀ p ∈ delivered direct needsPadding insignia Redirects.init es,
        sourceIp p.2 = some p.1.dstIp) ↔
      ∀ before q f after, es = before ++ .response q f :: after →
        Unmistaken direct (redirected direct insignia before) q := by
  have h := delivered_iff direct needsPadding insignia holds_init es hslirp
  simpa only [List.append_nil] using h

end Runs

def udpFrame (srcIp srcPort dstIp dstPort : Nat) : Frame where
  size := 42
  bytes :=
    let b : Store := fun _ => 0
    let b := (b.write 12 [8, 0]).write 14 [0x45, 0, 0, 28]
    let b := ((b.write 23 [17]).write 26 (leBytes 4 srcIp)).write 30 (leBytes 4 dstIp)
    (b.write 34 (beBytes 2 srcPort)).write 36 (beBytes 2 dstPort)

def udpInfo (srcIp srcPort dstIp dstPort : Nat) : DnsFrameInfo :=
  ⟨14, 34, ⟨true, false, true⟩, 17, srcPort, dstPort, srcIp, dstIp⟩

theorem dnsRedirect_transparent_iff_one :
    (∀ p ∈ delivered 1 true (fun _ => false) Redirects.init
        [.query (udpFrame 9 1024 7 53), .response (udpInfo 9 1024 7 53) (udpFrame 1 53 9 1024)],
      sourceIp p.2 = some p.1.dstIp) ∧
    Unmistaken 1 (redirected 1 (fun _ => false) [.query (udpFrame 9 1024 7 53)])
      (udpInfo 9 1024 7 53) := by
  have hiff := dnsRedirect_transparent_iff 1 true (fun _ => false)
    [.query (udpFrame 9 1024 7 53), .response (udpInfo 9 1024 7 53) (udpFrame 1 53 9 1024)] (by
      intro q f hmem
      simp only [List.mem_cons, Event.response.injEq, List.not_mem_nil, or_false, reduceCtorEq,
        false_or] at hmem
      obtain ⟨rfl, rfl⟩ := hmem
      exact ⟨udpInfo 1 53 9 1024, by decide, rfl, rfl, rfl, rfl, rfl⟩)
  have hall : ∀ p ∈ delivered 1 true (fun _ => false) Redirects.init
      [.query (udpFrame 9 1024 7 53), .response (udpInfo 9 1024 7 53) (udpFrame 1 53 9 1024)],
      sourceIp p.2 = some p.1.dstIp := by
    decide
  exact ⟨hall, hiff.mp hall [.query (udpFrame 9 1024 7 53)] _ _ [] rfl⟩

/-- After a query to server 7, the guest asks the configured server 1 itself from the same port; the
answer comes back as if from server 7. -/
theorem dnsRedirect_mistaken :
    Answers 1 (udpInfo 9 1024 1 53) (udpFrame 1 53 9 1024) ∧
      (delivered 1 true (fun _ => false) Redirects.init
        [.query (udpFrame 9 1024 7 53), .response (udpInfo 9 1024 7 53) (udpFrame 1 53 9 1024),
          .query (udpFrame 9 1024 1 53),
          .response (udpInfo 9 1024 1 53) (udpFrame 1 53 9 1024)]).map
        (fun p => (p.1.dstIp, sourceIp p.2)) = [(7, some 7), (1, some 7)] :=
  ⟨⟨udpInfo 1 53 9 1024, by decide, rfl, rfl, rfl, rfl, rfl⟩, by decide⟩

end DukeX.Slirp
