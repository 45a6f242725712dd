import Nmsg.Defs

/-!
# DnsQR records

A record describes a query, a response, or a query with its response. Records are compared in two
ways: by the six values that identify the exchange, or by these and the question.
-/

namespace Nmsg

inductive DnsQRType where
  | udpInvalid
  | udpQueryResponse
  | udpUnansweredQuery
  | udpUnsolicitedResponse
  | tcp
  | icmp
  | udpQueryOnly
  | udpResponseOnly
deriving DecidableEq, Repr

inductive UdpChecksum where
  | error
  | absent
  | incorrect
  | correct
deriving DecidableEq, Repr

/-- `Nmsg__Base__DnsQR`. The `has_` flag of an optional field and the field itself are one
`Option`; `timeout` is kept as seconds and nanoseconds. -/
structure DnsQR where
  type : DnsQRType
  queryIp : Bytes
  responseIp : Bytes
  proto : UInt32
  queryPort : UInt32
  responsePort : UInt32
  id : UInt32
  qname : Option Bytes
  qtype : Option UInt32
  qclass : Option UInt32
  rcode : Option UInt32
  queryPacket : List Bytes
  queryTimeSec : List Int
  queryTimeNsec : List Int
  responsePacket : List Bytes
  responseTimeSec : List Int
  responseTimeNsec : List Int
  tcp : Option Bytes
  icmp : Option Bytes
  timeout : Option Timespec
  udpChecksum : Option UdpChecksum
  resolverAddressZeroed : Option Bool
deriving DecidableEq, Repr

/-- `nmsg__base__dns_qr__init` -/
def DnsQR.init : DnsQR where
  type := .udpInvalid
  queryIp := []
  responseIp := []
  proto := 0
  queryPort := 0
  responsePort := 0
  id := 0
  qname := none
  qtype := none
  qclass := none
  rcode := none
  queryPacket := []
  queryTimeSec := []
  queryTimeNsec := []
  responsePacket := []
  responseTimeSec := []
  responseTimeNsec := []
  tcp := none
  icmp := none
  timeout := none
  udpChecksum := none
  resolverAddressZeroed := none

/-! ### Comparison -/

def dnsqrEq6 (d1 d2 : DnsQR) : Bool :=
  d1.id == d2.id && d1.queryPort == d2.queryPort && d1.responsePort == d2.responsePort &&
    d1.proto == d2.proto && d1.queryIp.length == d2.queryIp.length &&
    d1.responseIp.length == d2.responseIp.length &&
    (d1.queryIp == d2.queryIp && d1.responseIp == d2.responseIp)

/-- Called for records that both have a question; an absent type or class reads as zero. -/
def dnsqrEq9 (d1 d2 : DnsQR) : Bool :=
  d1.id == d2.id && d1.queryPort == d2.queryPort && d1.responsePort == d2.responsePort &&
    (d1.qname.getD []).length == (d2.qname.getD []).length &&
    d1.qtype.getD 0 == d2.qtype.getD 0 && d1.qclass.getD 0 == d2.qclass.getD 0 &&
    d1.proto == d2.proto && d1.queryIp.length == d2.queryIp.length &&
    d1.responseIp.length == d2.responseIp.length &&
    (d1.queryIp == d2.queryIp && d1.responseIp == d2.responseIp &&
      d1.qname.getD [] == d2.qname.getD [])

def rcodeFormerr : UInt16 := 1

def rcodeServfail : UInt16 := 2

def rcodeNotimp : UInt16 := 4

def rcodeRefused : UInt16 := 5

def dnsqrEq (d1 d2 : DnsQR) (rcode : UInt16) : Bool :=
  if d1.qname.isSome && d2.qname.isSome then dnsqrEq9 d1 d2
  else if rcode = rcodeFormerr ∨ rcode = rcodeServfail ∨ rcode = rcodeNotimp ∨
      rcode = rcodeRefused then
    dnsqrEq6 d1 d2
  else false

/-! ### Hashing -/

/-- `dnsqr_key_t` and `dnsqr_key6_t` -/
inductive DnsqrKey where
  | key (queryIp responseIp : Bytes) (proto queryPort responsePort id : UInt16)
  | key6 (queryIp6 responseIp6 : Bytes) (proto queryPort responsePort id : UInt16)
deriving DecidableEq, Repr

def dnsqrKey (d : DnsQR) : DnsqrKey :=
  if d.queryIp.length = 4 then
    .key (d.queryIp.take 4) (d.responseIp.take 4) d.proto.toUInt16 d.queryPort.toUInt16
      d.responsePort.toUInt16 d.id.toUInt16
  else
    .key6 (d.queryIp.take 16) (d.responseIp.take 16) d.proto.toUInt16 d.queryPort.toUInt16
      d.responsePort.toUInt16 d.id.toUInt16

/-- The addresses are those `dnsqr_hash` accepts, and the copies it makes stay inside them. -/
def DnsQR.Hashable (d : DnsQR) : Prop :=
  (d.queryIp.length = 4 ∨ d.queryIp.length = 16) ∧
    (d.responseIp.length = 4 ∨ d.responseIp.length = 16) ∧
    d.queryIp.length ≤ d.responseIp.length

instance (d : DnsQR) : Decidable d.Hashable :=
  inferInstanceAs (Decidable (_ ∧ _ ∧ _))

/-- `dnsqr_hash`, for the hash function `my_hashlittle` computes of a key. A hash value comes with
the proof that it could be computed. -/
def dnsqrHash (hash : DnsqrKey → UInt32) (d : DnsQR) :
    Except Abort { _h : UInt32 // d.Hashable } :=
  if hquery : d.queryIp.length = 4 ∨ d.queryIp.length = 16 then
    if hresponse : d.responseIp.length = 4 ∨ d.responseIp.length = 16 then
      -- with the longer query address, 16 octets are copied from a response address of 4
      if hcopy : d.queryIp.length ≤ d.responseIp.length then
        .ok ⟨hash (dnsqrKey d), hquery, hresponse, hcopy⟩
      else .error .outOfBounds
    else .error .assertion
  else .error .assertion

theorem dnsqrHash_of_hashable (hash : DnsqrKey → UInt32) {d : DnsQR} (h : d.Hashable) :
    dnsqrHash hash d = .ok ⟨hash (dnsqrKey d), h⟩ := by
  obtain ⟨hquery, hresponse, hcopy⟩ := h
  simp [dnsqrHash, hquery, hresponse, hcopy]

theorem dnsqrEq6_of_dnsqrEq9 {d1 d2 : DnsQR} (h : dnsqrEq9 d1 d2 = true) :
    dnsqrEq6 d1 d2 = true := by
  simp only [dnsqrEq9, dnsqrEq6, Bool.and_eq_true] at h ⊢
  tauto

theorem dnsqrEq6_of_dnsqrEq {d1 d2 : DnsQR} {rcode : UInt16} (h : dnsqrEq d1 d2 rcode = true) :
    dnsqrEq6 d1 d2 = true := by
  unfold dnsqrEq at h
  split at h
  · exact dnsqrEq6_of_dnsqrEq9 h
  · split at h
    · exact h
    · cases h

/-- Equal records have equal keys, whatever the response code. -/
theorem dnsqrKey_eq_of_dnsqrEq {d1 d2 : DnsQR} {rcode : UInt16}
    (h : dnsqrEq d1 d2 rcode = true) : dnsqrKey d1 = dnsqrKey d2 := by
  have h6 := dnsqrEq6_of_dnsqrEq h
  simp only [dnsqrEq6, Bool.and_eq_true, beq_iff_eq] at h6
  obtain ⟨⟨⟨⟨⟨⟨hid, hquery⟩, hresponse⟩, hproto⟩, -⟩, -⟩, hqip, hrip⟩ := h6
  simp only [dnsqrKey, hid, hquery, hresponse, hproto, hqip, hrip]

end Nmsg
