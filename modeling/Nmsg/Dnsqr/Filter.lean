import Nmsg.Ipdg
import Nmsg.Dnsqr.Table

/-!
# Which exchanges are captured

An exchange is dropped by the recursion-desired bit of its query, or by the name it asks for. The
names to include and to exclude are kept in tables with linear probing that always have a free
slot.
-/

namespace Nmsg

/-- The functions of the DNS library that the module calls, with what it relies on. -/
structure Wdns where
  /-- octets of the name that starts a buffer -/
  skipName : Bytes → Nat
  downcase : Bytes → Bytes
  /-- a name without its first label -/
  leftChop : Bytes → Option Bytes
  leftChop_lt : ∀ name name', name.length ≠ 1 → leftChop name = some name' →
    name'.length < name.length

/-- A table of names, `filter_qnames_include` or `filter_qnames_exclude`. -/
structure NameTable where
  numSlots : Nat
  slot : Nat → Option Bytes
  room : ∃ s < numSlots, slot s = none

section Names

variable (hashName : Bytes → UInt32)

/-- `dnsqr_filter_lookup` -/
def dnsqrFilterLookup (table : NameTable) (name : Bytes) : Except Abort Bool :=
  let slot := (hashName name).toNat % table.numSlots
  match LinearProbe.probe table.numSlots
      (fun s => (table.slot s).isNone || decide (table.slot s = some name))
      (LinearProbe.before table.numSlots slot) table.numSlots slot with
  | none => .error .assertion
  | some s => .ok (table.slot s).isSome

/-- A name or one of its suffixes is in the table. -/
def suffixListed (wdns : Wdns) (table : NameTable) : Nat → Bytes → Except Abort Bool
  | 0, _ => .error .divergence
  | fuel + 1, name => do
      if ← dnsqrFilterLookup hashName table name then return true
      else if name.length = 1 then return false
      else
        match wdns.leftChop name with
        | none => return false
        | some name => suffixListed wdns table fuel name

/-- The same of a table that may not be configured. -/
def listedIn (wdns : Wdns) : Option NameTable → Bytes → Except Abort Bool
  | none, _ => .ok false
  | some table, name => suffixListed hashName wdns table (name.length + 1) name

/-- `do_filter_query_name`: whether the exchange is dropped. -/
def doFilterQueryName (wdns : Wdns) (qnamesInclude qnamesExclude : Option NameTable)
    (dnsqr : DnsQR) : Except Abort Bool :=
  match dnsqr.qname with
  | none => .ok false
  | some qname => do
      let included ← listedIn hashName wdns qnamesInclude (wdns.downcase qname)
      if included then return false
      else listedIn hashName wdns qnamesExclude (wdns.downcase qname)

end Names

/-! ### The recursion-desired bit -/

/-- `DNS_FLAG_QR` -/
def dnsFlagQr (flags : Nat) : Bool := flags / 32768 % 2 = 1

/-- `DNS_FLAG_RD` -/
def dnsFlagRd (flags : Nat) : Bool := flags / 256 % 2 = 1

/-- `DNS_FLAG_RCODE` -/
def dnsFlagRcode (flags : Nat) : Nat := flags % 16

/-- A query packet is parsed as a packet of the record's IP version. -/
def parseQueryPacket (host : ByteOrder) (dnsqr : DnsQR) (pkt : Bytes) :
    Except Abort (Option Ipdg) :=
  if dnsqr.queryIp.length = 4 then nmsgIpdgParse host ethertypeIp pkt.length pkt
  else if dnsqr.queryIp.length = 16 then nmsgIpdgParse host ethertypeIpv6 pkt.length pkt
  else .ok none

/-- `get_query_flags` -/
def getQueryFlags (host : ByteOrder) (dnsqr : DnsQR) : Except Abort (Option Nat) :=
  match dnsqr.queryPacket with
  | [] => .ok none
  | pkt :: _ => do
      match ← parseQueryPacket host dnsqr pkt with
      | none => return none
      | some dg =>
          if dg.lenPayload ≥ 12 then
            let flags ← loadNet16 pkt (dg.payload + 2)
            return some flags
          else return none

/-- `do_filter_query_rd`; no `capture_rd` stands for -1. -/
def doFilterQueryRd (host : ByteOrder) (captureRd : Option Bool) (dnsqr : DnsQR) :
    Except Abort Bool :=
  match captureRd with
  | none => .ok false
  | some rd => do
      match ← getQueryFlags host dnsqr with
      | none => return false
      | some qflags => return dnsFlagRd qflags != rd

/-- `do_filter_rd` -/
def doFilterRd (captureRd : Option Bool) (flags : Nat) : Bool :=
  match captureRd with
  | none => false
  | some rd => dnsFlagRd flags != rd

end Nmsg
