import Nmsg.Dnsqr.Message
import Nmsg.Dnsqr.Response
import Nmsg.Lib.StepRun

/-!
# The getters of a message

What a received message does not hold is computed when it is asked for: the delay, the verdict on
the checksum, and the payloads of the query and of the response. What is allocated for an answer
belongs to the message and is freed with it.
-/

namespace Nmsg

/-- A message as it was decoded. A field of an enumerated type may hold any number, so `type` and
`udp_checksum` are numbers here; those of `fields` are not looked at. -/
structure DecodedDnsqr where
  type : Int
  udpChecksum : Option Int
  fields : DnsQR
deriving DecidableEq, Repr

/-- What can go wrong with a message. -/
inductive GetterFault where
  | abort (e : Abort)
  | doubleFree
deriving DecidableEq, Repr

/-! ### What a message owns -/

/-- A message with the objects in `allocs`, which are numbered in order of allocation. -/
structure DnsqrObject where
  payload : DecodedDnsqr
  allocs : List Nat
  fresh : Nat
  freed : List Nat
deriving DecidableEq, Repr

def DnsqrObject.received (payload : DecodedDnsqr) : DnsqrObject := ⟨payload, [], 0, []⟩

/-- `malloc` -/
def DnsqrObject.malloc (msg : DnsqrObject) : Nat × DnsqrObject :=
  (msg.fresh, { msg with fresh := msg.fresh + 1 })

/-- `free` -/
def DnsqrObject.free (msg : DnsqrObject) (ptr : Nat) : Except GetterFault DnsqrObject :=
  if ptr ∈ msg.freed then .error .doubleFree else .ok { msg with freed := ptr :: msg.freed }

/-- `nmsg_message_add_allocation`; `room` says whether the array can grow. -/
def DnsqrObject.addAllocation (msg : DnsqrObject) (ptr : Nat) (room : Bool) : Res × DnsqrObject :=
  if room then (.success, { msg with allocs := msg.allocs ++ [ptr] }) else (.memfail, msg)

/-- The loop of `nmsg_message_free_allocations`, which `nmsg_message_destroy` calls. -/
def DnsqrObject.freeAllocations (msg : DnsqrObject) : List Nat → Except GetterFault DnsqrObject
  | [] => .ok { msg with allocs := [] }
  | ptr :: ptrs => do
      let msg ← msg.free ptr
      msg.freeAllocations ptrs

/-- A fault of what a getter calls. -/
def orAbort {α : Type} (x : Except Abort α) : Except GetterFault α := x.mapError .abort

/-! ### Delay -/

/-- Element `i` of two repeated fields. -/
def timeAt (secs nsecs : List Int) (i : Nat) : Except Abort Timespec :=
  match secs[i]?, nsecs[i]? with
  | some sec, some nsec => .ok ⟨sec, nsec⟩
  | _, _ => .error .outOfBounds

/-- `ts_delay` of one response packet, in nanoseconds; the source goes on with a `double`. -/
def delayAt (dnsqr : DnsQR) (i : Nat) : Except Abort Int := do
  let response ← timeAt dnsqr.responseTimeSec dnsqr.responseTimeNsec i
  let query ← timeAt dnsqr.queryTimeSec dnsqr.queryTimeNsec 0
  let sec := response.sec - query.sec
  let nsec := response.nsec - query.nsec
  if nsec < 0 then return (sec - 1) * 1000000000 + (nsec + 1000000000)
  else return sec * 1000000000 + nsec

/-- The loop over the response packets from `i` on, `left` of them. -/
def maxDelay (dnsqr : DnsQR) : Nat → Nat → Int → Except Abort Int
  | 0, _, longest => .ok longest
  | left + 1, i, longest => do
      let delay ← delayAt dnsqr i
      maxDelay dnsqr left (i + 1) (if delay > longest then delay else longest)

/-- `NMSG__BASE__DNS_QRTYPE__UDP_QUERY_RESPONSE` -/
def udpQueryResponse : Int := 1

/-- `dnsqr_get_delay`, as far as it is a computation. -/
def dnsqrGetDelay (payload : DecodedDnsqr) (valIdx : Nat) : Except Abort (Option Int) :=
  let dnsqr := payload.fields
  let n := dnsqr.responseTimeSec.length
  if valIdx ≠ 0 ∨ payload.type ≠ udpQueryResponse then .ok none
  else if dnsqr.queryTimeSec.length ≠ dnsqr.queryTimeNsec.length ∨
      dnsqr.queryTimeSec.length ≠ 1 then .ok none
  else if n ≠ dnsqr.responseTimeNsec.length ∨ n < 1 then .ok none
  else if n = 1 then some <$> delayAt dnsqr 0
  else some <$> maxDelay dnsqr n 0 0

/-! ### The verdict on the checksum -/

/-- The numbers of `NMSG__BASE__UDP_CHECKSUM` -/
def UdpChecksum.number : UdpChecksum → Int
  | .error => 0
  | .absent => 1
  | .incorrect => 2
  | .correct => 3

section Getters

variable (host : ByteOrder)

/-- `dnsqr_get_udp_checksum` -/
def dnsqrGetUdpChecksum (payload : DecodedDnsqr) (valIdx : Nat) : Except Abort (Option Int) :=
  if valIdx ≠ 0 ∨ payload.fields.responsePacket = [] then .ok none
  else
    match payload.udpChecksum with
    | some number => .ok (some number)
    | none => (fun sum => some sum.number) <$> dnsqrChecksumVerify host payload.fields

/-! ### Payloads -/

/-- A packet is parsed as its message says by the length of an address. -/
def packetPayload (ip pkt : Bytes) : Except Abort (Res × Option Bytes) :=
  if ip.length = 4 then ipdgPayload host ethertypeIp pkt
  else if ip.length = 16 then ipdgPayload host ethertypeIpv6 pkt
  else .ok (.failure, none)

/-- `dnsqr_get_query` -/
def dnsqrGetQuery (payload : DecodedDnsqr) (valIdx : Nat) : Except Abort (Res × Option Bytes) :=
  if valIdx ≠ 0 then .ok (.failure, none)
  else
    match payload.fields.queryPacket with
    | [pkt] => packetPayload host payload.fields.queryIp pkt
    | _ => .ok (.failure, none)

/-- The packet a fragment was cut from is one of IPv6. -/
def BaseFrag.isIpv6 (frag : BaseFrag) : Bool := frag.data.head?.any fun first => ipV first = 6

/-- `reasm_assemble`, which takes `last_nxt` from the first fragment when the last packet was one of
IPv6. Of a fragment of IPv4 it was never written. -/
def assembleResponse (entry : ReasmIpEntry BaseFrag) : Except Abort Bytes := do
  let pkt ← reasmAssemble entry ipszMax
  match entry.id, entry.frags with
  | .ipv6 .., first :: _ =>
      if pkt ≠ [] ∧ first.isIpv6 = false then .error .outOfBounds else return pkt
  | _, _ => return pkt

/-- The part of `dnsqr_get_response` behind a complete datagram. -/
def DnsqrObject.assembled (msg : DnsqrObject) (entry : ReasmIpEntry BaseFrag) (room : Bool) :
    Except GetterFault ((Res × Option Bytes) × DnsqrObject) := do
  let (ptr, msg) := msg.malloc
  let (res, msg) := msg.addAllocation ptr room
  if res ≠ .success then
    let msg ← msg.free ptr
    return ((.memfail, none), msg)
  else
    let pkt ← orAbort (assembleResponse entry)
    if pkt = [] then
      let msg ← msg.free ptr
      return ((.failure, none), msg)
    else
      let answer ← orAbort (ipdgPayload host entry.id.protoNetwork.etype pkt)
      return (answer, msg)

/-- `dnsqr_get_response` -/
def DnsqrObject.getResponse (msg : DnsqrObject) (valIdx : Nat) (room : Bool) :
    Except GetterFault ((Res × Option Bytes) × DnsqrObject) :=
  let dnsqr := msg.payload.fields
  if valIdx ≠ 0 ∨ dnsqr.responseIp = [] then .ok ((.failure, none), msg)
  else
    match dnsqr.responsePacket with
    | [] => .ok ((.failure, none), msg)
    | [pkt] => (fun answer => (answer, msg)) <$> orAbort (packetPayload host dnsqr.responseIp pkt)
    | _ => do
        match ← orAbort (rereadFragments (.init (.ipv4 [] [] 0 0) 0 0) dnsqr.responsePacket
            dnsqr.responseTimeSec dnsqr.responseTimeNsec) with
        | none => return ((.memfail, none), msg)
        | some entry =>
            if reasmIsComplete entry then msg.assembled host entry room
            else return ((.failure, none), msg)

/-! ### Calls -/

inductive GetterField where
  | delay
  | udpChecksum
  | query
  | response
deriving DecidableEq, Repr

/-- A call of the getter of a field, with whether there is memory for what the message owns. -/
structure GetterCall where
  field : GetterField
  valIdx : Nat
  room : Bool
deriving DecidableEq, Repr

inductive GetterData where
  | delay (ns : Int)
  | udpChecksum (number : Int)
  | octets (b : Bytes)
deriving DecidableEq, Repr

/-- The rest of `dnsqr_get_delay`: the delay is an object of the message. -/
def DnsqrObject.getDelay (msg : DnsqrObject) (valIdx : Nat) (room : Bool) :
    Except GetterFault ((Res × Option GetterData) × DnsqrObject) := do
  match ← orAbort (dnsqrGetDelay msg.payload valIdx) with
  | none => return ((.failure, none), msg)
  | some delay =>
      let (ptr, msg) := msg.malloc
      let (res, msg) := msg.addAllocation ptr room
      return ((res, some (.delay delay)), msg)

/-- A number is there or the getter fails. -/
def numberAnswer : Option Int → Res × Option GetterData
  | none => (.failure, none)
  | some number => (.success, some (.udpChecksum number))

def octetsAnswer (answer : Res × Option Bytes) : Res × Option GetterData :=
  (answer.1, answer.2.map .octets)

/-- One call. -/
def dnsqrGet (msg : DnsqrObject) (call : GetterCall) :
    Except GetterFault ((Res × Option GetterData) × DnsqrObject) :=
  match call.field with
  | .delay => msg.getDelay call.valIdx call.room
  | .udpChecksum =>
      (fun number => (numberAnswer number, msg)) <$>
        orAbort (dnsqrGetUdpChecksum host msg.payload call.valIdx)
  | .query =>
      (fun answer => (octetsAnswer answer, msg)) <$>
        orAbort (dnsqrGetQuery host msg.payload call.valIdx)
  | .response =>
      (fun out => (octetsAnswer out.1, out.2)) <$> msg.getResponse host call.valIdx call.room

/-- A message is received, its getters are called, and it is destroyed. -/
def dnsqrLife (payload : DecodedDnsqr) (calls : List GetterCall) :
    Except GetterFault DnsqrObject := do
  let (_, msg) ← StepRun.run (dnsqrGet host) (.received payload) calls
  msg.freeAllocations msg.allocs

end Getters

end Nmsg
