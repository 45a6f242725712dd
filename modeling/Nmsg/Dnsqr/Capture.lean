import Nmsg.Dnsqr.Packet

/-!
# The capture loop

Each call takes at most one expired query out of the table, reads at most one packet, and returns
at most one message. At the end of the capture the module stops reading, and the calls that follow
empty the table.
-/

namespace Nmsg

/-- What the module uses of its surroundings: the byte order, the hash function on records and on
names, the DNS library, and the data link type and the filter of the capture. -/
structure DnsqrEnv where
  host : ByteOrder
  hash : DnsqrKey → UInt32
  hashName : Bytes → UInt32
  wdns : Wdns
  datalink : Datalink
  /-- `nmsg_pcap_filter` -/
  filter : Bytes → Bool

/-- `dnsqr_ctx_t`. The settings `capture_qr` and `capture_rd` are absent where the source has -1. -/
structure DnsqrCtx where
  state : DnsqrTable
  reasm : ReasmIp BaseFrag
  captureQr : Option Bool
  captureRd : Option Bool
  zeroResolverAddress : Bool
  filterQnamesExclude : Option NameTable
  filterQnamesInclude : Option NameTable

/-- A frame of the capture: the octets captured, the octets there were, and the time. -/
structure PcapFrame where
  data : Bytes
  len : Nat
  ts : Timespec
deriving DecidableEq, Repr

/-- What `nmsg_pcap_input_read_raw` can give. -/
inductive PcapRead where
  | frame (f : PcapFrame)
  | again
  | pcapError
  | eof
deriving DecidableEq, Repr

section Calls

variable (env : DnsqrEnv)

/-- `do_filter` -/
def doFilter (ctx : DnsqrCtx) (dnsqr : DnsQR) : Except Abort Bool := do
  if ← doFilterQueryRd env.host ctx.captureRd dnsqr then return true
  else
    doFilterQueryName env.hashName env.wdns ctx.filterQnamesInclude ctx.filterQnamesExclude dnsqr

/-- A datagram ready to be made a record of: its octets, where its parts are in them, and the entry
of its fragments when it was put together. -/
structure Datagram where
  pkt : Bytes
  dg : Ipdg
  entry : Option (ReasmIpEntry BaseFrag)

/-- The first half of `do_packet`: the frame is parsed, and a fragment is put with the others of
its datagram until that is complete. -/
def doPacketDatagram (ctx : DnsqrCtx) (f : PcapFrame) :
    Except Abort (Option Datagram × DnsqrCtx) := do
  -- only operate on complete packets
  if f.data.length ≠ f.len then return (none, ctx)
  else
    match ← nmsgIpdgParsePcapRaw env.host env.datalink f.data f.data.length with
    | none => return (none, ctx)
    | some dg =>
        let ctx := { ctx with state := { ctx.state with now := f.ts } }
        let ((isFrag, entry), reasm) ←
          reasmIpNext ctx.reasm (f.data.drop dg.network) dg.lenNetwork f.ts
        let ctx := { ctx with reasm := reasm }
        match isFrag, entry with
        | false, _ => return (some { pkt := f.data, dg := dg, entry := none }, ctx)
        | true, none => return (none, ctx)
        | true, some entry =>
            let newPkt ← reasmAssemble entry ipszMax
            match ← nmsgIpdgParsePcapRaw env.host .raw newPkt newPkt.length with
            | none => return (none, ctx)
            | some dg =>
                let network ← copyAt newPkt dg.network dg.lenNetwork
                if env.filter network then
                  return (some { pkt := newPkt, dg := dg, entry := some entry }, ctx)
                else return (none, ctx)

/-- The record of a datagram and its flags. -/
def doPacketRecord (d : Datagram) : Except Abort (Option (DnsQR × Nat)) :=
  if d.dg.transport = none then .ok none
  else
    let dnsqr := { DnsQR.init with proto := d.dg.protoTransport.toUInt32 }
    match d.dg.protoNetwork with
    | .inet => doPacketV4 env.wdns env.host d.pkt d.dg dnsqr
    | .inet6 => do
        -- refilter, since the filter of the capture accepts all IPv6 packets
        let network ← copyAt d.pkt d.dg.network d.dg.lenNetwork
        if env.filter network then doPacketV6 env.wdns env.host d.pkt d.dg dnsqr
        else return none

/-- The packets of a datagram are added to a record: its fragments, or the whole. -/
def appendDatagram (append : DnsQR → Bytes → Timespec → DnsQR) (dnsqr : DnsQR) (d : Datagram)
    (ts : Timespec) : Except Abort DnsQR :=
  match d.entry with
  | some entry => dnsqrAppendFrag append dnsqr entry.frags
  | none => do
      let network ← copyAt d.pkt d.dg.network d.dg.lenNetwork
      return append dnsqr network ts

/-- A UDP record with `capture_qr` set: queries or responses become messages by themselves. -/
def captureOneWay (ctx : DnsqrCtx) (responses : Bool) (dnsqr : DnsQR) (flags : Nat) (d : Datagram)
    (ts : Timespec) : Except Abort (Option DnsqrMessage) :=
  if responses = false ∧ dnsFlagQr flags = false then do
    let network ← copyAt d.pkt d.dg.network d.dg.lenNetwork
    let dnsqr := dnsqrAppendQueryPacket { dnsqr with type := .udpQueryOnly } network ts
    let m ← dnsqrToMessage env.host ctx.zeroResolverAddress dnsqr
    return some m
  else if responses = true ∧ dnsFlagQr flags = true then do
    let dnsqr := { dnsqr with
      type := .udpResponseOnly
      rcode := some (UInt32.ofNat (dnsFlagRcode flags)) }
    let dnsqr ← appendDatagram dnsqrAppendResponsePacket dnsqr d ts
    let m ← dnsqrToMessage env.host ctx.zeroResolverAddress dnsqr
    return some m
  else .ok none

/-- A query waits in the table for its response. -/
def captureQuery (ctx : DnsqrCtx) (dnsqr : DnsQR) (d : Datagram) (ts : Timespec) :
    Except Abort DnsqrCtx := do
  let dnsqr ← appendDatagram dnsqrAppendQueryPacket { dnsqr with type := .udpUnansweredQuery } d ts
  let state ← dnsqrInsertQuery env.hash ctx.state dnsqr
  return { ctx with state := state }

/-- A response takes its query out of the table. -/
def captureResponse (ctx : DnsqrCtx) (dnsqr : DnsQR) (flags : Nat) (d : Datagram) (ts : Timespec) :
    Except Abort (Option DnsqrMessage × DnsqrCtx) := do
  let dnsqr := { dnsqr with rcode := some (UInt32.ofNat (dnsFlagRcode flags)) }
  let dnsqr ← appendDatagram dnsqrAppendResponsePacket dnsqr d ts
  let (query, state) ←
    dnsqrRetrieve env.hash ctx.state dnsqr (UInt16.ofNat (dnsFlagRcode flags))
  let ctx := { ctx with state := state }
  match query with
  | none =>
      if doFilterRd ctx.captureRd flags then return (none, ctx)
      else
        let m ← dnsqrToMessage env.host ctx.zeroResolverAddress
          { dnsqr with type := .udpUnsolicitedResponse }
        return (some m, ctx)
  | some query =>
      let dnsqr ← dnsqrMerge query { dnsqr with type := .udpQueryResponse }
      if ← doFilter env ctx dnsqr then return (none, ctx)
      else
        let m ← dnsqrToMessage env.host ctx.zeroResolverAddress dnsqr
        return (some m, ctx)

/-- The second half of `do_packet`: what becomes of a record. -/
def doPacketCapture (ctx : DnsqrCtx) (d : Datagram) (dnsqr : DnsQR) (flags : Nat)
    (ts : Timespec) : Except Abort (Option DnsqrMessage × DnsqrCtx) :=
  if d.dg.protoTransport = ipprotoUdp then
    match ctx.captureQr with
    | some responses => do
        let m ← captureOneWay env ctx responses dnsqr flags d ts
        return (m, ctx)
    | none =>
        if dnsFlagQr flags = false then do
          let ctx ← captureQuery env ctx dnsqr d ts
          return (none, ctx)
        else captureResponse env ctx dnsqr flags d ts
  else do
    let m ← dnsqrToMessage env.host ctx.zeroResolverAddress dnsqr
    return (some { m with time := some ts }, ctx)

/-- `do_packet`: the message, when there is one. -/
def doPacket (ctx : DnsqrCtx) (f : PcapFrame) : Except Abort (Option DnsqrMessage × DnsqrCtx) := do
  let (d, ctx) ← doPacketDatagram env ctx f
  match d with
  | none => return (none, ctx)
  | some d =>
      match ← doPacketRecord env d with
      | none => return (none, ctx)
      | some (dnsqr, flags) => doPacketCapture env ctx d dnsqr flags f.ts

/-- How a call begins: with a message or the end of the run, or by going on to read. -/
inductive Begin where
  | message (m : DnsqrMessage)
  | eof
  | read
deriving DecidableEq, Repr

/-- The first part of `dnsqr_pkt_to_payload`, in front of the read. -/
def dnsqrExpire (ctx : DnsqrCtx) : Except Abort (Begin × DnsqrCtx) := do
  let (dnsqr, state) ← dnsqrTrim env.hash ctx.state
  let ctx := { ctx with state := state }
  match dnsqr with
  | some dnsqr =>
      if ← doFilter env ctx dnsqr then return (.read, ctx)
      else
        let m ← dnsqrToMessage env.host ctx.zeroResolverAddress dnsqr
        return (.message m, ctx)
  | none => return (if ctx.state.stop then .eof else .read, ctx)

/-- The result of a call, with the message when there is one. -/
def messageResult : Option DnsqrMessage → Res × Option DnsqrMessage
  | none => (.again, none)
  | some m => (.success, some m)

/-- `dnsqr_pkt_to_payload`, on a capture with the reads `reads` ahead. A capture with none ahead
is at its end. -/
def dnsqrPktToPayload (ctx : DnsqrCtx) (reads : List PcapRead) :
    Except Abort ((Res × Option DnsqrMessage) × DnsqrCtx × List PcapRead) := do
  match ← dnsqrExpire env ctx with
  | (.message m, ctx) => return ((.success, some m), ctx, reads)
  | (.eof, ctx) => return ((.eof, none), ctx, reads)
  | (.read, ctx) =>
      match reads.headD .eof with
      | .frame f =>
          let (m, ctx) ← doPacket env ctx f
          return (messageResult m, ctx, reads.tail)
      | .again => return ((.again, none), ctx, reads.tail)
      | .pcapError => return ((.pcapError, none), ctx, reads.tail)
      | .eof =>
          return ((.again, none), { ctx with state := { ctx.state with stop := true } }, reads.tail)

/-- A call as a step of the module on a capture. -/
def captureStep (s : DnsqrCtx × List PcapRead) (_ : Unit) :
    Except Abort ((Res × Option DnsqrMessage) × DnsqrCtx × List PcapRead) :=
  dnsqrPktToPayload env s.1 s.2

end Calls

/-- `dnsqr_init`, with the settings taken from the environment and the table of `max_values`
queries. No timeout is set for the reassembly. -/
def dnsqrInit (maxValues queryTimeout : Nat) (captureQr captureRd : Option Bool)
    (zeroResolverAddress : Bool) (filterQnamesExclude filterQnamesInclude : Option NameTable) :
    DnsqrCtx where
  state := DnsqrTable.empty (2 * maxValues) maxValues queryTimeout
  reasm := reasmIpNew
  captureQr := captureQr
  captureRd := captureRd
  zeroResolverAddress := zeroResolverAddress
  filterQnamesExclude := filterQnamesExclude
  filterQnamesInclude := filterQnamesInclude

end Nmsg
