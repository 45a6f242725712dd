import Nmsg.Container
import Nmsg.Lib.KeyTree

/-!
# Unpacking containers

A container that is read is unpacked from its octets, inflated first when it is compressed. One
that came in fragments is collected in a tree until the last of its fragments has arrived; a slot
holds the null pointer until its fragment arrives.
-/

namespace Nmsg

/-- `struct sockaddr_storage`, as the socket call leaves it. `rest` is the memory that belongs to
neither port nor address. -/
inductive SockaddrStorage where
  | inet (port : BitVec 16) (addr : BitVec 32) (rest : Bytes)
  | inet6 (port : BitVec 16) (addr : BitVec 128) (rest : Bytes)
  | other (family : UInt16) (rest : Bytes)
deriving DecidableEq

/-- `struct nmsg_frag_key` -/
structure FragKey where
  id : UInt32
  crc : UInt32
  addrSs : SockaddrStorage
deriving DecidableEq

/-- `struct nmsg_frag` -/
structure Frag where
  key : FragKey
  last : UInt32
  rem : UInt32
  ts : Timespec
  frags : List Bytes
deriving DecidableEq

/-- What one call finds around it: the memory behind the buffer, and which of its allocations
succeed. -/
structure CallEnv where
  past : Bytes
  uBufOk : Bool
  fentOk : Bool
  fragsOk : Bool
  payloadOk : Bool

/-- Every allocation of the call succeeds. -/
def CallEnv.Succeeds (env : CallEnv) : Prop :=
  env.uBufOk = true ∧ env.fentOk = true ∧ env.fragsOk = true ∧ env.payloadOk = true

/-- What is known of the container at hand: the flags of the stream, the time and the sender. -/
structure Arrival where
  flags : UInt8
  now : Timespec
  addrSs : SockaddrStorage
deriving DecidableEq

/-- The part of `nmsg_stream_input` that unpacking works on: the inflate stream and the tree of
fragments with the number of its nodes. -/
structure Decoder (z : Zlib) where
  zb : z.Stream
  nft : KeyTree Frag.key
  nfrags : UInt32

/-- A freshly opened input. -/
def Decoder.open (z : Zlib) : Decoder z where
  zb := z.inflateInit
  nft := KeyTree.empty
  nfrags := 0

section Unpack

variable (pb : ProtobufC) {z : Zlib} (env : CallEnv) (arrival : Arrival)

/-- The copying loop of `reassemble_frags`. -/
def collectFrags : List Bytes → Except Abort Bytes
  | [] => .ok []
  | data :: rest =>
      if data = [] then .error .assertion
      else (collectFrags rest).map (data ++ ·)

/-- `reassemble_frags`. Whether unpacking succeeded is not looked at: the pointer that is compared
with `NULL` is the address of the result. -/
def reassembleFrags (d : Decoder z) (fent : Frag) :
    Except Abort (Res × Option ProtoNmsg × Decoder z) :=
  if fent.frags.length ≤ fent.last.toNat then .error .outOfBounds
  else
    match collectFrags fent.frags with
    | .error e => .error e
    | .ok payload =>
        if env.payloadOk = false then .ok (.memfail, none, d)
        else
          let removed := { d with nft := d.nft.erase fent.key, nfrags := d.nfrags - 1 }
          if arrival.flags &&& flagZlib ≠ 0 then
            match nmsgZbufInflate z d.zb payload env.past env.uBufOk with
            | (.success, uBuf, zb) => .ok (.success, pb.unpackNmsg uBuf, { removed with zb := zb })
            | (res, _, zb) => .ok (res, none, { removed with zb := zb })
          else .ok (.success, pb.unpackNmsg payload, removed)

/-- The second half of `_input_frag_read`: the fragment is attached to its node. -/
def attachFrag (d : Decoder z) (fent : Frag) (nfrag : NmsgFragment) :
    Except Abort (Res × Option ProtoNmsg × Decoder z) :=
  match fent.frags[nfrag.current.toNat]? with
  | none => .error .outOfBounds
  | some data =>
      if data ≠ [] then .ok (.again, none, d)
      else
        let fent := { fent with
          frags := fent.frags.set nfrag.current.toNat nfrag.fragment
          rem := fent.rem - 1 }
        let d := { d with nft := d.nft.put fent }
        if fent.rem = 0 then reassembleFrags pb env arrival d fent
        else .ok (.again, none, d)

/-- The key of the node a fragment belongs to. -/
def fragKey (nfrag : NmsgFragment) : FragKey := ⟨nfrag.id, nfrag.crc.getD 0, arrival.addrSs⟩

/-- A new node for a fragment. `last + 1` is computed in 32 bits. -/
def newFrag (nfrag : NmsgFragment) : Frag where
  key := fragKey arrival nfrag
  last := nfrag.last
  rem := nfrag.last + 1
  ts := arrival.now
  frags := List.replicate (nfrag.last + 1).toNat []

/-- `_input_frag_read` -/
def inputFragRead (d : Decoder z) (buf : Bytes) :
    Except Abort (Res × Option ProtoNmsg × Decoder z) :=
  match pb.unpackFragment buf with
  | none => .ok (.parseError, none, d)
  | some nfrag =>
      match d.nft.find (fragKey arrival nfrag) with
      | none =>
          if env.fentOk = false then .ok (.memfail, none, d)
          else if env.fragsOk = false then .ok (.memfail, none, d)
          else
            let fent := newFrag arrival nfrag
            attachFrag pb env arrival
              { d with nft := d.nft.put fent, nfrags := d.nfrags + 1 } fent nfrag
      | some fent =>
          if fent.last ≠ nfrag.last then .error .assertion
          else attachFrag pb env arrival d fent nfrag

/-- `_input_nmsg_unpack_container` -/
def inputNmsgUnpackContainer (d : Decoder z) (buf : Bytes) :
    Except Abort (Res × Option ProtoNmsg × Decoder z) :=
  if arrival.flags &&& flagFragment ≠ 0 then inputFragRead pb env arrival d buf
  else if arrival.flags &&& flagZlib ≠ 0 then
    match nmsgZbufInflate z d.zb buf env.past env.uBufOk with
    | (.success, uBuf, zb) =>
        match pb.unpackNmsg uBuf with
        | none => .ok (.parseError, none, { d with zb := zb })
        | some nmsg => .ok (.success, some nmsg, { d with zb := zb })
    | (res, _, zb) => .ok (res, none, { d with zb := zb })
  else
    match pb.unpackNmsg buf with
    | none => .ok (.parseError, none, d)
    | some nmsg => .ok (.success, some nmsg, d)

/-- `_input_frag_gc`: nodes that are old are dropped, at most every 30 seconds. -/
def inputFragGc (now lastgc : Timespec) (d : Decoder z) : Timespec × Decoder z :=
  if ¬ (d.nfrags > 0 ∧ now.sec - lastgc.sec ≥ fragGcInterval) then (lastgc, d)
  else
    let nft := d.nft.keep fun fent => ¬ now.sec - fent.ts.sec ≥ fragGcInterval
    (now, { d with
      nft := nft
      nfrags := d.nfrags - .ofNat (d.nft.size - nft.size) })

end Unpack

end Nmsg
