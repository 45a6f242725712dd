import Nmsg.Lib.Octets

/-!
# Results, aborts and constants

A C function that returns is modelled by a function that returns; one that can leave the defined
behaviour of the language, or stop on an assertion, returns in `Except Abort`.
-/

namespace Nmsg

/-- Ways a call can end other than by returning. -/
inductive Abort where
  | assertion
  | outOfBounds
  | nullPointer
  | divideByZero
  | signedOverflow
  | divergence
deriving DecidableEq, Repr

/-- `enum nmsg_res` -/
inductive Res where
  | success
  | failure
  | eof
  | memfail
  | magicMismatch
  | versionMismatch
  | pbufReady
  | notimpl
  | stop
  | again
  | parseError
  | pcapError
  | readFailure
  | containerFull
  | containerOverfull
  | errno
deriving DecidableEq, Repr

/-- `struct timespec` -/
structure Timespec where
  sec : Int
  nsec : Int
deriving DecidableEq, Repr

/-- `NMSG_MAGIC` -/
def magic : Bytes := [0x4e, 0x4d, 0x53, 0x47]

/-- `NMSG_VERSION` -/
def version : Nat := 2

/-- Octets of magic and version. -/
def hdrsz : Nat := 6

/-- Octets of magic, version and length. -/
def hdrlszV2 : Nat := 10

def lenhdrszV1 : Nat := 2

def lenhdrszV2 : Nat := 4

/-- Bound on the encoded size of a payload without its octets. -/
def payhdrsz : Nat := 64

def wbufszMin : Nat := 512

def wbufszMax : Nat := 1048576

def rbufsz : Nat := 2 * wbufszMax

/-- Largest size of an IP datagram. -/
def ipszMax : Nat := 65536

def flagZlib : UInt8 := 0x01

def flagFragment : UInt8 := 0x02

def seqsrcGcInterval : Nat := 120

def fragGcInterval : Nat := 30

def nsecPerSec : Int := 1000000000

end Nmsg
