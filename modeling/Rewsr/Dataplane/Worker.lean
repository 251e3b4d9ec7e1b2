import Rewsr.Net.Packet

/-!
# Frame classification of the data-plane worker (`dataplane/worker.c`)
-/

namespace Rewsr.Dataplane

open Rewsr.Net

/-- `rewsr_dp_classify`: `none` is a return of 0, and `some p` a return of 1 with `*out_payload`
set to `p`. -/
def dpClassify (e : Endian) (frame : List UInt8) : Option (Option UInt32) :=
  (parseUdpIpv4 e frame).bind fun
  | .error _ => some none
  | .ok dg =>
    if dg.payloadLen < 8 then some none else
    (verifyUdpChecksum e frame).bind fun ok =>
    if ok = 0 then some none else some (some (UInt32.ofNat dg.payloadLen))

end Rewsr.Dataplane
