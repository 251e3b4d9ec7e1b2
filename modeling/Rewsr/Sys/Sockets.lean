import Rewsr.Sys.Handles

/-!
# The calls around a socket

The system calls of the code that opens a socket for one piece of work: the link dump, the ethtool
queries and the UDP benchmark. A thread that is given a descriptor has it until it is joined, and it
is joined only after its stop flag is set: it would not end before.
-/

namespace Rewsr.Sys

open Resource

inductive SockReq where
  | socket
  | bind (fd : Int)
  | getsockname (fd : Int)
  | setsockopt (fd : Int)
  | ioctl (fd : Int) (arg : List UInt8)
  | send (fd : Int) (msg : List UInt8)
  | recv (fd : Int) (cap : Nat)
  | close (fd : Int)
  | alloc (size : Nat)
  | sendBlock (fd : Int) (addr : Addr)
  | store (addr : Addr) (i n : Nat)
  | free (addr : Addr)
  | pthreadCreate (fd : Int)
  | setStop (thread : Nat) (fd : Int)
  | pthreadJoin (thread : Nat) (fd : Int)

/-- What a call answers. A `recv` gives at most as many bytes as there is room for; an `ioctl`
writes to the struct it is given. -/
abbrev SockReq.Ans : SockReq → Type
  | .socket | .pthreadCreate _ => Except Int Nat
  | .bind _ | .getsockname _ | .setsockopt _ | .send .. | .sendBlock .. => Except Int Unit
  | .ioctl _ arg => Except Int { out : List UInt8 // out.length = arg.length }
  | .recv _ cap => Except Int { bytes : List UInt8 // bytes.length ≤ cap }
  | .alloc _ => Option Addr
  | .close _ | .store .. | .free _ | .setStop .. | .pthreadJoin .. => Unit

/-- A store is to one of the `n` elements there are. -/
def SockReq.legal : SockReq → Prop
  | .store _ i n => i < n
  | _ => True

def SockReq.needs : SockReq → Multiset Handle
  | .socket | .alloc _ => 0
  | .bind fd | .getsockname fd | .setsockopt fd | .ioctl fd _ | .send fd _ | .recv fd _
  | .close fd | .pthreadCreate fd => {.fd fd}
  | .sendBlock fd addr => {.fd fd} + {.block addr}
  | .store addr .. | .free addr => {.block addr}
  | .setStop thread fd => {.thread thread fd false}
  | .pthreadJoin thread fd => {.thread thread fd true}

def SockReq.leaves : (r : SockReq) → r.Ans → Multiset Handle
  | .socket, .ok fd => {.fd fd}
  | .socket, .error _ => 0
  | .bind fd, _ | .getsockname fd, _ | .setsockopt fd, _ | .ioctl fd _, _ | .send fd _, _
  | .recv fd _, _ => {.fd fd}
  | .close _, _ | .free _, _ => 0
  | .alloc _, some addr => {.block addr}
  | .alloc _, none => 0
  | .sendBlock fd addr, _ => {.fd fd} + {.block addr}
  | .store addr .., _ => {.block addr}
  | .pthreadCreate fd, .ok thread => {.thread thread fd false}
  | .pthreadCreate fd, .error _ => {.fd fd}
  | .setStop thread fd, _ => {.thread thread fd true}
  | .pthreadJoin _ fd, _ => {.fd fd}

@[reducible] def sockSys : Iface where
  Req := SockReq
  Ans := SockReq.Ans
  Res := Handle
  legal := SockReq.legal
  needs := SockReq.needs
  leaves := SockReq.leaves

abbrev sockcall (r : SockReq) : Proc sockSys r.Ans := @Proc.ask sockSys r

/-- A call that gives back what it takes. -/
theorem sockcall_keeps {α : Type} {r : SockReq} {k : r.Ans → Proc sockSys α}
    {Q : α → Multiset Handle → Prop} {H : Multiset Handle} (F : Multiset Handle)
    (hlegal : r.legal) (hneeds : H = r.needs + F) (hkeeps : ∀ a, r.leaves a = r.needs)
    (h : ∀ a, Spec Q (k a) H) : Spec Q (sockcall r >>= k) H :=
  Spec.ask F hlegal hneeds fun a => (h a).of_eq (by rw [hneeds, ← hkeeps a])

end Rewsr.Sys
