import CandCpp.Foundation.Buffer

/-!
# What the socket calls of the servers return

The kernel's side of the programs: the error codes that some receive loop
tells apart (on Linux `EWOULDBLOCK` is `EAGAIN`), the outcomes of `recvfrom`
and the outcomes of `epoll_wait`.  An entry of `events` is some other
descriptor, or the server's socket together with what the `recvfrom` made for
it returns.  `recvfrom` with room for `limit` bytes delivers the first `limit`
bytes of a datagram and drops the rest.  A run of a receive loop is driven by
a list of such outcomes.
-/

namespace CandCpp.Network

open CandCpp.Foundation

inductive Errno where
  | eagain
  | eintr
  | emsgsize
  | econnrefused
  | ebadf
  | enotsock
  | efault
  | other (code : Nat)
  deriving DecidableEq, Repr

inductive RecvOutcome (Peer : Type) where
  | failed (errno : Errno)
  | datagram (peer : Peer) (payload : Bytes)
  deriving DecidableEq, Repr

def delivered (limit : Nat) (payload : Bytes) : Bytes := payload.take limit

theorem length_delivered (limit : Nat) (payload : Bytes) :
    (delivered limit payload).length = min limit payload.length :=
  List.length_take

theorem length_delivered_le (limit : Nat) (payload : Bytes) :
    (delivered limit payload).length ≤ limit := by
  rw [length_delivered]
  exact Nat.min_le_left _ _

@[simp] theorem delivered_of_le {limit : Nat} {payload : Bytes}
    (h : payload.length ≤ limit) : delivered limit payload = payload :=
  List.take_of_length_le h

inductive EpollEvent (Peer : Type) where
  | otherDescriptor
  | serverSocket (outcome : RecvOutcome Peer)
  deriving DecidableEq, Repr

inductive EpollOutcome (Peer : Type) where
  | failed (errno : Errno)
  | ready (events : List (EpollEvent Peer))
  deriving DecidableEq, Repr

namespace RecvOutcome

variable {Peer : Type}

def payload? : RecvOutcome Peer → Option Bytes
  | .failed _ => none
  | .datagram _ payload => some payload

end RecvOutcome

namespace EpollEvent

variable {Peer : Type}

def payload? : EpollEvent Peer → Option Bytes
  | .otherDescriptor => none
  | .serverSocket outcome => outcome.payload?

end EpollEvent

namespace EpollOutcome

variable {Peer : Type}

def events : EpollOutcome Peer → List (EpollEvent Peer)
  | .failed _ => []
  | .ready events => events

def payloads (outcome : EpollOutcome Peer) : List Bytes :=
  outcome.events.filterMap EpollEvent.payload?

end EpollOutcome

def receivedPayloads {Peer : Type} (outcomes : List (EpollOutcome Peer)) :
    List Bytes :=
  outcomes.flatMap EpollOutcome.payloads

end CandCpp.Network
