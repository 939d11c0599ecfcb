import CandCpp.Foundation.InternetAddress

/-!
# The address that udpClient2.cpp is given

`isValidIpAddress` accepts addresses of both families and stores what
`inet_pton` reads in a `sockaddr_in` of its own; `main` then uses the same text
as an IPv4 address.  A store is given by its offset in that structure.  `main`
is followed to an exit or to its loop of `sendto` calls.
-/

namespace CandCpp.Network.UdpClient2

open CandCpp.Foundation CandCpp.Foundation.InternetAddress

/-! ## The check -/

inductive IPVersion where
  | ipvNone
  | ipv4
  | ipv6
  deriving DecidableEq, Repr

structure Store where
  offset : Nat
  bytes : Bytes
  deriving DecidableEq, Repr

def Store.Within (store : Store) (size : Nat) : Prop :=
  store.offset + store.bytes.length ≤ size

instance (store : Store) (size : Nat) : Decidable (store.Within size) :=
  inferInstanceAs (Decidable (_ ≤ _))

/-- What `inet_pton` returns and what it stores. -/
def inetPtonAt (family : AddressFamily) (text : Bytes) (offset : Nat) :
    Int × List Store :=
  match inetPton family text with
  | some address => (1, [⟨offset, address.bytes⟩])
  | none => (0, [])

abbrev sizeofSockaddrIn : Nat := 16

abbrev offsetofSinAddr : Nat := 4

structure Check where
  version : IPVersion
  stores : List Store
  deriving DecidableEq, Repr

def isValidIpAddress (ipAddress : Bytes) : Check :=
  let (result, stores) := inetPtonAt .inet ipAddress offsetofSinAddr
  if result > 0 then ⟨.ipv4, stores⟩
  else
    let (result, others) := inetPtonAt .inet6 ipAddress offsetofSinAddr
    if result > 0 then ⟨.ipv6, stores ++ others⟩
    else ⟨.ipvNone, stores ++ others⟩

/-! ## The use -/

abbrev SERVER_PORT : UInt16 := 8089

structure SockaddrIn where
  sinFamily : AddressFamily
  sinPort : UInt16
  sinAddr : Buffer 4
  deriving DecidableEq

/-- What the calls return that `main` makes before it sends. -/
structure SystemCalls where
  socket : Int
  getFlags : Int
  setFlags : Int

def SystemCalls.Succeed (calls : SystemCalls) : Prop :=
  0 ≤ calls.socket ∧ 0 ≤ calls.getFlags ∧ 0 ≤ calls.setFlags

inductive Ending where
  | usage
  | invalidIpAddress
  | socketCreationFailed
  | getFlagsFailed (closed : Int)
  | setFlagsFailed (closed : Int)
  | addressNotSupported (closed : Int)
  | sends (sockfd : Int) (serverAddr : SockaddrIn)
  deriving DecidableEq

def main (argv : List Bytes) (calls : SystemCalls) : Ending :=
  match argv with
  | [_, serverIpAddress, _, _] =>
      if (isValidIpAddress serverIpAddress).version = .ipvNone then
        .invalidIpAddress
      else if calls.socket < 0 then .socketCreationFailed
      else if calls.getFlags < 0 then .getFlagsFailed calls.socket
      else if calls.setFlags < 0 then .setFlagsFailed calls.socket
      else
        match inetPton .inet serverIpAddress with
        | none => .addressNotSupported calls.socket
        | some sinAddr => .sends calls.socket ⟨.inet, SERVER_PORT, sinAddr⟩
  | _ => .usage

/-- The check stays inside its structure, and what it accepts can be used. -/
structure CheckAgreesWithUse (serverIpAddress : Bytes) : Prop where
  within : ∀ store ∈ (isValidIpAddress serverIpAddress).stores,
    store.Within sizeofSockaddrIn
  configures : (isValidIpAddress serverIpAddress).version ≠ .ipvNone →
    ∀ (program sendCount sleepSeconds : Bytes) (calls : SystemCalls),
      calls.Succeed → ∃ serverAddr,
        main [program, serverIpAddress, sendCount, sleepSeconds] calls =
          .sends calls.socket serverAddr

/-! ## What each family leads to -/

theorem isValidIpAddress_of_inet {text : Bytes} {address : Buffer 4}
    (h : inetPton .inet text = some address) :
    isValidIpAddress text = ⟨.ipv4, [⟨offsetofSinAddr, address.bytes⟩]⟩ := by
  simp [isValidIpAddress, inetPtonAt, h]

theorem isValidIpAddress_of_inet6 {text : Bytes} {address : Buffer 16}
    (h : inetPton .inet6 text = some address) :
    isValidIpAddress text = ⟨.ipv6, [⟨offsetofSinAddr, address.bytes⟩]⟩ := by
  have hinet : inetPton .inet text = none := dottedQuad_eq_none_of_ipv6 h
  simp [isValidIpAddress, inetPtonAt, h, hinet]

theorem isValidIpAddress_of_none {text : Bytes}
    (hinet : inetPton .inet text = none)
    (hinet6 : inetPton .inet6 text = none) :
    isValidIpAddress text = ⟨.ipvNone, []⟩ := by
  simp [isValidIpAddress, inetPtonAt, hinet, hinet6]

theorem main_of_inet {text : Bytes} {address : Buffer 4}
    (h : inetPton .inet text = some address) {calls : SystemCalls}
    (hcalls : calls.Succeed) (program sendCount sleepSeconds : Bytes) :
    main [program, text, sendCount, sleepSeconds] calls =
      .sends calls.socket ⟨.inet, SERVER_PORT, address⟩ := by
  obtain ⟨hsocket, hget, hset⟩ := hcalls
  simp [main, isValidIpAddress_of_inet h, h, Int.not_lt.mpr hsocket,
    Int.not_lt.mpr hget, Int.not_lt.mpr hset]

/-- `sin_addr` and the padding behind it have 12 bytes. -/
theorem within_sockaddrIn_iff (bytes : Bytes) :
    (⟨offsetofSinAddr, bytes⟩ : Store).Within sizeofSockaddrIn ↔
      bytes.length ≤ 12 := by
  change 4 + bytes.length ≤ 16 ↔ bytes.length ≤ 12
  omega

theorem checkAgreesWithUse_of_inet {text : Bytes} {address : Buffer 4}
    (h : inetPton .inet text = some address) : CheckAgreesWithUse text := by
  refine ⟨?_, ?_⟩
  · intro store hstore
    have hlength : address.bytes.length = 4 := address.length_bytes
    rw [isValidIpAddress_of_inet h, List.mem_singleton] at hstore
    rw [hstore, within_sockaddrIn_iff, hlength]
    decide
  · intro _ program sendCount sleepSeconds calls hcalls
    exact ⟨_, main_of_inet h hcalls program sendCount sleepSeconds⟩

theorem checkAgreesWithUse_of_none {text : Bytes}
    (hinet : inetPton .inet text = none)
    (hinet6 : inetPton .inet6 text = none) : CheckAgreesWithUse text := by
  have hcheck := isValidIpAddress_of_none hinet hinet6
  refine ⟨?_, ?_⟩
  · rw [hcheck]
    simp
  · intro haccepted
    rw [hcheck] at haccepted
    exact absurd rfl haccepted

theorem not_checkAgreesWithUse_of_inet6 {text : Bytes} {address : Buffer 16}
    (h : inetPton .inet6 text = some address) : ¬ CheckAgreesWithUse text := by
  intro hagrees
  have hstore := hagrees.within ⟨offsetofSinAddr, address.bytes⟩ (by
    rw [isValidIpAddress_of_inet6 h]
    exact List.mem_singleton_self _)
  have hlength : address.bytes.length = 16 := address.length_bytes
  rw [within_sockaddrIn_iff, hlength] at hstore
  exact absurd hstore (by decide)

theorem checkAgreesWithUse_iff (serverIpAddress : Bytes) :
    CheckAgreesWithUse serverIpAddress ↔
      inetPton .inet6 serverIpAddress = none := by
  constructor
  · intro h
    by_contra hinet6
    obtain ⟨address, haddress⟩ := Option.ne_none_iff_exists'.mp hinet6
    exact not_checkAgreesWithUse_of_inet6 haddress h
  · intro hinet6
    cases hinet : inetPton .inet serverIpAddress with
    | none => exact checkAgreesWithUse_of_none hinet hinet6
    | some address => exact checkAgreesWithUse_of_inet hinet

/-- `./udpClient2 ::1 1 1`: the check stores 16 bytes at offset 4 of the 16. -/
theorem loopback6_overruns :
    (isValidIpAddress (ascii "::1")).stores =
        [⟨4, [0, 0, 0, 0, 0, 0, 0, 0, 0, 0, 0, 0, 0, 0, 0, 1]⟩] ∧
      main [ascii "./udpClient2", ascii "::1", ascii "1", ascii "1"]
        ⟨3, 2, 0⟩ = .addressNotSupported 3 ∧
      ¬ ∀ serverIpAddress, CheckAgreesWithUse serverIpAddress := by
  refine ⟨by decide, by decide, ?_⟩
  intro h
  have hwithin := (h (ascii "::1")).within
  exact absurd hwithin (by decide)

end CandCpp.Network.UdpClient2
