import LyqtRpc.ConsistentHash
import LyqtRpc.EtcdStore

/-!
The two keys of a host's circuit breaker: `hostKey`, and the address of the peer a
`MuduoClient` for the host connects to. `A` are addresses without a port.
-/

set_option autoImplicit false

namespace LyqtRpc

def cStr (s : Bytes) : Bytes := s.takeWhile (fun b => b ≠ 0)

/-- `inet_pton` and muduo's `InetAddress`; `any` is the address of an `InetAddress`
that was made of a port alone, the wildcard 0.0.0.0. -/
structure SocketApi (A : Type) where
  inetPton4 : Bytes → Option A
  inetPton6 : Bytes → Option A
  toIp : A → Bytes
  resolve : Bytes → Option A
  any : A

namespace SocketApi
variable {A : Type} (net : SocketApi A)

/-- `InetAddress(ip, port)`, for a literal. -/
def inetAddress (ip : Bytes) : A :=
  match net.inetPton4 (cStr ip) with
  | some a => a
  | none => (net.inetPton6 (cStr ip)).getD net.any

/-- The address of a `MuduoClient`; a name that is not resolved falls back. -/
def resolveHost (host : Bytes) : A :=
  if (net.inetPton4 (cStr host)).isSome || (net.inetPton6 (cStr host)).isSome then
    net.inetAddress host
  else
    match net.resolve (cStr host) with
    | some resolved => net.inetAddress (net.toIp resolved)
    | none => net.any

/-- `toIpPort` of the peer, which is taken to be the address connected to; of the wildcards
0.0.0.0 and :: the kernel makes the loopback address instead. The port is converted to
`uint16_t`. -/
def peerAddress (host : HostInfo) : Bytes :=
  net.toIp (net.resolveHost host.ip) ++ 58 :: natText (host.port.toInt % 65536).toNat

/-- What is known of the library: a dotted address is printed as it is written, and
what is printed is text that is read back. -/
structure Documented : Prop where
  dotted : ∀ s a, net.inetPton4 s = some a → net.toIp a = s
  text : ∀ a, 0 ∉ net.toIp a
  readBack : ∀ a, net.inetPton4 (net.toIp a) = some a ∨
    net.inetPton4 (net.toIp a) = none ∧ net.inetPton6 (net.toIp a) = some a

/-- A dotted IPv4 address, or an IPv6 address in the form it is printed. -/
def Printed (s : Bytes) : Prop :=
  (net.inetPton4 s).isSome = true ∨ ∃ a, net.inetPton6 s = some a ∧ net.toIp a = s

end SocketApi

section Key
variable {A : Type} {net : SocketApi A} {host : HostInfo}

theorem cStr_of_text {s : Bytes} (h : 0 ∉ s) : cStr s = s := by
  rw [cStr, List.takeWhile_eq_self_iff]
  intro b hb
  have hne : b ≠ 0 := fun heq => h (heq ▸ hb)
  simpa using hne

theorem SocketApi.printed_iff (h : net.Documented) {s : Bytes} :
    net.Printed s ↔ ∃ a, net.toIp a = s := by
  constructor
  · intro hprinted
    cases hprinted with
    | inl hdotted =>
      obtain ⟨a, ha⟩ := Option.isSome_iff_exists.mp hdotted
      exact ⟨a, h.dotted s a ha⟩
    | inr hsix =>
      obtain ⟨a, _, ha⟩ := hsix
      exact ⟨a, ha⟩
  · intro hprinted
    obtain ⟨a, rfl⟩ := hprinted
    cases h.readBack a with
    | inl hdotted => exact Or.inl (by simp [hdotted])
    | inr hsix => exact Or.inr ⟨a, hsix.2, rfl⟩

/-- A printed address resolves to itself. -/
theorem SocketApi.resolveHost_toIp (h : net.Documented) (a : A) :
    net.resolveHost (net.toIp a) = a := by
  unfold resolveHost inetAddress
  rw [cStr_of_text (h.text a)]
  cases h.readBack a with
  | inl hdotted => simp [hdotted]
  | inr hsix => simp [hsix.1, hsix.2]

theorem SocketApi.toIp_resolveHost_iff (h : net.Documented) {s : Bytes} :
    net.toIp (net.resolveHost s) = s ↔ net.Printed s := by
  rw [SocketApi.printed_iff h]
  constructor
  · intro heq
    exact ⟨_, heq⟩
  · intro hprinted
    obtain ⟨a, rfl⟩ := hprinted
    rw [SocketApi.resolveHost_toIp h]

theorem hostKey_eq : hostKey host = host.ip ++ 58 :: intText host.port := by
  simp [hostKey, intText, str]

theorem intText_ofWord {n : Nat} (h : n < 2 ^ 31) : intText (Int32.ofWord n) = natText n := by
  rw [intText, Int32.toInt_ofWord h, natText]
  rfl

/-- The port survives the conversion to `uint16_t`. -/
theorem port_kept_iff {port : Int32} :
    port = Int32.ofWord (port.toInt % 65536).toNat ↔ 0 ≤ port.toInt ∧ port.toInt < 65536 := by
  have hword : (Int32.ofWord (port.toInt % 65536).toNat).toInt = (port.toInt % 65536).toNat :=
    Int32.toInt_ofWord (by omega)
  constructor
  · intro heq
    have hint := congrArg Int32.toInt heq
    rw [hword] at hint
    omega
  · intro hrange
    apply Int32.toInt_inj.mp
    rw [hword]
    omega

end Key

/-- Failures to connect to a host and calls over a connection to it are counted under
one key exactly if its ip is written as addresses are printed, and its port is one. -/
theorem breaker_key_iff {A : Type} (net : SocketApi A) (h : net.Documented) (host : HostInfo) :
    hostKey host = net.peerAddress host
      ↔ net.Printed host.ip ∧ 0 ≤ host.port.toInt ∧ host.port.toInt < 65536 := by
  have hport : natText (host.port.toInt % 65536).toNat
      = intText (Int32.ofWord (host.port.toInt % 65536).toNat) := by
    rw [intText_ofWord (by omega)]
  rw [← SocketApi.toIp_resolveHost_iff h, ← port_kept_iff, hostKey_eq, SocketApi.peerAddress,
    hport]
  constructor
  · intro heq
    obtain ⟨hip, hkept⟩ := address_eq heq
    exact ⟨hip.symm, hkept⟩
  · intro hboth
    rw [hboth.1, ← hboth.2]

/-- Two addresses, of which `localhost` is the first. -/
def loopbackApi : SocketApi Bool where
  inetPton4 s :=
    if s = str "127.0.0.1" then some false else if s = str "0.0.0.0" then some true else none
  inetPton6 _ := none
  toIp a := if a then str "0.0.0.0" else str "127.0.0.1"
  resolve s := if s = str "localhost" then some false else none
  any := true

theorem loopbackApi_documented : loopbackApi.Documented where
  dotted s a h := by
    simp only [loopbackApi] at h
    split at h
    · simp_all [loopbackApi]
    · split at h
      · simp_all [loopbackApi]
      · simp at h
  text a := by cases a <;> decide
  readBack a := by cases a <;> decide

theorem breaker_key_iff_dotted :
    hostKey ⟨str "127.0.0.1", 9000⟩ = loopbackApi.peerAddress ⟨str "127.0.0.1", 9000⟩ :=
  (breaker_key_iff loopbackApi loopbackApi_documented _).mpr
    ⟨Or.inl (by decide), by decide, by decide⟩

/-- A connection that is lost is counted for `localhost:9000`; calls are let through,
and counted, for `127.0.0.1:9000`. -/
theorem breaker_keys_differ :
    hostKey ⟨str "localhost", 9000⟩ ≠ loopbackApi.peerAddress ⟨str "localhost", 9000⟩ := by
  decide

end LyqtRpc
