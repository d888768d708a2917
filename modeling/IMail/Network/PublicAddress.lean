import Mathlib.Data.BitVec
import Mathlib.Tactic

/-!
# Addresses that outbound requests may reach

`is_public_ip` of `imail-http/src/logo.rs`, which guards the fetches of the server, and
`public_network_ip` of `src-tauri/src/http_bridge.rs`, which guards those of the desktop.

An IPv6 address can carry an IPv4 address in one of four standard forms. Both guards look
into the IPv4-mapped form only, so an address that either refuses is accepted by both once it
is written in one of the other forms.
-/

namespace IMail

/-- `std::net::Ipv4Addr` by octets. -/
@[ext] structure Ipv4Addr where
  a : BitVec 8
  b : BitVec 8
  c : BitVec 8
  d : BitVec 8
deriving DecidableEq

/-- `std::net::Ipv6Addr` by segments. -/
structure Ipv6Addr where
  s0 : BitVec 16
  s1 : BitVec 16
  s2 : BitVec 16
  s3 : BitVec 16
  s4 : BitVec 16
  s5 : BitVec 16
  s6 : BitVec 16
  s7 : BitVec 16
deriving DecidableEq

inductive IpAddr
  | v4 (value : Ipv4Addr)
  | v6 (value : Ipv6Addr)
deriving DecidableEq

def highOctet (s : BitVec 16) : BitVec 8 := s.extractLsb' 8 8

def lowOctet (s : BitVec 16) : BitVec 8 := s.extractLsb' 0 8

namespace Ipv4Addr

def isUnspecified (v : Ipv4Addr) : Bool := v = ⟨0, 0, 0, 0⟩

def isLoopback (v : Ipv4Addr) : Bool := v.a = 127

def isLinkLocal (v : Ipv4Addr) : Bool := v.a = 169 ∧ v.b = 254

def isMulticast (v : Ipv4Addr) : Bool := 224 ≤ v.a ∧ v.a ≤ 239

end Ipv4Addr

namespace Ipv6Addr

def isUnspecified (v : Ipv6Addr) : Bool := v = ⟨0, 0, 0, 0, 0, 0, 0, 0⟩

def isLoopback (v : Ipv6Addr) : Bool := v = ⟨0, 0, 0, 0, 0, 0, 0, 1⟩

def isUniqueLocal (v : Ipv6Addr) : Bool := v.s0 &&& 0xfe00#16 = 0xfc00#16

def isUnicastLinkLocal (v : Ipv6Addr) : Bool := v.s0 &&& 0xffc0#16 = 0xfe80#16

def isMulticast (v : Ipv6Addr) : Bool := v.s0 &&& 0xff00#16 = 0xff00#16

/-- The address of `::ffff:0:0/96` under the prefix. -/
def toIpv4Mapped (v : Ipv6Addr) : Option Ipv4Addr :=
  if v.s0 = 0 ∧ v.s1 = 0 ∧ v.s2 = 0 ∧ v.s3 = 0 ∧ v.s4 = 0 ∧ v.s5 = 0xffff#16 then
    some ⟨highOctet v.s6, lowOctet v.s6, highOctet v.s7, lowOctet v.s7⟩
  else none

end Ipv6Addr

/-- The addresses of either family that never lead to a public host. -/
def IpAddr.isSpecial : IpAddr → Bool
  | .v4 v => v.isUnspecified || v.isLoopback || v.isLinkLocal || v.isMulticast
  | .v6 v =>
    v.isUnspecified || v.isLoopback || v.isUniqueLocal || v.isUnicastLinkLocal || v.isMulticast

def isPublicIpv4 (v : Ipv4Addr) : Bool :=
  !(v.a = 0 || v.a = 10 || v.a = 127 || (v.a = 169 && v.b = 254) ||
    (v.a = 172 && (16 ≤ v.b && v.b ≤ 31)) || (v.a = 192 && v.b = 168) ||
    (v.a = 100 && (64 ≤ v.b && v.b ≤ 127)) || 224 ≤ v.a)

def isPublicIp : IpAddr → Bool
  | .v4 v => isPublicIpv4 v
  | .v6 v =>
    match v.toIpv4Mapped with
    | some v4 => isPublicIpv4 v4
    | none =>
      !v.isUnspecified && !v.isLoopback && v.s0 &&& 0xfe00#16 != 0xfc00#16 &&
        v.s0 &&& 0xffc0#16 != 0xfe80#16 && v.s0 &&& 0xff00#16 != 0xff00#16

def publicNetworkIpv4 (v : Ipv4Addr) : Bool :=
  !(v.a = 0 || v.a = 10 || v.a = 127 || (v.a = 100 && (64 ≤ v.b && v.b ≤ 127)) ||
    (v.a = 169 && v.b = 254) || (v.a = 172 && (16 ≤ v.b && v.b ≤ 31)) ||
    (v.a = 192 && v.b = 168) || (v.a = 192 && v.b = 0) || (v.a = 198 && v.b = 51) ||
    (v.a = 198 && (v.b = 18 || v.b = 19)) || (v.a = 203 && v.b = 0) || 224 ≤ v.a)

def publicNetworkIp : IpAddr → Bool
  | .v4 v => publicNetworkIpv4 v
  | .v6 v =>
    match v.toIpv4Mapped with
    | some v4 => publicNetworkIpv4 v4
    | none =>
      !(v.isUnspecified || v.isLoopback || v.isMulticast || v.s0 &&& 0xfe00#16 = 0xfc00#16 ||
        v.s0 &&& 0xffc0#16 = 0xfe80#16 || (v.s0 = 0x2001#16 && v.s1 = 0x0db8#16))

/-- The standard ways to write an IPv4 address in an IPv6 address. Below the 48 bits of a
6to4 prefix, subnet and interface are free. -/
inductive Embedding
  | mapped
  | compatible
  | nat64
  | sixToFour (s3 s4 s5 s6 s7 : BitVec 16)
deriving DecidableEq

def Embedding.embed (e : Embedding) (v : Ipv4Addr) : Ipv6Addr :=
  let high := v.a ++ v.b
  let low := v.c ++ v.d
  match e with
  | .mapped => ⟨0, 0, 0, 0, 0, 0xffff#16, high, low⟩
  | .compatible => ⟨0, 0, 0, 0, 0, 0, high, low⟩
  | .nat64 => ⟨0x64#16, 0xff9b#16, 0, 0, 0, 0, high, low⟩
  | .sixToFour s3 s4 s5 s6 s7 => ⟨0x2002#16, high, low, s3, s4, s5, s6, s7⟩

/-- The forms that both guards see through: the mapped one, and the two addresses whose
compatible form is the unspecified and the loopback address of IPv6. -/
def Embedding.Seen (e : Embedding) (v : Ipv4Addr) : Prop :=
  e = .mapped ∨ e = .compatible ∧ (v = ⟨0, 0, 0, 0⟩ ∨ v = ⟨0, 0, 0, 1⟩)

theorem highOctet_append (x y : BitVec 8) : highOctet (x ++ y) = x :=
  BitVec.extractLsb'_append_eq_left

theorem lowOctet_append (x y : BitVec 8) : lowOctet (x ++ y) = y :=
  BitVec.extractLsb'_append_eq_right

theorem append_eq_iff (x y x' y' : BitVec 8) : x ++ y = x' ++ y' ↔ x = x' ∧ y = y' := by
  constructor
  · intro h
    have hhigh := congrArg highOctet h
    have hlow := congrArg lowOctet h
    rw [highOctet_append, highOctet_append] at hhigh
    rw [lowOctet_append, lowOctet_append] at hlow
    exact ⟨hhigh, hlow⟩
  · rintro ⟨rfl, rfl⟩
    rfl

theorem toIpv4Mapped_mapped (v : Ipv4Addr) :
    (Embedding.mapped.embed v).toIpv4Mapped = some v := by
  simp [Embedding.embed, Ipv6Addr.toIpv4Mapped, highOctet_append, lowOctet_append]

theorem compatible_special (v : Ipv4Addr) :
    ((Embedding.compatible.embed v).isUnspecified || (Embedding.compatible.embed v).isLoopback) =
      true ↔ v = ⟨0, 0, 0, 0⟩ ∨ v = ⟨0, 0, 0, 1⟩ := by
  have hzero : (0 : BitVec 16) = (0 : BitVec 8) ++ (0 : BitVec 8) := rfl
  have hone : (1 : BitVec 16) = (0 : BitVec 8) ++ (1 : BitVec 8) := rfl
  simp only [Embedding.embed, Ipv6Addr.isUnspecified, Ipv6Addr.isLoopback, Bool.or_eq_true,
    decide_eq_true_eq, Ipv6Addr.mk.injEq, Ipv4Addr.ext_iff, true_and]
  rw [hone, hzero]
  simp only [append_eq_iff, and_assoc]

/-- A guard that looks into the mapped form and, in the other three, refuses the unspecified and
the loopback address only. -/
theorem refused_embed_iff {guard : IpAddr → Bool} {v : Ipv4Addr} (hv : guard (.v4 v) = false)
    (hmapped : guard (.v6 (Embedding.mapped.embed v)) = guard (.v4 v))
    (hother : ∀ e ≠ Embedding.mapped,
      guard (.v6 (e.embed v)) = !((e.embed v).isUnspecified || (e.embed v).isLoopback))
    (e : Embedding) : guard (.v6 (e.embed v)) = false ↔ e.Seen v := by
  cases e with
  | mapped => exact iff_of_true (hmapped.trans hv) (Or.inl rfl)
  | compatible =>
    rw [hother _ (by simp), Bool.not_eq_false', compatible_special]
    simp [Embedding.Seen]
  | nat64 | sixToFour =>
    rw [hother _ (by simp)]
    simp [Embedding.Seen, Embedding.embed, Ipv6Addr.isUnspecified, Ipv6Addr.isLoopback]

theorem isPublicIp_embed (e : Embedding) (v : Ipv4Addr) (hv : isPublicIp (.v4 v) = false) :
    isPublicIp (.v6 (e.embed v)) = false ↔ e.Seen v := by
  refine refused_embed_iff hv ?_ ?_ e
  · simp only [isPublicIp, toIpv4Mapped_mapped]
  · intro e he
    cases e <;> simp_all [isPublicIp, Embedding.embed, Ipv6Addr.toIpv4Mapped]

theorem publicNetworkIp_embed (e : Embedding) (v : Ipv4Addr)
    (hv : publicNetworkIp (.v4 v) = false) :
    publicNetworkIp (.v6 (e.embed v)) = false ↔ e.Seen v := by
  refine refused_embed_iff hv ?_ ?_ e
  · simp only [publicNetworkIp, toIpv4Mapped_mapped]
  · intro e he
    cases e <;>
      simp only [publicNetworkIp, Embedding.embed, Ipv6Addr.toIpv4Mapped, Ipv6Addr.isMulticast] <;>
      simp_all

theorem isPublicIpv4_of_publicNetworkIpv4 {v : Ipv4Addr} (h : publicNetworkIpv4 v = true) :
    isPublicIpv4 v = true := by
  simp only [publicNetworkIpv4, isPublicIpv4, Bool.not_eq_true', Bool.or_eq_false_iff] at h ⊢
  tauto

theorem isPublicIp_of_publicNetworkIp {a : IpAddr} (h : publicNetworkIp a = true) :
    isPublicIp a = true := by
  cases a with
  | v4 v => exact isPublicIpv4_of_publicNetworkIpv4 h
  | v6 v =>
    simp only [publicNetworkIp, isPublicIp] at h ⊢
    cases hmapped : v.toIpv4Mapped with
    | some v4 =>
      rw [hmapped] at h
      exact isPublicIpv4_of_publicNetworkIpv4 h
    | none =>
      simp only [hmapped, Ipv6Addr.isMulticast, Bool.not_eq_true', Bool.or_eq_false_iff,
        decide_eq_false_iff_not] at h
      simp [h]

theorem isPublicIpv4_special {v : Ipv4Addr} (h : IpAddr.isSpecial (.v4 v) = true) :
    isPublicIpv4 v = false := by
  simp only [IpAddr.isSpecial, Ipv4Addr.isUnspecified, Ipv4Addr.isLoopback, Ipv4Addr.isLinkLocal,
    Ipv4Addr.isMulticast, Bool.or_eq_true, decide_eq_true_eq, Ipv4Addr.ext_iff] at h
  simp only [isPublicIpv4, Bool.not_eq_false', Bool.or_eq_true, Bool.and_eq_true,
    decide_eq_true_eq]
  tauto

theorem isPublicIp_special {a : IpAddr} (h : a.isSpecial = true) : isPublicIp a = false := by
  cases a with
  | v4 v => exact isPublicIpv4_special h
  | v6 v =>
    have hmapped : v.toIpv4Mapped = none := by
      by_contra hsome
      have hprefix : v.s0 = 0 ∧ v.s5 = 0xffff#16 := by
        by_contra hne
        exact hsome (if_neg fun hall => hne ⟨hall.1, hall.2.2.2.2.2⟩)
      rcases v with ⟨s0, s1, s2, s3, s4, s5, s6, s7⟩
      obtain ⟨rfl, rfl⟩ := hprefix
      simp [IpAddr.isSpecial, Ipv6Addr.isUnspecified, Ipv6Addr.isLoopback,
        Ipv6Addr.isUniqueLocal, Ipv6Addr.isUnicastLinkLocal, Ipv6Addr.isMulticast] at h
    simp only [IpAddr.isSpecial, Ipv6Addr.isUniqueLocal, Ipv6Addr.isUnicastLinkLocal,
      Ipv6Addr.isMulticast, Bool.or_eq_true, decide_eq_true_eq] at h
    simp only [isPublicIp, hmapped]
    rcases h with (((h | h) | h) | h) | h <;> simp [h]

/-- The special addresses are refused and the desktop's guard is the stronger one. A refused
IPv4 address stays refused in exactly the forms that the guards see through. -/
theorem refused_embedded_iff_seen (a : IpAddr) (e : Embedding) (v : Ipv4Addr) :
    (a.isSpecial = true → isPublicIp a = false) ∧
      (publicNetworkIp a = true → isPublicIp a = true) ∧
      (isPublicIp (.v4 v) = false → (isPublicIp (.v6 (e.embed v)) = false ↔ e.Seen v)) ∧
      (publicNetworkIp (.v4 v) = false →
        (publicNetworkIp (.v6 (e.embed v)) = false ↔ e.Seen v)) :=
  ⟨isPublicIp_special, isPublicIp_of_publicNetworkIp, isPublicIp_embed e v,
    publicNetworkIp_embed e v⟩

/-- The private address `10.0.0.1` is accepted as `::10.0.0.1`, `64:ff9b::10.0.0.1` and
`2002:a00:1::`, by the server and by the desktop. -/
theorem private_address_accepted :
    isPublicIp (.v4 ⟨10, 0, 0, 1⟩) = false ∧ publicNetworkIp (.v4 ⟨10, 0, 0, 1⟩) = false ∧
      [Embedding.compatible, .nat64, .sixToFour 0 0 0 0 0].all fun e =>
        isPublicIp (.v6 (e.embed ⟨10, 0, 0, 1⟩)) && publicNetworkIp (.v6 (e.embed ⟨10, 0, 0, 1⟩)) := by
  decide

end IMail
