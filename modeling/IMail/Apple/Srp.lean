import Mathlib.Data.Nat.Digits.Lemmas
import Mathlib.Data.Nat.ModEq
import Mathlib.Tactic

/-!
# Signing in to Apple by SRP

`SrpClient` of `imail-apple-hme/src/srp.rs`: the client's half of the secure remote password
protocol with generator 2 and the 2048-bit modulus. The hashes are whatever `sha2` and `pbkdf2`
compute. A server that stores `v = g^x` and answers with `B = k v + g^b` arrives at the secret of
the client, although the client subtracts `k g^x` by cases and never reduces its exponent.
-/

namespace IMail.Srp

inductive AppleHmeErrorCode
  | unsupported
  | badResponse
  | protocol
deriving DecidableEq

structure AppleHmeError where
  code : AppleHmeErrorCode
  message : String
  retryable : Bool
deriving DecidableEq

def AppleHmeError.ofBadResponse (message : String) : AppleHmeError :=
  ⟨.badResponse, message, true⟩

class Hashes where
  /-- `Sha256::digest` -/
  sha256 : List UInt8 → List UInt8
  /-- `pbkdf2_hmac::<Sha256>` of a password, a salt and a number of iterations. -/
  pbkdf2 : List UInt8 → List UInt8 → ℕ → List UInt8

/-- `N_HEX` -/
def modulus : ℕ :=
  0xAC6BDB41324A9A9BF166DE5E1389582FAF72B6651987EE07FC3192943DB56050A37329CBB4A099ED8193E0757767A13DD52312AB4B03310DCD7F48A9DA04FD50E8083969EDB767B0CF6095179A163AB3661A05FBD5FAAAE82918A9962F0B93B855F97993EC975EEAA80D740ADBF4FF747359D041D5C33EA71D281E446B14773BCA97B43A23FB801676BD207A436C6481F1D2B9078717461A5B9D32E688F87748544523B524B0D57D5EA77A2775D2ECFA032CFBDBF52FB3786160279004E57AE6AF874E7303CE53299CCC041C7BC308D82A5698F3A8D0C38271AE35F8E9DBFBB694B5C803D89F7AE435DE236D525F54759B65E372FCD68EF20FA7111F9E4AFF73

def generator : ℕ := 2

/-- `BigUint::from_bytes_be` -/
def fromBytesBe (bytes : List UInt8) : ℕ := bytes.foldl (fun n byte => n * 256 + byte.toNat) 0

/-- `to_bytes_be`; zero is one byte. -/
def toBytesBe (value : ℕ) : List UInt8 :=
  if value = 0 then [0] else ((Nat.digits 256 value).map Nat.toUInt8).reverse

def padBytes : ℕ := 256

def pad (value : ℕ) : List UInt8 :=
  let bytes := toBytesBe value
  if padBytes ≤ bytes.length then bytes
  else List.replicate (padBytes - bytes.length) 0 ++ bytes

def hexLower (value : List UInt8) : List UInt8 :=
  let digit := fun n : ℕ => Nat.toUInt8 (if n < 10 then 48 + n else 87 + n)
  value.flatMap fun byte => [digit (byte.toNat / 16), digit (byte.toNat % 16)]

structure SrpClient where
  secret : List UInt8
  a : ℕ
  publicA : ℕ

structure SrpProof where
  m1 : List UInt8
  m2 : List UInt8
deriving DecidableEq

def SrpClient.fromSecret (secret : List UInt8) : Except AppleHmeError SrpClient :=
  let a := fromBytesBe secret
  if a = 0 then .error ⟨.protocol, "SRP 随机数无效", false⟩
  else .ok ⟨secret, a, generator ^ a % modulus⟩

/-- What goes into the key derivation, by the protocol that the server names. -/
def passwordInput (protocol : String) (passwordHash : List UInt8) : Option (List UInt8) :=
  if protocol = "s2k" then some passwordHash
  else if protocol = "s2k_fo" then some (hexLower passwordHash)
  else none

section

variable [Hashes]

def deriveX (input salt : List UInt8) (iterations : ℕ) : ℕ :=
  let inner := Hashes.sha256 (58 :: Hashes.pbkdf2 input salt iterations)
  fromBytesBe (Hashes.sha256 (salt ++ inner))

def deriveU (publicA b : ℕ) : ℕ := fromBytesBe (Hashes.sha256 (pad publicA ++ pad b))

def deriveK : ℕ := fromBytesBe (Hashes.sha256 (toBytesBe modulus ++ pad generator))

def proofs (username salt : List UInt8) (publicA b shared : ℕ) : SrpProof :=
  let key := Hashes.sha256 (pad shared)
  let hG := Hashes.sha256 (pad generator)
  let hN := Hashes.sha256 (toBytesBe modulus)
  let xor := List.zipWith (· ^^^ ·) hG hN
  let m1 := Hashes.sha256
    (xor ++ Hashes.sha256 username ++ salt ++ pad publicA ++ pad b ++ key)
  ⟨m1, Hashes.sha256 (pad publicA ++ m1 ++ key)⟩

/-- The client's shared secret for the server's value `b`. -/
def SrpClient.shared (client : SrpClient) (x u b : ℕ) : ℕ :=
  let kgx := deriveK * (generator ^ x % modulus) % modulus
  let base := if kgx ≤ b then b - kgx else b + modulus - kgx
  base ^ (client.a + u * x) % modulus

def SrpClient.prove (client : SrpClient) (username : List UInt8) (password protocol : String)
    (iterations : ℕ) (salt serverB : List UInt8) : Except AppleHmeError SrpProof :=
  let b := fromBytesBe serverB
  if iterations = 0 then .error (.ofBadResponse "Apple SRP iteration 无效")
  else if b = 0 ∨ modulus ≤ b then .error (.ofBadResponse "Apple SRP B 参数无效")
  else
    match passwordInput protocol (Hashes.sha256 password.toUTF8.toList) with
    | none => .error ⟨.unsupported, s!"不支持 Apple SRP 协议 {protocol}", false⟩
    | some input =>
      let x := deriveX input salt iterations
      let u := deriveU client.publicA b
      if u = 0 then .error (.ofBadResponse "Apple SRP u 参数无效")
      else .ok (proofs username salt client.publicA b (client.shared x u b))

def valueOf (bytes : List UInt8) : ℕ := Nat.ofDigits 256 (bytes.reverse.map UInt8.toNat)

def wide (value : ℕ) : List UInt8 :=
  ((List.range 256).map fun i => Nat.toUInt8 (value / 256 ^ i)).reverse

namespace Server

/-- The exponent behind the verifier; `s2k_fo` takes the hash of the password in hexadecimal. -/
def exponent (password protocol : String) (salt : List UInt8) (iterations : ℕ) : ℕ :=
  let hash := Hashes.sha256 password.toUTF8.toList
  let input := if protocol = "s2k_fo" then hexLower hash else hash
  valueOf (Hashes.sha256 (salt ++ Hashes.sha256 (58 :: Hashes.pbkdf2 input salt iterations)))

def verifier (x : ℕ) : ℕ := 2 ^ x % modulus

def multiplier : ℕ := valueOf (Hashes.sha256 (wide modulus ++ wide 2))

def publicB (x b : ℕ) : ℕ := (multiplier * verifier x + 2 ^ b) % modulus

def scrambler (A B : ℕ) : ℕ := valueOf (Hashes.sha256 (wide A ++ wide B))

def shared (A x u b : ℕ) : ℕ := (A * verifier x ^ u) ^ b % modulus

def m1 (username salt : List UInt8) (A B S : ℕ) : List UInt8 :=
  Hashes.sha256 (List.zipWith (· ^^^ ·) (Hashes.sha256 (wide 2)) (Hashes.sha256 (wide modulus)) ++
    Hashes.sha256 username ++ salt ++ wide A ++ wide B ++ Hashes.sha256 (wide S))

def m2 (username salt : List UInt8) (A B S : ℕ) : List UInt8 :=
  Hashes.sha256 (wide A ++ m1 username salt A B S ++ Hashes.sha256 (wide S))

end Server

omit [Hashes] in
theorem modulus_pos : 0 < modulus := by decide +kernel

omit [Hashes] in
theorem modulus_lt : modulus < 256 ^ 256 := by decide +kernel

omit [Hashes] in
theorem fromBytesBe_eq (bytes : List UInt8) : fromBytesBe bytes = valueOf bytes := by
  induction bytes using List.reverseRecOn with
  | nil => rfl
  | append_singleton bytes byte ih =>
    simp only [fromBytesBe, valueOf, List.foldl_append, List.foldl_cons, List.foldl_nil,
      List.reverse_append, List.reverse_singleton, List.singleton_append, List.map_cons,
      Nat.ofDigits_cons] at ih ⊢
    rw [ih]
    ring

omit [Hashes] in
theorem length_wide (value : ℕ) : (wide value).length = 256 := by simp [wide]

omit [Hashes] in
theorem pad_eq_reverse {value : ℕ} (h : value < 256 ^ 256) :
    pad value = ((Nat.digits 256 value).map Nat.toUInt8 ++
      List.replicate (256 - (Nat.digits 256 value).length) 0).reverse := by
  have hlen := (Nat.digits_length_le_iff (show 1 < 256 by norm_num) value).mpr h
  by_cases hzero : value = 0
  · rw [hzero, Nat.digits_zero, pad, toBytesBe, if_pos rfl, if_neg (by decide),
      List.map_nil, List.nil_append, List.reverse_replicate]
    exact (List.replicate_succ' (n := 255)).symm
  · simp only [pad, toBytesBe, if_neg hzero, padBytes, List.length_reverse, List.length_map,
      List.reverse_append, List.reverse_replicate]
    split_ifs with hfull
    · simp [le_antisymm hlen hfull]
    · rfl

omit [Hashes] in
theorem pad_eq_wide {value : ℕ} (h : value < 256 ^ 256) : pad value = wide value := by
  have hlen := (Nat.digits_length_le_iff (show 1 < 256 by norm_num) value).mpr h
  rw [pad_eq_reverse h, wide, List.reverse_inj]
  refine List.ext_getElem (by simp; omega) fun i hi hi' => ?_
  have hdigit := Nat.getD_digits value i (show 2 ≤ 256 by norm_num)
  rw [List.getElem_append, List.getElem_map, List.getElem_range]
  split
  · next hmem =>
    rw [List.length_map] at hmem
    rw [List.getD_eq_getElem?_getD, List.getElem?_eq_getElem hmem, Option.getD_some] at hdigit
    rw [List.getElem_map, hdigit]
    exact UInt8.toNat_inj.mp (by simp)
  · next hmem =>
    rw [List.length_map, not_lt] at hmem
    rw [List.getD_eq_getElem?_getD, List.getElem?_eq_none hmem, Option.getD_none] at hdigit
    rw [List.getElem_replicate]
    exact UInt8.toNat_inj.mp (by simp [← hdigit])

omit [Hashes] in
theorem valueOf_pad {value : ℕ} (h : value < 256 ^ 256) : valueOf (pad value) = value := by
  have hdigits : ((Nat.digits 256 value).map Nat.toUInt8).map UInt8.toNat = Nat.digits 256 value := by
    rw [List.map_map]
    refine (List.map_congr_left fun digit hdigit => ?_).trans (List.map_id _)
    exact Nat.mod_eq_of_lt (Nat.digits_lt_base (by norm_num) hdigit)
  rw [valueOf, pad_eq_reverse h, List.reverse_reverse, List.map_append, hdigits, List.map_replicate,
    UInt8.toNat_zero, Nat.ofDigits_append_replicate_zero, Nat.ofDigits_digits]

omit [Hashes] in
theorem toBytesBe_modulus : toBytesBe modulus = wide modulus := by
  have hfull : 255 < (Nat.digits 256 modulus).length :=
    (Nat.lt_digits_length_iff (by norm_num) modulus).mpr (by decide +kernel)
  rw [← pad_eq_wide modulus_lt, pad, if_pos]
  rw [toBytesBe, if_neg modulus_pos.ne', List.length_reverse, List.length_map]
  exact hfull

theorem deriveK_eq : deriveK = Server.multiplier := by
  rw [deriveK, Server.multiplier, fromBytesBe_eq, toBytesBe_modulus,
    pad_eq_wide (show generator < 256 ^ 256 from (by decide : generator < 256).trans_le
      (Nat.le_self_pow (by norm_num) 256))]
  rfl

theorem deriveU_eq {A B : ℕ} (hA : A < modulus) (hB : B < modulus) :
    deriveU A B = Server.scrambler A B := by
  rw [deriveU, fromBytesBe_eq, pad_eq_wide (hA.trans modulus_lt), pad_eq_wide (hB.trans modulus_lt)]
  rfl

theorem deriveX_eq {password protocol : String} {input : List UInt8}
    (h : passwordInput protocol (Hashes.sha256 password.toUTF8.toList) = some input)
    (salt : List UInt8) (iterations : ℕ) :
    deriveX input salt iterations = Server.exponent password protocol salt iterations := by
  have hinput : input = if protocol = "s2k_fo" then
      hexLower (Hashes.sha256 password.toUTF8.toList)
      else Hashes.sha256 password.toUTF8.toList := by
    unfold passwordInput at h
    split_ifs at h with hplain hhex
    · cases h
      simp [hplain]
    · cases h
      simp [hhex]
  rw [hinput, deriveX, fromBytesBe_eq]
  rfl

theorem proofs_eq {A B S : ℕ} (hA : A < modulus) (hB : B < modulus) (hS : S < modulus)
    (username salt : List UInt8) : proofs username salt A B S =
      ⟨Server.m1 username salt A B S, Server.m2 username salt A B S⟩ := by
  have hg : generator < 256 ^ 256 := (by decide : generator < 256).trans_le
    (Nat.le_self_pow (by norm_num) 256)
  rw [proofs, toBytesBe_modulus, pad_eq_wide (hA.trans modulus_lt), pad_eq_wide (hB.trans modulus_lt),
    pad_eq_wide (hS.trans modulus_lt), pad_eq_wide hg]
  rfl

theorem base_modEq (x b : ℕ) :
    let kgx := Server.multiplier * Server.verifier x % modulus
    (if kgx ≤ Server.publicB x b then Server.publicB x b - kgx
      else Server.publicB x b + modulus - kgx) ≡ generator ^ b [MOD modulus] := by
  intro kgx
  have hkgx : kgx < modulus := Nat.mod_lt _ modulus_pos
  have hk : kgx ≡ Server.multiplier * Server.verifier x [MOD modulus] := Nat.mod_modEq _ _
  have hpublic : Server.publicB x b ≡ Server.multiplier * Server.verifier x + generator ^ b [MOD modulus] :=
    Nat.mod_modEq _ _
  refine Nat.ModEq.add_left_cancel hk ?_
  split_ifs with hle
  · rw [Nat.add_sub_of_le hle]
    exact hpublic
  · rw [Nat.add_sub_of_le (by omega)]
    exact Nat.ModEq.trans (by simp [Nat.ModEq]) hpublic

theorem shared_eq_shared {client : SrpClient}
    (hpublic : client.publicA = generator ^ client.a % modulus) (x u b : ℕ) :
    client.shared x u (Server.publicB x b) = Server.shared client.publicA x u b := by
  have hA : client.publicA ≡ generator ^ client.a [MOD modulus] := by
    rw [hpublic]
    exact Nat.mod_modEq _ _
  have hv : Server.verifier x ≡ generator ^ x [MOD modulus] := Nat.mod_modEq _ _
  rw [SrpClient.shared, deriveK_eq]
  have hclient := (base_modEq x b).pow (client.a + u * x)
  have hserver := (hA.mul (hv.pow u)).pow b
  have hexponents :
      (generator ^ b) ^ (client.a + u * x) = (generator ^ client.a * (generator ^ x) ^ u) ^ b := by
    ring
  rw [hexponents] at hclient
  exact hclient.trans hserver.symm

/-- The client accepts the server's value, arrives at the server's secret and sends the proofs that the
server computes from it. All three numbers are padded to the width of the modulus. -/
theorem srp_client_server_agree (secret : List UInt8) (ha : valueOf secret ≠ 0) (b : ℕ)
    (username salt : List UInt8) (password protocol : String)
    (hprotocol : protocol = "s2k" ∨ protocol = "s2k_fo") (iterations : ℕ)
    (hiterations : 1 ≤ iterations) :
    let x := Server.exponent password protocol salt iterations
    let B := Server.publicB x b
    ∃ client, SrpClient.fromSecret secret = .ok client ∧
      client.publicA = 2 ^ valueOf secret % modulus ∧
      let A := client.publicA
      let u := Server.scrambler A B
      let S := Server.shared A x u b
      (∀ value ∈ [A, B, S], (pad value).length = 256 ∧ valueOf (pad value) = value) ∧
      ∀ serverB, valueOf serverB = B → B ≠ 0 → u ≠ 0 → client.shared x u B = S ∧
        client.prove username password protocol iterations salt serverB =
          .ok ⟨Server.m1 username salt A B S, Server.m2 username salt A B S⟩ := by
  intro x B
  obtain ⟨input, hinput⟩ : ∃ input,
      passwordInput protocol (Hashes.sha256 password.toUTF8.toList) = some input := by
    rcases hprotocol with rfl | rfl <;> exact ⟨_, rfl⟩
  obtain ⟨client, hclient, ha', hpublic⟩ : ∃ client, SrpClient.fromSecret secret = .ok client ∧
      client.a = valueOf secret ∧ client.publicA = generator ^ client.a % modulus :=
    ⟨_, if_neg (by rwa [fromBytesBe_eq]), fromBytesBe_eq secret, rfl⟩
  refine ⟨client, hclient, ha' ▸ hpublic, ?_⟩
  intro A u S
  have hA : A < modulus := hpublic.trans_lt (Nat.mod_lt _ modulus_pos)
  have hB : B < modulus := Nat.mod_lt _ modulus_pos
  have hS : S < modulus := Nat.mod_lt _ modulus_pos
  have hu : deriveU client.publicA B = u := deriveU_eq hA hB
  have hshared : client.shared x u B = S := shared_eq_shared hpublic x u b
  refine ⟨?_, fun serverB hserver hnonzero hne => ⟨hshared, ?_⟩⟩
  · intro value hvalue
    have hlt : value < modulus := by
      simp only [List.mem_cons, List.not_mem_nil, or_false] at hvalue
      rcases hvalue with rfl | rfl | rfl <;> assumption
    have hwide := hlt.trans modulus_lt
    exact ⟨by rw [pad_eq_wide hwide, length_wide], valueOf_pad hwide⟩
  · simp only [SrpClient.prove, fromBytesBe_eq serverB, hserver, hinput,
      deriveX_eq hinput salt iterations, hu]
    rw [if_neg (by omega), if_neg (by omega), if_neg hne, hshared, proofs_eq hA hB hS]

end

@[reducible] def Hashes.sums : Hashes where
  sha256 bytes := [9, bytes.foldr (· + ·) 0]
  pbkdf2 input salt iterations := input ++ salt ++ [iterations.toUInt8]

/-- A sign-in by the protocol that hashes the hexadecimal digits, with the server's secret 5. -/
theorem srp_client_server_agree_hex :
    letI := Hashes.sums
    let username : List UInt8 := [97, 64, 98]
    let x := Server.exponent "pw" "s2k_fo" [9, 8, 7] 1000
    let B := Server.publicB x 5
    ∃ client, SrpClient.fromSecret [1, 3] = .ok client ∧
      client.prove username "pw" "s2k_fo" 1000 [9, 8, 7] (wide B) = .ok ⟨[9, 87], [9, 174]⟩ := by
  let _ := Hashes.sums
  intro username x B
  obtain ⟨client, hclient, hpublic, -, hagree⟩ := srp_client_server_agree [1, 3] (by decide) 5
    username [9, 8, 7] "pw" "s2k_fo" (.inr rfl) 1000 (by decide)
  refine ⟨client, hclient, ?_⟩
  rw [hpublic] at hagree
  rw [(hagree (wide B) (by decide +kernel) (by decide +kernel) (by decide +kernel)).2]
  decide +kernel

end IMail.Srp
