import IMail.Text.Strings

/-!
# Unpadded base64 and UTF-16

The strict decoder of unpadded standard base64 (a final group of one character and
non-zero trailing bits are both rejected) and the decoder of big-endian UTF-16. UTF-16 and the
URL-safe alphabet have an encoder too, which the decoder inverts.
-/

namespace Text

def base64Value (c : Char) : Option ℕ :=
  let n := c.toNat
  if 65 ≤ n ∧ n ≤ 90 then some (n - 65)
  else if 97 ≤ n ∧ n ≤ 122 then some (n - 71)
  else if 48 ≤ n ∧ n ≤ 57 then some (n + 4)
  else if c = '+' then some 62
  else if c = '/' then some 63
  else none

/-- Decode groups of four sextets; a final group of two or three must leave its
unused bits zero. -/
def base64Groups : List ℕ → Option (List ℕ)
  | [] => some []
  | [_] => none
  | [a, b] => if b % 16 = 0 then some [a * 4 + b / 16] else none
  | [a, b, c] =>
    if c % 4 = 0 then some [a * 4 + b / 16, b % 16 * 16 + c / 4] else none
  | a :: b :: c :: d :: rest =>
    (base64Groups rest).map fun bytes =>
      (a * 4 + b / 16) :: (b % 16 * 16 + c / 4) :: (c % 4 * 64 + d) :: bytes

def base64DecodeNoPad (cs : List Char) : Option (List ℕ) :=
  (cs.mapM base64Value).bind base64Groups

/-- Pair bytes into big-endian code units; an odd length has no reading. -/
def utf16Units : List ℕ → Option (List ℕ)
  | [] => some []
  | [_] => none
  | a :: b :: rest => (utf16Units rest).map fun units => (a * 256 + b) :: units

def utf16Decode : List ℕ → Option (List Char)
  | [] => some []
  | u :: rest =>
    if u < 0xD800 ∨ 0xE000 ≤ u then (utf16Decode rest).map (Char.ofNat u :: ·)
    else if u < 0xDC00 then
      match rest with
      | [] => none
      | v :: rest =>
        if 0xDC00 ≤ v ∧ v < 0xE000 then
          (utf16Decode rest).map
            (Char.ofNat (0x10000 + (u - 0xD800) * 0x400 + (v - 0xDC00)) :: ·)
        else none
    else none

def base64Sextets : List ℕ → List ℕ
  | [] => []
  | [a] => [a / 4, a % 4 * 16]
  | [a, b] => [a / 4, a % 4 * 16 + b / 16, b % 16 * 4]
  | a :: b :: c :: rest =>
    a / 4 :: (a % 4 * 16 + b / 16) :: (b % 16 * 4 + c / 64) :: c % 64 :: base64Sextets rest

def base64UrlAlphabet : List Char :=
  "ABCDEFGHIJKLMNOPQRSTUVWXYZabcdefghijklmnopqrstuvwxyz0123456789-_".toList

def base64UrlChar (n : ℕ) : Char := base64UrlAlphabet.getD n 'A'

def base64UrlValue (c : Char) : Option ℕ := base64UrlAlphabet.idxOf? c

/-- `URL_SAFE_NO_PAD.encode` -/
def base64UrlEncode (bytes : List UInt8) : String :=
  String.ofList ((base64Sextets (bytes.map UInt8.toNat)).map base64UrlChar)

/-- `URL_SAFE_NO_PAD.decode` -/
def base64UrlDecode (s : String) : Option (List UInt8) :=
  ((s.toList.mapM base64UrlValue).bind base64Groups).map (·.map UInt8.ofNat)

variable {bytes sextets : List ℕ} {cs : List Char}

theorem base64Sextets_lt (h : ∀ b ∈ bytes, b < 256) : ∀ s ∈ base64Sextets bytes, s < 64 := by
  induction bytes using base64Sextets.induct with
  | case1 => simp [base64Sextets]
  | case2 a | case3 a b =>
    simp only [base64Sextets, List.forall_mem_cons, List.not_mem_nil, false_imp_iff, implies_true,
      and_true] at h ⊢
    omega
  | case4 a b c rest ih =>
    simp only [base64Sextets, List.forall_mem_cons] at h ⊢
    obtain ⟨ha, hb, hc, hrest⟩ := h
    exact ⟨by omega, by omega, by omega, by omega, ih hrest⟩

theorem base64Groups_sextets (h : ∀ b ∈ bytes, b < 256) :
    base64Groups (base64Sextets bytes) = some bytes := by
  induction bytes using base64Sextets.induct with
  | case1 => rfl
  | case2 a | case3 a b =>
    simp only [List.forall_mem_cons] at h
    simp only [base64Sextets, base64Groups, Nat.mul_mod_left, if_true, Option.some.injEq,
      List.cons.injEq, and_true]
    omega
  | case4 a b c rest ih =>
    simp only [List.forall_mem_cons] at h
    obtain ⟨ha, hb, hc, hrest⟩ := h
    rw [base64Sextets, base64Groups, ih hrest]
    simp only [Option.map_some, Option.some.injEq, List.cons.injEq, and_true]
    omega

theorem base64UrlValue_char {n : ℕ} (h : n < 64) : base64UrlValue (base64UrlChar n) = some n := by
  interval_cases n <;> decide

theorem base64UrlDecode_encode (bytes : List UInt8) :
    base64UrlDecode (base64UrlEncode bytes) = some bytes := by
  have hbytes : ∀ b ∈ bytes.map UInt8.toNat, b < 256 := by
    intro b hb
    obtain ⟨byte, _, rfl⟩ := List.mem_map.mp hb
    exact byte.toNat_lt
  have hback : (bytes.map UInt8.toNat).map UInt8.ofNat = bytes := by
    rw [List.map_map]
    apply List.map_id''
    intro byte
    exact UInt8.ofNat_toNat
  rw [base64UrlDecode, base64UrlEncode, String.toList_ofList,
    mapM_map_of_inverse fun n hn => base64UrlValue_char (base64Sextets_lt hbytes n hn),
    Option.bind_some, base64Groups_sextets hbytes, Option.map_some, hback]

theorem isSome_of_mapM {α β : Type*} {g : β → Option α} {l : List β} {b : β}
    (h : (l.mapM g).isSome) (hb : b ∈ l) : (g b).isSome := by
  induction l with
  | nil => cases hb
  | cons c l ih =>
    rw [List.mapM_cons] at h
    cases hc : g c with
    | none => simp [hc] at h
    | some a =>
      rcases List.mem_cons.mp hb with rfl | hb
      · simp [hc]
      · refine ih ?_ hb
        cases hl : l.mapM g <;> simp_all

def utf16Encode : List Char → List ℕ
  | [] => []
  | c :: cs =>
    if c.toNat < 0x10000 then c.toNat :: utf16Encode cs
    else (0xD800 + (c.toNat - 0x10000) / 0x400) :: (0xDC00 + (c.toNat - 0x10000) % 0x400) ::
      utf16Encode cs

def utf16Bytes (units : List ℕ) : List ℕ := units.flatMap fun u => [u / 256, u % 256]

theorem utf16Units_bytes (units : List ℕ) : utf16Units (utf16Bytes units) = some units := by
  induction units with
  | nil => rfl
  | cons u units ih =>
    change (utf16Units (utf16Bytes units)).map _ = _
    rw [ih, Option.map_some, Nat.div_add_mod']

theorem toNat_valid (c : Char) : c.toNat < 0xD800 ∨ (0xDFFF < c.toNat ∧ c.toNat < 0x110000) :=
  c.valid

theorem utf16Decode_encode (cs : List Char) : utf16Decode (utf16Encode cs) = some cs := by
  induction cs with
  | nil => rfl
  | cons c cs ih =>
    have hvalid := toNat_valid c
    rw [utf16Encode]
    split
    · rw [utf16Decode.eq_def]
      simp only
      rw [if_pos (by omega), ih, Char.ofNat_toNat]
      rfl
    · rw [utf16Decode.eq_def]
      simp only
      have hback : 0x10000 + (0xD800 + (c.toNat - 0x10000) / 0x400 - 0xD800) * 0x400 +
          (0xDC00 + (c.toNat - 0x10000) % 0x400 - 0xDC00) = c.toNat := by omega
      rw [if_neg (by omega), if_pos (by omega), if_pos (by omega), ih, hback, Char.ofNat_toNat]
      rfl

theorem utf16Bytes_encode_lt (cs : List Char) : ∀ b ∈ utf16Bytes (utf16Encode cs), b < 256 := by
  induction cs with
  | nil => simp [utf16Encode, utf16Bytes]
  | cons c cs ih =>
    have hvalid := toNat_valid c
    unfold utf16Bytes at ih ⊢
    rw [utf16Encode]
    split <;>
      simp only [List.flatMap_cons, List.cons_append, List.nil_append, List.forall_mem_cons] <;>
      refine ⟨by omega, by omega, ?_⟩
    · exact ih
    · exact ⟨by omega, by omega, ih⟩

theorem base64Groups_length (h : base64Groups sextets = some bytes) :
    bytes.length ≤ sextets.length := by
  induction sextets using base64Groups.induct generalizing bytes with
  | case1 =>
    cases h
    rfl
  | case2 => cases h
  | case3 a b hb =>
    rw [base64Groups, if_pos hb] at h
    cases h
    simp
  | case4 a b hb =>
    rw [base64Groups, if_neg hb] at h
    cases h
  | case5 a b c hc =>
    rw [base64Groups, if_pos hc] at h
    cases h
    simp
  | case6 a b c hc =>
    rw [base64Groups, if_neg hc] at h
    cases h
  | case7 a b c d rest ih =>
    rw [base64Groups] at h
    obtain ⟨tail, htail, rfl⟩ := Option.map_eq_some_iff.mp h
    have := ih htail
    simp only [List.length_cons]
    omega

theorem length_mapM_base64Value (h : cs.mapM base64Value = some sextets) :
    sextets.length = cs.length := by
  induction cs generalizing sextets with
  | nil =>
    cases h
    rfl
  | cons c cs ih =>
    rw [List.mapM_cons] at h
    obtain ⟨value, _, h⟩ := Option.bind_eq_some_iff.mp h
    obtain ⟨rest, hrest, h⟩ := Option.bind_eq_some_iff.mp h
    cases h
    rw [List.length_cons, List.length_cons, ih hrest]

theorem base64DecodeNoPad_length (h : base64DecodeNoPad cs = some bytes) :
    bytes.length ≤ cs.length := by
  obtain ⟨sextets, hsextets, hgroups⟩ := Option.bind_eq_some_iff.mp h
  have hlength := length_mapM_base64Value hsextets
  have hbytes := base64Groups_length hgroups
  omega

theorem utf16Units_length {units : List ℕ} (h : utf16Units bytes = some units) :
    units.length ≤ bytes.length := by
  induction bytes using utf16Units.induct generalizing units with
  | case1 =>
    cases h
    rfl
  | case2 => cases h
  | case3 a b rest ih =>
    rw [utf16Units] at h
    obtain ⟨tail, htail, rfl⟩ := Option.map_eq_some_iff.mp h
    have := ih htail
    simp only [List.length_cons]
    omega

theorem utf16Decode_length {units : List ℕ} (h : utf16Decode units = some cs) :
    cs.length ≤ units.length := by
  fun_induction utf16Decode units generalizing cs with
  | case1 =>
    cases h
    rfl
  | case3 | case5 | case6 => cases h
  | case2 u rest hu ih | case4 u hu hhigh v rest hlow ih =>
    obtain ⟨tail, htail, rfl⟩ := Option.map_eq_some_iff.mp h
    have := ih htail
    simp only [List.length_cons]
    omega

end Text
