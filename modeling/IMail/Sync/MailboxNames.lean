import IMail.Sync.Targets

/-!
# Names in modified UTF-7

`decode_modified_utf7` against the encoding of RFC 3501. What is encoded is decoded again. A text
that is decoded need not be well-formed: the decoder writes `/` for `,` before it reads a section
as base64, so that a `/` that stands in the section itself is read as well.
-/

namespace IMail

open Text

def modifiedBase64Alphabet : List Char :=
  "ABCDEFGHIJKLMNOPQRSTUVWXYZabcdefghijklmnopqrstuvwxyz0123456789+,".toList

def modifiedBase64Char (n : ℕ) : Char := modifiedBase64Alphabet.getD n 'A'

/-- What stands between `&` and `-` for a run of characters; for `&` itself nothing does. -/
def encodeSection (run : List Char) : List Char :=
  (base64Sextets (utf16Bytes (utf16Encode run))).map modifiedBase64Char

def isPrintableAscii (c : Char) : Bool := 0x20 ≤ c.toNat && c.toNat ≤ 0x7E

def encodeRun (run : List Char) : List Char :=
  if run.isEmpty then [] else '&' :: encodeSection run ++ ['-']

/-- `run` is what has been read of the current run of other characters. -/
def encodeModifiedUtf7List : List Char → List Char → List Char
  | run, [] => encodeRun run
  | run, c :: cs =>
    if isPrintableAscii c then
      encodeRun run ++ (if c = '&' then ['&', '-'] else [c]) ++ encodeModifiedUtf7List [] cs
    else encodeModifiedUtf7List (run ++ [c]) cs

def encodeModifiedUtf7 (s : String) : String :=
  String.ofList (encodeModifiedUtf7List [] s.toList)

example : encodeModifiedUtf7 "~腾讯&" = "~&gX6Lrw-&-" := by decide +kernel

/-- The sections of a text, each from a `&` to the next `-`; there are none if one is not ended.
`encoding` is the section that is open. -/
def shiftSections : Option (List Char) → List Char → Option (List (List Char))
  | none, [] => some []
  | some _, [] => none
  | none, c :: cs => if c = '&' then shiftSections (some []) cs else shiftSections none cs
  | some encoding, c :: cs =>
    if c = '-' then (shiftSections none cs).map (encoding :: ·)
    else shiftSections (some (encoding ++ [c])) cs

/-- A shift sequence: letters of the alphabet, which are strict base64 of UTF-16 text. -/
def WellFormedSection (sect : List Char) : Prop :=
  (∀ c ∈ sect, c ∈ modifiedBase64Alphabet) ∧ (decodeSection sect).isSome

/-- Every `&` of the text begins a well-formed shift sequence. -/
def WellShifted (value : String) : Prop :=
  ∃ sections, shiftSections none value.toList = some sections ∧
    ∀ sect ∈ sections, WellFormedSection sect

theorem base64Value_modified {n : ℕ} (h : n < 64) :
    base64Value (if modifiedBase64Char n = ',' then '/' else modifiedBase64Char n) = some n ∧
      modifiedBase64Char n ≠ '-' := by
  interval_cases n <;> decide

theorem mem_alphabet_of_base64Value {c : Char} (hc : c ≠ '/')
    (h : (base64Value (if c = ',' then '/' else c)).isSome) : c ∈ modifiedBase64Alphabet := by
  have hascii : c.toNat < 128 := by
    by_contra hlarge
    have hcomma : c ≠ ',' := fun heq => hlarge (heq ▸ by decide)
    have hplus : c ≠ '+' := fun heq => hlarge (heq ▸ by decide)
    simp only [base64Value, hcomma, hplus, hc, if_false] at h
    split_ifs at h <;> first | omega | cases h
  have htable : ∀ m < 128, Char.ofNat m ≠ '/' →
      (base64Value (if Char.ofNat m = ',' then '/' else Char.ofNat m)).isSome →
        Char.ofNat m ∈ modifiedBase64Alphabet := by decide +kernel
  simpa only [Char.ofNat_toNat] using htable c.toNat hascii (by rwa [Char.ofNat_toNat])
    (by rwa [Char.ofNat_toNat])

theorem decodeSection_encode {run : List Char} (h : run ≠ []) :
    decodeSection (encodeSection run) = some run := by
  have hbytes := utf16Bytes_encode_lt run
  have hread : (((base64Groups (base64Sextets (utf16Bytes (utf16Encode run)))).bind utf16Units).bind
      utf16Decode) = some run := by
    rw [base64Groups_sextets hbytes, Option.bind_some, utf16Units_bytes, Option.bind_some,
      utf16Decode_encode]
  have hne : encodeSection run ≠ [] := by
    intro hempty
    rw [List.map_eq_nil_iff.mp hempty] at hread
    exact h (Option.some.inj hread).symm
  rw [decodeSection, if_neg (by simpa using hne), encodeSection, List.map_map, base64DecodeNoPad,
    mapM_map_of_inverse, Option.bind_some, ← hread, Option.bind_assoc]
  intro n hn
  exact (base64Value_modified (base64Sextets_lt hbytes n hn)).1

theorem decodeModifiedUtf7List_section {sect : List Char} (hsect : '-' ∉ sect)
    (encoding rest : List Char) :
    decodeModifiedUtf7List (some encoding) (sect ++ '-' :: rest) =
      (decodeSection (encoding ++ sect)).bind fun decoded =>
        (decodeModifiedUtf7List none rest).map (decoded ++ ·) := by
  induction sect generalizing encoding with
  | nil => simp [decodeModifiedUtf7List]
  | cons c sect ih =>
    obtain ⟨hc, hsect⟩ := not_or.mp (mt List.mem_cons.mpr hsect)
    rw [List.cons_append, decodeModifiedUtf7List, if_neg fun heq => hc heq.symm, ih hsect,
      List.append_assoc, List.singleton_append]

theorem decodeModifiedUtf7List_encodeRun (run rest : List Char) :
    decodeModifiedUtf7List none (encodeRun run ++ rest) =
      (decodeModifiedUtf7List none rest).map (run ++ ·) := by
  have hsect : '-' ∉ encodeSection run := by
    intro hmem
    obtain ⟨n, hn, heq⟩ := List.mem_map.mp hmem
    exact (base64Value_modified (base64Sextets_lt (utf16Bytes_encode_lt run) n hn)).2 heq
  unfold encodeRun
  split
  case isTrue hempty => simp [List.isEmpty_iff.mp hempty]
  case isFalse hne =>
    rw [List.append_assoc, List.cons_append, decodeModifiedUtf7List, if_pos rfl,
      List.singleton_append, decodeModifiedUtf7List_section hsect, List.nil_append,
      decodeSection_encode (by simpa using hne), Option.bind_some]

theorem decodeModifiedUtf7List_encode (run cs : List Char) :
    decodeModifiedUtf7List none (encodeModifiedUtf7List run cs) = some (run ++ cs) := by
  induction cs generalizing run with
  | nil =>
    rw [encodeModifiedUtf7List, ← List.append_nil (encodeRun run),
      decodeModifiedUtf7List_encodeRun]
    rfl
  | cons c cs ih =>
    rw [encodeModifiedUtf7List]
    split
    · rw [List.append_assoc, decodeModifiedUtf7List_encodeRun]
      split
      case isTrue hc =>
        subst hc
        simp [decodeModifiedUtf7List, decodeSection, ih]
      case isFalse hc => simp [decodeModifiedUtf7List, hc, ih]
    · rw [ih, List.append_assoc, List.singleton_append]

theorem sections_decoded {encoding : Option (List Char)} {cs decoded : List Char}
    (h : decodeModifiedUtf7List encoding cs = some decoded) :
    ∃ sections, shiftSections encoding cs = some sections ∧
      ∀ sect ∈ sections, (decodeSection sect).isSome := by
  induction encoding, cs using decodeModifiedUtf7List.induct generalizing decoded with
  | case1 => exact ⟨[], rfl, by simp⟩
  | case2 => cases h
  | case3 cs ih =>
    rw [decodeModifiedUtf7List, if_pos rfl] at h
    rw [shiftSections, if_pos rfl]
    exact ih h
  | case4 c cs hc ih =>
    rw [decodeModifiedUtf7List, if_neg hc] at h
    obtain ⟨rest, hrest, -⟩ := Option.map_eq_some_iff.mp h
    rw [shiftSections, if_neg hc]
    exact ih hrest
  | case5 encoding cs ih =>
    rw [decodeModifiedUtf7List, if_pos rfl] at h
    obtain ⟨front, hfront, h⟩ := Option.bind_eq_some_iff.mp h
    obtain ⟨rest, hrest, -⟩ := Option.map_eq_some_iff.mp h
    obtain ⟨sections, hsections, hall⟩ := ih hrest
    refine ⟨encoding :: sections, by simp [shiftSections, hsections], ?_⟩
    exact List.forall_mem_cons.mpr ⟨by simp [hfront], hall⟩
  | case6 encoding c cs hc ih =>
    rw [decodeModifiedUtf7List, if_neg hc] at h
    rw [shiftSections, if_neg hc]
    exact ih h

theorem wellFormedSection_iff {sect : List Char} (h : (decodeSection sect).isSome) :
    WellFormedSection sect ↔ '/' ∉ sect := by
  refine ⟨fun hwell hslash => absurd (hwell.1 _ hslash) (by decide), fun hslash => ⟨?_, h⟩⟩
  intro c hc
  rw [decodeSection, if_neg (by simpa using List.ne_nil_of_mem hc), base64DecodeNoPad,
    List.mapM_map] at h
  apply mem_alphabet_of_base64Value fun heq => hslash (heq ▸ hc)
  refine isSome_of_mapM (g := fun c => base64Value (if c = ',' then '/' else c)) ?_ hc
  by_contra hnone
  rw [Option.not_isSome_iff_eq_none] at hnone
  simp [Function.comp_def, hnone] at h

/-- The decoder inverts the encoding; and every `&` of a text that it accepts begins a well-formed
shift sequence exactly if no section has a `/` in it, which the decoder takes for a `,`. -/
theorem modifiedUtf7_inverted (s : String) {value decoded : String}
    (h : decodeModifiedUtf7 value = some decoded) :
    decodeModifiedUtf7 (encodeModifiedUtf7 s) = some s ∧
      ∃ sections, shiftSections none value.toList = some sections ∧
        (WellShifted value ↔ ∀ sect ∈ sections, '/' ∉ sect) := by
  obtain ⟨cs, hcs, _⟩ := Option.map_eq_some_iff.mp h
  obtain ⟨sections, hsections, hall⟩ := sections_decoded hcs
  refine ⟨?_, sections, hsections, ?_⟩
  · rw [decodeModifiedUtf7, encodeModifiedUtf7, String.toList_ofList,
      decodeModifiedUtf7List_encode, List.nil_append, Option.map_some, String.ofList_toList]
  · simp only [WellShifted, hsections, Option.some.injEq, exists_eq_left']
    exact forall₂_congr fun sect hsect => wellFormedSection_iff (hall sect hsect)

theorem modifiedUtf7_inverted_comma : decodeModifiedUtf7 "&,wE-" = some "！" ∧
    ∃ sections, shiftSections none "&,wE-".toList = some sections ∧
      (WellShifted "&,wE-" ↔ ∀ sect ∈ sections, '/' ∉ sect) := by
  have h : decodeModifiedUtf7 "&,wE-" = some "！" := by decide +kernel
  exact ⟨h, (modifiedUtf7_inverted "！" h).2⟩

/-- A `/` is accepted where the encoding has a `,`. -/
theorem slash_accepted : decodeModifiedUtf7 "&/wE-" = some "！" ∧ ¬WellShifted "&/wE-" := by
  refine ⟨by decide +kernel, ?_⟩
  rintro ⟨sections, hsections, hwell⟩
  have hsect : shiftSections none "&/wE-".toList = some ["/wE".toList] := by decide
  rw [hsect, Option.some.injEq] at hsections
  subst hsections
  exact absurd ((hwell _ List.mem_cons_self).1 '/' (by decide)) (by decide)

end IMail
