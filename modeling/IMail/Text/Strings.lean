import Mathlib.Data.List.Basic
import Mathlib.Tactic

/-!
# String operations by characters

Trimming, splitting, substring search and ASCII folding on strings, each defined on
the list of characters so that closed instances evaluate.
-/

namespace Text

/-- The characters with the Unicode `White_Space` property. -/
def isWhitespace (c : Char) : Bool :=
  let n := c.toNat
  (9 ≤ n && n ≤ 13) || n == 32 || n == 0x85 || n == 0xA0 || n == 0x1680 ||
    (0x2000 ≤ n && n ≤ 0x200A) || n == 0x2028 || n == 0x2029 || n == 0x202F ||
    n == 0x205F || n == 0x3000

def trimList (cs : List Char) : List Char :=
  ((cs.dropWhile isWhitespace).reverse.dropWhile isWhitespace).reverse

def trim (s : String) : String := String.ofList (trimList s.toList)

def isBlank (s : String) : Bool := s.toList.all isWhitespace

def beforeNul (cs : List Char) : List Char := cs.takeWhile fun c => c.toNat != 0

/-- Split at every character of `p`; the pieces between adjacent separators are empty. -/
def splitList (p : Char → Bool) : List Char → List (List Char)
  | [] => [[]]
  | c :: cs =>
    if p c then [] :: splitList p cs
    else
      match splitList p cs with
      | [] => [[c]]
      | piece :: pieces => (c :: piece) :: pieces

/-- The piece after the last character of `p`. -/
def lastPiece (p : Char → Bool) (s : String) : String :=
  String.ofList (s.toList.reverse.takeWhile fun c => !p c).reverse

def words (p : Char → Bool) (cs : List Char) : List (List Char) := (splitList p cs).filter (· ≠ [])

def splitWhitespace (s : String) : List String := (words isWhitespace s.toList).map String.ofList

def collapseWhitespace (s : String) : String :=
  String.ofList (List.intercalate [' '] (words isWhitespace s.toList))

def containsList (needle : List Char) : List Char → Bool
  | [] => needle.isEmpty
  | c :: cs => needle.isPrefixOf (c :: cs) || containsList needle cs

def contains (s needle : String) : Bool := containsList needle.toList s.toList

def asciiLower (c : Char) : Char :=
  if 'A'.toNat ≤ c.toNat && c.toNat ≤ 'Z'.toNat then Char.ofNat (c.toNat + 32) else c

def toAsciiLowercase (s : String) : String := String.ofList (s.toList.map asciiLower)

/-- A prefix pattern of SQL's `LIKE`: ASCII letters match in either case. -/
def likePrefix (pattern s : String) : Bool :=
  (pattern.toList.map asciiLower).isPrefixOf (s.toList.map asciiLower)

def eqIgnoreAsciiCase (s t : String) : Bool := s.toList.map asciiLower = t.toList.map asciiLower

/-- Split at the last `sep`. -/
def rsplitOnceList (sep : Char) : List Char → Option (List Char × List Char)
  | [] => none
  | c :: cs =>
    match rsplitOnceList sep cs with
    | some (before, after) => some (c :: before, after)
    | none => if c = sep then some ([], cs) else none

/-- The control characters, general category `Cc`. -/
def isControl (c : Char) : Bool := c.toNat < 32 || (127 ≤ c.toNat && c.toNat < 160)

def isAsciiAlphanumeric (c : Char) : Bool :=
  (48 ≤ c.toNat && c.toNat ≤ 57) || (65 ≤ c.toNat && c.toNat ≤ 90) ||
    (97 ≤ c.toNat && c.toNat ≤ 122)

def utf8Length (cs : List Char) : ℕ := (cs.map Char.utf8Size).sum

def utf16Length (c : Char) : ℕ := if c.toNat < 0x10000 then 1 else 2

/-- The longest prefix of at most `maximum` UTF-16 code units. -/
def truncateUtf16List (maximum : ℕ) : List Char → List Char
  | [] => []
  | c :: cs =>
    if utf16Length c ≤ maximum then c :: truncateUtf16List (maximum - utf16Length c) cs else []

def truncateUtf16 (s : String) (maximum : ℕ) : String :=
  String.ofList (truncateUtf16List maximum s.toList)

/-- `rsplit(sep).next()`: what follows the last separator. -/
def afterLastList (sep : List Char) : List Char → List Char
  | [] => []
  | c :: cs =>
    if containsList sep cs then afterLastList sep cs
    else if sep.isPrefixOf (c :: cs) then (c :: cs).drop sep.length
    else c :: cs

def afterLast (sep s : String) : String := String.ofList (afterLastList sep.toList s.toList)

example : afterLast "/" "[Gmail]/All Mail" = "All Mail" := by decide +kernel
example : afterLast "." "INBOX" = "INBOX" := by decide +kernel

def parseDigits (cs : List Char) : Option ℕ :=
  if cs.isEmpty || !cs.all Char.isDigit then none else some (Nat.ofDigitChars 10 cs 0)

/-- `parse::<u64>` -/
def parseU64 (s : String) : Option ℕ :=
  (parseDigits (if s.toList.head? = some '+' then s.toList.tail else s.toList)).filter
    (· < 2 ^ 64)

/-- `parse::<i64>` -/
def parseI64 (s : String) : Option ℤ :=
  if s.toList.head? = some '-' then
    ((parseDigits s.toList.tail).filter (· ≤ 2 ^ 63)).map fun n => -(n : ℤ)
  else
    ((parseDigits (if s.toList.head? = some '+' then s.toList.tail else s.toList)).filter
      (· < 2 ^ 63)).map fun n => (n : ℤ)

theorem isDigit_of_mem_toString {n : ℕ} {c : Char} (hc : c ∈ (toString n).toList) :
    c.isDigit = true := by
  have hlist : (toString n).toList = Nat.toDigits 10 n := Nat.toList_repr
  rw [hlist] at hc
  exact Nat.isDigit_of_mem_toDigits (by decide) (by decide) hc

theorem head_toString_ne (n : ℕ) {c : Char} (hc : c.isDigit = false) :
    (toString n).toList.head? ≠ some c := by
  intro hhead
  rw [isDigit_of_mem_toString (List.mem_of_mem_head? hhead)] at hc
  cases hc

theorem parseDigits_toString (n : ℕ) : parseDigits (toString n).toList = some n := by
  have hdigits : (toString n).toList.all Char.isDigit = true :=
    List.all_eq_true.mpr fun c hc => isDigit_of_mem_toString hc
  have hlist : (toString n).toList = Nat.toDigits 10 n := Nat.toList_repr
  rw [hlist] at hdigits ⊢
  simp [parseDigits, hdigits, Nat.toDigits_ne_nil, Nat.ofDigitChars_ten_toDigits]

theorem parseU64_toString_filter (n : ℕ) :
    parseU64 (toString n) = (some n).filter (· < 2 ^ 64) := by
  rw [parseU64, if_neg (head_toString_ne n (by decide)), parseDigits_toString]

theorem parseI64_toString {n : ℕ} (h : n < 2 ^ 63) : parseI64 (toString n) = some (n : ℤ) := by
  rw [parseI64, if_neg (head_toString_ne n (by decide)), if_neg (head_toString_ne n (by decide)),
    parseDigits_toString, Option.filter_some, if_pos (decide_eq_true h)]
  rfl

theorem mapM_eq_some {α β : Type*} {f : α → Option β} {g : α → β} {l : List α}
    (h : ∀ a ∈ l, f a = some (g a)) : l.mapM f = some (l.map g) := by
  induction l with
  | nil => rfl
  | cons a l ih =>
    rw [List.mapM_cons, h a List.mem_cons_self, ih fun b hb => h b (List.mem_cons_of_mem _ hb)]
    rfl

theorem mapM_map_of_inverse {α β : Type*} {f : α → β} {g : β → Option α} {l : List α}
    (h : ∀ a ∈ l, g (f a) = some a) : (l.map f).mapM g = some l := by
  rw [List.mapM_map, mapM_eq_some (f := g ∘ f) (g := id) h, List.map_id]

theorem beforeNul_of_free {cs : List Char} (h : ∀ c ∈ cs, c.toNat ≠ 0) : beforeNul cs = cs := by
  induction cs with
  | nil => rfl
  | cons c cs ih =>
    obtain ⟨hc, h⟩ := List.forall_mem_cons.mp h
    rw [beforeNul, List.takeWhile_cons_of_pos (by simpa using hc), ← beforeNul, ih h]

theorem nulFree_beforeNul (cs : List Char) : ∀ c ∈ beforeNul cs, c.toNat ≠ 0 := by
  intro c hc
  have hall := List.all_takeWhile (p := fun c : Char => c.toNat != 0) (l := cs)
  simpa using List.all_eq_true.mp hall c hc

theorem beforeNul_append_of_nul {cs : List Char} (h : ∃ c ∈ cs, c.toNat = 0) (back : List Char) :
    beforeNul (cs ++ back) = beforeNul cs := by
  induction cs with
  | nil => simp at h
  | cons c cs ih =>
    by_cases hc : c.toNat = 0
    · simp [beforeNul, hc]
    · obtain ⟨d, hd, hnul⟩ := h
      obtain rfl | hd := List.mem_cons.mp hd
      · exact absurd hnul hc
      · have hrest := ih ⟨d, hd, hnul⟩
        rw [beforeNul] at hrest
        simp [beforeNul, hc, hrest]

section

variable {p : Char → Bool} {cs piece word : List Char} {pieces : List (List Char)}

theorem exists_splitList (p : Char → Bool) (cs : List Char) :
    ∃ piece pieces, splitList p cs = piece :: pieces := by
  rcases cs with _ | ⟨c, cs⟩
  · exact ⟨[], [], rfl⟩
  · rw [splitList]
    split
    · exact ⟨_, _, rfl⟩
    · split <;> exact ⟨_, _, rfl⟩

theorem words_append_separator {c : Char} (hc : p c = true) (cs : List Char) :
    words p (cs ++ [c]) = words p cs := by
  have hsplit : splitList p (cs ++ [c]) = splitList p cs ++ [[]] := by
    induction cs with
    | nil => simp [splitList, hc]
    | cons d cs ih =>
      simp only [List.cons_append, splitList, ih]
      obtain ⟨piece, pieces, hcs⟩ := exists_splitList p cs
      split_ifs
      · rfl
      · simp [hcs]
  simp [words, hsplit]

theorem splitList_eq_cons (h : splitList p cs = piece :: pieces) :
    ∃ rest, cs = piece ++ rest ∧ (∀ c ∈ piece, p c = false) ∧ (∀ c ∈ rest.head?, p c = true) ∧
      words p rest = pieces.filter (· ≠ []) := by
  induction cs generalizing piece pieces with
  | nil =>
    cases h
    exact ⟨[], rfl, by simp, by simp, rfl⟩
  | cons c cs ih =>
    by_cases hc : p c = true
    · rw [splitList, if_pos hc] at h
      cases h
      exact ⟨c :: cs, rfl, by simp, by simpa using hc, by simp [words, splitList, hc]⟩
    · rw [splitList, if_neg hc] at h
      obtain ⟨first, others, hcs⟩ := exists_splitList p cs
      rw [hcs] at h
      cases h
      obtain ⟨rest, rfl, hfree, hhead, hrest⟩ := ih hcs
      exact ⟨rest, rfl, by simpa using ⟨by simpa using hc, hfree⟩, hhead, hrest⟩

theorem words_append (hfree : ∀ c ∈ word, p c = false) (hne : word ≠ []) {rest : List Char}
    (hrest : ∀ c ∈ rest.head?, p c = true) : words p (word ++ rest) = word :: words p rest := by
  obtain ⟨others, hothers⟩ : ∃ others, splitList p rest = [] :: others := by
    rcases rest with _ | ⟨c, rest⟩
    · exact ⟨[], rfl⟩
    · exact ⟨_, by rw [splitList, if_pos (hrest c (by simp))]⟩
  have hsplit : splitList p (word ++ rest) = word :: others := by
    clear hne
    induction word with
    | nil => exact hothers
    | cons c word ih =>
      obtain ⟨hc, hfree⟩ := List.forall_mem_cons.mp hfree
      simp [splitList, hc, ih hfree]
  simp [words, hsplit, hothers, hne]

theorem words_eq_cons {others : List (List Char)} : words p cs = word :: others ↔
    ∃ lead rest, cs = lead ++ word ++ rest ∧ (∀ c ∈ lead, p c = true) ∧ word ≠ [] ∧
      (∀ c ∈ word, p c = false) ∧ (∀ c ∈ rest.head?, p c = true) ∧ words p rest = others := by
  have hskip : ∀ c cs, p c = true → words p (c :: cs) = words p cs := fun c cs hc => by
    simp [words, splitList, hc]
  constructor
  · intro h
    induction cs with
    | nil => simp [words, splitList] at h
    | cons c cs ih =>
      by_cases hc : p c = true
      · obtain ⟨lead, rest, rfl, hlead, hword⟩ := ih (hskip c cs hc ▸ h)
        exact ⟨c :: lead, rest, rfl, List.forall_mem_cons.mpr ⟨hc, hlead⟩, hword⟩
      · obtain ⟨piece, pieces, hcs⟩ := exists_splitList p cs
        have hsplit : splitList p (c :: cs) = (c :: piece) :: pieces := by simp [splitList, hc, hcs]
        obtain ⟨rest, heq, hfree, hhead, hrest⟩ := splitList_eq_cons hsplit
        simp only [words, hsplit] at h
        cases h
        exact ⟨[], rest, heq, by simp, by simp, hfree, hhead, hrest⟩
  · rintro ⟨lead, rest, rfl, hlead, hne, hfree, hhead, rfl⟩
    induction lead with
    | nil => exact words_append hfree hne hhead
    | cons c lead ih =>
      obtain ⟨hc, hlead⟩ := List.forall_mem_cons.mp hlead
      exact (hskip c _ hc).trans (ih hlead)

end

end Text
