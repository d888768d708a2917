import Mathlib.Data.List.Basic
import Mathlib.Tactic

/-!
# JSON strings

How `serde_json` writes a string, and a reader for what it writes. The closing quote is the first
one that is not escaped, so what follows it can be anything.
-/

namespace Text

def hexDigit (n : ℕ) : Char := "0123456789abcdef".toList.getD n '0'

def hexValue (c : Char) : Option ℕ := "0123456789abcdef".toList.idxOf? c

def escapeJsonChar (c : Char) : List Char :=
  if c = '"' then ['\\', '"']
  else if c = '\\' then ['\\', '\\']
  else if c = '\x08' then ['\\', 'b']
  else if c = '\x0c' then ['\\', 'f']
  else if c = '\n' then ['\\', 'n']
  else if c = '\r' then ['\\', 'r']
  else if c = '\t' then ['\\', 't']
  else if c.toNat < 32 then ['\\', 'u', '0', '0', hexDigit (c.toNat / 16), hexDigit (c.toNat % 16)]
  else [c]

def escapeJson (cs : List Char) : List Char := cs.flatMap escapeJsonChar

def unescapeJsonChar : Char → Option Char
  | '"' => some '"'
  | '\\' => some '\\'
  | 'b' => some '\x08'
  | 'f' => some '\x0c'
  | 'n' => some '\n'
  | 'r' => some '\r'
  | 't' => some '\t'
  | _ => none

/-- Read up to the closing quote; what was read, and what follows the quote. -/
def readJsonString : List Char → Option (List Char × List Char)
  | [] => none
  | '"' :: rest => some ([], rest)
  | '\\' :: 'u' :: '0' :: '0' :: high :: low :: rest =>
    match hexValue high, hexValue low with
    | some h, some l =>
      (readJsonString rest).map fun (cs, rest) => (Char.ofNat (16 * h + l) :: cs, rest)
    | _, _ => none
  | '\\' :: e :: rest =>
    match unescapeJsonChar e with
    | some c => (readJsonString rest).map fun (cs, rest) => (c :: cs, rest)
    | none => none
  | c :: rest => (readJsonString rest).map fun (cs, rest) => (c :: cs, rest)

theorem readJsonString_plain {c : Char} (hquote : c ≠ '"') (hslash : c ≠ '\\') (rest : List Char) :
    readJsonString (c :: rest) = (readJsonString rest).map fun (cs, rest) => (c :: cs, rest) := by
  rw [readJsonString]
  · intro h
    exact absurd h hquote
  · intro _ _ _ h
    exact absurd h hslash
  · intro _ _ h
    exact absurd h hslash

theorem readJsonString_control {c : Char} (h : c.toNat < 32) (rest : List Char) :
    readJsonString
        ('\\' :: 'u' :: '0' :: '0' :: hexDigit (c.toNat / 16) :: hexDigit (c.toNat % 16) :: rest) =
      (readJsonString rest).map fun (cs, rest) => (c :: cs, rest) := by
  have hc : c = Char.ofNat c.toNat := (Char.ofNat_toNat c).symm
  generalize c.toNat = n at h hc
  subst hc
  interval_cases n <;> rfl

theorem readJsonString_escapeChar (c : Char) (rest : List Char) :
    readJsonString (escapeJsonChar c ++ rest) =
      (readJsonString rest).map fun (cs, rest) => (c :: cs, rest) := by
  unfold escapeJsonChar
  split_ifs with hquote hslash hb hf hn hr ht hcontrol
  · subst hquote
    rfl
  · subst hslash
    rfl
  · subst hb
    rfl
  · subst hf
    rfl
  · subst hn
    rfl
  · subst hr
    rfl
  · subst ht
    rfl
  · exact readJsonString_control hcontrol rest
  · exact readJsonString_plain hquote hslash rest

theorem readJsonString_escape (cs rest : List Char) :
    readJsonString (escapeJson cs ++ '"' :: rest) = some (cs, rest) := by
  induction cs with
  | nil => rfl
  | cons c cs ih =>
    rw [escapeJson, List.flatMap_cons, List.append_assoc, readJsonString_escapeChar]
    change (readJsonString (escapeJson cs ++ '"' :: rest)).map _ = _
    rw [ih]
    rfl

end Text
