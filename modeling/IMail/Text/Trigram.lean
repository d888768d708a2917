import IMail.Text.Strings

/-!
# Phrases of trigrams

A text is indexed by its sequences of three characters, after folding; a phrase is found where its
trigrams stand one after the other. A phrase comes as a quoted string, with every quote in it
doubled.
-/

namespace Text

def doubleQuotes (cs : List Char) : List Char :=
  cs.flatMap fun c => if c = '"' then ['"', '"'] else [c]

def unquoteRest : List Char → Option (List Char)
  | ['"'] => some []
  | '"' :: '"' :: cs => (unquoteRest cs).map ('"' :: ·)
  | '"' :: _ => none
  | c :: cs => (unquoteRest cs).map (c :: ·)
  | [] => none

def unquote : List Char → Option (List Char)
  | '"' :: cs => unquoteRest cs
  | _ => none

theorem unquoteRest_doubleQuotes (cs : List Char) :
    unquoteRest (doubleQuotes cs ++ ['"']) = some cs := by
  induction cs with
  | nil => rfl
  | cons c cs ih =>
    rw [doubleQuotes, List.flatMap_cons, ← doubleQuotes]
    by_cases hc : c = '"'
    · rw [if_pos hc, hc]
      simp only [List.cons_append, List.nil_append, unquoteRest, ih, Option.map_some]
    · rw [if_neg hc]
      simp only [List.cons_append, List.nil_append]
      rw [unquoteRest.eq_4 c _ (by simp [hc]) (by simp [hc]) (by simp [hc]), ih, Option.map_some]

theorem unquote_quoted (cs : List Char) : unquote ('"' :: doubleQuotes cs ++ ['"']) = some cs :=
  unquoteRest_doubleQuotes cs

section

variable {α : Type*}

def trigrams : List α → List (α × α × α)
  | a :: b :: c :: cs => (a, b, c) :: trigrams (b :: c :: cs)
  | _ => []

theorem trigrams_cons_suffix (a : α) (cs : List α) : trigrams cs <:+ trigrams (a :: cs) := by
  match cs with
  | [] => exact List.nil_suffix
  | [_] => exact List.nil_suffix
  | _ :: _ :: _ => exact List.suffix_cons _ _

theorem trigrams_append_suffix (front cs : List α) :
    trigrams cs <:+ trigrams (front ++ cs) := by
  induction front with
  | nil => exact List.suffix_rfl
  | cons a front ih => exact ih.trans (trigrams_cons_suffix a _)

theorem trigrams_append_front (cs back : List α) :
    trigrams cs <+: trigrams (cs ++ back) := by
  induction cs with
  | nil => exact List.nil_prefix
  | cons a cs ih =>
    match cs with
    | [] => exact List.nil_prefix
    | [_] => exact List.nil_prefix
    | b :: c :: cs =>
      simp only [List.cons_append, trigrams] at ih ⊢
      exact List.prefix_cons_inj _ |>.mpr ih

theorem trigrams_infix {part cs : List α} (h : part <:+: cs) : trigrams part <:+: trigrams cs := by
  obtain ⟨front, back, rfl⟩ := h
  exact (trigrams_append_suffix front part).isInfix.trans (trigrams_append_front _ back).isInfix

theorem trigrams_ne_nil {cs : List α} (h : 3 ≤ cs.length) : trigrams cs ≠ [] := by
  match cs with
  | [] => simp at h
  | [_] => simp at h
  | [_, _] => simp at h
  | _ :: _ :: _ :: _ => simp [trigrams]

end

/-- The characters that are indexed, up to a NUL, where the tokenizer stops. -/
def indexed (fold : Char → Char) (cs : List Char) : List Char := (beforeNul cs).map fold

def phraseMatch (fold : Char → Char) (phrase text : List Char) : Bool :=
  let tokens := trigrams (indexed fold phrase)
  !tokens.isEmpty && decide (tokens <:+: trigrams (indexed fold text))

theorem containsList_iff {needle cs : List Char} :
    containsList needle cs = true ↔ needle <:+: cs := by
  induction cs with
  | nil => simp [containsList]
  | cons c cs ih =>
    rw [containsList, Bool.or_eq_true, ih, List.infix_cons_iff, List.isPrefixOf_iff_prefix]

theorem mem_of_mem_trimList {cs : List Char} {c : Char} (h : c ∈ trimList cs) : c ∈ cs := by
  rw [trimList, List.mem_reverse] at h
  have hfront := (List.dropWhile_sublist _).subset h
  rw [List.mem_reverse] at hfront
  exact (List.dropWhile_sublist _).subset hfront

/-- A phrase of at least three characters is found in every text that has it, up to ASCII case, if
the text has no NUL. -/
theorem phraseMatch_of_contains {fold : Char → Char} (hfold : ∀ c, fold (asciiLower c) = fold c)
    {phrase text : List Char} (hlong : 3 ≤ phrase.length) (hphrase : ∀ c ∈ phrase, c.toNat ≠ 0)
    (htext : ∀ c ∈ text, c.toNat ≠ 0)
    (h : containsList (phrase.map asciiLower) (text.map asciiLower) = true) :
    phraseMatch fold phrase text = true := by
  have hlower : ∀ cs : List Char, (cs.map asciiLower).map fold = cs.map fold := fun cs => by
    rw [List.map_map, funext (f := fold ∘ asciiLower) hfold]
  have hinfix : phrase.map fold <:+: text.map fold := by
    rw [← hlower phrase, ← hlower text]
    exact (containsList_iff.mp h).map fold
  have htokens : trigrams (phrase.map fold) ≠ [] := trigrams_ne_nil (by rwa [List.length_map])
  simp only [phraseMatch, indexed, beforeNul_of_free hphrase, beforeNul_of_free htext,
    Bool.and_eq_true, Bool.not_eq_true', List.isEmpty_eq_false_iff, decide_eq_true_iff]
  exact ⟨htokens, trigrams_infix hinfix⟩

end Text
