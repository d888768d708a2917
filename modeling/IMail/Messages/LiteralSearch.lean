import IMail.Messages.Queries
import IMail.Text.Trigram

/-!
# Free-text search

The `text` of a query goes into a `LIKE` pattern as it is, the `q` of the filters is looked up with
`instr`. The two agree, and both are literal, for a text without the wildcards of `LIKE` and columns
without a NUL, where `LIKE` ends.
-/

namespace IMail

open Text

variable {s : List Char} {column text : String}

theorem mem_tails_any {p : List Char → Bool} :
    s.tails.any p = true ↔ ∃ rest, rest <:+ s ∧ p rest = true := by
  simp only [List.any_eq_true, List.mem_tails]

theorem likeList_any {pattern rest : List Char} (hrest : rest <:+ s)
    (h : likeList pattern rest = true) : likeList ('%' :: pattern) s = true := by
  rw [likeList]
  exact mem_tails_any.mpr ⟨rest, hrest, h⟩

theorem likeList_cons {c : Char} (hc : c ≠ '%') (d : Char) (pattern s : List Char) :
    likeList (c :: pattern) (d :: s) =
      ((c == '_' || asciiLower c == asciiLower d) && likeList pattern s) := by
  rw [likeList]
  exact hc

/-- A wildcard of `LIKE`, or the NUL that ends a pattern. -/
def isSpecial (c : Char) : Bool := c == '%' || c == '_' || c.toNat == 0

theorem nulFree_of_plain {cs : List Char} (h : cs.any isSpecial = false) : ∀ c ∈ cs, c.toNat ≠ 0 := by
  intro c hc hnul
  have hplain := List.any_eq_false.mp h c hc
  simp [isSpecial, hnul] at hplain

theorem likeList_plain {text : List Char} (hplain : text.any isSpecial = false) :
    likeList (text ++ ['%']) s = true ↔ text.map asciiLower <+: s.map asciiLower := by
  induction text generalizing s with
  | nil => simpa using likeList_any List.nil_suffix rfl
  | cons c text ih =>
    rw [List.any_cons, Bool.or_eq_false_iff, isSpecial, Bool.or_eq_false_iff, Bool.or_eq_false_iff,
      beq_eq_false_iff_ne] at hplain
    obtain ⟨⟨⟨hc, hone⟩, -⟩, hplain⟩ := hplain
    cases s with
    | nil =>
      rw [List.cons_append, likeList]
      · simp
      · exact hc
    | cons d s =>
      rw [List.cons_append, likeList_cons hc, hone, Bool.false_or, Bool.and_eq_true, beq_iff_eq,
        ih hplain, List.map_cons, List.map_cons, List.cons_prefix_cons]

/-- A text for which a pattern stands: nothing for `%`, and a letter for `_`. -/
def wildcardSample (text : List Char) : List Char :=
  text.filterMap fun c => if c = '%' then none else if c = '_' then some 'x' else some c

theorem likeList_sample {tail : List Char} (htail : likeList tail [] = true) (text : List Char) :
    likeList (text ++ tail) (wildcardSample text) = true := by
  induction text with
  | nil => exact htail
  | cons c text ih =>
    by_cases hany : c = '%'
    · rw [hany]
      exact likeList_any List.suffix_rfl ih
    · by_cases hone : c = '_'
      · have hsample : wildcardSample (c :: text) = 'x' :: wildcardSample text := by
          simp [wildcardSample, hone]
        rw [List.cons_append, hsample, likeList_cons hany, hone, ih]
        rfl
      · have hsample : wildcardSample (c :: text) = c :: wildcardSample text := by
          simp [wildcardSample, hany, hone]
        rw [List.cons_append, hsample, likeList_cons hany, ih, beq_self_eq_true]
        simp

theorem wildcardSample_plain (text : List Char) :
    (wildcardSample (beforeNul text)).any isSpecial = false := by
  rw [List.any_eq_false]
  intro c hc
  obtain ⟨d, hmem, hd⟩ := List.mem_filterMap.mp hc
  have hnul := nulFree_beforeNul text d hmem
  split_ifs at hd with hany hone
  · cases hd
    decide
  · cases hd
    simp [isSpecial, hany, hone, hnul]

theorem containsLower_iff {needle : String} :
    containsLower column needle = true ↔
      needle.toList.map asciiLower <:+: column.toList.map asciiLower := by
  simp [containsLower, contains, toAsciiLowercase, containsList_iff]

theorem likeAround_plain (hplain : text.toList.any isSpecial = false)
    (hcolumn : ∀ c ∈ column.toList, c.toNat ≠ 0) :
    likeAround text column = containsLower column text := by
  have hpattern : ∀ c ∈ '%' :: (text.toList ++ ['%']), c.toNat ≠ 0 := by
    simpa [or_imp, forall_and] using nulFree_of_plain hplain
  rw [Bool.eq_iff_iff, containsLower_iff, likeAround, beforeNul_of_free hpattern,
    beforeNul_of_free hcolumn, likeList, mem_tails_any]
  constructor
  · rintro ⟨rest, hrest, hlike⟩
    exact ((likeList_plain hplain).mp hlike).isInfix.trans (hrest.map asciiLower).isInfix
  · rintro ⟨before, after, heq⟩
    rw [List.append_assoc] at heq
    obtain ⟨front, rest, hcolumn, _, hrest⟩ := List.map_eq_append_iff.mp heq.symm
    exact ⟨rest, hcolumn ▸ List.suffix_append _ _, (likeList_plain hplain).mpr ⟨after, hrest.symm⟩⟩

theorem likeAround_sample (text : String) :
    likeAround text (String.ofList (wildcardSample (beforeNul text.toList))) = true := by
  rw [likeAround, String.toList_ofList,
    beforeNul_of_free (nulFree_of_plain (wildcardSample_plain text.toList))]
  have hpattern : ∃ tail, likeList tail [] = true ∧
      beforeNul ('%' :: (text.toList ++ ['%'])) = '%' :: (beforeNul text.toList ++ tail) := by
    by_cases hnul : ∀ c ∈ text.toList, c.toNat ≠ 0
    · refine ⟨['%'], by decide, ?_⟩
      rw [beforeNul_of_free hnul, beforeNul_of_free (by simpa [or_imp, forall_and] using hnul)]
    · push Not at hnul
      have hrest := beforeNul_append_of_nul hnul ['%']
      refine ⟨[], rfl, ?_⟩
      rw [beforeNul] at hrest ⊢
      rw [List.takeWhile_cons_of_pos (by decide), hrest, List.append_nil]
  obtain ⟨tail, htail, hpattern⟩ := hpattern
  rw [hpattern]
  exact likeList_any List.suffix_rfl (likeList_sample htail _)

theorem isSpecial_asciiLower (c : Char) : isSpecial (asciiLower c) = isSpecial c := by
  rw [asciiLower]
  split_ifs with hupper
  · -- neither an upper case letter nor its lower case is a wildcard
    rw [Bool.and_eq_true, decide_eq_true_eq, decide_eq_true_eq] at hupper
    obtain ⟨n, hn⟩ : ∃ n, n = c.toNat := ⟨_, rfl⟩
    rw [← Char.ofNat_toNat c, ← hn]
    rw [← hn] at hupper
    have hcases : ∀ n ∈ List.range' 65 26,
        isSpecial (Char.ofNat ((Char.ofNat n).toNat + 32)) = isSpecial (Char.ofNat n) := by decide
    have hnat : (Char.ofNat n).toNat = n := by rw [hn, Char.ofNat_toNat]
    exact hnat ▸ hcases n (List.mem_range'_1.mpr ⟨hupper.1, Nat.lt_succ_of_le hupper.2⟩)
  · rfl

theorem containsLower_wildcard (hplain : column.toList.any isSpecial = false)
    (htext : text.toList.any isSpecial = true) : containsLower column text = false := by
  rw [← Bool.not_eq_true, containsLower_iff]
  intro hoccurs
  obtain ⟨c, hc, hwild⟩ := List.any_eq_true.mp htext
  obtain ⟨d, hd, heq⟩ := List.mem_map.mp (hoccurs.subset (List.mem_map_of_mem hc))
  have hfalse := List.any_eq_false.mp hplain d hd
  rw [← isSpecial_asciiLower, heq, isSpecial_asciiLower] at hfalse
  exact hfalse hwild

section

variable [Sqlite]

def Message.textColumns (m : Message) : List String :=
  [m.subject, m.preview, Sqlite.senderJson m.sender, Sqlite.addressesJson m.recipients]

def Message.Has (t : String) (m : Message) : Prop :=
  ∃ column ∈ m.textColumns, (trim t).toList.map asciiLower <:+: column.toList.map asciiLower

def Message.NulFree (m : Message) : Prop := ∀ column ∈ m.textColumns, ∀ c ∈ column.toList, c.toNat ≠ 0

/-- Queries for a text select the messages that have it, of those without a NUL. -/
structure SearchesLiterally (t : String) : Prop where
  text : ∀ (db : Db) (index : BodyIndex) (userId now : String) (query : MessageQuery) (m : Message),
    m.NulFree → (m ∈ selectMessages db ({ query with text := some t }.clauses index userId now) ↔
      m ∈ selectMessages db ({ query with text := none }.clauses index userId now) ∧ m.Has t)
  filter : ∀ (db : Db) (index : BodyIndex) (userId now : String) (query : MessageQuery)
      (m : Message), m.NulFree → query.filters = none → m.headers.cc = [] →
    (m ∈ selectMessages db ({ query with text := some t }.clauses index userId now) ↔
      m ∈ selectMessages db
        ({ query with text := none, filters := some { q := some t } }.clauses index userId now))
  gateway : ∀ (db : Db) (index : BodyIndex) (userId now : String) (query : GatewayMessageQuery)
      (limit : ℕ) (m : Message),
    m ∈ selectMessages db ({ query with text := some t }.clauses index userId now) →
      m ∈ selectMessages db (({ text := some t, limit } : MessageQuery).clauses index userId now)

variable {db : Db} {m : Message} {t : String}

omit [Sqlite] in
theorem mem_selectMessages_and {clauses clauses' : List Clause} {p : Bool}
    (h : ∀ a, (clauses.all fun c => c a m) = ((clauses'.all fun c => c a m) && p)) :
    m ∈ selectMessages db clauses ↔ m ∈ selectMessages db clauses' ∧ p = true := by
  cases p <;> simp [selectMessages, h]

omit [Sqlite] in
theorem nonBlank_some (ht : trim t ≠ "") : nonBlank (some t) = some (trim t) := by
  simp [nonBlank, ht]

theorem mem_select_text (ht : trim t ≠ "") (db : Db) (index : BodyIndex) (userId now : String)
    (query : MessageQuery) (m : Message) :
    m ∈ selectMessages db ({ query with text := some t }.clauses index userId now) ↔
      m ∈ selectMessages db ({ query with text := none }.clauses index userId now) ∧
        m.textColumns.any (likeAround (trim t)) = true := by
  refine mem_selectMessages_and fun a => ?_
  have hblank : nonBlank none = none := rfl
  simp only [MessageQuery.clauses, nonBlank_some ht, hblank, List.all_append, Option.toList,
    List.map_cons, List.map_nil, List.all_cons, List.all_nil, Bool.and_true, Message.textColumns]
  ac_rfl

theorem mem_select_filter (t : String) (db : Db) (index : BodyIndex) (userId now : String)
    {query : MessageQuery} (hquery : query.filters = none) (hcc : m.headers.cc = []) :
    m ∈ selectMessages db
        ({ query with text := none, filters := some { q := some t } }.clauses index userId now) ↔
      m ∈ selectMessages db ({ query with text := none }.clauses index userId now) ∧
        m.textColumns.any (containsLower · (trim t)) = true := by
  refine mem_selectMessages_and fun a => ?_
  have hfilters : ((({ q := some t } : SearchFilters).clauses index now).all fun c => c a m) =
      m.textColumns.any (containsLower · (trim t)) := by
    simp [SearchFilters.clauses, hcc, pushExact, Message.textColumns]
  simp only [MessageQuery.clauses, List.all_append, hquery, Option.toList, List.flatMap_cons,
    List.flatMap_nil, List.append_nil, hfilters]

theorem textColumns_iff (m : Message) (t : String) :
    m.textColumns.any (containsLower · (trim t)) = true ↔ m.Has t := by
  simp only [List.any_eq_true, containsLower_iff, Message.Has]

theorem mem_select_gateway (ht : trim t ≠ "") {index : BodyIndex} {userId now : String}
    {query : GatewayMessageQuery} (limit : ℕ)
    (h : m ∈ selectMessages db ({ query with text := some t }.clauses index userId now)) :
    m ∈ selectMessages db (({ text := some t, limit } : MessageQuery).clauses index userId now) := by
  rw [selectMessages, List.mem_filter, Option.any_eq_true] at h
  obtain ⟨hm, a, ha, hall⟩ := h
  simp only [GatewayMessageQuery.clauses, nonBlank_some ht, List.all_append, Option.toList,
    List.map_cons, List.map_nil, List.all_cons, List.all_nil, Bool.and_true, Bool.and_eq_true]
    at hall
  obtain ⟨⟨⟨⟨⟨⟨⟨⟨howned, _⟩, _⟩, _⟩, _⟩, _⟩, _⟩, hlike⟩, _⟩ := hall
  refine (mem_select_text ht db index userId now { limit } m).mpr ⟨?_, ?_⟩
  · simp [selectMessages, MessageQuery.clauses, pushExact, nonBlank, hm, ha, howned]
  · -- the gateway leaves the recipients out
    obtain ⟨column, hcolumn, hfound⟩ := List.any_eq_true.mp hlike
    exact List.any_eq_true.mpr ⟨column, List.mem_append_left [_] hcolumn, hfound⟩

/-- The JSON of some sender and of some recipients has neither a wildcard nor a NUL. -/
structure PlainJson : Prop where
  sender : ∃ sender, (Sqlite.senderJson sender).toList.any isSpecial = false
  recipients : ∃ recipients, (Sqlite.addressesJson recipients).toList.any isSpecial = false

theorem SearchesLiterally.of_plain (ht : trim t ≠ "")
    (hplain : (trim t).toList.any isSpecial = false) : SearchesLiterally t := by
  have hlike (m : Message) (hm : m.NulFree) : m.textColumns.any (likeAround (trim t)) =
      m.textColumns.any (containsLower · (trim t)) := by
    rw [Bool.eq_iff_iff, List.any_eq_true, List.any_eq_true]
    refine exists_congr fun column => and_congr_right fun hcolumn => ?_
    rw [likeAround_plain hplain (hm column hcolumn)]
  refine ⟨?_, ?_, fun db index userId now query limit m => mem_select_gateway ht limit⟩
  · intro db index userId now query m hm
    rw [mem_select_text ht, hlike m hm, textColumns_iff]
  · intro db index userId now query m hm hquery hcc
    rw [mem_select_text ht, hlike m hm, mem_select_filter t db index userId now hquery hcc]

def literalAccount : Account :=
  { id := "a1", userId := "ann", email := "ann@example.com", createdAt := 0 }

def subjectMessage (sender : MailAddressView) (recipients : List MailAddressView)
    (subject : String) : Message :=
  { id := "m1", accountId := "a1", mailbox := "INBOX", mailboxRole := "inbox", uid := 1, sender,
    recipients, subject }

def subjectDb (m : Message) : Db := { accounts := [literalAccount], messages := [m] }

theorem mem_subjectDb (sender : MailAddressView) (recipients : List MailAddressView)
    (subject : String) (index : BodyIndex) (now : String) (limit : ℕ) :
    subjectMessage sender recipients subject ∈
      selectMessages (subjectDb (subjectMessage sender recipients subject))
        (({ limit } : MessageQuery).clauses index "ann" now) := by
  simp [selectMessages, MessageQuery.clauses, pushExact, nonBlank, subjectDb, subjectMessage,
    Db.account, literalAccount, ownedBy]

theorem SearchesLiterally.plain (ht : trim t ≠ "") (hjson : PlainJson) (h : SearchesLiterally t) :
    (trim t).toList.any isSpecial = false := by
  obtain ⟨sender, hsender⟩ := hjson.sender
  obtain ⟨recipients, hrecipients⟩ := hjson.recipients
  by_contra hwild
  rw [Bool.not_eq_false] at hwild
  let m := subjectMessage sender recipients (String.ofList (wildcardSample (beforeNul (trim t).toList)))
  have hfound : m.textColumns.any (likeAround (trim t)) = true := by
    exact List.any_eq_true.mpr ⟨m.subject, List.mem_cons_self, likeAround_sample (trim t)⟩
  have hselected := (mem_select_text ht (subjectDb m) ⟨fun _ => 0, []⟩ "ann" "" { limit := 1 } m).mpr
    ⟨mem_subjectDb _ _ _ _ _ _, hfound⟩
  have hcolumns : ∀ column ∈ m.textColumns, column.toList.any isSpecial = false := by
    simp only [Message.textColumns, List.forall_mem_cons, m, subjectMessage,
      String.toList_ofList, wildcardSample_plain, hsender, hrecipients]
    decide
  have hfree : m.NulFree := fun column hcolumn => nulFree_of_plain (hcolumns column hcolumn)
  have hhas := ((h.text _ _ _ _ _ _ hfree).mp hselected).2
  rw [← textColumns_iff, List.any_eq_true] at hhas
  obtain ⟨column, hcolumn, hliteral⟩ := hhas
  rw [containsLower_wildcard (hcolumns column hcolumn) hwild] at hliteral
  cases hliteral

end

theorem plainJson_plain : @PlainJson Sqlite.plain :=
  let _ := Sqlite.plain
  ⟨⟨⟨"", ""⟩, by decide⟩, ⟨[], by decide⟩⟩

end IMail
