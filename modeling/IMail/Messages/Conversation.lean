import IMail.Mail.Composition
import IMail.Relational.Keyset
import IMail.Relational.UnionFind
import Mathlib.Data.List.AList
import Mathlib.Data.Prod.Lex
import Mathlib.Data.String.Basic

/-!
# Conversations

`related` of `messages/conversation.rs` joins messages that name one Message-ID, by a union-find over
their places in the list. Message-IDs that stand for different mails join nothing.
-/

namespace IMail

open Relational UnionFind

/-- The digests of the contents, by the ids of the messages. -/
abbrev Fingerprints := String → Option (List UInt8)

def normalizedId (m : Message) : Option String := m.messageId.bind normalizeMessageId

/-- What is compared between messages with one Message-ID. -/
structure CopyKey where
  sender : MailAddressView
  recipients : List MailAddressView
  subject : String
  date : String
  headers : MailHeaders
  fingerprint : Option (List UInt8)
  deriving DecidableEq

def copyKey (fingerprints : Fingerprints) (m : Message) : CopyKey :=
  ⟨m.sender, m.recipients, m.subject, m.date, m.headers, fingerprints m.id⟩

/-- `first` and `ambiguous`, with the messages for their places in the list. -/
structure IdTable where
  first : AList fun _ : String => Message := ∅
  ambiguous : List String := []

def noteId (fingerprints : Fingerprints) (t : IdTable) (m : Message) : IdTable :=
  match normalizedId m with
  | none => t
  | some id =>
    match t.first.lookup id with
    | some a =>
      if copyKey fingerprints a = copyKey fingerprints m then t
      else { t with ambiguous := id :: t.ambiguous }
    | none => { t with first := t.first.insert id m }

def ambiguousIds (fingerprints : Fingerprints) (messages : List Message) : List String :=
  (messages.foldl (noteId fingerprints) {}).ambiguous

def conversationLinks (m : Message) : List String :=
  (normalizedId m).toList ++
    ((m.headers.references ++ m.headers.inReplyTo).take 200).filterMap normalizeMessageId

/-- `parents` and `identifiers` -/
structure Joining (n : ℕ) where
  forest : Forest n := Forest.singletons n
  identifiers : AList fun _ : String => Fin n := ∅

section

variable {n : ℕ} (ambiguous : List String)

def joinLink (i : Fin n) (s : Joining n) (id : String) : Joining n :=
  if ambiguous.contains id then s
  else match s.identifiers.lookup id with
    | some other => { s with forest := s.forest.union i other }
    | none => { s with identifiers := s.identifiers.insert id i }

def joinMessage (message : Fin n → Message) (s : Joining n) (i : Fin n) : Joining n :=
  if (normalizedId (message i)).any ambiguous.contains then s
  else (conversationLinks (message i)).foldl (joinLink ambiguous i) s

def keepRooted (r : Fin n) : Forest n → List (Fin n) → List (Fin n)
  | _, [] => []
  | f, i :: rest =>
    if (f.root i).1 = r then i :: keepRooted r (f.root i).2 rest
    else keepRooted r (f.root i).2 rest

end

def conversationKey (m : Message) : String ×ₗ String := toLex (m.date, m.id)

def joinedForest (messages : List Message) (fingerprints : Fingerprints) :
    Forest messages.length :=
  ((List.finRange messages.length).foldl
    (joinMessage (ambiguousIds fingerprints messages) messages.get) {}).forest

def related (messages : List Message) (selected : String) (fingerprints : Fingerprints) :
    Option (List Message) :=
  match (List.finRange messages.length).find? fun i => (messages.get i).id = selected with
  | none => none
  | some i =>
    let (selectedRoot, forest) := (joinedForest messages fingerprints).root i
    some (orderBy conversationKey
      ((keepRooted selectedRoot forest (List.finRange messages.length)).map messages.get))

section

variable (fingerprints : Fingerprints) (messages : List Message)

def Ambiguous (id : String) : Prop :=
  ∃ a ∈ messages, ∃ b ∈ messages, normalizedId a = some id ∧ normalizedId b = some id ∧
    copyKey fingerprints a ≠ copyKey fingerprints b

/-- The Message-ID of the message is ambiguous. -/
def CarriesAmbiguous (m : Message) : Prop :=
  ∃ id, normalizedId m = some id ∧ Ambiguous fingerprints messages id

structure Joined (a b : Message) : Prop where
  mem : a ∈ messages ∧ b ∈ messages
  clear : ¬ CarriesAmbiguous fingerprints messages a ∧ ¬ CarriesAmbiguous fingerprints messages b
  shared : ∃ id, ¬ Ambiguous fingerprints messages id ∧ id ∈ conversationLinks a ∧
    id ∈ conversationLinks b

def Connected : Message → Message → Prop := Relation.EqvGen (Joined fingerprints messages)

end

/-- The table after these messages. -/
structure IdTable.Notes (fingerprints : Fingerprints) (t : IdTable) (done : List Message) : Prop where
  known : ∀ id a, t.first.lookup id = some a → a ∈ done ∧ normalizedId a = some id
  unknown : ∀ id, t.first.lookup id = none → ∀ a ∈ done, normalizedId a ≠ some id
  ambiguous : ∀ id, id ∈ t.ambiguous ↔ Ambiguous fingerprints done id

variable {fingerprints : Fingerprints}

theorem Ambiguous.mono {done more : List Message} {id : String} (hsub : done ⊆ more)
    (h : Ambiguous fingerprints done id) : Ambiguous fingerprints more id := by
  obtain ⟨a, ha, b, hb, h⟩ := h
  exact ⟨a, hsub ha, b, hsub hb, h⟩

theorem ambiguous_append {done : List Message} {m : Message} {id : String}
    (h : normalizedId m = some id → ∃ a ∈ done, normalizedId a = some id ∧
      copyKey fingerprints a = copyKey fingerprints m) :
    Ambiguous fingerprints (done ++ [m]) id ↔ Ambiguous fingerprints done id := by
  have hearlier : ∀ a ∈ done ++ [m], normalizedId a = some id →
      ∃ a' ∈ done, normalizedId a' = some id ∧
        copyKey fingerprints a' = copyKey fingerprints a := by
    intro a ha hid
    rcases List.mem_append.mp ha with ha | ha
    · exact ⟨a, ha, hid, rfl⟩
    · rw [List.mem_singleton.mp ha] at hid ⊢
      exact h hid
  refine ⟨?_, Ambiguous.mono (List.subset_append_left done [m])⟩
  rintro ⟨a, ha, b, hb, hida, hidb, hne⟩
  obtain ⟨a', ha', hida', heqa⟩ := hearlier a ha hida
  obtain ⟨b', hb', hidb', heqb⟩ := hearlier b hb hidb
  exact ⟨a', ha', b', hb', hida', hidb', by rwa [heqa, heqb]⟩

section

variable {t : IdTable} {done : List Message} (h : t.Notes fingerprints done)
include h

theorem IdTable.Notes.step
    (m : Message) : (noteId fingerprints t m).Notes fingerprints (done ++ [m]) := by
  have hknown : ∀ id a, t.first.lookup id = some a → a ∈ done ++ [m] ∧ normalizedId a = some id :=
    fun id a ha => ⟨List.mem_append_left [m] (h.known id a ha).1, (h.known id a ha).2⟩
  -- who is not in the table: nobody before, and the new message if it is not put there
  have hunknown : ∀ id, t.first.lookup id = none → normalizedId m ≠ some id →
      ∀ a ∈ done ++ [m], normalizedId a ≠ some id := by
    intro id hid hm a ha
    rcases List.mem_append.mp ha with ha | ha
    · exact h.unknown id hid a ha
    · rwa [List.mem_singleton.mp ha]
  have hother : ∀ id, normalizedId m ≠ some id →
      (id ∈ t.ambiguous ↔ Ambiguous fingerprints (done ++ [m]) id) := by
    intro id hm
    rw [h.ambiguous, ambiguous_append fun hid => absurd hid hm]
  cases hid : normalizedId m with
  | none =>
    rw [noteId, hid]
    exact ⟨hknown, fun id hnone => hunknown id hnone (by simp [hid]),
      fun id => hother id (by simp [hid])⟩
  | some own =>
    have hne {id : String} (hown : id ≠ own) : normalizedId m ≠ some id := by
      simpa [hid] using hown.symm
    cases hlookup : t.first.lookup own with
    | some a =>
      obtain ⟨ha, hida⟩ := h.known own a hlookup
      have hunknown' : ∀ id, t.first.lookup id = none → ∀ a ∈ done ++ [m], normalizedId a ≠ some id :=
        fun id hnone => hunknown id hnone (hne fun heq => by rw [heq, hlookup] at hnone; cases hnone)
      simp only [noteId, hid, hlookup]
      split_ifs with hcopy
      · refine ⟨hknown, hunknown', fun id => ?_⟩
        rw [h.ambiguous, ambiguous_append]
        intro hm
        obtain rfl : own = id := by simpa [hid] using hm
        exact ⟨a, ha, hida, hcopy⟩
      · refine ⟨hknown, hunknown', fun id => ?_⟩
        by_cases hown : id = own
        · subst hown
          exact iff_of_true List.mem_cons_self
            ⟨a, List.mem_append_left _ ha, m, by simp, hida, hid, hcopy⟩
        · rw [List.mem_cons, or_iff_right hown, hother id (hne hown)]
    | none =>
      simp only [noteId, hid, hlookup]
      refine ⟨fun id a ha => ?_, fun id hnone => ?_, fun id => ?_⟩
      · by_cases hown : id = own
        · subst hown
          rw [AList.lookup_insert, Option.some.injEq] at ha
          subst ha
          exact ⟨by simp, hid⟩
        · rw [AList.lookup_insert_ne hown] at ha
          exact hknown id a ha
      · by_cases hown : id = own
        · subst hown
          simp [AList.lookup_insert] at hnone
        · rw [AList.lookup_insert_ne hown] at hnone
          exact hunknown id hnone (hne hown)
      · by_cases hown : id = own
        · subst hown
          have honly : ∀ a ∈ done ++ [m], normalizedId a = some id → a = m := by
            intro a ha hida
            rcases List.mem_append.mp ha with ha | ha
            · exact absurd hida (h.unknown id hlookup a ha)
            · exact List.mem_singleton.mp ha
          refine iff_of_false (fun hmem => ?_) ?_
          · obtain ⟨a, ha, _, _, hida, _⟩ := (h.ambiguous id).mp hmem
            exact h.unknown id hlookup a ha hida
          · rintro ⟨a, ha, b, hb, hida, hidb, hdiffer⟩
            exact hdiffer (by rw [honly a ha hida, honly b hb hidb])
        · exact hother id (hne hown)

theorem IdTable.Notes.run (messages : List Message) :
    (messages.foldl (noteId fingerprints) t).Notes fingerprints (done ++ messages) := by
  induction messages generalizing t done with
  | nil => simpa using h
  | cons m messages ih =>
    rw [List.foldl_cons, List.append_cons]
    exact ih (h.step m)

end

theorem mem_ambiguousIds {messages : List Message} {id : String} :
    id ∈ ambiguousIds fingerprints messages ↔ Ambiguous fingerprints messages id := by
  have hstart : ({} : IdTable).Notes fingerprints [] := by
    refine ⟨fun id a h => ?_, fun _ _ a ha => ?_, fun id => ?_⟩
    · cases h
    · cases ha
    · simp [Ambiguous]
  exact (hstart.run messages).ambiguous id

/-- The state after these pairs of a place and an identifier. -/
structure Joining.Tracks {n : ℕ} (s : Joining n) (done : List (Fin n × String)) : Prop where
  known : ∀ id j, s.identifiers.lookup id = some j → (j, id) ∈ done
  unknown : ∀ id, s.identifiers.lookup id = none → ∀ i, (i, id) ∉ done
  forest : s.forest.Represents fun i j => ∃ id, (i, id) ∈ done ∧ (j, id) ∈ done

variable {n : ℕ} {ambiguous : List String}

theorem Joining.Tracks.link {s : Joining n} {done : List (Fin n × String)} (h : s.Tracks done)
    (i : Fin n) {id : String} (hclear : id ∉ ambiguous) :
    (joinLink ambiguous i s id).Tracks (done ++ [(i, id)]) := by
  have hmem {x : Fin n × String} : x ∈ done ++ [(i, id)] ↔ x ∈ done ∨ x = (i, id) := by simp
  rw [joinLink, if_neg (by simpa using hclear)]
  cases hlookup : s.identifiers.lookup id with
  | some other =>
    simp only
    have hother := h.known id other hlookup
    refine ⟨fun id' j hj => hmem.mpr (Or.inl (h.known id' j hj)), fun id' hnone j => ?_, ?_⟩
    · have hne : id' ≠ id := fun heq => by rw [heq, hlookup] at hnone; cases hnone
      simp [h.unknown id' hnone j, hne]
    · refine (h.forest.union i other).congr ?_ ?_
      · rintro a b (⟨id', ha, hb⟩ | ⟨rfl, rfl⟩)
        · exact .rel _ _ ⟨id', hmem.mpr (Or.inl ha), hmem.mpr (Or.inl hb)⟩
        · exact .rel _ _ ⟨id, hmem.mpr (Or.inr rfl), hmem.mpr (Or.inl hother)⟩
      · -- whoever has the identifier is joined with the first that had it
        have hfirst : ∀ a, (a, id) ∈ done ++ [(i, id)] → Relation.EqvGen
            (fun a b => (∃ id, (a, id) ∈ done ∧ (b, id) ∈ done) ∨ (a = i ∧ b = other)) a other := by
          intro a ha
          rcases hmem.mp ha with ha | ha
          · exact .rel _ _ (Or.inl ⟨id, ha, hother⟩)
          · exact .rel _ _ (Or.inr ⟨congrArg Prod.fst ha, rfl⟩)
        rintro a b ⟨id', ha, hb⟩
        by_cases hid : id' = id
        · subst hid
          exact (hfirst a ha).trans _ _ _ ((hfirst b hb).symm _ _)
        · have hold {c : Fin n} (hc : (c, id') ∈ done ++ [(i, id)]) : (c, id') ∈ done :=
            (hmem.mp hc).resolve_right fun heq => hid (congrArg Prod.snd heq)
          exact .rel _ _ (Or.inl ⟨id', hold ha, hold hb⟩)
  | none =>
    simp only
    refine ⟨fun id' j hj => ?_, fun id' hnone j => ?_, h.forest.congr ?_ ?_⟩
    · by_cases hid : id' = id
      · subst hid
        rw [AList.lookup_insert, Option.some.injEq] at hj
        exact hmem.mpr (Or.inr (by rw [hj]))
      · rw [AList.lookup_insert_ne hid] at hj
        exact hmem.mpr (Or.inl (h.known id' j hj))
    · by_cases hid : id' = id
      · subst hid
        simp [AList.lookup_insert] at hnone
      · rw [AList.lookup_insert_ne hid] at hnone
        simp [h.unknown id' hnone j, hid]
    · rintro a b ⟨id', ha, hb⟩
      exact .rel _ _ ⟨id', hmem.mpr (Or.inl ha), hmem.mpr (Or.inl hb)⟩
    · rintro a b ⟨id', ha, hb⟩
      rcases hmem.mp ha with hold | hnew
      · rcases hmem.mp hb with hold' | hnew
        · exact .rel _ _ ⟨id', hold, hold'⟩
        · obtain ⟨_, rfl⟩ := Prod.mk.inj hnew
          exact absurd hold (h.unknown _ hlookup a)
      · rcases hmem.mp hb with hold | hnew'
        · obtain ⟨_, rfl⟩ := Prod.mk.inj hnew
          exact absurd hold (h.unknown _ hlookup b)
        · obtain ⟨rfl, _⟩ := Prod.mk.inj hnew
          obtain ⟨rfl, _⟩ := Prod.mk.inj hnew'
          exact .refl _

def joiningPairs (ambiguous : List String) (message : Fin n → Message) (i : Fin n) :
    List (Fin n × String) :=
  if (normalizedId (message i)).any ambiguous.contains then []
  else ((conversationLinks (message i)).filter fun id => !ambiguous.contains id).map (i, ·)

section

variable {s : Joining n} {done : List (Fin n × String)} (h : s.Tracks done)
include h

theorem Joining.Tracks.links (i : Fin n) (ids : List String) :
    (ids.foldl (joinLink ambiguous i) s).Tracks
      (done ++ (ids.filter fun id => !ambiguous.contains id).map (i, ·)) := by
  induction ids generalizing s done with
  | nil => simpa using h
  | cons id ids ih =>
    rw [List.foldl_cons]
    by_cases hid : id ∈ ambiguous
    · have hskip : joinLink ambiguous i s id = s := if_pos (by simpa using hid)
      rw [hskip, List.filter_cons_of_neg (by simpa using hid)]
      exact ih h
    · rw [List.filter_cons_of_pos (by simpa using hid), List.map_cons, List.append_cons]
      exact ih (h.link i hid)

theorem Joining.Tracks.messages
    (ambiguous : List String) (message : Fin n → Message) (places : List (Fin n)) :
    (places.foldl (joinMessage ambiguous message) s).Tracks
      (done ++ places.flatMap (joiningPairs ambiguous message)) := by
  induction places generalizing s done with
  | nil => simpa using h
  | cons i places ih =>
    rw [List.foldl_cons, List.flatMap_cons, ← List.append_assoc]
    apply ih
    rw [joinMessage, joiningPairs]
    split_ifs
    · rwa [List.append_nil]
    · exact h.links i _

end

theorem any_ambiguousIds {messages : List Message} {m : Message} :
    (normalizedId m).any (ambiguousIds fingerprints messages).contains = true ↔
      CarriesAmbiguous fingerprints messages m := by
  simp [CarriesAmbiguous, Option.any_eq_true, mem_ambiguousIds]

theorem mem_joiningPairs {messages : List Message} {i j : Fin messages.length} {id : String} :
    (j, id) ∈ joiningPairs (ambiguousIds fingerprints messages) messages.get i ↔
      j = i ∧ ¬ CarriesAmbiguous fingerprints messages (messages.get i) ∧
        ¬ Ambiguous fingerprints messages id ∧ id ∈ conversationLinks (messages.get i) := by
  rw [joiningPairs, ← any_ambiguousIds, ← mem_ambiguousIds]
  split_ifs with hany
  · exact iff_of_false List.not_mem_nil fun h => h.2.1 hany
  · constructor
    · intro h
      obtain ⟨id', hid, heq⟩ := List.mem_map.mp h
      obtain ⟨rfl, rfl⟩ := Prod.mk.inj heq
      obtain ⟨hlink, hclear⟩ := List.mem_filter.mp hid
      exact ⟨rfl, hany, by simpa using hclear, hlink⟩
    · rintro ⟨rfl, _, hclear, hlink⟩
      exact List.mem_map.mpr ⟨id, List.mem_filter.mpr ⟨hlink, by simpa using hclear⟩, rfl⟩

theorem represents_joinedForest (messages : List Message) (fingerprints : Fingerprints) :
    (joinedForest messages fingerprints).Represents fun i j =>
      Joined fingerprints messages (messages.get i) (messages.get j) := by
  have hstart : ({} : Joining messages.length).Tracks [] := by
    refine ⟨fun id j h => ?_, fun _ _ i hi => ?_, ?_⟩
    · cases h
    · cases hi
    · simpa using Forest.represents_singletons
  have hpairs : ∀ (i : Fin messages.length) (id : String),
      (i, id) ∈ [] ++ (List.finRange messages.length).flatMap
        (joiningPairs (ambiguousIds fingerprints messages) messages.get) ↔
      ¬ CarriesAmbiguous fingerprints messages (messages.get i) ∧
        ¬ Ambiguous fingerprints messages id ∧ id ∈ conversationLinks (messages.get i) := by
    intro i id
    simp only [List.nil_append, List.mem_flatMap, List.mem_finRange, true_and, mem_joiningPairs,
      exists_eq_left']
  have hend := (hstart.messages (ambiguousIds fingerprints messages) messages.get
    (List.finRange messages.length)).forest
  refine hend.congr ?_ ?_
  · rintro i j ⟨id, hi, hj⟩
    obtain ⟨hcleari, hclear, hi⟩ := (hpairs i id).mp hi
    obtain ⟨hclearj, _, hj⟩ := (hpairs j id).mp hj
    exact .rel _ _ ⟨⟨List.get_mem _ _, List.get_mem _ _⟩, ⟨hcleari, hclearj⟩, id, hclear, hi, hj⟩
  · rintro i j ⟨_, ⟨hcleari, hclearj⟩, id, hclear, hi, hj⟩
    exact .rel _ _
      ⟨id, (hpairs i id).mpr ⟨hcleari, hclear, hi⟩, (hpairs j id).mpr ⟨hclearj, hclear, hj⟩⟩

theorem keepRooted_eq (r : Fin n) (f : Forest n) (places : List (Fin n)) :
    keepRooted r f places = places.filter fun i => f.rep i = r := by
  induction places generalizing f with
  | nil => rfl
  | cons i places ih =>
    have hroot : (f.root i).1 = f.rep i := rfl
    rw [keepRooted, ih, hroot]
    simp only [Forest.rep_root, List.filter_cons, decide_eq_true_eq]

section

variable {messages : List Message}

theorem eqvGen_get_iff (hnodup : messages.Nodup) {i j : Fin messages.length} :
    Relation.EqvGen (fun i j => Joined fingerprints messages (messages.get i) (messages.get j)) i j ↔
      Connected fingerprints messages (messages.get i) (messages.get j) := by
  constructor
  · intro h
    induction h with
    | rel i j h => exact .rel _ _ h
    | refl i => exact .refl _
    | symm _ _ _ ih => exact .symm _ _ ih
    | trans _ _ _ _ _ ih ih' => exact .trans _ _ _ ih ih'
  · -- a step from either end stays in the list
    have hplaces : ∀ {a b : Message}, Connected fingerprints messages a b →
        (∀ i, messages.get i = a → ∃ j, messages.get j = b ∧ Relation.EqvGen
          (fun i j => Joined fingerprints messages (messages.get i) (messages.get j)) i j) ∧
        (∀ j, messages.get j = b → ∃ i, messages.get i = a ∧ Relation.EqvGen
          (fun i j => Joined fingerprints messages (messages.get i) (messages.get j)) i j) := by
      intro a b h
      induction h with
      | rel a b h =>
        obtain ⟨i, rfl⟩ := List.get_of_mem h.mem.1
        obtain ⟨j, rfl⟩ := List.get_of_mem h.mem.2
        exact ⟨fun i' hi => ⟨j, rfl, .rel _ _ (hi ▸ h)⟩, fun j' hj => ⟨i, rfl, .rel _ _ (hj ▸ h)⟩⟩
      | refl a => exact ⟨fun i hi => ⟨i, hi, .refl i⟩, fun i hi => ⟨i, hi, .refl i⟩⟩
      | symm _ _ _ ih =>
        refine ⟨fun i hi => ?_, fun i hi => ?_⟩
        · obtain ⟨j, hj, h⟩ := ih.2 i hi
          exact ⟨j, hj, h.symm _ _⟩
        · obtain ⟨j, hj, h⟩ := ih.1 i hi
          exact ⟨j, hj, h.symm _ _⟩
      | trans _ _ _ _ _ ih ih' =>
        refine ⟨fun i hi => ?_, fun k hk => ?_⟩
        · obtain ⟨j, hj, h⟩ := ih.1 i hi
          obtain ⟨k, hk, h'⟩ := ih'.1 j hj
          exact ⟨k, hk, h.trans _ _ _ h'⟩
        · obtain ⟨j, hj, h'⟩ := ih'.2 k hk
          obtain ⟨i, hi, h⟩ := ih.2 j hj
          exact ⟨i, hi, h.trans _ _ _ h'⟩
    intro h
    obtain ⟨j', hj, h⟩ := (hplaces h).1 i rfl
    rwa [hnodup.injective_get hj] at h

theorem nodup_of_ids (hids : (messages.map (·.id)).Nodup) : messages.Nodup := List.Nodup.of_map _ hids

theorem related_eq_none {selected : String} :
    related messages selected fingerprints = none ↔ ∀ m ∈ messages, m.id ≠ selected := by
  rw [related]
  cases hfind : (List.finRange messages.length).find? fun i => (messages.get i).id = selected with
  | none =>
    refine iff_of_true rfl fun m hm => ?_
    obtain ⟨i, rfl⟩ := List.get_of_mem hm
    simpa using List.find?_eq_none.mp hfind i (List.mem_finRange i)
  | some i =>
    have hi := List.find?_some hfind
    exact iff_of_false (by simp) fun h => h _ (List.get_mem messages i) (by simpa using hi)

end

theorem related_spec (fingerprints : Fingerprints) {messages : List Message}
    (hids : (messages.map (·.id)).Nodup) {s : Message} (hs : s ∈ messages) :
    ∃ result, related messages s.id fingerprints = some result ∧
      (∀ m, m ∈ result ↔ m ∈ messages ∧ Connected fingerprints messages s m) ∧
      Ascending conversationKey result := by
  cases hfind : (List.finRange messages.length).find? fun i => (messages.get i).id = s.id with
  | none =>
    obtain ⟨i, rfl⟩ := List.get_of_mem hs
    have hother := List.find?_eq_none.mp hfind i (List.mem_finRange i)
    simp at hother
  | some i =>
    have hid : (messages.get i).id = s.id := by simpa using List.find?_some hfind
    obtain rfl := List.inj_on_of_nodup_map hids (List.get_mem messages i) hs hid
    let forest := (joinedForest messages fingerprints).root i
    refine ⟨orderBy conversationKey
      ((keepRooted forest.1 forest.2 (List.finRange messages.length)).map messages.get), ?_, ?_, ?_⟩
    · rw [related, hfind]
    · intro m
      have hkept (j : Fin messages.length) :
          j ∈ keepRooted forest.1 forest.2 (List.finRange messages.length) ↔
            Connected fingerprints messages (messages.get i) (messages.get j) := by
        have hrep : (joinedForest messages fingerprints).rep j = forest.1 ↔
            (joinedForest messages fingerprints).rep i =
              (joinedForest messages fingerprints).rep j := eq_comm
        rw [keepRooted_eq, ← eqvGen_get_iff (nodup_of_ids hids),
          ← represents_joinedForest messages fingerprints, ← hrep]
        simp [forest]
      rw [mem_orderBy, List.mem_map]
      constructor
      · rintro ⟨j, hj, rfl⟩
        exact ⟨List.get_mem messages j, (hkept j).mp hj⟩
      · rintro ⟨hm, hconnected⟩
        obtain ⟨j, rfl⟩ := List.get_of_mem hm
        exact ⟨j, (hkept j).mpr hconnected, rfl⟩
    · apply ascending_orderBy
      have hpart : ((keepRooted forest.1 forest.2 (List.finRange messages.length)).map
          messages.get).Sublist messages := by
        have hall : (List.finRange messages.length).map messages.get = messages := by simp
        rw [keepRooted_eq]
        exact (List.filter_sublist.map _).trans (by rw [hall])
      refine List.Nodup.of_map (fun k => (ofLex k).2) ?_
      rw [List.map_map]
      exact hids.sublist (hpart.map _)

theorem Connected.eq_of_ambiguous {messages : List Message} {a b : Message}
    (h : Connected fingerprints messages a b) :
    CarriesAmbiguous fingerprints messages a ∨ CarriesAmbiguous fingerprints messages b → a = b := by
  induction h with
  | rel a b h => exact fun hor => (hor.elim h.clear.1 h.clear.2).elim
  | refl => exact fun _ => rfl
  | symm _ _ _ ih => exact fun hor => (ih hor.symm).symm
  | trans a b c _ _ ih ih' =>
    rintro (ha | hc)
    · obtain rfl := ih (Or.inl ha)
      exact ih' (Or.inl ha)
    · obtain rfl := ih' (Or.inr hc)
      exact ih (Or.inr hc)

theorem joined_perm {messages messages' : List Message} (hperm : messages.Perm messages') :
    Joined fingerprints messages' = Joined fingerprints messages := by
  have hambiguous (id : String) :
      Ambiguous fingerprints messages' id ↔ Ambiguous fingerprints messages id :=
    ⟨Ambiguous.mono hperm.symm.subset, Ambiguous.mono hperm.subset⟩
  have hcarries (m : Message) :
      CarriesAmbiguous fingerprints messages' m ↔ CarriesAmbiguous fingerprints messages m := by
    simp only [CarriesAmbiguous, hambiguous]
  funext a b
  refine propext ⟨fun ⟨hmem, hclear, hshared⟩ => ⟨?_, ?_, ?_⟩,
    fun ⟨hmem, hclear, hshared⟩ => ⟨?_, ?_, ?_⟩⟩
  · rwa [hperm.mem_iff, hperm.mem_iff]
  · rwa [← hcarries, ← hcarries]
  · simpa only [hambiguous] using hshared
  · rwa [← hperm.mem_iff, ← hperm.mem_iff]
  · rwa [hcarries, hcarries]
  · simpa only [hambiguous] using hshared

theorem related_perm {messages messages' : List Message} (hids : (messages.map (·.id)).Nodup)
    (hperm : messages.Perm messages') (selected : String) :
    related messages' selected fingerprints = related messages selected fingerprints := by
  have hids' : (messages'.map (·.id)).Nodup := (hperm.map _).nodup_iff.mp hids
  by_cases hselected : ∃ s ∈ messages, s.id = selected
  · obtain ⟨s, hs, rfl⟩ := hselected
    obtain ⟨result, hresult, hmem, hasc⟩ := related_spec fingerprints hids hs
    obtain ⟨result', hresult', hmem', hasc'⟩ := related_spec fingerprints hids' (hperm.mem_iff.mp hs)
    rw [hresult, hresult', hasc'.ext hasc]
    intro m
    rw [hmem, hmem', Connected, joined_perm hperm, hperm.mem_iff]
    rfl
  · have hnone : ∀ m ∈ messages, m.id ≠ selected := fun m hm heq => hselected ⟨m, hm, heq⟩
    rw [related_eq_none.mpr hnone, related_eq_none]
    exact fun m hm => hnone m (hperm.mem_iff.mpr hm)

theorem related_disjoint {messages : List Message} (hids : (messages.map (·.id)).Nodup)
    {s o : Message} (hs : s ∈ messages) (ho : o ∈ messages) {result result' : List Message}
    (hresult : related messages s.id fingerprints = some result)
    (hresult' : related messages o.id fingerprints = some result') :
    result = result' ∨ result.Disjoint result' := by
  obtain ⟨_, hrelated, hmem, hasc⟩ := related_spec fingerprints hids hs
  obtain ⟨_, hrelated', hmem', hasc'⟩ := related_spec fingerprints hids ho
  rw [hresult, Option.some.injEq] at hrelated
  rw [hresult', Option.some.injEq] at hrelated'
  subst hrelated hrelated'
  by_cases hshared : ∃ m, m ∈ result ∧ m ∈ result'
  · obtain ⟨m, hm, hm'⟩ := hshared
    have hso := ((hmem m).mp hm).2.trans _ _ _ (((hmem' m).mp hm').2.symm _ _)
    refine Or.inl (hasc.ext hasc' fun x => ?_)
    rw [hmem, hmem']
    exact and_congr_right fun _ =>
      ⟨fun h => (hso.symm _ _).trans _ _ _ h, fun h => hso.trans _ _ _ h⟩
  · exact Or.inr fun m hm hm' => hshared ⟨m, hm, hm'⟩

/-- A list of messages with one id each, and the conversations in it. -/
theorem conversations_are_components (fingerprints : Fingerprints) (messages : List Message)
    (hids : (messages.map (·.id)).Nodup) :
    (∀ selected, (related messages selected fingerprints).isSome ↔
      ∃ m ∈ messages, m.id = selected) ∧
    (∀ s ∈ messages, ∀ result, related messages s.id fingerprints = some result →
      (∀ m, m ∈ result ↔ m ∈ messages ∧ Connected fingerprints messages s m) ∧
      (CarriesAmbiguous fingerprints messages s → result = [s]) ∧
      result.Pairwise fun a b => a.date < b.date ∨ (a.date = b.date ∧ a.id < b.id)) ∧
    (∀ messages', messages.Perm messages' → ∀ selected,
      related messages' selected fingerprints = related messages selected fingerprints) ∧
    (∀ selected other result result', related messages selected fingerprints = some result →
      related messages other fingerprints = some result' →
        result = result' ∨ result.Disjoint result') := by
  have hsome (selected : String) : (related messages selected fingerprints).isSome ↔
      ∃ m ∈ messages, m.id = selected := by
    rw [Option.isSome_iff_ne_none, Ne, related_eq_none]
    push Not
    rfl
  refine ⟨hsome, ?_, fun _ hperm => related_perm hids hperm, ?_⟩
  · intro s hs result hresult
    obtain ⟨_, hrelated, hmem, hasc⟩ := related_spec fingerprints hids hs
    rw [hresult, Option.some.injEq] at hrelated
    subst hrelated
    refine ⟨hmem, fun hambiguous => ?_, ?_⟩
    · refine hasc.ext (List.pairwise_singleton _ _) fun m => ?_
      rw [hmem, List.mem_singleton]
      constructor
      · exact fun h => (h.2.eq_of_ambiguous (Or.inl hambiguous)).symm
      · rintro rfl
        exact ⟨hs, .refl _⟩
    · exact hasc.imp fun h => Prod.Lex.toLex_lt_toLex.mp h
  · intro selected other result result' hresult hresult'
    obtain ⟨s, hs, rfl⟩ := (hsome selected).mp (by rw [hresult]; rfl)
    obtain ⟨o, ho, rfl⟩ := (hsome other).mp (by rw [hresult']; rfl)
    exact related_disjoint hids hs ho hresult hresult'

def conversationMessage (id date messageId : String) (references : List String) : Message :=
  { id, accountId := "a1", mailbox := "INBOX", mailboxRole := "inbox", uid := 1, date,
    messageId := some messageId, headers := { references } }

def conversationMessages : List Message :=
  [conversationMessage "m3" "2026-03-03" "<three@x>" ["<lost@x>"],
    conversationMessage "m1" "2026-03-01" "<one@x>" [],
    conversationMessage "m4" "2026-03-04" "<one@x>" ["<three@x>"],
    conversationMessage "m2" "2026-03-02" "<two@x>" [" <lost@x> ", "<one@x>"]]

/-- Two replies to a mail that is not there, and two mails with one Message-ID. -/
theorem conversations_are_components_lost :
    related conversationMessages "m3" (fun _ => none) =
        some [conversationMessage "m2" "2026-03-02" "<two@x>" [" <lost@x> ", "<one@x>"],
          conversationMessage "m3" "2026-03-03" "<three@x>" ["<lost@x>"]] ∧
      related conversationMessages.reverse "m3" (fun _ => none) =
        related conversationMessages "m3" (fun _ => none) := by
  refine ⟨by decide +kernel, ?_⟩
  exact (conversations_are_components (fun _ => none) conversationMessages (by decide)).2.2.1 _
    (List.reverse_perm _).symm "m3"

end IMail
