import IMail.Text.Strings

/-!
# JSON values

The trees that JSON texts stand for, and the readers and writers that a derived serializer puts
together. An object is the list of its members, and a number is kept as its text.
-/

namespace Text

inductive Json
  | null
  | bool (value : Bool)
  | num (text : String)
  | str (value : String)
  | arr (items : List Json)
  | obj (members : List (String × Json))

abbrev JsonObject := List (String × Json)

namespace Json

variable {α : Type}

def strings (values : List String) : Json := .arr (values.map .str)

/-- An `Option` is written as null or as its value. -/
def optional (f : α → Json) : Option α → Json
  | none => .null
  | some value => f value

def asString : Json → Option String
  | .str value => some value
  | _ => none

def asArray (f : Json → Option α) : Json → Option (List α)
  | .arr items => items.mapM f
  | _ => none

def asStrings : Json → Option (List String) := asArray asString

def asOptional (f : Json → Option α) : Option Json → Option (Option α)
  | none | some .null => some none
  | some value => (f value).map some

variable {f : Json → Option α} {g : α → Json}

theorem asArray_map (h : ∀ a, f (g a) = some a) (values : List α) :
    asArray f (.arr (values.map g)) = some values :=
  mapM_map_of_inverse fun a _ => h a

theorem asStrings_strings (values : List String) : (strings values).asStrings = some values :=
  asArray_map (g := .str) (fun _ => rfl) values

theorem asOptional_optional (h : ∀ a, f (g a) = some a) (hnull : ∀ a, g a ≠ .null)
    (value : Option α) : asOptional f (some (optional g value)) = some value := by
  cases value with
  | none => rfl
  | some a =>
    have hsome : asOptional f (some (g a)) = (f (g a)).map some := by
      unfold asOptional
      split
      · rename_i heq
        cases heq
      · rename_i heq
        exact absurd (Option.some.inj heq) (hnull a)
      · rename_i heq
        rw [Option.some.inj heq]
    rw [optional, hsome, h]
    rfl

end Json

/-- `json_set` of one path `$.key`. -/
def jsonSet : JsonObject → String → Json → JsonObject
  | [], key, value => [(key, value)]
  | (k, old) :: members, key, value =>
    if k = key then (key, value) :: members else (k, old) :: jsonSet members key value

theorem lookup_cons_if (k : String) (m : String × Json) (members : JsonObject) :
    (m :: members).lookup k = if k = m.1 then some m.2 else members.lookup k := by
  rw [List.lookup_cons]
  by_cases h : k = m.1
  · rw [beq_iff_eq.mpr h, if_pos h]
  · rw [beq_eq_false_iff_ne.mpr h, if_neg h]

theorem lookup_jsonSet (members : JsonObject) (key : String) (value : Json) (k : String) :
    (jsonSet members key value).lookup k = if k = key then some value else members.lookup k := by
  induction members with
  | nil => rw [jsonSet, lookup_cons_if]
  | cons m members ih =>
    obtain ⟨k', old⟩ := m
    by_cases hkey : k' = key
    · subst hkey
      rw [jsonSet, if_pos rfl, lookup_cons_if, lookup_cons_if]
      split_ifs <;> rfl
    · rw [jsonSet, if_neg hkey, lookup_cons_if, lookup_cons_if, ih]
      by_cases hk : k = k'
      · subst hk
        rw [if_pos rfl, if_neg hkey, if_pos rfl]
      · rw [if_neg hk, if_neg hk]

end Text
