import Mathlib.Data.String.Basic
import Mathlib.Tactic

/-!
# RFC 3339 texts

The Gregorian calendar from the year 0 on, and the texts that `chrono` writes for instants. Fields
of a fixed width make the order of the texts the order of the instants, as long as years have four
digits; behind an equal date and time the suffixes decide.
-/

namespace Text

def padded : ℕ → ℕ → List Char
  | 0, _ => []
  | k + 1, n => Nat.digitChar (n / 10 ^ k % 10) :: padded k n

theorem padded_succ (k n : ℕ) :
    padded (k + 1) n = Nat.digitChar (n / 10 ^ k % 10) :: padded k n := rfl

theorem digitChar_lt {a b : ℕ} (ha : a < 10) (hb : b < 10) :
    Nat.digitChar a < Nat.digitChar b ↔ a < b := by
  interval_cases a <;> interval_cases b <;> decide

theorem digitChar_inj {a b : ℕ} (ha : a < 10) (hb : b < 10) :
    Nat.digitChar a = Nat.digitChar b ↔ a = b := by
  interval_cases a <;> interval_cases b <;> decide

theorem padded_append_lt_mod (k a b : ℕ) (u v : List Char) :
    padded k a ++ u < padded k b ++ v ↔
      a % 10 ^ k < b % 10 ^ k ∨ (a % 10 ^ k = b % 10 ^ k ∧ u < v) := by
  induction k with
  | zero => simp [padded, Nat.mod_one]
  | succ k ih =>
    have hdigit : ∀ n : ℕ, n / 10 ^ k % 10 < 10 := fun n => Nat.mod_lt _ (by decide)
    have hrest : ∀ n : ℕ, n % 10 ^ k < 10 ^ k := fun n => Nat.mod_lt _ (by positivity)
    rw [padded, padded, List.cons_append, List.cons_append, List.cons_lt_cons_iff, ih,
      digitChar_lt (hdigit a) (hdigit b), digitChar_inj (hdigit a) (hdigit b), Nat.mod_pow_succ,
      Nat.mod_pow_succ]
    have ha := hrest a
    have hb := hrest b
    generalize a / 10 ^ k % 10 = p at *
    generalize b / 10 ^ k % 10 = q at *
    generalize a % 10 ^ k = r at *
    generalize b % 10 ^ k = s at *
    generalize 10 ^ k = base at *
    rcases lt_trichotomy p q with hpq | rfl | hpq
    · have hmul : base * p + base ≤ base * q := by
        rw [← Nat.mul_succ]
        exact Nat.mul_le_mul_left base hpq
      constructor
      · intro _
        exact Or.inl (by omega)
      · intro _
        exact Or.inl hpq
    · constructor
      · rintro (h | ⟨_, h | ⟨rfl, h⟩⟩)
        · exact absurd h (lt_irrefl _)
        · exact Or.inl (by omega)
        · exact Or.inr ⟨rfl, h⟩
      · rintro (h | ⟨h, huv⟩)
        · exact Or.inr ⟨rfl, Or.inl (by omega)⟩
        · exact Or.inr ⟨rfl, Or.inr ⟨by omega, huv⟩⟩
    · have hmul : base * q + base ≤ base * p := by
        rw [← Nat.mul_succ]
        exact Nat.mul_le_mul_left base hpq
      constructor
      · rintro (h | ⟨h, _⟩)
        · omega
        · omega
      · rintro (h | ⟨h, _⟩)
        · omega
        · omega

theorem padded_append_lt {k a b : ℕ} (ha : a < 10 ^ k) (hb : b < 10 ^ k) {u v : List Char} :
    padded k a ++ u < padded k b ++ v ↔ a < b ∨ (a = b ∧ u < v) := by
  rw [padded_append_lt_mod, Nat.mod_eq_of_lt ha, Nat.mod_eq_of_lt hb]

def isLeap (y : ℕ) : Bool := y % 4 = 0 && (y % 100 ≠ 0 || y % 400 = 0)

def yearStart (y : ℕ) : ℕ := 365 * y + (y + 3) / 4 + (y + 399) / 400 - (y + 99) / 100

def yearOf (n : ℕ) : ℕ :=
  let y := 400 * n / 146097
  if n < yearStart y then y - 1 else if yearStart (y + 1) ≤ n then y + 1 else y

theorem yearStart_succ (y : ℕ) :
    yearStart (y + 1) = yearStart y + (if isLeap y then 366 else 365) := by
  have hleap : (if isLeap y then 366 else 365) =
      if y % 4 = 0 ∧ (¬ y % 100 = 0 ∨ y % 400 = 0) then 366 else 365 := by
    simp [isLeap]
  have h4 : (y + 1 + 3) / 4 = (y + 3) / 4 + if y % 4 = 0 then 1 else 0 := by
    split_ifs <;> omega
  have h100 : (y + 1 + 99) / 100 = (y + 99) / 100 + if y % 100 = 0 then 1 else 0 := by
    split_ifs <;> omega
  have h400 : (y + 1 + 399) / 400 = (y + 399) / 400 + if y % 400 = 0 then 1 else 0 := by
    split_ifs <;> omega
  have hcenturies : (y + 99) / 100 ≤ (y + 3) / 4 := by omega
  have hof100 : y % 100 = 0 → y % 4 = 0 := by omega
  have hof400 : y % 400 = 0 → y % 100 = 0 := by omega
  rw [hleap, yearStart, yearStart, h4, h100, h400]
  generalize (y + 3) / 4 = fours at *
  generalize (y + 99) / 100 = hundreds at *
  split_ifs <;> grind

theorem yearStart_add_le (y : ℕ) : yearStart y + 365 ≤ yearStart (y + 1) := by
  rw [yearStart_succ]
  split_ifs <;> omega

theorem yearStart_le {y n : ℕ} (h : 146097 * y ≤ 400 * n) : yearStart y ≤ n + 2 := by
  unfold yearStart
  omega

theorem le_yearStart {y n : ℕ} (h : 400 * n < 146097 * y) : n ≤ yearStart y + 1 := by
  unfold yearStart
  omega

theorem yearOf_spec (n : ℕ) : yearStart (yearOf n) ≤ n ∧ n < yearStart (yearOf n + 1) := by
  have hlow : yearStart (400 * n / 146097) ≤ n + 2 := yearStart_le (by omega)
  have hhigh : n ≤ yearStart (400 * n / 146097 + 1) + 1 := le_yearStart (by omega)
  unfold yearOf
  simp only
  generalize 400 * n / 146097 = y at hlow hhigh
  split_ifs with hbefore hafter
  · obtain ⟨y, rfl⟩ : ∃ k, y = k + 1 := by
      cases y with
      | zero => exact absurd hbefore (Nat.not_lt_zero n)
      | succ k => exact ⟨k, rfl⟩
    have hyear := yearStart_add_le y
    constructor
    · rw [Nat.add_sub_cancel]
      omega
    · exact hbefore
  · have hyear := yearStart_add_le (y + 1)
    exact ⟨hafter, by omega⟩
  · exact ⟨not_lt.mp hbefore, not_le.mp hafter⟩

theorem yearStart_mono : Monotone yearStart := by
  apply monotone_nat_of_le_succ
  intro y
  rw [yearStart_succ]
  exact Nat.le_add_right _ _

/-- The day of the year on which a month begins, both counted from zero. -/
def monthStarts (leap : Bool) : List ℕ :=
  if leap then [31, 60, 91, 121, 152, 182, 213, 244, 274, 305, 335]
  else [31, 59, 90, 120, 151, 181, 212, 243, 273, 304, 334]

def monthOf (leap : Bool) (day : ℕ) : ℕ := (monthStarts leap).countP fun start => start ≤ day

def monthStart (leap : Bool) (month : ℕ) : ℕ := (0 :: monthStarts leap).getD month 0

theorem monthOf_mono (leap : Bool) {a b : ℕ} (h : a ≤ b) : monthOf leap a ≤ monthOf leap b := by
  apply List.countP_mono_left
  intro start _ hstart
  have hle : start ≤ a := of_decide_eq_true hstart
  exact decide_eq_true (hle.trans h)

theorem monthOf_spec :
    ∀ leap, ∀ day < 366, monthStart leap (monthOf leap day) ≤ day ∧
      monthOf leap day < 12 ∧ day - monthStart leap (monthOf leap day) < 32 := by
  decide +kernel

def dayOfYear (n : ℕ) : ℕ := n - yearStart (yearOf n)

theorem dayOfYear_lt (n : ℕ) : dayOfYear n < 366 := by
  obtain ⟨hlow, hhigh⟩ := yearOf_spec n
  rw [yearStart_succ] at hhigh
  unfold dayOfYear
  split_ifs at hhigh <;> omega

theorem yearOf_mono {a b : ℕ} (h : a ≤ b) : yearOf a ≤ yearOf b := by
  by_contra hless
  have hmono := yearStart_mono (show yearOf b + 1 ≤ yearOf a by omega)
  have ha := (yearOf_spec a).1
  have hb := (yearOf_spec b).2
  omega

theorem yearOf_lt_iff (n y : ℕ) : yearOf n < y ↔ n < yearStart y := by
  obtain ⟨hlow, hhigh⟩ := yearOf_spec n
  constructor
  · intro h
    have hmono := yearStart_mono (show yearOf n + 1 ≤ y by omega)
    omega
  · intro h
    by_contra hless
    have hmono := yearStart_mono (show y ≤ yearOf n by omega)
    omega

/-- `-%m-%d` -/
def monthDayText (n : ℕ) : List Char :=
  let leap := isLeap (yearOf n)
  let month := monthOf leap (dayOfYear n)
  '-' :: (padded 2 (month + 1) ++ '-' :: padded 2 (dayOfYear n - monthStart leap month + 1))

theorem monthDayText_append_lt {a b : ℕ} (hyear : yearOf a = yearOf b) (h : a < b)
    (u v : List Char) : monthDayText a ++ u < monthDayText b ++ v := by
  have hday : dayOfYear a < dayOfYear b := by
    have hspec := (yearOf_spec a).1
    unfold dayOfYear
    rw [← hyear]
    omega
  obtain ⟨hstart, hmonth, hlength⟩ := monthOf_spec (isLeap (yearOf a)) _ (dayOfYear_lt a)
  obtain ⟨hstart', hmonth', hlength'⟩ := monthOf_spec (isLeap (yearOf b)) _ (dayOfYear_lt b)
  simp only [monthDayText, List.append_assoc, List.cons_append]
  rw [List.cons_lt_cons_iff, padded_append_lt (by omega) (by omega)]
  refine Or.inr ⟨rfl, ?_⟩
  rw [← hyear] at hstart' hmonth' hlength' ⊢
  rcases (monthOf_mono (isLeap (yearOf a)) hday.le).lt_or_eq with hless | hsame
  · exact Or.inl (by omega)
  · refine Or.inr ⟨by omega, ?_⟩
    rw [List.cons_lt_cons_iff, padded_append_lt (by omega) (by omega)]
    rw [← hsame] at hstart' hlength' ⊢
    exact Or.inr ⟨rfl, Or.inl (by omega)⟩

/-- The cycles of 400 years that bring a day behind the start of the year 0. -/
def cycles (n : ℤ) : ℕ := if 0 ≤ n then 0 else (-n).toNat / 146097 + 1

def shifted (n : ℤ) : ℕ := (n + 146097 * cycles n).toNat

def civilYear (n : ℤ) : ℤ := yearOf (shifted n) - 400 * cycles n

def yearText (y : ℤ) : List Char :=
  if 0 ≤ y ∧ y ≤ 9999 then padded 4 y.toNat
  else (if y < 0 then '-' else '+') :: padded (max 4 (Nat.log 10 y.natAbs + 1)) y.natAbs

/-- `%Y-%m-%d` -/
def dateText (n : ℤ) : List Char := yearText (civilYear n) ++ monthDayText (shifted n)

def lastDay : ℤ := 3652425

theorem yearStart_10000 : (yearStart 10000 : ℤ) = lastDay := by decide

variable {n a b : ℤ}

theorem shifted_of_nonneg (h : 0 ≤ n) : (shifted n : ℤ) = n ∧ civilYear n = yearOf n.toNat := by
  have hcycles : cycles n = 0 := if_pos h
  have hshifted : shifted n = n.toNat := by
    rw [shifted, hcycles]
    congr 1
    omega
  constructor
  · rw [hshifted]
    omega
  · rw [civilYear, hshifted, hcycles]
    omega

theorem shifted_of_neg (hlow : -365 ≤ n) (h : n < 0) :
    (shifted n : ℤ) = n + 146097 ∧ yearOf (shifted n) = 399 ∧ civilYear n = -1 := by
  have hcycles : cycles n = 1 := by
    rw [cycles, if_neg (by omega)]
    omega
  have hshifted : (shifted n : ℤ) = n + 146097 := by
    rw [shifted, hcycles]
    omega
  have hstart : yearStart 399 = 145732 := by decide
  have hend : yearStart 400 = 146097 := by decide
  have hlt := (yearOf_lt_iff (shifted n) 400).mpr (by omega)
  have hle := mt (yearOf_lt_iff (shifted n) 399).mp (by omega)
  have hyear : yearOf (shifted n) = 399 := by omega
  exact ⟨hshifted, hyear, by rw [civilYear, hyear, hcycles]; rfl⟩

theorem civilYear_of_lt (h : n < -365) : civilYear n ≤ -2 := by
  obtain ⟨k, hk⟩ : ∃ k, cycles n = k + 1 := ⟨(-n).toNat / 146097, if_neg (by omega)⟩
  have hstart : yearStart (400 * (k + 1) - 1) = 146097 * (k + 1) - 365 := by
    unfold yearStart
    omega
  have hshifted : (shifted n : ℤ) < 146097 * (k + 1) - 365 := by
    rw [shifted, hk]
    omega
  have hyear := (yearOf_lt_iff (shifted n) (400 * (k + 1) - 1)).mpr (by omega)
  rw [civilYear, hk]
  omega

theorem civilYear_of_ge (h : lastDay ≤ n) : 9999 < civilYear n := by
  have hnonneg : 0 ≤ n := le_trans (by decide) h
  have hlast := yearStart_10000
  rw [(shifted_of_nonneg hnonneg).2]
  have hyear := mt (yearOf_lt_iff n.toNat 10000).mp (by omega)
  omega

theorem sign_lt_digit {d : ℕ} (h : d < 10) :
    '+' < Nat.digitChar d ∧ '-' < Nat.digitChar d := by
  interval_cases d <;> decide

theorem sign_append_lt_padded {c : Char} (hsign : c = '+' ∨ c = '-') (k n : ℕ) (u v : List Char) :
    c :: u < padded (k + 1) n ++ v := by
  obtain ⟨hplus, hminus⟩ := sign_lt_digit (Nat.mod_lt (n / 10 ^ k) (show 0 < 10 by decide))
  rw [padded, List.cons_append, List.cons_lt_cons_iff]
  rcases hsign with rfl | rfl
  · exact Or.inl hplus
  · exact Or.inl hminus

theorem yearText_of_nonneg (h : 0 ≤ n) (hlast : n < lastDay) :
    yearText (civilYear n) = padded 4 (yearOf n.toNat) ∧ yearOf n.toNat < 10000 := by
  have hstart := yearStart_10000
  have hyear := (yearOf_lt_iff n.toNat 10000).mpr (by omega)
  rw [(shifted_of_nonneg h).2, yearText, if_pos ⟨by omega, by omega⟩]
  exact ⟨rfl, hyear⟩

theorem dateText_append_lt (ha : -365 ≤ a) (h : a < b) (hb : b < lastDay) (u v : List Char) :
    dateText a ++ u < dateText b ++ v := by
  simp only [dateText, List.append_assoc]
  rcases lt_or_ge b 0 with hneg | hnonneg
  · -- both days are in the year before the year 0
    obtain ⟨hshift, hyear, hcivil⟩ := shifted_of_neg ha (h.trans hneg)
    obtain ⟨hshift', hyear', hcivil'⟩ := shifted_of_neg (ha.trans h.le) hneg
    rw [hcivil, hcivil']
    exact List.append_left_lt (monthDayText_append_lt (hyear.trans hyear'.symm) (by omega) u v)
  · obtain ⟨htext', hyear'⟩ := yearText_of_nonneg hnonneg hb
    rcases lt_or_ge a 0 with haneg | hanonneg
    · rw [(shifted_of_neg ha haneg).2.2, htext']
      exact sign_append_lt_padded (Or.inr rfl) 3 _ _ _
    · obtain ⟨htext, hyear⟩ := yearText_of_nonneg hanonneg (h.trans hb)
      obtain ⟨hshift, _⟩ := shifted_of_nonneg hanonneg
      obtain ⟨hshift', _⟩ := shifted_of_nonneg hnonneg
      rw [htext, htext', padded_append_lt hyear hyear']
      rcases (yearOf_mono (show a.toNat ≤ b.toNat by omega)).lt_or_eq with hless | hsame
      · exact Or.inl hless
      · refine Or.inr ⟨hsame, monthDayText_append_lt ?_ (by omega) u v⟩
        rw [show shifted a = a.toNat by omega, show shifted b = b.toNat by omega]
        exact hsame

theorem dateText_lt_of_ge (ha : lastDay ≤ a) (hb : 0 ≤ b) (hlast : b < lastDay) (u v : List Char) :
    dateText a ++ u < dateText b ++ v := by
  have hyear := civilYear_of_ge ha
  simp only [dateText, List.append_assoc]
  rw [(yearText_of_nonneg hb hlast).1, yearText, if_neg (by omega), if_neg (by omega)]
  exact sign_append_lt_padded (Or.inl rfl) 3 _ _ _

theorem dateText_lt_of_lt (ha : a < -365) (hb : -365 ≤ b) (hneg : b < 0) (u v : List Char) :
    dateText b ++ u < dateText a ++ v := by
  have hyear := civilYear_of_lt ha
  obtain ⟨y, hy⟩ : ∃ y : ℕ, y = (civilYear a).natAbs := ⟨_, rfl⟩
  have hone : yearText (-1) = '-' :: padded 4 1 := by decide +kernel
  simp only [dateText, List.append_assoc]
  rw [(shifted_of_neg hb hneg).2.2, hone, yearText, if_neg (by omega), if_pos (by omega), ← hy,
    List.cons_append, List.cons_append, List.cons_lt_cons_iff]
  refine Or.inr ⟨rfl, ?_⟩
  by_cases hdigits : Nat.log 10 y + 1 ≤ 4
  · have hlt := Nat.lt_pow_succ_log_self (show 1 < 10 by decide) y
    have hpow : 10 ^ (Nat.log 10 y + 1) ≤ 10 ^ 4 := Nat.pow_le_pow_right (by decide) hdigits
    rw [max_eq_left hdigits, padded_append_lt (by decide) (by omega)]
    exact Or.inl (by omega)
  · -- more digits than four, and the first of them is not a zero
    have hpow := Nat.pow_log_le_self 10 (show y ≠ 0 by omega)
    have hlt := Nat.lt_pow_succ_log_self (show 1 < 10 by decide) y
    have hpos : 0 < y / 10 ^ Nat.log 10 y := Nat.div_pos hpow (by positivity)
    have hten : y / 10 ^ Nat.log 10 y < 10 := by
      rw [Nat.div_lt_iff_lt_mul (by positivity), ← Nat.pow_succ']
      exact hlt
    rw [max_eq_right (by omega), padded_succ 3, padded_succ (Nat.log 10 y), List.cons_append,
      List.cons_append, List.cons_lt_cons_iff, Nat.mod_eq_of_lt hten]
    exact Or.inl ((digitChar_lt (by decide) hten).mpr hpos)

/-- `T%H:%M:%S` -/
def timeText (s : ℕ) : List Char :=
  'T' :: (padded 2 (s / 3600) ++ ':' :: (padded 2 (s / 60 % 60) ++ ':' :: padded 2 (s % 60)))

theorem timeText_append_lt {a b : ℕ} (h : a < b) (hb : b < 86400) (u v : List Char) :
    timeText a ++ u < timeText b ++ v := by
  simp only [timeText, List.append_assoc, List.cons_append]
  rw [List.cons_lt_cons_iff, padded_append_lt (by omega) (by omega), List.cons_lt_cons_iff,
    padded_append_lt (by omega) (by omega), List.cons_lt_cons_iff,
    padded_append_lt (by omega) (by omega)]
  refine Or.inr ⟨rfl, ?_⟩
  by_cases hhour : a / 3600 < b / 3600
  · exact Or.inl hhour
  · refine Or.inr ⟨by omega, Or.inr ⟨rfl, ?_⟩⟩
    by_cases hminute : a / 60 % 60 < b / 60 % 60
    · exact Or.inl hminute
    · exact Or.inr ⟨by omega, Or.inr ⟨rfl, Or.inl (by omega)⟩⟩

/-- The date and the time of a second, counted from the start of the year 0. -/
def civilText (s : ℤ) : List Char := dateText (s / 86400) ++ timeText (s % 86400).toNat

theorem civilText_append_lt (ha : -365 * 86400 ≤ a) (h : a < b) (hb : b < lastDay * 86400)
    (u v : List Char) : civilText a ++ u < civilText b ++ v := by
  simp only [civilText, List.append_assoc]
  rcases (Int.ediv_le_ediv (show (0 : ℤ) < 86400 by decide) h.le).lt_or_eq with hday | hday
  · exact dateText_append_lt (by omega) hday (by omega) _ _
  · rw [hday]
    exact List.append_left_lt (timeText_append_lt (by omega) (by omega) u v)

/-- `to_rfc3339_opts(SecondsFormat::Millis, true)` of a millisecond of UTC. -/
def utcText (ms : ℤ) : List Char :=
  civilText (ms / 1000) ++ '.' :: (padded 3 (ms % 1000).toNat ++ ['Z'])

def Sortable (ms : ℤ) : Prop := -365 * 86400000 ≤ ms ∧ ms < lastDay * 86400000

instance (ms : ℤ) : Decidable (Sortable ms) := inferInstanceAs (Decidable (_ ∧ _))

theorem utcText_lt (ha : Sortable a) (hb : Sortable b) (h : a < b) : utcText a < utcText b := by
  obtain ⟨ha, _⟩ := ha
  obtain ⟨_, hb⟩ := hb
  unfold utcText
  rcases (Int.ediv_le_ediv (show (0 : ℤ) < 1000 by decide) h.le).lt_or_eq with hsecond | hsecond
  · exact civilText_append_lt (by omega) hsecond (by omega) _ _
  · rw [hsecond]
    apply List.append_left_lt
    rw [List.cons_lt_cons_iff, padded_append_lt (by omega) (by omega)]
    exact Or.inr ⟨rfl, Or.inl (by omega)⟩

theorem utcText_lt_iff (ha : Sortable a) (hb : Sortable b) : utcText a < utcText b ↔ a < b := by
  constructor
  · intro h
    rcases lt_trichotomy a b with hlt | rfl | hgt
    · exact hlt
    · exact absurd h (lt_irrefl _)
    · exact absurd h (lt_asymm (utcText_lt hb ha hgt))
  · exact utcText_lt ha hb

theorem utcText_lt_of_ge (ha : lastDay * 86400000 ≤ a) (hb : 0 ≤ b)
    (hlast : b < lastDay * 86400000) : utcText a < utcText b := by
  simp only [utcText, civilText, List.append_assoc]
  exact dateText_lt_of_ge (by omega) (by omega) (by omega) _ _

theorem utcText_lt_of_lt (ha : a < -365 * 86400000) (hb : -365 * 86400000 ≤ b) (hneg : b < 0) :
    utcText b < utcText a := by
  simp only [utcText, civilText, List.append_assoc]
  exact dateText_lt_of_lt (by omega) (by omega) (by omega) _ _

/-- `+hh:mm` or `-hh:mm` -/
def offsetText (minutes : ℤ) : List Char :=
  (if minutes < 0 then '-' else '+') ::
    (padded 2 (minutes.natAbs / 60) ++ ':' :: padded 2 (minutes.natAbs % 60))

/-- `to_rfc3339` of a whole second that is given in local time. -/
def zonedText (localSecond minutes : ℤ) : List Char :=
  civilText localSecond ++ offsetText minutes

theorem zonedText_lt_utcText (localSecond minutes : ℤ) :
    zonedText localSecond minutes < utcText (localSecond * 1000) := by
  rw [utcText, Int.mul_ediv_cancel _ (by decide), zonedText]
  apply List.append_left_lt
  rw [offsetText, List.cons_lt_cons_iff]
  split_ifs
  · exact Or.inl (by decide)
  · exact Or.inl (by decide)

theorem utcText_lt_zonedText {ms localSecond : ℤ} (hms : -365 * 86400000 ≤ ms)
    (h : ms / 1000 < localSecond) (hlocal : localSecond < lastDay * 86400) (minutes : ℤ) :
    utcText ms < zonedText localSecond minutes :=
  civilText_append_lt (by omega) h hlocal _ _

example : String.ofList (utcText 63953280000123) = "2026-08-07T00:00:00.123Z" := by decide +kernel
example : String.ofList (zonedText 63953308800 480) = "2026-08-07T08:00:00+08:00" := by
  decide +kernel
example : String.ofList (utcText (-60000)) = "-0001-12-31T23:59:00.000Z" := by decide +kernel

end Text
