import Mathlib.Data.List.Induction
import Mathlib.Tactic.IntervalCases
import Mathlib.Tactic.Ring

/-! Texts as lists of characters: cutting at a separator, and hexadecimal numerals of fixed
width. -/

namespace CohesionIpc.Text

/-! ## Separators -/

variable {α : Type*} [DecidableEq α] {sep : α} {s a b : List α}

/-- What stands before and after the first separator. -/
def cut? (sep : α) : List α → Option (List α × List α)
  | [] => none
  | c :: cs => if c = sep then some ([], cs) else (cut? sep cs).map fun p => (c :: p.1, p.2)

theorem cut?_append (ha : sep ∉ a) (b : List α) : cut? sep (a ++ sep :: b) = some (a, b) := by
  induction a with
  | nil => simp [cut?]
  | cons c a ih =>
      rw [List.mem_cons, not_or] at ha
      rw [List.cons_append, cut?, if_neg (Ne.symm ha.1), ih ha.2]
      rfl

theorem cut?_eq_some : cut? sep s = some (a, b) ↔ sep ∉ a ∧ s = a ++ sep :: b := by
  constructor
  · intro h
    induction s generalizing a with
    | nil => cases h
    | cons c s ih =>
        rw [cut?] at h
        split at h
        · rename_i hc
          cases h
          exact ⟨List.not_mem_nil, by rw [hc, List.nil_append]⟩
        · rename_i hc
          rw [Option.map_eq_some_iff] at h
          obtain ⟨⟨a', b'⟩, h, hp⟩ := h
          cases hp
          obtain ⟨ha, rfl⟩ := ih h
          refine ⟨?_, rfl⟩
          rw [List.mem_cons, not_or]
          exact ⟨Ne.symm hc, ha⟩
  · rintro ⟨ha, rfl⟩
    exact cut?_append ha b

theorem cut?_eq_none : cut? sep s = none ↔ sep ∉ s := by
  induction s with
  | nil => simp [cut?]
  | cons c s ih =>
      rw [cut?, List.mem_cons, not_or]
      split
      · rename_i hc
        simp [hc]
      · rename_i hc
        rw [Option.map_eq_none_iff, ih]
        exact ⟨fun h => ⟨Ne.symm hc, h⟩, fun h => h.2⟩

/-- A text is cut in one way. -/
theorem append_inj_of_notMem {a' b' : List α} (ha : sep ∉ a) (ha' : sep ∉ a')
    (h : a ++ sep :: b = a' ++ sep :: b') : a = a' ∧ b = b' := by
  have hcut := cut?_append ha b
  rw [h, cut?_append ha' b', Option.some.injEq, Prod.mk.injEq] at hcut
  exact ⟨hcut.1.symm, hcut.2.symm⟩

/-! ## Hexadecimal digits -/

/-- The value of a digit in either case. -/
def hexDigit? (c : Char) : Option ℕ :=
  if '0' ≤ c ∧ c ≤ '9' then some (c.toNat - 48)
  else if 'a' ≤ c ∧ c ≤ 'f' then some (c.toNat - 87)
  else if 'A' ≤ c ∧ c ≤ 'F' then some (c.toNat - 55)
  else none

def IsHex (c : Char) : Prop := (hexDigit? c).isSome

instance (c : Char) : Decidable (IsHex c) := inferInstanceAs (Decidable (_ = true))

/-- What holds for the codes of a range holds for its characters. -/
theorem forall_in_range {p : Char → Prop} {lo hi c : Char} (hc : lo ≤ c ∧ c ≤ hi)
    (h : ∀ n, lo.toNat ≤ n → n ≤ hi.toNat → p (Char.ofNat n)) : p c := by
  rw [← Char.ofNat_toNat c]
  exact h c.toNat hc.1 hc.2

/-- A digit is below 16 and prints as itself in lower case. -/
theorem hexDigit?_eq_some {c : Char} {d : ℕ} (h : hexDigit? c = some d) :
    d < 16 ∧ Nat.digitChar d = c.toLower := by
  simp only [hexDigit?] at h
  split at h
  · rename_i hc
    cases h
    exact forall_in_range (p := fun c => c.toNat - 48 < 16 ∧
      Nat.digitChar (c.toNat - 48) = c.toLower) hc (by decide)
  · split at h
    · rename_i hc
      cases h
      exact forall_in_range (p := fun c => c.toNat - 87 < 16 ∧
        Nat.digitChar (c.toNat - 87) = c.toLower) hc (by decide)
    · split at h
      · rename_i hc
        cases h
        exact forall_in_range (p := fun c => c.toNat - 55 < 16 ∧
          Nat.digitChar (c.toNat - 55) = c.toLower) hc (by decide)
      · cases h

theorem hexDigit?_digitChar {d : ℕ} (h : d < 16) : hexDigit? (Nat.digitChar d) = some d := by
  interval_cases d <;> decide

/-! ## Hexadecimal numerals -/

def hexValue (digits : List Char) : ℕ :=
  digits.foldl (fun n c => 16 * n + (hexDigit? c).getD 0) 0

/-- The numeral of exactly `width` digits. -/
def hexFixed : ℕ → ℕ → List Char
  | 0, _ => []
  | width + 1, n => hexFixed width (n / 16) ++ [Nat.digitChar (n % 16)]

@[simp] theorem length_hexFixed (width n : ℕ) : (hexFixed width n).length = width := by
  induction width generalizing n with
  | zero => rfl
  | succ width ih => simp [hexFixed, ih]

theorem hexValue_concat (ds : List Char) (c : Char) :
    hexValue (ds ++ [c]) = 16 * hexValue ds + (hexDigit? c).getD 0 := by
  simp [hexValue, List.foldl_append]

theorem hexValue_hexFixed (width n : ℕ) : hexValue (hexFixed width n) = n % 16 ^ width := by
  induction width generalizing n with
  | zero => simp [hexValue, hexFixed, Nat.mod_one]
  | succ width ih =>
      rw [hexFixed, hexValue_concat, ih, hexDigit?_digitChar (Nat.mod_lt _ (by decide)),
        Option.getD_some, Nat.pow_succ', Nat.mod_mul]
      ring

theorem isHex_of_mem_hexFixed {width n : ℕ} {c : Char} (h : c ∈ hexFixed width n) : IsHex c := by
  induction width generalizing n with
  | zero => cases h
  | succ width ih =>
      rcases List.mem_append.mp h with h | h
      · exact ih h
      · rw [List.mem_singleton.mp h, IsHex, hexDigit?_digitChar (Nat.mod_lt _ (by decide))]
        rfl

theorem hexValue_lt (ds : List Char) (h : ∀ c ∈ ds, IsHex c) : hexValue ds < 16 ^ ds.length := by
  induction ds using List.reverseRecOn with
  | nil => simp [hexValue]
  | append_singleton ds c ih =>
      obtain ⟨d, hd⟩ := Option.isSome_iff_exists.mp (h c (by simp))
      have hlt := (hexDigit?_eq_some hd).1
      have hds := ih fun c hc => h c (by simp [hc])
      rw [hexValue_concat, hd, Option.getD_some, List.length_append, List.length_singleton,
        Nat.pow_succ]
      omega

/-- The numeral of a value that was read is what was read, in lower case. -/
theorem hexFixed_hexValue {ds : List Char} (h : ∀ c ∈ ds, IsHex c) :
    hexFixed ds.length (hexValue ds) = ds.map Char.toLower := by
  induction ds using List.reverseRecOn with
  | nil => rfl
  | append_singleton ds c ih =>
      obtain ⟨d, hd⟩ := Option.isSome_iff_exists.mp (h c (by simp))
      obtain ⟨hlt, hchar⟩ := hexDigit?_eq_some hd
      have hds := ih fun c hc => h c (by simp [hc])
      have hdiv : (16 * hexValue ds + d) / 16 = hexValue ds := by omega
      have hmod : (16 * hexValue ds + d) % 16 = d := by omega
      rw [hexValue_concat, hd, Option.getD_some, List.length_append, List.length_singleton,
        hexFixed, hdiv, hmod, hds, hchar, List.map_append]
      rfl

theorem hexFixed_zero (width : ℕ) : hexFixed width 0 = List.replicate width '0' := by
  induction width with
  | zero => rfl
  | succ width ih =>
      rw [hexFixed, Nat.zero_div, ih, List.replicate_succ']
      rfl

/-- A numeral padded with zeros. -/
theorem leftpad_toDigits {width n : ℕ} (hwidth : 0 < width) (hn : n < 16 ^ width) :
    (Nat.toDigits 16 n).leftpad width '0' = hexFixed width n := by
  induction width generalizing n with
  | zero => omega
  | succ width ih =>
      rw [Nat.toDigits_eq_if (by decide)]
      split
      · rename_i hlt
        rw [hexFixed, Nat.div_eq_of_lt hlt, Nat.mod_eq_of_lt hlt, hexFixed_zero, List.leftpad,
          List.length_singleton, Nat.add_sub_cancel]
      · rename_i hge
        have hpos : 0 < width := by
          by_contra hzero
          rw [Nat.eq_zero_of_not_pos hzero] at hn
          omega
        have hdiv : n / 16 < 16 ^ width := by
          rw [Nat.pow_succ] at hn
          omega
        rw [hexFixed, ← ih hpos hdiv, List.leftpad, List.leftpad, List.length_append,
          List.length_singleton, Nat.add_sub_add_right, List.append_assoc]

end CohesionIpc.Text
