import CohesionIpc.Model.CommandLine

/-! Which arguments a server that is spawned on Windows gets as they were given: they are put
between quotation marks, and nothing in them is escaped. -/

namespace CohesionIpc.Spawn

/-! ## UTF-16 -/

theorem utf16_ne_nil (c : Char) : utf16 c ≠ [] := by
  rw [utf16]
  split <;> exact List.cons_ne_nil _ _

theorem utf16_of_lt {d : Char} (hd : d.toNat < 0xD800) : utf16 d = [UInt16.ofNat d.toNat] :=
  if_pos (hd.trans (by decide))

/-- A code unit below the surrogates belongs to one character only. -/
theorem mem_utf16 {c d : Char} (hd : d.toNat < 0xD800) :
    UInt16.ofNat d.toNat ∈ utf16 c ↔ c = d := by
  have hbound : c.toNat < 0x110000 := by
    rcases c.valid with h | ⟨-, h⟩
    · exact h.trans (by decide)
    · exact h
  have hunit : ∀ n, UInt16.ofNat d.toNat = UInt16.ofNat n ↔ d.toNat = n % 2 ^ 16 := by
    intro n
    rw [← UInt16.toNat_inj, UInt16.toNat_ofNat', UInt16.toNat_ofNat',
      Nat.mod_eq_of_lt (hd.trans (by decide))]
  rw [utf16]
  split
  · rename_i hc
    have hmod : c.toNat % 2 ^ 16 = c.toNat := Nat.mod_eq_of_lt hc
    rw [List.mem_singleton, hunit, hmod, Char.toNat_inj, eq_comm]
  · rename_i hc
    refine iff_of_false ?_ ?_
    · rw [List.mem_cons, List.mem_singleton, hunit, hunit]
      omega
    · rintro rfl
      omega

theorem wide_ne_nil {s : List Char} (hs : s ≠ []) : wide s ≠ [] := by
  cases s with
  | nil => exact absurd rfl hs
  | cons c s =>
      rw [wide, List.flatMap_cons]
      exact List.append_ne_nil_of_left_ne_nil (utf16_ne_nil c) _

theorem mem_wide {s : List Char} {d : Char} (hd : d.toNat < 0xD800) :
    UInt16.ofNat d.toNat ∈ wide s ↔ d ∈ s := by
  rw [wide, List.mem_flatMap]
  constructor
  · rintro ⟨c, hc, hmem⟩
    rwa [← (mem_utf16 hd).mp hmem]
  · exact fun h => ⟨d, h, (mem_utf16 hd).mpr rfl⟩

theorem wide_concat (s : List Char) (c : Char) : wide (s ++ [c]) = wide s ++ utf16 c := by
  rw [wide, List.flatMap_append, List.flatMap_singleton]
  rfl

theorem getLast?_wide {s : List Char} {d : Char} (hd : d.toNat < 0xD800) :
    (wide s).getLast? = some (UInt16.ofNat d.toNat) ↔ s.getLast? = some d := by
  rcases s.eq_nil_or_concat' with rfl | ⟨s, c, rfl⟩
  · simp [wide]
  · rw [wide_concat, List.getLast?_append_of_ne_nil _ (utf16_ne_nil c), List.getLast?_concat,
      Option.some.injEq]
    constructor
    · exact fun h => (mem_utf16 hd).mp (List.mem_of_getLast? h)
    · rintro rfl
      rw [utf16_of_lt hd]
      rfl

/-- The last code unit is that of the last character. -/
theorem wide_eq_concat {s : List Char} {d : Char} (hd : d.toNat < 0xD800) {r : List UInt16} :
    wide s = r ++ [UInt16.ofNat d.toNat] ↔ ∃ s', s = s' ++ [d] ∧ r = wide s' := by
  constructor
  · intro h
    have hlast : s.getLast? = some d := by
      rw [← getLast?_wide hd, h, List.getLast?_concat]
    obtain ⟨s', rfl⟩ := List.getLast?_eq_some_iff.mp hlast
    refine ⟨s', rfl, ?_⟩
    rw [wide_concat, utf16_of_lt hd] at h
    exact (List.append_cancel_right h).symm
  · rintro ⟨s', rfl, rfl⟩
    rw [wide_concat, utf16_of_lt hd]

/-! ## The command line -/

/-- Quotation mark, backslash and separators among the characters. -/
def characters : Marks Char where
  quote := '"'
  backslash := '\\'
  blank c := c = ' ' ∨ c = '\t'
  quote_ne := by decide
  blank_quote := by decide
  blank_backslash := by decide

theorem plain_wide {s : List Char} : marks.Plain (wide s) ↔ characters.Plain s :=
  and_congr (not_congr (mem_wide (d := '"') (by decide)))
    (not_congr (getLast?_wide (d := '\\') (by decide)))

theorem passes_wide (args : List (List Char)) :
    marks.Passes (args.map wide) ↔ characters.Passes args := by
  induction args with
  | nil => exact Iff.rfl
  | cons a as ih =>
      have hlast : (∃ r, wide a = r ++ [marks.quote] ∧ marks.Plain r) ↔
          ∃ r, a = r ++ [characters.quote] ∧ characters.Plain r := by
        constructor
        · rintro ⟨r, hr, hplain⟩
          obtain ⟨s', rfl, rfl⟩ := (wide_eq_concat (d := '"') (by decide)).mp hr
          exact ⟨s', rfl, plain_wide.mp hplain⟩
        · rintro ⟨r, rfl, hplain⟩
          exact ⟨wide r, (wide_eq_concat (d := '"') (by decide)).mpr ⟨r, rfl, rfl⟩,
            plain_wide.mpr hplain⟩
      rw [List.map_cons, Marks.Passes, Marks.Passes, plain_wide, ih, hlast, List.map_eq_nil_iff]

variable {convert : MultiByteToWideChar} {s path : List Char} {args : List (List Char)}

theorem unicode_nil (hconvert : convert.Documented) : unicode convert [] = none := by
  have hzero : Int.bmod (length []) (2 ^ 32) = 0 := by decide
  rw [unicode, hzero, hconvert.zero]
  rfl

theorem length_pos (hs : s ≠ []) : 0 < length s := by
  cases s with
  | nil => exact absurd rfl hs
  | cons c s =>
      rw [length, List.map_cons, List.sum_cons]
      exact Nat.add_pos_left c.utf8Size_pos _

theorem unicode_of_ne_nil (hconvert : convert.Documented) (hs : s ≠ [])
    (hlength : length s < 2 ^ 31) : unicode convert s = some (wide s) := by
  have hcast : Int.bmod (length s) (2 ^ 32) = length s := Int.bmod_eq_of_le (by omega) (by omega)
  have hne : ¬ (wide s).length ≤ 0 := by
    rw [Nat.le_zero, List.length_eq_zero_iff]
    exact wide_ne_nil hs
  rw [unicode, hcast, hconvert.whole s (length_pos hs) hlength]
  exact if_neg hne

/-- The arguments between quotation marks, each with a space behind it. -/
def quotedParts (args : List (List Char)) : List UInt16 :=
  args.flatMap fun i => appendQuoted [] (wide i)

theorem foldlM_unicode (hconvert : convert.Documented) (hargs : ∀ i ∈ args, i ≠ [])
    (hlength : ∀ i ∈ args, length i < 2 ^ 31) (cmdl : List UInt16) :
    args.foldlM (fun cmdl i => (unicode convert i).map (appendQuoted cmdl)) cmdl =
      some (cmdl ++ quotedParts args) := by
  induction args generalizing cmdl with
  | nil => simp [quotedParts]
  | cons i args ih =>
      have hi := unicode_of_ne_nil hconvert (hargs i List.mem_cons_self)
        (hlength i List.mem_cons_self)
      rw [List.foldlM_cons, hi, Option.map_some, Option.bind_eq_bind, Option.bind_some,
        ih (fun i h => hargs i (List.mem_cons_of_mem _ h))
          (fun i h => hlength i (List.mem_cons_of_mem _ h))]
      simp [quotedParts, appendQuoted]

theorem nonempty_of_foldlM (hconvert : convert.Documented) {cmdl cmdl' : List UInt16}
    (h : args.foldlM (fun cmdl i => (unicode convert i).map (appendQuoted cmdl)) cmdl =
      some cmdl') : ∀ i ∈ args, i ≠ [] := by
  induction args generalizing cmdl with
  | nil => exact fun i hi => absurd hi List.not_mem_nil
  | cons i args ih =>
      rw [List.foldlM_cons, Option.bind_eq_bind, Option.bind_eq_some_iff] at h
      obtain ⟨cmdl₁, hi, h⟩ := h
      intro j hj
      rcases List.mem_cons.mp hj with rfl | hj
      · rintro rfl
        rw [unicode_nil hconvert] at hi
        cases hi
      · exact ih h j hj

/-- Apart from the space at its end, it is the line of the arguments between quotation marks. -/
theorem quotedParts_eq (part : List UInt16) (args : List (List Char)) :
    appendQuoted [] part ++ quotedParts args =
      marks.line 0x20 part (args.map wide) ++ [0x20] := by
  have hfollowing : 0x20 :: quotedParts args = marks.following 0x20 (args.map wide) ++ [0x20] := by
    induction args with
    | nil => rfl
    | cons i args ih =>
        have hcons : quotedParts (i :: args) = appendQuoted [] (wide i) ++ quotedParts args := rfl
        rw [hcons, List.map_cons, Marks.following, List.cons_append, List.cons_append,
          List.append_assoc, List.cons_append, ← ih]
        simp [appendQuoted, marks]
  rw [Marks.line, List.cons_append, List.append_assoc, List.cons_append, ← hfollowing]
  simp [appendQuoted, marks]

/-- The arguments that the process gets are the path and the arguments given. -/
def Lossless (convert : MultiByteToWideChar) (spawnedPath : List Char) (args : List (List Char)) :
    Prop :=
  ∃ cmdl, commandLine convert spawnedPath args = some cmdl ∧
    arguments cmdl = (spawnedPath :: args).map wide

theorem commandLine_eq (hconvert : convert.Documented) (hpath : path ≠ [])
    (hargs : ∀ i ∈ args, i ≠ []) (hlength : ∀ i ∈ path :: args, length i < 2 ^ 31) :
    commandLine convert path args = some (marks.line 0x20 (wide path) (args.map wide) ++ [0]) := by
  rw [commandLine, unicode_of_ne_nil hconvert hpath (hlength path List.mem_cons_self)]
  simp only [Option.bind_eq_bind, Option.bind_some]
  rw [foldlM_unicode hconvert hargs fun i hi => hlength i (List.mem_cons_of_mem _ hi),
    Option.bind_some, quotedParts_eq, List.dropLast_concat]

theorem nonempty_of_commandLine (hconvert : convert.Documented) {cmdl : List UInt16}
    (h : commandLine convert path args = some cmdl) : ∀ i ∈ path :: args, i ≠ [] := by
  simp only [commandLine, Option.bind_eq_bind, Option.bind_eq_some_iff] at h
  obtain ⟨part, hpart, cmdl₁, hcmdl₁, -⟩ := h
  intro i hi
  rcases List.mem_cons.mp hi with rfl | hi
  · rintro rfl
    rw [unicode_nil hconvert] at hpart
    cases hpart
  · exact nonempty_of_foldlM hconvert hcmdl₁ i hi

/-- No terminator stands in the line. -/
theorem zero_notMem_line (hnul : ∀ i ∈ path :: args, '\x00' ∉ i) :
    0 ∉ marks.line 0x20 (wide path) (args.map wide) := by
  have hwide : ∀ i ∈ path :: args, 0 ∉ wide i :=
    fun i hi h => hnul i hi ((mem_wide (d := '\x00') (by decide)).mp h)
  intro h
  rw [Marks.line, List.mem_cons, List.mem_append, List.mem_cons] at h
  rcases h with h | h | h | h
  · exact absurd h (by decide)
  · exact hwide path List.mem_cons_self h
  · exact absurd h (by decide)
  · rcases Marks.mem_following h with h | h | ⟨a, ha, h⟩
    · exact absurd h (by decide)
    · exact absurd h (by decide)
    · obtain ⟨i, hi, rfl⟩ := List.mem_map.mp ha
      exact hwide i (List.mem_cons_of_mem _ hi) h

theorem arguments_eq (hnul : ∀ i ∈ path :: args, '\x00' ∉ i) (hpath : '"' ∉ path) :
    arguments (marks.line 0x20 (wide path) (args.map wide) ++ [0]) =
      wide path :: marks.split .between 0 [] (marks.following 0x20 (args.map wide)) := by
  have hline : ((marks.line 0x20 (wide path) (args.map wide) ++ [0]).takeWhile (· ≠ 0)) =
      marks.line 0x20 (wide path) (args.map wide) := by
    rw [List.takeWhile_append_of_pos, List.takeWhile_cons_of_neg (by decide), List.append_nil]
    intro u hu
    refine decide_eq_true ?_
    rintro rfl
    exact zero_notMem_line hnul hu
  rw [arguments, hline]
  exact Marks.argv_line rfl (fun h => hpath ((mem_wide (d := '"') (by decide)).mp h)) _

/-- The arguments come through when none is empty, none ends in a backslash, and only the last
one may have a quotation mark, at its end. -/
theorem lossless_iff (convert : MultiByteToWideChar) (hconvert : convert.Documented)
    (path : List Char) (args : List (List Char)) (hpath : '"' ∉ path)
    (hnul : ∀ i ∈ path :: args, '\x00' ∉ i) (hlength : ∀ i ∈ path :: args, length i < 2 ^ 31) :
    Lossless convert path args ↔
      (∀ i ∈ path :: args, i ≠ []) ∧ characters.Passes args := by
  have hblank : marks.blank 0x20 = true := rfl
  constructor
  · rintro ⟨cmdl, hcmdl, harguments⟩
    have hne := nonempty_of_commandLine hconvert hcmdl
    have heq := commandLine_eq hconvert (hne path List.mem_cons_self)
      (fun i hi => hne i (List.mem_cons_of_mem _ hi)) hlength
    rw [heq, Option.some.injEq] at hcmdl
    rw [← hcmdl, arguments_eq hnul hpath, List.map_cons, List.cons.injEq] at harguments
    rw [← passes_wide, ← Marks.split_following_iff hblank]
    exact ⟨hne, harguments.2⟩
  · rintro ⟨hne, hpasses⟩
    refine ⟨_, commandLine_eq hconvert (hne path List.mem_cons_self)
      (fun i hi => hne i (List.mem_cons_of_mem _ hi)) hlength, ?_⟩
    rw [← passes_wide, ← Marks.split_following_iff hblank] at hpasses
    rw [arguments_eq hnul hpath, hpasses, List.map_cons]

def takeBytes : List Char → ℤ → List Char
  | [], _ => []
  | c :: s, n => if (c.utf8Size : ℤ) ≤ n then c :: takeBytes s (n - c.utf8Size) else []

theorem takeBytes_length (s : List Char) : takeBytes s (length s) = s := by
  induction s with
  | nil => rfl
  | cons c s ih =>
      have hlength : (length (c :: s) : ℤ) = c.utf8Size + length s := by simp [length]
      have hrest : (length (c :: s) : ℤ) - c.utf8Size = length s := by omega
      rw [takeBytes, if_pos (by omega), hrest, ih]

theorem takeBytes_zero (s : List Char) : takeBytes s 0 = [] := by
  cases s with
  | nil => rfl
  | cons c s =>
      have hpos := c.utf8Size_pos
      rw [takeBytes, if_neg (by omega)]

/-- A conversion that leaves out a character of which a byte is missing. -/
def wholeCharacters : MultiByteToWideChar := fun s n => wide (takeBytes s n)

theorem documented_wholeCharacters : wholeCharacters.Documented where
  whole s _ _ := congrArg wide (takeBytes_length s)
  zero s := congrArg wide (takeBytes_zero s)

theorem lossless_iff_spaces :
    Lossless wholeCharacters ['a', ' ', 'b'] [['\\', 'c', ' '], ['d', '"']] ↔
      (∀ i ∈ [['a', ' ', 'b'], ['\\', 'c', ' '], ['d', '"']], i ≠ []) ∧
        characters.Passes [['\\', 'c', ' '], ['d', '"']] :=
  lossless_iff wholeCharacters documented_wholeCharacters ['a', ' ', 'b']
    [['\\', 'c', ' '], ['d', '"']] (by decide) (by decide) (by decide)

/-- A backslash at the end of an argument hides the quotation mark behind it. -/
theorem not_lossless_backslash :
    ¬ Lossless wholeCharacters ['a'] [['b', '\\'], ['c']] := by
  rintro ⟨cmdl, hcmdl, harguments⟩
  have heq : commandLine wholeCharacters ['a'] [['b', '\\'], ['c']] =
      some [0x22, 0x61, 0x22, 0x20, 0x22, 0x62, 0x5C, 0x22, 0x20, 0x22, 0x63, 0x22, 0] := by
    decide
  rw [heq, Option.some.injEq] at hcmdl
  subst hcmdl
  exact absurd harguments (by decide)

end CohesionIpc.Spawn
