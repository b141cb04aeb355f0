import Mathlib.Data.List.Count
import Mathlib.Data.List.Infix

/-! Command lines and the arguments that the C runtime of Windows makes of them, over an
arbitrary alphabet. -/

namespace CohesionIpc

/-- The symbols with a meaning: quotation mark, backslash and what separates arguments. -/
structure Marks (α : Type*) where
  quote : α
  backslash : α
  blank : α → Bool
  quote_ne : quote ≠ backslash
  blank_quote : blank quote = false
  blank_backslash : blank backslash = false

namespace Marks

/-- Between two arguments, or in one: outside of quotation marks, inside, or inside after a
quotation mark that may be the first of two. -/
inductive Mode
  | between
  | plain
  | quoted
  | closing
deriving DecidableEq, Repr

/-- A backslash begins an argument, and it is not the second of two quotation marks. -/
def Mode.backslash : Mode → Mode
  | .quoted => .quoted
  | .between | .plain | .closing => .plain

variable {α : Type*} [DecidableEq α] (M : Marks α)

/-- The arguments after the name of the program. Of the `k` backslashes before a quotation mark
half are kept, and the mark is itself kept where there is an odd one; inside of quotation marks
two of them stand for one. `word` is what there is of the argument so far. -/
def split : Mode → ℕ → List α → List α → List (List α)
  | .between, _, _, [] => []
  | .plain, k, word, [] | .quoted, k, word, [] | .closing, k, word, [] =>
      [word ++ List.replicate k M.backslash]
  | mode, k, word, c :: cs =>
      if c = M.backslash then split mode.backslash (k + 1) word cs
      else if c = M.quote then
        let word := word ++ List.replicate (k / 2) M.backslash
        if k % 2 = 1 then split mode 0 (word ++ [c]) cs
        else
          match mode with
          | .quoted => split .closing 0 word cs
          | .closing => split .quoted 0 (word ++ [c]) cs
          | .between | .plain => split .quoted 0 word cs
      else
        let word := word ++ List.replicate k M.backslash
        match mode with
        | .quoted => split .quoted 0 (word ++ [c]) cs
        | .between =>
            if M.blank c then split .between 0 [] cs else split .plain 0 (word ++ [c]) cs
        | .plain | .closing =>
            if M.blank c then word :: split .between 0 [] cs else split .plain 0 (word ++ [c]) cs

/-- The name of the program comes first: in it a backslash has no special meaning. -/
def argv : Bool → List α → List α → List (List α)
  | _, word, [] => [word]
  | quoted, word, c :: cs =>
      if c = M.quote then argv (!quoted) word cs
      else if !quoted && M.blank c then word :: M.split .between 0 [] cs
      else argv quoted (word ++ [c]) cs

/-! ## Without backslashes before quotation marks -/

/-- The arguments where a backslash is a symbol like any other. -/
def words : Mode → List α → List α → List (List α)
  | .between, _, [] => []
  | .plain, word, [] | .quoted, word, [] | .closing, word, [] => [word]
  | .quoted, word, c :: cs =>
      if c = M.quote then words .closing word cs else words .quoted (word ++ [c]) cs
  | .closing, word, c :: cs =>
      if c = M.quote then words .quoted (word ++ [c]) cs
      else if M.blank c then word :: words .between [] cs
      else words .plain (word ++ [c]) cs
  | .plain, word, c :: cs =>
      if c = M.quote then words .quoted word cs
      else if M.blank c then word :: words .between [] cs
      else words .plain (word ++ [c]) cs
  | .between, word, c :: cs =>
      if c = M.quote then words .quoted word cs
      else if M.blank c then words .between [] cs
      else words .plain (word ++ [c]) cs

/-- No backslash stands before a quotation mark; `after` is whether one comes before all. -/
def Clean : Bool → List α → Prop
  | _, [] => True
  | after, c :: cs => (c = M.quote → after = false) ∧ Clean (decide (c = M.backslash)) cs

variable {M} {cs word : List α} {c : α} {mode : Mode} {k : ℕ}

theorem split_backslash : M.split mode k word (M.backslash :: cs) =
    M.split mode.backslash (k + 1) word cs := by
  cases mode <;> simp [split]

theorem words_backslash : M.words mode word (M.backslash :: cs) =
    M.words mode.backslash (word ++ [M.backslash]) cs := by
  cases mode <;> simp [words, M.quote_ne.symm, M.blank_backslash, Mode.backslash]

theorem split_of_clean (hk : 0 < k → mode = .plain ∨ mode = .quoted)
    (hword : mode = .between → word = []) (h : M.Clean (decide (0 < k)) cs) :
    M.split mode k word cs = M.words mode (word ++ List.replicate k M.backslash) cs := by
  induction cs generalizing mode k word with
  | nil => cases mode <;> rfl
  | cons c cs ih =>
      obtain ⟨hquote, hrest⟩ := h
      by_cases hc : c = M.backslash
      · subst hc
        rw [decide_eq_true rfl] at hrest
        rw [split_backslash, words_backslash, ih ?_ ?_ (by simpa using hrest),
          List.replicate_succ', List.append_assoc]
        · cases mode <;> simp [Mode.backslash]
        · cases mode <;> simp [Mode.backslash]
      · rw [decide_eq_false hc] at hrest
        have hnext : ∀ {mode word}, (mode = .between → word = []) →
            M.split mode 0 word cs = M.words mode word cs := by
          intro mode word hword
          rw [ih (by simp) hword (by simpa using hrest), List.replicate_zero, List.append_nil]
        by_cases hq : c = M.quote
        · have hzero : k = 0 := by simpa using hquote hq
          subst hzero hq
          cases mode <;> simp [split, words, hc, hnext]
        · by_cases hb : M.blank c = true
          · cases mode <;> simp [split, words, hc, hq, hb, hnext]
          · cases mode <;> simp [split, words, hc, hq, hb, hnext]

/-! ## No backslash is lost -/

/-- At a quotation mark the backslashes before it are halved. -/
theorem split_quote (mode : Mode) (k : ℕ) (word cs : List α) : ∃ mode' l, l.count M.backslash = 0 ∧
    M.split mode k word (M.quote :: cs) =
      M.split mode' 0 (word ++ List.replicate (k / 2) M.backslash ++ l) cs := by
  have hcount : [M.quote].count M.backslash = 0 :=
    List.count_eq_zero.mpr (by simpa using M.quote_ne.symm)
  by_cases hodd : k % 2 = 1
  · refine ⟨mode, [M.quote], hcount, ?_⟩
    cases mode <;> simp [split, M.quote_ne, hodd]
  · cases mode with
    | between => exact ⟨.quoted, [], rfl, by simp [split, M.quote_ne, hodd]⟩
    | plain => exact ⟨.quoted, [], rfl, by simp [split, M.quote_ne, hodd]⟩
    | quoted => exact ⟨.closing, [], rfl, by simp [split, M.quote_ne, hodd]⟩
    | closing => exact ⟨.quoted, [M.quote], hcount, by simp [split, M.quote_ne, hodd]⟩

/-- At any other symbol they are kept. -/
theorem split_other (mode : Mode) (k : ℕ) (word cs : List α) (hc : c ≠ M.backslash)
    (hq : c ≠ M.quote) :
    (∃ mode', M.split mode k word (c :: cs) =
      M.split mode' 0 (word ++ List.replicate k M.backslash ++ [c]) cs) ∨
    M.split mode k word (c :: cs) =
      (word ++ List.replicate k M.backslash) :: M.split .between 0 [] cs ∨
    M.split mode k word (c :: cs) = M.split .between 0 [] cs := by
  cases mode with
  | quoted => exact .inl ⟨.quoted, by simp [split, hc, hq]⟩
  | between =>
      by_cases hb : M.blank c = true
      · exact .inr (.inr (by simp [split, hc, hq, hb]))
      · exact .inl ⟨.plain, by simp [split, hc, hq, hb]⟩
  | plain | closing =>
      by_cases hb : M.blank c = true
      · exact .inr (.inl (by simp [split, hc, hq, hb]))
      · exact .inl ⟨.plain, by simp [split, hc, hq, hb]⟩

/-- Of the backslashes before a quotation mark some are lost. -/
theorem count_split (mode : Mode) (k : ℕ) (word cs : List α) :
    ((M.split mode k word cs).flatten).count M.backslash ≤
      word.count M.backslash + k + cs.count M.backslash ∧
    (((M.split mode k word cs).flatten).count M.backslash =
      word.count M.backslash + k + cs.count M.backslash → M.Clean (decide (0 < k)) cs) := by
  induction cs generalizing mode k word with
  | nil =>
      refine ⟨?_, fun _ => trivial⟩
      cases mode <;> simp [split]
  | cons c cs ih =>
      by_cases hc : c = M.backslash
      · subst hc
        obtain ⟨hle, hclean⟩ := ih mode.backslash (k + 1) word
        rw [split_backslash, List.count_cons_self]
        refine ⟨by omega, fun heq => ⟨fun h => absurd h.symm M.quote_ne, ?_⟩⟩
        rw [decide_eq_true rfl]
        simpa using hclean (by omega)
      rw [List.count_cons_of_ne hc]
      by_cases hq : c = M.quote
      · subst hq
        obtain ⟨mode', l, hl, hsplit⟩ := split_quote mode k word cs
        obtain ⟨hle, hclean⟩ := ih mode' 0 (word ++ List.replicate (k / 2) M.backslash ++ l)
        rw [← hsplit, List.count_append, List.count_append, hl, List.count_replicate_self]
          at hle hclean
        refine ⟨by omega, fun heq => ?_⟩
        have hzero : k = 0 := by omega
        subst hzero
        refine ⟨fun _ => rfl, ?_⟩
        rw [decide_eq_false hc]
        exact hclean heq
      · have hclean' : M.Clean false cs → M.Clean (decide (0 < k)) (c :: cs) := by
          intro h
          refine ⟨fun h => absurd h hq, ?_⟩
          rwa [decide_eq_false hc]
        rcases split_other mode k word cs hc hq with ⟨mode', hsplit⟩ | hsplit | hsplit
        · obtain ⟨hle, hclean⟩ := ih mode' 0 (word ++ List.replicate k M.backslash ++ [c])
          have hcount : [c].count M.backslash = 0 :=
            List.count_eq_zero.mpr (by simpa using Ne.symm hc)
          rw [← hsplit, List.count_append, List.count_append, hcount, List.count_replicate_self]
            at hle hclean
          exact ⟨by omega, fun heq => hclean' (hclean (by omega))⟩
        · obtain ⟨hle, hclean⟩ := ih .between 0 []
          rw [hsplit, List.flatten_cons, List.count_append, List.count_append,
            List.count_replicate_self]
          rw [List.count_nil] at hle hclean
          exact ⟨by omega, fun heq => hclean' (hclean (by omega))⟩
        · obtain ⟨hle, hclean⟩ := ih .between 0 []
          rw [hsplit]
          rw [List.count_nil] at hle hclean
          exact ⟨by omega, fun heq => hclean' (hclean (by omega))⟩

/-! ## One argument between quotation marks -/

/-- What there is of an argument stays at its front. -/
theorem words_append (hmode : mode ≠ .between) (word' : List α) :
    M.words mode (word' ++ word) cs = (M.words mode word cs).modifyHead (word' ++ ·) := by
  induction cs generalizing mode word with
  | nil =>
      cases mode with
      | between => exact absurd rfl hmode
      | plain | quoted | closing => rfl
  | cons c cs ih =>
      cases mode with
      | between => exact absurd rfl hmode
      | quoted =>
          by_cases hq : c = M.quote
          · simp [words, hq, ih]
          · simp [words, hq, ih]
      | plain | closing =>
          by_cases hq : c = M.quote
          · simp [words, hq, ih]
          · by_cases hb : M.blank c = true
            · simp [words, hq, hb]
            · simp [words, hq, hb, ih]

theorem words_singleton (hmode : mode ≠ .between) {e : List α} {as : List (List α)} :
    M.words mode [c] cs = e :: as ↔ ∃ e', e = c :: e' ∧ M.words mode [] cs = e' :: as := by
  have happend : M.words mode ([c] ++ []) cs = (M.words mode [] cs).modifyHead ([c] ++ ·) :=
    words_append hmode [c]
  rw [List.append_nil] at happend
  rw [happend]
  cases M.words mode [] cs with
  | nil => simp
  | cons a rest =>
      rw [List.modifyHead_cons, List.cons.injEq]
      constructor
      · rintro ⟨rfl, rfl⟩
        exact ⟨a, rfl, rfl⟩
      · rintro ⟨e', rfl, h⟩
        cases h
        exact ⟨rfl, rfl⟩

section Quoted

variable {e : List α} {as : List (List α)}

theorem quoted_cons (hc : c ≠ M.quote) : M.words .quoted [] (c :: cs) = e :: as ↔
    ∃ e', e = c :: e' ∧ M.words .quoted [] cs = e' :: as := by
  rw [words, if_neg hc, List.nil_append]
  exact words_singleton (by decide)

theorem quoted_two : M.words .quoted [] (M.quote :: M.quote :: cs) = e :: as ↔
    ∃ e', e = M.quote :: e' ∧ M.words .quoted [] cs = e' :: as := by
  rw [words, if_pos rfl, words, if_pos rfl, List.nil_append]
  exact words_singleton (by decide)

/-- A quotation mark that is not the first of two is not kept. -/
theorem quoted_close_ne (hc : c ≠ M.quote) :
    M.words .quoted [] (M.quote :: c :: cs) ≠ (M.quote :: e) :: as := by
  intro h
  rw [words, if_pos rfl, words, if_neg hc] at h
  split at h
  · cases h
  · rw [List.nil_append] at h
    obtain ⟨e', he, -⟩ := (words_singleton (by decide)).mp h
    cases he
    exact hc rfl

theorem quoted_last_ne : M.words .quoted [] [M.quote] ≠ (M.quote :: e) :: as := by
  rw [words, if_pos rfl, words]
  intro h
  cases h

end Quoted

/-! ## A line of arguments between quotation marks -/

/-- Arguments that follow another one. -/
def following (M : Marks α) (space : α) : List (List α) → List α
  | [] => []
  | a :: as => space :: M.quote :: (a ++ M.quote :: following M space as)

variable {space : α}

omit [DecidableEq α] in
theorem ne_quote_of_blank (hspace : M.blank space = true) : space ≠ M.quote := by
  rintro rfl
  rw [M.blank_quote] at hspace
  cases hspace

omit [DecidableEq α] in
theorem replicate_append_cons (n : ℕ) (a : α) (l : List α) :
    List.replicate n a ++ a :: l = List.replicate (n + 1) a ++ l := by
  rw [List.replicate_succ', List.append_assoc, List.singleton_append]

/-- The quotation mark that closes an argument is not kept when something follows. -/
theorem quote_following_ne (hspace : M.blank space = true) (rest : List (List α)) {e : List α}
    {as : List (List α)} :
    M.words .quoted [] (M.quote :: M.following space rest) ≠ (M.quote :: e) :: as := by
  cases rest with
  | nil => exact quoted_last_ne
  | cons b bs => exact quoted_close_ne (ne_quote_of_blank hspace)

theorem following_ne (hspace : M.blank space = true) (rest : List (List α)) {e : List α}
    {as : List (List α)} : M.words .quoted [] (M.following space rest) ≠ (M.quote :: e) :: as := by
  cases rest with
  | nil =>
      intro h
      cases h
  | cons b bs =>
      intro h
      obtain ⟨e', he, -⟩ := (quoted_cons (ne_quote_of_blank hspace)).mp h
      cases he
      exact ne_quote_of_blank hspace rfl

/-- Where quotation marks are missing that the argument should have, no way leads back. -/
theorem words_ne_of_deficit (hspace : M.blank space = true) (rest : List (List α)) (s : List α)
    (d : ℕ) (as : List (List α)) :
    M.words .quoted [] (s ++ M.quote :: M.following space rest) ≠
      (List.replicate (d + 1) M.quote ++ s) :: as := by
  induction hn : s.length using Nat.strongRecOn generalizing s d with
  | _ n ih =>
      intro h
      rw [List.replicate_succ, List.cons_append] at h
      match s with
      | [] => exact quote_following_ne hspace rest h
      | [c] =>
          by_cases hc : c = M.quote
          · subst hc
            obtain ⟨e', he, hrest⟩ := quoted_two.mp h
            rw [List.cons.injEq] at he
            rw [← he.2, replicate_append_cons, List.replicate_succ] at hrest
            exact following_ne hspace rest hrest
          · obtain ⟨e', he, -⟩ := (quoted_cons hc).mp h
            cases he
            exact hc rfl
      | c :: c' :: s =>
          by_cases hc : c = M.quote
          · subst hc
            by_cases hc' : c' = M.quote
            · subst hc'
              obtain ⟨e', he, hrest⟩ := quoted_two.mp h
              rw [List.cons.injEq] at he
              rw [← he.2, replicate_append_cons, replicate_append_cons] at hrest
              exact ih s.length (by simp only [List.length_cons] at hn; omega) s (d + 1) rfl hrest
            · exact quoted_close_ne hc' h
          · obtain ⟨e', he, -⟩ := (quoted_cons hc).mp h
            cases he
            exact hc rfl

omit [DecidableEq α] in
/-- Nothing else is in the line. -/
theorem mem_following {x : α} {args : List (List α)} (h : x ∈ M.following space args) :
    x = space ∨ x = M.quote ∨ ∃ a ∈ args, x ∈ a := by
  induction args with
  | nil => exact absurd h List.not_mem_nil
  | cons a as ih =>
      rw [following, List.mem_cons, List.mem_cons, List.mem_append, List.mem_cons] at h
      rcases h with h | h | h | h | h
      · exact .inl h
      · exact .inr (.inl h)
      · exact .inr (.inr ⟨a, List.mem_cons_self, h⟩)
      · exact .inr (.inl h)
      · rcases ih h with h | h | ⟨b, hb, hmem⟩
        · exact .inl h
        · exact .inr (.inl h)
        · exact .inr (.inr ⟨b, List.mem_cons_of_mem _ hb, hmem⟩)

/-- The end of an argument. -/
theorem words_quote_following (hspace : M.blank space = true) (as : List (List α)) :
    M.words .quoted [] (M.quote :: M.following space as) =
      [] :: M.words .between [] (M.following space as) := by
  rw [words, if_pos rfl]
  cases as with
  | nil => rfl
  | cons b bs =>
      have hne := ne_quote_of_blank hspace
      simp [following, words, hne, hspace]

theorem words_following_nil (hspace : M.blank space = true) {rest as : List (List α)}
    (h : M.words .quoted [] (M.following space rest) = [] :: as) : rest = [] := by
  cases rest with
  | nil => rfl
  | cons b bs =>
      obtain ⟨e', he, -⟩ := (quoted_cons (ne_quote_of_blank hspace)).mp h
      cases he

/-- An argument is kept when it has no quotation mark, or one at the end of the line. -/
theorem words_quoted_iff (hspace : M.blank space = true) (a : List α) (as : List (List α)) :
    M.words .quoted [] (a ++ M.quote :: M.following space as) = a :: as ↔
      (M.quote ∉ a ∧ M.words .between [] (M.following space as) = as) ∨
        (as = [] ∧ ∃ r, a = r ++ [M.quote] ∧ M.quote ∉ r) := by
  induction a with
  | nil =>
      rw [List.nil_append, words_quote_following hspace]
      simp
  | cons c a ih =>
      by_cases hc : c = M.quote
      · subst hc
        constructor
        · intro h
          cases a with
          | nil =>
              obtain ⟨e', he, hrest⟩ := quoted_two.mp h
              cases he
              exact .inr ⟨words_following_nil hspace hrest, [], rfl, List.not_mem_nil⟩
          | cons c a =>
              by_cases hc : c = M.quote
              · subst hc
                obtain ⟨e', he, hrest⟩ := quoted_two.mp h
                cases he
                exact absurd hrest (words_ne_of_deficit hspace as a 0 as)
              · exact absurd h (quoted_close_ne hc)
        · rintro (⟨hnot, -⟩ | ⟨rfl, r, hr, hnot⟩)
          · exact absurd List.mem_cons_self hnot
          · cases r with
            | nil =>
                cases hr
                exact quoted_two.mpr ⟨[], rfl, rfl⟩
            | cons c r =>
                cases hr
                exact absurd List.mem_cons_self hnot
      · have hmem : M.quote ∉ c :: a ↔ M.quote ∉ a := by
          rw [List.mem_cons, not_or]
          exact and_iff_right (Ne.symm hc)
        have hlast : (∃ r, c :: a = r ++ [M.quote] ∧ M.quote ∉ r) ↔
            ∃ r, a = r ++ [M.quote] ∧ M.quote ∉ r := by
          constructor
          · rintro ⟨r, hr, hnot⟩
            cases r with
            | nil =>
                cases hr
                exact absurd rfl hc
            | cons c' r =>
                cases hr
                exact ⟨r, rfl, fun h => hnot (List.mem_cons_of_mem _ h)⟩
          · rintro ⟨r, rfl, hnot⟩
            refine ⟨c :: r, rfl, ?_⟩
            rw [List.mem_cons, not_or]
            exact ⟨Ne.symm hc, hnot⟩
        rw [List.cons_append, quoted_cons hc, hmem, hlast, ← ih]
        simp

/-- What comes back from a line without backslashes before quotation marks. -/
def Kept (M : Marks α) : List (List α) → Prop
  | [] => True
  | a :: as => (M.quote ∉ a ∧ Kept M as) ∨ (as = [] ∧ ∃ r, a = r ++ [M.quote] ∧ M.quote ∉ r)

theorem words_following_iff (hspace : M.blank space = true) (args : List (List α)) :
    M.words .between [] (M.following space args) = args ↔ M.Kept args := by
  induction args with
  | nil => exact iff_of_true rfl trivial
  | cons a as ih =>
      have hbegin : M.words .between [] (M.following space (a :: as)) =
          M.words .quoted [] (a ++ M.quote :: M.following space as) := by
        simp [following, words, ne_quote_of_blank hspace, hspace]
      rw [hbegin, words_quoted_iff hspace, ih]
      exact Iff.rfl

/-! ## Which arguments come back -/

/-- No quotation mark, and no backslash before the one that is put behind. -/
def Plain (M : Marks α) (a : List α) : Prop := M.quote ∉ a ∧ a.getLast? ≠ some M.backslash

/-- Every argument is plain; the last one may have a quotation mark at its end. -/
def Passes (M : Marks α) : List (List α) → Prop
  | [] => True
  | a :: as => (M.Plain a ∧ Passes M as) ∨ (as = [] ∧ ∃ r, a = r ++ [M.quote] ∧ M.Plain r)

/-- A text without quotation marks is clean; it may end in a backslash. -/
theorem clean_append {r : List α} (hr : M.quote ∉ r) (after : Bool) (cs : List α) :
    M.Clean after (r ++ M.quote :: cs) ↔
      (r = [] → after = false) ∧ r.getLast? ≠ some M.backslash ∧ M.Clean false cs := by
  induction r generalizing after with
  | nil => simp [Clean, M.quote_ne]
  | cons c r ih =>
      rw [List.mem_cons, not_or] at hr
      rw [List.cons_append, Clean, ih hr.2]
      cases r with
      | nil => simp [Ne.symm hr.1]
      | cons d r => simp [Ne.symm hr.1]

omit [DecidableEq α] in
theorem ne_backslash_of_blank (hspace : M.blank space = true) : space ≠ M.backslash := by
  rintro rfl
  rw [M.blank_backslash] at hspace
  cases hspace

theorem clean_following (hspace : M.blank space = true) (a : List α) (as : List (List α)) :
    M.Clean false (M.following space (a :: as)) ↔
      M.Clean false (a ++ M.quote :: M.following space as) := by
  simp [following, Clean, ne_backslash_of_blank hspace, M.quote_ne]

theorem passes_iff (hspace : M.blank space = true) (args : List (List α)) :
    M.Passes args ↔ M.Kept args ∧ M.Clean false (M.following space args) := by
  induction args with
  | nil => exact iff_of_true trivial ⟨trivial, trivial⟩
  | cons a as ih =>
      rw [clean_following hspace]
      constructor
      · rintro (⟨⟨hnot, hlast⟩, has⟩ | ⟨rfl, r, rfl, hnot, hlast⟩)
        · obtain ⟨hkept, hclean⟩ := ih.mp has
          exact ⟨.inl ⟨hnot, hkept⟩, (clean_append hnot _ _).mpr ⟨fun _ => rfl, hlast, hclean⟩⟩
        · refine ⟨.inr ⟨rfl, r, rfl, hnot⟩, ?_⟩
          rw [List.append_assoc]
          exact (clean_append hnot _ _).mpr ⟨fun _ => rfl, hlast, fun _ => rfl, trivial⟩
      · rintro ⟨⟨hnot, hkept⟩ | ⟨rfl, r, rfl, hnot⟩, hclean⟩
        · obtain ⟨-, hlast, hclean⟩ := (clean_append hnot _ _).mp hclean
          exact .inl ⟨⟨hnot, hlast⟩, ih.mpr ⟨hkept, hclean⟩⟩
        · rw [List.append_assoc] at hclean
          obtain ⟨-, hlast, -⟩ := (clean_append hnot _ _).mp hclean
          exact .inr ⟨rfl, r, rfl, hnot, hlast⟩

theorem count_following (hspace : M.blank space = true) (args : List (List α)) :
    (M.following space args).count M.backslash = args.flatten.count M.backslash := by
  induction args with
  | nil => rfl
  | cons a as ih =>
      rw [following, List.count_cons_of_ne (ne_backslash_of_blank hspace),
        List.count_cons_of_ne M.quote_ne, List.count_append, List.count_cons_of_ne M.quote_ne, ih,
        List.flatten_cons, List.count_append]

/-- The arguments come back from the line exactly when they pass. -/
theorem split_following_iff (hspace : M.blank space = true) (args : List (List α)) :
    M.split .between 0 [] (M.following space args) = args ↔ M.Passes args := by
  have hwords : M.Clean false (M.following space args) →
      M.split .between 0 [] (M.following space args) =
        M.words .between [] (M.following space args) :=
    fun hclean => split_of_clean (by simp) (fun _ => rfl) (by simpa using hclean)
  rw [passes_iff hspace, ← words_following_iff hspace]
  constructor
  · intro h
    have hclean : M.Clean false (M.following space args) := by
      have hcount := (count_split (M := M) .between 0 [] (M.following space args)).2
      rw [h, count_following hspace] at hcount
      simpa using hcount (by simp)
    rw [hwords hclean] at h
    exact ⟨h, hclean⟩
  · rintro ⟨hkept, hclean⟩
    rw [hwords hclean, hkept]

/-- The line of a program, its arguments and quotation marks around each of them. -/
def line (space : α) (name : List α) (args : List (List α)) : List α :=
  M.quote :: (name ++ M.quote :: M.following space args)

theorem argv_quoted {name : List α} (hname : M.quote ∉ name) (word cs : List α) :
    M.argv true word (name ++ M.quote :: cs) = M.argv false (word ++ name) cs := by
  induction name generalizing word with
  | nil => simp [argv]
  | cons c name ih =>
      rw [List.mem_cons, not_or] at hname
      rw [List.cons_append, argv, if_neg (Ne.symm hname.1), ih hname.2]
      simp

theorem argv_line (hspace : M.blank space = true) {name : List α} (hname : M.quote ∉ name)
    (args : List (List α)) :
    M.argv false [] (M.line space name args) =
      name :: M.split .between 0 [] (M.following space args) := by
  rw [line, argv, if_pos rfl, Bool.not_false, argv_quoted hname, List.nil_append]
  cases args with
  | nil => rfl
  | cons a as => simp [following, argv, split, ne_quote_of_blank hspace,
      ne_backslash_of_blank hspace, hspace]

end Marks

end CohesionIpc
