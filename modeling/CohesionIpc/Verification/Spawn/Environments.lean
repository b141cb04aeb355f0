import CohesionIpc.Model.Environment
import CohesionIpc.Verification.Spawn.CommandLines

/-! Which strings a spawned server finds in its environment. On Unix they are cut at the first NUL
at most. On Windows they are cut at every NUL, an empty one hides those behind it, and a byte
outside ASCII becomes a code unit of its own. -/

namespace CohesionIpc.Spawn

variable {s : List Char} {c : Char}

/-! ## Bytes -/

theorem utf8EncodeChar_of_lt (hc : c.toNat < 128) :
    String.utf8EncodeChar c = [UInt8.ofNat c.toNat] :=
  if_pos (Nat.le_of_lt_succ hc)

theorem le_of_mem_utf8EncodeChar {b : UInt8} (hc : 128 ≤ c.toNat)
    (hb : b ∈ String.utf8EncodeChar c) : 128 ≤ b.toNat := by
  have hbig : ¬ c.val.toNat ≤ 0x7f := Nat.not_le.mpr hc
  simp only [String.utf8EncodeChar, if_neg hbig] at hb
  split at hb
  · simp only [List.mem_cons, List.not_mem_nil, or_false] at hb
    rcases hb with rfl | rfl <;> rw [UInt8.toNat_ofNat'] <;> omega
  · split at hb
    · simp only [List.mem_cons, List.not_mem_nil, or_false] at hb
      rcases hb with rfl | rfl | rfl <;> rw [UInt8.toNat_ofNat'] <;> omega
    · simp only [List.mem_cons, List.not_mem_nil, or_false] at hb
      rcases hb with rfl | rfl | rfl | rfl <;> rw [UInt8.toNat_ofNat'] <;> omega

theorem zero_mem_utf8 : 0 ∈ utf8 s ↔ '\x00' ∈ s := by
  rw [utf8, List.mem_flatMap]
  constructor
  · rintro ⟨c, hc, hzero⟩
    by_cases hlt : c.toNat < 128
    · rw [utf8EncodeChar_of_lt hlt, List.mem_singleton, ← UInt8.toNat_inj, UInt8.toNat_ofNat',
        Nat.mod_eq_of_lt (hlt.trans (by decide))] at hzero
      have hnul : '\x00' = c := Char.toNat_inj.mp hzero
      rwa [hnul]
    · have hge := le_of_mem_utf8EncodeChar (Nat.not_lt.mp hlt) hzero
      exact absurd hge (by decide)
  · exact fun h => ⟨'\x00', h, by decide⟩

/-- Only ASCII has as many bytes as code units. -/
theorem length_utf16_le (c : Char) :
    (utf16 c).length ≤ (String.utf8EncodeChar c).length ∧
      ((utf16 c).length = (String.utf8EncodeChar c).length → c.toNat < 128) := by
  rw [utf16]
  simp only [String.utf8EncodeChar, Char.toNat]
  split <;> split <;> (try split) <;> (try split) <;>
    simp only [List.length_cons, List.length_nil] <;> omega

theorem length_wide_le (s : List Char) : (wide s).length ≤ (utf8 s).length := by
  induction s with
  | nil => exact le_rfl
  | cons c s ih =>
      have hc := (length_utf16_le c).1
      simp only [wide, utf8, List.flatMap_cons, List.length_append] at ih ⊢
      omega

theorem forall_lt_of_length_eq (h : (wide s).length = (utf8 s).length) :
    ∀ c ∈ s, c.toNat < 128 := by
  induction s with
  | nil => exact fun c hc => absurd hc List.not_mem_nil
  | cons c s ih =>
      have hc := length_utf16_le c
      have hs := length_wide_le s
      simp only [wide, utf8, List.flatMap_cons, List.length_append] at h hs ih
      intro d hd
      rcases List.mem_cons.mp hd with rfl | hd
      · exact hc.2 (by omega)
      · exact ih (by omega) d hd

/-! ## Unix -/

namespace Unix

/-- A string comes through if and only if it has no NUL. -/
theorem cString_eq_iff : cString s = utf8 s ↔ '\x00' ∉ s := by
  rw [cString, List.takeWhile_eq_self_iff, ← zero_mem_utf8]
  constructor
  · exact fun h hzero => of_decide_eq_true (h 0 hzero) rfl
  · intro h b hb
    refine decide_eq_true ?_
    rintro rfl
    exact h hb

theorem env_eq_iff {environ : List (List UInt8)} {extra : List (List Char)} :
    env environ extra = environ ++ extra.map utf8 ↔ ∀ s ∈ extra, '\x00' ∉ s := by
  rw [env, List.append_cancel_left_eq, List.map_inj_left]
  exact forall₂_congr fun _ _ => cString_eq_iff

end Unix

/-! ## Windows -/

namespace Windows

variable {merged rest : List UInt16} {parent ps : List (List UInt16)} {extra : List (List Char)}

theorem widened_of_lt {b : UInt8} (hb : b.toNat < 128) : widened b = UInt16.ofNat b.toNat := by
  have h : ∀ n : Fin 128, widened (UInt8.ofNat n) = UInt16.ofNat n := by decide
  have heq := h ⟨b.toNat, hb⟩
  rwa [UInt8.ofNat_toNat] at heq

theorem widened_eq_zero {b : UInt8} : widened b = 0 ↔ b = 0 := by
  have h : ∀ n : Fin 256, widened (UInt8.ofNat n) = 0 → UInt8.ofNat n = 0 := by
    decide +kernel
  have heq := h ⟨b.toNat, b.toNat_lt⟩
  rw [UInt8.ofNat_toNat] at heq
  refine ⟨heq, ?_⟩
  rintro rfl
  rfl

/-- The code units that the bytes of a string become. -/
def units (s : List Char) : List UInt16 := (utf8 s).map widened

theorem zero_mem_units : 0 ∈ units s ↔ '\x00' ∈ s := by
  rw [units, List.mem_map, ← zero_mem_utf8]
  constructor
  · rintro ⟨b, hb, hzero⟩
    rwa [← widened_eq_zero.mp hzero]
  · exact fun h => ⟨0, h, rfl⟩

theorem units_ne_nil (hs : s ≠ []) : units s ≠ [] := by
  cases s with
  | nil => exact absurd rfl hs
  | cons c s =>
      rw [units, utf8, List.flatMap_cons, List.map_append]
      refine List.append_ne_nil_of_left_ne_nil ?_ _
      rw [Ne, List.map_eq_nil_iff]
      exact String.utf8EncodeChar_ne_nil

/-- The bytes are the code units of the text if and only if it is in ASCII. -/
theorem units_eq_wide_iff : units s = wide s ↔ ∀ c ∈ s, c.toNat < 128 := by
  constructor
  · intro h
    have hlength := congrArg List.length h
    rw [units, List.length_map] at hlength
    exact forall_lt_of_length_eq hlength.symm
  · intro h
    induction s with
    | nil => rfl
    | cons c s ih =>
        have hc := h c List.mem_cons_self
        have hs := ih fun d hd => h d (List.mem_cons_of_mem _ hd)
        have hunit : (String.utf8EncodeChar c).map widened = utf16 c := by
          have hbyte : (UInt8.ofNat c.toNat).toNat = c.toNat := by
            rw [UInt8.toNat_ofNat']
            exact Nat.mod_eq_of_lt (hc.trans (by decide))
          rw [utf8EncodeChar_of_lt hc, utf16_of_lt (hc.trans (by decide)), List.map_singleton,
            widened_of_lt (by rwa [hbyte]), hbyte]
        rw [units, utf8, wide, List.flatMap_cons, List.flatMap_cons, List.map_append, hunit]
        exact congrArg (utf16 c ++ ·) hs

theorem wcslen_append {p : List UInt16} (hp : 0 ∉ p) (rest : List UInt16) :
    wcslen (p ++ 0 :: rest) = p.length := by
  rw [wcslen, List.takeWhile_append_of_pos, List.takeWhile_cons_of_neg (by decide),
    List.append_nil]
  intro u hu
  refine decide_eq_true ?_
  rintro rfl
  exact hp hu

/-- The loop stops at the empty string and has then copied those before it. -/
theorem mergeParent_terminated (hps : ∀ p ∈ ps, p ≠ [] ∧ 0 ∉ p) (merged rest : List UInt16) :
    mergeParent merged (Text.terminated 0 ps ++ 0 :: rest) = merged ++ Text.terminated 0 ps := by
  induction ps generalizing merged with
  | nil =>
      have hlength : wcslen (Text.terminated 0 [] ++ 0 :: rest) = 0 :=
        wcslen_append List.not_mem_nil rest
      rw [mergeParent]
      simp only [hlength, dif_pos]
      exact (List.append_nil merged).symm
  | cons p ps ih =>
      obtain ⟨hne, hp⟩ := hps p List.mem_cons_self
      have hlength : wcslen (p ++ 0 :: (Text.terminated 0 ps ++ 0 :: rest)) = p.length :=
        wcslen_append hp _
      have hpos : p.length ≠ 0 := fun h => hne (List.length_eq_zero_iff.mp h)
      have hsplit : p ++ 0 :: (Text.terminated 0 ps ++ 0 :: rest) =
          (p ++ [0]) ++ (Text.terminated 0 ps ++ 0 :: rest) := by
        rw [List.append_assoc]
        rfl
      have hcount : p.length + 1 = (p ++ [(0 : UInt16)]).length := by
        rw [List.length_append, List.length_singleton]
      rw [Text.terminated_cons, List.append_assoc, List.cons_append, mergeParent]
      simp only [hlength, dif_neg hpos]
      rw [hsplit, hcount, List.take_left, List.drop_left,
        ih (fun q hq => hps q (List.mem_cons_of_mem _ hq)), List.append_assoc, List.append_assoc]
      rfl

theorem foldl_extra (merged : List UInt16) :
    extra.foldl (fun merged e => merged ++ (utf8 e ++ [0]).map widened) merged =
      merged ++ Text.terminated 0 (extra.map units) := by
  induction extra generalizing merged with
  | nil => exact (List.append_nil merged).symm
  | cons e extra ih =>
      rw [List.foldl_cons, ih, List.map_cons, Text.terminated_cons, List.map_append,
        List.append_assoc, List.append_assoc]
      rfl

theorem initializeEnvironment_eq (hparent : ∀ p ∈ parent, p ≠ [] ∧ 0 ∉ p) :
    initializeEnvironment (Text.terminated 0 parent ++ 0 :: rest) extra =
      Text.terminated 0 (parent ++ extra.map units) ++ [0] := by
  rw [initializeEnvironment, mergeParent_terminated hparent, List.nil_append, foldl_extra,
    Text.terminated_append]

/-- What the process finds behind the environment of its parent: what stands between the NULs of
the strings given, up to the first place where nothing does. -/
theorem environment_eq (hparent : ∀ p ∈ parent, p ≠ [] ∧ 0 ∉ p) :
    Text.blockStrings 0 (initializeEnvironment (Text.terminated 0 parent ++ 0 :: rest) extra) =
      parent ++ ((extra.map units).flatMap (List.splitOn 0)).takeWhile (· ≠ []) := by
  rw [initializeEnvironment_eq hparent, Text.blockStrings_terminated, List.flatMap_append,
    Text.flatMap_splitOn_of_notMem fun p hp => (hparent p hp).2, List.takeWhile_append_of_pos]
  exact fun p hp => decide_eq_true (hparent p hp).1

/-- The process finds the environment of its parent and then the strings given, as long as none of
them is empty and all are in ASCII without NUL. -/
theorem environment_passes_iff (parent : List (List UInt16)) (rest : List UInt16)
    (extra : List (List Char)) (hparent : ∀ p ∈ parent, p ≠ [] ∧ 0 ∉ p) :
    Text.blockStrings 0 (initializeEnvironment (Text.terminated 0 parent ++ 0 :: rest) extra) =
        parent ++ extra.map wide ↔
      ∀ s ∈ extra, s ≠ [] ∧ ∀ c ∈ s, 0 < c.toNat ∧ c.toNat < 128 := by
  have hzero : ∀ s : List Char, (∀ c ∈ s, 0 < c.toNat) ↔ '\x00' ∉ s := by
    intro s
    constructor
    · exact fun h hmem => absurd (h _ hmem) (by decide)
    · intro h c hc
      refine Nat.pos_of_ne_zero fun hnul => h ?_
      have heq : c = '\x00' := Char.toNat_inj.mp hnul
      rwa [← heq]
  rw [environment_eq hparent, List.append_cancel_left_eq, ← Text.blockStrings_terminated _ []]
  constructor
  · intro h
    have hwide : ∀ s ∈ extra, s ≠ [] ∧ '\x00' ∉ s := by
      intro s hs
      have hmem := List.mem_map_of_mem (f := wide) hs
      rw [← h] at hmem
      obtain ⟨hne, hnul⟩ := Text.of_mem_blockStrings hmem
      refine ⟨?_, fun hmem => hnul ((mem_wide (d := '\x00') (by decide)).mpr hmem)⟩
      rintro rfl
      exact hne rfl
    have hunits : ∀ p ∈ extra.map units, p ≠ [] ∧ 0 ∉ p := by
      intro p hp
      obtain ⟨s, hs, rfl⟩ := List.mem_map.mp hp
      obtain ⟨hne, hnul⟩ := hwide s hs
      exact ⟨units_ne_nil hne, fun hmem => hnul (zero_mem_units.mp hmem)⟩
    rw [Text.blockStrings_terminated_eq_iff.mpr hunits, List.map_inj_left] at h
    intro s hs
    obtain ⟨hne, hnul⟩ := hwide s hs
    exact ⟨hne, fun c hc => ⟨(hzero s).mpr hnul c hc, units_eq_wide_iff.mp (h s hs) c hc⟩⟩
  · intro h
    have hunits : ∀ s ∈ extra, units s = wide s :=
      fun s hs => units_eq_wide_iff.mpr fun c hc => ((h s hs).2 c hc).2
    rw [← List.map_inj_left.mpr hunits]
    refine Text.blockStrings_terminated_eq_iff.mpr fun p hp => ?_
    obtain ⟨s, hs, rfl⟩ := List.mem_map.mp hp
    refine ⟨units_ne_nil (h s hs).1, ?_⟩
    rw [zero_mem_units]
    exact (hzero s).mp fun c hc => ((h s hs).2 c hc).1

theorem environment_passes_iff_accent :
    Text.blockStrings 0 (initializeEnvironment (Text.terminated 0 [[0x50, 0x3D]] ++ 0 :: [])
        [['A', '=', 'é'], ['B', '=']]) =
          [[0x50, 0x3D]] ++ [['A', '=', 'é'], ['B', '=']].map wide ↔
      ∀ s ∈ [['A', '=', 'é'], ['B', '=']], s ≠ [] ∧ ∀ c ∈ s, 0 < c.toNat ∧ c.toNat < 128 :=
  environment_passes_iff [[0x50, 0x3D]] [] [['A', '=', 'é'], ['B', '=']] (by decide)

end Windows

end CohesionIpc.Spawn
