import CohesionIpc.Verification.Endpoints.Sockets

/-! GUIDs and their texts: what is printed is scanned again, on a host of either byte order. -/

namespace CohesionIpc

open Text

/-! ## One field -/

theorem load_lt (host : ByteOrder) (data : List UInt8) : load host data < 256 ^ data.length := by
  cases host with
  | littleEndian => exact Bytes.toNat_lt data
  | bigEndian => simpa [load] using Bytes.toNat_lt data.reverse

theorem store_load (host : ByteOrder) (data : List UInt8) :
    store host data.length (load host data) = data := by
  cases host with
  | littleEndian => exact Bytes.ofNat_toNat data
  | bigEndian =>
      have h := Bytes.ofNat_toNat data.reverse
      rw [List.length_reverse] at h
      simp only [store, load, h, List.reverse_reverse]

@[simp] theorem length_store (host : ByteOrder) (size n : ℕ) :
    (store host size n).length = size := by
  have h : ∀ size n, (Bytes.ofNat size n).length = size := by
    intro size
    induction size with
    | zero => exact fun _ => rfl
    | succ size ih => simp [ih]
  cases host <;> simp [store, h]

theorem load_store (host : ByteOrder) {size n : ℕ} (h : n < 256 ^ size) :
    load host (store host size n) = n := by
  cases host with
  | littleEndian =>
      simp only [load, store]
      rw [Bytes.toNat_ofNat, Nat.mod_eq_of_lt h]
  | bigEndian =>
      simp only [load, store, List.reverse_reverse]
      rw [Bytes.toNat_ofNat, Nat.mod_eq_of_lt h]

/-- Two digits for each byte. -/
theorem pow_double (size : ℕ) : 16 ^ (2 * size) = 256 ^ size := by
  rw [Nat.pow_mul]

theorem zero_le_of_isHex {c : Char} (h : IsHex c) : '0' ≤ c := by
  simp only [IsHex, hexDigit?] at h
  split at h
  · rename_i hc
    exact hc.1
  · split at h
    · rename_i hc
      exact Char.le_trans (by decide) hc.1
    · split at h
      · rename_i hc
        exact Char.le_trans (by decide) hc.1
      · cases h

/-- A digit is not one of the characters that may stand in front of a number. -/
theorem ne_of_isHex {c : Char} (h : IsHex c) :
    isSpace c = false ∧ c ≠ '-' ∧ c ≠ '+' ∧ c ≠ 'x' ∧ c ≠ 'X' := by
  have hnot : ∀ d : Char, hexDigit? d = none → c ≠ d := by
    rintro d hd rfl
    rw [IsHex, hd] at h
    cases h
  refine ⟨?_, hnot _ (by decide), hnot _ (by decide), hnot _ (by decide), hnot _ (by decide)⟩
  simp only [isSpace, decide_eq_false_iff_not, not_or, not_and]
  refine ⟨hnot _ (by decide), ?_⟩
  intro _ hle
  exact absurd (Char.le_trans (zero_le_of_isHex h) hle) (by decide)

/-- A conversion takes a field of its width. -/
theorem scanHex_append {ds : List Char} (hds : ∀ c ∈ ds, IsHex c) (hne : ds ≠ [])
    (rest : List Char) : scanHex ds.length (ds ++ rest) = some ((hexValue ds : ℤ), rest) := by
  have htake : ((ds ++ rest).take ds.length).takeWhile (fun c => IsHex c) = ds := by
    rw [List.take_left]
    apply List.takeWhile_eq_self_iff.mpr
    simpa using hds
  cases ds with
  | nil => exact absurd rfl hne
  | cons c ds =>
      obtain ⟨hspace, hminus, hplus, -, -⟩ := ne_of_isHex (hds c (by simp))
      have hdrop : (c :: ds ++ rest).dropWhile isSpace = c :: ds ++ rest := by
        rw [List.cons_append, List.dropWhile_cons_of_neg (by simp [hspace])]
      have hsign : takeSign (c :: ds ++ rest) = (false, c :: ds ++ rest) := by
        rw [List.cons_append, takeSign, if_neg hminus, if_neg hplus]
      have hprefix : takePrefix (c :: ds).length (c :: ds ++ rest) =
          ((c :: ds).length, c :: ds ++ rest) := by
        rw [takePrefix.eq_def]
        split
        · rename_i x rest' heq
          rw [if_neg]
          · rw [heq]
          · rintro ⟨hx, hwidth⟩
            cases ds with
            | nil => simp at hwidth
            | cons y ds =>
                cases heq
                obtain ⟨-, -, -, hlower, hupper⟩ := ne_of_isHex (hds x (by simp))
                exact hx.elim hlower hupper
        · rfl
      simp only [scanHex, hdrop, hsign, Nat.sub_self, Nat.sub_zero, hprefix, htake]
      rw [if_neg hne, List.drop_left]
      rfl

/-! ## A format -/

/-- Two digits for each byte, and separators that have no case. -/
def Conversion.Balanced : Conversion → Prop
  | hex width size => width = 2 * size ∧ 0 < size
  | literal c => c.toLower = c

instance : DecidablePred Conversion.Balanced
  | .hex _ _ => inferInstanceAs (Decidable (_ ∧ _))
  | .literal _ => inferInstanceAs (Decidable (_ = _))

/-- How many bytes the conversions take or give. -/
def dataSize : List Conversion → ℕ
  | [] => 0
  | .hex _ size :: format => size + dataSize format
  | .literal _ :: format => dataSize format

def textSize : List Conversion → ℕ
  | [] => 0
  | .hex width _ :: format => width + textSize format
  | .literal _ :: format => textSize format + 1

/-- The texts of a format, in either case. -/
def Matches : List Conversion → List Char → Prop
  | [], s => s = []
  | .hex width _ :: format, s => ∃ ds rest, s = ds ++ rest ∧ ds.length = width ∧
      (∀ c ∈ ds, IsHex c) ∧ Matches format rest
  | .literal c :: format, s => ∃ rest, s = c :: rest ∧ Matches format rest

variable (host : ByteOrder) {format : List Conversion} {data : List UInt8} {s : List Char}

theorem printConversions_hex {width size : ℕ} (hb : (Conversion.hex width size).Balanced)
    (hlen : size ≤ data.length) :
    printConversions host (.hex width size :: format) data =
      hexFixed width (load host (data.take size)) ++
        printConversions host format (data.drop size) := by
  have hlt := load_lt host (data.take size)
  rw [List.length_take_of_le hlen, ← pow_double, ← hb.1] at hlt
  have hpos : 0 < width := by
    rw [hb.1]
    exact Nat.mul_pos (by decide) hb.2
  rw [printConversions, leftpad_toDigits hpos hlt]

theorem scanConversions_hex {width size : ℕ} (hb : (Conversion.hex width size).Balanced)
    {ds : List Char} (hlen : ds.length = width) (hds : ∀ c ∈ ds, IsHex c) (rest : List Char) :
    scanConversions host (.hex width size :: format) (ds ++ rest) =
      store host size (hexValue ds) ++ scanConversions host format rest := by
  have hne : ds ≠ [] := by
    rintro rfl
    have := hb.2
    rw [List.length_nil, hb.1] at hlen
    omega
  have hlt := hexValue_lt ds hds
  rw [hlen, hb.1, pow_double] at hlt
  have hmod : ((hexValue ds : ℤ) % 256 ^ size).toNat = hexValue ds := by
    rw [← Nat.cast_ofNat, ← Nat.cast_pow, ← Int.natCast_mod, Int.toNat_natCast,
      Nat.mod_eq_of_lt hlt]
  rw [scanConversions, ← hlen, scanHex_append hds hne]
  simp only [hmod]

theorem length_printConversions (hformat : ∀ c ∈ format, c.Balanced)
    (hlen : data.length = dataSize format) :
    (printConversions host format data).length = textSize format := by
  induction format generalizing data with
  | nil => rfl
  | cons c format ih =>
      have htail := fun c hc => hformat c (List.mem_cons_of_mem _ hc)
      cases c with
      | hex width size =>
          rw [dataSize] at hlen
          rw [printConversions_hex host (hformat _ List.mem_cons_self) (by omega),
            List.length_append, length_hexFixed, ih htail (by rw [List.length_drop]; omega),
            textSize]
      | literal c =>
          rw [printConversions, List.length_cons, ih htail hlen, textSize]

theorem matches_printConversions (hformat : ∀ c ∈ format, c.Balanced)
    (hlen : data.length = dataSize format) :
    Matches format (printConversions host format data) := by
  induction format generalizing data with
  | nil => rfl
  | cons c format ih =>
      have htail := fun c hc => hformat c (List.mem_cons_of_mem _ hc)
      cases c with
      | hex width size =>
          rw [dataSize] at hlen
          refine ⟨_, _, printConversions_hex host (hformat _ List.mem_cons_self) (by omega),
            length_hexFixed _ _, fun c hc => isHex_of_mem_hexFixed hc, ih htail ?_⟩
          rw [List.length_drop]
          omega
      | literal c => exact ⟨_, rfl, ih htail hlen⟩

theorem mem_of_matches (hs : Matches format s) {c : Char} (hc : c ∈ s) :
    IsHex c ∨ .literal c ∈ format := by
  induction format generalizing s with
  | nil =>
      rw [Matches] at hs
      rw [hs] at hc
      cases hc
  | cons conversion format ih =>
      have htail : ∀ {rest}, Matches format rest → c ∈ rest →
          IsHex c ∨ .literal c ∈ conversion :: format := fun hrest hmem =>
        (ih hrest hmem).imp_right (List.mem_cons_of_mem _)
      cases conversion with
      | hex width size =>
          obtain ⟨ds, rest, rfl, -, hds, hrest⟩ := hs
          rcases List.mem_append.mp hc with hmem | hmem
          · exact .inl (hds c hmem)
          · exact htail hrest hmem
      | literal x =>
          obtain ⟨rest, rfl, hrest⟩ := hs
          rcases List.mem_cons.mp hc with rfl | hmem
          · exact .inr List.mem_cons_self
          · exact htail hrest hmem

/-- A row of two-digit fields. -/
theorem matches_replicate (n : ℕ) {ds rest : List Char} (hlen : ds.length = 2 * n)
    (hds : ∀ c ∈ ds, IsHex c) (hrest : Matches format rest) :
    Matches (List.replicate n (.hex 2 1) ++ format) (ds ++ rest) := by
  induction n generalizing ds with
  | zero =>
      rw [List.eq_nil_of_length_eq_zero hlen]
      exact hrest
  | succ n ih =>
      rw [List.replicate_succ, List.cons_append]
      refine ⟨ds.take 2, ds.drop 2 ++ rest, ?_, ?_, ?_, ?_⟩
      · rw [← List.append_assoc, List.take_append_drop]
      · rw [List.length_take]
        omega
      · exact fun c hc => hds c (List.mem_of_mem_take hc)
      · apply ih
        · rw [List.length_drop]
          omega
        · exact fun c hc => hds c (List.mem_of_mem_drop hc)

/-- What has been printed is scanned as the same bytes. -/
theorem scanConversions_print (hformat : ∀ c ∈ format, c.Balanced)
    (hlen : data.length = dataSize format) :
    scanConversions host format (printConversions host format data) = data := by
  induction format generalizing data with
  | nil =>
      rw [List.eq_nil_of_length_eq_zero hlen]
      rfl
  | cons c format ih =>
      have htail := fun c hc => hformat c (List.mem_cons_of_mem _ hc)
      cases c with
      | hex width size =>
          have hb := hformat _ List.mem_cons_self
          rw [dataSize] at hlen
          have hle : size ≤ data.length := by omega
          have hlt := load_lt host (data.take size)
          rw [List.length_take_of_le hle] at hlt
          have hsize : (data.take size).length = size := List.length_take_of_le hle
          have hvalue : hexValue (hexFixed width (load host (data.take size))) =
              load host (data.take size) := by
            rw [hexValue_hexFixed, hb.1, pow_double, Nat.mod_eq_of_lt hlt]
          rw [printConversions_hex host hb hle,
            scanConversions_hex host hb (length_hexFixed _ _)
              (fun c hc => isHex_of_mem_hexFixed hc),
            hvalue, ih htail (by rw [List.length_drop]; omega)]
          nth_rewrite 1 [← hsize]
          rw [store_load, List.take_append_drop]
      | literal c =>
          rw [printConversions, scanConversions]
          simp only [if_true]
          exact ih htail hlen

theorem length_scanConversions (hformat : ∀ c ∈ format, c.Balanced) (hs : Matches format s) :
    (scanConversions host format s).length = dataSize format := by
  induction format generalizing s with
  | nil => rfl
  | cons c format ih =>
      have htail := fun c hc => hformat c (List.mem_cons_of_mem _ hc)
      cases c with
      | hex width size =>
          obtain ⟨ds, rest, rfl, hlen, hds, hrest⟩ := hs
          rw [scanConversions_hex host (hformat _ List.mem_cons_self) hlen hds, List.length_append,
            length_store, ih htail hrest, dataSize]
      | literal c =>
          obtain ⟨rest, rfl, hrest⟩ := hs
          rw [scanConversions]
          simp only [if_true]
          exact ih htail hrest

/-- What has been scanned is printed as the same text, in lower case. -/
theorem printConversions_scan (hformat : ∀ c ∈ format, c.Balanced) (hs : Matches format s) :
    printConversions host format (scanConversions host format s) = s.map Char.toLower := by
  induction format generalizing s with
  | nil =>
      rw [Matches] at hs
      rw [hs]
      rfl
  | cons c format ih =>
      have htail := fun c hc => hformat c (List.mem_cons_of_mem _ hc)
      cases c with
      | hex width size =>
          have hb := hformat _ List.mem_cons_self
          obtain ⟨ds, rest, rfl, hlen, hds, hrest⟩ := hs
          have hlt := hexValue_lt ds hds
          rw [hlen, hb.1, pow_double] at hlt
          have hstore : (store host size (hexValue ds)).length = size := length_store _ _ _
          rw [scanConversions_hex host hb hlen hds, printConversions_hex host hb (by simp),
            List.take_left' hstore, List.drop_left' hstore, load_store host hlt, ih htail hrest,
            ← hlen, hexFixed_hexValue hds, List.map_append]
      | literal c =>
          obtain ⟨rest, rfl, hrest⟩ := hs
          have hlower : c.toLower = c := hformat _ List.mem_cons_self
          rw [scanConversions]
          simp only [if_true]
          rw [printConversions, ih htail hrest, List.map_cons, hlower]

/-! ## The two formats -/

/-- Eight, four, four, four and twelve hexadecimal digits. -/
def WellFormedGuid (s : List Char) : Prop :=
  ∃ a b c d e : List Char, s = a ++ '-' :: (b ++ '-' :: (c ++ '-' :: (d ++ '-' :: e))) ∧
    a.length = 8 ∧ b.length = 4 ∧ c.length = 4 ∧ d.length = 4 ∧ e.length = 12 ∧
    ∀ x ∈ a ++ b ++ c ++ d ++ e, IsHex x

theorem scanFormat_eq : scanFormat = printFormat := rfl

theorem balanced_printFormat : ∀ c ∈ printFormat, c.Balanced := by decide

theorem WellFormedGuid.matches (hs : WellFormedGuid s) : Matches printFormat s := by
  obtain ⟨a, b, c, d, e, rfl, ha, hb, hc, hd, he, hhex⟩ := hs
  simp only [List.mem_append] at hhex
  refine ⟨a, _, rfl, ha, fun x hx => hhex x (by simp [hx]), _, rfl, ?_⟩
  refine ⟨b, _, rfl, hb, fun x hx => hhex x (by simp [hx]), _, rfl, ?_⟩
  refine ⟨c, _, rfl, hc, fun x hx => hhex x (by simp [hx]), _, rfl, ?_⟩
  apply matches_replicate 2 hd (fun x hx => hhex x (by simp [hx]))
  refine ⟨e, rfl, ?_⟩
  have hlast := @matches_replicate [] 6 e [] he (fun x hx => hhex x (by simp [hx])) rfl
  simpa using hlast

namespace Guid

theorem toString_eq (host : ByteOrder) (g : Guid) :
    g.toString host = printConversions host printFormat g.values := by
  have hlen := length_printConversions host balanced_printFormat g.length_values
  rw [toString, truncate, List.take_of_length_le]
  rw [hlen]
  decide

theorem length_toString (host : ByteOrder) (g : Guid) : (g.toString host).length = 36 := by
  rw [toString_eq, length_printConversions host balanced_printFormat g.length_values]
  rfl

/-- Scanning fills the whole variable when no conversion fails. -/
theorem values_fromString (memory : Guid) {str : List Char}
    (hlen : (scanConversions host scanFormat str).length = 16) :
    (fromString host memory str).values = scanConversions host scanFormat str := by
  change (Buffer.overwrite memory.values _).take 16 = _
  rw [Buffer.overwrite_of_length_eq (hlen.trans memory.length_values.symm),
    List.take_of_length_le hlen.le]

theorem eq_of_values {g g' : Guid} (h : g.values = g'.values) : g = g' := by
  cases g
  cases g'
  cases h
  rfl

theorem fromString_toString (host : ByteOrder) (memory g : Guid) :
    fromString host memory (g.toString host) = g := by
  have hscan := scanConversions_print host balanced_printFormat g.length_values
  rw [← toString_eq, ← scanFormat_eq] at hscan
  apply eq_of_values
  rw [values_fromString host memory, hscan]
  rw [hscan, g.length_values]

theorem toString_fromString (host : ByteOrder) (memory : Guid) (hs : WellFormedGuid s) :
    (fromString host memory s).toString host = s.map Char.toLower := by
  have hlen := length_scanConversions host balanced_printFormat hs.matches
  rw [toString_eq, values_fromString host memory hlen]
  exact printConversions_scan host balanced_printFormat hs.matches

theorem cStr_toString (host : ByteOrder) (g : Guid) : cStr (g.toString host) = g.toString host := by
  apply cStr_of_notMem
  intro hmem
  rw [toString_eq] at hmem
  have hmatches := matches_printConversions host balanced_printFormat g.length_values
  rcases mem_of_matches hmatches hmem with hhex | hliteral
  · exact absurd hhex (by decide)
  · exact absurd hliteral (by decide)

theorem comEndpointId_injective (host : ByteOrder) : Function.Injective (comEndpointId host) := by
  intro g g' h
  have htext := List.append_cancel_left h
  rw [← fromString_toString host g g, htext, fromString_toString]

end Guid

/-- GUIDs are printed and scanned again without a change, and so are their texts but for the
case of the letters; the id of a COM endpoint selects its constructor with that text. -/
theorem guid_round_trip (host : ByteOrder) (memory : Guid) (overflow : List Char → ℤ) :
    (∀ g : Guid, Guid.fromString host memory (g.toString host) = g ∧
      (g.toString host).length = 36) ∧
    (∀ s, WellFormedGuid s →
      (Guid.fromString host memory s).toString host = s.map Char.toLower) ∧
    Function.Injective (comEndpointId host) ∧
    ∀ g, ∃ id, select (constructors .windows overflow) (comEndpointId host g) = .ok (.com, id) ∧
      Guid.fromString host memory (cStr id) = g := by
  refine ⟨?_, ?_, Guid.comEndpointId_injective host, ?_⟩
  · exact fun g => ⟨Guid.fromString_toString host memory g, Guid.length_toString host g⟩
  · exact fun s hs => Guid.toString_fromString host memory hs
  · intro g
    refine ⟨g.toString host, ?_, ?_⟩
    · have hid : comEndpointId host g = "com".toList ++ '|' :: g.toString host := rfl
      rw [hid, select, cut?_append (by decide)]
      rfl
    · rw [Guid.cStr_toString, Guid.fromString_toString]

/-- A text in upper case, scanned into a variable of zeros. -/
theorem guid_round_trip_upper :
    WellFormedGuid "00112233-4455-6677-8899-AABBCCDDEEFF".toList ∧
      (Guid.fromString .littleEndian ⟨List.replicate 16 0, rfl⟩
        "00112233-4455-6677-8899-AABBCCDDEEFF".toList).toString .littleEndian =
        "00112233-4455-6677-8899-aabbccddeeff".toList := by
  have hdigits : "00112233445566778899AABBCCDDEEFF".toList.all fun x => IsHex x := by decide
  have hs : WellFormedGuid "00112233-4455-6677-8899-AABBCCDDEEFF".toList :=
    ⟨"00112233".toList, "4455".toList, "6677".toList, "8899".toList, "AABBCCDDEEFF".toList,
      by decide, by decide, by decide, by decide, by decide, by decide,
      fun x hx => of_decide_eq_true (List.all_eq_true.mp hdigits x hx)⟩
  refine ⟨hs, ?_⟩
  rw [(guid_round_trip .littleEndian ⟨List.replicate 16 0, rfl⟩ fun _ => 0).2.1 _ hs]
  decide

end CohesionIpc
