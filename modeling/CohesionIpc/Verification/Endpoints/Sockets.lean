import CohesionIpc.Model.EndpointId
import Mathlib.Data.List.TakeWhile

/-! Ids of socket endpoints: those that are printed are read back, and those that are not
well-formed are not refused. -/

namespace CohesionIpc

open Text

/-! ## Numerals -/

/-- A decimal number without a sign or blanks. -/
def IsNumeral (digits : List Char) : Prop := digits ≠ [] ∧ ∀ c ∈ digits, c.isDigit

def numeralValue (digits : List Char) : ℕ := Nat.ofDigitChars 10 digits 0

theorem isNumeral_decimal (n : ℕ) : IsNumeral (decimal n) := by
  refine ⟨Nat.toDigits_ne_nil, ?_⟩
  intro c hc
  exact Nat.isDigit_of_mem_toDigits (by decide) (by decide) hc

@[simp] theorem numeralValue_decimal (n : ℕ) : numeralValue (decimal n) = n :=
  Nat.ofDigitChars_ten_toDigits

theorem IsNumeral.notMem {digits : List Char} (h : IsNumeral digits) {c : Char}
    (hc : c.isDigit = false) : c ∉ digits := by
  intro hmem
  rw [h.2 c hmem] at hc
  cases hc

/-- A digit is not one of the characters that `atoi` looks for in front of a number. -/
theorem not_space_of_isDigit {c : Char} (hc : c.isDigit) :
    isSpace c = false ∧ c ≠ '-' ∧ c ≠ '+' := by
  refine ⟨?_, ?_, ?_⟩
  · simp only [Char.isDigit, Bool.and_eq_true, decide_eq_true_eq] at hc
    simp only [isSpace, decide_eq_false_iff_not, not_or, not_and]
    refine ⟨?_, ?_⟩
    · rintro rfl
      exact absurd hc (by decide)
    · intro _ hle
      have hlow : (48 : UInt32) ≤ 13 := UInt32.le_trans hc.1 hle
      exact absurd hlow (by decide)
  · rintro rfl
    exact absurd hc (by decide)
  · rintro rfl
    exact absurd hc (by decide)

/-- `atoi` of a numeral that an `int` holds. -/
theorem atoi_numeral (overflow : List Char → ℤ) {digits : List Char} (h : IsNumeral digits)
    (hle : numeralValue digits < 2 ^ 31) : atoi overflow digits = numeralValue digits := by
  obtain ⟨hne, hdigits⟩ := h
  cases digits with
  | nil => exact absurd rfl hne
  | cons c cs =>
      obtain ⟨hspace, hminus, hplus⟩ := not_space_of_isDigit (hdigits c (by simp))
      have hdrop : (c :: cs).dropWhile isSpace = c :: cs := by
        rw [List.dropWhile_cons_of_neg (by simp [hspace])]
      have htake : (c :: cs).takeWhile Char.isDigit = c :: cs :=
        List.takeWhile_eq_self_iff.mpr hdigits
      have hsign : takeSign (c :: cs) = (false, c :: cs) := by
        rw [takeSign, if_neg hminus, if_neg hplus]
      simp only [atoi, hdrop, hsign, htake, withSign, Bool.false_eq_true, if_false]
      rw [numeralValue] at hle ⊢
      rw [if_pos]
      omega

/-! ## What is read back -/

theorem cStr_of_notMem {s : List Char} (h : '\x00' ∉ s) : cStr s = s := by
  apply List.takeWhile_eq_self_iff.mpr
  intro c hc
  simp only [decide_eq_true_eq]
  rintro rfl
  exact h hc

theorem notMem_cStr (s : List Char) : '\x00' ∉ cStr s := by
  intro h
  simpa using List.mem_takeWhile_imp h

theorem toNat_lt (port : UInt16) : port.toNat < 2 ^ 31 :=
  lt_trans port.toNat_lt (by decide)

theorem ofInt_numeral {digits : List Char} {port : UInt16} (h : numeralValue digits = port.toNat) :
    UInt16.ofInt (numeralValue digits : ℤ) = port := by
  have hlt := port.toNat_lt
  have hmod : ((port.toNat : ℤ) % 2 ^ 16).toNat = port.toNat := by omega
  rw [h, UInt16.ofInt, hmod, UInt16.ofNat_toNat]

/-- The host and the port of an address with one separator. -/
theorem hostPort_append (overflow : List Char → ℤ) {host : List Char} (digits dflt : List Char)
    (hhost : ':' ∉ host) :
    hostPort overflow (host ++ ':' :: digits) dflt =
      ⟨host, UInt16.ofInt (atoi overflow digits)⟩ := by
  rw [hostPort, cut?_append hhost]

theorem hostPort_of_notMem (overflow : List Char → ℤ) {digits : List Char} (dflt : List Char)
    (hdigits : ':' ∉ digits) :
    hostPort overflow digits dflt = ⟨dflt, UInt16.ofInt (atoi overflow digits)⟩ := by
  rw [hostPort, cut?_eq_none.mpr hdigits]

theorem notMem_dotted (host : IpV4) {c : Char} (hdigit : c.isDigit = false) (hdot : c ≠ '.') :
    c ∉ dotted host := by
  have hnot : ∀ n, c ∉ decimal n := fun n => (isNumeral_decimal n).notMem hdigit
  simp [dotted, hnot, hdot]

/-- The text between the protocol and the end of the id. -/
def addressText (host : IpV4) (port : UInt16) : List Char :=
  dotted host ++ ':' :: decimal port.toNat

theorem hostPort_addressText (overflow : List Char → ℤ) (host : IpV4) (port : UInt16)
    (dflt : List Char) : hostPort overflow (addressText host port) dflt = ⟨dotted host, port⟩ := by
  have hport : numeralValue (decimal port.toNat) = port.toNat := numeralValue_decimal _
  have hlt : numeralValue (decimal port.toNat) < 2 ^ 31 := by
    rw [hport]
    exact toNat_lt port
  rw [addressText, hostPort_append overflow _ _ (notMem_dotted host (by decide) (by decide)),
    atoi_numeral overflow (isNumeral_decimal _) hlt, ofInt_numeral hport]

theorem notMem_addressText (host : IpV4) (port : UInt16) : '\x00' ∉ addressText host port := by
  have hhost : '\x00' ∉ dotted host := notMem_dotted host (by decide) (by decide)
  have hport : '\x00' ∉ decimal port.toNat := (isNumeral_decimal _).notMem (by decide)
  simp [addressText, hhost, hport]

/-- Four numbers of up to three digits, a port of up to five, and the separators. -/
theorem length_addressText (host : IpV4) (port : UInt16) :
    (addressText host port).length ≤ 21 := by
  have hbyte : ∀ i, (decimal (host i).toNat).length ≤ 3 := fun i =>
    (Nat.length_toDigits_le_iff (by decide) (by decide)).mpr
      (lt_trans (host i).toNat_lt (by decide))
  have hport : (decimal port.toNat).length ≤ 5 :=
    (Nat.length_toDigits_le_iff (by decide) (by decide)).mpr
      (lt_trans port.toNat_lt (by decide))
  have h0 := hbyte 0
  have h1 := hbyte 1
  have h2 := hbyte 2
  have h3 := hbyte 3
  simp only [addressText, dotted, List.length_append, List.length_cons]
  omega

theorem socketsEndpointId_eq (host : IpV4) (port : UInt16) :
    socketsEndpointId host port = "sockets".toList ++ '|' :: addressText host port := by
  have hlen := length_addressText host port
  rw [socketsEndpointId, truncate, List.take_of_length_le]
  · rfl
  · rw [← addressText, List.length_append]
    change 8 + _ ≤ 31
    omega

theorem decimal_injective : Function.Injective decimal := by
  intro n m h
  rw [← numeralValue_decimal n, h, numeralValue_decimal]

/-- Different hosts have different texts. -/
theorem dotted_injective : Function.Injective dotted := by
  intro host host' h
  have hnot : ∀ n, '.' ∉ decimal n := fun n => (isNumeral_decimal n).notMem (by decide)
  obtain ⟨h0, h⟩ := append_inj_of_notMem (hnot _) (hnot _) h
  obtain ⟨h1, h⟩ := append_inj_of_notMem (hnot _) (hnot _) h
  obtain ⟨h2, h3⟩ := append_inj_of_notMem (hnot _) (hnot _) h
  funext i
  apply UInt8.toNat_inj.mp
  apply decimal_injective
  match i with
  | 0 => exact h0
  | 1 => exact h1
  | 2 => exact h2
  | 3 => exact h3

/-- The sockets constructor is found under its name. -/
theorem select_sockets (platform : Platform) (overflow : List Char → ℤ) (rest : List Char) :
    select (constructors platform overflow) ("sockets".toList ++ '|' :: rest) =
      .ok (fun id => .sockets (hostPort overflow id cLocalhost), rest) := by
  rw [select, cut?_append (by decide)]
  cases platform <;> rfl

/-- Ids of socket endpoints are not cut short, and are read back as what was printed. -/
theorem sockets_round_trip (platform : Platform) (overflow : List Char → ℤ) :
    (∀ host port,
      (∃ text, socketsEndpointId host port = text ∧ text.length < 32 ∧
        text = "sockets|".toList ++ (dotted host ++ ':' :: decimal port.toNat)) ∧
      ∃ id, select (constructors platform overflow) (socketsEndpointId host port) =
          .ok (fun id => .sockets (hostPort overflow id cLocalhost), id) ∧
        hostPort overflow (cStr id) cLocalhost = ⟨dotted host, port⟩) ∧
    Function.Injective fun address : IpV4 × UInt16 => socketsEndpointId address.1 address.2 := by
  refine ⟨?_, ?_⟩
  · intro host port
    have hlen := length_addressText host port
    refine ⟨⟨_, rfl, ?_, socketsEndpointId_eq host port⟩, addressText host port, ?_, ?_⟩
    · rw [socketsEndpointId_eq, List.length_append, List.length_cons]
      change 7 + _ < 32
      omega
    · rw [socketsEndpointId_eq, select_sockets]
    · rw [cStr_of_notMem (notMem_addressText host port), hostPort_addressText]
  · rintro ⟨host, port⟩ ⟨host', port'⟩ h
    simp only [socketsEndpointId_eq] at h
    have haddress := (append_inj_of_notMem (by decide) (by decide) h).2
    have hread := hostPort_addressText overflow host port cLocalhost
    rw [haddress, hostPort_addressText, HostPort.mk.injEq] at hread
    rw [Prod.mk.injEq]
    exact ⟨(dotted_injective hread.1).symm, hread.2.symm⟩

/-! ## Ids that are not well-formed -/

/-- The host and the port that an id of a socket endpoint is meant to stand for. -/
inductive Designates : List Char → HostPort → Prop
  | port {digits : List Char} (h : IsNumeral digits) (hle : numeralValue digits ≤ 65535) :
      Designates digits ⟨cLocalhost, UInt16.ofNat (numeralValue digits)⟩
  | hostPort (host : List Char) {digits : List Char} (h : IsNumeral digits)
      (hle : numeralValue digits ≤ 65535) :
      Designates (host ++ ':' :: digits) ⟨host, UInt16.ofNat (numeralValue digits)⟩

/-- An endpoint is created for a well-formed id only, with the host and the port in it. -/
def Lawful (platform : Platform) (typed : List Char) (result : Except EndpointError Endpoint) :
    Prop :=
  match cut? '|' typed with
  | none => ∃ what, result = .error (.invalidArgument what)
  | some (protocol, rest) =>
      if protocol = "sockets".toList then
        (∀ hp, Designates rest hp → result = .ok (.sockets hp)) ∧
          ((¬∃ hp, Designates rest hp) → ∃ e, result = .error e)
      else if platform = .windows ∧ protocol = "com".toList then ∃ id, result = .ok (.com id)
      else ∃ message, result = .error (.protocolNotSupported message)

/-- What `host_port` takes for the port. -/
def portText (rest : List Char) : List Char :=
  match cut? ':' rest with
  | some (_, port) => port
  | none => rest

/-- The port is a number that 16 bits hold, and there is no NUL. -/
structure PortWritten (rest : List Char) : Prop where
  numeral : IsNumeral (portText rest)
  le : numeralValue (portText rest) ≤ 65535
  nul : '\x00' ∉ rest

theorem ofInt_eq_ofNat {digits : List Char} (hle : numeralValue digits ≤ 65535) :
    UInt16.ofInt (numeralValue digits : ℤ) = UInt16.ofNat (numeralValue digits) := by
  have hmod : ((numeralValue digits : ℤ) % 2 ^ 16).toNat = numeralValue digits := by omega
  rw [UInt16.ofInt, hmod]

theorem ofInt_atoi (overflow : List Char → ℤ) {digits : List Char} (h : IsNumeral digits)
    (hle : numeralValue digits ≤ 65535) :
    UInt16.ofInt (atoi overflow digits) = UInt16.ofNat (numeralValue digits) := by
  rw [atoi_numeral overflow h (by omega), ofInt_eq_ofNat hle]

/-- The only separator is the first one when there is none behind it. -/
theorem notMem_of_append {a b host digits : List Char} (ha : ':' ∉ a) (hb : ':' ∉ b)
    (h : a ++ ':' :: b = host ++ ':' :: digits) : ':' ∉ host := by
  have hcount := congrArg (List.count ':') h
  rw [List.count_append, List.count_append, List.count_cons_self, List.count_cons_self,
    List.count_eq_zero.mpr ha, List.count_eq_zero.mpr hb] at hcount
  apply List.count_eq_zero.mp
  omega

/-- A well-formed id is read as what it stands for, and stands for one thing. -/
theorem PortWritten.designates (overflow : List Char → ℤ) {rest : List Char}
    (h : PortWritten rest) :
    Designates rest (hostPort overflow (cStr rest) cLocalhost) ∧
      ∀ hp, Designates rest hp → hostPort overflow (cStr rest) cLocalhost = hp := by
  obtain ⟨hnumeral, hle, hnul⟩ := h
  rw [cStr_of_notMem hnul]
  cases hcut : cut? ':' rest with
  | none =>
      have hport : portText rest = rest := by rw [portText, hcut]
      rw [hport] at hnumeral hle
      have hcolon := cut?_eq_none.mp hcut
      rw [hostPort_of_notMem overflow cLocalhost hcolon, ofInt_atoi overflow hnumeral hle]
      refine ⟨.port hnumeral hle, ?_⟩
      intro hp hdes
      cases hdes with
      | port _ _ => rfl
      | hostPort host _ _ => simp at hcolon
  | some pair =>
      obtain ⟨a, port⟩ := pair
      have hport : portText rest = port := by rw [portText, hcut]
      rw [hport] at hnumeral hle
      obtain ⟨ha, rfl⟩ := cut?_eq_some.mp hcut
      rw [hostPort_append overflow port cLocalhost ha, ofInt_atoi overflow hnumeral hle]
      refine ⟨.hostPort a hnumeral hle, ?_⟩
      intro hp hdes
      generalize hrest : a ++ ':' :: port = rest at hdes
      cases hdes with
      | port hnumeral' _ =>
          have hcolon := hnumeral'.notMem (c := ':') (by decide)
          rw [← hrest] at hcolon
          simp at hcolon
      | hostPort host hnumeral' _ =>
          have hhost := notMem_of_append ha (hnumeral.notMem (by decide)) hrest
          obtain ⟨rfl, rfl⟩ := append_inj_of_notMem ha hhost hrest
          rfl

theorem notMem_host (overflow : List Char → ℤ) (address : List Char) :
    ':' ∉ (hostPort overflow address cLocalhost).host := by
  rw [hostPort]
  split
  · rename_i host port hcut
    exact (cut?_eq_some.mp hcut).1
  · change ':' ∉ cLocalhost
    decide

theorem nul_notMem_host (overflow : List Char → ℤ) (s : List Char) :
    '\x00' ∉ (hostPort overflow (cStr s) cLocalhost).host := by
  rw [hostPort]
  split
  · rename_i host port hcut
    intro hmem
    apply notMem_cStr s
    rw [(cut?_eq_some.mp hcut).2]
    exact List.mem_append_left _ hmem
  · change '\x00' ∉ cLocalhost
    decide

/-- An id that is read as what it stands for has a well-formed port. -/
theorem portWritten_of_designates (overflow : List Char → ℤ) {rest : List Char}
    (h : Designates rest (hostPort overflow (cStr rest) cLocalhost)) : PortWritten rest := by
  have hcolon := notMem_host overflow (cStr rest)
  have hnul := nul_notMem_host overflow rest
  generalize hostPort overflow (cStr rest) cLocalhost = hp at h hcolon hnul
  cases h with
  | port hnumeral hle =>
      have hport : portText rest = rest := by
        rw [portText, cut?_eq_none.mpr (hnumeral.notMem (by decide))]
      exact ⟨by rwa [hport], by rwa [hport], hnumeral.notMem (by decide)⟩
  | hostPort host hnumeral hle =>
      rename_i digits
      have hport : portText (host ++ ':' :: digits) = digits := by
        rw [portText, cut?_append hcolon]
      refine ⟨by rwa [hport], by rwa [hport], ?_⟩
      have hdigits := hnumeral.notMem (c := '\x00') (by decide)
      simp [hnul, hdigits]

theorem construct_sockets (platform : Platform) (overflow : List Char → ℤ) (rest : List Char) :
    construct platform overflow ("sockets".toList ++ '|' :: rest) =
      .ok (.sockets (hostPort overflow (cStr rest) cLocalhost)) := by
  rw [construct, select_sockets]
  rfl

theorem construct_other {platform : Platform} {overflow : List Char → ℤ}
    {protocol rest : List Char} (hbar : '|' ∉ protocol) (hsockets : protocol ≠ "sockets".toList)
    (hcom : ¬(platform = .windows ∧ protocol = "com".toList)) :
    ∃ message, construct platform overflow (protocol ++ '|' :: rest) =
      .error (.protocolNotSupported message) := by
  refine ⟨cStr (protocol ++ '|' :: rest), ?_⟩
  rw [construct, select, cut?_append hbar]
  have hfind : (constructors platform overflow).find? (fun c => c.protocol = protocol) = none := by
    rw [List.find?_eq_none]
    intro c hc
    simp only [decide_eq_true_eq]
    rintro rfl
    cases platform with
    | unix =>
        simp only [constructors, List.mem_singleton] at hc
        rw [hc] at hsockets
        exact hsockets rfl
    | windows =>
        simp only [constructors, List.mem_cons, List.not_mem_nil, or_false] at hc
        rcases hc with rfl | rfl
        · exact hcom ⟨rfl, rfl⟩
        · exact hsockets rfl
  simp only [hfind]
  rfl

theorem construct_com (overflow : List Char → ℤ) (rest : List Char) :
    ∃ id, construct .windows overflow ("com".toList ++ '|' :: rest) = .ok (.com id) := by
  refine ⟨cStr rest, ?_⟩
  rw [construct, select, cut?_append (by decide)]
  rfl

theorem lawful_construct_iff (platform : Platform) (overflow : List Char → ℤ)
    (typed : List Char) :
    Lawful platform typed (construct platform overflow typed) ↔
      ∀ rest, typed = "sockets".toList ++ '|' :: rest → PortWritten rest := by
  cases hcut : cut? '|' typed with
  | none =>
      have hbar := cut?_eq_none.mp hcut
      refine iff_of_true ?_ ?_
      · simp only [Lawful, hcut, construct, select]
        exact ⟨_, rfl⟩
      · rintro rest rfl
        simp at hbar
  | some pair =>
      obtain ⟨protocol, rest⟩ := pair
      obtain ⟨hbar, rfl⟩ := cut?_eq_some.mp hcut
      simp only [Lawful, hcut]
      by_cases hsockets : protocol = "sockets".toList
      · rw [if_pos hsockets, hsockets, construct_sockets]
        constructor
        · rintro ⟨hdes, hmalformed⟩ rest' hrest'
          obtain ⟨-, rfl⟩ := append_inj_of_notMem (by decide) (by decide) hrest'
          have hex : ∃ hp, Designates rest hp := by
            by_contra hnone
            obtain ⟨e, he⟩ := hmalformed hnone
            cases he
          obtain ⟨hp, hhp⟩ := hex
          have heq := hdes hp hhp
          rw [Except.ok.injEq, Endpoint.sockets.injEq] at heq
          exact portWritten_of_designates overflow (heq ▸ hhp)
        · intro hwritten
          have hrest := (hwritten rest rfl).designates overflow
          refine ⟨?_, ?_⟩
          · intro hp hhp
            rw [hrest.2 hp hhp]
          · intro hnone
            exact absurd ⟨_, hrest.1⟩ hnone
      · rw [if_neg hsockets]
        refine iff_of_true ?_ ?_
        · split
          · rename_i hcom
            rw [hcom.1, hcom.2]
            exact construct_com overflow rest
          · rename_i hcom
            exact construct_other hbar hsockets hcom
        · intro rest' hrest'
          exact absurd (append_inj_of_notMem hbar (by decide) hrest').1 hsockets

/-- Both functions create endpoints for well-formed ids only, exactly unless they are given
the name of the socket protocol with something that is not a port number of 16 bits. -/
theorem lawful_iff (platform : Platform) (overflow : List Char → ℤ) (typed : List Char) :
    (Lawful platform typed (runServer platform overflow typed) ∧
      Lawful platform typed (connectClient platform overflow typed)) ↔
      ∀ rest, typed = "sockets".toList ++ '|' :: rest → PortWritten rest := by
  rw [runServer, connectClient, and_self]
  exact lawful_construct_iff platform overflow typed

/-- The port 65616 is taken for the port 80. -/
theorem not_lawful_65616 :
    runServer .unix (fun _ => 0) "sockets|65616".toList =
        runServer .unix (fun _ => 0) "sockets|80".toList ∧
      ¬Lawful .unix "sockets|65616".toList
        (runServer .unix (fun _ => 0) "sockets|65616".toList) := by
  refine ⟨by decide, ?_⟩
  intro hlawful
  have hwritten := (lawful_construct_iff .unix (fun _ => 0) _).mp hlawful "65616".toList (by decide)
  exact absurd hwritten.le (by decide)

end CohesionIpc
