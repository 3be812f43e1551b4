import CardanoSdk.Lib.Utf8

/-!
UTF-16 as strings of code units. An encoder to UTF-8 writes the replacement character for
a surrogate that is not half of a pair.
-/

namespace CardanoSdk.Lib

/-- A string as its indices, lengths and slices count it. -/
abbrev JsString := List UInt16

def isHighSurrogate (unit : UInt16) : Bool :=
  decide (0xd800 ≤ unit.toNat) && decide (unit.toNat < 0xdc00)

def isLowSurrogate (unit : UInt16) : Bool :=
  decide (0xdc00 ≤ unit.toNat) && decide (unit.toNat < 0xe000)

def utf16EncodeChar (c : Char) : List UInt16 :=
  if c.toNat < 0x10000 then [UInt16.ofNat c.toNat]
  else
    [UInt16.ofNat (0xd800 + (c.toNat - 0x10000) / 0x400),
      UInt16.ofNat (0xdc00 + (c.toNat - 0x10000) % 0x400)]

def utf16Encode (text : String) : List UInt16 := text.toList.flatMap utf16EncodeChar

def WellFormedUtf16 (units : List UInt16) : Prop := ∃ text, utf16Encode text = units

def pairChar (high low : UInt16) : Char :=
  Char.ofNat (0x10000 + (high.toNat - 0xd800) * 0x400 + (low.toNat - 0xdc00))

/-- A unit that is not half of a pair. -/
def unitChar (unit : UInt16) : Char :=
  if isHighSurrogate unit || isLowSurrogate unit then replacementCharacter
  else Char.ofNat unit.toNat

def scalarValues : List UInt16 → List Char
  | [] => []
  | [unit] => [unitChar unit]
  | unit :: next :: rest =>
    if isHighSurrogate unit && isLowSurrogate next then pairChar unit next :: scalarValues rest
    else unitChar unit :: scalarValues (next :: rest)

def utf8Bytes (units : List UInt16) : List UInt8 :=
  (scalarValues units).flatMap String.utf8EncodeChar

/-- The second string goes on with the low half of a pair that the first breaks off in. -/
def SplitsPair (before after : List UInt16) : Prop :=
  (∃ unit ∈ before.getLast?, isHighSurrogate unit = true) ∧
    ∃ unit ∈ after.head?, isLowSurrogate unit = true

variable {unit : UInt16} {before after : List UInt16}

theorem isHighSurrogate_iff :
    isHighSurrogate unit = true ↔ 0xd800 ≤ unit.toNat ∧ unit.toNat < 0xdc00 := by
  simp [isHighSurrogate]

theorem isLowSurrogate_iff :
    isLowSurrogate unit = true ↔ 0xdc00 ≤ unit.toNat ∧ unit.toNat < 0xe000 := by
  simp [isLowSurrogate]

theorem not_isHighSurrogate_of_isLowSurrogate (hlow : isLowSurrogate unit = true) :
    isHighSurrogate unit = false := by
  rw [isLowSurrogate_iff] at hlow
  rw [Bool.eq_false_iff, ne_eq, isHighSurrogate_iff]
  omega

theorem scalarValues_cons (hunit : isHighSurrogate unit = false) (rest : List UInt16) :
    scalarValues (unit :: rest) = unitChar unit :: scalarValues rest := by
  cases rest with
  | nil => rfl
  | cons next rest => rw [scalarValues, hunit, Bool.false_and, if_neg Bool.false_ne_true]

theorem scalarValues_append (hsplit : ¬ SplitsPair before after) :
    scalarValues (before ++ after) = scalarValues before ++ scalarValues after := by
  induction before using scalarValues.induct with
  | case1 => rfl
  | case2 unit =>
    cases after with
    | nil => rfl
    | cons next rest =>
      have hpair : ¬ ((isHighSurrogate unit && isLowSurrogate next) = true) := fun hpair =>
        have hboth := Bool.and_eq_true_iff.mp hpair
        hsplit ⟨⟨unit, rfl, hboth.1⟩, ⟨next, rfl, hboth.2⟩⟩
      rw [List.singleton_append, scalarValues.eq_3, if_neg hpair]
      rfl
  | case3 unit next rest hpair ih =>
    have hrest : ¬ SplitsPair rest after := by
      rintro ⟨⟨last, hlast, hhigh⟩, hlow⟩
      refine hsplit ⟨⟨last, ?_, hhigh⟩, hlow⟩
      rw [List.getLast?_cons_of_ne_nil (List.cons_ne_nil _ _),
        List.getLast?_cons_of_ne_nil (by rintro rfl; cases hlast)]
      exact hlast
    rw [List.cons_append, List.cons_append, scalarValues, if_pos hpair, scalarValues,
      if_pos hpair, ih hrest, List.cons_append]
  | case4 unit next rest hpair ih =>
    have hrest : ¬ SplitsPair (next :: rest) after := by
      rintro ⟨⟨last, hlast, hhigh⟩, hlow⟩
      refine hsplit ⟨⟨last, ?_, hhigh⟩, hlow⟩
      rw [List.getLast?_cons_of_ne_nil (List.cons_ne_nil _ _)]
      exact hlast
    have hread := ih hrest
    rw [List.cons_append] at hread
    rw [List.cons_append, List.cons_append, scalarValues, if_neg hpair, scalarValues,
      if_neg hpair, hread, List.cons_append]

theorem utf8Bytes_append (hsplit : ¬ SplitsPair before after) :
    utf8Bytes (before ++ after) = utf8Bytes before ++ utf8Bytes after := by
  rw [utf8Bytes, scalarValues_append hsplit, List.flatMap_append]
  rfl

/-- The units of a character: one that is no surrogate, or a pair that stands for it. -/
theorem utf16EncodeChar_cases (c : Char) :
    (∃ unit, utf16EncodeChar c = [unit] ∧ isHighSurrogate unit = false ∧
      isLowSurrogate unit = false ∧ Char.ofNat unit.toNat = c) ∨
    ∃ high low, utf16EncodeChar c = [high, low] ∧ isHighSurrogate high = true ∧
      isLowSurrogate low = true ∧ pairChar high low = c := by
  have hvalid : c.toNat < 0xd800 ∨ 0xdfff < c.toNat ∧ c.toNat < 0x110000 := c.valid
  have hchar (n : ℕ) (hn : n = c.toNat) : Char.ofNat n = c := by rw [hn, Char.ofNat_toNat]
  unfold utf16EncodeChar
  generalize c.toNat = v at hvalid hchar
  split
  next hplane =>
    have hunit : (UInt16.ofNat v).toNat = v := by
      rw [UInt16.toNat_ofNat']
      exact Nat.mod_eq_of_lt hplane
    refine Or.inl ⟨_, rfl, ?_, ?_, hchar _ hunit⟩
    · rw [Bool.eq_false_iff, ne_eq, isHighSurrogate_iff, hunit]
      omega
    · rw [Bool.eq_false_iff, ne_eq, isLowSurrogate_iff, hunit]
      omega
  next hplane =>
    have hhigh : (UInt16.ofNat (0xd800 + (v - 0x10000) / 0x400)).toNat =
        0xd800 + (v - 0x10000) / 0x400 := by
      rw [UInt16.toNat_ofNat']
      exact Nat.mod_eq_of_lt (by omega)
    have hlow : (UInt16.ofNat (0xdc00 + (v - 0x10000) % 0x400)).toNat =
        0xdc00 + (v - 0x10000) % 0x400 := by
      rw [UInt16.toNat_ofNat']
      exact Nat.mod_eq_of_lt (by omega)
    refine Or.inr ⟨_, _, rfl, ?_, ?_, hchar _ ?_⟩
    · rw [isHighSurrogate_iff, hhigh]
      omega
    · rw [isLowSurrogate_iff, hlow]
      omega
    · rw [hhigh, hlow]
      omega

theorem scalarValues_encodeChar (c : Char) (rest : List UInt16) :
    scalarValues (utf16EncodeChar c ++ rest) = c :: scalarValues rest := by
  rcases utf16EncodeChar_cases c with
    ⟨unit, hunits, hhigh, hlow, hc⟩ | ⟨high, low, hunits, hhigh, hlow, hc⟩
  · rw [hunits, List.singleton_append, scalarValues_cons hhigh, unitChar, hhigh, hlow,
      Bool.or_false, if_neg Bool.false_ne_true, hc]
  · rw [hunits, List.cons_append, List.singleton_append, scalarValues,
      if_pos (by rw [hhigh, hlow, Bool.and_true]), hc]

theorem scalarValues_utf16Encode (text : String) :
    scalarValues (utf16Encode text) = text.toList := by
  unfold utf16Encode
  induction text.toList with
  | nil => rfl
  | cons c rest ih => rw [List.flatMap_cons, scalarValues_encodeChar, ih]

theorem utf8Bytes_utf16Encode (text : String) : utf8Bytes (utf16Encode text) = utf8Encode text := by
  rw [utf8Bytes, scalarValues_utf16Encode]
  rfl

theorem not_isHighSurrogate_getLast {units : List UInt16} (hwell : WellFormedUtf16 units)
    (hlast : unit ∈ units.getLast?) : isHighSurrogate unit = false := by
  obtain ⟨text, rfl⟩ := hwell
  unfold utf16Encode at hlast
  rcases List.eq_nil_or_concat text.toList with hnil | ⟨init, c, hconcat⟩
  · rw [hnil] at hlast
    cases hlast
  · rw [hconcat, List.concat_eq_append, List.flatMap_append, List.flatMap_singleton] at hlast
    rcases utf16EncodeChar_cases c with
      ⟨last, hunits, hhigh, -, -⟩ | ⟨high, low, hunits, -, hlow, -⟩
    · rw [hunits, List.getLast?_concat] at hlast
      cases hlast
      exact hhigh
    · rw [hunits, List.append_cons, List.getLast?_concat] at hlast
      cases hlast
      exact not_isHighSurrogate_of_isLowSurrogate hlow

theorem WellFormedUtf16.not_splitsPair (hwell : WellFormedUtf16 before) :
    ¬ SplitsPair before after := by
  rintro ⟨⟨unit, hlast, hhigh⟩, -⟩
  rw [not_isHighSurrogate_getLast hwell hlast] at hhigh
  cases hhigh

theorem exists_chars_of_append {chars : List Char}
    (hunits : chars.flatMap utf16EncodeChar = before ++ after)
    (hsplit : ¬ SplitsPair before after) :
    ∃ first second : List Char, first.flatMap utf16EncodeChar = before ∧
      second.flatMap utf16EncodeChar = after := by
  induction chars generalizing before with
  | nil =>
    have hnil := List.append_eq_nil_iff.mp hunits.symm
    exact ⟨[], [], hnil.1.symm, hnil.2.symm⟩
  | cons c rest ih =>
    have hlast {init : List UInt16} {unit : UInt16} (hinit : SplitsPair init after) :
        SplitsPair (unit :: init) after := by
      obtain ⟨⟨last, hlast, hhigh⟩, hlow⟩ := hinit
      refine ⟨⟨last, ?_, hhigh⟩, hlow⟩
      rw [List.getLast?_cons_of_ne_nil (by rintro rfl; cases hlast)]
      exact hlast
    rw [List.flatMap_cons] at hunits
    rcases utf16EncodeChar_cases c with
      ⟨unit, hc, -, -, -⟩ | ⟨high, low, hc, hhigh, hlow, -⟩
    · rw [hc, List.singleton_append] at hunits
      cases before with
      | nil => exact ⟨[], c :: rest, rfl, by rw [List.flatMap_cons, hc]; exact hunits⟩
      | cons unit' init =>
        obtain ⟨rfl, hinit⟩ := List.cons_eq_cons.mp hunits
        obtain ⟨first, second, hfirst, hsecond⟩ := ih hinit fun h => hsplit (hlast h)
        exact ⟨c :: first, second, by rw [List.flatMap_cons, hc, hfirst]; rfl, hsecond⟩
    · rw [hc, List.cons_append, List.singleton_append] at hunits
      rcases before with _ | ⟨high', _ | ⟨low', init⟩⟩
      · exact ⟨[], c :: rest, rfl, by rw [List.flatMap_cons, hc]; exact hunits⟩
      · simp only [List.cons_append, List.nil_append, List.cons.injEq] at hunits
        obtain ⟨rfl, hafter⟩ := hunits
        exact absurd ⟨⟨high, rfl, hhigh⟩, ⟨low, by rw [← hafter]; rfl, hlow⟩⟩ hsplit
      · simp only [List.cons_append, List.cons.injEq] at hunits
        obtain ⟨rfl, rfl, hinit⟩ := hunits
        obtain ⟨first, second, hfirst, hsecond⟩ := ih hinit fun h => hsplit (hlast (hlast h))
        exact ⟨c :: first, second, by rw [List.flatMap_cons, hc, hfirst]; rfl, hsecond⟩

theorem wellFormed_of_append (hwell : WellFormedUtf16 (before ++ after))
    (hsplit : ¬ SplitsPair before after) : WellFormedUtf16 before ∧ WellFormedUtf16 after := by
  obtain ⟨text, htext⟩ := hwell
  obtain ⟨first, second, rfl, rfl⟩ := exists_chars_of_append htext hsplit
  exact ⟨⟨String.ofList first, by rw [utf16Encode, String.toList_ofList]⟩,
    ⟨String.ofList second, by rw [utf16Encode, String.toList_ofList]⟩⟩

theorem length_utf8Bytes_singleton (unit : UInt16) :
    (utf8Bytes [unit]).length = (unitChar unit).utf8Size := by
  rw [utf8Bytes, scalarValues, List.flatMap_singleton, String.length_utf8EncodeChar]

theorem utf8Size_eq_four_iff {c : Char} : c.utf8Size = 4 ↔ 0xffff < c.toNat := by
  rw [Char.utf8Size_eq_four_iff, UInt32.lt_iff_toNat_lt]
  rfl

theorem toNat_ofNat_of_isValidChar {n : ℕ} (hn : n.isValidChar) : (Char.ofNat n).toNat = n := by
  rw [Char.ofNat, dif_pos hn]
  rfl

theorem utf8Size_unitChar_le (unit : UInt16) : (unitChar unit).utf8Size ≤ 3 := by
  have hle := (unitChar unit).utf8Size_le_four
  have hfour : (unitChar unit).utf8Size ≠ 4 := by
    rw [ne_eq, utf8Size_eq_four_iff]
    unfold unitChar
    split
    · decide
    next hnone =>
      have hunit := unit.toNat_lt
      rw [Bool.or_eq_true, isHighSurrogate_iff, isLowSurrogate_iff] at hnone
      have hvalid : unit.toNat.isValidChar := by
        unfold Nat.isValidChar
        omega
      rw [toNat_ofNat_of_isValidChar hvalid]
      omega
  omega

theorem utf8Size_unitChar_of_surrogate
    (hunit : (isHighSurrogate unit || isLowSurrogate unit) = true) :
    (unitChar unit).utf8Size = 3 := by
  rw [unitChar, if_pos hunit]
  rfl

theorem utf8Size_pairChar {high low : UInt16} (hhigh : isHighSurrogate high = true)
    (hlow : isLowSurrogate low = true) : (pairChar high low).utf8Size = 4 := by
  rw [isHighSurrogate_iff] at hhigh
  rw [isLowSurrogate_iff] at hlow
  have hvalid : (0x10000 + (high.toNat - 0xd800) * 0x400 + (low.toNat - 0xdc00)).isValidChar :=
    Or.inr (by omega)
  rw [utf8Size_eq_four_iff, pairChar, toNat_ofNat_of_isValidChar hvalid]
  omega

theorem length_utf8Bytes_append (hsplit : SplitsPair before after) :
    (utf8Bytes (before ++ after)).length + 2 =
      (utf8Bytes before).length + (utf8Bytes after).length := by
  obtain ⟨⟨high, hlast, hhigh⟩, low, hhead, hlow⟩ := hsplit
  obtain ⟨init, rfl⟩ := List.getLast?_eq_some_iff.mp hlast
  obtain ⟨rest, rfl⟩ := List.head?_eq_some_iff.mp hhead
  have hnotLow : isLowSurrogate high = false := by
    rw [isHighSurrogate_iff] at hhigh
    rw [Bool.eq_false_iff, ne_eq, isLowSurrogate_iff]
    omega
  have hinit (units : List UInt16) : ¬ SplitsPair init (high :: units) := by
    rintro ⟨-, unit, hunit, hlow⟩
    cases hunit
    rw [hnotLow] at hlow
    cases hlow
  have hrest (units : List UInt16) : ¬ SplitsPair (units ++ [low]) rest := by
    rintro ⟨⟨unit, hunit, hhigh⟩, -⟩
    rw [List.getLast?_concat] at hunit
    cases hunit
    rw [not_isHighSurrogate_of_isLowSurrogate hlow] at hhigh
    cases hhigh
  have hpair : utf8Bytes [high, low] = String.utf8EncodeChar (pairChar high low) := by
    rw [utf8Bytes, scalarValues, if_pos (by rw [hhigh, hlow, Bool.and_true])]
    exact List.flatMap_singleton _ _
  have hwhole : utf8Bytes (init ++ [high] ++ low :: rest) =
      utf8Bytes init ++ (utf8Bytes [high, low] ++ utf8Bytes rest) := by
    have hafter : utf8Bytes (high :: low :: rest) = utf8Bytes [high, low] ++ utf8Bytes rest :=
      utf8Bytes_append (hrest [high])
    rw [List.append_assoc, ← hafter]
    exact utf8Bytes_append (hinit _)
  have hbefore : utf8Bytes (init ++ [high]) = utf8Bytes init ++ utf8Bytes [high] :=
    utf8Bytes_append (hinit [])
  have hafter : utf8Bytes (low :: rest) = utf8Bytes [low] ++ utf8Bytes rest :=
    utf8Bytes_append (hrest [])
  rw [hwhole, hbefore, hafter, hpair]
  simp only [List.length_append, String.length_utf8EncodeChar, utf8Size_pairChar hhigh hlow,
    length_utf8Bytes_singleton]
  rw [utf8Size_unitChar_of_surrogate (by rw [hhigh, Bool.true_or]),
    utf8Size_unitChar_of_surrogate (by rw [hlow, Bool.or_true])]
  omega

theorem length_utf8Bytes_append_le (before after : List UInt16) :
    (utf8Bytes (before ++ after)).length ≤
      (utf8Bytes before).length + (utf8Bytes after).length := by
  by_cases hsplit : SplitsPair before after
  · have := length_utf8Bytes_append hsplit
    omega
  · rw [utf8Bytes_append hsplit, List.length_append]

/-- No pair is split between a string and the next. -/
def KeepsPairs (parts : List (List UInt16)) : Prop := parts.IsChain fun a b => ¬ SplitsPair a b

theorem splitsPair_flatten {part next : List UInt16} (hnext : next ≠ [])
    (parts : List (List UInt16)) :
    SplitsPair part (next :: parts).flatten ↔ SplitsPair part next := by
  unfold SplitsPair
  rw [List.flatten_cons, List.head?_append_of_ne_nil _ hnext]

theorem length_utf8Bytes_flatten_le (parts : List (List UInt16)) :
    (utf8Bytes parts.flatten).length ≤ (parts.flatMap utf8Bytes).length := by
  induction parts with
  | nil => exact le_rfl
  | cons part rest ih =>
    rw [List.flatten_cons, List.flatMap_cons, List.length_append]
    exact (length_utf8Bytes_append_le _ _).trans (Nat.add_le_add_left ih _)

variable {parts : List (List UInt16)}

theorem flatMap_utf8Bytes_iff (hparts : ∀ part ∈ parts, part ≠ []) :
    parts.flatMap utf8Bytes = utf8Bytes parts.flatten ↔ KeepsPairs parts := by
  unfold KeepsPairs
  induction parts with
  | nil => exact iff_of_true rfl List.isChain_nil
  | cons part rest ih =>
    have hrest := ih fun other hother => hparts other (List.mem_cons_of_mem _ hother)
    cases rest with
    | nil =>
      refine iff_of_true ?_ (List.isChain_singleton _)
      rw [List.flatMap_singleton, List.flatten_singleton]
    | cons next rest =>
      have hnext := hparts next (List.mem_cons_of_mem _ List.mem_cons_self)
      rw [List.isChain_cons_cons, ← hrest, ← splitsPair_flatten hnext rest,
        List.flatMap_cons, @List.flatten_cons _ part]
      constructor
      · intro hwhole
        have hsplit : ¬ SplitsPair part (next :: rest).flatten := by
          intro hsplit
          have hlonger := length_utf8Bytes_append hsplit
          have hle := length_utf8Bytes_flatten_le (next :: rest)
          have hlength := congrArg List.length hwhole
          rw [List.length_append] at hlength
          omega
        rw [utf8Bytes_append hsplit] at hwhole
        exact ⟨hsplit, List.append_cancel_left hwhole⟩
      · rintro ⟨hsplit, hwhole⟩
        rw [utf8Bytes_append hsplit, hwhole]

theorem forall_wellFormed_iff (hparts : ∀ part ∈ parts, part ≠ [])
    (hwell : WellFormedUtf16 parts.flatten) :
    (∀ part ∈ parts, WellFormedUtf16 part) ↔ KeepsPairs parts := by
  unfold KeepsPairs
  induction parts with
  | nil => exact iff_of_true (fun _ hmem => absurd hmem List.not_mem_nil) List.isChain_nil
  | cons part rest ih =>
    rw [List.forall_mem_cons]
    cases rest with
    | nil =>
      rw [List.flatten_singleton] at hwell
      refine iff_of_true ⟨hwell, ?_⟩ (List.isChain_singleton _)
      exact fun _ hmem => absurd hmem List.not_mem_nil
    | cons next rest =>
      have hnext := hparts next (List.mem_cons_of_mem _ List.mem_cons_self)
      have hrest (hwell : WellFormedUtf16 (next :: rest).flatten) :=
        ih (fun other hother => hparts other (List.mem_cons_of_mem _ hother)) hwell
      rw [@List.flatten_cons _ part] at hwell
      rw [List.isChain_cons_cons, ← splitsPair_flatten hnext rest]
      constructor
      · rintro ⟨hpart, hothers⟩
        have hsplit : ¬ SplitsPair part (next :: rest).flatten := hpart.not_splitsPair
        exact ⟨hsplit, (hrest (wellFormed_of_append hwell hsplit).2).mp hothers⟩
      · rintro ⟨hsplit, hchain⟩
        have hboth := wellFormed_of_append hwell hsplit
        exact ⟨hboth.1, (hrest hboth.2).mpr hchain⟩

end CardanoSdk.Lib
