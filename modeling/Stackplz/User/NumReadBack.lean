import Stackplz.User.ValueFilter
import Stackplz.User.FilterHelper
import Stackplz.User.NumText

/-!
# Numbers read back

What the output shows for a number of any type and format says which number it is, with the names
of its flags behind it or without them (`numText_inj`). A number that an unsigned type shows can
be put into a filter: `StrToNum64` selects the base by the mark that the format has written, and
reads the same number. Two kinds of text do not fit: hexadecimal digits without a mark, from the
second one on, and octal and binary numbers with a sign (`shownNumber_addFilter`).
-/

set_option autoImplicit false

namespace Stackplz

/-! ## What a text says -/

theorem padZeros_of_neg {v : Int} (h : v < 0) :
    padZeros (Numeral.formatInt v 8) =
      List.replicate (3 - (Numeral.formatInt v 8).length) '0' ++
        '-' :: Nat.toDigits 8 v.natAbs := by
  unfold padZeros Numeral.formatInt
  rw [if_pos h]

theorem padZeros_of_nonneg {v : Int} (h : ¬ v < 0) :
    padZeros (Numeral.formatInt v 8) =
      List.replicate (3 - (Numeral.formatInt v 8).length) '0' ++ Nat.toDigits 8 v.natAbs := by
  unfold padZeros Numeral.formatInt
  rw [if_neg h]

/-- Padding does not change what a numeral says. -/
theorem padZeros_inj {v w : Int}
    (h : padZeros (Numeral.formatInt v 8) = padZeros (Numeral.formatInt w 8)) : v = w := by
  have hplain (k n : Nat) : '-' ∉ List.replicate k '0' ++ Nat.toDigits 8 n := by
    intro hmem
    rcases List.mem_append.mp hmem with hzero | hdigit
    · exact absurd (List.eq_of_mem_replicate hzero) (by decide)
    · exact Numeral.not_mem_toDigits (by omega) (by omega) (by decide) hdigit
  -- padding puts its zeros in front of the sign, so dropping zeros leads to the sign
  have hsign (k : Nat) (s : Text) :
      (List.replicate k '0' ++ '-' :: s).dropWhile (· == '0') = '-' :: s := by
    rw [List.dropWhile_append_of_pos fun c hc => by rw [List.eq_of_mem_replicate hc]; rfl]
    rfl
  by_cases hv : v < 0
  · by_cases hw : w < 0
    · rw [padZeros_of_neg hv, padZeros_of_neg hw] at h
      have hrest := congrArg (List.dropWhile (· == '0')) h
      rw [hsign, hsign] at hrest
      have habs := Numeral.toDigits_inj (by omega) (by omega) (List.cons.inj hrest).2
      omega
    · rw [padZeros_of_neg hv, padZeros_of_nonneg hw] at h
      have hmem : '-' ∈ List.replicate (3 - (Numeral.formatInt v 8).length) '0' ++
          '-' :: Nat.toDigits 8 v.natAbs := List.mem_append_right _ List.mem_cons_self
      rw [h] at hmem
      exact absurd hmem (hplain _ _)
  · by_cases hw : w < 0
    · rw [padZeros_of_nonneg hv, padZeros_of_neg hw] at h
      have hmem : '-' ∈ List.replicate (3 - (Numeral.formatInt w 8).length) '0' ++
          '-' :: Nat.toDigits 8 w.natAbs := List.mem_append_right _ List.mem_cons_self
      rw [← h] at hmem
      exact absurd hmem (hplain _ _)
    · rw [padZeros_of_nonneg hv, padZeros_of_nonneg hw] at h
      have habs := Numeral.toDigits_inj_of_zeros (by omega) (by omega) h
      omega

/-- In any format a text says which value it is of. -/
theorem print_inj (format : NumFormat) {v w : Int} (h : format.print v = format.print w) :
    v = w := by
  cases format with
  | num | dec | hexPure => exact Numeral.formatInt_inj (by omega) (by omega) h
  | hex | bin => exact Numeral.formatInt_inj (by omega) (by omega) (List.append_cancel_left h)
  | oct => exact padZeros_inj (List.append_cancel_left h)

/-- No format writes an opening bracket. -/
theorem bracket_not_mem_print (format : NumFormat) (v : Int) : '(' ∉ format.print v := by
  have hnumeral {b : Nat} (hb : 1 < b) (hb' : b ≤ 16) : '(' ∉ Numeral.formatInt v b := by
    intro h
    rcases Numeral.formatInt_chars hb hb' h with hsign | hdigit
    · exact absurd hsign (by decide)
    · exact absurd hdigit (by decide)
  have hten := hnumeral (b := 10) (by omega) (by omega)
  have hsixteen := hnumeral (b := 16) (by omega) (by omega)
  have height := hnumeral (b := 8) (by omega) (by omega)
  have htwo := hnumeral (b := 2) (by omega) (by omega)
  unfold NumFormat.print padZeros
  cases format <;> simp [hten, hsixteen, height, htwo, List.mem_replicate]

/-- The names of flags stand in brackets. -/
theorem flags_cases (flagsConfig : FlagsConfig) (value : BitVec 32) :
    flagsConfig.parse value = [] ∨ ∃ s, flagsConfig.parse value = '(' :: s := by
  unfold FlagsConfig.parse
  dsimp only
  split
  · exact Or.inr ⟨_, rfl⟩
  · exact Or.inl rfl

/-- The text of a number with the names of flags behind it still says which number it is. -/
theorem print_flags_inj (format : NumFormat) {v w : Int} {flags flags' : Text}
    (hflags : flags = [] ∨ ∃ s, flags = '(' :: s) (hflags' : flags' = [] ∨ ∃ s, flags' = '(' :: s)
    (h : format.print v ++ flags = format.print w ++ flags') : v = w := by
  have hfront (v : Int) {flags : Text} (hflags : flags = [] ∨ ∃ s, flags = '(' :: s) :
      (format.print v ++ flags).takeWhile (· != '(') = format.print v := by
    have hall : ∀ c ∈ format.print v, (c != '(') = true := by
      intro c hc
      rw [bne_iff_ne]
      rintro rfl
      exact bracket_not_mem_print format v hc
    rw [List.takeWhile_append_of_pos hall]
    rcases hflags with rfl | ⟨s, rfl⟩
    · exact List.append_nil _
    · exact List.append_nil _
  apply print_inj format
  calc format.print v = (format.print v ++ flags).takeWhile (· != '(') := (hfront v hflags).symm
    _ = (format.print w ++ flags').takeWhile (· != '(') := by rw [h]
    _ = format.print w := hfront w hflags'

theorem formatAlways_inj (this : ArgNum) {v w : Int}
    (h : this.formatAlways v = this.formatAlways w) : v = w := by
  unfold ArgNum.formatAlways at h
  cases hconfig : this.flagsConfig with
  | none =>
      rw [hconfig] at h
      exact print_flags_inj this.formatType (Or.inl rfl) (Or.inl rfl) h
  | some flagsConfig =>
      rw [hconfig] at h
      exact print_flags_inj this.formatType (flags_cases _ _) (flags_cases _ _) h

theorem formatWithFlags_inj (this : ArgNum) {v w : Int}
    (h : this.formatWithFlags v = this.formatWithFlags w) : v = w := by
  unfold ArgNum.formatWithFlags at h
  cases hconfig : this.flagsConfig with
  | none =>
      rw [hconfig] at h
      exact Numeral.formatInt_inj (by omega) (by omega) h
  | some flagsConfig =>
      rw [hconfig] at h
      exact print_flags_inj this.formatType (flags_cases _ _) (flags_cases _ _) h

section Types

variable {show₁ : Int → Text} {n : Nat} {x y : BitVec n}

theorem signed_iff (hinj : ∀ v w, show₁ v = show₁ w → v = w) :
    show₁ x.toInt = show₁ y.toInt ↔ x = y :=
  ⟨fun h => BitVec.eq_of_toInt_eq (hinj _ _ h), fun h => congrArg (fun x => show₁ x.toInt) h⟩

theorem unsigned_iff (hinj : ∀ v w, show₁ v = show₁ w → v = w) :
    show₁ x.toNat = show₁ y.toNat ↔ x = y :=
  ⟨fun h => BitVec.eq_of_toNat_eq (Int.ofNat.inj (hinj _ _ h)),
    fun h => congrArg (fun x => show₁ x.toNat) h⟩

/-- An `ARG_UINT64` shows all of its bits, with a sign or without. -/
theorem uint64Value_inj (format : NumFormat) {ptr ptr' : u64}
    (h : format.uint64Value ptr = format.uint64Value ptr') : ptr = ptr' := by
  cases format with
  | oct | bin => exact BitVec.eq_of_toInt_eq h
  | num | hexPure | hex | dec => exact BitVec.eq_of_toNat_eq (Int.ofNat.inj h)

end Types

/-- **What is shown for a number says which number it is,** as far as the type keeps it: for every
number type, format and table of flags. -/
theorem numText_inj (this : ArgNum) (ptr ptr' : u64) :
    (this.parseInt ptr = this.parseInt ptr' ↔ ptr.setWidth 32 = ptr'.setWidth 32) ∧
      (this.parseUint ptr = this.parseUint ptr' ↔ ptr.setWidth 32 = ptr'.setWidth 32) ∧
      (this.parseInt8 ptr = this.parseInt8 ptr' ↔ ptr.setWidth 8 = ptr'.setWidth 8) ∧
      (this.parseInt16 ptr = this.parseInt16 ptr' ↔ ptr.setWidth 16 = ptr'.setWidth 16) ∧
      (this.parseInt32 ptr = this.parseInt32 ptr' ↔ ptr.setWidth 32 = ptr'.setWidth 32) ∧
      (this.parseInt64 ptr = this.parseInt64 ptr' ↔ ptr = ptr') ∧
      (this.parseUint8 ptr = this.parseUint8 ptr' ↔ ptr.setWidth 8 = ptr'.setWidth 8) ∧
      (this.parseUint16 ptr = this.parseUint16 ptr' ↔ ptr.setWidth 16 = ptr'.setWidth 16) ∧
      (this.parseUint32 ptr = this.parseUint32 ptr' ↔ ptr.setWidth 32 = ptr'.setWidth 32) ∧
      (this.parseUint64 ptr = this.parseUint64 ptr' ↔ ptr = ptr') := by
  have halways := fun v w => formatAlways_inj this (v := v) (w := w)
  have hwith := fun v w => formatWithFlags_inj this (v := v) (w := w)
  have hwide : this.parseUint64 ptr = this.parseUint64 ptr' ↔ ptr = ptr' := by
    constructor
    · exact fun h => uint64Value_inj this.formatType (formatAlways_inj this h)
    · exact fun h => congrArg this.parseUint64 h
  exact ⟨signed_iff halways, unsigned_iff halways, signed_iff hwith, signed_iff hwith,
    signed_iff hwith, signed_iff hwith, unsigned_iff hwith, unsigned_iff hwith, unsigned_iff hwith,
    hwide⟩

/-! ## Numbers in filters -/

section Reading

variable {v bits : Nat}

/-- A literal without underscores is read in the base that it selects. -/
theorem parseUint_of_base {s digits : Text} {base : Nat} (hs : s ≠ [])
    (hbase : Text.baseOf s = (base, digits)) (hsep : '_' ∉ s) :
    Text.parseUint s 0 bits = Text.parseDigits base bits true 0 digits := by
  unfold Text.parseUint
  rw [if_neg hs, if_pos rfl, hbase]
  dsimp only
  cases Text.parseDigits base bits true 0 digits with
  | none => rfl
  | some n => simp [hsep]

/-- A literal with a mark is read in the base of the mark. -/
theorem parseUint_marked {mark : Char} {base : Nat} {s : Text} (hs : s ≠ [])
    (hbase : ∀ c cs, Text.baseOf ('0' :: mark :: c :: cs) = (base, c :: cs)) (hmark : mark ≠ '_')
    (hsep : '_' ∉ s) :
    Text.parseUint ('0' :: mark :: s) 0 bits = Text.parseDigits base bits true 0 s := by
  cases s with
  | nil => exact absurd rfl hs
  | cons c cs =>
      have hnone : '_' ∉ '0' :: mark :: c :: cs := by
        intro hmem
        rcases List.mem_cons.mp hmem with hzero | hmem
        · exact absurd hzero (by decide)
        · rcases List.mem_cons.mp hmem with heq | hmem
          · exact hmark heq.symm
          · exact hsep hmem
      exact parseUint_of_base (by simp) (hbase c cs) hnone

/-- A literal that begins with another digit is decimal. -/
theorem parseUint_plain {c : Char} {s : Text} (hc : c ≠ '0') (hsep : '_' ∉ c :: s) :
    Text.parseUint (c :: s) 0 bits = Text.parseDigits 10 bits true 0 (c :: s) := by
  have hbase : Text.baseOf (c :: s) = (10, c :: s) := by
    unfold Text.baseOf
    split
    · rename_i heq
      exact absurd (List.cons.inj heq).1 hc
    · rename_i heq
      exact absurd (List.cons.inj heq).1 hc
    · rfl
  exact parseUint_of_base (by simp) hbase hsep

theorem sep_not_mem_toDigits {b : Nat} (hb : 1 < b) (hb' : b ≤ 16) (n : Nat) :
    '_' ∉ Nat.toDigits b n := Numeral.not_mem_toDigits hb hb' (by decide)

theorem formatInt_natCast (n b : Nat) : Numeral.formatInt n b = Nat.toDigits b n := by
  unfold Numeral.formatInt
  rw [if_neg (by omega), Int.natAbs_natCast]

/-- Digits without a mark are read as decimal ones. -/
theorem parseUint_toDigits {b : Nat} (hb : 1 < b) (hb' : b ≤ 16) (hpos : 0 < v) :
    Text.parseUint (Nat.toDigits b v) 0 bits =
      Text.parseDigits 10 bits true 0 (Nat.toDigits b v) := by
  obtain ⟨c, s, hdigits, hc⟩ := Numeral.head_toDigits hb hb' hpos
  have hsep := sep_not_mem_toDigits hb hb' v
  rw [hdigits] at hsep ⊢
  exact parseUint_plain hc hsep

theorem parseUint_decimal (h : v < 2 ^ bits) :
    Text.parseUint (Nat.toDigits 10 v) 0 bits = some v := by
  by_cases hzero : v = 0
  · subst hzero
    rfl
  · rw [parseUint_toDigits (by omega) (by omega) (Nat.pos_of_ne_zero hzero)]
    exact Numeral.parseDigits_toDigits (by omega) (by omega) h

/-- **Every format that marks its base is read back.** -/
theorem parseUint_print {format : NumFormat} (hmark : format ≠ .hexPure) (h : v < 2 ^ bits) :
    Text.parseUint (format.print v) 0 bits = some v := by
  have hdigits {b : Nat} (hb : 1 < b) (hb' : b ≤ 16) :
      Text.parseDigits b bits true 0 (Nat.toDigits b v) = some v :=
    Numeral.parseDigits_toDigits hb hb' h
  have hne (b : Nat) : Nat.toDigits b v ≠ [] := List.ne_nil_of_length_pos Nat.length_toDigits_pos
  cases format with
  | hexPure => exact absurd rfl hmark
  | num | dec =>
      unfold NumFormat.print
      dsimp only
      rw [formatInt_natCast]
      exact parseUint_decimal h
  | hex =>
      have hsep := sep_not_mem_toDigits (b := 16) (by omega) (by omega) v
      unfold NumFormat.print
      dsimp only
      rw [formatInt_natCast]
      calc Text.parseUint ('0' :: 'x' :: Nat.toDigits 16 v) 0 bits
          = Text.parseDigits 16 bits true 0 (Nat.toDigits 16 v) :=
            parseUint_marked (hne 16) (fun _ _ => rfl) (by decide) hsep
        _ = some v := hdigits (by omega) (by omega)
  | bin =>
      have hsep := sep_not_mem_toDigits (b := 2) (by omega) (by omega) v
      unfold NumFormat.print
      dsimp only
      rw [formatInt_natCast]
      calc Text.parseUint ('0' :: 'b' :: Nat.toDigits 2 v) 0 bits
          = Text.parseDigits 2 bits true 0 (Nat.toDigits 2 v) :=
            parseUint_marked (hne 2) (fun _ _ => rfl) (by decide) hsep
        _ = some v := hdigits (by omega) (by omega)
  -- the zeros that pad an octal number add nothing to it
  | oct =>
      have hsep := sep_not_mem_toDigits (b := 8) (by omega) (by omega) v
      unfold NumFormat.print padZeros
      dsimp only
      rw [formatInt_natCast]
      calc Text.parseUint ('0' :: 'o' ::
            (List.replicate (3 - (Nat.toDigits 8 v).length) '0' ++ Nat.toDigits 8 v)) 0 bits
          = Text.parseDigits 8 bits true 0
            (List.replicate (3 - (Nat.toDigits 8 v).length) '0' ++ Nat.toDigits 8 v) := by
            apply parseUint_marked _ (fun _ _ => rfl) (by decide)
            · simp [hsep, List.mem_replicate]
            · exact List.append_ne_nil_of_right_ne_nil _ (hne 8)
        _ = Text.parseDigits 8 bits true 0 (Nat.toDigits 8 v) :=
            Numeral.parseDigits_replicate (by omega) _ _
        _ = some v := hdigits (by omega) (by omega)

/-- Hexadecimal digits without a mark say less when they are read as decimal ones. -/
theorem parseDigits_hexPure {m : Nat} {prefixed : Bool}
    (h : Text.parseDigits 10 bits prefixed 0 (Nat.toDigits 16 v) = some m) :
    m ≤ v ∧ (10 ≤ v → m < v) := by
  have hvalues : ∀ d < 16, Nat.digitChar d ≠ '_' ∧ Text.digitValue (Nat.digitChar d) = some d := by
    decide
  induction v using Nat.strongRecOn generalizing m with
  | _ v ih =>
      by_cases hv : v < 16
      · obtain ⟨hplain, hvalue⟩ := hvalues v hv
        rw [Nat.toDigits_of_lt_base hv] at h
        by_cases hten : 10 ≤ v
        · simp [Text.parseDigits, hplain, hvalue, hten] at h
        · by_cases hfits : 2 ^ bits ≤ v
          · simp [Text.parseDigits, hplain, hvalue, hten, hfits] at h
          · simp [Text.parseDigits, hplain, hvalue, hten, hfits] at h
            omega
      · have hlast : v % 16 < 16 := Nat.mod_lt v (by omega)
        obtain ⟨hplain, hvalue⟩ := hvalues (v % 16) hlast
        rw [Numeral.toDigits_of_le (by omega) (by omega), Numeral.parseDigits_append] at h
        obtain ⟨front, hfront, h⟩ := Option.bind_eq_some_iff.mp h
        have hle := (ih (v / 16) (by omega) hfront).1
        by_cases hten : 10 ≤ v % 16
        · simp [Text.parseDigits, hplain, hvalue, hten] at h
        · by_cases hfits : 2 ^ bits ≤ front * 10 + v % 16
          · simp [Text.parseDigits, hplain, hvalue, hten, hfits] at h
          · simp [Text.parseDigits, hplain, hvalue, hten, hfits] at h
            omega

/-- A sign behind the mark of a base is no digit. -/
theorem parseUint_signed {mark : Char} {base : Nat} {s : Text}
    (hbase : ∀ c cs, Text.baseOf ('0' :: mark :: c :: cs) = (base, c :: cs)) (hmark : mark ≠ '_')
    (hsep : '_' ∉ s) (hsign : '-' ∈ s) :
    Text.parseUint ('0' :: mark :: s) 0 bits = none := by
  rw [parseUint_marked (List.ne_nil_of_mem hsign) hbase hmark hsep]
  cases hparse : Text.parseDigits base bits true 0 s with
  | none => rfl
  | some n =>
      have hnone : Text.digitValue '-' = none := by decide
      rcases Text.parseDigits_chars hparse '-' hsign with heq | ⟨d, -, hd⟩
      · exact absurd heq (by decide)
      · rw [hnone] at hd
        cases hd

/-- A negative octal or binary number is no literal. -/
theorem parseUint_print_neg {format : NumFormat} (hformat : format = .oct ∨ format = .bin)
    {value : Int} (hneg : value < 0) : Text.parseUint (format.print value) 0 bits = none := by
  have hsep {b : Nat} (hb : 1 < b) (hb' : b ≤ 16) :
      '_' ∉ '-' :: Nat.toDigits b value.natAbs := by
    intro hmem
    rcases List.mem_cons.mp hmem with heq | hdigit
    · exact absurd heq (by decide)
    · exact sep_not_mem_toDigits hb hb' _ hdigit
  rcases hformat with rfl | rfl
  · -- the padding stands between the mark and the sign
    unfold NumFormat.print
    dsimp only
    rw [padZeros_of_neg hneg]
    show Text.parseUint ('0' :: 'o' :: (List.replicate _ '0' ++ '-' :: _)) 0 bits = none
    refine @parseUint_signed _ 'o' 8 _ (fun _ _ => rfl) (by decide) ?_ ?_
    · intro hmem
      rcases List.mem_append.mp hmem with hzero | hrest
      · exact absurd (List.eq_of_mem_replicate hzero) (by decide)
      · exact hsep (by omega) (by omega) hrest
    · exact List.mem_append_right _ List.mem_cons_self
  · unfold NumFormat.print Numeral.formatInt
    dsimp only
    rw [if_pos hneg]
    exact @parseUint_signed _ 'b' 2 _ (fun _ _ => rfl) (by decide) (hsep (by omega) (by omega))
      List.mem_cons_self

end Reading

/-- The text of a number as the bytes of an argument of the command line. -/
def shownBytes (s : Text) : Bytes := s.map fun c => BitVec.ofNat 8 c.toNat

/-- A text that is shown for a number is ASCII. -/
theorem asText_shownBytes (format : NumFormat) (v : Int) :
    asText (shownBytes (format.print v)) = format.print v := by
  have hdigits {b : Nat} (hb : 1 < b) (hb' : b ≤ 16) :
      ∀ c ∈ Numeral.formatInt v b, c.toNat < 256 := by
    have hall : ∀ d < 16, (Nat.digitChar d).toNat < 256 := by decide
    have hplain : ∀ c ∈ Nat.toDigits b v.natAbs, c.toNat < 256 := by
      intro c hc
      obtain ⟨d, hd, rfl⟩ := Numeral.mem_toDigits hb hc
      exact hall d (by omega)
    unfold Numeral.formatInt
    split
    · exact List.forall_mem_cons.mpr ⟨by decide, hplain⟩
    · exact hplain
  have hten := hdigits (b := 10) (by omega) (by omega)
  have hsixteen := hdigits (b := 16) (by omega) (by omega)
  have height := hdigits (b := 8) (by omega) (by omega)
  have htwo := hdigits (b := 2) (by omega) (by omega)
  have hmarks (base : Char) (hbase : base.toNat < 256) : ∀ c ∈ ['0', base], c.toNat < 256 :=
    List.forall_mem_cons.mpr ⟨by decide, List.forall_mem_singleton.mpr hbase⟩
  have hascii : ∀ c ∈ format.print v, c.toNat < 256 := by
    unfold NumFormat.print padZeros
    cases format with
    | num | dec => exact hten
    | hexPure => exact hsixteen
    | hex =>
        intro c hc
        rcases List.mem_append.mp hc with hmark | hdigit
        · exact hmarks 'x' (by decide) c hmark
        · exact hsixteen c hdigit
    | bin =>
        intro c hc
        rcases List.mem_append.mp hc with hmark | hdigit
        · exact hmarks 'b' (by decide) c hmark
        · exact htwo c hdigit
    | oct =>
        intro c hc
        rcases List.mem_append.mp hc with hmark | hpadded
        · exact hmarks 'o' (by decide) c hmark
        · rcases List.mem_append.mp hpadded with hzero | hdigit
          · rw [List.eq_of_mem_replicate hzero]
            decide
          · exact height c hdigit
  -- so every character is one byte, which is read back as the character
  unfold asText shownBytes
  rw [List.map_map]
  conv_rhs => rw [← List.map_id (format.print v)]
  apply List.map_congr_left
  intro c hc
  show Char.ofNat (BitVec.ofNat 8 c.toNat).toNat = c
  rw [BitVec.toNat_ofNat, Nat.mod_eq_of_lt (hascii c hc), Char.ofNat_toNat]

/-- Without a sign an `ARG_UINT64` shows its value in every format. -/
theorem uint64Value_of_lt (format : NumFormat) {ptr : u64}
    (h : format = .oct ∨ format = .bin → ptr.toNat < 2 ^ 63) :
    format.uint64Value ptr = ptr.toNat := by
  have hsigned (hlt : ptr.toNat < 2 ^ 63) : ptr.toInt = ptr.toNat :=
    BitVec.toInt_eq_toNat_of_lt (by omega)
  cases format with
  | oct => exact hsigned (h (Or.inl rfl))
  | bin => exact hsigned (h (Or.inr rfl))
  | num | hexPure | hex | dec => rfl

/-- `StrToNum64` reads what an unsigned type shows as the number that it is of, unless the mark is
missing or a sign stands behind it. -/
theorem strToNum64_shown_iff (format : NumFormat) (ptr : u64) :
    strToNum64 (shownBytes (format.print (format.uint64Value ptr))) = some ptr ↔
      (format = .hexPure → ptr.toNat < 10) ∧
        (format = .oct ∨ format = .bin → ptr.toNat < 2 ^ 63) := by
  have hread {format : NumFormat} (h : format ≠ .hexPure) :
      strToNum64 (shownBytes (format.print ptr.toNat)) = some ptr := by
    unfold strToNum64
    rw [asText_shownBytes, parseUint_print h ptr.isLt, Option.map_some, BitVec.ofNat_toNat,
      BitVec.setWidth_eq]
  constructor
  · intro h
    unfold strToNum64 at h
    rw [asText_shownBytes] at h
    constructor
    · -- the hex digits are read as decimal ones, of a smaller number, or not at all
      rintro rfl
      refine Nat.lt_of_not_le fun hten => ?_
      unfold NumFormat.print NumFormat.uint64Value at h
      dsimp only at h
      rw [formatInt_natCast, parseUint_toDigits (by omega) (by omega) (by omega)] at h
      obtain ⟨m, hparse, hnum⟩ := Option.map_eq_some_iff.mp h
      have hless := (parseDigits_hexPure hparse).2 hten
      have hlt := ptr.isLt
      rw [← hnum, BitVec.toNat_ofNat, Nat.mod_eq_of_lt (by omega)] at hless
      omega
    · -- a sign behind the mark is no digit
      intro hformat
      refine Nat.lt_of_not_le fun hlarge => ?_
      have hneg : ptr.toInt < 0 := by
        rw [BitVec.toInt_neg_iff]
        omega
      have hvalue : format.uint64Value ptr = ptr.toInt := by
        rcases hformat with rfl | rfl <;> rfl
      rw [hvalue, parseUint_print_neg hformat hneg] at h
      cases h
  · rintro ⟨hpure, hsigned⟩
    rw [uint64Value_of_lt format hsigned]
    by_cases hmark : format = .hexPure
    · -- a single digit is the same in both bases
      have hdigit := hpure hmark
      have heq : format.print ptr.toNat = NumFormat.print .num ptr.toNat := by
        subst hmark
        unfold NumFormat.print
        dsimp only
        rw [formatInt_natCast, formatInt_natCast, Nat.toDigits_of_lt_base hdigit,
          Nat.toDigits_of_lt_base (by omega)]
      rw [heq]
      exact hread (by decide)
    · exact hread hmark

/-- A filter that compares numbers, by the kind that stands in front of it. -/
theorem newFilter_comparison {kind : String} {type : FilterType}
    (hkind : comparisonOf kind = some type) (ipv6 : Bytes → Option (Vector u8 4)) (value : Bytes) :
    colon ∉ ascii kind ∧ newFilter ipv6 (ascii kind) value = numFilter type value := by
  unfold newFilter
  unfold comparisonOf at hkind
  split at hkind <;> cases hkind
  · rw [ofList_asText_ascii (s := "eq") rfl]
    exact ⟨by decide, rfl⟩
  · rw [ofList_asText_ascii (s := "equal") rfl]
    exact ⟨by decide, rfl⟩
  · rw [ofList_asText_ascii (s := "gt") rfl]
    exact ⟨by decide, rfl⟩
  · rw [ofList_asText_ascii (s := "greater") rfl]
    exact ⟨by decide, rfl⟩
  · rw [ofList_asText_ascii (s := "lt") rfl]
    exact ⟨by decide, rfl⟩
  · rw [ofList_asText_ascii (s := "less") rfl]
    exact ⟨by decide, rfl⟩

/-- **A number that was shown can be filtered for.** Behind any kind of filter that compares
numbers, the text that an `ARG_UINT64` without flags shows is accepted as the number it is of,
unless the format is the one without a mark and the number has more than a decimal digit, or it is
octal or binary and the number fills the top bit, which is shown as a sign. -/
theorem shownNumber_addFilter {kind : String} {type : FilterType}
    (hkind : comparisonOf kind = some type) (ipv6 : Bytes → Option (Vector u8 4))
    (helper : FilterHelper) (this : ArgNum) (hflags : this.flagsConfig = none) (ptr : u64) :
    helper.addFilter ipv6 (ascii kind ++ colon :: shownBytes (this.parseUint64 ptr)) =
        some (BitVec.ofNat 32 (helper.filters.length + 1),
          helper.append ⟨type, strValOf [], 0, ptr⟩) ↔
      (this.formatType = .hexPure → ptr.toNat < 10) ∧
        (this.formatType = .oct ∨ this.formatType = .bin → ptr.toNat < 2 ^ 63) := by
  have htext : this.parseUint64 ptr =
      this.formatType.print (this.formatType.uint64Value ptr) := by
    unfold ArgNum.parseUint64 ArgNum.formatAlways
    rw [hflags]
    exact List.append_nil _
  have hnew := newFilter_comparison hkind ipv6 (shownBytes (this.parseUint64 ptr))
  rw [← strToNum64_shown_iff, ← htext, addFilter_eq_map _ helper hnew.1, hnew.2]
  unfold numFilter
  constructor
  · intro h
    obtain ⟨f, hf, hpair⟩ := Option.map_eq_some_iff.mp h
    obtain ⟨num, hnum, rfl⟩ := Option.map_eq_some_iff.mp hf
    -- the new filter is the last one, and holds the number that was read
    have hfilters := congrArg FilterHelper.filters (Prod.mk.inj hpair).2
    have hlast := (List.cons.inj (List.append_cancel_left hfilters)).1
    have heq : num = ptr := congrArg (fun f => f.toArgFilter.numVal) hlast
    rw [hnum, heq]
  · intro h
    rw [h]
    rfl

/-- Fifteen is shown as `0o017`, and `eq:0o017` asks for fifteen. -/
theorem shownNumber_addFilter_octal :
    FilterHelper.new.addFilter (fun _ => none) (ascii "eq" ++ colon :: ascii "0o017") =
      some (1, FilterHelper.new.append ⟨.equal, strValOf [], 0, 15⟩) :=
  (shownNumber_addFilter (show comparisonOf "eq" = some .equal from rfl) (fun _ => none)
    FilterHelper.new ⟨none, .oct⟩ rfl 15).mpr ⟨by decide, by decide⟩

end Stackplz
