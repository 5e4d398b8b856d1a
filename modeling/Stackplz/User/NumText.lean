import Stackplz.Basic.Numeral
import Stackplz.User.ArgType

/-!
# The text of a number

`Parse` of the number types: the register value cut to the type, in the format of the type
and with the names of its flags behind it. The types `int`, `uint` and `uint64` always look
at the format; the others look at it only when they have a flags configuration.
-/

set_option autoImplicit false

namespace Stackplz

/-! ## Flags -/

/-- A name for some bits of a value. -/
structure FlagOp where
  name : Text
  value : BitVec 32
deriving DecidableEq

structure FlagsConfig where
  name : Text
  formatType : NumFormat
  flags : List FlagOp
deriving DecidableEq

/-- `FlagsConfig.Parse`: the flags whose bits are all set. -/
def FlagsConfig.parse (this : FlagsConfig) (value : BitVec 32) : Text :=
  let info := (this.flags.filter fun op => value &&& op.value == op.value).map FlagOp.name
  if info.length > 0 then "(".toList ++ List.intercalate ['|'] info ++ ")".toList else []

/-- `ARG_NUM` -/
structure ArgNum where
  flagsConfig : Option FlagsConfig
  formatType : NumFormat
deriving DecidableEq

def ArgNum.setFormatType (this : ArgNum) (formatType : NumFormat) : ArgNum :=
  { this with formatType := formatType }

def ArgNum.setFlagsConfig (this : ArgNum) (flagsConfig : FlagsConfig) : ArgNum :=
  ArgNum.setFormatType { this with flagsConfig := some flagsConfig } flagsConfig.formatType

/-! ## Formats -/

/-- `%03s`: zeros in front of a text of fewer than three characters. -/
def padZeros (s : Text) : Text := List.replicate (3 - s.length) '0' ++ s

/-- What the `switch` of every `Parse` prints for a value. -/
def NumFormat.print (format : NumFormat) (value : Int) : Text :=
  match format with
  | .num => Numeral.formatInt value 10
  | .hexPure => Numeral.formatInt value 16
  | .hex => "0x".toList ++ Numeral.formatInt value 16
  | .dec => Numeral.formatInt value 10
  | .oct => "0o".toList ++ padZeros (Numeral.formatInt value 8)
  | .bin => "0b".toList ++ Numeral.formatInt value 2

/-- `Parse` of a type that always looks at its format. -/
def ArgNum.formatAlways (this : ArgNum) (value : Int) : Text :=
  let flagsFmt := match this.flagsConfig with
    | some flagsConfig => flagsConfig.parse (BitVec.ofInt 32 value)
    | none => []
  this.formatType.print value ++ flagsFmt

/-- `Parse` of a type that looks at its format when it has flags. -/
def ArgNum.formatWithFlags (this : ArgNum) (value : Int) : Text :=
  match this.flagsConfig with
  | some flagsConfig =>
      this.formatType.print value ++ flagsConfig.parse (BitVec.ofInt 32 value)
  | none => Numeral.formatInt value 10

/-! ## The types -/

/-- `ARG_INT.Parse` -/
def ArgNum.parseInt (this : ArgNum) (ptr : u64) : Text :=
  this.formatAlways (ptr.setWidth 32).toInt

/-- `ARG_UINT.Parse` -/
def ArgNum.parseUint (this : ArgNum) (ptr : u64) : Text :=
  this.formatAlways (ptr.setWidth 32).toNat

/-- `ARG_INT8.Parse` -/
def ArgNum.parseInt8 (this : ArgNum) (ptr : u64) : Text :=
  this.formatWithFlags (ptr.setWidth 8).toInt

/-- `ARG_INT16.Parse` -/
def ArgNum.parseInt16 (this : ArgNum) (ptr : u64) : Text :=
  this.formatWithFlags (ptr.setWidth 16).toInt

/-- `ARG_INT32.Parse` -/
def ArgNum.parseInt32 (this : ArgNum) (ptr : u64) : Text :=
  this.formatWithFlags (ptr.setWidth 32).toInt

/-- `ARG_INT64.Parse` -/
def ArgNum.parseInt64 (this : ArgNum) (ptr : u64) : Text := this.formatWithFlags ptr.toInt

/-- `ARG_UINT8.Parse` -/
def ArgNum.parseUint8 (this : ArgNum) (ptr : u64) : Text :=
  this.formatWithFlags (ptr.setWidth 8).toNat

/-- `ARG_UINT16.Parse` -/
def ArgNum.parseUint16 (this : ArgNum) (ptr : u64) : Text :=
  this.formatWithFlags (ptr.setWidth 16).toNat

/-- `ARG_UINT32.Parse` -/
def ArgNum.parseUint32 (this : ArgNum) (ptr : u64) : Text :=
  this.formatWithFlags (ptr.setWidth 32).toNat

/-- What the `switch` of `ARG_UINT64.Parse` prints of its 64 bits: `strconv.FormatInt` takes an
`int64`, so that octal and binary numbers have a sign. -/
def NumFormat.uint64Value : NumFormat → u64 → Int
  | .oct, value | .bin, value => value.toInt
  | .num, value | .hexPure, value | .hex, value | .dec, value => value.toNat

/-- `ARG_UINT64.Parse`; the flags look at the low 32 bits, which are the same with a sign. -/
def ArgNum.parseUint64 (this : ArgNum) (ptr : u64) : Text :=
  this.formatAlways (this.formatType.uint64Value ptr)

example : ArgNum.parseInt ⟨none, .oct⟩ 7 = "0o007".toList := by decide
example : ArgNum.parseUint64 ⟨none, .oct⟩ 0xfffffffffffffff0 = "0o-20".toList := by decide
example : ArgNum.parseUint8 (ArgNum.setFlagsConfig ⟨none, .num⟩
    ⟨"prot".toList, .hex, [⟨"PROT_READ".toList, 1⟩, ⟨"PROT_EXEC".toList, 4⟩]⟩) 0x105 =
    "0x5(PROT_READ|PROT_EXEC)".toList := by decide

/-! ## When the two ways agree -/

/-- The formats whose text for a value is its decimal number. -/
def NumFormat.IsDecimalAt (format : NumFormat) (value : Int) : Prop :=
  format = .num ∨ format = .dec ∨ format = .hexPure ∧ value.natAbs < 10

/-- The mark of a base is no part of a decimal number. -/
theorem print_ne_of_mark {mark : Char} {value : Int} {s : Text} (hmark : Text.isXDigit mark = false)
    (hsign : mark ≠ '-') : '0' :: mark :: s ≠ Numeral.formatInt value 10 := by
  intro h
  have hmem : mark ∈ Numeral.formatInt value 10 := by
    rw [← h]
    simp
  rcases Numeral.formatInt_chars (by omega) (by omega) hmem with heq | hdigit
  · exact hsign heq
  · simp [hdigit] at hmark

/-- `b` is a hexadecimal digit, but not a decimal one. -/
theorem print_bin_ne {value : Int} {s : Text} : '0' :: 'b' :: s ≠ Numeral.formatInt value 10 := by
  intro h
  have hmem : 'b' ∈ Nat.toDigits 10 value.natAbs := by
    unfold Numeral.formatInt at h
    split at h
    · cases h
    · rw [← h]
      simp
  have hdigit := Nat.isDigit_of_mem_toDigits (by omega) (by omega) hmem
  exact absurd hdigit (by decide)

theorem print_eq_decimal_iff (format : NumFormat) (value : Int) :
    format.print value = Numeral.formatInt value 10 ↔ format.IsDecimalAt value := by
  unfold NumFormat.IsDecimalAt
  cases format with
  | num => simp [NumFormat.print]
  | dec => simp [NumFormat.print]
  | hexPure =>
      simp only [NumFormat.print, reduceCtorEq, false_or, true_and]
      exact Numeral.formatInt_eq_formatInt_iff (by omega) (by omega) (by omega)
  | hex =>
      simp only [reduceCtorEq, false_or, false_and, iff_false]
      exact print_ne_of_mark (by decide) (by decide)
  | oct =>
      simp only [reduceCtorEq, false_or, false_and, iff_false]
      exact print_ne_of_mark (by decide) (by decide)
  | bin =>
      simp only [reduceCtorEq, false_or, false_and, iff_false]
      exact print_bin_ne

/-- A type that looks at its format only with flags prints the same as one that always looks
at it when there are flags, or when the format is the decimal one for this value. -/
theorem formatAlways_eq_iff (this : ArgNum) (value : Int) :
    this.formatAlways value = this.formatWithFlags value ↔
      this.flagsConfig ≠ none ∨ this.formatType.IsDecimalAt value := by
  rw [← print_eq_decimal_iff]
  unfold ArgNum.formatAlways ArgNum.formatWithFlags
  cases this.flagsConfig with
  | some flagsConfig => simp
  | none => simp

/-- `int` prints what `int32` prints, and `uint` what `uint32` prints, exactly when the type
has flags, or its format is the decimal one for the value. -/
theorem int_uint_agree_iff (this : ArgNum) (ptr : u64) :
    (this.parseInt ptr = this.parseInt32 ptr ↔
      this.flagsConfig ≠ none ∨ this.formatType.IsDecimalAt (ptr.setWidth 32).toInt) ∧
    (this.parseUint ptr = this.parseUint32 ptr ↔
      this.flagsConfig ≠ none ∨ this.formatType.IsDecimalAt (ptr.setWidth 32).toNat) :=
  ⟨formatAlways_eq_iff this _, formatAlways_eq_iff this _⟩

/-- Sixteen in the format of the suffix `x`: `0x10` as an `int`, `16` as an `int32`. -/
theorem int_int32_differ :
    ¬ ∀ (this : ArgNum) (ptr : u64), this.parseInt ptr = this.parseInt32 ptr ∧
      this.parseUint ptr = this.parseUint32 ptr := by
  intro h
  have hint := (h ⟨none, .hex⟩ 16).1
  exact absurd hint (by decide)

end Stackplz
