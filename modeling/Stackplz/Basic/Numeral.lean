import Stackplz.Basic.Text

/-!
# Numerals

The digits that `fmt` and `strconv` write for a number in a base of at most sixteen: which
characters they are, and that they say which number was written. Numerals of two bases are
compared, too.
-/

set_option autoImplicit false

namespace Numeral

/-! ## Digits -/

theorem digitChar_inj {d e : Nat} (hd : d < 16) (he : e < 16)
    (h : Nat.digitChar d = Nat.digitChar e) : d = e := by
  have hall : ∀ d < 16, ∀ e < 16, Nat.digitChar d = Nat.digitChar e → d = e := by decide
  exact hall d hd e he h

theorem isXDigit_digitChar {d : Nat} (hd : d < 16) : Text.isXDigit (Nat.digitChar d) = true := by
  have hall : ∀ d < 16, Text.isXDigit (Nat.digitChar d) = true := by decide
  exact hall d hd

/-- The digits are written from the quotient and the last digit. -/
theorem toDigits_of_le {b n : Nat} (hb : 1 < b) (h : b ≤ n) :
    Nat.toDigits b n = Nat.toDigits b (n / b) ++ [Nat.digitChar (n % b)] := by
  rw [Nat.toDigits_eq_if hb, if_neg (Nat.not_lt.mpr h)]

theorem mem_toDigits {b n : Nat} {c : Char} (hb : 1 < b) (h : c ∈ Nat.toDigits b n) :
    ∃ d < b, c = Nat.digitChar d := by
  induction n using Nat.strongRecOn with
  | _ n ih =>
      by_cases hn : n < b
      · rw [Nat.toDigits_of_lt_base hn, List.mem_singleton] at h
        exact ⟨n, hn, h⟩
      · have hle : b ≤ n := Nat.not_lt.mp hn
        have hlt : n / b < n := Nat.div_lt_self (by omega) hb
        rw [toDigits_of_le hb hle, List.mem_append, List.mem_singleton] at h
        rcases h with hrest | hlast
        · exact ih (n / b) hlt hrest
        · exact ⟨n % b, Nat.mod_lt n (by omega), hlast⟩

/-- A numeral has no character that is not a digit. -/
theorem not_mem_toDigits {b n : Nat} {c : Char} (hb : 1 < b) (hb' : b ≤ 16)
    (hc : Text.isXDigit c = false) : c ∉ Nat.toDigits b n := by
  intro h
  obtain ⟨d, hd, rfl⟩ := mem_toDigits hb h
  have hdigit : Text.isXDigit (Nat.digitChar d) = true := isXDigit_digitChar (by omega)
  simp [hdigit] at hc

theorem toDigits_one_lt_length {b n : Nat} (hb : 1 < b) (h : b ≤ n) :
    1 < (Nat.toDigits b n).length := by
  have hpos : 0 < (Nat.toDigits b (n / b)).length := Nat.length_toDigits_pos
  rw [toDigits_of_le hb h, List.length_append, List.length_singleton]
  omega

/-! ## Numerals of two bases -/

/-- A text that is a numeral in two bases says at least as much in the larger one, and more
when the bases differ and it has several digits. -/
theorem le_of_toDigits_eq {b b' : Nat} (hb : 1 < b) (hle : b ≤ b') (hb' : b' ≤ 16) :
    ∀ n m : Nat, Nat.toDigits b' m = Nat.toDigits b n → n ≤ m ∧ (b < b' → b ≤ n → n < m) := by
  intro n
  induction n using Nat.strongRecOn with
  | _ n ih =>
      intro m h
      have hlength : (Nat.toDigits b' m).length = (Nat.toDigits b n).length := by rw [h]
      by_cases hn : n < b
      · have hm : m < b' := by
          by_contra hm
          have htwo := toDigits_one_lt_length (by omega) (Nat.not_lt.mp hm)
          rw [hlength, Nat.toDigits_of_lt_base hn, List.length_singleton] at htwo
          omega
        rw [Nat.toDigits_of_lt_base hn, Nat.toDigits_of_lt_base hm] at h
        have heq : m = n := digitChar_inj (by omega) (by omega) (List.cons.inj h).1
        omega
      · have hn : b ≤ n := Nat.not_lt.mp hn
        have hm : b' ≤ m := by
          by_contra hm
          have htwo := toDigits_one_lt_length hb hn
          rw [← hlength, Nat.toDigits_of_lt_base (Nat.not_le.mp hm), List.length_singleton] at htwo
          omega
        rw [toDigits_of_le hb hn, toDigits_of_le (by omega) hm] at h
        obtain ⟨hfront, hlast⟩ := List.append_inj' h rfl
        have hlast : m % b' = n % b := by
          have hn' : n % b < b := Nat.mod_lt n (by omega)
          have hm' : m % b' < b' := Nat.mod_lt m (by omega)
          exact digitChar_inj (by omega) (by omega) (List.cons.inj hlast).1
        have hquot : n / b < n := Nat.div_lt_self (by omega) hb
        have hpos : 0 < n / b := Nat.div_pos hn (by omega)
        -- the quotients are compared by the induction, and each weighs more in the larger base
        have hrest : n / b ≤ m / b' := (ih (n / b) hquot (m / b') hfront).1
        have hweight : b * (n / b) ≤ b' * (m / b') := Nat.mul_le_mul hle hrest
        have hmore (hlt : b < b') : b * (n / b) < b' * (m / b') :=
          calc b * (n / b) < b' * (n / b) := Nat.mul_lt_mul_of_pos_right hlt hpos
            _ ≤ b' * (m / b') := Nat.mul_le_mul_left b' hrest
        have hsum := Nat.div_add_mod n b
        have hsum' := Nat.div_add_mod m b'
        refine ⟨by omega, fun hlt _ => ?_⟩
        have hmore := hmore hlt
        omega

/-- A numeral says which number it is of. -/
theorem toDigits_inj {b n m : Nat} (hb : 1 < b) (hb' : b ≤ 16)
    (h : Nat.toDigits b n = Nat.toDigits b m) : n = m := by
  have hle : m ≤ n := (le_of_toDigits_eq hb (Nat.le_refl b) hb' m n h).1
  have hge : n ≤ m := (le_of_toDigits_eq hb (Nat.le_refl b) hb' n m h.symm).1
  omega

/-- One number has one numeral in two bases only where it is a single digit in both. -/
theorem toDigits_eq_toDigits_iff {b b' n : Nat} (hb : 1 < b) (hlt : b < b') (hb' : b' ≤ 16) :
    Nat.toDigits b' n = Nat.toDigits b n ↔ n < b := by
  constructor
  · intro h
    have hmore := (le_of_toDigits_eq hb (Nat.le_of_lt hlt) hb' n n h).2 hlt
    omega
  · intro h
    rw [Nat.toDigits_of_lt_base h, Nat.toDigits_of_lt_base (by omega : n < b')]

/-! ## Signed numbers -/

/-- `strconv.FormatInt`, and what `%d` and `%x` print: a sign and the digits of the size. -/
def formatInt (value : Int) (base : Nat) : Text :=
  if value < 0 then '-' :: Nat.toDigits base value.natAbs else Nat.toDigits base value.natAbs

/-- A number is a sign or a digit at its front, and digits behind. -/
theorem formatInt_chars {value : Int} {base : Nat} {c : Char} (hb : 1 < base) (hb' : base ≤ 16)
    (h : c ∈ formatInt value base) : c = '-' ∨ Text.isXDigit c = true := by
  have hdigit (hc : c ∈ Nat.toDigits base value.natAbs) : Text.isXDigit c = true := by
    obtain ⟨d, hd, rfl⟩ := mem_toDigits hb hc
    exact isXDigit_digitChar (by omega)
  unfold formatInt at h
  split at h
  · rcases List.mem_cons.mp h with hsign | hc
    · exact Or.inl hsign
    · exact Or.inr (hdigit hc)
  · exact Or.inr (hdigit h)

theorem formatInt_eq_formatInt_iff {value : Int} {b b' : Nat} (hb : 1 < b) (hlt : b < b')
    (hb' : b' ≤ 16) : formatInt value b' = formatInt value b ↔ value.natAbs < b := by
  rw [← toDigits_eq_toDigits_iff hb hlt hb']
  unfold formatInt
  split
  · rw [List.cons.injEq, and_iff_right rfl]
  · rfl

/-- A signed numeral says which number it is of. -/
theorem formatInt_inj {v w : Int} {b : Nat} (hb : 1 < b) (hb' : b ≤ 16)
    (h : formatInt v b = formatInt w b) : v = w := by
  have hsign (n : Nat) : '-' ∉ Nat.toDigits b n := not_mem_toDigits hb hb' (by decide)
  unfold formatInt at h
  by_cases hv : v < 0
  · by_cases hw : w < 0
    · rw [if_pos hv, if_pos hw] at h
      have habs := toDigits_inj hb hb' (List.cons.inj h).2
      omega
    · rw [if_pos hv, if_neg hw] at h
      refine absurd ?_ (hsign w.natAbs)
      rw [← h]
      exact List.mem_cons_self
  · by_cases hw : w < 0
    · rw [if_neg hv, if_pos hw] at h
      refine absurd ?_ (hsign v.natAbs)
      rw [h]
      exact List.mem_cons_self
    · rw [if_neg hv, if_neg hw] at h
      have habs := toDigits_inj hb hb' h
      omega

/-! ## Reading numerals -/

section Reading

variable {base bits : Nat} {prefixed : Bool}

theorem parseDigits_append (s t : Text) (n : Nat) :
    Text.parseDigits base bits prefixed n (s ++ t) =
      (Text.parseDigits base bits prefixed n s).bind fun m =>
        Text.parseDigits base bits prefixed m t := by
  induction s generalizing n with
  | nil => rfl
  | cons c cs ih =>
      rw [List.cons_append, Text.parseDigits, Text.parseDigits]
      split
      · exact ih n
      · split
        · rfl
        · split
          · rfl
          · split
            · rfl
            · exact ih _

/-- One more digit. -/
theorem parseDigits_digitChar {n d : Nat} (hd : d < base) (hbase : base ≤ 16)
    (hfits : n * base + d < 2 ^ bits) :
    Text.parseDigits base bits prefixed n [Nat.digitChar d] = some (n * base + d) := by
  have hvalues : ∀ d < 16, Nat.digitChar d ≠ '_' ∧ Text.digitValue (Nat.digitChar d) = some d := by
    decide
  obtain ⟨hplain, hvalue⟩ := hvalues d (by omega)
  simp [Text.parseDigits, hplain, hvalue, Nat.not_le.mpr hd, Nat.not_le.mpr hfits]

/-- **A numeral is read as the number it is of.** -/
theorem parseDigits_toDigits (hb : 1 < base) (hb' : base ≤ 16) {n : Nat} (h : n < 2 ^ bits) :
    Text.parseDigits base bits prefixed 0 (Nat.toDigits base n) = some n := by
  induction n using Nat.strongRecOn with
  | _ n ih =>
      by_cases hn : n < base
      · rw [Nat.toDigits_of_lt_base hn, parseDigits_digitChar hn hb' (by omega)]
        congr 1
        omega
      · have hlt : n / base < n := Nat.div_lt_self (by omega) hb
        have hdivmod : n / base * base + n % base = n := Nat.div_add_mod' n base
        rw [toDigits_of_le hb (by omega), parseDigits_append, ih (n / base) hlt (by omega)]
        show Text.parseDigits base bits prefixed (n / base) [Nat.digitChar (n % base)] = some n
        rw [parseDigits_digitChar (Nat.mod_lt n (by omega)) hb' (by omega), hdivmod]

/-- Zeros in front of a numeral do not count. -/
theorem parseDigits_replicate (hb : 1 < base) (k : Nat) (s : Text) :
    Text.parseDigits base bits prefixed 0 (List.replicate k '0' ++ s) =
      Text.parseDigits base bits prefixed 0 s := by
  have hpos : 0 < 2 ^ bits := Nat.two_pow_pos bits
  induction k with
  | zero => rfl
  | succ k ih =>
      have hzero : Text.digitValue '0' = some 0 := by decide
      rw [List.replicate_succ, List.cons_append, Text.parseDigits, hzero]
      simp [Nat.not_le.mpr (Nat.lt_trans Nat.zero_lt_one hb), ih]

/-- A numeral says which number it is of also behind zeros. -/
theorem toDigits_inj_of_zeros {b n m k k' : Nat} (hb : 1 < b) (hb' : b ≤ 16)
    (h : List.replicate k '0' ++ Nat.toDigits b n = List.replicate k' '0' ++ Nat.toDigits b m) :
    n = m := by
  have hparse := congrArg (Text.parseDigits b (n + m) false 0) h
  have hpow : n + m < 2 ^ (n + m) := Nat.lt_two_pow_self
  rw [parseDigits_replicate hb, parseDigits_replicate hb,
    parseDigits_toDigits hb hb' (by omega), parseDigits_toDigits hb hb' (by omega)] at hparse
  exact Option.some.inj hparse

/-- A numeral does not begin with a zero, unless it is one. -/
theorem head_toDigits {b n : Nat} (hb : 1 < b) (hb' : b ≤ 16) (hpos : 0 < n) :
    ∃ c s, Nat.toDigits b n = c :: s ∧ c ≠ '0' := by
  induction n using Nat.strongRecOn with
  | _ n ih =>
      by_cases hn : n < b
      · refine ⟨Nat.digitChar n, [], Nat.toDigits_of_lt_base hn, fun hzero => ?_⟩
        have hinj := digitChar_inj (by omega) (by decide : 0 < 16) hzero
        omega
      · have hlt : n / b < n := Nat.div_lt_self hpos hb
        have hquot : 0 < n / b := Nat.div_pos (by omega) (by omega)
        obtain ⟨c, s, hdigits, hc⟩ := ih (n / b) hlt hquot
        refine ⟨c, s ++ [Nat.digitChar (n % b)], ?_, hc⟩
        rw [toDigits_of_le hb (by omega), hdigits]
        rfl

end Reading

end Numeral
