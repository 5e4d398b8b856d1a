import Stackplz.Basic.Text

/-!
# Scanning a line

The verbs of `fmt.Fscanf` on a text without line breaks. A scan takes its characters off the
front of the text and fails where the text does not match; each verb comes with what it makes
of a text that was written for it.
-/

set_option autoImplicit false

/-- A scan of a text. -/
abbrev Scan (α : Type) := StateT Text Option α

namespace Scan

/-- `isSpace` of the package `fmt`. -/
def isSpace (c : Char) : Bool :=
  [(0x09, 0x0d), (0x20, 0x20), (0x85, 0x85), (0xa0, 0xa0), (0x1680, 0x1680), (0x2000, 0x200a),
    (0x2028, 0x2029), (0x202f, 0x202f), (0x205f, 0x205f), (0x3000, 0x3000)].any
    fun range => range.1 ≤ c.toNat && c.toNat ≤ range.2

/-- A character that a numeral of the base is written with. -/
def isDigitOf (base : Nat) (c : Char) : Bool := (Text.digitValue c).any fun d => d < base

/-! ## Verbs -/

/-- `SkipSpace` -/
def skipSpace : Scan Unit := fun s => some ((), s.dropWhile isSpace)

/-- A character of the format that is no blank. -/
def literal (c : Char) : Scan Unit
  | [] => none
  | c' :: s => if c' = c then some ((), s) else none

/-- A blank of the format: blanks of the text, at least one of them before its end. -/
def blank : Scan Unit
  | [] => some ((), [])
  | c :: s => if isSpace c then some ((), s.dropWhile isSpace) else none

/-- The longest front part whose characters are of a kind. -/
def accept (p : Char → Bool) : Scan Text := fun s => some (s.takeWhile p, s.dropWhile p)

/-- `%x` or `%d` for an unsigned number of `bits` bits. -/
def number (base bits : Nat) : Scan (BitVec bits) := do
  skipSpace
  let digits ← accept (isDigitOf base)
  let value ← StateT.lift (Text.parseUint digits base bits)
  return BitVec.ofNat bits value

/-- `%s` for a string: a word, which is not empty. -/
def token : Scan Text := do
  skipSpace
  let word ← accept fun c => !isSpace c
  if word = [] then failure else return word

/-! ## What they read -/

/-- A text that does not start with a character of a kind. -/
def Stops (p : Char → Bool) (rest : Text) : Prop := ∀ c cs, rest = c :: cs → p c = false

/-- A character before the rest of the text. -/
theorem stops_cons {p : Char → Bool} {c : Char} (h : p c = false) (rest : Text) :
    Stops p (c :: rest) := by
  intro c' cs heq
  rw [← (List.cons.inj heq).1]
  exact h

theorem stops_append {p : Char → Bool} {s : Text} (hne : s ≠ []) (h : ∀ c ∈ s, p c = false)
    (rest : Text) : Stops p (s ++ rest) := by
  cases s with
  | nil => exact absurd rfl hne
  | cons c s => exact stops_cons (h c (List.mem_cons_self ..)) (s ++ rest)

theorem stops_nil (p : Char → Bool) : Stops p [] := fun _ _ heq => by cases heq

/-- Blanks are no letters and no digits. -/
theorem isSpace_of_isDigitOf {base : Nat} {c : Char} (h : isDigitOf base c = true) :
    isSpace c = false := by
  have hdigit : c.isDigit = true ∨ c.isAlpha = true := by
    unfold isDigitOf Text.digitValue at h
    split at h
    · exact Or.inl ‹_›
    · split at h
      · exact Or.inr ‹_›
      · cases h
  have hrange : 0x30 ≤ c.toNat ∧ c.toNat ≤ 0x7a := by
    change (decide (c.val ≥ 48) && decide (c.val ≤ 57)) = true ∨
      (decide (c.val ≥ 65 ∧ c.val ≤ 90) ||
        (decide (c.val ≥ 97) && decide (c.val ≤ 122))) = true at hdigit
    simp only [Bool.or_eq_true, Bool.and_eq_true, decide_eq_true_eq, ge_iff_le,
      UInt32.le_iff_toNat_le] at hdigit
    change (48 ≤ c.toNat ∧ c.toNat ≤ 57) ∨ (65 ≤ c.toNat ∧ c.toNat ≤ 90) ∨
      (97 ≤ c.toNat ∧ c.toNat ≤ 122) at hdigit
    omega
  simp only [isSpace, List.any_cons, List.any_nil, Bool.or_eq_false_iff, Bool.and_eq_false_iff,
    decide_eq_false_iff_not, and_true, Nat.not_le]
  omega

/-- After a scan that succeeds comes the next one, on the rest. -/
theorem bind_run {α β : Type} {x : Scan α} {a : α} {s rest : Text}
    (h : x.run s = some (a, rest)) (f : α → Scan β) : (x >>= f).run s = (f a).run rest := by
  rw [StateT.run_bind, h]
  rfl

theorem skipSpace_run {rest : Text} (h : Stops isSpace rest) :
    skipSpace.run rest = some ((), rest) := by
  have hspan := Text.span_append (List.forall_mem_nil _) h
  rw [List.nil_append] at hspan
  exact congrArg some (Prod.ext rfl hspan.2)

theorem accept_run {p : Char → Bool} {front rest : Text} (hfront : ∀ c ∈ front, p c = true)
    (hrest : Stops p rest) : (accept p).run (front ++ rest) = some (front, rest) := by
  have hspan := Text.span_append hfront hrest
  exact congrArg some (Prod.ext hspan.1 hspan.2)

theorem literal_run (c : Char) (rest : Text) : (literal c).run (c :: rest) = some ((), rest) :=
  if_pos rfl

theorem blank_run {pad rest : Text} (hpad : ∀ c ∈ pad, isSpace c = true)
    (hne : rest ≠ [] → pad ≠ []) (hrest : Stops isSpace rest) :
    blank.run (pad ++ rest) = some ((), rest) := by
  cases pad with
  | nil =>
      have hnil : rest = [] := by
        by_contra hrest'
        exact hne hrest' rfl
      rw [hnil]
      rfl
  | cons c pad =>
      obtain ⟨hc, hpad⟩ := List.forall_mem_cons.mp hpad
      have hspan := (Text.span_append hpad hrest).2
      show (if isSpace c = true then some ((), (pad ++ rest).dropWhile isSpace) else none) = _
      rw [if_pos hc, hspan]

/-- Digits that make a number of the base, to the last of them. -/
theorem number_run {base bits v : Nat} {digits rest : Text}
    (hdigits : ∀ c ∈ digits, isDigitOf base c = true)
    (hv : Text.parseUint digits base bits = some v) (hrest : Stops (isDigitOf base) rest) :
    (number base bits).run (digits ++ rest) = some (BitVec.ofNat bits v, rest) := by
  have hskip : skipSpace.run (digits ++ rest) = some ((), digits ++ rest) := by
    have hne : digits ≠ [] := by
      rintro rfl
      cases hv
    exact skipSpace_run (stops_append hne (fun c hc => isSpace_of_isDigitOf (hdigits c hc)) rest)
  have haccept : (accept (isDigitOf base)).run (digits ++ rest) = some (digits, rest) :=
    accept_run hdigits hrest
  simp [number, hskip, haccept, hv]

/-- A word, to the blank behind it. -/
theorem token_run {word rest : Text} (hne : word ≠ []) (hword : ∀ c ∈ word, isSpace c = false)
    (hrest : Stops (fun c => !isSpace c) rest) : token.run (word ++ rest) = some (word, rest) := by
  have hskip : skipSpace.run (word ++ rest) = some ((), word ++ rest) :=
    skipSpace_run (stops_append hne hword rest)
  have haccept : (accept fun c => !isSpace c).run (word ++ rest) = some (word, rest) :=
    accept_run (fun c hc => by simp [hword c hc]) hrest
  simp [token, hskip, haccept, hne]

/-- There is no word at the end. -/
theorem token_nil : token.run [] = none := rfl

end Scan
