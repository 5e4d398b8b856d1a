import Mathlib.Data.List.Basic

/-!
# Unquoting

`strconv.Unquote` of a text in double quotes. A text is the list of its bytes. The loop takes
one character after the other up to the closing quote; an escape sequence stands for one byte
or for one rune.
-/

set_option autoImplicit false

namespace Unquote

/-- The byte of an ASCII character. -/
def ascii (c : Char) : BitVec 8 := BitVec.ofNat 8 c.toNat

def quote : BitVec 8 := ascii '"'
def backslash : BitVec 8 := ascii '\\'
def newline : BitVec 8 := ascii '\n'

/-! ## Runes -/

def isTail (c : BitVec 8) : Bool := 0x80 ≤ c && c ≤ 0xBF

/-- The UTF-8 sequences of more than one byte. -/
def isRune : List (BitVec 8) → Bool
  | [c0, c1] => 0xC2 ≤ c0 && c0 ≤ 0xDF && isTail c1
  | [c0, c1, c2] =>
      0xE0 ≤ c0 && c0 ≤ 0xEF && isTail c1 && isTail c2 &&
        (c0 ≠ 0xE0 || 0xA0 ≤ c1) && (c0 ≠ 0xED || c1 ≤ 0x9F)
  | [c0, c1, c2, c3] =>
      0xF0 ≤ c0 && c0 ≤ 0xF4 && isTail c1 && isTail c2 && isTail c3 &&
        (c0 ≠ 0xF0 || 0x90 ≤ c1) && (c0 ≠ 0xF4 || c1 ≤ 0x8F)
  | _ => false

/-- `utf8.DecodeRuneInString` and `utf8.AppendRune` of what it returns: the replacement
character for a byte that starts no sequence. -/
def decodeRune (s : List (BitVec 8)) : List (BitVec 8) × List (BitVec 8) :=
  match [2, 3, 4].find? fun n => isRune (s.take n) with
  | some n => (s.take n, s.drop n)
  | none => ([0xEF, 0xBF, 0xBD], s.drop 1)

/-- `utf8.AppendRune` of a valid rune. -/
def appendRune (v : Nat) : Option (List (BitVec 8)) :=
  if v.isValidChar then some ((String.utf8EncodeChar (Char.ofNat v)).map UInt8.toBitVec) else none

/-! ## Escape sequences -/

/-- `unhex`. -/
def unhex (c : BitVec 8) : Option Nat :=
  if ascii '0' ≤ c ∧ c ≤ ascii '9' then some (c - ascii '0').toNat
  else if ascii 'a' ≤ c ∧ c ≤ ascii 'f' then some ((c - ascii 'a').toNat + 10)
  else if ascii 'A' ≤ c ∧ c ≤ ascii 'F' then some ((c - ascii 'A').toNat + 10)
  else none

def octal (c : BitVec 8) : Option Nat :=
  if ascii '0' ≤ c ∧ c ≤ ascii '7' then some (c - ascii '0').toNat else none

/-- The number that the next `n` digits continue, and what lies behind them. -/
def digits (digit : BitVec 8 → Option Nat) (base : Nat) :
    Nat → Nat → List (BitVec 8) → Option (Nat × List (BitVec 8))
  | 0, v, s => some (v, s)
  | _ + 1, _, [] => none
  | n + 1, v, c :: s =>
      match digit c with
      | none => none
      | some d => digits digit base n (base * v + d) s

/-- The control characters with a letter of their own. -/
def control (c : BitVec 8) : Option (BitVec 8) :=
  ([('a', 7), ('b', 8), ('f', 12), ('n', 10), ('r', 13), ('t', 9), ('v', 11)].find? fun e =>
    ascii e.1 = c).map fun e => e.2

/-- What follows a backslash: the bytes that it stands for, and the rest. -/
def unescape : List (BitVec 8) → Option (List (BitVec 8) × List (BitVec 8))
  | [] => none
  | c :: s =>
      match control c with
      | some b => some ([b], s)
      | none =>
          if c = ascii 'x' then
            (digits unhex 16 2 0 s).map fun r => ([BitVec.ofNat 8 r.1], r.2)
          else if c = ascii 'u' then
            (digits unhex 16 4 0 s).bind fun r => (appendRune r.1).map fun bytes => (bytes, r.2)
          else if c = ascii 'U' then
            (digits unhex 16 8 0 s).bind fun r => (appendRune r.1).map fun bytes => (bytes, r.2)
          else if (octal c).isSome then
            (digits octal 8 3 0 (c :: s)).bind fun r =>
              if r.1 > 255 then none else some ([BitVec.ofNat 8 r.1], r.2)
          else if c = backslash ∨ c = quote then some ([c], s)
          else none

/-- `strconv.UnquoteChar` in double quotes. -/
def unquoteChar : List (BitVec 8) → Option (List (BitVec 8) × List (BitVec 8))
  | [] => none
  | c :: s =>
      if c = quote then none
      else if 0x80 ≤ c then some (decodeRune (c :: s))
      else if c ≠ backslash then some ([c], s)
      else unescape s

/-! ## What an escape sequence takes -/

/-- A character that neither ends the text nor starts an escape sequence. -/
def Plain (c : BitVec 8) : Prop := c ≠ quote ∧ c ≠ backslash

instance (c : BitVec 8) : Decidable (Plain c) := inferInstanceAs (Decidable (_ ∧ _))

/-- The digits that were read stand in front of the rest. -/
theorem digits_eq_some {digit : BitVec 8 → Option Nat} {base n : Nat} :
    ∀ {v w : Nat} {s rest : List (BitVec 8)}, digits digit base n v s = some (w, rest) →
      ∃ taken, s = taken ++ rest ∧ taken.length = n ∧ ∀ c ∈ taken, (digit c).isSome := by
  induction n with
  | zero =>
      intro v w s rest h
      obtain rfl := (Prod.mk.inj (Option.some.inj h)).2
      exact ⟨[], rfl, rfl, fun _ hc => absurd hc List.not_mem_nil⟩
  | succ n ih =>
      intro v w s rest h
      cases s with
      | nil => cases h
      | cons c s =>
          rw [digits] at h
          split at h
          · cases h
          · rename_i d hd
            obtain ⟨taken, rfl, hlen, hdigits⟩ := ih h
            refine ⟨c :: taken, rfl, by rw [List.length_cons, hlen], ?_⟩
            exact List.forall_mem_cons.mpr ⟨by rw [hd]; rfl, hdigits⟩

theorem plain_of_unhex {c : BitVec 8} (h : (unhex c).isSome) : Plain c := by
  constructor
  · rintro rfl
    exact absurd h (by decide)
  · rintro rfl
    exact absurd h (by decide)

theorem plain_of_octal {c : BitVec 8} (h : (octal c).isSome) : Plain c := by
  constructor
  · rintro rfl
    exact absurd h (by decide)
  · rintro rfl
    exact absurd h (by decide)

theorem plain_of_control {c b : BitVec 8} (h : control c = some b) : Plain c := by
  constructor
  · rintro rfl
    exact absurd h (by decide +revert)
  · rintro rfl
    exact absurd h (by decide +revert)

theorem length_appendRune_le {v : Nat} {bytes : List (BitVec 8)} (h : appendRune v = some bytes) :
    bytes.length ≤ 4 := by
  unfold appendRune at h
  split at h
  · obtain rfl := Option.some.inj h
    rw [List.length_map, String.length_utf8EncodeChar]
    exact Char.utf8Size_le_four _
  · cases h

/-- An escape sequence takes plain characters, at least as many as it stands for, or it stands
for the backslash or the quote that it takes. -/
theorem unescape_cases {s bytes rest : List (BitVec 8)} (h : unescape s = some (bytes, rest)) :
    (∃ taken, s = taken ++ rest ∧ taken ≠ [] ∧ bytes.length ≤ taken.length ∧
      ∀ c ∈ taken, Plain c) ∨
    (∃ c, (c = backslash ∨ c = quote) ∧ bytes = [c] ∧ s = c :: rest) := by
  -- the digits behind a letter, which stand for as many bytes as there are digits, or fewer
  have hletter {c : BitVec 8} {s' : List (BitVec 8)} {n w : Nat} (hc : Plain c)
      (hdigits : digits unhex 16 n 0 s' = some (w, rest)) (hbytes : bytes.length ≤ n) :
      ∃ taken, c :: s' = taken ++ rest ∧ taken ≠ [] ∧ bytes.length ≤ taken.length ∧
        ∀ d ∈ taken, Plain d := by
    obtain ⟨taken, rfl, hlen, hunhex⟩ := digits_eq_some hdigits
    refine ⟨c :: taken, rfl, List.cons_ne_nil _ _, by rw [List.length_cons]; omega, ?_⟩
    exact List.forall_mem_cons.mpr ⟨hc, fun d hd => plain_of_unhex (hunhex d hd)⟩
  cases s with
  | nil => cases h
  | cons c s =>
      rw [unescape] at h
      split at h
      · rename_i b hb
        obtain ⟨rfl, rfl⟩ := Prod.mk.inj (Option.some.inj h)
        refine Or.inl ⟨[c], rfl, List.cons_ne_nil _ _, Nat.le_refl 1, ?_⟩
        exact List.forall_mem_singleton.mpr (plain_of_control hb)
      split at h
      · rename_i hx
        obtain ⟨r, hdigits, heq⟩ := Option.map_eq_some_iff.mp h
        obtain ⟨rfl, rfl⟩ := Prod.mk.inj heq
        exact Or.inl (hletter (hx ▸ by decide) hdigits (by simp))
      split at h
      · rename_i hu
        obtain ⟨r, hdigits, hrune⟩ := Option.bind_eq_some_iff.mp h
        obtain ⟨bytes', hbytes, heq⟩ := Option.map_eq_some_iff.mp hrune
        obtain ⟨rfl, rfl⟩ := Prod.mk.inj heq
        exact Or.inl (hletter (hu ▸ by decide) hdigits (length_appendRune_le hbytes))
      split at h
      · rename_i hU
        obtain ⟨r, hdigits, hrune⟩ := Option.bind_eq_some_iff.mp h
        obtain ⟨bytes', hbytes, heq⟩ := Option.map_eq_some_iff.mp hrune
        obtain ⟨rfl, rfl⟩ := Prod.mk.inj heq
        have hle := length_appendRune_le hbytes
        exact Or.inl (hletter (hU ▸ by decide) hdigits (by omega))
      split at h
      · obtain ⟨r, hdigits, hbyte⟩ := Option.bind_eq_some_iff.mp h
        split at hbyte
        · cases hbyte
        · obtain ⟨rfl, rfl⟩ := Prod.mk.inj (Option.some.inj hbyte)
          obtain ⟨taken, htaken, hlen, hoctal⟩ := digits_eq_some hdigits
          refine Or.inl ⟨taken, htaken, List.ne_nil_of_length_pos (by omega), ?_, ?_⟩
          · rw [List.length_singleton]
            omega
          · exact fun d hd => plain_of_octal (hoctal d hd)
      split at h
      · rename_i hself
        obtain ⟨rfl, rfl⟩ := Prod.mk.inj (Option.some.inj h)
        exact Or.inr ⟨c, hself, rfl, rfl⟩
      · cases h

theorem length_unescape_lt {s bytes rest : List (BitVec 8)} (h : unescape s = some (bytes, rest)) :
    rest.length < s.length := by
  rcases unescape_cases h with ⟨taken, rfl, hne, -⟩ | ⟨c, -, -, rfl⟩
  · have hpos := List.length_pos_iff.mpr hne
    rw [List.length_append]
    omega
  · exact Nat.lt_succ_self _

theorem length_decodeRune_lt (c : BitVec 8) (s : List (BitVec 8)) :
    (decodeRune (c :: s)).2.length < (c :: s).length := by
  unfold decodeRune
  cases hfind : [2, 3, 4].find? fun n => isRune ((c :: s).take n) with
  | none => exact Nat.lt_succ_self _
  | some n =>
      have hmem := List.mem_of_find?_eq_some hfind
      simp only [List.mem_cons, List.not_mem_nil, or_false] at hmem
      rw [List.length_drop, List.length_cons]
      omega

theorem length_unquoteChar_lt {s bytes rest : List (BitVec 8)}
    (h : unquoteChar s = some (bytes, rest)) : rest.length < s.length := by
  cases s with
  | nil => cases h
  | cons c s =>
      rw [unquoteChar] at h
      split at h
      · cases h
      split at h
      · have hlt := length_decodeRune_lt c s
        rwa [Option.some.inj h] at hlt
      split at h
      · obtain rfl := (Prod.mk.inj (Option.some.inj h)).2
        exact Nat.lt_succ_self _
      · exact Nat.lt_succ_of_lt (length_unescape_lt h)

/-! ## The loop -/

/-- The loop of `unquote`: the bytes up to the closing quote, and what lies behind it. -/
def unquoteLoop (s : List (BitVec 8)) : Option (List (BitVec 8) × List (BitVec 8)) :=
  match s with
  | [] => none
  | c :: cs =>
      if c = quote then some ([], cs)
      else if c = newline then none
      else
        match _h : unquoteChar (c :: cs) with
        | none => none
        | some (bytes, rest) => (unquoteLoop rest).map fun r => (bytes ++ r.1, r.2)
termination_by s.length
decreasing_by exact length_unquoteChar_lt ‹_›

theorem unquoteLoop_quote (s : List (BitVec 8)) : unquoteLoop (quote :: s) = some ([], s) := by
  rw [unquoteLoop, if_pos rfl]

/-- A character that is read before the closing quote. -/
theorem unquoteLoop_of_char {c : BitVec 8} {s bytes rest : List (BitVec 8)} (hquote : c ≠ quote)
    (hnewline : c ≠ newline) (h : unquoteChar (c :: s) = some (bytes, rest)) :
    unquoteLoop (c :: s) = (unquoteLoop rest).map fun r => (bytes ++ r.1, r.2) := by
  rw [unquoteLoop, if_neg hquote, if_neg hnewline]
  split
  · rename_i hnone
    rw [hnone] at h
    cases h
  · rename_i bytes' rest' hsome
    obtain ⟨rfl, rfl⟩ := Prod.mk.inj (Option.some.inj (hsome.symm.trans h))
    rfl

/-- `strconv.Unquote` of a text that starts with a double quote; nothing may follow the closing
one. -/
def unquote (body : List (BitVec 8)) : Option (List (BitVec 8)) :=
  match unquoteLoop body with
  | some (out, []) => some out
  | _ => none

end Unquote
