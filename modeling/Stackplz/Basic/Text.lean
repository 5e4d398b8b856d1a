import Mathlib.Algebra.Group.Nat.Defs
import Mathlib.Data.List.Basic

/-!
# Text functions

The functions of the Go packages `strings` and `strconv` that configuration parsers are
written with, on lists of characters: splitting, searching and unsigned number literals.
-/

set_option autoImplicit false

/-- A piece of text. -/
abbrev Text := List Char

namespace Text

/-! ## Splitting and searching -/

/-- `strings.Split` for a separator of one character. -/
def splitOn (sep : Char) : Text → List Text
  | [] => [[]]
  | c :: cs =>
      if c = sep then [] :: splitOn sep cs
      else
        match splitOn sep cs with
        | [] => [[c]]
        | first :: rest => (c :: first) :: rest

theorem splitOn_of_not_mem {sep : Char} {s : Text} (h : sep ∉ s) : splitOn sep s = [s] := by
  induction s with
  | nil => rfl
  | cons c cs ih =>
      have hne : c ≠ sep := fun heq => h (heq ▸ List.mem_cons_self ..)
      rw [splitOn, if_neg hne, ih fun hmem => h (List.mem_cons_of_mem c hmem)]

/-- The separator is in none of the pieces. -/
theorem not_mem_of_mem_splitOn {sep : Char} {s piece : Text} (h : piece ∈ splitOn sep s) :
    sep ∉ piece := by
  induction s generalizing piece with
  | nil =>
      rw [List.mem_singleton.mp h]
      exact List.not_mem_nil
  | cons c cs ih =>
      unfold splitOn at h
      split at h
      · rcases List.mem_cons.mp h with rfl | hmem
        · exact List.not_mem_nil
        · exact ih hmem
      · rename_i hc
        have hnew {front : Text} (hfront : sep ∉ front) : sep ∉ c :: front := fun hmem =>
          (List.mem_cons.mp hmem).elim (fun heq => hc heq.symm) hfront
        split at h
        · rw [List.mem_singleton.mp h]
          exact hnew List.not_mem_nil
        · rename_i first rest hsplit
          rw [hsplit] at ih
          rcases List.mem_cons.mp h with rfl | hmem
          · exact hnew (ih (List.mem_cons_self ..))
          · exact ih (List.mem_cons_of_mem _ hmem)

theorem splitOn_append {sep : Char} {s : Text} (h : sep ∉ s) (rest : Text) :
    splitOn sep (s ++ sep :: rest) = s :: splitOn sep rest := by
  induction s with
  | nil => exact if_pos rfl
  | cons c cs ih =>
      have hne : c ≠ sep := fun heq => h (heq ▸ List.mem_cons_self ..)
      rw [List.cons_append, splitOn, if_neg hne, ih fun hmem => h (List.mem_cons_of_mem c hmem)]

/-- The text is its first piece, or the first piece and the text behind the separator. -/
theorem splitOn_cases (sep : Char) (s : Text) :
    sep ∉ s ∧ splitOn sep s = [s] ∨
      ∃ front back, s = front ++ sep :: back ∧ sep ∉ front ∧
        splitOn sep s = front :: splitOn sep back := by
  by_cases hmem : sep ∈ s
  · obtain ⟨front, back, rfl, hfront⟩ := List.eq_append_cons_of_mem hmem
    exact Or.inr ⟨front, back, rfl, hfront, splitOn_append hfront back⟩
  · exact Or.inl ⟨hmem, splitOn_of_not_mem hmem⟩

theorem splitOn_ne_nil (sep : Char) (s : Text) : splitOn sep s ≠ [] := by
  rcases splitOn_cases sep s with ⟨-, h⟩ | ⟨front, back, -, -, h⟩
  · rw [h]
    exact List.cons_ne_nil _ _
  · rw [h]
    exact List.cons_ne_nil _ _

/-- The only piece is the text. -/
theorem splitOn_eq_singleton {sep : Char} {s piece : Text} (h : splitOn sep s = [piece]) :
    s = piece ∧ sep ∉ s := by
  rcases splitOn_cases sep s with ⟨hmem, hs⟩ | ⟨front, back, -, -, hs⟩
  · rw [hs] at h
    exact ⟨(List.cons.inj h).1, hmem⟩
  · rw [hs] at h
    exact absurd (List.cons.inj h).2 (splitOn_ne_nil sep back)

theorem splitOn_eq_pair {sep : Char} {s front back : Text}
    (h : splitOn sep s = [front, back]) : s = front ++ sep :: back := by
  rcases splitOn_cases sep s with ⟨-, hs⟩ | ⟨front', back', rfl, -, hs⟩
  · rw [hs] at h
    cases h
  · rw [hs] at h
    obtain ⟨rfl, hback⟩ := List.cons.inj h
    rw [(splitOn_eq_singleton hback).1]

theorem intercalate_cons_cons (sep : Char) (item next : Text) (rest : List Text) :
    List.intercalate [sep] (item :: next :: rest) =
      item ++ sep :: List.intercalate [sep] (next :: rest) := by
  rw [List.intercalate_cons_cons, List.append_assoc]
  rfl

/-- Pieces without the separator are the pieces of the text that they make. -/
theorem splitOn_intercalate {sep : Char} {items : List Text} (hne : items ≠ [])
    (h : ∀ item ∈ items, sep ∉ item) : splitOn sep (List.intercalate [sep] items) = items := by
  induction items with
  | nil => exact absurd rfl hne
  | cons item items ih =>
      obtain ⟨hitem, hitems⟩ := List.forall_mem_cons.mp h
      cases items with
      | nil =>
          rw [List.intercalate_singleton]
          exact splitOn_of_not_mem hitem
      | cons next rest =>
          rw [intercalate_cons_cons, splitOn_append hitem, ih (List.cons_ne_nil _ _) hitems]

/-- A character of the joined text is the separator or stands in an item. -/
theorem mem_intercalate {sep c : Char} {items : List Text}
    (h : c ∈ List.intercalate [sep] items) : c = sep ∨ ∃ item ∈ items, c ∈ item := by
  induction items with
  | nil => exact absurd h List.not_mem_nil
  | cons item items ih =>
      cases items with
      | nil =>
          rw [List.intercalate_singleton] at h
          exact Or.inr ⟨item, List.mem_cons_self .., h⟩
      | cons next rest =>
          rw [intercalate_cons_cons] at h
          rcases List.mem_append.mp h with hitem | hcons
          · exact Or.inr ⟨item, List.mem_cons_self .., hitem⟩
          · rcases List.mem_cons.mp hcons with hsep | hrest
            · exact Or.inl hsep
            · refine (ih hrest).imp_right ?_
              rintro ⟨found, hfound, hc⟩
              exact ⟨found, List.mem_cons_of_mem item hfound, hc⟩

theorem mem_intercalate_of_mem (sep : Char) {c : Char} {items : List Text} {item : Text}
    (hitem : item ∈ items) (hc : c ∈ item) : c ∈ List.intercalate [sep] items := by
  induction items with
  | nil => exact absurd hitem List.not_mem_nil
  | cons first items ih =>
      cases items with
      | nil =>
          rw [List.intercalate_singleton]
          rwa [List.mem_singleton.mp hitem] at hc
      | cons next rest =>
          rw [intercalate_cons_cons]
          rcases List.mem_cons.mp hitem with rfl | hmem
          · exact List.mem_append_left _ hc
          · exact List.mem_append_right _ (List.mem_cons_of_mem sep (ih hmem))

/-- The pieces make the text again. -/
theorem intercalate_splitOn (sep : Char) (s : Text) :
    List.intercalate [sep] (splitOn sep s) = s := by
  generalize hn : s.length = n
  induction n using Nat.strongRecOn generalizing s with
  | _ n ih =>
      rcases splitOn_cases sep s with ⟨-, hs⟩ | ⟨front, back, rfl, -, hs⟩
      · rw [hs, List.intercalate_singleton]
      · have hlt : back.length < n := by
          rw [← hn, List.length_append, List.length_cons]
          omega
        rw [hs]
        cases hback : splitOn sep back with
        | nil => exact absurd hback (splitOn_ne_nil sep back)
        | cons next rest =>
            rw [List.intercalate_cons_cons, ← hback, ih back.length hlt back rfl]
            simp

theorem mem_of_mem_splitOn {sep c : Char} {s piece : Text} (h : piece ∈ splitOn sep s)
    (hc : c ∈ piece) : c ∈ s := by
  rw [← intercalate_splitOn sep s]
  exact mem_intercalate_of_mem sep h hc

/-- `strings.SplitN(s, sep, 2)`: the text before the first separator, and the text after it
if there is one. -/
def splitTwo (sep : Char) : Text → Text × Option Text
  | [] => ([], none)
  | c :: cs =>
      if c = sep then ([], some cs)
      else
        let (before, after) := splitTwo sep cs
        (c :: before, after)

/-- `strings.HasPrefix`. -/
def hasPrefix (s pre : Text) : Bool := pre.isPrefixOf s

/-- `strings.HasSuffix`. -/
def hasSuffix (s suf : Text) : Bool := suf.isSuffixOf s

/-- `strings.TrimPrefix`. -/
def trimPrefix (s pre : Text) : Text := if hasPrefix s pre then s.drop pre.length else s

/-- The text without its last `n` characters, `s[:len(s)-n]`. -/
def dropLast (s : Text) (n : Nat) : Text := s.take (s.length - n)

/-- `strings.LastIndex`. -/
def lastIndexOf (s sub : Text) : Option Nat :=
  ((List.range (s.length + 1)).filter fun i => hasPrefix (s.drop i) sub).getLast?

theorem hasPrefix_iff {s pre : Text} : hasPrefix s pre = true ↔ ∃ rest, s = pre ++ rest := by
  unfold hasPrefix
  rw [List.isPrefixOf_iff_prefix]
  exact ⟨fun ⟨rest, h⟩ => ⟨rest, h.symm⟩, fun ⟨rest, h⟩ => ⟨rest, h.symm⟩⟩

theorem hasSuffix_iff {s suf : Text} : hasSuffix s suf = true ↔ ∃ front, s = front ++ suf := by
  unfold hasSuffix
  rw [List.isSuffixOf_iff_suffix]
  exact ⟨fun ⟨front, h⟩ => ⟨front, h.symm⟩, fun ⟨front, h⟩ => ⟨front, h.symm⟩⟩

theorem dropLast_append (front suf : Text) : dropLast (front ++ suf) suf.length = front := by
  unfold dropLast
  rw [List.length_append, Nat.add_sub_cancel, List.take_left]

/-- What `strings.LastIndex` finds is an occurrence. -/
theorem lastIndexOf_eq_some {s sub : Text} {i : Nat} (h : lastIndexOf s sub = some i) :
    ∃ rest, s.drop i = sub ++ rest := by
  unfold lastIndexOf at h
  have hmem := List.mem_of_getLast? h
  exact hasPrefix_iff.mp (List.mem_filter.mp hmem).2

/-- A character that occurs once occurs in one place. -/
theorem drop_eq_cons {c : Char} {front back tail : Text} (hfront : c ∉ front) (hback : c ∉ back)
    {i : Nat} (h : (front ++ c :: back).drop i = c :: tail) : i = front.length ∧ tail = back := by
  have hget : (front ++ c :: back)[i]? = some c := by
    rw [← Nat.add_zero i, ← List.getElem?_drop, h]
    rfl
  have hi : i = front.length := by
    rcases Nat.lt_trichotomy i front.length with hlt | heq | hgt
    · rw [List.getElem?_append_left hlt] at hget
      exact absurd (List.mem_of_getElem? hget) hfront
    · exact heq
    · obtain ⟨k, rfl⟩ := Nat.exists_eq_add_of_lt hgt
      rw [List.getElem?_append_right (by omega),
        show front.length + k + 1 - front.length = k + 1 by omega,
        List.getElem?_cons_succ] at hget
      exact absurd (List.mem_of_getElem? hget) hback
  rw [hi, List.drop_left] at h
  exact ⟨hi, (List.cons.inj h).2.symm⟩

/-- A text whose first character occurs once is found there or not at all. -/
theorem lastIndexOf_unique {c : Char} {front back : Text} (hfront : c ∉ front) (hback : c ∉ back)
    (sub : Text) : lastIndexOf (front ++ c :: back) (c :: sub) =
      if hasPrefix back sub then some front.length else none := by
  have hplace {i : Nat} (h : lastIndexOf (front ++ c :: back) (c :: sub) = some i) :
      i = front.length ∧ hasPrefix back sub = true := by
    obtain ⟨rest, hrest⟩ := lastIndexOf_eq_some h
    obtain ⟨hi, htail⟩ := drop_eq_cons hfront hback hrest
    exact ⟨hi, hasPrefix_iff.mpr ⟨rest, htail.symm⟩⟩
  split
  · rename_i hstarts
    obtain ⟨rest, rfl⟩ := hasPrefix_iff.mp hstarts
    have hmem : front.length ∈ (List.range ((front ++ c :: (sub ++ rest)).length + 1)).filter
        fun i => hasPrefix ((front ++ c :: (sub ++ rest)).drop i) (c :: sub) := by
      rw [List.mem_filter, List.mem_range]
      refine ⟨by rw [List.length_append]; omega, ?_⟩
      rw [List.drop_left]
      exact hasPrefix_iff.mpr ⟨rest, rfl⟩
    cases hlast : lastIndexOf (front ++ c :: (sub ++ rest)) (c :: sub) with
    | none =>
        rw [List.getLast?_eq_none_iff.mp hlast] at hmem
        exact absurd hmem List.not_mem_nil
    | some i => rw [(hplace hlast).1]
  · rename_i hstarts
    cases hlast : lastIndexOf (front ++ c :: back) (c :: sub) with
    | none => rfl
    | some i => exact absurd (hplace hlast).2 hstarts

/-- The ways to take a text apart at a separator. -/
def splitsAt (sep s : Text) : List (Text × Text) :=
  (List.range (s.length + 1)).filterMap fun k =>
    if sep.isPrefixOf (s.drop k) then some (s.take k, s.drop (k + sep.length)) else none

theorem mem_splitsAt (sep front back : Text) :
    (front, back) ∈ splitsAt sep (front ++ sep ++ back) := by
  rw [splitsAt, List.mem_filterMap]
  refine ⟨front.length, ?_, ?_⟩
  · rw [List.mem_range, List.length_append, List.length_append]
    omega
  · have hfront : (front ++ sep ++ back).drop front.length = sep ++ back := by
      rw [List.append_assoc, List.drop_left]
    have hback : (front ++ sep ++ back).drop (front.length + sep.length) = back := by
      rw [← List.length_append, List.drop_left]
    rw [hfront, if_pos (List.isPrefixOf_iff_prefix.mpr (List.prefix_append sep back)), hback,
      List.append_assoc, List.take_left]

/-- A text that starts with no character of a kind is where the characters before it end. -/
theorem span_append {p : Char → Bool} {front back : Text} (hfront : ∀ c ∈ front, p c = true)
    (hback : ∀ c cs, back = c :: cs → p c = false) :
    (front ++ back).takeWhile p = front ∧ (front ++ back).dropWhile p = back := by
  rw [List.takeWhile_append_of_pos hfront, List.dropWhile_append_of_pos hfront]
  cases back with
  | nil => exact ⟨List.append_nil front, rfl⟩
  | cons c cs =>
      have hc : ¬p c = true := Bool.eq_false_iff.mp (hback c cs rfl)
      rw [List.takeWhile_cons_of_neg hc, List.dropWhile_cons_of_neg hc]
      exact ⟨List.append_nil front, rfl⟩

/-- A character of `\w`. -/
def isWord (c : Char) : Bool := c.isAlphanum || c == '_'

/-- A character of `[[:xdigit:]]`. -/
def isXDigit (c : Char) : Bool :=
  c.isDigit || ('a' ≤ c && c ≤ 'f') || ('A' ≤ c && c ≤ 'F')

/-! ## Number literals -/

/-- The value of a digit in bases up to 36. -/
def digitValue (c : Char) : Option Nat :=
  if c.isDigit then some (c.toNat - '0'.toNat)
  else if c.isAlpha then some (c.toLower.toNat - 'a'.toNat + 10)
  else none

/-- The base that a literal selects by its prefix, with the digits that follow. -/
def baseOf (s : Text) : Nat × Text :=
  match s with
  | '0' :: c :: d :: rest =>
      if c.toLower = 'b' then (2, d :: rest)
      else if c.toLower = 'o' then (8, d :: rest)
      else if c.toLower = 'x' then (16, d :: rest)
      else (8, c :: d :: rest)
  | '0' :: rest => (8, rest)
  | _ => (10, s)

/-- What the character before an underscore was: the start, a digit, an underscore or
something else. -/
inductive Before where
  | start | digit | underscore | other
deriving DecidableEq

/-- Underscores separate digits. -/
def underscoresSeparate (hex : Bool) : Before → Text → Bool
  | before, [] => before != .underscore
  | before, c :: cs =>
      if c.isDigit || hex && isXDigit c then underscoresSeparate hex .digit cs
      else if c = '_' then before == .digit && underscoresSeparate hex .underscore cs
      else before != .underscore && underscoresSeparate hex .other cs

/-- `underscoreOK`: a base prefix counts as a digit. -/
def underscoreOk (s : Text) : Bool :=
  let s := match s with
    | c :: cs => if c = '-' || c = '+' then cs else s
    | [] => s
  match s with
  | '0' :: c :: rest =>
      if c.toLower = 'b' || c.toLower = 'o' || c.toLower = 'x' then
        underscoresSeparate (c.toLower = 'x') .digit rest
      else underscoresSeparate false .start s
  | _ => underscoresSeparate false .start s

/-- The digits of a literal, accumulated; `none` for a character that is no digit of the base
or a value that does not fit. Underscores are skipped in a literal that selects its base. -/
def parseDigits (base bits : Nat) (prefixed : Bool) : Nat → Text → Option Nat
  | n, [] => some n
  | n, c :: cs =>
      if prefixed && c = '_' then parseDigits base bits prefixed n cs
      else
        match digitValue c with
        | none => none
        | some d =>
            if d ≥ base then none
            else if n * base + d ≥ 2 ^ bits then none
            else parseDigits base bits prefixed (n * base + d) cs

/-- `strconv.ParseUint`; `none` is any error. Base zero means that the literal selects it. -/
def parseUint (s : Text) (base bits : Nat) : Option Nat :=
  if s = [] then none
  else if base = 0 then
    let (base, digits) := baseOf s
    (parseDigits base bits true 0 digits).filter fun _ => !s.contains '_' || underscoreOk s
  else parseDigits base bits false 0 s

theorem parseDigits_chars {base bits : Nat} {prefixed : Bool} {s : Text} {n v : Nat}
    (h : parseDigits base bits prefixed n s = some v) :
    ∀ c ∈ s, c = '_' ∨ ∃ d < base, digitValue c = some d := by
  induction s generalizing n with
  | nil => exact List.forall_mem_nil _
  | cons c cs ih =>
      unfold parseDigits at h
      split at h
      · rename_i hc
        rw [Bool.and_eq_true, decide_eq_true_iff] at hc
        exact List.forall_mem_cons.mpr ⟨Or.inl hc.2, ih h⟩
      · split at h
        · cases h
        · rename_i d hd
          split at h
          · cases h
          · rename_i hlt
            split at h
            · cases h
            · exact List.forall_mem_cons.mpr ⟨Or.inr ⟨d, Nat.lt_of_not_le hlt, hd⟩, ih h⟩

/-- What a literal that selects its base is made of. -/
def isLiteral (c : Char) : Bool :=
  c = '_' || c.toLower = 'b' || c.toLower = 'o' || c.toLower = 'x' ||
    (digitValue c).any fun d => d < 16

theorem isLiteral_of_digit {c : Char} {base : Nat} (hbase : base ≤ 16)
    (h : c = '_' ∨ ∃ d < base, digitValue c = some d) : isLiteral c = true := by
  unfold isLiteral
  rcases h with rfl | ⟨d, hd, hc⟩
  · rfl
  · have hlt : d < 16 := by omega
    simp [hc, hlt]

/-- The prefix of a literal is made of the same characters. -/
theorem baseOf_spec (s : Text) :
    (baseOf s).1 ≤ 16 ∧ ∀ c ∈ s, c ∈ (baseOf s).2 ∨ isLiteral c = true := by
  have hzero : isLiteral '0' = true := by decide
  have hstarts {c : Char} (hc : c.toLower = 'b' ∨ c.toLower = 'o' ∨ c.toLower = 'x') :
      isLiteral c = true := by
    unfold isLiteral
    rcases hc with hc | hc | hc <;> simp [hc]
  have htwo {c : Char} {digits : Text}
      (hc : c.toLower = 'b' ∨ c.toLower = 'o' ∨ c.toLower = 'x') :
      ∀ c' ∈ '0' :: c :: digits, c' ∈ digits ∨ isLiteral c' = true :=
    List.forall_mem_cons.mpr ⟨Or.inr hzero,
      List.forall_mem_cons.mpr ⟨Or.inr (hstarts hc), fun _ hmem => Or.inl hmem⟩⟩
  have hone {digits : Text} : ∀ c' ∈ '0' :: digits, c' ∈ digits ∨ isLiteral c' = true :=
    List.forall_mem_cons.mpr ⟨Or.inr hzero, fun _ hmem => Or.inl hmem⟩
  unfold baseOf
  split
  · split
    · rename_i hc
      exact ⟨Nat.le_of_ble_eq_true rfl, htwo (Or.inl hc)⟩
    · split
      · rename_i hc
        exact ⟨Nat.le_of_ble_eq_true rfl, htwo (Or.inr (Or.inl hc))⟩
      · split
        · rename_i hc
          exact ⟨Nat.le_of_ble_eq_true rfl, htwo (Or.inr (Or.inr hc))⟩
        · exact ⟨Nat.le_of_ble_eq_true rfl, hone⟩
  · exact ⟨Nat.le_of_ble_eq_true rfl, hone⟩
  · exact ⟨Nat.le_of_ble_eq_true rfl, fun _ hmem => Or.inl hmem⟩

theorem parseUint_isLiteral {s : Text} {bits v : Nat} (h : parseUint s 0 bits = some v) :
    s ≠ [] ∧ ∀ c ∈ s, isLiteral c = true := by
  unfold parseUint at h
  split at h
  · cases h
  · rename_i hne
    rw [if_pos rfl] at h
    obtain ⟨hdigits, -⟩ := Option.filter_eq_some_iff.mp h
    obtain ⟨hbase, hchars⟩ := baseOf_spec s
    refine ⟨hne, fun c hc => (hchars c hc).elim (fun hmem => ?_) id⟩
    exact isLiteral_of_digit hbase (parseDigits_chars hdigits c hmem)

example : parseUint "0x20".toList 0 64 = some 32 := by decide
example : parseUint "x20".toList 0 64 = none := by decide

end Text
