import Stackplz.Basic.Unquote
import Stackplz.Probe.Types

/-!
# Bytes as text

`PrettyByteSlice` (`util/helper.go`) writes printable bytes as they are and the others as
`\xNN`; `RestoreByteSlice` takes the text for the inside of a Go string in double quotes. The
quote and the backslash are printable, so they are written bare, and read as the end of the
string and as the beginning of an escape sequence.
-/

set_option autoImplicit false

namespace Stackplz

open Unquote (ascii quote backslash Plain)

/-- A digit of `%02x`. -/
def hexDigit (d : Nat) : u8 := ascii (Nat.digitChar d)

def isPrint (b : u8) : Bool := 32 ≤ b && b ≤ 126

/-- What is written for a byte. -/
def prettyByte (b : u8) : List u8 :=
  if isPrint b then [b]
  else [backslash, ascii 'x', hexDigit (b.toNat / 16), hexDigit (b.toNat % 16)]

/-- `PrettyByteSlice`. -/
def prettyByteSlice (buffer : List u8) : List u8 := buffer.flatMap prettyByte

/-- `RestoreByteSlice`; `none` is the panic. -/
def restoreByteSlice (str : List u8) : Option (List u8) := Unquote.unquote (str ++ [quote])

/-- What is unquoted: the text of some bytes, and the closing quote. -/
def quotedText (bytes : List u8) : List u8 := prettyByteSlice bytes ++ [quote]

@[simp] theorem quotedText_nil : quotedText [] = [quote] := rfl

theorem quotedText_cons (b : u8) (bytes : List u8) :
    quotedText (b :: bytes) = prettyByte b ++ quotedText bytes := by
  unfold quotedText prettyByteSlice
  rw [List.flatMap_cons, List.append_assoc]

/-! ## Reading a text -/

theorem unhex_hexDigit {d : Nat} (h : d < 16) : Unquote.unhex (hexDigit d) = some d := by
  have hall : ∀ d < 16, Unquote.unhex (hexDigit d) = some d := by decide
  exact hall d h

theorem prettyByte_of_print {b : u8} (h : isPrint b = true) : prettyByte b = [b] := if_pos h

/-- A plain byte is read from what is written for it. -/
theorem unquoteChar_prettyByte {b : u8} (h : Plain b) (s : List u8) :
    Unquote.unquoteChar (prettyByte b ++ s) = some ([b], s) := by
  unfold prettyByte
  split
  · rename_i hprint
    have hascii : ¬ 0x80 ≤ b := by
      simp only [isPrint, Bool.and_eq_true, decide_eq_true_eq] at hprint
      bv_omega
    show Unquote.unquoteChar (b :: s) = _
    rw [Unquote.unquoteChar, if_neg h.1, if_neg hascii, if_pos h.2]
  · have hdigits : Unquote.digits Unquote.unhex 16 2 0
        (hexDigit (b.toNat / 16) :: hexDigit (b.toNat % 16) :: s) = some (b.toNat, s) := by
      have hlt := b.isLt
      simp only [Unquote.digits, unhex_hexDigit (show b.toNat / 16 < 16 by omega),
        unhex_hexDigit (show b.toNat % 16 < 16 by omega)]
      rw [show 16 * (16 * 0 + b.toNat / 16) + b.toNat % 16 = b.toNat by omega]
    show Unquote.unquoteChar (backslash :: ascii 'x' :: hexDigit (b.toNat / 16) ::
      hexDigit (b.toNat % 16) :: s) = _
    rw [Unquote.unquoteChar, if_neg (by decide), if_neg (by decide), if_neg (by decide),
      Unquote.unescape]
    rw [show Unquote.control (ascii 'x') = none by decide]
    dsimp only
    rw [if_pos rfl, hdigits, Option.map_some, BitVec.ofNat_toNat, BitVec.setWidth_eq]

/-- The first byte that is written for a plain byte neither ends the text nor is a line break. -/
theorem prettyByte_head {b : u8} (h : Plain b) : ∃ c text, prettyByte b = c :: text ∧
    c ≠ quote ∧ c ≠ Unquote.newline := by
  unfold prettyByte
  split
  · rename_i hprint
    refine ⟨b, [], rfl, h.1, ?_⟩
    rintro rfl
    exact absurd hprint (by decide)
  · exact ⟨backslash, _, rfl, by decide, by decide⟩

theorem unquoteLoop_prettyByte {b : u8} (h : Plain b) (s : List u8) :
    Unquote.unquoteLoop (prettyByte b ++ s) =
      (Unquote.unquoteLoop s).map fun r => (b :: r.1, r.2) := by
  have hchar := unquoteChar_prettyByte h s
  obtain ⟨c, text, htext, hquote, hnewline⟩ := prettyByte_head h
  rw [htext, List.cons_append] at hchar ⊢
  exact Unquote.unquoteLoop_of_char hquote hnewline hchar

/-- A bare backslash starts an escape sequence. -/
theorem unquoteLoop_backslash {s out rest : List u8}
    (h : Unquote.unquoteLoop (backslash :: s) = some (out, rest)) :
    ∃ bytes later out', Unquote.unescape s = some (bytes, later) ∧
      Unquote.unquoteLoop later = some (out', rest) ∧ out = bytes ++ out' := by
  rw [Unquote.unquoteLoop, if_neg (by decide), if_neg (by decide)] at h
  split at h
  · cases h
  · rename_i bytes later hchar
    rw [Unquote.unquoteChar, if_neg (by decide), if_neg (by decide), if_neg (by decide)] at hchar
    obtain ⟨r, hloop, heq⟩ := Option.map_eq_some_iff.mp h
    obtain ⟨rfl, rfl⟩ := Prod.mk.inj heq
    exact ⟨bytes, later, r.1, hchar, hloop, rfl⟩

/-! ## What a text begins with -/

/-- A text that begins with a plain character begins with the byte that is this character. -/
theorem quotedText_plain {bytes s : List u8} {c : u8} (h : quotedText bytes = c :: s)
    (hc : Plain c) : ∃ later, bytes = c :: later ∧ s = quotedText later := by
  cases bytes with
  | nil =>
      obtain ⟨rfl, -⟩ := List.cons.inj h
      exact absurd rfl hc.1
  | cons b later =>
      rw [quotedText_cons] at h
      unfold prettyByte at h
      split at h
      · obtain ⟨rfl, rfl⟩ := List.cons.inj h
        exact ⟨later, rfl, rfl⟩
      · obtain ⟨rfl, -⟩ := List.cons.inj h
        exact absurd rfl hc.2

theorem quotedText_taken {taken : List u8} (htaken : ∀ c ∈ taken, Plain c) :
    ∀ {bytes rest : List u8}, quotedText bytes = taken ++ rest →
      ∃ later, bytes = taken ++ later ∧ rest = quotedText later := by
  induction taken with
  | nil => exact fun {bytes rest} h => ⟨bytes, rfl, h.symm⟩
  | cons c taken ih =>
      intro bytes rest h
      obtain ⟨hc, hrest⟩ := List.forall_mem_cons.mp htaken
      obtain ⟨mid, rfl, hmid⟩ := quotedText_plain h hc
      obtain ⟨later, rfl, hlater⟩ := ih hrest hmid.symm
      exact ⟨later, rfl, hlater⟩

/-- A quote at the front is the closing one, or a byte. -/
theorem quotedText_quote {bytes s : List u8} (h : quotedText bytes = quote :: s) :
    s = [] ∨ ∃ later, bytes = quote :: later ∧ s = quotedText later := by
  cases bytes with
  | nil => exact Or.inl (List.cons.inj h).2.symm
  | cons b later =>
      rw [quotedText_cons] at h
      unfold prettyByte at h
      split at h
      · obtain ⟨rfl, rfl⟩ := List.cons.inj h
        exact Or.inr ⟨later, rfl, rfl⟩
      · exact absurd (List.cons.inj h).1 (by decide)

/-- A backslash at the front is a byte, or begins what is written for a byte that is not
printable. -/
theorem quotedText_backslash {bytes s : List u8} (h : quotedText bytes = backslash :: s) :
    (∃ later, bytes = backslash :: later ∧ s = quotedText later) ∨
      ∃ b later d d', bytes = b :: later ∧ isPrint b = false ∧ d < 16 ∧ d' < 16 ∧
        s = ascii 'x' :: hexDigit d :: hexDigit d' :: quotedText later := by
  cases bytes with
  | nil => exact absurd (List.cons.inj h).1 (by decide)
  | cons b later =>
      rw [quotedText_cons] at h
      unfold prettyByte at h
      split at h
      · obtain ⟨rfl, rfl⟩ := List.cons.inj h
        exact Or.inl ⟨later, rfl, rfl⟩
      · rename_i hprint
        have hlt := b.isLt
        refine Or.inr ⟨b, later, b.toNat / 16, b.toNat % 16, rfl, by simpa using hprint, ?_, ?_,
          (List.cons.inj h).2.symm⟩
        · omega
        · omega

theorem hexDigit_plain {d : Nat} (h : d < 16) :
    Plain (hexDigit d) ∧ isPrint (hexDigit d) = true := by
  have hall : ∀ d < 16, Plain (hexDigit d) ∧ isPrint (hexDigit d) = true := by decide
  exact hall d h

/-- The three characters behind a backslash that was taken for an escaped one. -/
theorem unquoteLoop_hex {d d' : Nat} (hd : d < 16) (hd' : d' < 16) (s : List u8) :
    Unquote.unquoteLoop (ascii 'x' :: hexDigit d :: hexDigit d' :: s) =
      (Unquote.unquoteLoop s).map fun r =>
        (ascii 'x' :: hexDigit d :: hexDigit d' :: r.1, r.2) := by
  have hstep {c : u8} (hc : Plain c ∧ isPrint c = true) (s : List u8) :
      Unquote.unquoteLoop (c :: s) = (Unquote.unquoteLoop s).map fun r => (c :: r.1, r.2) := by
    have hloop := unquoteLoop_prettyByte hc.1 s
    rwa [prettyByte_of_print hc.2] at hloop
  rw [hstep (by decide), hstep (hexDigit_plain hd), hstep (hexDigit_plain hd')]
  cases Unquote.unquoteLoop s <;> rfl

/-! ## The round trip -/

/-- Behind the escape sequence of a bare backslash what is read lags behind the bytes: it takes
more bytes than it yields, or yields the text of a byte in place of the byte. -/
theorem unquoteLoop_escape {ahead later : List u8}
    (h : Unquote.unquoteLoop (quotedText (backslash :: later)) =
      some (ahead ++ backslash :: later, [])) :
    ∃ ahead' later', ahead' ≠ [] ∧ later'.length ≤ later.length ∧
      Unquote.unquoteLoop (quotedText later') = some (ahead' ++ later', []) := by
  rw [quotedText_cons, prettyByte_of_print (by decide), List.singleton_append] at h
  obtain ⟨bytes, rest, out, hescape, hloop, hout⟩ := unquoteLoop_backslash h
  have htakes (taken later' : List u8) (hlater : later = taken ++ later')
      (hlen : bytes.length ≤ taken.length) (hrest : rest = quotedText later') :
      ∃ ahead' later', ahead' ≠ [] ∧ later'.length ≤ later.length ∧
        Unquote.unquoteLoop (quotedText later') = some (ahead' ++ later', []) := by
    have hmore : bytes.length < (ahead ++ backslash :: taken).length := by
      rw [List.length_append, List.length_cons]
      omega
    have hsame : out = (ahead ++ backslash :: taken).drop bytes.length ++ later' := by
      rw [← List.drop_append_of_le_length (Nat.le_of_lt hmore), List.append_assoc,
        List.cons_append, ← hlater, hout, List.drop_left]
    refine ⟨(ahead ++ backslash :: taken).drop bytes.length, later', ?_, ?_, ?_⟩
    · exact List.ne_nil_of_length_pos (by rw [List.length_drop]; omega)
    · rw [hlater, List.length_append]
      omega
    · rw [← hrest, hloop, hsame]
  rcases Unquote.unescape_cases hescape with ⟨taken, htaken, -, hlen, hplain⟩ | hself
  · obtain ⟨later', hlater, hrest⟩ := quotedText_taken hplain htaken
    exact htakes taken later' hlater hlen hrest
  obtain ⟨c, hc | hc, rfl, htext⟩ := hself
  · subst hc
    rcases quotedText_backslash htext with ⟨later', hlater, hrest⟩ |
      ⟨b, later', d, d', rfl, hprint, hd, hd', hrest⟩
    · exact htakes [backslash] later' hlater (Nat.le_refl 1) hrest
    -- the text of a byte that is not printable is left without its backslash
    rw [hrest, unquoteLoop_hex hd hd'] at hloop
    obtain ⟨r, hlater, heq⟩ := Option.map_eq_some_iff.mp hloop
    obtain ⟨rfl, hnil⟩ := Prod.mk.inj heq
    have hr : r = (r.1, []) := Prod.ext rfl hnil
    rw [hr] at hlater
    have hdigit {d : Nat} (hd : d < 16) : backslash ≠ hexDigit d :=
      fun heq => (hexDigit_plain hd).1.2 heq.symm
    simp only [List.singleton_append] at hout
    rcases ahead with _ | ⟨a₀, _ | ⟨a₁, _ | ⟨a₂, _ | ⟨a₃, ahead⟩⟩⟩⟩
    · simp only [List.nil_append, List.cons.injEq, true_and] at hout
      rw [hout.1] at hprint
      exact absurd hprint (by decide)
    · simp only [List.cons_append, List.nil_append, List.cons.injEq] at hout
      exact absurd hout.2.1 (by decide)
    · simp only [List.cons_append, List.nil_append, List.cons.injEq] at hout
      exact absurd hout.2.2.1 (hdigit hd)
    · simp only [List.cons_append, List.nil_append, List.cons.injEq] at hout
      exact absurd hout.2.2.2.1 (hdigit hd')
    · simp only [List.cons_append, List.cons.injEq] at hout
      refine ⟨ahead ++ [backslash, b], later', by simp, by simp, ?_⟩
      rw [hlater, ← hout.2.2.2.2]
      simp
  · subst hc
    rcases quotedText_quote htext with hrest | ⟨later', hlater, hrest⟩
    · rw [hrest, Unquote.unquoteLoop] at hloop
      cases hloop
    · exact htakes [quote] later' hlater (Nat.le_refl 1) hrest

/-- Reading a text never runs ahead of its bytes: what is read is the bytes only if nothing
stands in front of them, and all of them are plain. The escape sequence of a bare backslash
takes more bytes than it yields, or yields the text of a byte in place of the byte. -/
theorem Unquote.unquoteLoop_quotedText {bytes : List u8} : ∀ {ahead : List u8},
    Unquote.unquoteLoop (quotedText bytes) = some (ahead ++ bytes, []) →
      ahead = [] ∧ ∀ c ∈ bytes, Plain c := by
  induction hn : bytes.length using Nat.strong_induction_on generalizing bytes with
  | _ n ih =>
  intro ahead h
  cases bytes with
  | nil =>
      rw [quotedText_nil, Unquote.unquoteLoop_quote] at h
      have hnil := (Prod.mk.inj (Option.some.inj h)).1
      rw [List.append_nil] at hnil
      exact ⟨hnil.symm, fun _ hc => absurd hc List.not_mem_nil⟩
  | cons b later =>
      have hlater : later.length < n := by
        rw [← hn, List.length_cons]
        omega
      by_cases hb : Plain b
      · rw [quotedText_cons, unquoteLoop_prettyByte hb] at h
        obtain ⟨r, hloop, heq⟩ := Option.map_eq_some_iff.mp h
        obtain ⟨hout, hrest⟩ := Prod.mk.inj heq
        have hr : r = (r.1, []) := Prod.ext rfl hrest
        rw [hr] at hloop
        cases ahead with
        | nil =>
            obtain ⟨-, hsame⟩ := List.cons.inj hout
            rw [hsame] at hloop
            obtain ⟨-, hclean⟩ := @ih _ hlater later rfl [] hloop
            exact ⟨rfl, List.forall_mem_cons.mpr ⟨hb, hclean⟩⟩
        | cons a ahead =>
            have hsame : r.1 = (ahead ++ [b]) ++ later := by
              rw [(List.cons.inj hout).2, List.append_assoc]
              rfl
            rw [hsame] at hloop
            have hnil := (ih _ hlater rfl hloop).1
            simp at hnil
      · exfalso
        rcases not_and_or.mp hb with hquote | hbackslash
        · obtain rfl := not_not.mp hquote
          rw [quotedText_cons, prettyByte_of_print (by decide), List.singleton_append,
            Unquote.unquoteLoop_quote] at h
          have hlen := congrArg List.length (Prod.mk.inj (Option.some.inj h)).2
          simp [quotedText] at hlen
        · obtain rfl := not_not.mp hbackslash
          obtain ⟨ahead', later', hne, hlen, hloop⟩ := unquoteLoop_escape h
          exact hne (ih _ (by omega) rfl hloop).1

/-- Plain bytes are read from their text. -/
theorem unquoteLoop_of_plain {bytes : List u8} (h : ∀ c ∈ bytes, Plain c) :
    Unquote.unquoteLoop (quotedText bytes) = some (bytes, []) := by
  induction bytes with
  | nil => exact Unquote.unquoteLoop_quote []
  | cons b bytes ih =>
      obtain ⟨hb, hbytes⟩ := List.forall_mem_cons.mp h
      rw [quotedText_cons, unquoteLoop_prettyByte hb, ih hbytes]
      rfl

theorem restoreByteSlice_eq_some {bytes out : List u8} :
    restoreByteSlice (prettyByteSlice bytes) = some out ↔
      Unquote.unquoteLoop (quotedText bytes) = some (out, []) := by
  show Unquote.unquote (quotedText bytes) = some out ↔ _
  unfold Unquote.unquote
  split
  · rename_i out' hloop
    simp [hloop]
  · rename_i hother
    constructor
    · exact fun h => by cases h
    · exact fun h => absurd h (hother out)

theorem forall_plain_iff {bytes : List u8} :
    (∀ c ∈ bytes, Plain c) ↔ quote ∉ bytes ∧ backslash ∉ bytes := by
  constructor
  · exact fun h => ⟨fun hmem => (h quote hmem).1 rfl, fun hmem => (h backslash hmem).2 rfl⟩
  · rintro ⟨hquote, hbackslash⟩ c hc
    exact ⟨fun heq => hquote (heq ▸ hc), fun heq => hbackslash (heq ▸ hc)⟩

/-- **Bytes as text.** The bytes are restored from their text exactly when none of them is a
quote or a backslash, and among such bytes the text tells which they are. -/
theorem restoreByteSlice_pretty_iff (bytes : List u8) :
    (restoreByteSlice (prettyByteSlice bytes) = some bytes ↔
      quote ∉ bytes ∧ backslash ∉ bytes) ∧
    ∀ bytes', quote ∉ bytes ∧ backslash ∉ bytes → quote ∉ bytes' ∧ backslash ∉ bytes' →
      prettyByteSlice bytes = prettyByteSlice bytes' → bytes = bytes' := by
  have hrestores (bytes : List u8) : restoreByteSlice (prettyByteSlice bytes) = some bytes ↔
      quote ∉ bytes ∧ backslash ∉ bytes := by
    rw [restoreByteSlice_eq_some, ← forall_plain_iff]
    constructor
    · intro h
      obtain ⟨-, hplain⟩ := @Unquote.unquoteLoop_quotedText bytes [] h
      exact hplain
    · exact unquoteLoop_of_plain
  refine ⟨hrestores bytes, fun bytes' h h' heq => ?_⟩
  have hsame := (hrestores bytes).mpr h
  rw [heq, (hrestores bytes').mpr h'] at hsame
  exact (Option.some.inj hsame).symm

/-- A quote makes `RestoreByteSlice` panic, a backslash before an `n` is read as a line break,
and the zero byte has the text of four printable ones. -/
theorem pretty_text_ambiguous :
    restoreByteSlice (prettyByteSlice [quote]) = none ∧
      restoreByteSlice (prettyByteSlice [backslash, ascii 'n']) = some [10] ∧
      prettyByteSlice [0] = prettyByteSlice [backslash, ascii 'x', ascii '0', ascii '0'] ∧
      ¬ Function.Injective prettyByteSlice := by
  have hzero : prettyByteSlice [0] =
      prettyByteSlice [backslash, ascii 'x', ascii '0', ascii '0'] := by decide
  refine ⟨?_, ?_, hzero, fun hinj => absurd (hinj hzero) (by decide)⟩
  · show Unquote.unquote [quote, quote] = none
    unfold Unquote.unquote
    rw [Unquote.unquoteLoop_quote]
  · have hchar : Unquote.unquoteChar [backslash, ascii 'n', quote] = some ([10], [quote]) := by
      decide
    rw [restoreByteSlice_eq_some]
    show Unquote.unquoteLoop [backslash, ascii 'n', quote] = _
    rw [Unquote.unquoteLoop_of_char (by decide) (by decide) hchar, Unquote.unquoteLoop_quote]
    rfl

end Stackplz
