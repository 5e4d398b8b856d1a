import Stackplz.Basic.Scan
import Stackplz.Probe.Types

/-!
# Lines of `/proc/<pid>/maps`

What the kernel writes for a mapping, and what `ParseMapsContent` scans from it. A line
without a name is skipped, and of a name only the first word is taken.
-/

set_option autoImplicit false

namespace Stackplz

/-! ## Scanning -/

/-- The variables that a line is scanned into. -/
structure MapsFields where
  segStart : u64
  segEnd : u64
  permission : Text
  segOffset : u64
  device : Text
  inode : u64
  segPath : Text
deriving DecidableEq

/-- The format `%x-%x %s %x %s %d %s`. -/
def scanMapsFields : Scan MapsFields := do
  let segStart ← Scan.number 16 64
  Scan.literal '-'
  let segEnd ← Scan.number 16 64
  Scan.blank
  let permission ← Scan.token
  Scan.blank
  let segOffset ← Scan.number 16 64
  Scan.blank
  let device ← Scan.token
  Scan.blank
  let inode ← Scan.number 10 64
  Scan.blank
  let segPath ← Scan.token
  return ⟨segStart, segEnd, permission, segOffset, device, inode, segPath⟩

/-- `fmt.Fscanf` on a line; `none` unless all seven values were read. -/
def fscanfMaps (line : Text) : Option MapsFields := scanMapsFields.run' line

example : fscanfMaps
    "7000-9000 r-xp 00001000 fd:05 42    /system/lib64/libc.so (deleted)".toList =
    some ⟨0x7000, 0x9000, "r-xp".toList, 0x1000, "fd:05".toList, 42,
      "/system/lib64/libc.so".toList⟩ := by decide

/-! ## What the kernel writes -/

/-- A mapping; one without a file has no name. -/
structure MapsMapping where
  start : u64
  stop : u64
  permission : Text
  offset : u64
  device : Text
  inode : u64
  name : Text
  /-- no mapping is empty -/
  start_lt_stop : start < stop

/-- The first word of a name. -/
def firstWord (name : Text) : Text := name.takeWhile fun c => !Scan.isSpace c

/-- The text is a number, with zeros in front or without. -/
def IsNumeral (base : Nat) (s : Text) (value : u64) : Prop :=
  (∀ c ∈ s, Scan.isDigitOf base c = true) ∧ Text.parseUint s base 64 = some value.toNat

def IsWord (s : Text) : Prop := s ≠ [] ∧ ∀ c ∈ s, Scan.isSpace c = false

/-- The line shows the mapping: its seven columns, the last of them behind some blanks and only
where the mapping has a name. A name may have blanks inside. -/
def MapsMapping.ShownBy (m : MapsMapping) (line : Text) : Prop :=
  ∃ start stop offset inode pad : Text,
    IsNumeral 16 start m.start ∧ IsNumeral 16 stop m.stop ∧ IsWord m.permission ∧
    IsNumeral 16 offset m.offset ∧ IsWord m.device ∧ IsNumeral 10 inode m.inode ∧
    (∀ c ∈ pad, c = ' ') ∧ (m.name ≠ [] → pad ≠ []) ∧ Scan.Stops Scan.isSpace m.name ∧
    '\n' ∉ m.name ∧
    line = start ++ '-' :: stop ++ ' ' :: m.permission ++ ' ' :: offset ++ ' ' :: m.device ++
      ' ' :: inode ++ pad ++ m.name

/-- The content of a maps file: a line for each mapping, each with its line break. -/
def ShowsMappings (content : Text) (mappings : List MapsMapping) : Prop :=
  ∃ lines, List.Forall₂ MapsMapping.ShownBy mappings lines ∧
    content = List.intercalate ['\n'] (lines ++ [[]])

section

open Scan

theorem isSpace_space : isSpace ' ' = true := by decide

/-- A blank ends a number. -/
theorem stops_digit_space (base : Nat) (rest : Text) : Stops (isDigitOf base) (' ' :: rest) := by
  refine stops_cons (Bool.eq_false_iff.mpr fun h => ?_) rest
  exact absurd (isSpace_of_isDigitOf h) (by decide)

/-- A blank ends a word. -/
theorem stops_word_space (rest : Text) : Stops (fun c => !isSpace c) (' ' :: rest) :=
  stops_cons (by decide) rest

theorem IsNumeral.stops {base : Nat} {s : Text} {value : u64} (h : IsNumeral base s value)
    (rest : Text) : Stops isSpace (s ++ rest) := by
  have hne : s ≠ [] := by
    rintro rfl
    cases h.2
  exact stops_append hne (fun c hc => isSpace_of_isDigitOf (h.1 c hc)) rest

theorem IsNumeral.run {base : Nat} {s rest : Text} {value : u64} (h : IsNumeral base s value)
    (hrest : Stops (isDigitOf base) rest) :
    (number base 64).run (s ++ rest) = some (value, rest) := by
  rw [number_run h.1 h.2 hrest, BitVec.ofNat_toNat, BitVec.setWidth_eq]

theorem IsWord.stops {s : Text} (h : IsWord s) (rest : Text) : Stops isSpace (s ++ rest) :=
  stops_append h.1 h.2 rest

theorem IsWord.run {s : Text} (h : IsWord s) (rest : Text) :
    token.run (s ++ ' ' :: rest) = some (s, ' ' :: rest) :=
  token_run h.1 h.2 (stops_word_space rest)

/-- One blank between two columns. -/
theorem blank_run_one {rest : Text} (h : Stops isSpace rest) :
    blank.run (' ' :: rest) = some ((), rest) :=
  @blank_run [' '] rest (by simp [isSpace_space]) (fun _ => List.cons_ne_nil _ _) h

theorem firstWord_ne_nil {name : Text} (hne : name ≠ []) (hname : Stops isSpace name) :
    firstWord name ≠ [] := by
  cases name with
  | nil => exact absurd rfl hne
  | cons c cs =>
      have hc : isSpace c = false := hname c cs rfl
      simp [firstWord, hc]

/-- The first word of a name that does not start with a blank. -/
theorem token_firstWord {name : Text} (hne : name ≠ []) (hname : Stops isSpace name) :
    ∃ rest, token.run name = some (firstWord name, rest) := by
  have hword : firstWord name ≠ [] := firstWord_ne_nil hne hname
  have hchars (c : Char) (hc : c ∈ firstWord name) : isSpace c = false := by
    simpa using List.all_eq_true.mp List.all_takeWhile c hc
  have hrest : Stops (fun c => !isSpace c) (name.dropWhile fun c => !isSpace c) := by
    intro c cs heq
    have hhead := List.head?_dropWhile_not (fun c => !isSpace c) name
    simpa [heq] using hhead
  refine ⟨name.dropWhile fun c => !isSpace c, ?_⟩
  have hrun := token_run hword hchars hrest
  rwa [firstWord, List.takeWhile_append_dropWhile] at hrun

/-- **What is scanned from a line.** Nothing where the mapping has no name, and else the
columns, with the first word of the name. -/
theorem fscanfMaps_of_shownBy {m : MapsMapping} {line : Text} (h : m.ShownBy line) :
    fscanfMaps line = if m.name = [] then none else
      some ⟨m.start, m.stop, m.permission, m.offset, m.device, m.inode, firstWord m.name⟩ := by
  obtain ⟨start, stop, offset, inode, pad, hstart, hstop, hperm, hoffset, hdevice, hinode, hpad,
    hne, hname, -, rfl⟩ := h
  have hend : Stops (isDigitOf 10) (pad ++ m.name) := by
    cases pad with
    | nil =>
        have hnil : m.name = [] := by
          by_contra hname
          exact hne hname rfl
        rw [hnil]
        exact stops_nil _
    | cons c pad =>
        rw [hpad c (List.mem_cons_self ..)]
        exact stops_digit_space 10 (pad ++ m.name)
  have hdash : Stops (isDigitOf 16) ('-' :: (stop ++ ' ' :: (m.permission ++ ' ' :: (offset ++
      ' ' :: (m.device ++ ' ' :: (inode ++ (pad ++ m.name))))))) := stops_cons (by decide) _
  have hpads : blank.run (pad ++ m.name) = some ((), m.name) := by
    refine blank_run (fun c hc => ?_) hne hname
    rw [hpad c hc]
    exact isSpace_space
  simp only [List.append_assoc, List.cons_append]
  unfold fscanfMaps scanMapsFields
  rw [StateT.run'_eq, bind_run (hstart.run hdash), bind_run (literal_run '-' _),
    bind_run (hstop.run (stops_digit_space 16 _)), bind_run (blank_run_one (hperm.stops _)),
    bind_run (hperm.run _), bind_run (blank_run_one (hoffset.stops _)),
    bind_run (hoffset.run (stops_digit_space 16 _)), bind_run (blank_run_one (hdevice.stops _)),
    bind_run (hdevice.run _), bind_run (blank_run_one (hinode.stops _)),
    bind_run (hinode.run hend), bind_run hpads]
  split
  · rename_i hnil
    rw [hnil, StateT.run_bind, token_nil]
    rfl
  · rename_i hnamed
    obtain ⟨rest, hrun⟩ := token_firstWord hnamed hname
    rw [bind_run hrun]
    rfl

/-- A line has no line break inside. -/
theorem not_mem_of_shownBy {m : MapsMapping} {line : Text} (h : m.ShownBy line) :
    '\n' ∉ line := by
  have hbreak : isSpace '\n' = true := by decide
  have hword {s : Text} (hs : IsWord s) : '\n' ∉ s := fun hmem => by
    simp [hs.2 _ hmem] at hbreak
  have hnumeral {base : Nat} {s : Text} {value : u64} (hs : IsNumeral base s value) :
      '\n' ∉ s := fun hmem => by
    simp [isSpace_of_isDigitOf (hs.1 _ hmem)] at hbreak
  obtain ⟨start, stop, offset, inode, pad, hstart, hstop, hperm, hoffset, hdevice, hinode, hpad,
    -, -, hname, rfl⟩ := h
  have hpad : '\n' ∉ pad := fun hmem => absurd (hpad _ hmem) (by decide)
  simp [hnumeral hstart, hnumeral hstop, hword hperm, hnumeral hoffset, hword hdevice,
    hnumeral hinode, hpad, hname]

theorem not_mem_of_forall_shownBy {mappings : List MapsMapping} {lines : List Text}
    (h : List.Forall₂ MapsMapping.ShownBy mappings lines) : ∀ line ∈ lines, '\n' ∉ line := by
  induction h with
  | nil => exact List.forall_mem_nil _
  | cons hm _ ih => exact List.forall_mem_cons.mpr ⟨not_mem_of_shownBy hm, ih⟩

end

end Stackplz
