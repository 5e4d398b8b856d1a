import Stackplz.User.HookPoint

/-!
# The form of hook points

A `-w` string has the form `base[+0xhex][[arg,...]][suffix]`. `Parse_HookPoint` cuts the suffix
off, splits the rest at `]` and takes the first match of a regular expression that is not
anchored, so that text beside the match is ignored, and so are some suffixes where there are
two. Of the strings that are accepted, those are taken for what they are that leave nothing to
ignore (`PlainHook`, `hookPoint_exact_iff`).
-/

set_option autoImplicit false

namespace Stackplz

/-! ## Strings by their parts -/

/-- What stands behind the arguments: a suffix or an exit offset. -/
inductive HookEnding where
  | none
  | ret (type : Text)
  | syscall
  | syscallAll
  | exit (offset : Text)

namespace HookEnding

def text : HookEnding → Text
  | none => []
  | ret type => 'r' :: type
  | syscall => ['s']
  | syscallAll => ['s', 's']
  | exit offset => offset

def enableUretprobe : HookEnding → Bool
  | ret _ => true
  | _ => false

def retType : HookEnding → Text
  | ret type => type
  | _ => []

def bindSyscall : HookEnding → Bool
  | syscall | syscallAll => true
  | _ => false

def exitRead : HookEnding → Bool
  | syscallAll | exit _ => true
  | _ => false

def exitOffset : HookEnding → u64
  | exit offset => BitVec.ofNat 64 ((Text.parseUint offset 0 64).getD 0)
  | _ => 0

/-- A return type has no bracket in it, and an exit offset is a number. -/
def WellFormed : HookEnding → Prop
  | ret type => ']' ∉ type
  | exit offset => (Text.parseUint offset 0 64).isSome = true
  | _ => True

end HookEnding

/-- The text of an offset, from its digits. -/
def offText (off : Text) : Text := if off = [] then [] else '+' :: '0' :: 'x' :: off

/-- The text of the arguments, from the text inside the brackets. -/
def argsText : Option Text → Text
  | some inner => '[' :: (inner ++ [']'])
  | none => []

/-- A hook point string by its parts: the base, the digits of the offset, the arguments and
what stands behind them. -/
structure HookString where
  base : Text
  off : Text
  args : Option (List Text)
  ending : HookEnding

namespace HookString

/-- The text inside the brackets. -/
def inner (h : HookString) : Option Text := h.args.map (List.intercalate [','])

def text (h : HookString) : Text :=
  h.base ++ offText h.off ++ argsText h.inner ++ h.ending.text

/-- The base is an address, not a symbol. -/
def isAddress (h : HookString) : Bool := Text.hasPrefix h.base "0x".toList

/-- The value of a hex number. -/
def hexValue (digits : Text) : Option u64 :=
  (Text.parseUint digits 16 64).map (BitVec.ofNat 64)

/-- The parts are what the form says: a symbol or an address, hex digits, arguments without
commas and brackets, and a suffix. -/
structure WellFormed (h : HookString) : Prop where
  base_ne : h.base ≠ []
  base : ∀ c ∈ h.base, Text.isWord c = true
  address : h.isAddress = true → (hexValue (h.base.drop 2)).isSome = true
  off : ∀ c ∈ h.off, Text.isXDigit c = true
  args_ne : h.args ≠ some []
  args : ∀ as, h.args = some as → ∀ a ∈ as, ',' ∉ a ∧ ']' ∉ a
  ending : h.ending.WellFormed

/-- The address that the base stands for; the address of a symbol counts as zero. -/
def baseValue (h : HookString) : u64 :=
  if h.isAddress then (hexValue (h.base.drop 2)).getD 0 else 0

/-- The value of the offset. -/
def offValue (h : HookString) : u64 := (hexValue h.off).getD 0

/-- A point carries every part of the string. -/
structure CarriedBy (h : HookString) (env : ParseEnv) (u : UprobeArgs) : Prop where
  name : u.name = h.base
  symbol : u.symbol = if h.isAddress then [] else h.base
  offset : u.offset = h.baseValue + h.offValue
  argsStr : u.argsStr = h.inner.getD []
  pointArgs : (h.args.getD []).zipIdx.mapM
    (fun x => env.hookArg h.ending.enableUretprobe x.1 x.2) = .ok u.pointArgs
  bindSyscall : u.bindSyscall = h.ending.bindSyscall
  exitRead : u.exitRead = h.ending.exitRead
  exitOffset : u.exitOffset = h.ending.exitOffset
  enableUretprobe : u.enableUretprobe = h.ending.enableUretprobe
  retType : u.retType = h.ending.retType

end HookString

/-- A string has the form of a hook point, and the point carries every part of it. -/
def ParseEnv.Carries (env : ParseEnv) (u : UprobeArgs) (s : Text) : Prop :=
  ∃ h : HookString, h.WellFormed ∧ h.text = s ∧ h.CarriedBy env u

/-- Where the string is accepted, its point carries every part of it. -/
def ParseEnv.IsExact (env : ParseEnv) (lib : LibInfo) (s : Text) (index : Nat) : Prop :=
  ∀ u, env.hookPoint lib s index = .ok u → env.Carries u s

/-! ## Strings that leave nothing to ignore -/

/-- A word and the hex digits of the offset behind it; behind an address there are none, unless it
is zero, for they would take its place. -/
structure PlainBase (base off : Text) : Prop where
  base_ne : base ≠ []
  words : ∀ c ∈ base, Text.isWord c = true
  digits : ∀ c ∈ off, Text.isXDigit c = true
  address : Text.hasPrefix base "0x".toList = true → off ≠ [] →
    HookString.hexValue (base.drop 2) = some 0

/-- There is no text before the base, between the parts or behind them; brackets are closed and not
empty, without a newline or another bracket that closes; and only behind brackets there is a
suffix or an exit offset, one at most. -/
inductive PlainHook : Text → Prop where
  | bare {base off : Text} (hbase : PlainBase base off) : PlainHook (base ++ offText off)
  | bracketed {base off inner : Text} {e : HookEnding} (hbase : PlainBase base off)
      (inner_ne : inner ≠ []) (closed : ']' ∉ inner) (line : '\n' ∉ inner) (he : e.WellFormed) :
      PlainHook (base ++ offText off ++ argsText (some inner) ++ e.text)

/-! ## The pieces that are found -/

/-- What the suffix checks, the split at the bracket and the regular expression find. -/
structure HookPieces where
  suffix : HookSuffix
  text : Text
  exit : Option u64
  name : Text
  off : Text
  args : Option Text

/-- The pieces of a string. -/
def hookPieces (s : Text) : Except Failure HookPieces := do
  let suffix := hookSuffix s
  let (text, exit) ← cutExitOffset suffix.text
  let (name, off, args) ← matchHook text
  return ⟨suffix, text, exit, name, off, args⟩

namespace HookPieces

/-- Nothing of the string is left out: the match is the whole text that was searched, behind
the bracket there is nothing or an exit offset, and then no suffix, brackets are not nested,
and an offset does not take the place of an address. -/
structure Whole (s : Text) (p : HookPieces) : Prop where
  matched : p.text = p.name ++ offText p.off ++ argsText p.args
  ending : p.suffix.text = p.text ∨ p.exit.isSome = true ∧ p.suffix.text = s
  inner : ']' ∉ p.args.getD []
  retType : ']' ∉ p.suffix.retType
  location : Text.hasPrefix p.name "0x".toList = true → p.off ≠ [] →
    HookString.hexValue (p.name.drop 2) = some 0

end HookPieces

/-- A string is accepted with its pieces. -/
theorem hookPoint_eq_ok {env : ParseEnv} {lib : LibInfo} {s : Text} {index : Nat}
    {u : UprobeArgs} :
    env.hookPoint lib s index = .ok u ↔ ∃ p symbol offset pointArgs retArg,
      hookPieces s = .ok p ∧ hookLocation p.name p.off p.text = .ok (symbol, offset) ∧
      env.hookArgs p.suffix.enableUretprobe p.args = .ok pointArgs ∧
      env.hookRetArg p.suffix = .ok retArg ∧
      u = {
        index := BitVec.ofNat 32 index
        enterKey := 0
        lib := lib
        name := p.name
        symbol := symbol
        offset := offset
        argsStr := p.args.getD []
        pointArgs := pointArgs
        retArg := retArg
        retType := p.suffix.retType
        bindSyscall := p.suffix.bindSyscall
        exitRead := p.suffix.exitRead || p.exit.isSome
        exitOffset := p.exit.getD 0
        killSignal := 0
        enableUretprobe := p.suffix.enableUretprobe } := by
  unfold ParseEnv.hookPoint
  simp only [Outcome.bind_eq_ok]
  constructor
  · rintro ⟨⟨text, exit⟩, hcut, ⟨name, off, args⟩, hmatch, ⟨symbol, offset⟩, hloc, pointArgs, hargs,
      retArg, hret, hu⟩
    refine ⟨⟨hookSuffix s, text, exit, name, off, args⟩, symbol, offset, pointArgs, retArg, ?_,
      hloc, hargs, hret, (Except.ok.inj hu).symm⟩
    exact Outcome.bind_eq_ok.mpr ⟨_, hcut, Outcome.bind_eq_ok.mpr ⟨_, hmatch, rfl⟩⟩
  · rintro ⟨p, symbol, offset, pointArgs, retArg, hp, hloc, hargs, hret, rfl⟩
    obtain ⟨⟨text, exit⟩, hcut, hrest⟩ := Outcome.bind_eq_ok.mp hp
    obtain ⟨⟨name, off, args⟩, hmatch, hpieces⟩ := Outcome.bind_eq_ok.mp hrest
    obtain rfl := Except.ok.inj hpieces
    exact ⟨(text, exit), hcut, (name, off, args), hmatch, (symbol, offset), hloc, pointArgs, hargs,
      retArg, hret, rfl⟩

theorem hookPieces_eq_ok {s : Text} {p : HookPieces} :
    hookPieces s = .ok p ↔ p.suffix = hookSuffix s ∧
      cutExitOffset p.suffix.text = .ok (p.text, p.exit) ∧
      hookGroups p.text = some (p.name, p.off, p.args) := by
  have hmatch {text : Text} {groups : Text × Text × Option Text} :
      matchHook text = .ok groups ↔ hookGroups text = some groups := by
    unfold matchHook
    cases hookGroups text with
    | none => exact ⟨nofun, nofun⟩
    | some found => exact ⟨fun h => congrArg some (Except.ok.inj h),
        fun h => congrArg Except.ok (Option.some.inj h)⟩
  unfold hookPieces
  simp only [Outcome.bind_eq_ok, hmatch]
  constructor
  · rintro ⟨⟨text, exit⟩, hcut, ⟨name, off, args⟩, hgroups, hp⟩
    obtain rfl := Except.ok.inj hp
    exact ⟨rfl, hcut, hgroups⟩
  · rintro ⟨hsuffix, hcut, hgroups⟩
    rw [← hsuffix]
    exact ⟨(p.text, p.exit), hcut, (p.name, p.off, p.args), hgroups, rfl⟩

/-! ## What the pieces are -/

theorem hookLocation_spec {name off text symbol : Text} {offset : u64}
    (h : hookLocation name off text = .ok (symbol, offset)) :
    symbol = (if Text.hasPrefix name "0x".toList then [] else name) ∧
      (Text.hasPrefix name "0x".toList = true →
        (HookString.hexValue (name.drop 2)).isSome = true) ∧
      offset = if off = [] then
          if Text.hasPrefix name "0x".toList then (HookString.hexValue (name.drop 2)).getD 0 else 0
        else (HookString.hexValue off).getD 0 := by
  have hparse {digits text : Text} {value : u64} (hv : parseOffset digits 16 text = .ok value) :
      HookString.hexValue digits = some value := by
    unfold parseOffset at hv
    unfold HookString.hexValue
    cases hd : Text.parseUint digits 16 64 with
    | none =>
        rw [hd] at hv
        cases hv
    | some n =>
        rw [hd] at hv
        exact congrArg some (Except.ok.inj hv)
  unfold hookLocation at h
  split at h
  · rename_i hstarts
    obtain ⟨base, hbase, hrest⟩ := Outcome.bind_eq_ok.mp h
    have hdrop : Text.trimPrefix name "0x".toList = name.drop 2 := if_pos hstarts
    rw [hdrop] at hbase
    rw [if_pos hstarts, if_pos hstarts, hparse hbase]
    dsimp only at hrest
    split at hrest
    · rename_i hoff
      obtain ⟨rfl, rfl⟩ := Prod.mk.inj (Except.ok.inj hrest)
      rw [if_pos hoff]
      exact ⟨rfl, fun _ => rfl, rfl⟩
    · rename_i hoff
      obtain ⟨value, hvalue, hloc⟩ := Outcome.bind_eq_ok.mp hrest
      obtain ⟨rfl, rfl⟩ := Prod.mk.inj (Except.ok.inj hloc)
      rw [if_neg hoff, hparse hvalue]
      exact ⟨rfl, fun _ => rfl, rfl⟩
  · rename_i hstarts
    rw [if_neg hstarts, if_neg hstarts]
    dsimp only at h
    split at h
    · rename_i hoff
      obtain ⟨rfl, rfl⟩ := Prod.mk.inj (Except.ok.inj h)
      rw [if_pos hoff]
      exact ⟨rfl, fun hp => absurd hp hstarts, rfl⟩
    · rename_i hoff
      obtain ⟨value, hvalue, hloc⟩ := Outcome.bind_eq_ok.mp h
      obtain ⟨rfl, rfl⟩ := Prod.mk.inj (Except.ok.inj hloc)
      rw [if_neg hoff, hparse hvalue]
      exact ⟨rfl, fun hp => absurd hp hstarts, rfl⟩

/-- The name is a word and the offset is made of hex digits. -/
theorem hookGroups_spec {s name off : Text} {args : Option Text}
    (h : hookGroups s = some (name, off, args)) :
    name ≠ [] ∧ (∀ c ∈ name, Text.isWord c = true) ∧ ∀ c ∈ off, Text.isXDigit c = true := by
  unfold hookGroups at h
  dsimp only at h
  split at h
  · cases h
  · rename_i hstart
    obtain ⟨rfl, hrest⟩ := Prod.mk.inj (Option.some.inj h)
    obtain ⟨rfl, -⟩ := Prod.mk.inj hrest
    refine ⟨fun hnil => ?_, fun c hc => List.all_eq_true.mp List.all_takeWhile c hc,
      fun c hc => ?_⟩
    · -- the text that is searched starts with a word character
      cases hcase : s.dropWhile fun c => !Text.isWord c with
      | nil => exact hstart hcase
      | cons c cs =>
          have hword : Text.isWord c = true := by
            have hhead := List.head?_dropWhile_not (fun c => !Text.isWord c) s
            rw [hcase] at hhead
            simpa using hhead
          rw [hcase, List.takeWhile_cons_of_pos hword] at hnil
          cases hnil
    · split at hc
      · exact List.all_eq_true.mp List.all_takeWhile c hc
      · exact absurd hc List.not_mem_nil

/-- The return type that is cut off. -/
theorem cutRetType_spec (s : Text) : cutRetType s = (s, none) ∨
    ∃ front type, type ≠ [] ∧ s = front ++ ']' :: 'r' :: type ∧
      cutRetType s = (front ++ [']'], some type) := by
  unfold cutRetType
  split
  · rename_i idx hidx
    split
    · rename_i hlt
      obtain ⟨type, htype⟩ := Text.lastIndexOf_eq_some hidx
      have htype : s.drop idx = ']' :: 'r' :: type := htype
      have hlen : (s.take idx).length = idx := by
        rw [List.length_take]
        omega
      have hs : s = s.take idx ++ ']' :: 'r' :: type := by
        rw [← htype, List.take_append_drop]
      have htake : s.take (idx + 1) = s.take idx ++ [']'] := by
        rw [List.take_add, htype]
        rfl
      have hdrop : s.drop (idx + 2) = type := by
        rw [← List.drop_drop, htype]
        rfl
      refine Or.inr ⟨s.take idx, type, ?_, hs, by rw [htake, hdrop]⟩
      rintro rfl
      rw [hs, List.length_append, hlen] at hlt
      exact absurd hlt (Nat.lt_irrefl _)
    · exact Or.inl rfl
  · exact Or.inl rfl

theorem hasSuffix_concat {front suf : Text} {c d : Char}
    (h : Text.hasSuffix (front ++ [c]) (suf ++ [d]) = true) : c = d := by
  obtain ⟨front', heq⟩ := Text.hasSuffix_iff.mp h
  have hlast := congrArg List.getLast? heq
  rw [← List.append_assoc, List.getLast?_concat, List.getLast?_concat] at hlast
  exact Option.some.inj hlast

/-- A letter behind the text is not the last one of another suffix. -/
theorem hasSuffix_differ {s suf : Text} {c d : Char} (hcd : c ≠ d) :
    Text.hasSuffix (s ++ [c]) (suf ++ [d]) = false :=
  Bool.eq_false_of_not_eq_true fun h => hcd (hasSuffix_concat h)

/-- A text that ends in a bracket has no suffix. -/
theorem hookLetters_bracket (front : Text) :
    Text.hasSuffix (front ++ [']']) "ss".toList = false ∧
      Text.hasSuffix (front ++ [']']) "r".toList = false ∧
      Text.hasSuffix (front ++ [']']) "s".toList = false :=
  ⟨@hasSuffix_differ front ['s'] ']' 's' (by decide),
    @hasSuffix_differ front [] ']' 'r' (by decide), @hasSuffix_differ front [] ']' 's' (by decide)⟩

/-- Without a return type only the letters at the end count. -/
theorem hookSuffix_untyped {s : Text} (h : cutRetType s = (s, none)) : hookSuffix s =
    if Text.hasSuffix s "ss".toList && s.contains ']' then
      ⟨Text.dropLast s 2, false, [], true, true⟩
    else if Text.hasSuffix s "r".toList && s.contains ']' then
      ⟨Text.dropLast s 1, true, [], false, false⟩
    else if Text.hasSuffix s "s".toList && s.contains ']' then
      ⟨Text.dropLast s 1, false, [], true, false⟩
    else ⟨s, false, [], false, false⟩ := by
  unfold hookSuffix
  rw [h]
  rfl

/-- The suffix that is cut off. -/
theorem hookSuffix_spec (s : Text) : ∃ e : HookEnding, s = (hookSuffix s).text ++ e.text ∧
    hookSuffix s =
      ⟨(hookSuffix s).text, e.enableUretprobe, e.retType, e.bindSyscall, e.exitRead⟩ ∧
    ∀ offset, e ≠ .exit offset := by
  have hcut {suf : Text} (h : Text.hasSuffix s suf = true) :
      s = Text.dropLast s suf.length ++ suf := by
    obtain ⟨front, rfl⟩ := Text.hasSuffix_iff.mp h
    rw [Text.dropLast_append]
  rcases cutRetType_spec s with hnone | ⟨front, type, -, hs, hsome⟩
  · unfold hookSuffix
    rw [hnone]
    dsimp only
    split
    · rename_i h
      exact ⟨.syscallAll, hcut (Bool.and_eq_true_iff.mp h).1, rfl, fun _ => nofun⟩
    · split
      · rename_i h
        exact ⟨.ret [], hcut (Bool.and_eq_true_iff.mp h).1, rfl, fun _ => nofun⟩
      · split
        · rename_i h
          exact ⟨.syscall, hcut (Bool.and_eq_true_iff.mp h).1, rfl, fun _ => nofun⟩
        · exact ⟨.none, (List.append_nil s).symm, rfl, fun _ => nofun⟩
  · obtain ⟨hss, hr, hss'⟩ := hookLetters_bracket front
    have hsuffix : hookSuffix s = ⟨front ++ [']'], true, type, false, false⟩ := by
      unfold hookSuffix
      rw [hsome]
      dsimp only
      rw [hss, hr, hss']
      rfl
    refine ⟨.ret type, ?_, ?_, fun _ => nofun⟩
    · rw [hsuffix, hs]
      simp [HookEnding.text]
    · rw [hsuffix]
      rfl

/-- The exit offset that is cut off. -/
theorem cutExitOffset_spec {s text : Text} {exit : Option u64}
    (h : cutExitOffset s = .ok (text, exit)) : exit = none ∨
      ∃ back v, back ≠ [] ∧ s = text ++ back ∧ Text.parseUint back 0 64 = some v ∧
        exit = some (BitVec.ofNat 64 v) := by
  unfold cutExitOffset at h
  split at h
  · rename_i front back hsplit
    split at h
    · obtain ⟨-, rfl⟩ := Prod.mk.inj (Except.ok.inj h)
      exact Or.inl rfl
    · rename_i hback
      split at h
      · rename_i v hv
        obtain ⟨rfl, rfl⟩ := Prod.mk.inj (Except.ok.inj h)
        refine Or.inr ⟨back, v, fun hnil => hback (Or.inl hnil), ?_, hv, rfl⟩
        rw [Text.splitOn_eq_pair hsplit, List.append_assoc]
        rfl
      · cases h
  · obtain ⟨-, rfl⟩ := Prod.mk.inj (Except.ok.inj h)
    exact Or.inl rfl

/-! ## What is found in a string of the form -/

theorem contains_bracket (front back : Text) : (front ++ ']' :: back).contains ']' = true := by
  rw [List.contains_iff_mem, List.mem_append]
  exact Or.inr (List.mem_cons_self ..)

theorem not_mem_of_parseUint {offset : Text} {v : Nat} (hv : Text.parseUint offset 0 64 = some v)
    {c : Char} (hc : Text.isLiteral c = false) : c ∉ offset := by
  intro hmem
  rw [(Text.parseUint_isLiteral hv).2 c hmem] at hc
  cases hc

section Closed

variable {front : Text} (hfront : ']' ∉ front)
include hfront

/-- A return type behind the only bracket is cut off. -/
theorem cutRetType_typed {c : Char} {cs : Text} (htype : ']' ∉ c :: cs) :
    cutRetType (front ++ ']' :: 'r' :: c :: cs) = (front ++ [']'], some (c :: cs)) := by
  have hback : ']' ∉ 'r' :: c :: cs := fun hmem => (List.mem_cons.mp hmem).elim (by decide) htype
  have hstarts : Text.hasPrefix ('r' :: c :: cs) ['r'] = true :=
    Text.hasPrefix_iff.mpr ⟨c :: cs, rfl⟩
  have hlt : front.length + 2 < (front ++ ']' :: 'r' :: c :: cs).length := by
    rw [List.length_append, List.length_cons, List.length_cons, List.length_cons]
    omega
  have htake : (front ++ ']' :: 'r' :: c :: cs).take (front.length + 1) = front ++ [']'] := by
    rw [List.take_length_add_append]
    rfl
  have hdrop : (front ++ ']' :: 'r' :: c :: cs).drop (front.length + 2) = c :: cs := by
    rw [List.drop_length_add_append]
    rfl
  unfold cutRetType
  rw [show "]r".toList = [']', 'r'] from rfl, Text.lastIndexOf_unique hfront hback ['r'],
    if_pos hstarts]
  dsimp only
  rw [if_pos hlt, htake, hdrop]

/-- Nothing else behind the only bracket is a return type. -/
theorem cutRetType_untyped {back : Text} (hback : ']' ∉ back)
    (hno : ∀ c cs, back ≠ 'r' :: c :: cs) :
    cutRetType (front ++ ']' :: back) = (front ++ ']' :: back, none) := by
  unfold cutRetType
  rw [show "]r".toList = [']', 'r'] from rfl, Text.lastIndexOf_unique hfront hback ['r']]
  split
  · rename_i idx hidx
    split at hidx
    · rename_i hstarts
      obtain ⟨cs, rfl⟩ := Text.hasPrefix_iff.mp hstarts
      cases cs with
      | nil =>
          -- behind the letter there is no type
          obtain rfl := Option.some.inj hidx
          rw [if_neg]
          rw [List.length_append]
          exact Nat.lt_irrefl _
      | cons c cs => exact absurd rfl (hno c cs)
    · cases hidx
  · rfl

/-- The suffix of a string of the form is cut off. -/
theorem hookSuffix_closed {e : HookEnding} (he : e.WellFormed)
    (hexit : ∀ offset, e ≠ .exit offset) :
    hookSuffix (front ++ ']' :: e.text) =
      ⟨front ++ [']'], e.enableUretprobe, e.retType, e.bindSyscall, e.exitRead⟩ := by
  obtain ⟨hssBracket, hrBracket, hsBracket⟩ := hookLetters_bracket front
  cases e with
  | exit offset => exact absurd rfl (hexit offset)
  | none =>
      show hookSuffix (front ++ [']']) = _
      rw [hookSuffix_untyped (cutRetType_untyped hfront List.not_mem_nil nofun), hssBracket,
        hrBracket, hsBracket]
      rfl
  | ret type =>
      cases type with
      | nil =>
          have hcut := cutRetType_untyped hfront (show ']' ∉ ['r'] by decide) nofun
          have hsplit : front ++ [']', 'r'] = (front ++ [']']) ++ ['r'] := by simp
          have hss : Text.hasSuffix (front ++ [']', 'r']) "ss".toList = false := by
            rw [hsplit]
            exact @hasSuffix_differ (front ++ [']']) ['s'] 'r' 's' (by decide)
          have hr : Text.hasSuffix (front ++ [']', 'r']) "r".toList = true :=
            Text.hasSuffix_iff.mpr ⟨front ++ [']'], hsplit⟩
          show hookSuffix (front ++ [']', 'r']) = _
          rw [hookSuffix_untyped hcut, hss, hr, contains_bracket, hsplit]
          exact congrArg (fun t => HookSuffix.mk t true [] false false)
            (Text.dropLast_append (front ++ [']']) ['r'])
      | cons c cs =>
          unfold hookSuffix
          rw [show (HookEnding.ret (c :: cs)).text = 'r' :: c :: cs from rfl,
            cutRetType_typed hfront he]
          dsimp only
          rw [hssBracket, hrBracket, hsBracket]
          rfl
  | syscall =>
      have hcut := cutRetType_untyped hfront (show ']' ∉ ['s'] by decide) nofun
      have hsplit : front ++ [']', 's'] = (front ++ [']']) ++ ['s'] := by simp
      -- the letter before the last one is the bracket
      have hss : Text.hasSuffix (front ++ [']', 's']) "ss".toList = false := by
        refine Bool.eq_false_of_not_eq_true fun h => ?_
        obtain ⟨front', heq⟩ := Text.hasSuffix_iff.mp h
        have hlast := congrArg (fun t : Text => (List.dropLast t).getLast?) heq
        simp at hlast
      have hr : Text.hasSuffix (front ++ [']', 's']) "r".toList = false := by
        rw [hsplit]
        exact @hasSuffix_differ (front ++ [']']) [] 's' 'r' (by decide)
      have hs : Text.hasSuffix (front ++ [']', 's']) "s".toList = true :=
        Text.hasSuffix_iff.mpr ⟨front ++ [']'], hsplit⟩
      show hookSuffix (front ++ [']', 's']) = _
      rw [hookSuffix_untyped hcut, hss, hr, hs, contains_bracket, hsplit]
      exact congrArg (fun t => HookSuffix.mk t false [] true false)
        (Text.dropLast_append (front ++ [']']) ['s'])
  | syscallAll =>
      have hcut := cutRetType_untyped hfront (show ']' ∉ ['s', 's'] by decide) nofun
      have hsplit : front ++ [']', 's', 's'] = (front ++ [']']) ++ ['s', 's'] := by simp
      have hss : Text.hasSuffix (front ++ [']', 's', 's']) "ss".toList = true :=
        Text.hasSuffix_iff.mpr ⟨front ++ [']'], hsplit⟩
      show hookSuffix (front ++ [']', 's', 's']) = _
      rw [hookSuffix_untyped hcut, hss, contains_bracket, hsplit]
      exact congrArg (fun t => HookSuffix.mk t false [] true true)
        (Text.dropLast_append (front ++ [']']) ['s', 's'])

/-- An exit offset ends in no suffix. -/
theorem hookSuffix_exit {offset : Text} {v : Nat} (hv : Text.parseUint offset 0 64 = some v) :
    hookSuffix (front ++ ']' :: offset) = ⟨front ++ ']' :: offset, false, [], false, false⟩ := by
  have hnot {c : Char} (hc : Text.isLiteral c = false) : c ∉ offset :=
    not_mem_of_parseUint hv hc
  have hcut : cutRetType (front ++ ']' :: offset) = (front ++ ']' :: offset, none) := by
    refine cutRetType_untyped hfront (hnot (by decide)) ?_
    rintro c cs rfl
    exact hnot (show Text.isLiteral 'r' = false by decide) (List.mem_cons_self ..)
  -- the last character is one of a number
  have hlast {suf : Text} {d : Char} (hd : Text.isLiteral d = false) :
      Text.hasSuffix (front ++ ']' :: offset) (suf ++ [d]) = false := by
    obtain ⟨hne, hliteral⟩ := Text.parseUint_isLiteral hv
    have hsplit : front ++ ']' :: offset =
        (front ++ ']' :: List.dropLast offset) ++ [offset.getLast hne] := by
      rw [List.append_assoc, List.cons_append, List.dropLast_append_getLast]
    rw [hsplit]
    refine hasSuffix_differ fun heq => ?_
    have hmem := hliteral _ (List.getLast_mem hne)
    rw [heq, hd] at hmem
    cases hmem
  have hss := @hlast ['s'] 's' (by decide)
  have hr := @hlast [] 'r' (by decide)
  have hs := @hlast [] 's' (by decide)
  rw [hookSuffix_untyped hcut, show "ss".toList = ['s'] ++ ['s'] from rfl,
    show "r".toList = [] ++ ['r'] from rfl, show "s".toList = [] ++ ['s'] from rfl, hss, hr, hs]
  rfl

theorem cutExitOffset_bracket :
    cutExitOffset (front ++ [']']) = .ok (front ++ [']'], none) := by
  unfold cutExitOffset
  rw [Text.splitOn_append hfront, Text.splitOn_of_not_mem List.not_mem_nil]
  rfl

/-- A number behind the bracket is cut off. -/
theorem cutExitOffset_exit {offset : Text} {v : Nat} (hv : Text.parseUint offset 0 64 = some v) :
    cutExitOffset (front ++ ']' :: offset) =
      .ok (front ++ [']'], some (BitVec.ofNat 64 v)) := by
  have hnot {c : Char} (hc : Text.isLiteral c = false) : c ∉ offset :=
    not_mem_of_parseUint hv hc
  have hletters : ¬(offset = [] ∨ offset = "r".toList ∨ offset = "s".toList ∨
      offset = "ss".toList) := by
    rintro (hnil | hr | hs | hss)
    · exact (Text.parseUint_isLiteral hv).1 hnil
    · exact hnot (c := 'r') (by decide) (by rw [hr]; decide)
    · exact hnot (c := 's') (by decide) (by rw [hs]; decide)
    · exact hnot (c := 's') (by decide) (by rw [hss]; decide)
  unfold cutExitOffset
  rw [Text.splitOn_append hfront, Text.splitOn_of_not_mem (hnot (by decide))]
  dsimp only
  rw [if_neg hletters, hv]

end Closed

theorem untilBracket_closed {cs : Text} (hcs : ']' ∉ cs) :
    untilBracket (cs ++ [']']) = if '\n' ∈ cs then none else some cs := by
  induction cs with
  | nil => rfl
  | cons c cs ih =>
      obtain ⟨hc, hcs⟩ := not_or.mp (mt List.mem_cons.mpr hcs)
      rw [List.cons_append, untilBracket, if_neg (Ne.symm hc), ih hcs]
      by_cases hline : c = '\n'
      · rw [if_pos hline, if_pos (List.mem_cons.mpr (Or.inl hline.symm))]
      · rw [if_neg hline]
        by_cases hmem : '\n' ∈ cs
        · rw [if_pos hmem, if_pos (List.mem_cons_of_mem c hmem)]
          rfl
        · rw [if_neg hmem, if_neg fun hcons =>
            (List.mem_cons.mp hcons).elim (fun heq => hline heq.symm) hmem]
          rfl

/-- The text inside the brackets, where a text starts with them. -/
def bracketText : Text → Option Text
  | '[' :: c :: cs => if c = '\n' then none else (untilBracket cs).map (c :: ·)
  | _ => none

/-- Arguments are found unless the brackets are empty or there is a newline inside. -/
theorem bracketText_argsText {inner : Text} (hinner : ']' ∉ inner) :
    bracketText (argsText (some inner)) =
      if inner = [] ∨ '\n' ∈ inner then none else some inner := by
  cases inner with
  | nil => rfl
  | cons c cs =>
      have hcs : ']' ∉ cs := fun hmem => hinner (List.mem_cons_of_mem c hmem)
      show (if c = '\n' then none else (untilBracket (cs ++ [']'])).map (c :: ·)) = _
      rw [untilBracket_closed hcs]
      by_cases hline : c = '\n'
      · rw [if_pos hline, if_pos (Or.inr (List.mem_cons.mpr (Or.inl hline.symm)))]
      · rw [if_neg hline]
        by_cases hmem : '\n' ∈ cs
        · rw [if_pos hmem, if_pos (Or.inr (List.mem_cons_of_mem c hmem))]
          rfl
        · rw [if_neg hmem, if_neg]
          · rfl
          · rintro (hnil | hcons)
            · exact List.cons_ne_nil _ _ hnil
            · exact (List.mem_cons.mp hcons).elim (fun heq => hline heq.symm) hmem

section Groups

variable {base off : Text} (hne : base ≠ []) (hbase : ∀ c ∈ base, Text.isWord c = true)
  (hoff : ∀ c ∈ off, Text.isXDigit c = true)
include hne hbase hoff

/-- Name and offset are found, and the arguments are looked for behind them. -/
theorem hookGroups_append {tail : Text} (htail : ∀ c cs, tail = c :: cs → c = '[') :
    hookGroups (base ++ offText off ++ tail) = some (base, off, bracketText tail) := by
  obtain ⟨c, cs, rfl⟩ := List.exists_cons_of_ne_nil hne
  have hbehind : ∀ d ds, offText off ++ tail = d :: ds → Text.isWord d = false := by
    intro d ds heq
    unfold offText at heq
    split at heq
    · rw [htail d ds heq]
      rfl
    · rw [← (List.cons.inj heq).1]
      rfl
  have htailDigit : ∀ d ds, tail = d :: ds → Text.isXDigit d = false := by
    intro d ds heq
    rw [htail d ds heq]
    rfl
  obtain ⟨htake, hdrop⟩ := Text.span_append hbase hbehind
  -- the match starts at the first character
  have hstart : (c :: (cs ++ (offText off ++ tail))).dropWhile (fun c => !Text.isWord c) =
      c :: (cs ++ (offText off ++ tail)) := by
    rw [List.dropWhile_cons_of_neg]
    rw [hbase c (List.mem_cons_self ..)]
    decide
  rw [List.cons_append] at htake hdrop
  unfold hookGroups
  rw [List.append_assoc, List.cons_append, hstart]
  dsimp only
  rw [if_neg (List.cons_ne_nil _ _), htake, hdrop]
  by_cases hnil : off = []
  · have hoffText : offText off ++ tail = tail := by
      rw [offText, if_pos hnil]
      rfl
    rw [hoffText, hnil]
    cases tail with
    | nil => rfl
    | cons d ds =>
        obtain rfl := htail d ds rfl
        rfl
  · have hoffText : offText off ++ tail = '+' :: '0' :: 'x' :: (off ++ tail) := by
      rw [offText, if_neg hnil]
      rfl
    have hdrop : ('+' :: '0' :: 'x' :: (off ++ tail)).drop (off.length + 3) = tail := by
      show (off ++ tail).drop off.length = tail
      exact List.drop_left
    have hdigits : (off ++ tail).takeWhile Text.isXDigit = off :=
      (Text.span_append hoff htailDigit).1
    rw [hoffText]
    show some (c :: cs, (off ++ tail).takeWhile Text.isXDigit,
      bracketText (if (off ++ tail).takeWhile Text.isXDigit = [] then _
        else ('+' :: '0' :: 'x' :: (off ++ tail)).drop
          (((off ++ tail).takeWhile Text.isXDigit).length + 3))) = _
    rw [hdigits, if_neg hnil, hdrop]

end Groups

theorem HookEnding.not_bracket_mem_text {e : HookEnding} (he : e.WellFormed) : ']' ∉ e.text := by
  cases e with
  | none => exact List.not_mem_nil
  | ret type => exact fun hmem => (List.mem_cons.mp hmem).elim (by decide) he
  | syscall => decide
  | syscallAll => decide
  | exit offset =>
      obtain ⟨v, hv⟩ := Option.isSome_iff_exists.mp he
      exact not_mem_of_parseUint hv (by decide)

theorem HookEnding.not_bracket_mem_retType {e : HookEnding} (he : e.WellFormed) :
    ']' ∉ e.retType := by
  cases e with
  | ret type => exact he
  | _ => exact List.not_mem_nil

theorem HookEnding.eq_none {e : HookEnding} (huret : e.enableUretprobe = false)
    (hbind : e.bindSyscall = false) (hread : e.exitRead = false) : e = .none := by
  cases e with
  | none => rfl
  | ret type => cases huret
  | syscall => cases hbind
  | syscallAll => cases hbind
  | exit offset => cases hread

section Pieces

variable {base off : Text} (hne : base ≠ []) (hbase : ∀ c ∈ base, Text.isWord c = true)
  (hoff : ∀ c ∈ off, Text.isXDigit c = true)
include hbase hoff

/-- Neither bracket is in the base or the offset. -/
theorem not_mem_location {c : Char} (hword : Text.isWord c = false)
    (hdigit : Text.isXDigit c = false) (hplus : c ∉ ['+', '0', 'x']) : c ∉ base ++ offText off := by
  intro hmem
  rcases List.mem_append.mp hmem with hmem | hmem
  · rw [hbase c hmem] at hword
    cases hword
  · unfold offText at hmem
    split at hmem
    · exact List.not_mem_nil hmem
    · have hcases : c ∈ ['+', '0', 'x'] ∨ c ∈ off := List.mem_append.mp hmem
      rcases hcases with hprefix | hmem
      · exact hplus hprefix
      · rw [hoff c hmem] at hdigit
        cases hdigit

include hne

/-- What is found where the string has arguments. -/
theorem hookPieces_bracketed {inner : Text} (hinner : ']' ∉ inner) {e : HookEnding}
    (he : e.WellFormed) {s : Text} (hs : base ++ offText off ++ argsText (some inner) ++ e.text = s)
    {p : HookPieces} (hp : hookPieces s = .ok p) :
    p.text = base ++ offText off ++ argsText (some inner) ∧ p.name = base ∧
      p.off = off ∧ p.args = (if inner = [] ∨ '\n' ∈ inner then none else some inner) ∧
      p.suffix.retType = e.retType ∧
      (p.suffix.text = p.text ∨ p.exit.isSome = true ∧ p.suffix.text = s) := by
  have hfront : ']' ∉ base ++ offText off ++ '[' :: inner := by
    intro hmem
    rcases List.mem_append.mp hmem with hlocation | hcons
    · exact not_mem_location hbase hoff (by decide) (by decide) (by decide) hlocation
    · rcases List.mem_cons.mp hcons with hopen | hmem
      · exact absurd hopen (by decide)
      · exact hinner hmem
  have hform : base ++ offText off ++ argsText (some inner) =
      (base ++ offText off ++ '[' :: inner) ++ [']'] := by
    simp [argsText]
  have htext : s = (base ++ offText off ++ '[' :: inner) ++ ']' :: e.text := by
    rw [← hs, hform, List.append_assoc _ [']']]
    rfl
  obtain ⟨hsuffix, hcut, hgroups⟩ := hookPieces_eq_ok.mp hp
  -- the text that is searched ends in the bracket
  have hsearch : p.text = (base ++ offText off ++ '[' :: inner) ++ [']'] ∧
      p.suffix.retType = e.retType ∧
      (p.suffix.text = p.text ∨ p.exit.isSome = true ∧ p.suffix.text = s) := by
    by_cases hexit : ∃ offset, e = .exit offset
    · obtain ⟨offset, rfl⟩ := hexit
      obtain ⟨v, hv⟩ := Option.isSome_iff_exists.mp he
      rw [show (HookEnding.exit offset).text = offset from rfl] at htext
      rw [htext, hookSuffix_exit hfront hv] at hsuffix
      rw [hsuffix, cutExitOffset_exit hfront hv] at hcut
      obtain ⟨hsearch, hexit⟩ := Prod.mk.inj (Except.ok.inj hcut)
      rw [htext, hsuffix, ← hexit]
      exact ⟨hsearch.symm, rfl, Or.inr ⟨rfl, rfl⟩⟩
    · have hnone : ∀ offset, e ≠ .exit offset := fun offset hending => hexit ⟨offset, hending⟩
      rw [htext, hookSuffix_closed hfront he hnone] at hsuffix
      rw [hsuffix, cutExitOffset_bracket hfront] at hcut
      obtain ⟨hsearch, -⟩ := Prod.mk.inj (Except.ok.inj hcut)
      rw [hsuffix]
      exact ⟨hsearch.symm, rfl, Or.inl hsearch⟩
  obtain ⟨hsearch, hret, hending⟩ := hsearch
  rw [hsearch, ← hform, hookGroups_append hne hbase hoff, bracketText_argsText hinner] at hgroups
  · obtain ⟨hname, hrest⟩ := Prod.mk.inj (Option.some.inj hgroups)
    obtain ⟨hoff, hargs⟩ := Prod.mk.inj hrest
    exact ⟨hsearch.trans hform.symm, hname.symm, hoff.symm, hargs.symm, hret, hending⟩
  · intro c cs heq
    exact (List.cons.inj heq).1.symm

/-- What is found where the string is a base and an offset. -/
theorem hookGroups_bare : hookGroups (base ++ offText off) = some (base, off, none) := by
  have hfound : hookGroups (base ++ offText off ++ []) = some (base, off, none) :=
    hookGroups_append hne hbase hoff nofun
  rwa [List.append_nil] at hfound

end Pieces

/-- Without a bracket no suffix and no exit offset is found. -/
theorem hookPieces_unbracketed {s : Text} (hmem : ']' ∉ s) {p : HookPieces}
    (hp : hookPieces s = .ok p) :
    p.suffix = ⟨s, false, [], false, false⟩ ∧ p.text = s ∧ p.exit = none := by
  have hcut : cutRetType s = (s, none) := by
    rcases cutRetType_spec s with hnone | ⟨front, type, -, heq, -⟩
    · exact hnone
    · rw [heq] at hmem
      exact absurd (List.mem_append.mpr (Or.inr (List.mem_cons_self ..))) hmem
  have hcontains : s.contains ']' = false := by
    rw [← Bool.not_eq_true, List.contains_iff_mem]
    exact hmem
  obtain ⟨hsuffix, hexit, -⟩ := hookPieces_eq_ok.mp hp
  have hsuffix : p.suffix = ⟨s, false, [], false, false⟩ := by
    rw [hsuffix, hookSuffix_untyped hcut, hcontains]
    simp only [Bool.and_false]
    rfl
  rw [hsuffix, cutExitOffset, Text.splitOn_of_not_mem hmem] at hexit
  obtain ⟨htext, hnone⟩ := Prod.mk.inj (Except.ok.inj hexit)
  exact ⟨hsuffix, htext.symm, hnone.symm⟩

/-- The text inside the brackets of a string has no bracket that closes. -/
theorem HookString.not_bracket_mem_inner {h : HookString} (hwf : h.WellFormed) {inner : Text}
    (hinner : h.inner = some inner) : ']' ∉ inner := by
  obtain ⟨as, has, rfl⟩ := Option.map_eq_some_iff.mp hinner
  intro hmem
  rcases Text.mem_intercalate hmem with hcomma | ⟨a, ha, hmem⟩
  · exact absurd hcomma (by decide)
  · exact (hwf.args as has a ha).2 hmem

/-! ## When the point is what the string says -/

section Exact

variable {env : ParseEnv} {lib : LibInfo} {s : Text} {index : Nat} {u : UprobeArgs}
  {p : HookPieces}

theorem hookArgs_pieces (env : ParseEnv) (uret : Bool) (args : Option Text) :
    env.hookArgs uret args = ((args.map (Text.splitOn ',')).getD []).zipIdx.mapM
      fun x => env.hookArg uret x.1 x.2 := by
  cases args with
  | none => rfl
  | some inner => rfl

/-- The ending of a string, where nothing of it is left out. -/
theorem HookPieces.Whole.exists_ending (hwhole : p.Whole s) (hp : hookPieces s = .ok p) :
    ∃ e : HookEnding, e.WellFormed ∧ s = p.text ++ e.text ∧
      e.enableUretprobe = p.suffix.enableUretprobe ∧ e.retType = p.suffix.retType ∧
      e.bindSyscall = p.suffix.bindSyscall ∧
      e.exitRead = (p.suffix.exitRead || p.exit.isSome) ∧ e.exitOffset = p.exit.getD 0 := by
  obtain ⟨hsuffix, hcut, -⟩ := hookPieces_eq_ok.mp hp
  obtain ⟨e, htext, hflags, hexit⟩ := hookSuffix_spec s
  rw [← hsuffix] at htext hflags
  rcases cutExitOffset_spec hcut with hnone | ⟨back, v, hback, hsplit, hv, hsome⟩
  · -- there is no exit offset: the ending is the suffix
    have hmatched : p.suffix.text = p.text :=
      hwhole.ending.resolve_right fun ⟨hsome, _⟩ => by
        rw [hnone] at hsome
        cases hsome
    have hret : e.retType = p.suffix.retType := by rw [hflags]
    refine ⟨e, ?_, by rw [← hmatched, ← htext], by rw [hflags], hret, by rw [hflags], ?_, ?_⟩
    · cases e with
      | ret type =>
          have hno := hwhole.retType
          rwa [← hret] at hno
      | exit offset => exact absurd rfl (hexit offset)
      | _ => trivial
    · rw [hflags, hnone]
      exact (Bool.or_false _).symm
    · rw [hnone]
      cases e with
      | exit offset => exact absurd rfl (hexit offset)
      | _ => rfl
  · -- the ending is the exit offset: there is no suffix
    have hall : p.suffix.text = s := by
      rcases hwhole.ending with hmatched | ⟨-, hall⟩
      · rw [hmatched] at hsplit
        exact absurd (List.self_eq_append_right.mp hsplit) hback
      · exact hall
    have hend : e = .none := by
      rw [hall] at htext
      have hnil := List.self_eq_append_right.mp htext
      cases e with
      | none => rfl
      | exit offset => exact absurd rfl (hexit offset)
      | _ => cases hnil
    rw [hend] at hflags
    refine ⟨.exit back, Option.isSome_iff_exists.mpr ⟨v, hv⟩, hall.symm.trans hsplit, ?_, ?_, ?_,
      ?_, ?_⟩
    · rw [hflags]
      rfl
    · rw [hflags]
      rfl
    · rw [hflags]
      rfl
    · rw [hsome]
      exact (Bool.or_true _).symm
    rw [hsome]
    show BitVec.ofNat 64 ((Text.parseUint back 0 64).getD 0) = BitVec.ofNat 64 v
    rw [hv]
    rfl

/-- The offset that is taken is the sum of the address and the offset. -/
theorem HookPieces.Whole.sum_eq (hwhole : p.Whole s) (args : Option (List Text))
    (e : HookEnding) : (HookString.mk p.name p.off args e).baseValue +
      (HookString.mk p.name p.off args e).offValue = if p.off = [] then
        if Text.hasPrefix p.name "0x".toList then
          (HookString.hexValue (p.name.drop 2)).getD 0
        else 0
      else (HookString.hexValue p.off).getD 0 := by
  show (if Text.hasPrefix p.name "0x".toList then (HookString.hexValue (p.name.drop 2)).getD 0
    else 0) + (HookString.hexValue p.off).getD 0 = _
  by_cases hnil : p.off = []
  · rw [if_pos hnil, hnil]
    exact BitVec.add_zero _
  · rw [if_neg hnil]
    by_cases hstarts : Text.hasPrefix p.name "0x".toList = true
    · rw [if_pos hstarts, hwhole.location hstarts hnil]
      exact BitVec.zero_add _
    · rw [if_neg hstarts]
      exact BitVec.zero_add _

/-- The string that the pieces are parts of is carried. -/
theorem HookPieces.Whole.carries (hwhole : p.Whole s) (hp : hookPieces s = .ok p)
    (hu : env.hookPoint lib s index = .ok u) : env.Carries u s := by
  obtain ⟨p', symbol, offset, pointArgs, retArg, hp', hloc, hargs, -, rfl⟩ := hookPoint_eq_ok.mp hu
  obtain rfl := Except.ok.inj (hp'.symm.trans hp)
  obtain ⟨e, hewf, htext, huret, hret, hbind, hexitRead, hexitOffset⟩ := hwhole.exists_ending hp
  obtain ⟨-, -, hgroups⟩ := hookPieces_eq_ok.mp hp
  obtain ⟨hne, hbase, hoff⟩ := hookGroups_spec hgroups
  obtain ⟨hsymbol, haddress, hoffset⟩ := hookLocation_spec hloc
  -- the pieces that the code has found are the parts of the string
  let h : HookString := ⟨p'.name, p'.off, p'.args.map (Text.splitOn ','), e⟩
  have hinner : h.inner = p'.args := by
    show (p'.args.map (Text.splitOn ',')).map (List.intercalate [',']) = p'.args
    cases p'.args with
    | none => rfl
    | some inner => exact congrArg some (Text.intercalate_splitOn ',' inner)
  have hwf : h.WellFormed := {
    base_ne := hne
    base := hbase
    address := haddress
    off := hoff
    args_ne := by
      intro hnil
      obtain ⟨inner, -, hpieces⟩ := Option.map_eq_some_iff.mp hnil
      exact Text.splitOn_ne_nil ',' inner hpieces
    args := by
      intro as has a ha
      obtain ⟨inner, hsome, rfl⟩ := Option.map_eq_some_iff.mp has
      refine ⟨Text.not_mem_of_mem_splitOn ha, fun hmem => hwhole.inner ?_⟩
      rw [hsome]
      exact Text.mem_of_mem_splitOn ha hmem
    ending := hewf }
  refine ⟨h, hwf, ?_, ?_⟩
  · rw [HookString.text, hinner, htext, hwhole.matched]
  · exact {
      name := rfl
      symbol := hsymbol
      offset := hoffset.trans (hwhole.sum_eq _ _).symm
      argsStr := congrArg (Option.getD · []) hinner.symm
      pointArgs := by
        rw [huret]
        exact (hookArgs_pieces ..).symm.trans hargs
      bindSyscall := hbind.symm
      exitRead := hexitRead.symm
      exitOffset := hexitOffset.symm
      enableUretprobe := huret.symm
      retType := hret.symm }

/-- The pieces of a plain string leave nothing out. -/
theorem PlainHook.whole (hs : PlainHook s) (hp : hookPieces s = .ok p) : p.Whole s := by
  cases hs with
  | @bare base off hbase =>
      obtain ⟨hsuffix, htext, hexit⟩ := hookPieces_unbracketed
        (not_mem_location hbase.words hbase.digits (by decide) (by decide) (by decide)) hp
      have hgroups := (hookPieces_eq_ok.mp hp).2.2
      rw [htext, hookGroups_bare hbase.base_ne hbase.words hbase.digits] at hgroups
      obtain ⟨hname, hrest⟩ := Prod.mk.inj (Option.some.inj hgroups)
      obtain ⟨hoff, hargs⟩ := Prod.mk.inj hrest
      exact {
        matched := by
          rw [htext, ← hname, ← hoff, ← hargs]
          exact (List.append_nil _).symm
        ending := Or.inl (by rw [hsuffix, htext])
        inner := by
          rw [← hargs]
          exact List.not_mem_nil
        retType := by
          rw [hsuffix]
          exact List.not_mem_nil
        location := by
          rw [← hname, ← hoff]
          exact hbase.address }
  | @bracketed base off inner e hbase inner_ne closed line he =>
      obtain ⟨htext, hname, hoff, hargs, hret, hending⟩ :=
        hookPieces_bracketed hbase.base_ne hbase.words hbase.digits closed he rfl hp
      -- the expression takes the arguments, since there are some and no newline ends them
      rw [if_neg (not_or.mpr ⟨inner_ne, line⟩)] at hargs
      exact {
        matched := by rw [htext, hname, hoff, hargs]
        ending := hending
        inner := by
          rw [hargs]
          exact closed
        retType := by
          rw [hret]
          exact HookEnding.not_bracket_mem_retType he
        location := by
          rw [hname, hoff]
          exact hbase.address }

/-- Where the code finds base and offset of the string, an offset has not taken the place of an
address. -/
theorem HookString.CarriedBy.plainBase {h : HookString} (hcarried : h.CarriedBy env u)
    (hwf : h.WellFormed) (hp : hookPieces h.text = .ok p)
    (hu : env.hookPoint lib h.text index = .ok u) (hname : p.name = h.base) (hoff : p.off = h.off) :
    PlainBase h.base h.off := by
  obtain ⟨p', symbol, offset, pointArgs, retArg, hp', hloc, -, -, rfl⟩ := hookPoint_eq_ok.mp hu
  obtain rfl := Except.ok.inj (hp'.symm.trans hp)
  obtain ⟨-, haddress, hoffset⟩ := hookLocation_spec hloc
  rw [hname, hoff] at hoffset
  rw [hname] at haddress
  refine ⟨hwf.base_ne, hwf.base, hwf.off, fun hstarts hne => ?_⟩
  -- the offset alone is both the offset and the sum
  obtain ⟨base, hbase⟩ := Option.isSome_iff_exists.mp (haddress hstarts)
  have hsum : offset = h.baseValue + h.offValue := hcarried.offset
  have hvalue : h.baseValue = base := by
    rw [HookString.baseValue, if_pos (show h.isAddress = true from hstarts), hbase]
    rfl
  have hoffValue : offset = h.offValue := hoffset.trans (if_neg hne)
  rw [hoffValue, hvalue] at hsum
  have hzero : base = 0 := BitVec.self_eq_add_left.mp hsum
  rw [hbase, hzero]

/-- Without brackets: the code finds no suffix, so that there is none in the string. -/
theorem HookString.CarriedBy.plain_bare {h : HookString} (hcarried : h.CarriedBy env u)
    (hwf : h.WellFormed) (hu : env.hookPoint lib h.text index = .ok u) (hargs : h.args = none) :
    PlainHook h.text := by
  obtain ⟨p, symbol, offset, pointArgs, retArg, hp, -, -, -, hpoint⟩ := hookPoint_eq_ok.mp hu
  have hinner : h.inner = none := by
    rw [HookString.inner, hargs]
    rfl
  have htext : h.text = h.base ++ offText h.off ++ h.ending.text := by
    rw [HookString.text, hinner]
    exact congrArg (· ++ h.ending.text) (List.append_nil _)
  have hmem : ']' ∉ h.text := by
    rw [htext]
    intro hmem
    rcases List.mem_append.mp hmem with hlocation | hending
    · exact not_mem_location hwf.base hwf.off (by decide) (by decide) (by decide) hlocation
    · exact HookEnding.not_bracket_mem_text hwf.ending hending
  obtain ⟨hsuffix, hsearch, hexit⟩ := hookPieces_unbracketed hmem hp
  -- a suffix of the string would have to be one of the point
  have hend : h.ending = .none := by
    have huret := hcarried.enableUretprobe
    have hbind := hcarried.bindSyscall
    have hread := hcarried.exitRead
    rw [hpoint, hsuffix] at huret hbind hread
    rw [hexit] at hread
    exact HookEnding.eq_none huret.symm hbind.symm hread.symm
  rw [hend, show HookEnding.none.text = [] from rfl, List.append_nil] at htext
  have hgroups := (hookPieces_eq_ok.mp hp).2.2
  rw [hsearch, htext, hookGroups_bare hwf.base_ne hwf.base hwf.off] at hgroups
  obtain ⟨hname, hrest⟩ := Prod.mk.inj (Option.some.inj hgroups)
  obtain ⟨hoff, -⟩ := Prod.mk.inj hrest
  have hbase := hcarried.plainBase hwf hp hu hname.symm hoff.symm
  rw [htext]
  exact .bare hbase

/-- With brackets: arguments are found, since the point has as many as the string. -/
theorem HookString.CarriedBy.plain_bracketed {h : HookString} (hcarried : h.CarriedBy env u)
    (hwf : h.WellFormed) (hu : env.hookPoint lib h.text index = .ok u) {as : List Text}
    (hargs : h.args = some as) : PlainHook h.text := by
  obtain ⟨p, symbol, offset, pointArgs, retArg, hp, -, hfoundArgs, -, hpoint⟩ :=
    hookPoint_eq_ok.mp hu
  have hinner : h.inner = some (List.intercalate [','] as) := by
    rw [HookString.inner, hargs]
    rfl
  have htext : h.base ++ offText h.off ++ argsText (some (List.intercalate [','] as)) ++
      h.ending.text = h.text := by
    rw [HookString.text, hinner]
  have hclosed := HookString.not_bracket_mem_inner hwf hinner
  obtain ⟨-, hname, hoff, hfound, -, -⟩ :=
    hookPieces_bracketed hwf.base_ne hwf.base hwf.off hclosed hwf.ending htext hp
  have hbase := hcarried.plainBase hwf hp hu hname hoff
  -- empty brackets and a newline inside them make the expression take no arguments
  have hkept : ¬ (List.intercalate [','] as = [] ∨ '\n' ∈ List.intercalate [','] as) := by
    intro hlost
    rw [if_pos hlost] at hfound
    rw [hfound] at hfoundArgs
    obtain rfl := Except.ok.inj hfoundArgs
    have hlist := hcarried.pointArgs
    rw [hargs, hpoint] at hlist
    have hlength : (as.zipIdx).length = 0 := (Outcome.mapM_eq_ok.mp hlist).length_eq
    rw [List.length_zipIdx] at hlength
    rw [List.length_eq_zero_iff.mp hlength] at hargs
    exact hwf.args_ne hargs
  rw [← htext]
  exact .bracketed hbase (fun hnil => hkept (Or.inl hnil)) hclosed
    (fun hline => hkept (Or.inr hline)) hwf.ending

/-- A string that its point carries is plain. -/
theorem HookString.CarriedBy.plain {h : HookString} (hcarried : h.CarriedBy env u)
    (hwf : h.WellFormed) (hu : env.hookPoint lib h.text index = .ok u) : PlainHook h.text := by
  cases hargs : h.args with
  | none => exact hcarried.plain_bare hwf hu hargs
  | some as => exact hcarried.plain_bracketed hwf hu hargs

/-- **The point of an accepted string is what the string says** exactly if the string leaves
nothing to ignore. -/
theorem hookPoint_exact_iff (hu : env.hookPoint lib s index = .ok u) :
    env.Carries u s ↔ PlainHook s := by
  constructor
  · rintro ⟨h, hwf, rfl, hcarried⟩
    exact hcarried.plain hwf hu
  · intro hplain
    obtain ⟨p, -, -, -, -, hp, -⟩ := hookPoint_eq_ok.mp hu
    exact (hplain.whole hp).carries hp hu

end Exact

/-- A library without an offset in its file. -/
def libB : LibInfo := ⟨"/lib/b.so".toList, "/lib/b.so".toList, 0⟩

/-- A base with an offset, two arguments and the type of the return value. -/
theorem strstr_exact : ∃ u,
    builtinEnv.hookPoint libB "strstr+0x10[str,buf:16]rstr".toList 0 = .ok u ∧
      PlainHook "strstr+0x10[str,buf:16]rstr".toList ∧
      builtinEnv.Carries u "strstr+0x10[str,buf:16]rstr".toList := by
  have hwords : "strstr".toList.all Text.isWord = true := by decide
  have hdigits : "10".toList.all Text.isXDigit = true := by decide
  have hbase : PlainBase "strstr".toList "10".toList :=
    ⟨by decide, List.all_eq_true.mp hwords, List.all_eq_true.mp hdigits,
      fun hstarts => absurd hstarts (by decide)⟩
  have hplain : PlainHook "strstr+0x10[str,buf:16]rstr".toList :=
    @PlainHook.bracketed _ _ "str,buf:16".toList (.ret "str".toList) hbase (by decide) (by decide)
      (by decide) (show ']' ∉ "str".toList by decide)
  have hu : ∃ u, builtinEnv.hookPoint libB "strstr+0x10[str,buf:16]rstr".toList 0 = .ok u :=
    ⟨_, rfl⟩
  obtain ⟨u, hu⟩ := hu
  exact ⟨u, hu, hplain, (hookPoint_exact_iff hu).mpr hplain⟩

/-- Brackets that open are closed. -/
theorem PlainHook.closes {s : Text} (h : PlainHook s) (hopen : '[' ∈ s) : ']' ∈ s := by
  cases h with
  | bare hbase =>
      exact absurd hopen
        (not_mem_location hbase.words hbase.digits (by decide) (by decide) (by decide))
  | @bracketed base off inner e => simp [argsText]

/-- Without the closing bracket the arguments are left out, and the point reads none. -/
theorem unclosed_not_exact : ¬ builtinEnv.IsExact libB "strstr[str,str".toList 0 := by
  intro hexact
  have hu : ∃ u, builtinEnv.hookPoint libB "strstr[str,str".toList 0 = .ok u := ⟨_, rfl⟩
  obtain ⟨u, hu⟩ := hu
  obtain ⟨h, hwf, htext, hcarried⟩ := hexact u hu
  rw [← htext] at hu
  have hplain := hcarried.plain hwf hu
  rw [htext] at hplain
  exact absurd (hplain.closes (by decide)) (by decide)

end Stackplz
