import Stackplz.Basic.GoMap
import Stackplz.Basic.Machine
import Stackplz.Basic.Numeral
import Stackplz.User.ParseArg

/-!
# The registry of argument types

`arg_types` holds every type under an index, and a name is looked up in whatever order the map is
visited. A configuration adds clones of registered types: a clone has a name of its own, but the
aliases of its parent.
-/

set_option autoImplicit false

namespace Stackplz

/-! ## Registered types -/

/-- A type of the registry with its name and its `AliaNames`. -/
structure RegisteredType where
  name : Text
  aliaNames : List Text
  type : ArgType
deriving DecidableEq

/-- `GetName` or `HasAliasName` -/
def RegisteredType.answers (t : RegisteredType) (name : Text) : Bool :=
  t.name == name || t.aliaNames.contains name

/-- `GetSize` -/
def ArgType.getSize : ArgType → u32
  | .num kind _ => kind.size
  | .pointer _ | .pointerTo _ _ => 8
  | .bufferLen length => length
  | .struct type => type.size
  | .array elem _ length => elem.size * length
  | .iovec => BitVec.ofNat 32 iovecSize
  | .msghdr => BitVec.ofNat 32 msghdrSize
  | .string | .stdString | .stringArray | .buffer | .bufferReg _ | .iovecReg _ | .parent => 0

/-- `FormatType` and `FlagsConfig`, of the elements for an array. -/
def ArgType.numStyle : ArgType → Option NumStyle
  | .num _ style | .pointer style | .pointerTo _ style | .array _ style _ => some style
  | _ => none

/-- The types are saved and printed in the same way. -/
structure ArgType.Same (t t' : ArgType) : Prop where
  opList : t.opList = t'.opList
  size : t.getSize = t'.getSize
  style : t.numStyle = t'.numStyle

instance (t t' : ArgType) : Decidable (t.Same t') :=
  decidable_of_iff (t.opList = t'.opList ∧ t.getSize = t'.getSize ∧ t.numStyle = t'.numStyle)
    ⟨fun h => ⟨h.1, h.2.1, h.2.2⟩, fun h => ⟨h.1, h.2, h.3⟩⟩

theorem ArgType.Same.trans {t t' t'' : ArgType} (h : t.Same t') (h' : t'.Same t'') :
    t.Same t'' :=
  ⟨h.opList.trans h'.opList, h.size.trans h'.size, h.style.trans h'.style⟩

/-- `FORMAT_NUM` to `FORMAT_BIN` -/
def NumFormat.value : NumFormat → Nat
  | .num => 0
  | .hexPure => 1
  | .hex => 2
  | .dec => 3
  | .oct => 4
  | .bin => 5

/-! ## The registry -/

structure TypeRegistry where
  argTypes : GoMap u32 RegisteredType
  nextTypeIndex : u32

namespace TypeRegistry

/-- `GetArgType`; `none` is a panic here and below. -/
def getArgType (this : TypeRegistry) (typeIndex : u32) : Option RegisteredType :=
  this.argTypes.lookup typeIndex

/-- `GetArgTypeByName`, in the order of a loop over the map. -/
def getArgTypeByName (range : GoRange u32 RegisteredType) (this : TypeRegistry) (name : Text) :
    Option RegisteredType :=
  ((range.order this.argTypes).find? fun entry => entry.2.answers name).map fun entry => entry.2

/-- `RegisterNew`, and what its caller sets in the clone. -/
def registerNew (this : TypeRegistry) (name : Text) (parentIndex : u32)
    (set : ArgType → Option ArgType) : Option TypeRegistry := do
  let typeIndex := this.nextTypeIndex + 1
  let p ← this.getArgType parentIndex
  let type ← set p.type
  if (this.getArgType typeIndex).isSome then none
  else return ⟨this.argTypes.insert typeIndex ⟨name, p.aliaNames, type⟩, typeIndex⟩

/-- `POINTER`, `STRUCT`, `ARRAY` and `BUFFER` -/
def pointerIndex : u32 := 1
def structIndex : u32 := 15
def arrayIndex : u32 := 16
def bufferIndex : u32 := 17

def newNumFormat (this : TypeRegistry) (parentIndex : u32) (format : NumFormat) :
    Option TypeRegistry := do
  let p ← this.getArgType parentIndex
  this.registerNew (p.name ++ "_fmt_".toList ++ Nat.toDigits 10 format.value) parentIndex
    fun ty => (ty.restyle fun style => { style with format := format }).toOption

/-- `NewNumFlags`, with the flags that `SetFlagsFormat` chooses by a name. -/
def newNumFlags (this : TypeRegistry) (parentIndex : u32) (format : String) :
    Option TypeRegistry := do
  let p ← this.getArgType parentIndex
  let style ← flagsFormats.lookup format
  this.registerNew (p.name ++ "_flags_".toList ++ style.flags.getD []) parentIndex
    fun ty => (ty.restyle fun _ => style).toOption

/-- `R_POINTER`, for a pointer whose value is read. -/
def rPointer (this : TypeRegistry) (index : u32) : Option TypeRegistry := do
  let p ← this.getArgType index
  this.registerNew ("ptr_".toList ++ p.name) pointerIndex fun
    | .pointer style => some (.pointerTo p.type style)
    | _ => none

/-- `r_ARRAY`, of numbers. -/
def rArray (this : TypeRegistry) (index : u32) (arrayLen : u32) : Option TypeRegistry := do
  let p ← this.getArgType index
  this.registerNew ("array_".toList ++ p.name ++ "_".toList ++ Nat.toDigits 10 arrayLen.toNat)
    arrayIndex fun _ =>
      match p.type with
      | .num kind style => some (.array kind style arrayLen)
      | _ => none

def rBufferLen (this : TypeRegistry) (length : u32) : Option TypeRegistry :=
  if length.toNat > maxBytesArrSize then none
  else this.registerNew ("buffer_len_".toList ++ Nat.toDigits 10 length.toNat) bufferIndex
    fun _ => some (.bufferLen length)

def rBufferReg (this : TypeRegistry) (regIndex : u32) : Option TypeRegistry :=
  this.registerNew ("buffer_reg_".toList ++ Nat.toDigits 10 regIndex.toNat) bufferIndex
    fun _ => some (.bufferReg regIndex)

def rIovecReg (this : TypeRegistry) (regName : Text) : Option TypeRegistry := do
  let regIndex ← getRegIndex regName
  this.registerNew ("iovec_".toList ++ regName) structIndex fun _ => some (.iovecReg regIndex)

/-! ## The built-in types -/

/-- What `init` and `PreRegister` leave: the index, the name and the aliases of each type. The
indexes behind `CONST_ARGTYPE_END` are those of `RegisterNew`; four indexes share the types of
others. -/
def initNames : List (Nat × String × List String) :=
  [(1, "ptr", []), (2, "int", []), (3, "uint", []), (4, "int8", []), (5, "int16", []),
    (6, "int32", []), (7, "int64", ["ssize_t"]), (8, "uint8", []), (9, "uint16", []),
    (10, "uint32", ["socklen_t"]), (11, "uint64", ["size_t"]), (17, "buffer", ["buf"]),
    (13, "string", ["str"]), (15, "struct", []), (16, "array", []), (40, "array_int_1", []),
    (41, "array_int_2", []), (43, "array_uint_1", []), (56, "ptr_int", []),
    (57, "ptr_uint", []), (14, "std", []), (58, "string_array", []), (59, "stack_t", []),
    (24, "timespec", []), (60, "uint_fmt_2", []), (61, "array_uint_fmt_2_1", []),
    (62, "siginfo", []), (27, "sigaction", []), (63, "epoll_event", []), (64, "pollfd", []),
    (65, "dirent", []), (66, "ittmerspec", []), (67, "rusage", []), (68, "utsname", []),
    (69, "timeval", []), (70, "timezone", []), (71, "sysinfo", []), (72, "stat", []),
    (73, "statfs", []), (18, "iovec", []), (74, "iovec_x2", []), (19, "msghdr", []),
    (75, "sockaddr", []), (76, "buffer_x2", ["buf"]), (20, "uint32", ["socklen_t"]),
    (21, "uint64", ["size_t"]), (22, "int64", ["ssize_t"]), (42, "array_int_1", []),
    (49, "int_flags_stat", []), (50, "int_flags_statx", []), (51, "int_flags_unlink", []),
    (52, "int_flags_socket", []), (53, "int_flags_file", []),
    (54, "int16_flags_permission", [])]

def initEntries : List (GoEntry u32 RegisteredType) :=
  initNames.map fun (index, name, aliases) =>
    ⟨BitVec.ofNat 32 index, name.toList, aliases.map String.toList,
      (builtinByName name.toList).getD .parent⟩

theorem initEntries_nodupKeys : initEntries.NodupKeys := by
  show initEntries.keys.Nodup
  decide +kernel

def init : TypeRegistry := ⟨⟨initEntries, initEntries_nodupKeys⟩, 76⟩

end TypeRegistry

/-- The calls that add a type while configurations are parsed. -/
inductive RegisterCall where
  | newNumFormat (parentIndex : u32) (format : NumFormat)
  | newNumFlags (parentIndex : u32) (format : String)
  | rPointer (index : u32)
  | rArray (index arrayLen : u32)
  | rBufferLen (length : u32)
  | rBufferReg (regIndex : u32)
  | rIovecReg (regName : Text)

def TypeRegistry.step (this : TypeRegistry) : RegisterCall → Option TypeRegistry
  | .newNumFormat parentIndex format => this.newNumFormat parentIndex format
  | .newNumFlags parentIndex format => this.newNumFlags parentIndex format
  | .rPointer index => this.rPointer index
  | .rArray index arrayLen => this.rArray index arrayLen
  | .rBufferLen length => this.rBufferLen length
  | .rBufferReg regIndex => this.rBufferReg regIndex
  | .rIovecReg regName => this.rIovecReg regName

def registryMachine : Machine TypeRegistry RegisterCall := ⟨TypeRegistry.step⟩

/-! ## One call -/

/-- The type is registered. -/
def TypeRegistry.Has (this : TypeRegistry) (t : RegisteredType) : Prop :=
  ∃ index, this.getArgType index = some t

/-- The type that a call adds. -/
inductive TypeRegistry.Derives (this : TypeRegistry) : RegisterCall → RegisteredType → Prop where
  | newNumFormat {parentIndex : u32} {p : RegisteredType} {format : NumFormat} {type : ArgType}
      (hp : this.getArgType parentIndex = some p)
      (htype : p.type.restyle (fun style => { style with format := format }) = .ok type) :
      Derives this (.newNumFormat parentIndex format)
        ⟨p.name ++ "_fmt_".toList ++ Nat.toDigits 10 format.value, p.aliaNames, type⟩
  | newNumFlags {parentIndex : u32} {p : RegisteredType} {format : String} {style : NumStyle}
      {type : ArgType} (hp : this.getArgType parentIndex = some p)
      (hstyle : flagsFormats.lookup format = some style)
      (htype : p.type.restyle (fun _ => style) = .ok type) :
      Derives this (.newNumFlags parentIndex format)
        ⟨p.name ++ "_flags_".toList ++ style.flags.getD [], p.aliaNames, type⟩
  | rPointer {index : u32} {p parent : RegisteredType} {style : NumStyle}
      (hp : this.getArgType index = some p)
      (hparent : this.getArgType TypeRegistry.pointerIndex = some parent)
      (hstyle : parent.type = .pointer style) :
      Derives this (.rPointer index)
        ⟨"ptr_".toList ++ p.name, parent.aliaNames, .pointerTo p.type style⟩
  | rArray {index : u32} {p parent : RegisteredType} {arrayLen : u32} {kind : NumKind}
      {style : NumStyle} (hp : this.getArgType index = some p)
      (hparent : this.getArgType TypeRegistry.arrayIndex = some parent)
      (hnum : p.type = .num kind style) :
      Derives this (.rArray index arrayLen)
        ⟨"array_".toList ++ p.name ++ "_".toList ++ Nat.toDigits 10 arrayLen.toNat,
          parent.aliaNames, .array kind style arrayLen⟩
  | rBufferLen {length : u32} {parent : RegisteredType}
      (hparent : this.getArgType TypeRegistry.bufferIndex = some parent)
      (hlength : length.toNat ≤ maxBytesArrSize) :
      Derives this (.rBufferLen length)
        ⟨"buffer_len_".toList ++ Nat.toDigits 10 length.toNat, parent.aliaNames,
          .bufferLen length⟩
  | rBufferReg {regIndex : u32} {parent : RegisteredType}
      (hparent : this.getArgType TypeRegistry.bufferIndex = some parent) :
      Derives this (.rBufferReg regIndex)
        ⟨"buffer_reg_".toList ++ Nat.toDigits 10 regIndex.toNat, parent.aliaNames,
          .bufferReg regIndex⟩
  | rIovecReg {regName : Text} {regIndex : u32} {parent : RegisteredType}
      (hreg : getRegIndex regName = some regIndex)
      (hparent : this.getArgType TypeRegistry.structIndex = some parent) :
      Derives this (.rIovecReg regName)
        ⟨"iovec_".toList ++ regName, parent.aliaNames, .iovecReg regIndex⟩

/-- The registry has grown by one type under an index that was free. -/
def TypeRegistry.Grows (this after : TypeRegistry) (t : RegisteredType) : Prop :=
  ∃ index, this.getArgType index = none ∧ after.argTypes = this.argTypes.insert index t

section

variable {this after : TypeRegistry} {t : RegisteredType}

theorem registerNew_eq_some {name : Text} {parentIndex : u32} {set : ArgType → Option ArgType}
    (h : this.registerNew name parentIndex set = some after) :
    ∃ p type, this.getArgType parentIndex = some p ∧ set p.type = some type ∧
      this.Grows after ⟨name, p.aliaNames, type⟩ := by
  unfold TypeRegistry.registerNew at h
  simp only [Option.bind_eq_bind, Option.bind_eq_some_iff] at h
  obtain ⟨p, hp, type, htype, h⟩ := h
  split at h
  · cases h
  · rename_i hfree
    rw [Bool.not_eq_true, Option.isSome_eq_false_iff, Option.isNone_iff_eq_none] at hfree
    obtain rfl := Option.some.inj h
    exact ⟨p, type, hp, htype, _, hfree, rfl⟩

theorem toOption_eq_some {ty : Except Failure ArgType} {type : ArgType}
    (h : ty.toOption = some type) : ty = .ok type := by
  cases ty with
  | error e => cases h
  | ok type' => exact congrArg Except.ok (Option.some.inj h)

/-- What a call does, said once. -/
theorem registry_step_cases {call : RegisterCall} (h : this.step call = some after) :
    ∃ t, this.Derives call t ∧ this.Grows after t := by
  cases call with
  | newNumFormat parentIndex format =>
      obtain ⟨p, hp, h⟩ := Option.bind_eq_some_iff.mp h
      obtain ⟨p', type, hp', htype, hgrows⟩ := registerNew_eq_some h
      obtain rfl := Option.some.inj (hp.symm.trans hp')
      exact ⟨_, .newNumFormat hp (toOption_eq_some htype), hgrows⟩
  | newNumFlags parentIndex format =>
      obtain ⟨p, hp, h⟩ := Option.bind_eq_some_iff.mp h
      obtain ⟨style, hstyle, h⟩ := Option.bind_eq_some_iff.mp h
      obtain ⟨p', type, hp', htype, hgrows⟩ := registerNew_eq_some h
      obtain rfl := Option.some.inj (hp.symm.trans hp')
      exact ⟨_, .newNumFlags hp hstyle (toOption_eq_some htype), hgrows⟩
  | rPointer index =>
      obtain ⟨p, hp, h⟩ := Option.bind_eq_some_iff.mp h
      obtain ⟨parent, type, hparent, htype, hgrows⟩ := registerNew_eq_some h
      split at htype
      · rename_i style hstyle
        obtain rfl := Option.some.inj htype
        exact ⟨_, .rPointer hp hparent hstyle, hgrows⟩
      · cases htype
  | rArray index arrayLen =>
      obtain ⟨p, hp, h⟩ := Option.bind_eq_some_iff.mp h
      obtain ⟨parent, type, hparent, htype, hgrows⟩ := registerNew_eq_some h
      split at htype
      · rename_i kind style hnum
        obtain rfl := Option.some.inj htype
        exact ⟨_, .rArray hp hparent hnum, hgrows⟩
      · cases htype
  | rBufferLen length =>
      have hif : (if length.toNat > maxBytesArrSize then none
        else this.registerNew ("buffer_len_".toList ++ Nat.toDigits 10 length.toNat)
          TypeRegistry.bufferIndex fun _ => some (.bufferLen length)) = some after := h
      split at hif
      · cases hif
      · rename_i hlength
        obtain ⟨parent, type, hparent, htype, hgrows⟩ := registerNew_eq_some hif
        obtain rfl := Option.some.inj htype
        exact ⟨_, .rBufferLen hparent (Nat.not_lt.mp hlength), hgrows⟩
  | rBufferReg regIndex =>
      have hnew : this.registerNew ("buffer_reg_".toList ++ Nat.toDigits 10 regIndex.toNat)
        TypeRegistry.bufferIndex (fun _ => some (.bufferReg regIndex)) = some after := h
      obtain ⟨parent, type, hparent, htype, hgrows⟩ := registerNew_eq_some hnew
      obtain rfl := Option.some.inj htype
      exact ⟨_, .rBufferReg hparent, hgrows⟩
  | rIovecReg regName =>
      obtain ⟨regIndex, hreg, h⟩ := Option.bind_eq_some_iff.mp h
      obtain ⟨parent, type, hparent, htype, hgrows⟩ := registerNew_eq_some h
      obtain rfl := Option.some.inj htype
      exact ⟨_, .rIovecReg hreg hparent, hgrows⟩

/-- The types of a registry that has grown. -/
theorem TypeRegistry.Grows.has_iff (h : this.Grows after t) (t' : RegisteredType) :
    after.Has t' ↔ t' = t ∨ this.Has t' := by
  obtain ⟨index, hfree, hafter⟩ := h
  have hlookup (index' : u32) : after.getArgType index' =
      if index' = index then some t else this.getArgType index' := by
    unfold TypeRegistry.getArgType
    rw [hafter]
    split
    · rename_i heq
      rw [heq, AList.lookup_insert]
    · exact AList.lookup_insert_ne ‹_›
  constructor
  · rintro ⟨index', h'⟩
    rw [hlookup] at h'
    split at h'
    · exact Or.inl (Option.some.inj h').symm
    · exact Or.inr ⟨index', h'⟩
  · rintro (rfl | ⟨index', h'⟩)
    · exact ⟨index, by rw [hlookup, if_pos rfl]⟩
    · refine ⟨index', ?_⟩
      rw [hlookup, if_neg, h']
      rintro rfl
      rw [hfree] at h'
      cases h'

/-- Nothing that was registered goes away. -/
theorem TypeRegistry.Grows.getArgType_eq_some (h : this.Grows after t) {index : u32}
    {t' : RegisteredType} (h' : this.getArgType index = some t') :
    after.getArgType index = some t' := by
  obtain ⟨index', hfree, hafter⟩ := h
  have hne : index ≠ index' := by
    rintro rfl
    rw [hfree] at h'
    cases h'
  unfold TypeRegistry.getArgType
  rw [hafter, AList.lookup_insert_ne hne]
  exact h'

end

/-! ## Names of the built-in types -/

section

variable {t t' type : ArgType}

/-- A type in another style is saved as before. -/
theorem restyle_spec {style : NumStyle → NumStyle} (h : t.restyle style = .ok type) :
    type.opList = t.opList ∧ type.getSize = t.getSize ∧
      type.numStyle = t.numStyle.map style := by
  cases t with
  | num kind s =>
      obtain rfl := Except.ok.inj h
      exact ⟨rfl, rfl, rfl⟩
  | pointer s =>
      obtain rfl := Except.ok.inj h
      exact ⟨rfl, rfl, rfl⟩
  | pointerTo target s =>
      obtain rfl := Except.ok.inj h
      exact ⟨rfl, rfl, rfl⟩
  | _ => cases h

theorem ArgType.Same.pointerTo (h : t.Same t') (style : NumStyle) :
    (ArgType.pointerTo t style).Same (.pointerTo t' style) :=
  ⟨congrArg (List.cons _) h.opList, rfl, rfl⟩

end

/-- Types of the built-in names are those that the names had at first. -/
def TypeRegistry.OwnNames (this : TypeRegistry) : Prop :=
  ∀ t, this.Has t → ∀ e ∈ builtinTypes, t.name = e.1.toList → t.type.Same e.2

/-- The built-in names that a number in another style could have. -/
theorem builtin_restyled (sep : Text) (style : NumStyle → NumStyle) (back : Text)
    (hchecked : ∀ e ∈ builtinTypes, ∀ s ∈ Text.splitsAt sep e.1.toList, s.2 = back →
      ∃ e' ∈ builtinTypes, e'.1.toList = s.1 ∧ e'.2.opList = e.2.opList ∧
        e'.2.getSize = e.2.getSize ∧ e'.2.numStyle.map style = e.2.numStyle)
    {this : TypeRegistry} (hs : this.OwnNames) {p : RegisteredType} (hp : this.Has p)
    {type : ArgType} (htype : p.type.restyle style = .ok type) {e : String × ArgType}
    (he : e ∈ builtinTypes) (hname : p.name ++ sep ++ back = e.1.toList) : type.Same e.2 := by
  obtain ⟨e', he', hfront, hops, hsize, hstyle⟩ :=
    hchecked e he (p.name, back) (hname ▸ Text.mem_splitsAt sep p.name back) rfl
  have hsame := hs p hp e' he' hfront.symm
  obtain ⟨htops, htsize, htstyle⟩ := restyle_spec htype
  exact ⟨htops.trans (hsame.opList.trans hops), htsize.trans (hsame.size.trans hsize), by
    rw [htstyle, hsame.style, hstyle]⟩

/-- The first registrations are still there. -/
def TypeRegistry.KeepsInit (this : TypeRegistry) : Prop :=
  ∀ index t, TypeRegistry.init.getArgType index = some t → this.getArgType index = some t

theorem format_checked (format : NumFormat) : ∀ e ∈ builtinTypes,
    ∀ s ∈ Text.splitsAt "_fmt_".toList e.1.toList, s.2 = Nat.toDigits 10 format.value →
      ∃ e' ∈ builtinTypes, e'.1.toList = s.1 ∧ e'.2.opList = e.2.opList ∧
        e'.2.getSize = e.2.getSize ∧
        e'.2.numStyle.map (fun style => { style with format := format }) = e.2.numStyle := by
  cases format <;> decide +kernel

theorem flags_checked : ∀ f ∈ flagsFormats, ∀ e ∈ builtinTypes,
    ∀ s ∈ Text.splitsAt "_flags_".toList e.1.toList, s.2 = f.2.flags.getD [] →
      ∃ e' ∈ builtinTypes, e'.1.toList = s.1 ∧ e'.2.opList = e.2.opList ∧
        e'.2.getSize = e.2.getSize ∧ e'.2.numStyle.map (fun _ => f.2) = e.2.numStyle := by
  decide +kernel

theorem pointer_checked : ∀ e ∈ builtinTypes, "ptr_".toList <+: e.1.toList →
    ∃ e' ∈ builtinTypes, e'.1.toList = e.1.toList.drop 4 ∧
      (ArgType.pointerTo e'.2 .plain).Same e.2 := by
  decide +kernel

/-- The type is an array of elements like these, of the length that is written out. -/
def ArgType.isArrayOf (elem : ArgType) (digits : Text) : ArgType → Bool
  | .array kind style arrayLen =>
      digits == Nat.toDigits 10 arrayLen.toNat && elem.getSize == kind.size &&
        elem.numStyle == some style
  | _ => false

/-- The name of an array ends in its length; where the name of its elements ended at an earlier
`_`, there would be another one in the length. -/
theorem array_checked : ∀ e ∈ builtinTypes, "array_".toList <+: e.1.toList →
    ∀ s ∈ Text.splitsAt "_".toList (e.1.toList.drop 6), '_' ∈ s.2 ∨
      ∃ e' ∈ builtinTypes, e'.1.toList = s.1 ∧ e'.2.isArrayOf s.2 e.2 = true := by
  decide +kernel

theorem buffer_checked : ∀ e ∈ builtinTypes, ¬ "buffer_len_".toList <+: e.1.toList ∧
    ¬ "buffer_reg_".toList <+: e.1.toList := by
  decide +kernel

theorem iovec_checked : ∀ e ∈ builtinTypes, "iovec_".toList <+: e.1.toList →
    e.1.toList.drop 6 = "x2".toList ∧ e.2 = .iovecReg 2 := by
  decide +kernel

section

variable {this : TypeRegistry} {p : RegisteredType} {e : String × ArgType}

theorem pointer_named (hs : this.OwnNames) (hp : this.Has p) (he : e ∈ builtinTypes)
    (hname : "ptr_".toList ++ p.name = e.1.toList) :
    (ArgType.pointerTo p.type .plain).Same e.2 := by
  obtain ⟨e', he', hrest, hsame⟩ := pointer_checked e he ⟨p.name, hname⟩
  have hfront : p.name = e'.1.toList := by
    rw [hrest, ← hname]
    rfl
  exact ((hs p hp e' he' hfront).pointerTo .plain).trans hsame

theorem array_named (hs : this.OwnNames) (hp : this.Has p) (he : e ∈ builtinTypes)
    {kind : NumKind} {style : NumStyle} (hnum : p.type = .num kind style) {arrayLen : u32}
    (hname : "array_".toList ++ p.name ++ "_".toList ++ Nat.toDigits 10 arrayLen.toNat =
      e.1.toList) : (ArgType.array kind style arrayLen).Same e.2 := by
  have hrest : p.name ++ "_".toList ++ Nat.toDigits 10 arrayLen.toNat = e.1.toList.drop 6 := by
    rw [← hname]
    rfl
  have hsplit := Text.mem_splitsAt "_".toList p.name (Nat.toDigits 10 arrayLen.toNat)
  rw [hrest] at hsplit
  have hprefix : "array_".toList <+: e.1.toList := by
    rw [← hname, List.append_assoc, List.append_assoc]
    exact List.prefix_append _ _
  rcases array_checked e he hprefix _ hsplit with hunderscore | ⟨e', he', hfront, harray⟩
  · exact absurd hunderscore (Numeral.not_mem_toDigits (by decide) (by decide) (by decide))
  · have hsame := hs p hp e' he' hfront.symm
    rw [hnum] at hsame
    cases htype : e.2 with
    | array kind' style' arrayLen' =>
        rw [htype] at harray
        simp only [ArgType.isArrayOf, Bool.and_eq_true, beq_iff_eq] at harray
        obtain ⟨⟨hdigits, hsize⟩, hstyle⟩ := harray
        have hlen : arrayLen = arrayLen' :=
          BitVec.eq_of_toNat_eq (Numeral.toDigits_inj (by decide) (by decide) hdigits)
        have hkind : kind.size = kind'.size := hsame.size.trans hsize
        have hstyles : style = style' := Option.some.inj (hsame.style.trans hstyle)
        rw [hlen, hstyles]
        refine ⟨?_, congrArg (fun size => size * arrayLen') hkind, rfl⟩
        show [saveStructOp _] = [saveStructOp _]
        rw [hkind]
    | _ =>
        rw [htype] at harray
        cases harray

theorem iovec_named (he : e ∈ builtinTypes) {regName : Text} {regIndex : u32}
    (hreg : getRegIndex regName = some regIndex)
    (hname : "iovec_".toList ++ regName = e.1.toList) : (ArgType.iovecReg regIndex).Same e.2 := by
  obtain ⟨hx2, htype⟩ := iovec_checked e he ⟨regName, hname⟩
  rw [← hname] at hx2
  have hregName : regName = "x2".toList := hx2
  rw [hregName] at hreg
  have hindex : regIndex = 2 := Option.some.inj (hreg.symm.trans (by decide +kernel))
  rw [htype, hindex]
  exact ⟨rfl, rfl, rfl⟩

/-- **A clone has the name of a built-in type only if it is like it.** -/
theorem derived_named (hs : this.OwnNames) (hinit : this.KeepsInit) {call : RegisterCall}
    {t : RegisteredType} (h : this.Derives call t) (he : e ∈ builtinTypes)
    (hname : t.name = e.1.toList) : t.type.Same e.2 := by
  cases h with
  | newNumFormat hp htype =>
      exact builtin_restyled _ _ _ (format_checked _) hs ⟨_, hp⟩ htype he hname
  | newNumFlags hp hstyle htype =>
      obtain ⟨front, back, hflags, -⟩ := List.lookup_eq_some_iff.mp hstyle
      have hmem := hflags ▸ List.mem_append_right front (List.mem_cons_self ..)
      exact builtin_restyled _ _ _ (flags_checked _ hmem) hs ⟨_, hp⟩ htype he hname
  | rPointer hp hparent hstyle =>
      have hptr := hinit TypeRegistry.pointerIndex ⟨"ptr".toList, [], .pointer .plain⟩
        (by decide +kernel)
      obtain rfl := Option.some.inj (hparent.symm.trans hptr)
      obtain rfl := ArgType.pointer.inj hstyle
      exact pointer_named hs ⟨_, hp⟩ he hname
  | rArray hp hparent hnum => exact array_named hs ⟨_, hp⟩ he hnum hname
  | rBufferLen hparent hlength => exact absurd ⟨_, hname⟩ (buffer_checked e he).1
  | rBufferReg hparent => exact absurd ⟨_, hname⟩ (buffer_checked e he).2
  | rIovecReg hreg hparent => exact iovec_named he hreg hname

end

/-! ## Looking names up -/

/-- The name is found in every order of the map, with the type it had at first. -/
def TypeRegistry.Resolves (this : TypeRegistry) (name : Text) (type : ArgType) : Prop :=
  ∀ range, ∃ t, this.getArgTypeByName range name = some t ∧ t.type.Same type

/-- The types that carry an alias are like the one that had it at first. -/
def TypeRegistry.AliasKept (this : TypeRegistry) (name : Text) (type : ArgType) : Prop :=
  ∀ t, this.Has t → name ∈ t.aliaNames → t.type.Same type

structure TypeRegistry.Inv (this : TypeRegistry) : Prop where
  ownNames : this.OwnNames
  keepsInit : this.KeepsInit

theorem init_has {t : RegisteredType} (h : TypeRegistry.init.Has t) :
    ∃ entry ∈ TypeRegistry.initEntries, entry.2 = t := by
  obtain ⟨index, h⟩ := h
  exact ⟨⟨index, t⟩, AList.mem_lookup_iff.mp h, rfl⟩

theorem registryInv_init : TypeRegistry.init.Inv where
  ownNames := by
    intro t ht e he hname
    obtain ⟨entry, hentry, rfl⟩ := init_has ht
    have hchecked : ∀ entry ∈ TypeRegistry.initEntries, ∀ e ∈ builtinTypes,
        entry.2.name = e.1.toList → entry.2.type.Same e.2 := by decide +kernel
    exact hchecked entry hentry e he hname
  keepsInit := fun _ _ h => h

section

variable {this after : TypeRegistry}

theorem registryInv_step (hs : this.Inv) {call : RegisterCall}
    (h : this.step call = some after) : after.Inv := by
  obtain ⟨t, hderives, hgrows⟩ := registry_step_cases h
  refine ⟨fun t' ht' e he hname => ?_, fun index t' ht' => ?_⟩
  · rcases (hgrows.has_iff t').mp ht' with rfl | hold
    · exact derived_named hs.ownNames hs.keepsInit hderives he hname
    · exact hs.ownNames t' hold e he hname
  · exact hgrows.getArgType_eq_some (hs.keepsInit index t' ht')

theorem getArgTypeByName_eq_some {range : GoRange u32 RegisteredType} {name : Text}
    {t : RegisteredType} (h : this.getArgTypeByName range name = some t) :
    this.Has t ∧ t.answers name = true := by
  obtain ⟨entry, hfind, rfl⟩ := Option.map_eq_some_iff.mp h
  have hanswers := List.find?_some hfind
  exact ⟨⟨entry.1, GoRange.mem_order_iff.mp (List.mem_of_find?_eq_some hfind)⟩, hanswers⟩

/-- A type that answers to the name is found where the map is visited from it on. -/
theorem exists_range_getArgTypeByName {name : Text} {t : RegisteredType} (ht : this.Has t)
    (hname : t.answers name = true) :
    ∃ range, this.getArgTypeByName range name = some t := by
  obtain ⟨index, hindex⟩ := ht
  obtain ⟨range, back, horder⟩ := exists_range_first hindex
  refine ⟨range, ?_⟩
  unfold TypeRegistry.getArgTypeByName
  rw [horder]
  simp [hname]

theorem answers_iff {t : RegisteredType} {name : Text} :
    t.answers name = true ↔ t.name = name ∨ name ∈ t.aliaNames := by
  simp [RegisteredType.answers]

/-- A built-in name can only get lost as an alias. -/
theorem resolves_iff (hs : this.Inv) {e : String × ArgType} (he : e ∈ builtinTypes) :
    this.Resolves e.1.toList e.2 ↔ this.AliasKept e.1.toList e.2 := by
  constructor
  · intro h t ht halias
    obtain ⟨range, hrange⟩ := exists_range_getArgTypeByName ht (answers_iff.mpr (Or.inr halias))
    obtain ⟨t', hfound, hsame⟩ := h range
    obtain rfl := Option.some.inj (hrange.symm.trans hfound)
    exact hsame
  · intro h range
    have hchecked : ∀ e ∈ builtinTypes, ∃ entry ∈ TypeRegistry.initEntries,
        entry.2.answers e.1.toList = true := by decide +kernel
    obtain ⟨entry, hentry, hanswers⟩ := hchecked e he
    have hlookup := hs.keepsInit entry.1 entry.2 (AList.mem_lookup_iff.mpr hentry)
    have hmem : entry ∈ range.order this.argTypes := GoRange.mem_order_iff.mpr hlookup
    have hsome : ((range.order this.argTypes).find? fun entry =>
        entry.2.answers e.1.toList).isSome := by
      rw [List.find?_isSome]
      exact ⟨entry, hmem, hanswers⟩
    obtain ⟨found, hfound⟩ := Option.isSome_iff_exists.mp hsome
    have hname : this.getArgTypeByName range e.1.toList = some found.2 := by
      unfold TypeRegistry.getArgTypeByName
      rw [hfound]
      rfl
    obtain ⟨hhas, hfoundName⟩ := getArgTypeByName_eq_some hname
    refine ⟨found.2, hname, ?_⟩
    rcases answers_iff.mp hfoundName with hown | halias
    · exact hs.ownNames found.2 hhas e he hown
    · exact h found.2 hhas halias

/-- The call gives a type that carries the alias no other style. -/
def TypeRegistry.KeepsStyle (name : Text) (this : TypeRegistry) : RegisterCall → Prop
  | .newNumFormat parentIndex format => ∀ p, this.getArgType parentIndex = some p →
      name ∈ p.aliaNames → p.type.numStyle.map NumStyle.format = some format
  | .newNumFlags parentIndex format => ∀ p, this.getArgType parentIndex = some p →
      name ∈ p.aliaNames → p.type.numStyle = flagsFormats.lookup format
  | _ => True

theorem restyle_same_iff {p type type' : ArgType} {style : NumStyle → NumStyle}
    (hp : p.Same type) (h : p.restyle style = .ok type') :
    type'.Same type ↔ p.numStyle.map style = p.numStyle := by
  obtain ⟨hops, hsize, hstyle⟩ := restyle_spec h
  constructor
  · intro hsame
    rw [← hstyle, hsame.style, hp.style]
  · intro hkept
    exact ⟨hops.trans hp.opList, hsize.trans hp.size, by rw [hstyle, hkept, hp.style]⟩

theorem exists_numStyle {p type : ArgType} {style : NumStyle → NumStyle}
    (h : p.restyle style = .ok type) : ∃ s, p.numStyle = some s := by
  cases p with
  | num kind s => exact ⟨s, rfl⟩
  | pointer s => exact ⟨s, rfl⟩
  | pointerTo target s => exact ⟨s, rfl⟩
  | _ => cases h

/-- A parent that was there at first still has the aliases it had. -/
theorem aliaNames_of_init (hinit : this.KeepsInit) {index : u32} {parent : RegisteredType}
    (hparent : this.getArgType index = some parent) {t : RegisteredType}
    (ht : TypeRegistry.init.getArgType index = some t) : parent.aliaNames = t.aliaNames := by
  obtain rfl := Option.some.inj (hparent.symm.trans (hinit index t ht))
  rfl

/-- What a call makes of the alias, other than that of the buffers. -/
theorem derived_alias_iff (hs : this.Inv) {name : Text} {type : ArgType}
    (halias : this.AliasKept name type) (hbuf : name ≠ "buf".toList) {call : RegisterCall}
    {t : RegisteredType} (h : this.Derives call t) :
    (name ∈ t.aliaNames → t.type.Same type) ↔ this.KeepsStyle name call := by
  have hnever {index : u32} {parent : RegisteredType}
      (hparent : this.getArgType index = some parent) {t' : RegisteredType}
      (ht' : TypeRegistry.init.getArgType index = some t') (hnone : name ∉ t'.aliaNames) :
      name ∉ parent.aliaNames := by
    rwa [aliaNames_of_init hs.keepsInit hparent ht']
  have hbuffer {parent : RegisteredType}
      (hparent : this.getArgType TypeRegistry.bufferIndex = some parent) :
      name ∉ parent.aliaNames := by
    have hinit : TypeRegistry.init.getArgType TypeRegistry.bufferIndex =
        some ⟨"buffer".toList, ["buf".toList], .buffer⟩ := by decide +kernel
    exact hnever hparent hinit fun hname => hbuf (List.mem_singleton.mp hname)
  cases h with
  | @newNumFormat parentIndex p format newType hp htype =>
      obtain ⟨style, hstyle⟩ := exists_numStyle htype
      have hkept : (p.type.numStyle.map fun style => { style with format := format }) =
          p.type.numStyle ↔ p.type.numStyle.map NumStyle.format = some format := by
        rw [hstyle]
        simp only [Option.map_some, Option.some.injEq]
        constructor
        · intro heq
          rw [← heq]
        · rintro rfl
          rfl
      constructor
      · intro hnew p' hp' hname
        obtain rfl := Option.some.inj (hp.symm.trans hp')
        exact hkept.mp ((restyle_same_iff (halias p ⟨_, hp⟩ hname) htype).mp (hnew hname))
      · intro hguard hname
        exact (restyle_same_iff (halias p ⟨_, hp⟩ hname) htype).mpr
          (hkept.mpr (hguard p hp hname))
  | @newNumFlags parentIndex p format style newType hp hlookup htype =>
      obtain ⟨old, hold⟩ := exists_numStyle htype
      have hkept : (p.type.numStyle.map fun _ => style) = p.type.numStyle ↔
          p.type.numStyle = flagsFormats.lookup format := by
        rw [hold, hlookup]
        exact eq_comm
      constructor
      · intro hnew p' hp' hname
        obtain rfl := Option.some.inj (hp.symm.trans hp')
        exact hkept.mp ((restyle_same_iff (halias p ⟨_, hp⟩ hname) htype).mp (hnew hname))
      · intro hguard hname
        exact (restyle_same_iff (halias p ⟨_, hp⟩ hname) htype).mpr
          (hkept.mpr (hguard p hp hname))
  | rPointer hp hparent hstyle =>
      have hinit : TypeRegistry.init.getArgType TypeRegistry.pointerIndex =
          some ⟨"ptr".toList, [], .pointer .plain⟩ := by decide +kernel
      have hnone := hnever hparent hinit List.not_mem_nil
      exact iff_of_true (fun hname => absurd hname hnone) trivial
  | rArray hp hparent hnum =>
      have hinit : TypeRegistry.init.getArgType TypeRegistry.arrayIndex =
          some ⟨"array".toList, [], .parent⟩ := by decide +kernel
      have hnone := hnever hparent hinit List.not_mem_nil
      exact iff_of_true (fun hname => absurd hname hnone) trivial
  | rBufferLen hparent hlength =>
      have hnone := hbuffer hparent
      exact iff_of_true (fun hname => absurd hname hnone) trivial
  | rBufferReg hparent =>
      have hnone := hbuffer hparent
      exact iff_of_true (fun hname => absurd hname hnone) trivial
  | rIovecReg hreg hparent =>
      have hinit : TypeRegistry.init.getArgType TypeRegistry.structIndex =
          some ⟨"struct".toList, [], .parent⟩ := by decide +kernel
      have hnone := hnever hparent hinit List.not_mem_nil
      exact iff_of_true (fun hname => absurd hname hnone) trivial

/-- One call loses the name exactly when it gives a carrier of the alias another style. -/
theorem resolves_step_iff (hs : this.Inv) {e : String × ArgType} (he : e ∈ builtinTypes)
    (hname : this.Resolves e.1.toList e.2) (hbuf : e.1 ≠ "buf") {call : RegisterCall}
    (h : this.step call = some after) :
    after.Resolves e.1.toList e.2 ↔ this.KeepsStyle e.1.toList call := by
  obtain ⟨t, hderives, hgrows⟩ := registry_step_cases h
  have halias := (resolves_iff hs he).mp hname
  have hbufText : e.1.toList ≠ "buf".toList := fun heq => hbuf (String.toList_inj.mp heq)
  rw [resolves_iff (registryInv_step hs h) he, ← derived_alias_iff hs halias hbufText hderives]
  constructor
  · intro hafter hcarries
    exact hafter t ((hgrows.has_iff t).mpr (Or.inl rfl)) hcarries
  · intro hnew t' ht' hcarries
    rcases (hgrows.has_iff t').mp ht' with rfl | hold
    · exact hnew hcarries
    · exact halias t' hold hcarries

end

/-! ## Runs of a configuration -/

/-- At first every name but one stands for one type; `buffer_x2` is a clone of `buffer` with its
alias. -/
theorem resolves_init_iff {e : String × ArgType} (he : e ∈ builtinTypes) :
    TypeRegistry.init.Resolves e.1.toList e.2 ↔ e.1 ≠ "buf" := by
  have hchecked : ∀ e ∈ builtinTypes, (∀ entry ∈ TypeRegistry.initEntries,
      e.1.toList ∈ entry.2.aliaNames → entry.2.type.Same e.2) ↔ e.1 ≠ "buf" := by
    decide +kernel
  rw [resolves_iff registryInv_init he, ← hchecked e he]
  constructor
  · intro h entry hentry
    exact h entry.2 ⟨entry.1, AList.mem_lookup_iff.mpr hentry⟩
  · intro h t ht
    obtain ⟨entry, hentry, rfl⟩ := init_has ht
    exact h entry hentry

/-- **When a built-in name stays unambiguous.** Whatever is registered while configurations are
parsed, a name keeps standing for its type exactly when it is not `buf` and no type that
carries it as an alias is cloned into another style. -/
theorem resolves_throughout_iff {e : String × ArgType} (he : e ∈ builtinTypes)
    (calls : List RegisterCall) :
    registryMachine.Throughout (fun this => this.Resolves e.1.toList e.2) TypeRegistry.init calls
      ↔ e.1 ≠ "buf" ∧ registryMachine.Guarded (TypeRegistry.KeepsStyle e.1.toList)
        TypeRegistry.init calls := by
  by_cases hbuf : e.1 = "buf"
  · have hnot : ¬ TypeRegistry.init.Resolves e.1.toList e.2 := by
      rw [resolves_init_iff he]
      exact not_not_intro hbuf
    refine iff_of_false (fun h => hnot ?_) fun h => h.1 hbuf
    cases calls with
    | nil => exact h
    | cons call calls => exact h.1
  · rw [and_iff_right hbuf]
    exact Machine.throughout_iff_guarded (fun _ _ => True) _ TypeRegistry.Inv _
      (fun _ _ _ hs _ hstep => registryInv_step hs hstep)
      (fun _ _ _ hs hname _ hstep => resolves_step_iff hs he hname hbuf hstep)
      calls _ registryInv_init ((resolves_init_iff he).mpr hbuf) (Machine.guarded_true _ _ _)

/-- A pointer to an `int` loses no name. -/
theorem resolves_throughout_pointer :
    registryMachine.Throughout (fun this => this.Resolves "size_t".toList (.num .uint64 .plain))
      TypeRegistry.init [.rPointer 2] := by
  have hguarded : registryMachine.Guarded (TypeRegistry.KeepsStyle "size_t".toList)
      TypeRegistry.init [.rPointer 2] := fun _ _ => ⟨trivial, trivial⟩
  exact (resolves_throughout_iff (e := ("size_t", .num .uint64 .plain)) (by decide +kernel)
    _).mpr ⟨by decide, hguarded⟩

/-- A hexadecimal `uint64` takes the alias `size_t` with it. -/
theorem size_t_ambiguous :
    ¬ ∀ e ∈ builtinTypes, ∀ (calls : List RegisterCall) (after : TypeRegistry),
      registryMachine.run TypeRegistry.init calls = some after →
      after.Resolves e.1.toList e.2 := by
  intro h
  have he : ("size_t", ArgType.num .uint64 .plain) ∈ builtinTypes := by decide +kernel
  have hsome : (TypeRegistry.init.step (.newNumFormat 11 .hex)).isSome = true := by
    decide +kernel
  obtain ⟨after, hstep⟩ := Option.isSome_iff_exists.mp hsome
  have hinit : TypeRegistry.init.Resolves "size_t".toList (.num .uint64 .plain) :=
    (resolves_init_iff he).mpr (by decide)
  have hafter := h _ he [.newNumFormat 11 .hex] after
    (Machine.run_cons_eq_some.mpr ⟨after, hstep, rfl⟩)
  have hkept := (resolves_step_iff registryInv_init he hinit (by decide) hstep).mp hafter
  have hformat := hkept ⟨"uint64".toList, ["size_t".toList], .num .uint64 .plain⟩
    (by decide +kernel) (List.mem_singleton.mpr rfl)
  cases hformat

end Stackplz
