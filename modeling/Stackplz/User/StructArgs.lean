import Stackplz.User.SaveRecords

/-!
# Arguments that save one struct

The types whose op list saves a fixed number of bytes behind one header (`argtype_complex.go`).
For each of the struct types that `PreRegister` registers the size in the op list is that of
one Go struct, and the parser reads and prints another one, chosen by hand. `fixedStructs`
lists both with their fields, so that what is decoded is the field values and not only a number
of bytes.
-/

set_option autoImplicit false

namespace Stackplz

/-! ## What an op list appends -/

/-- What a list of codes appends to the event. -/
def OpState.appended (env : ProbeEnv) (xs : List (OpConfig × OpCode)) (st : OpState) : List u8 :=
  (execSteps env xs st).2.event.args.drop st.event.args.length

/-- The codes of a type's op list. -/
def ArgType.codes (ty : ArgType) : List (OpConfig × OpCode) := ty.opList.flatMap fun op => op.steps

/-- The number of bytes that `OP_SAVE_STRUCT` reads after a `read_len`. -/
def cappedLen (value : u64) : Nat := min (value.setWidth 32).toNat maxBytesArrSize

theorem cappedLen_of_le {n : Nat} (h : n ≤ maxBytesArrSize) :
    cappedLen ((BitVec.ofNat 32 n).setWidth 64) = n := by
  have hmax : maxBytesArrSize < 2 ^ 32 := by decide
  unfold cappedLen
  rw [BitVec.setWidth_setWidth_of_le _ (by decide), BitVec.setWidth_eq, BitVec.toNat_ofNat,
    Nat.mod_eq_of_lt (by omega), Nat.min_eq_left h]

section Appended

variable {env : ProbeEnv} {st : OpState} {setLen save : OpConfig}

/-- The two codes of these op lists append one record, if there is room for the longest. -/
theorem appended_saveStruct (hpre : save.preCode ≠ .setReadCount) :
    st.appended env [(setLen, .setReadLen), (save, .saveStruct)] =
      if st.event.bufOff ≤ saveLimit then
        Saved.encode st.data.saveIndex
          (.bytes ((env.mem.read (untag st.data.readAddr) (cappedLen setLen.value)).getD []))
      else [] := by
  let mid : OpState := st.setData fun d => { d with readLen := setLen.value.setWidth 32 }
  have hevent : (execSteps env [(setLen, .setReadLen), (save, .saveStruct)] st).2.event =
      (mid.saveStruct env.mem save).event := rfl
  have hlen : (mid.structLen save).toNat = cappedLen setLen.value := by
    unfold OpState.structLen
    rw [if_neg hpre]
    show (if setLen.value.setWidth 32 > BitVec.ofNat 32 maxBytesArrSize then
      BitVec.ofNat 32 maxBytesArrSize else setLen.value.setWidth 32).toNat = _
    unfold cappedLen
    have hmax : (BitVec.ofNat 32 maxBytesArrSize).toNat = maxBytesArrSize := by decide
    split
    · rename_i hgt
      have hgt' : maxBytesArrSize < (setLen.value.setWidth 32).toNat := hmax ▸ hgt
      rw [hmax, Nat.min_eq_right (by omega)]
    · rename_i hle
      have hle' : ¬ maxBytesArrSize < (setLen.value.setWidth 32).toNat := fun h =>
        hle (show (BitVec.ofNat 32 maxBytesArrSize).toNat < _ from hmax.symm ▸ h)
      rw [Nat.min_eq_left (by omega)]
  unfold OpState.appended
  rw [hevent]
  split
  · rename_i hroom
    have hargs : (mid.saveStruct env.mem save).event.args =
        mid.event.args ++ mid.records env.mem save .saveStruct :=
      saveStruct_of_room env.mem save hroom
    rw [hargs]
    show (st.event.args ++ _).drop st.event.args.length = _
    rw [List.drop_left]
    unfold OpState.records
    rw [hlen]
    rfl
  · rename_i hfull
    have hfull' : saveLimit < mid.event.bufOff := Nat.lt_of_not_le hfull
    rw [saveStruct_event, orStandIn_of_full 0 (saveBytesToBuf_of_full _ _ hfull') hfull']
    exact List.drop_length

end Appended

/-! ## Go structs -/

/-- A field of a Go struct: `count` elements of `width` bytes. -/
structure GoField where
  name : String
  signed : Bool
  width : Nat
  count : Nat
deriving DecidableEq

def GoField.size (f : GoField) : Nat := f.width * f.count

/-- The number that the bytes of an element stand for. -/
def GoField.value (f : GoField) (bytes : List u8) : Int :=
  if f.signed then (BitVec.ofNat (8 * f.width) (LittleEndian.decode bytes)).toInt
  else LittleEndian.decode bytes

def GoField.values (f : GoField) (bytes : List u8) : List Int :=
  (List.range f.count).map fun i => f.value ((bytes.drop (i * f.width)).take f.width)

abbrev GoStruct := List GoField

/-- What `binary.Read` takes for the struct; its structs have no padding but in fields. -/
def GoStruct.size (s : GoStruct) : Nat := (s.map GoField.size).sum

/-- The fields of a struct with their values. -/
abbrev FieldValues := List (String × List Int)

/-- The values that `binary.Read` sets; it skips the bytes of blank fields. -/
def GoStruct.values : GoStruct → List u8 → FieldValues
  | [], _ => []
  | f :: fs, bytes =>
      let rest := GoStruct.values fs (bytes.drop f.size)
      if f.name = "_" then rest else (f.name, f.values bytes) :: rest

def goInt (width : Nat) (name : String) : GoField := ⟨name, true, width, 1⟩
def goUint (width : Nat) (name : String) : GoField := ⟨name, false, width, 1⟩
def goInts (width count : Nat) (name : String) : GoField := ⟨name, true, width, count⟩
def goUints (width count : Nat) (name : String) : GoField := ⟨name, false, width, count⟩

namespace GoStruct

def stackT : GoStruct := [goUint 8 "Ss_sp", goInt 4 "Ss_flags", goInt 4 "Ss_size"]

def timespec : GoStruct := [goInt 8 "Sec", goInt 8 "Nsec"]

def sigInfo : GoStruct :=
  [goInt 4 "Si_signo", goInt 4 "Si_errno", goInt 4 "Si_code", goInt 4 "_", goUint 8 "Sifields"]

def sigaction : GoStruct :=
  [goUint 8 "Sa_handler", goUint 8 "Sa_sigaction", goUint 8 "Sa_mask", goUint 8 "Sa_flags",
    goUint 8 "Sa_restorer"]

/-- `syscall.EpollEvent` -/
def epollEvent : GoStruct := [goUint 4 "Events", goInt 4 "PadFd", goInt 4 "Fd", goInt 4 "Pad"]

def pollfd : GoStruct := [goInt 4 "Fd", goUint 2 "Events", goUint 2 "Revents"]

def dirent : GoStruct :=
  [goUint 8 "Ino", goInt 8 "Off", goUint 2 "Reclen", goUint 1 "Type", goUints 1 256 "Name",
    goUints 1 5 "Pad_cgo_0"]

def itTmerspec : GoStruct :=
  [goInt 8 "It_interval.Sec", goInt 8 "It_interval.Nsec", goInt 8 "It_value.Sec",
    goInt 8 "It_value.Nsec"]

/-- `syscall.Rusage` -/
def rusage : GoStruct :=
  [goInt 8 "Utime.Sec", goInt 8 "Utime.Usec", goInt 8 "Stime.Sec", goInt 8 "Stime.Usec",
    goInt 8 "Maxrss", goInt 8 "Ixrss", goInt 8 "Idrss", goInt 8 "Isrss", goInt 8 "Minflt",
    goInt 8 "Majflt", goInt 8 "Nswap", goInt 8 "Inblock", goInt 8 "Oublock", goInt 8 "Msgsnd",
    goInt 8 "Msgrcv", goInt 8 "Nsignals", goInt 8 "Nvcsw", goInt 8 "Nivcsw"]

def utsname : GoStruct :=
  [goInts 1 65 "Sysname", goInts 1 65 "Nodename", goInts 1 65 "Release", goInts 1 65 "Version",
    goInts 1 65 "Machine", goInts 1 65 "Domainname"]

/-- `syscall.Timeval` -/
def timeval : GoStruct := [goInt 8 "Sec", goInt 8 "Usec"]

def timeZoneT : GoStruct := [goInt 4 "Tz_minuteswest", goInt 4 "Tz_dsttime"]

/-- `syscall.Sysinfo_t` -/
def sysinfoT : GoStruct :=
  [goInt 8 "Uptime", goUints 8 3 "Loads", goUint 8 "Totalram", goUint 8 "Freeram",
    goUint 8 "Sharedram", goUint 8 "Bufferram", goUint 8 "Totalswap", goUint 8 "Freeswap",
    goUint 2 "Procs", goUint 2 "Pad", goUints 1 4 "Pad_cgo_0", goUint 8 "Totalhigh",
    goUint 8 "Freehigh", goUint 4 "Unit", goUints 1 0 "X_f", goUints 1 4 "Pad_cgo_1"]

/-- `syscall.Stat_t` -/
def statT : GoStruct :=
  [goUint 8 "Dev", goUint 8 "Ino", goUint 4 "Mode", goUint 4 "Nlink", goUint 4 "Uid",
    goUint 4 "Gid", goUint 8 "Rdev", goUint 8 "X__pad1", goInt 8 "Size", goInt 4 "Blksize",
    goInt 4 "X__pad2", goInt 8 "Blocks", goInt 8 "Atim.Sec", goInt 8 "Atim.Nsec",
    goInt 8 "Mtim.Sec", goInt 8 "Mtim.Nsec", goInt 8 "Ctim.Sec", goInt 8 "Ctim.Nsec",
    goInts 4 2 "X__glibc_reserved"]

/-- `syscall.Statfs_t` -/
def statfsT : GoStruct :=
  [goInt 8 "Type", goInt 8 "Bsize", goUint 8 "Blocks", goUint 8 "Bfree", goUint 8 "Bavail",
    goUint 8 "Files", goUint 8 "Ffree", goInts 4 2 "Fsid.X__val", goInt 8 "Namelen",
    goInt 8 "Frsize", goInt 8 "Flags", goInts 8 4 "Spare"]

/-- `syscall.RawSockaddrUnix` -/
def rawSockaddrUnix : GoStruct := [goUint 2 "Family", goInts 1 108 "Path"]

end GoStruct

/-! ## The registered struct types -/

/-- A struct type of the registry: the Go struct whose size is registered, and the one that
its parser decodes and prints. -/
structure FixedStruct where
  name : String
  registered : GoStruct
  decoded : GoStruct
deriving DecidableEq

/-- The struct types of `PreRegister` with one save, in its order. -/
def fixedStructs : List FixedStruct :=
  [⟨"stack_t", .stackT, .stackT⟩, ⟨"timespec", .timespec, .timespec⟩,
    ⟨"siginfo", .sigInfo, .sigInfo⟩, ⟨"sigaction", .sigaction, .sigaction⟩,
    ⟨"epoll_event", .epollEvent, .epollEvent⟩, ⟨"pollfd", .pollfd, .pollfd⟩,
    -- `r_DIRENT` sets `parse_POLLFD`; nothing uses `parse_DIRENT`
    ⟨"dirent", .dirent, .pollfd⟩, ⟨"ittmerspec", .itTmerspec, .itTmerspec⟩,
    ⟨"rusage", .rusage, .rusage⟩, ⟨"utsname", .utsname, .utsname⟩,
    ⟨"timeval", .timeval, .timeval⟩, ⟨"timezone", .timeZoneT, .timeZoneT⟩,
    ⟨"sysinfo", .sysinfoT, .sysinfoT⟩, ⟨"stat", .statT, .statT⟩,
    ⟨"statfs", .statfsT, .statfsT⟩, ⟨"sockaddr", .rawSockaddrUnix, .rawSockaddrUnix⟩]

def FixedStruct.argType (s : FixedStruct) : ArgType :=
  .struct ⟨BitVec.ofNat 32 s.registered.size, s.decoded.size⟩

/-- These are the struct types of the registry. -/
theorem fixedStructs_registered :
    ∀ s ∈ fixedStructs, builtinTypes.lookup s.name = some s.argType := by
  decide +kernel

/-- What the parser prints beside the pointer: nothing for an empty record. -/
def FixedStruct.shown (s : FixedStruct) : List (List u8) → Option FieldValues
  | [payload] => if payload = [] then none else some (s.decoded.values payload)
  | _ => none

/-- `Parse` with `parse_more` set. -/
def FixedStruct.parse (s : FixedStruct) : Reader (Option FieldValues) := do
  let data ← s.argType.parse true
  return s.shown data

/-- The struct in memory, if it can be read. -/
def FixedStruct.stored (s : FixedStruct) (env : ProbeEnv) (st : OpState) : Option (List u8) :=
  env.mem.read (untag st.data.readAddr) s.registered.size

/-- The op list appends the record of the struct, and the parser consumes exactly this record
and shows the fields of the struct. -/
structure FixedStruct.Decodes (s : FixedStruct) (env : ProbeEnv) (st : OpState) : Prop where
  record : (st.appended env s.argType.codes).length =
    5 + if (s.stored env st).isSome then s.registered.size else 0
  parsed : Reader.Consumes s.parse (st.appended env s.argType.codes)
    ((s.stored env st).map s.registered.values)

/-! ## Reading the record -/

section Reading

variable {size : u32} {record : Nat} {index : u8}

/-- An empty record is read as such by every struct parser. -/
theorem consumes_readStruct_empty :
    Reader.Consumes (readStruct size record) (Saved.encode index (.bytes [])) [] := by
  have hlen := consumes_readLen index 0
  have hrest : Reader.Consumes (do
      if (0 : u32) > 0 && (0 : u32) ≠ size then Reader.stop
      else if (0 : u32) = 0 then return []
      else Reader.take record) [] [] := by
    rw [if_neg (by simp), if_pos rfl]
    exact Reader.consumes_pure []
  exact hlen.bind hrest

/-- Behind a header with the right length a struct parser reads the struct it was given. -/
theorem readStruct_append {payload : List u8} (hlen : payload.length < 2 ^ 32)
    (hpos : 0 < payload.length) (hsize : size = BitVec.ofNat 32 payload.length)
    (rest : List u8) :
    readStruct size record (Saved.encode index (.bytes payload) ++ rest) =
      Reader.take record (payload ++ rest) := by
  have hne : size ≠ 0 := by
    intro h
    have hzero : (0 : u32).toNat = 0 := rfl
    have htoNat := congrArg BitVec.toNat (hsize.symm.trans h)
    rw [BitVec.toNat_ofNat, Nat.mod_eq_of_lt hlen, hzero] at htoNat
    omega
  have hbytes : Saved.encode index (.bytes payload) ++ rest =
      (index :: LittleEndian.ofWord 4 size) ++ (payload ++ rest) := by
    rw [hsize]
    simp [Saved.encode]
  have hrest : (if size > 0 && size ≠ size then Reader.stop
      else if size = 0 then (return [])
      else Reader.take record : Reader (List u8)) = Reader.take record := by
    rw [if_neg (by simp), if_neg hne]
  rw [hbytes]
  exact ((consumes_readLen index size).bind_append _ (payload ++ rest)).trans
    (congrFun hrest (payload ++ rest))

end Reading

section Decoding

variable {s : FixedStruct} {env : ProbeEnv} {st : OpState}

theorem FixedStruct.appended_codes (s : FixedStruct) (env : ProbeEnv) (st : OpState)
    (hle : s.registered.size ≤ maxBytesArrSize) :
    st.appended env s.argType.codes =
      if st.event.bufOff ≤ saveLimit then
        Saved.encode st.data.saveIndex (.bytes ((s.stored env st).getD []))
      else [] := by
  let value := (BitVec.ofNat 32 s.registered.size).setWidth 64
  have hcodes : s.argType.codes = [((opcSetReadLen.newValue value).toOpConfig, .setReadLen),
    (opcSaveStruct.toOpConfig, .saveStruct)] := rfl
  have hlen : cappedLen (opcSetReadLen.newValue value).value = s.registered.size :=
    cappedLen_of_le hle
  rw [hcodes, appended_saveStruct (by decide), hlen]
  rfl

theorem FixedStruct.length_stored {payload : List u8} (h : s.stored env st = some payload) :
    payload.length = s.registered.size := UserMem.length_read h

theorem FixedStruct.parse_eq (s : FixedStruct) : s.parse = do
    let payload ← readStruct (BitVec.ofNat 32 s.registered.size) s.decoded.size
    return s.shown [payload] :=
  Reader.bind_pure_bind _ _ _

/-- The parser shows nothing of an empty record. -/
theorem FixedStruct.consumes_empty (s : FixedStruct) (index : u8) :
    Reader.Consumes s.parse (Saved.encode index (.bytes [])) none := by
  rw [s.parse_eq, ← List.append_nil (Saved.encode _ _)]
  exact consumes_readStruct_empty.bind (Reader.consumes_pure none)

/-- Of the registered number of bytes the parser reads those of the struct it decodes. -/
theorem FixedStruct.parse_append (s : FixedStruct) {payload : List u8} (index : u8)
    (hlen : payload.length = s.registered.size) (hpos : 0 < s.registered.size)
    (hle : s.registered.size ≤ maxBytesArrSize) (rest : List u8) :
    s.parse (Saved.encode index (.bytes payload) ++ rest) =
      (do let payload ← Reader.take s.decoded.size
          return s.shown [payload] : Reader (Option FieldValues)) (payload ++ rest) := by
  have hmax : maxBytesArrSize < 2 ^ 32 := by decide
  have hread : readStruct (BitVec.ofNat 32 s.registered.size) s.decoded.size
      (Saved.encode index (.bytes payload) ++ rest) =
        Reader.take s.decoded.size (payload ++ rest) :=
    readStruct_append (by omega) (by omega) (by rw [hlen]) rest
  rw [s.parse_eq]
  show Reader.bind _ _ _ = Reader.bind _ _ _
  unfold Reader.bind
  rw [hread]

/-- **When a struct is decoded.** With a parser for the registered struct, or for one of
another size, the record is decoded exactly when there was room for it and the parser is the
right one or has nothing to read. -/
theorem FixedStruct.decodes_iff (hpos : 0 < s.registered.size)
    (hle : s.registered.size ≤ maxBytesArrSize)
    (hparser : s.decoded = s.registered ∨ s.decoded.size ≠ s.registered.size) :
    s.Decodes env st ↔ st.event.bufOff ≤ saveLimit ∧
      (s.decoded = s.registered ∨ s.stored env st = none) := by
  have happended := s.appended_codes env st hle
  by_cases hroom : st.event.bufOff ≤ saveLimit
  · rw [if_pos hroom] at happended
    cases hstored : s.stored env st with
    | none =>
        rw [hstored] at happended
        refine ⟨fun _ => ⟨hroom, Or.inr rfl⟩, fun _ => ⟨?_, ?_⟩⟩
        · rw [happended, hstored]
          simp [Saved.encode]
        · rw [happended, hstored]
          exact s.consumes_empty _
    | some payload =>
        have hlen := FixedStruct.length_stored hstored
        rw [hstored] at happended
        constructor
        · rintro ⟨-, hparsed⟩
          refine ⟨hroom, Or.inl (hparser.resolve_right fun hsize => hsize ?_)⟩
          -- with nothing behind the record the parser has to take the whole of it
          have hwhole := hparsed []
          rw [happended, hstored, Option.getD_some, s.parse_append _ hlen hpos hle] at hwhole
          obtain ⟨bytes, mid, htake, hpure⟩ := Reader.bind_eq_some hwhole
          obtain ⟨rfl, rfl⟩ := Reader.take_eq_some htake
          have hlong := Reader.length_of_take htake
          have hrest := congrArg List.length (Prod.mk.inj hpure).2
          rw [List.append_nil] at hrest hlong
          rw [List.length_take] at hlong
          rw [List.length_drop, List.length_nil] at hrest
          omega
        · rintro ⟨-, hsame⟩
          have hdecoded : s.decoded = s.registered := hsame.resolve_right (by simp)
          refine ⟨?_, fun rest => ?_⟩
          · rw [happended, hstored]
            simp only [Saved.encode, Option.getD_some, Option.isSome_some, if_true,
              List.length_cons, List.length_append, LittleEndian.length_ofWord]
            omega
          · have hne : payload ≠ [] := by
              intro hnil
              rw [hnil, List.length_nil] at hlen
              omega
            rw [happended, hstored, Option.getD_some, s.parse_append _ hlen hpos hle, hdecoded,
              ← hlen]
            have hshown : s.shown [payload] = some (s.decoded.values payload) := if_neg hne
            refine ((Reader.consumes_take payload).bind_append _ rest).trans ?_
            show (some (s.shown [payload]), rest) = (some (some _), rest)
            rw [hshown, hdecoded]
  · rw [if_neg hroom] at happended
    refine ⟨fun h => ?_, fun h => absurd h.1 hroom⟩
    have hrecord := h.record
    rw [happended, List.length_nil] at hrecord
    omega

end Decoding

/-- Only `dirent` has a parser for another struct, and the two have different sizes. -/
theorem fixedStructs_cover : ∀ s ∈ fixedStructs,
    0 < s.registered.size ∧ s.registered.size ≤ maxBytesArrSize ∧
      (s.name = "dirent" → s.decoded.size ≠ s.registered.size) ∧
      (s.name ≠ "dirent" → s.decoded = s.registered) := by
  decide +kernel

/-- **Decoding of struct types.** With room for a save, the record of every struct type of the
registry is consumed exactly and shown with the fields of its struct, whatever is in memory and
whatever follows the record, except for a `dirent` that could be read. -/
theorem fixedStruct_decodes_iff (s : FixedStruct) (hs : s ∈ fixedStructs) (env : ProbeEnv)
    (st : OpState) :
    s.Decodes env st ↔ st.event.bufOff ≤ saveLimit ∧
      (s.name = "dirent" → s.stored env st = none) := by
  obtain ⟨hpos, hle, hdirent, hother⟩ := fixedStructs_cover s hs
  by_cases hname : s.name = "dirent"
  · have hsize := hdirent hname
    have hne : s.decoded ≠ s.registered := fun h => hsize (by rw [h])
    rw [FixedStruct.decodes_iff hpos hle (Or.inr hsize)]
    simp [hname, hne]
  · have hsame := hother hname
    rw [FixedStruct.decodes_iff hpos hle (Or.inl hsame)]
    simp [hname, hsame]

/-- A new event of a process whose memory reads as zero. -/
def zeroState : OpState := ⟨OpCtx.cleared.toOpData, .init, .empty⟩

theorem fixedStruct_timespec : FixedStruct.Decodes ⟨"timespec", .timespec, .timespec⟩ bufEnv
    zeroState :=
  (fixedStruct_decodes_iff _ (by decide) bufEnv zeroState).mpr ⟨by decide, by decide⟩

/-- The type `dirent`. -/
def direntStruct : FixedStruct := ⟨"dirent", .dirent, .pollfd⟩

/-- A `dirent` that can be read leaves 272 of its 280 bytes to the next argument. -/
theorem dirent_not_decoded :
    direntStruct ∈ fixedStructs ∧ (direntStruct.stored bufEnv zeroState).isSome = true ∧
      (direntStruct.parse (zeroState.appended bufEnv direntStruct.argType.codes)).2.length = 272 ∧
      ¬ direntStruct.Decodes bufEnv zeroState := by
  have hread : (direntStruct.stored bufEnv zeroState).isSome = true := by decide +kernel
  have hsize : direntStruct.decoded.size ≠ direntStruct.registered.size := by decide
  refine ⟨by decide, hread, by decide +kernel, fun hdecodes => ?_⟩
  have hcases := ((FixedStruct.decodes_iff (by decide) (by decide) (Or.inr hsize)).mp hdecodes).2
  rcases hcases with hsame | hnone
  · exact hsize (by rw [hsame])
  · rw [hnone] at hread
    cases hread

end Stackplz
