import Stackplz.Probe.StraightLine
import Stackplz.User.PointIndex

/-!
# Data that is saved and data that is parsed

Beside its own word an argument can have data. Its op list saves the data when the point
type is the group type (`ReadMore`), and the decoder parses it when the point type is the
program of the event (`parse_more`). The two agree for an argument when the path through the
configuration that builds it sets the group type; `ArgSource` lists these paths.
-/

set_option autoImplicit false

namespace Stackplz

/-! ## Configuration files of system calls -/

/-- `SyscallPointConfig`. -/
structure SyscallPointConfig extends PointConfig where
  nr : u32

/-- The point type that `more` stands for. -/
def ParamConfig.morePointType (p : ParamConfig) : Except Failure PointType :=
  match String.ofList p.more with
  | "" | "enter" => .ok .sysEnter
  | "exit" => .ok .sysExit
  | "all" => .ok .sysAll
  | _ => .error .panic

/-- The argument of a parameter, before it is cloned for the two programs. -/
def ParseEnv.syscallArg (env : ParseEnv) (p : ParamConfig) (index : Nat) :
    Except Failure PointArg := do
  let pointType ← p.morePointType
  env.getPointArg p (BitVec.ofNat 32 index) pointType

/-- The copy of an argument for one of the two programs. -/
def PointArg.cloneFor (a : PointArg) (groupType : PointType) : PointArg :=
  { a.clone with groupType := groupType }

/-- The parameter `ret`. -/
def ParseEnv.syscallRet (env : ParseEnv) (p : ParamConfig) : Except Failure PointArg :=
  env.getPointArg p regArm64Max .sysExit

/-- The inner loop of `Parse_FileConfig`: the arguments of `sys_enter` and of `sys_exit`. A
parameter with the name `ret` ends the list. -/
def ParseEnv.syscallArgs (env : ParseEnv) :
    List (ParamConfig × Nat) → Except Failure (List PointArg × List PointArg)
  | [] => .ok ([], [])
  | (p, index) :: rest =>
      if p.name = "ret".toList then (env.syscallRet p).map fun a => ([], [a])
      else do
        let a ← env.syscallArg p index
        let (enters, exits) ← env.syscallArgs rest
        return (a.cloneFor .sysEnter :: enters, a.cloneFor .sysExit :: exits)

/-- One point of `Parse_FileConfig` of `SyscallConfig`. -/
def ParseEnv.syscallPoint (env : ParseEnv) (c : SyscallPointConfig) :
    Except Failure SyscallPoint := do
  let (enters, exits) ← env.syscallArgs c.params.zipIdx
  return ⟨c.nr, c.name, enters, exits⟩

/-! ## The paths through the configuration -/

/-- Where a configuration takes an argument from. -/
inductive ArgSource where
  /-- an argument of a hook point string, with a uretprobe or without -/
  | hook (uret : Bool) (argStr : Text) (index : Nat)
  /-- the return value of a hook point with a uretprobe -/
  | hookRet (retType : Text)
  /-- a parameter of a point of a file -/
  | file (param : ParamConfig) (index : Nat)
  /-- an argument of a hook point that is bound to a system call -/
  | bound (point : UprobeArgs) (argStr : Text) (index : Nat)
  /-- the return value of a system call with a bound hook point -/
  | boundRet
  /-- a parameter of a system call of a file -/
  | syscall (param : ParamConfig) (index : Nat)
  /-- the parameter `ret` of a system call of a file -/
  | syscallRet (param : ParamConfig)

namespace ArgSource

/-- The programs that save the argument. -/
def programs : ArgSource → List PointType
  | hook uret _ _ => if uret then [.uprobeEnter, .uprobeExit] else [.uprobeEnter]
  | file _ _ => [.uprobeEnter]
  | hookRet _ => [.uprobeExit]
  | bound _ _ _ | syscall _ _ => [.sysEnter, .sysExit]
  | boundRet | syscallRet _ => [.sysExit]

/-- The argument as it is built for a program. -/
def build (env : ParseEnv) (program : PointType) : ArgSource → Except Failure PointArg
  | hook uret argStr index => env.hookArg uret argStr index
  | hookRet retType => env.hookRet retType
  | file param index => env.getPointArg param (BitVec.ofNat 32 index) .uprobeEnter
  | bound point argStr index =>
      (env.hookArg point.enableUretprobe argStr index).map (point.boundArg program)
  | boundRet => .ok (newExitPointArg "ret".toList (.num .int .plain))
  | syscall param index => (env.syscallArg param index).map (·.cloneFor program)
  | syscallRet param => env.syscallRet param

/-- The configuration asks for the data of the argument in this program. -/
def wants (program : PointType) : ArgSource → Bool
  | bound point _ _ => program == .sysEnter || point.exitRead
  | syscall param _ =>
      let more := String.ofList param.more
      more == "all" ||
        if program = .sysEnter then more == "" || more == "enter" else more == "exit"
  | _ => true

/-- The path sets the group type of an argument with data. -/
def setsGroupType : ArgSource → Bool
  | file param _ => param.setsGroupType
  | syscallRet _ => false
  | _ => true

/-- The argument has no data, or none is asked for, or its path sets the group type and does
not give it the register number that marks a return value. -/
def Fits (s : ArgSource) (program : PointType) (a : PointArg) : Prop :=
  a.ty.hasData = false ∨ s.wants program = false ∨
    (s.setsGroupType = true ∧ a.regIndex ≠ regArm64Max)

end ArgSource

/-- Some path of the configuration builds the argument for the program. -/
def ParseEnv.Builds (env : ParseEnv) (program : PointType) (a : PointArg) : Prop :=
  ∃ s : ArgSource, program ∈ s.programs ∧ s.build env program = .ok a

/-! ## What is saved -/

/-- The op saves something. Its `pre_code` only modifies the other two. -/
def NamedOp.saves (op : NamedOp) : Bool := op.code.saves || op.postCode.saves

/-- The op list saves more than the argument's own word. -/
def PointArg.savesMore (a : PointArg) : Bool := 1 < a.getOpList.countP NamedOp.saves

theorem saves_of_isAddressOp {op : NamedOp} (h : op.isAddressOp = true) : op.saves = false := by
  obtain ⟨⟨code, preCode, postCode, value⟩, name⟩ := op
  simp only [NamedOp.isAddressOp, Bool.and_eq_true, decide_eq_true_eq] at h
  obtain ⟨⟨hcode, -⟩, hpost⟩ := h
  have hcode : code.saves = false := by
    revert hcode
    cases code <;> decide
  have hpost : postCode.saves = false := by
    revert hpost
    cases postCode <;> decide
  simp [NamedOp.saves, hcode, hpost]

/-- An op list begins with the one save of the argument's own word. -/
theorem countP_wordOps {a : PointArg} (h : IsAddressList a.extraOpList) :
    a.wordOps.countP NamedOp.saves = 1 := by
  unfold PointArg.wordOps
  split
  · rfl
  · rcases h with hnil | ⟨address, hops, haddress⟩
    · rw [if_neg (not_not_intro hnil)]
      rfl
    · have hzero : address.countP NamedOp.saves = 0 :=
        List.countP_eq_zero.mpr fun op hop => by simp [saves_of_isAddressOp (haddress op hop)]
      rw [if_pos (by simp [hops]), hops, List.countP_append, hzero]
      rfl

theorem countP_valueFilterOps (a : PointArg) : a.valueFilterOps.countP NamedOp.saves = 0 := by
  rw [List.countP_eq_zero]
  intro op hop
  unfold PointArg.valueFilterOps at hop
  split at hop
  · cases hop
  · obtain ⟨i, -, rfl⟩ := List.mem_map.mp hop
    exact Bool.false_ne_true

theorem countP_dataFilterOps (a : PointArg) : a.dataFilterOps.countP NamedOp.saves = 0 := by
  rw [List.countP_eq_zero]
  intro op hop
  unfold PointArg.dataFilterOps at hop
  split at hop
  · obtain ⟨i, -, rfl⟩ := List.mem_map.mp hop
    exact Bool.false_ne_true
  · split at hop
    · obtain ⟨i, -, rfl⟩ := List.mem_map.mp hop
      exact Bool.false_ne_true
    · cases hop

/-- The types with data are the types whose op list saves something. -/
theorem countP_opList_pos (ty : ArgType) :
    0 < ty.opList.countP NamedOp.saves ↔ ty.hasData = true := by
  rw [List.countP_pos_iff, ← List.any_eq_true]
  cases ty <;> exact Iff.of_eq (congrArg (· = true) rfl)

theorem savesMore_iff {a : PointArg} (h : IsAddressList a.extraOpList) :
    a.savesMore = true ↔
      a.regIndex ≠ regArm64Max ∧ a.readMore = true ∧ a.ty.hasData = true := by
  have hword := countP_wordOps h
  have hvalue := countP_valueFilterOps a
  have hdata := countP_dataFilterOps a
  have htype := countP_opList_pos a.ty
  unfold PointArg.savesMore PointArg.getOpList
  rw [decide_eq_true_eq]
  by_cases hreg : a.regIndex = regArm64Max
  · rw [if_pos hreg]
    simp [hreg]
  · rw [if_neg hreg, List.countP_append, List.countP_append, hword, hvalue]
    cases hmore : a.readMore with
    | false => simp
    | true =>
        rw [if_pos rfl, List.countP_append, hdata]
        constructor
        · intro hlt
          exact ⟨hreg, rfl, htype.mp (by omega)⟩
        · rintro ⟨-, -, hhas⟩
          have := htype.mpr hhas
          omega

/-! ## What is parsed -/

/-- The decoder reads more than the argument's own word. -/
def PointArg.ReadsMore (a : PointArg) (program : PointType) : Prop :=
  ¬ Reader.Idle (a.parse program)

section Starves

open Reader

theorem starves_readLen : Starves readLen := (starves_take (by decide)).bind _

theorem starves_readReg : Starves readReg := (starves_take (by decide)).bind _

theorem starves_readPayload : Starves readPayload := starves_readLen.bind _

/-- A parser of data needs a header, which one byte is too short for. -/
theorem starves_parse {ty : ArgType} (h : ty.hasData = true) : Starves (ty.parse true) := by
  cases ty with
  | num | pointer | parent => cases h
  | pointerTo => exact (starves_readLen.bind _).bind _
  | string | stdString | buffer | bufferLen | bufferReg => exact starves_readPayload.bind _
  | struct | array => exact (starves_readLen.bind _).bind _
  | iovec | iovecReg => exact starves_readReg.bind _
  | msghdr => exact (starves_take (by decide)).bind _
  | stringArray => exact starves_readReg.bind _

end Starves

theorem idle_parse_false (ty : ArgType) : Reader.Idle (ty.parse false) := by
  cases ty <;> exact Reader.idle_pure _

/-- A type without data is parsed without a look at the buffer. -/
theorem idle_parse_of_hasData {ty : ArgType} (h : ty.hasData = false) (parseMore : Bool) :
    Reader.Idle (ty.parse parseMore) := by
  cases parseMore with
  | false => exact idle_parse_false ty
  | true =>
      cases ty with
      | num | pointer => exact Reader.idle_pure _
      | parent => exact Reader.idle_stop
      | _ => cases h

theorem readsMore_iff (a : PointArg) (program : PointType) :
    a.ReadsMore program ↔ a.parseMore program = true ∧ a.ty.hasData = true := by
  unfold PointArg.ReadsMore PointArg.parse
  constructor
  · intro hreads
    refine ⟨?_, ?_⟩ <;> rw [← Bool.not_eq_false] <;> intro hfalse
    · exact hreads (hfalse ▸ idle_parse_false a.ty)
    · exact hreads (idle_parse_of_hasData hfalse _)
  · rintro ⟨hmore, hdata⟩
    rw [hmore]
    exact (starves_parse hdata).not_idle

/-! ## Agreement -/

/-- What a path through the configuration settles about the two decisions. -/
structure ArgSource.Settles (s : ArgSource) (program : PointType) (a : PointArg) : Prop where
  address : IsAddressList a.extraOpList
  parseMore : a.parseMore program = s.wants program
  readMore : a.ty.hasData = true → a.readMore = (s.wants program && s.setsGroupType)

section Paths

variable {env : ParseEnv} {program : PointType} {a : PointArg}

theorem settles_hook {uret : Bool} {argStr : Text} {index : Nat}
    (hprogram : program ∈ (ArgSource.hook uret argStr index).programs)
    (h : env.hookArg uret argStr index = .ok a) :
    (ArgSource.hook uret argStr index).Settles program a := by
  obtain ⟨name, ty, groupType, filters, ops, rfl, hgroup, hops⟩ := hookArg_spec h
  cases uret with
  | true => exact ⟨hops, rfl, fun _ => rfl⟩
  | false =>
      obtain rfl : program = .uprobeEnter := List.mem_singleton.mp hprogram
      refine ⟨hops, rfl, fun hdata => ?_⟩
      rcases hgroup with rfl | hnone
      · rfl
      · exact absurd (hdata.symm.trans hnone) (by decide)

theorem settles_hookRet {retType : Text} (h : env.hookRet retType = .ok a) :
    (ArgSource.hookRet retType).Settles program a := by
  obtain ⟨hpoint, -, -, hops⟩ := hookRet_spec h
  refine ⟨hops, ?_, fun _ => ?_⟩
  · simp [PointArg.parseMore, hpoint, ArgSource.wants]
  · simp [PointArg.readMore, hpoint, ArgSource.wants, ArgSource.setsGroupType]

theorem settles_file {param : ParamConfig} {index : Nat}
    (hprogram : program ∈ (ArgSource.file param index).programs)
    (h : env.getPointArg param (BitVec.ofNat 32 index) .uprobeEnter = .ok a) :
    (ArgSource.file param index).Settles program a := by
  obtain rfl : program = .uprobeEnter := List.mem_singleton.mp hprogram
  obtain ⟨name, regIndex, ty, filters, ops, rfl, -, hops⟩ := getPointArg_spec h
  refine ⟨hops, rfl, fun _ => ?_⟩
  show (PointType.uprobeEnter == if param.setsGroupType then .uprobeEnter else .none) =
    param.setsGroupType
  cases param.setsGroupType <;> rfl

theorem settles_bound {point : UprobeArgs} {argStr : Text} {index : Nat}
    (hprogram : program ∈ (ArgSource.bound point argStr index).programs)
    (h : env.hookArg point.enableUretprobe argStr index = .ok a) :
    (ArgSource.bound point argStr index).Settles program (point.boundArg program a) := by
  obtain ⟨name, ty, groupType, filters, ops, rfl, -, hops⟩ := hookArg_spec h
  have hpoint : ∀ exitRead, ((if exitRead then PointType.sysAll else .sysEnter) == .sysAll ||
      (if exitRead then PointType.sysAll else .sysEnter) == program) =
        (program == .sysEnter || exitRead) := by
    rcases List.mem_pair.mp hprogram with rfl | rfl <;> decide
  refine ⟨hops, hpoint point.exitRead, fun _ => ?_⟩
  show _ = ((program == .sysEnter || point.exitRead) && true)
  rw [Bool.and_true]
  exact hpoint point.exitRead

theorem settles_syscall {param : ParamConfig} {index : Nat}
    (hprogram : program ∈ (ArgSource.syscall param index).programs)
    (h : env.syscallArg param index = .ok a) :
    (ArgSource.syscall param index).Settles program (a.cloneFor program) := by
  unfold ParseEnv.syscallArg at h
  obtain ⟨pointType, hmore, h⟩ := Outcome.bind_eq_ok.mp h
  obtain ⟨name, regIndex, ty, filters, ops, rfl, -, hops⟩ := getPointArg_spec h
  have hpoint : (pointType == .sysAll || pointType == program) =
      (ArgSource.syscall param index).wants program := by
    unfold ParamConfig.morePointType at hmore
    unfold ArgSource.wants
    dsimp only
    split at hmore
    case h_5 => cases hmore
    all_goals
      rename_i hname
      obtain rfl := Except.ok.inj hmore
      rw [hname]
      rcases List.mem_pair.mp hprogram with rfl | rfl <;> decide
  refine ⟨hops, hpoint, fun _ => ?_⟩
  show _ = (_ && true)
  rw [Bool.and_true]
  exact hpoint

theorem settles_syscallRet {param : ParamConfig}
    (hprogram : program ∈ (ArgSource.syscallRet param).programs)
    (h : env.syscallRet param = .ok a) : (ArgSource.syscallRet param).Settles program a := by
  obtain rfl : program = .sysExit := List.mem_singleton.mp hprogram
  obtain ⟨name, regIndex, ty, filters, ops, rfl, -, hops⟩ := getPointArg_spec h
  refine ⟨hops, rfl, fun _ => ?_⟩
  show (PointType.sysExit == if param.setsGroupType then .uprobeEnter else .none) = false
  cases param.setsGroupType <;> rfl

theorem settles {s : ArgSource} (hprogram : program ∈ s.programs)
    (h : s.build env program = .ok a) : s.Settles program a := by
  cases s with
  | hook uret argStr index => exact settles_hook hprogram h
  | hookRet retType => exact settles_hookRet h
  | file param index => exact settles_file hprogram h
  | bound point argStr index =>
      obtain ⟨parsed, hparsed, rfl⟩ := Outcome.map_eq_ok.mp h
      exact settles_bound hprogram hparsed
  | boundRet =>
      obtain rfl := Except.ok.inj h
      obtain rfl : program = .sysExit := List.mem_singleton.mp hprogram
      exact ⟨Or.inl rfl, rfl, fun hdata => absurd hdata (by decide)⟩
  | syscall param index =>
      obtain ⟨parsed, hparsed, rfl⟩ := Outcome.map_eq_ok.mp h
      exact settles_syscall hprogram hparsed
  | syscallRet param => exact settles_syscallRet hprogram h

end Paths

/-- The op list of an argument saves data exactly when the decoder of the event reads it, if
and only if the argument has no data, or its configuration asks for none in that event, or
the path that builds it sets its group type and keeps off the register of a return value. -/
theorem savesMore_iff_readsMore_iff_fits (env : ParseEnv) (s : ArgSource) (program : PointType)
    (a : PointArg) (hprogram : program ∈ s.programs) (h : s.build env program = .ok a) :
    (a.savesMore = true ↔ a.ReadsMore program) ↔ s.Fits program a := by
  have hs := settles hprogram h
  rw [savesMore_iff hs.address, readsMore_iff, hs.parseMore]
  unfold ArgSource.Fits
  cases hdata : a.ty.hasData with
  | false => simp
  | true =>
      rw [hs.readMore hdata]
      cases s.wants program <;> cases s.setsGroupType <;> simp

/-- A parameter of a configuration file with only a type. -/
def typedParam (type : String) : ParamConfig := ⟨[], type.toList, [], [], [], [], [], []⟩

/-- The struct `timespec` in a file is parsed, but not saved. -/
theorem fileParam_timespec_not_saved :
    ∃ a, (ArgSource.file (typedParam "timespec") 0).build builtinEnv .uprobeEnter = .ok a ∧
      ¬ (a.savesMore = true ↔ a.ReadsMore .uprobeEnter) := by
  refine ⟨_, rfl, fun h => ?_⟩
  rw [readsMore_iff] at h
  exact absurd h (by decide)

/-- The argument `str` of a hook point is saved and parsed. -/
theorem hookArg_str_saved :
    ∃ a, (ArgSource.hook false "str".toList 0).build builtinEnv .uprobeEnter = .ok a ∧
      (a.savesMore = true ↔ a.ReadsMore .uprobeEnter) :=
  ⟨_, rfl, (savesMore_iff_readsMore_iff_fits builtinEnv (.hook false "str".toList 0)
    .uprobeEnter _ (by decide) rfl).mpr (Or.inr (Or.inr ⟨rfl, by decide⟩))⟩

/-! ## Every argument takes one of the paths -/

/-- The arguments of a point are built for the programs that save them. -/
structure UprobeArgs.Built (env : ParseEnv) (p : UprobeArgs) : Prop where
  enter : ∀ a ∈ p.pointArgs, env.Builds .uprobeEnter a
  exit : p.enableUretprobe = true → ∀ a ∈ p.pointArgs, env.Builds .uprobeExit a
  ret : ∀ a, p.retArg = some a → env.Builds .uprobeExit a
  bound : p.bindSyscall = true → ∀ a ∈ p.pointArgs, ∃ argStr index,
    env.hookArg p.enableUretprobe argStr index = .ok a

/-- The arguments of a system call are built for the program that saves them. -/
structure SyscallPoint.Built (env : ParseEnv) (point : SyscallPoint) : Prop where
  enter : ∀ a ∈ point.enterPointArgs, env.Builds .sysEnter a
  exit : ∀ a ∈ point.exitPointArgs, env.Builds .sysExit a

section Built

variable {env : ParseEnv} {lib : LibInfo}

theorem filePoint_built {c : PointConfig} {i : Nat} {p : UprobeArgs}
    (h : env.filePoint lib c i = .ok p) : p.Built env := by
  unfold ParseEnv.filePoint at h
  obtain ⟨signal, -, h⟩ := Outcome.bind_eq_ok.mp h
  obtain ⟨location, -, h⟩ := Outcome.bind_eq_ok.mp h
  obtain ⟨args, hargs, h⟩ := Outcome.bind_eq_ok.mp h
  obtain rfl := Except.ok.inj h
  refine ⟨fun a ha => ?_, fun huret => ?_, fun a ha => ?_, fun hbind => ?_⟩
  · obtain ⟨⟨param, index⟩, -, hparam⟩ := Outcome.exists_of_mem_mapM hargs ha
    exact ⟨.file param index, List.mem_singleton_self _, hparam⟩
  · cases huret
  · cases ha
  · cases hbind

theorem enter_mem_programs_hook (uret : Bool) (argStr : Text) (index : Nat) :
    .uprobeEnter ∈ (ArgSource.hook uret argStr index).programs := by
  cases uret <;> simp [ArgSource.programs]

theorem exit_mem_programs_hook {uret : Bool} (h : uret = true) (argStr : Text) (index : Nat) :
    .uprobeExit ∈ (ArgSource.hook uret argStr index).programs := by
  simp [ArgSource.programs, h]

theorem hookArgs_built {uret : Bool} {argsStr : Option Text} {args : List PointArg}
    (h : env.hookArgs uret argsStr = .ok args) :
    ∀ a ∈ args, ∃ argStr index, env.hookArg uret argStr index = .ok a := by
  intro a ha
  cases argsStr with
  | none =>
      obtain rfl := Except.ok.inj h
      cases ha
  | some argsStr =>
      obtain ⟨⟨argStr, index⟩, -, harg⟩ := Outcome.exists_of_mem_mapM h ha
      exact ⟨argStr, index, harg⟩

theorem hookPoint_built {s : Text} {i : Nat} {p : UprobeArgs}
    (h : env.hookPoint lib s i = .ok p) : p.Built env := by
  unfold ParseEnv.hookPoint at h
  obtain ⟨⟨text, exitOffset⟩, -, h⟩ := Outcome.bind_eq_ok.mp h
  obtain ⟨⟨name, off, args⟩, -, h⟩ := Outcome.bind_eq_ok.mp h
  obtain ⟨⟨symbol, offset⟩, -, h⟩ := Outcome.bind_eq_ok.mp h
  obtain ⟨pointArgs, hargs, h⟩ := Outcome.bind_eq_ok.mp h
  obtain ⟨retArg, hret, h⟩ := Outcome.bind_eq_ok.mp h
  obtain rfl := Except.ok.inj h
  have hhook := hookArgs_built hargs
  refine ⟨fun a ha => ?_, fun huret a ha => ?_, fun a ha => ?_, fun _ => hhook⟩
  · obtain ⟨argStr, index, harg⟩ := hhook a ha
    exact ⟨.hook _ argStr index, enter_mem_programs_hook _ argStr index, harg⟩
  · obtain ⟨argStr, index, harg⟩ := hhook a ha
    exact ⟨.hook _ argStr index, exit_mem_programs_hook huret argStr index, harg⟩
  · unfold ParseEnv.hookRetArg at hret
    split at hret
    · obtain ⟨ret, hparse, hsome⟩ := Outcome.map_eq_ok.mp hret
      obtain rfl := Option.some.inj (hsome.trans ha)
      exact ⟨.hookRet _, List.mem_singleton_self _, hparse⟩
    · exact absurd ((Except.ok.inj hret).trans ha) (by simp)

theorem UprobeArgs.Built.marked {p : UprobeArgs} (h : p.Built env) : p.marked.Built env := by
  unfold UprobeArgs.marked
  split
  · exact ⟨h.enter, h.exit, h.ret, h.bound⟩
  · exact h

theorem UprobeArgs.Built.exitPoint {p : UprobeArgs} (h : p.Built env) (n : u32) :
    (p.exitPoint n).Built env :=
  ⟨h.enter, nofun, nofun, nofun⟩

/-- The copies for a bound system call are built like the arguments of the point. -/
theorem SyscallPoint.built_bind {p : UprobeArgs} (h : p.Built env) (hbind : p.bindSyscall = true)
    (point : SyscallPoint) : (point.bind p).Built env := by
  have hcopy (program : PointType) (hprogram : program ∈ [PointType.sysEnter, .sysExit]) :
      ∀ a ∈ p.pointArgs.map (p.boundArg program), env.Builds program a := by
    intro a ha
    obtain ⟨b, hb, rfl⟩ := List.mem_map.mp ha
    obtain ⟨argStr, index, harg⟩ := h.bound hbind b hb
    exact ⟨.bound p argStr index, hprogram, Outcome.map_eq_ok.mpr ⟨b, harg, rfl⟩⟩
  refine ⟨hcopy .sysEnter (by decide), fun a ha => ?_⟩
  rcases List.mem_append.mp ha with hmem | hmem
  · exact hcopy .sysExit (by decide) a hmem
  · obtain rfl := List.mem_singleton.mp hmem
    exact ⟨.boundRet, List.mem_singleton_self _, rfl⟩

theorem syscallArgs_built {params : List (ParamConfig × Nat)} {enters exits : List PointArg}
    (h : env.syscallArgs params = .ok (enters, exits)) :
    (∀ a ∈ enters, env.Builds .sysEnter a) ∧ ∀ a ∈ exits, env.Builds .sysExit a := by
  induction params generalizing enters exits with
  | nil =>
      obtain ⟨rfl, rfl⟩ : [] = enters ∧ [] = exits := Prod.mk.inj (Except.ok.inj h)
      exact ⟨nofun, nofun⟩
  | cons x params ih =>
      obtain ⟨p, index⟩ := x
      unfold ParseEnv.syscallArgs at h
      split at h
      · obtain ⟨a, ha, h⟩ := Outcome.map_eq_ok.mp h
        obtain ⟨rfl, rfl⟩ := Prod.mk.inj h
        refine ⟨nofun, fun b hb => ?_⟩
        obtain rfl := List.mem_singleton.mp hb
        exact ⟨.syscallRet p, List.mem_singleton_self _, ha⟩
      · obtain ⟨a, ha, h⟩ := Outcome.bind_eq_ok.mp h
        obtain ⟨⟨enters', exits'⟩, hrest, h⟩ := Outcome.bind_eq_ok.mp h
        obtain ⟨rfl, rfl⟩ := Prod.mk.inj (Except.ok.inj h)
        obtain ⟨henters, hexits⟩ := ih hrest
        have hcopy (program : PointType) (hprogram : program ∈ [PointType.sysEnter, .sysExit]) :
            env.Builds program (a.cloneFor program) :=
          ⟨.syscall p index, hprogram, Outcome.map_eq_ok.mpr ⟨a, ha, rfl⟩⟩
        exact ⟨List.forall_mem_cons.mpr ⟨hcopy .sysEnter (by decide), henters⟩,
          List.forall_mem_cons.mpr ⟨hcopy .sysExit (by decide), hexits⟩⟩

/-- The system calls of a file. -/
theorem syscallPoint_built {c : SyscallPointConfig} {point : SyscallPoint}
    (h : env.syscallPoint c = .ok point) : point.Built env := by
  unfold ParseEnv.syscallPoint at h
  obtain ⟨⟨enters, exits⟩, hargs, h⟩ := Outcome.bind_eq_ok.mp h
  obtain rfl := Except.ok.inj h
  obtain ⟨henters, hexits⟩ := syscallArgs_built hargs
  exact ⟨henters, hexits⟩

theorem updateSyscallPoint_built {p : UprobeArgs} (hp : p.Built env)
    (hbind : p.bindSyscall = true) {syscalls syscalls' : List SyscallPoint}
    (hall : ∀ point ∈ syscalls, point.Built env)
    (h : updateSyscallPoint p syscalls = .ok syscalls') :
    ∀ point ∈ syscalls', point.Built env := by
  induction syscalls generalizing syscalls' with
  | nil => cases h
  | cons point points ih =>
      obtain ⟨hpoint, hpoints⟩ := List.forall_mem_cons.mp hall
      unfold updateSyscallPoint at h
      split at h
      · obtain rfl := Except.ok.inj h
        exact List.forall_mem_cons.mpr ⟨SyscallPoint.built_bind hp hbind point, hpoints⟩
      · obtain ⟨rest, hrest, rfl⟩ := Outcome.map_eq_ok.mp h
        exact List.forall_mem_cons.mpr ⟨hpoint, ih hpoints hrest⟩

theorem getSyscall_built {ps points : List UprobeArgs} {names : List Text}
    {syscalls syscalls' : List SyscallPoint} (hps : ∀ p ∈ ps, p.Built env)
    (hall : ∀ point ∈ syscalls, point.Built env)
    (h : getSyscall ps syscalls = .ok (names, points, syscalls')) :
    ∀ point ∈ syscalls', point.Built env := by
  induction ps generalizing points names syscalls syscalls' with
  | nil =>
      obtain ⟨-, -, rfl⟩ : [] = names ∧ [] = points ∧ syscalls = syscalls' := by
        simpa [getSyscall] using h
      exact hall
  | cons p ps ih =>
      obtain ⟨hp, hps⟩ := List.forall_mem_cons.mp hps
      unfold getSyscall at h
      cases hbind : p.bindSyscall with
      | true =>
          rw [hbind, if_pos rfl] at h
          obtain ⟨mid, hmid, h⟩ := Outcome.bind_eq_ok.mp h
          obtain ⟨⟨names', points', last⟩, hrest, h⟩ := Outcome.bind_eq_ok.mp h
          obtain ⟨-, -, rfl⟩ : p.name :: names' = names ∧ points' = points ∧ last = syscalls' := by
            simpa using Except.ok.inj h
          exact ih hps (updateSyscallPoint_built hp hbind hall hmid) hrest
      | false =>
          rw [hbind, if_neg (by decide)] at h
          obtain ⟨⟨names', points', last⟩, hrest, h⟩ := Outcome.bind_eq_ok.mp h
          obtain ⟨-, -, rfl⟩ : names' = names ∧ p :: points' = points ∧ last = syscalls' := by
            simpa using Except.ok.inj h
          exact ih hps hall hrest

/-- After start-up every argument of every point and system call was built by one of the
paths, for the programs that save it. -/
theorem startup_built {files : List FileStep} {hooks : List Text}
    {syscalls syscalls' : List SyscallPoint} {points : List UprobeArgs}
    (h : startup env files lib hooks syscalls = .ok (points, syscalls'))
    (hall : ∀ point ∈ syscalls, point.Built env) :
    (∀ p ∈ points, p.Built env) ∧ ∀ point ∈ syscalls', point.Built env := by
  unfold startup at h
  obtain ⟨conf, hfiles, h⟩ := Outcome.bind_eq_ok.mp h
  obtain ⟨conf', hparse, h⟩ := Outcome.bind_eq_ok.mp h
  obtain ⟨⟨names, left, syscalls''⟩, hget, h⟩ := Outcome.bind_eq_ok.mp h
  obtain ⟨rfl, rfl⟩ : left = points ∧ syscalls'' = syscalls' := by
    simpa using Except.ok.inj h
  have hconf : ∀ p ∈ conf.points, p.Built env := by
    refine Outcome.foldlM_invariant (P := fun conf : StackUprobeConfig =>
      ∀ p ∈ conf.points, p.Built env) (fun conf file next hprev hnext => ?_) (by simp) hfiles
    unfold StackUprobeConfig.parseFileConfig at hnext
    obtain ⟨new, hnew, hnext⟩ := Outcome.bind_eq_ok.mp hnext
    obtain rfl := Except.ok.inj hnext
    refine List.forall_mem_append.mpr ⟨hprev, fun p hp => ?_⟩
    obtain ⟨x, -, hx⟩ := Outcome.exists_of_mem_mapM hnew hp
    exact filePoint_built hx
  have hconf' : ∀ p ∈ conf'.points, p.Built env := by
    unfold StackUprobeConfig.parseHookPoint at hparse
    split at hparse
    · cases hparse
    · split at hparse
      · cases hparse
      · obtain ⟨new, hnew, hparse⟩ := Outcome.bind_eq_ok.mp hparse
        obtain rfl := Except.ok.inj hparse
        have hpoints : ∀ p ∈ conf.points ++ new, p.Built env := by
          refine List.forall_mem_append.mpr ⟨hconf, fun p hp => ?_⟩
          obtain ⟨x, -, hx⟩ := Outcome.exists_of_mem_mapM hnew hp
          exact hookPoint_built hx
        obtain ⟨hentries, -, hexits⟩ :=
          addExitPoints_spec (conf.points ++ new).length (conf.points ++ new)
        refine List.forall_mem_append.mpr ⟨fun p hp => ?_, fun p hp => ?_⟩
        · rw [hentries] at hp
          obtain ⟨q, hq, rfl⟩ := List.mem_map.mp hp
          exact (hpoints q hq).marked
        · obtain ⟨q, hq, -, n, rfl⟩ := hexits p hp
          exact (hpoints q hq).exitPoint n
  refine ⟨fun p hp => ?_, getSyscall_built hconf' hall hget⟩
  rw [getSyscall_spec hget] at hp
  exact hconf' p (List.mem_of_mem_filter hp)

end Built

end Stackplz
