import Stackplz.Basic.Numbering
import Stackplz.User.ParseArg

/-!
# Uprobe points

How `StackUprobeConfig` (`config_module.go`) collects its points: from configuration files,
from hook point strings, with an exit point for every exit offset, and without the points
that are bound to system calls.
-/

set_option autoImplicit false

namespace Stackplz

/-! ## Points -/

/-- The library that `Parse_Libinfo` has found. -/
structure LibInfo where
  libPath : Text
  realFilePath : Text
  nonElfOffset : u64
deriving DecidableEq

/-- `UprobeArgs`. -/
structure UprobeArgs where
  index : u32
  enterKey : u32
  lib : LibInfo
  name : Text
  symbol : Text
  offset : u64
  argsStr : Text
  pointArgs : List PointArg
  retArg : Option PointArg
  retType : Text
  bindSyscall : Bool
  exitRead : Bool
  exitOffset : u64
  killSignal : u32
  enableUretprobe : Bool
deriving DecidableEq

/-- `point.ExitOffset != 0x0` -/
def UprobeArgs.hasExit (p : UprobeArgs) : Bool := p.exitOffset != 0

/-- The point marked as one whose registers are saved on entry. -/
def UprobeArgs.markEnter (p : UprobeArgs) : UprobeArgs := { p with enterKey := p.index + 1 }

/-- `GetExitPoint`, the new point. -/
def UprobeArgs.exitPoint (p : UprobeArgs) (index : u32) : UprobeArgs where
  index := index
  enterKey := p.index + 1
  lib := p.lib
  name := "0x".toList ++ Nat.toDigits 16 p.exitOffset.toNat
  symbol := []
  offset := p.exitOffset
  argsStr := p.argsStr
  pointArgs := p.pointArgs
  retArg := none
  retType := []
  bindSyscall := false
  exitRead := false
  exitOffset := 0
  killSignal := p.killSignal
  enableUretprobe := false

/-- `StackUprobeConfig`. -/
structure StackUprobeConfig where
  lib : LibInfo
  points : List UprobeArgs
deriving DecidableEq

/-! ## Configuration files -/

/-- `PointConfig`. -/
structure PointConfig where
  name : Text
  signal : Text
  params : List ParamConfig

/-- The signals of `ParseSignal`. -/
def signals : List (String × u32) :=
  [("SIGABRT", 6), ("SIGALRM", 14), ("SIGBUS", 7), ("SIGCHLD", 17), ("SIGCLD", 17),
    ("SIGCONT", 18), ("SIGFPE", 8), ("SIGHUP", 1), ("SIGILL", 4), ("SIGINT", 2), ("SIGIO", 29),
    ("SIGIOT", 6), ("SIGKILL", 9), ("SIGPIPE", 13), ("SIGPOLL", 29), ("SIGPROF", 27),
    ("SIGPWR", 30), ("SIGQUIT", 3), ("SIGSEGV", 11), ("SIGSTKFLT", 16), ("SIGSTOP", 19),
    ("SIGSYS", 31), ("SIGTERM", 15), ("SIGTRAP", 5), ("SIGTSTP", 20), ("SIGTTIN", 21),
    ("SIGTTOU", 22), ("SIGUNUSED", 31), ("SIGURG", 23), ("SIGUSR1", 10), ("SIGUSR2", 12),
    ("SIGVTALRM", 26), ("SIGWINCH", 28), ("SIGXCPU", 24), ("SIGXFSZ", 25)]

/-- `ParseSignal`. -/
def parseSignal (signal : Text) : Except Failure u32 :=
  if signal = [] then .ok 0 else orPanic (signals.lookup (String.ofList signal))

/-- An offset literal of a point's name. -/
def parseOffset (s : Text) (base : Nat) (text : Text) : Except Failure u64 :=
  match Text.parseUint s base 64 with
  | some offset => .ok (BitVec.ofNat 64 offset)
  | none => .error (.parseFor text)

/-- Symbol and offset of a point of a file: `strstr`, `strstr+0x4` or `0xA94E8`. -/
def PointConfig.location (c : PointConfig) : Except Failure (Text × u64) :=
  match Text.splitOn '+' c.name with
  | [symOrOff] =>
      if Text.hasPrefix symOrOff "0x".toList then do
        let offset ← parseOffset symOrOff 0 c.name
        return ([], offset)
      else return (symOrOff, 0)
  | [symbol, off] => do
      let offset ← parseOffset off 0 c.name
      return (symbol, offset)
  | _ => .error (.parseFor c.name)

/-- One point of `Parse_FileConfig`. -/
def ParseEnv.filePoint (env : ParseEnv) (lib : LibInfo) (c : PointConfig) (index : Nat) :
    Except Failure UprobeArgs := do
  let killSignal ← parseSignal c.signal
  let (symbol, offset) ← c.location
  let pointArgs ← c.params.zipIdx.mapM fun x =>
    env.getPointArg x.1 (BitVec.ofNat 32 x.2) .uprobeEnter
  return {
    index := BitVec.ofNat 32 index
    enterKey := 0
    lib := lib
    name := c.name
    symbol := symbol
    offset := offset
    argsStr := []
    pointArgs := pointArgs
    retArg := none
    retType := []
    bindSyscall := false
    exitRead := false
    exitOffset := 0
    killSignal := killSignal
    enableUretprobe := false }

/-- `Parse_FileConfig`: the points of each file are numbered from zero. -/
def StackUprobeConfig.parseFileConfig (conf : StackUprobeConfig) (env : ParseEnv)
    (file : List PointConfig) : Except Failure StackUprobeConfig := do
  let points ← file.zipIdx.mapM fun x => env.filePoint conf.lib x.1 x.2
  return { conf with points := conf.points ++ points }

/-! ## Hook point strings -/

/-- A hook point string without its suffix, and what the suffix asks for. -/
structure HookSuffix where
  text : Text
  enableUretprobe : Bool
  retType : Text
  bindSyscall : Bool
  exitRead : Bool
deriving DecidableEq

/-- The type after `]r`, which is cut off together with the `r`. -/
def cutRetType (s : Text) : Text × Option Text :=
  match Text.lastIndexOf s "]r".toList with
  | some idx =>
      if idx + 2 < s.length then (s.take (idx + 1), some (s.drop (idx + 2))) else (s, none)
  | none => (s, none)

/-- The suffixes `r`, `s` and `ss`. -/
def hookSuffix (configStr : Text) : HookSuffix :=
  let (s, retType) := cutRetType configStr
  let uret := retType.isSome
  let retType := retType.getD []
  if Text.hasSuffix s "ss".toList && s.contains ']' then
    ⟨Text.dropLast s 2, uret, retType, true, true⟩
  else if Text.hasSuffix s "r".toList && s.contains ']' then
    ⟨Text.dropLast s 1, true, retType, false, false⟩
  else if Text.hasSuffix s "s".toList && s.contains ']' then
    ⟨Text.dropLast s 1, uret, retType, true, false⟩
  else ⟨s, uret, retType, false, false⟩

/-- The text up to the arguments' bracket and the exit offset after it. -/
def cutExitOffset (s : Text) : Except Failure (Text × Option u64) :=
  match Text.splitOn ']' s with
  | [front, back] =>
      if back = [] ∨ back = "r".toList ∨ back = "s".toList ∨ back = "ss".toList then
        .ok (front ++ [']'], none)
      else
        match Text.parseUint back 0 64 with
        | some offset => .ok (front ++ [']'], some (BitVec.ofNat 64 offset))
        | none => .error .panic
  | _ => .ok (s, none)

/-- `\[.+?\]` after its opening bracket and one character: the text inside. -/
def untilBracket : Text → Option Text
  | [] => none
  | c :: cs =>
      if c = ']' then some []
      else if c = '\n' then none
      else (untilBracket cs).map (c :: ·)

/-- The groups of `(\w+)(\+0x[[:xdigit:]]+)?(\[.+?\])?` at its first match: the name, the
digits of the offset after it and the text inside the brackets. -/
def hookGroups (s : Text) : Option (Text × Text × Option Text) :=
  let start := s.dropWhile fun c => !Text.isWord c
  if start = [] then none
  else
    let name := start.takeWhile Text.isWord
    let rest := start.dropWhile Text.isWord
    let off :=
      match rest with
      | '+' :: '0' :: 'x' :: digits => digits.takeWhile Text.isXDigit
      | _ => []
    let rest := if off = [] then rest else rest.drop (off.length + 3)
    let args :=
      match rest with
      | '[' :: c :: cs => if c = '\n' then none else (untilBracket cs).map (c :: ·)
      | _ => none
    some (name, off, args)

/-- The match of a hook point string, which is an error where there is none. -/
def matchHook (s : Text) : Except Failure (Text × Text × Option Text) :=
  match hookGroups s with
  | some groups => .ok groups
  | none => .error (.parseFor s)

/-- Symbol and offset of a hook point; an offset after the name replaces one that is the
name. -/
def hookLocation (name off configStr : Text) : Except Failure (Text × u64) :=
  if Text.hasPrefix name "0x".toList then do
    let base ← parseOffset (Text.trimPrefix name "0x".toList) 16 configStr
    let offset ← if off = [] then .ok base else parseOffset off 16 configStr
    return ([], offset)
  else do
    let offset ← if off = [] then .ok 0 else parseOffset off 16 configStr
    return (name, offset)

/-- One argument of a hook point. With a uretprobe it is read by every program. -/
def ParseEnv.hookArg (env : ParseEnv) (uret : Bool) (argStr : Text) (index : Nat) :
    Except Failure PointArg := do
  let name := "arg_".toList ++ (Nat.repr index).toList
  let a ← env.parseArgType argStr
    (newUprobePointArg name (.pointer .plain) (BitVec.ofNat 32 index))
  return if uret then { a with pointType := .sysAll } else a

/-- What a hook point string makes of one argument. -/
theorem hookArg_spec {env : ParseEnv} {uret : Bool} {argStr : Text} {index : Nat} {a : PointArg}
    (h : env.hookArg uret argStr index = .ok a) :
    ∃ name ty groupType filters ops,
      a = { newUprobePointArg name ty (BitVec.ofNat 32 index) with
        pointType := if uret then .sysAll else .uprobeEnter
        groupType := groupType, filterIndexList := filters, extraOpList := ops } ∧
      (groupType = .uprobeEnter ∨ ty.hasData = false) ∧ IsAddressList ops := by
  unfold ParseEnv.hookArg at h
  obtain ⟨parsed, hparsed, h⟩ := Outcome.bind_eq_ok.mp h
  obtain ⟨ty, groupType, filters, ops, rfl, hgroup, hops⟩ := parseArgType_spec hparsed
  cases uret <;>
    exact ⟨_, ty, groupType, filters, ops, (Except.ok.inj h).symm, hgroup, hops⟩

/-- The arguments of a hook point, from the text inside its brackets. -/
def ParseEnv.hookArgs (env : ParseEnv) (uret : Bool) :
    Option Text → Except Failure (List PointArg)
  | none => .ok []
  | some argsStr => (Text.splitOn ',' argsStr).zipIdx.mapM fun x => env.hookArg uret x.1 x.2

/-- The return value of a hook point, read by every program; by default its word only. -/
def ParseEnv.hookRet (env : ParseEnv) (retType : Text) : Except Failure PointArg :=
  let a : PointArg :=
    { newUprobePointArg "ret".toList (.pointer .plain) 0 with isRet := true, pointType := .sysAll }
  if retType = [] then .ok a else env.parseArgType retType a

theorem hookRet_spec {env : ParseEnv} {retType : Text} {a : PointArg}
    (h : env.hookRet retType = .ok a) :
    a.pointType = .sysAll ∧ a.isRet = true ∧ a.regIndex = 0 ∧ IsAddressList a.extraOpList := by
  unfold ParseEnv.hookRet at h
  dsimp only at h
  split at h
  · obtain rfl := Except.ok.inj h
    exact ⟨rfl, rfl, rfl, Or.inl rfl⟩
  · obtain ⟨ty, groupType, filters, ops, rfl, -, hops⟩ := parseArgType_spec h
    exact ⟨rfl, rfl, rfl, hops⟩

/-- `RetArg`, which only a uretprobe has. -/
def ParseEnv.hookRetArg (env : ParseEnv) (suffix : HookSuffix) :
    Except Failure (Option PointArg) :=
  if suffix.enableUretprobe then (env.hookRet suffix.retType).map some else .ok none

/-- One string of `Parse_HookPoint`. -/
def ParseEnv.hookPoint (env : ParseEnv) (lib : LibInfo) (configStr : Text) (index : Nat) :
    Except Failure UprobeArgs := do
  let suffix := hookSuffix configStr
  let (text, exitOffset) ← cutExitOffset suffix.text
  let (name, off, args) ← matchHook text
  let (symbol, offset) ← hookLocation name off text
  let pointArgs ← env.hookArgs suffix.enableUretprobe args
  let retArg ← env.hookRetArg suffix
  return {
    index := BitVec.ofNat 32 index
    enterKey := 0
    lib := lib
    name := name
    symbol := symbol
    offset := offset
    argsStr := args.getD []
    pointArgs := pointArgs
    retArg := retArg
    retType := suffix.retType
    bindSyscall := suffix.bindSyscall
    exitRead := suffix.exitRead || exitOffset.isSome
    exitOffset := exitOffset.getD 0
    killSignal := 0
    enableUretprobe := suffix.enableUretprobe }

/-- The last loop of `Parse_HookPoint` over the points, when `count` points are in the list:
the points with their enter keys, and the exit points that are appended. -/
def addExitPoints : Nat → List UprobeArgs → List UprobeArgs × List UprobeArgs
  | _, [] => ([], [])
  | count, p :: ps =>
      let entry := if p.hasExit || p.enableUretprobe then p.markEnter else p
      if p.hasExit then
        let (entries, exits) := addExitPoints (count + 1) ps
        (entry :: entries, p.exitPoint (BitVec.ofNat 32 count) :: exits)
      else
        let (entries, exits) := addExitPoints count ps
        (entry :: entries, exits)

/-- `Parse_HookPoint`. -/
def StackUprobeConfig.parseHookPoint (conf : StackUprobeConfig) (env : ParseEnv)
    (configs : List Text) : Except Failure StackUprobeConfig :=
  if conf.lib.libPath = [] then .error .emptyLibrary
  else if configs.length > 6 then .error .tooManyPoints
  else do
    let hooks ← configs.zipIdx.mapM fun x => env.hookPoint conf.lib x.1 x.2
    let points := conf.points ++ hooks
    let (entries, exits) := addExitPoints points.length points
    return { conf with points := entries ++ exits }

/-! ## Points bound to system calls -/

/-- `SyscallPoint`. -/
structure SyscallPoint where
  nr : u32
  name : Text
  enterPointArgs : List PointArg
  exitPointArgs : List PointArg
deriving DecidableEq

/-- The enter and exit copy of an argument in `UpdateSyscallPoint`. -/
def UprobeArgs.boundArg (p : UprobeArgs) (groupType : PointType) (a : PointArg) : PointArg :=
  { a.clone with
    groupType := groupType, pointType := if p.exitRead then .sysAll else .sysEnter }

/-- What `UpdateSyscallPoint` makes of the system call's point. -/
def SyscallPoint.bind (point : SyscallPoint) (p : UprobeArgs) : SyscallPoint :=
  { point with
    enterPointArgs := p.pointArgs.map (p.boundArg .sysEnter)
    exitPointArgs := p.pointArgs.map (p.boundArg .sysExit) ++
      [newExitPointArg "ret".toList (.num .int .plain)] }

/-- `UpdateSyscallPoint` for a point that is bound: the first system call of its name. -/
def updateSyscallPoint (p : UprobeArgs) :
    List SyscallPoint → Except Failure (List SyscallPoint)
  | [] => .error .panic
  | point :: points =>
      if point.name = p.name then .ok (point.bind p :: points)
      else (updateSyscallPoint p points).map (point :: ·)

/-- `GetSyscall`: the names of the bound points, the points that are left, and the system
calls. -/
def getSyscall : List UprobeArgs → List SyscallPoint →
    Except Failure (List Text × List UprobeArgs × List SyscallPoint)
  | [], syscalls => .ok ([], [], syscalls)
  | p :: ps, syscalls =>
      if p.bindSyscall then do
        let syscalls ← updateSyscallPoint p syscalls
        let (names, points, syscalls) ← getSyscall ps syscalls
        return (p.name :: names, points, syscalls)
      else do
        let (names, points, syscalls) ← getSyscall ps syscalls
        return (names, p :: points, syscalls)

/-! ## Start-up -/

/-- A configuration file with the library that was found for it. -/
structure FileStep where
  lib : LibInfo
  points : List PointConfig

/-- The start-up steps that make the point list: the files, the hook point strings with the
library of the command line, and the binding to system calls. -/
def startup (env : ParseEnv) (files : List FileStep) (lib : LibInfo) (hooks : List Text)
    (syscalls : List SyscallPoint) : Except Failure (List UprobeArgs × List SyscallPoint) := do
  let conf ← files.foldlM
    (fun conf file => ({ conf with lib := file.lib }).parseFileConfig env file.points)
    (⟨lib, []⟩ : StackUprobeConfig)
  let conf ← ({ conf with lib := lib }).parseHookPoint env hooks
  let (_, points, syscalls) ← getSyscall conf.points syscalls
  return (points, syscalls)

end Stackplz
