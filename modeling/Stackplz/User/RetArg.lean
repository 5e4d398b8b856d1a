import Stackplz.User.HookPoint
import Stackplz.User.TypeData

/-!
# The return value of a uretprobe

`GetUretConfig` packs the op list of `RetArg` before those of the arguments. The list reads the
return value into `reg_value` and saves it, but unlike the list of an argument it does not move it
to `read_addr`, where the ops of the type read. So the data of a return value is the data at the
address that is there already, left by the event before: `retArg_data_iff`.
-/

set_option autoImplicit false

namespace Stackplz

/-! ## The packed list -/

/-- The arguments of the uretprobe in the order in which they are packed. -/
def UprobeArgs.uretArgs (p : UprobeArgs) : List PointArg := p.retArg.toList ++ p.pointArgs

/-- `GetUretConfig`; `none` is a panic. -/
def UprobeArgs.getUretConfig (m : OpManager) (p : UprobeArgs) :
    Option (PointArgs stackMaxOpCount) :=
  PointArgs.pack stackMaxOpCount m p.enterKey p.uretArgs

/-- The `RetArg` of a hook point is the one for its return type. -/
theorem hookPoint_retArg {env : ParseEnv} {lib : LibInfo} {s : Text} {i : Nat} {p : UprobeArgs}
    {ret : PointArg} (hpoint : env.hookPoint lib s i = .ok p) (hret : p.retArg = some ret) :
    env.hookRet p.retType = .ok ret := by
  unfold ParseEnv.hookPoint at hpoint
  obtain ⟨⟨text, exitOffset⟩, -, hpoint⟩ := Outcome.bind_eq_ok.mp hpoint
  obtain ⟨⟨name, off, args⟩, -, hpoint⟩ := Outcome.bind_eq_ok.mp hpoint
  obtain ⟨⟨symbol, offset⟩, -, hpoint⟩ := Outcome.bind_eq_ok.mp hpoint
  obtain ⟨pointArgs, -, hpoint⟩ := Outcome.bind_eq_ok.mp hpoint
  obtain ⟨retArg, hretArg, hpoint⟩ := Outcome.bind_eq_ok.mp hpoint
  obtain rfl := Except.ok.inj hpoint
  obtain rfl : retArg = some ret := hret
  unfold ParseEnv.hookRetArg at hretArg
  split at hretArg
  · cases hok : env.hookRet (hookSuffix s).retType with
    | error e =>
        rw [hok] at hretArg
        cases hretArg
    | ok a =>
        rw [hok] at hretArg
        obtain rfl := Option.some.inj (Except.ok.inj hretArg)
        rfl
  · cases Except.ok.inj hretArg

/-- The op list of a `RetArg`: the word, then the ops of the type. -/
theorem getOpList_ret {env : ParseEnv} {retType : Text} {ret : PointArg}
    (h : env.hookRet retType = .ok ret) :
    ret.getOpList = [opcReadRet, opcSaveReg] ++ (ret.ty.opList ++ ret.dataFilterOps) := by
  obtain ⟨htype, hisRet, hreg, -⟩ := hookRet_spec h
  have hmax : ret.regIndex ≠ regArm64Max := by
    rw [hreg]
    decide
  have hmore : ret.readMore = true := by
    unfold PointArg.readMore
    rw [htype]
    rfl
  unfold PointArg.getOpList PointArg.wordOps PointArg.valueFilterOps
  rw [if_neg hmax, if_pos hisRet, hmore, if_pos rfl, hisRet, Bool.true_or, Bool.true_or,
    if_pos rfl, List.append_nil]

/-! ## The data of a return value -/

/-- **The data of a return value.** The uretprobe gets through the ops of its return value, and
unless a save was refused it has appended the value `v` and the data of the type at the address
that was in `read_addr` before. So what it has appended is `v` with its data exactly when the two
addresses have the same data. -/
theorem retArg_data_iff {parser : ParseEnv} {lib : LibInfo} {s : Text} {i : Nat} {p : UprobeArgs}
    {ret : PointArg} (hpoint : parser.hookPoint lib s i = .ok p) (hret : p.retArg = some ret)
    (hregs : ret.ty.RegsExist) {m : OpManager} {packed : PointArgs stackMaxOpCount}
    (hpack : p.getUretConfig m = some packed)
    (hmem : ∀ a ∈ p.uretArgs, ∀ op ∈ a.getOpList, op ∈ m.opList) {env : ProbeEnv}
    (hloaded : m.LoadedIn env.opList) {v : u64} {leftover : OpCtx} {event : EventData}
    {strBuf : StrBufMap} {st : LoopState}
    (hstart : LoopState.ListStart env packed.opKeyList
      (Probe.uretprobeStack.enter env v leftover event strBuf) st) :
    ∃ xs next, (interpreter env packed.opKeyList).run st xs = some next ∧
      next.AtOp (2 + ret.ty.opList.length) ∧
      (next.event.refused = false → ∃ bytes, next.event.args = st.event.args ++ bytes ∧
        (Encodes (.word v :: ret.ty.dataAt env v) bytes ↔
          ret.ty.dataAt env st.ctx.readAddr = ret.ty.dataAt env v)) := by
  have hmax : stackMaxOpCount < 2 ^ 32 := by decide
  obtain ⟨hat, hreg0, hzero, hblack⟩ := listStart_kept hstart rfl rfl rfl
  have hkeys := packed_keysAt hmax (by decide) hloaded hmem hpack
  have hargs : packedOps p.uretArgs = [opcReadRet.toOpConfig, opcSaveReg.toOpConfig] ++
      (ret.ty.opList.map NamedOp.toOpConfig ++ (ret.dataFilterOps ++
        p.pointArgs.flatMap PointArg.getOpList).map NamedOp.toOpConfig) := by
    unfold packedOps UprobeArgs.uretArgs
    rw [hret, Option.toList_some, List.singleton_append, List.flatMap_cons,
      getOpList_ret (hookPoint_retArg hpoint hret)]
    simp only [List.map_append, List.append_assoc]
    rfl
  rw [hargs] at hkeys
  obtain ⟨hword, hrest⟩ := keysAt_append hkeys
  obtain ⟨htype, -⟩ := keysAt_append hrest
  -- the value is saved, and `read_addr` stays as it is
  obtain ⟨mid, hrun, hatMid, hstate, hcount, hevent⟩ :=
    run_runsOn hmax hat hword (by decide) (by decide) hblack
  have haddr : mid.ctx.readAddr = st.ctx.readAddr := congrArg (fun o => o.data.readAddr) hstate
  obtain ⟨xs, next, hnext⟩ := opList_runs hmax hregs htype hatMid (hcount.trans hzero)
    (run_matchBlacklist hblack hrun)
  refine ⟨_, next, Machine.run_append_eq_some.mpr ⟨mid, hrun, hnext.run⟩, hnext.atOp,
    fun hroom => ?_⟩
  obtain ⟨hmid, bytes', hargs', hdata⟩ := hnext.event hroom
  obtain ⟨-, bytes, hargs, hvalue⟩ := hevent hmid
  have hlog : (execSteps env ([opcReadRet.toOpConfig, opcSaveReg.toOpConfig].flatMap
      OpConfig.steps) st.opState).1 = [.word v] :=
    congrArg (fun w => [Saved.word w]) hreg0
  rw [haddr] at hdata
  rw [hlog] at hvalue
  have hsaved := (Encodes.of_written hvalue).append hdata
  refine ⟨bytes ++ bytes', by rw [hargs', hargs, List.append_assoc], fun h => ?_, fun h => ?_⟩
  · have hsame := Encodes.inj hsaved h ⟨trivial, ret.ty.aligned_dataAt env _ _⟩
      (List.forall_mem_cons.mpr ⟨trivial, ret.ty.short_dataAt env _⟩)
      (List.forall_mem_cons.mpr ⟨trivial, ret.ty.short_dataAt env _⟩)
    exact (List.cons.inj hsame).2
  · rw [← h]
    exact hsaved

/-! ### A string argument and a string return value -/

/-- The point of the hook `f[str]rstr`. -/
def strPoint : UprobeArgs where
  index := 0
  enterKey := 0
  lib := ⟨"/lib/b.so".toList, "/lib/b.so".toList, 0⟩
  name := ['f']
  symbol := ['f']
  offset := 0
  argsStr := "str".toList
  pointArgs := [{ newUprobePointArg "arg_0".toList .string 0 with
    pointType := .sysAll, groupType := .uprobeEnter }]
  retArg := some { newUprobePointArg "ret".toList .string 0 with
    isRet := true, pointType := .sysAll, groupType := .uprobeEnter }
  retType := "str".toList
  bindSyscall := false
  exitRead := false
  exitOffset := 0
  killSignal := 0
  enableUretprobe := true

/-- The op table after the hook is parsed. -/
def strTable : OpManager :=
  (strPoint.uretArgs.flatMap PointArg.getOpList).foldl OpManager.addOp .init

/-- The list of the entry probe. -/
def strEnter : PointArgs stackMaxOpCount :=
  (PointArgs.pack stackMaxOpCount strTable strPoint.enterKey strPoint.pointArgs).get
    (by decide +kernel)

/-- The list of the uretprobe. -/
def strExit : PointArgs stackMaxOpCount :=
  (strPoint.getUretConfig strTable).get (by decide +kernel)

/-- A call of `f` with the string `B` at `0x2000`, in a process with a string `A` at `0x1000`. -/
def strEnvWith (m : OpManager) : ProbeEnv where
  mem := fun addr =>
    if addr = 0x1000 then some 65
    else if addr = 0x2000 then some 66
    else if addr = 0x1001 ∨ addr = 0x2001 then some 0
    else none
  regs := ⟨Vector.replicate 31 0x2000, 0, 0, 0⟩
  opList := m.load
  argFilter := .empty

theorem loadedIn_strEnvWith {m : OpManager} (h : m.opList.length ≤ 256) :
    m.LoadedIn (strEnvWith m).opList := OpManager.loadedIn_load h

def strEnv : ProbeEnv := strEnvWith strTable

/-- What the event at the entry leaves behind. -/
def strLeftover : OpCtx :=
  (Probe.probeStack.run strEnv strEnter 0 .cleared .init .empty).ctx

/-- The call returns the address of `A`, and the uretprobe saves the string `B` of the argument
with it. -/
theorem strPoint_saves_argument :
    builtinEnv.hookPoint strPoint.lib "f[str]rstr".toList 0 = .ok strPoint ∧
      strPoint.getUretConfig strTable = some strExit ∧
      (Probe.uretprobeStack.run strEnv strExit 0x1000 strLeftover .init .empty).event.args.take 16 =
        Saved.encode 4 (.word 0x1000) ++ Saved.encode 5 (.bytes [66, 0]) ∧
      ¬ Encodes (.word 0x1000 :: ArgType.string.dataAt strEnv 0x1000)
        (Saved.encode 4 (.word 0x1000) ++ Saved.encode 5 (.bytes [66, 0])) := by
  refine ⟨by decide +kernel, (Option.some_get _).symm, by decide +kernel, fun h => ?_⟩
  have hdata : ArgType.string.dataAt strEnv 0x1000 = [.bytes [65, 0]] := by decide +kernel
  have hsaved : Encodes [.word 0x1000, .bytes [66, 0]]
      (Saved.encode 4 (.word 0x1000) ++ (Saved.encode 5 (.bytes [66, 0]) ++ [])) :=
    .cons (.word 0x1000) 4 (.cons (.bytes [66, 0]) 5 .nil)
  rw [List.append_nil] at hsaved
  rw [hdata] at h
  have hsame := Encodes.inj hsaved h ⟨trivial, trivial, trivial⟩
    (List.forall_mem_cons.mpr ⟨trivial, List.forall_mem_singleton.mpr (by
      show [(66 : u8), 0].length < 2 ^ 32
      decide)⟩)
    (List.forall_mem_cons.mpr ⟨trivial, List.forall_mem_singleton.mpr (by
      show [(65 : u8), 0].length < 2 ^ 32
      decide)⟩)
  exact absurd hsame (by decide)

/-- The state in which the list of the uretprobe starts in that call, when it returns `v`. -/
def strStart (v : u64) : LoopState :=
  Probe.uretprobeStack.enter strEnv v strLeftover .init .empty

/-- The string of the return value is saved when `f` returns its argument, and not when it returns
the address of `A`. -/
theorem strPoint_data :
    (∃ xs next, (interpreter strEnv strExit.opKeyList).run (strStart 0x2000) xs = some next ∧
      ∃ bytes, next.event.args = (strStart 0x2000).event.args ++ bytes ∧
        Encodes [.word 0x2000, .bytes [66, 0]] bytes) ∧
    ∃ xs next, (interpreter strEnv strExit.opKeyList).run (strStart 0x1000) xs = some next ∧
      ∃ bytes, next.event.args = (strStart 0x1000).event.args ++ bytes ∧
        ¬ Encodes [.word 0x1000, .bytes [65, 0]] bytes := by
  have hpoint : builtinEnv.hookPoint strPoint.lib "f[str]rstr".toList 0 = .ok strPoint := by
    decide +kernel
  have hops : ∀ a ∈ strPoint.uretArgs, ∀ op ∈ a.getOpList, op ∈ strTable.opList := by
    decide +kernel
  have hloaded : strTable.LoadedIn strEnv.opList := loadedIn_strEnvWith (by decide +kernel)
  have hreturn (v : u64) (hv : v = 0x2000 ∨ v = 0x1000) :
      ∃ xs next, (interpreter strEnv strExit.opKeyList).run (strStart v) xs = some next ∧
        ∃ bytes, next.event.args = (strStart v).event.args ++ bytes ∧
          (Encodes (.word v :: ArgType.string.dataAt strEnv v) bytes ↔
            ArgType.string.dataAt strEnv (strStart v).ctx.readAddr =
              ArgType.string.dataAt strEnv v) := by
    have hstart : LoopState.ListStart strEnv strExit.opKeyList
        (Probe.uretprobeStack.enter strEnv v strLeftover .init .empty) (strStart v) := by
      rcases hv with rfl | rfl <;>
        exact ⟨[], Nat.zero_le 1, rfl, by decide +kernel, by decide +kernel⟩
    have hbound : (readArgsLoop strEnv strExit.opKeyList 8 (strStart v)).1 ≠ .bound := by
      rcases hv with rfl | rfl <;> decide +kernel
    have hrooms : ∀ m < 8,
        (readArgsLoop strEnv strExit.opKeyList m (strStart v)).2.event.refused = false := by
      rcases hv with rfl | rfl <;> decide +kernel
    obtain ⟨xs, next, hrun, -, hdata⟩ := retArg_data_iff hpoint rfl trivial
      (Option.some_get _).symm hops hloaded hstart
    have hroom : next.event.refused = false :=
      run_of_iterations (fun st => st.event.refused = false) hbound hrooms hrun
    exact ⟨xs, next, hrun, hdata hroom⟩
  -- the entry has left the address of `B` behind
  constructor
  · obtain ⟨xs, next, hrun, bytes, hargs, hsaved⟩ := hreturn 0x2000 (Or.inl rfl)
    refine ⟨xs, next, hrun, bytes, hargs, ?_⟩
    have hstring : ArgType.string.dataAt strEnv 0x2000 = [.bytes [66, 0]] := by decide +kernel
    rw [← hstring]
    exact hsaved.mpr (by decide +kernel)
  · obtain ⟨xs, next, hrun, bytes, hargs, hsaved⟩ := hreturn 0x1000 (Or.inr rfl)
    refine ⟨xs, next, hrun, bytes, hargs, fun h => ?_⟩
    have hstring : ArgType.string.dataAt strEnv 0x1000 = [.bytes [65, 0]] := by decide +kernel
    rw [← hstring] at h
    exact absurd (hsaved.mp h) (by decide +kernel)

end Stackplz
