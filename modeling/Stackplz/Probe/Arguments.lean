import Stackplz.Probe.ReadArgs

/-!
# Registers kept between entry and return

`save_regs`, `load_regs` and `del_regs` (`arguments.h`) keep one register file for each
event id and thread in `ctx_regs_map`; a save into a full map is lost without notice. The
words every event starts with are modelled here too.
-/

set_option autoImplicit false

namespace Stackplz

/-- `enum event_id_e`. -/
def syscallEnter : u32 := 456
def syscallExit : u32 := 457
def uprobeEnter : u32 := 458
def uprobeExit : u32 := 459

/-- `id << 32 | tid`. -/
def ctxRegsKey (eventId tid : u32) : u64 := eventId ++ tid

/-- Different event ids or threads have different slots. -/
theorem ctxRegsKey_inj {e e' tid tid' : u32} :
    ctxRegsKey e tid = ctxRegsKey e' tid' ↔ e = e' ∧ tid = tid' := by
  constructor
  · intro h
    have hleft := congrArg (BitVec.extractLsb' 32 32) h
    have hright := congrArg (BitVec.extractLsb' 0 32) h
    unfold ctxRegsKey at hleft hright
    rw [BitVec.extractLsb'_append_eq_left, BitVec.extractLsb'_append_eq_left] at hleft
    rw [BitVec.extractLsb'_append_eq_right, BitVec.extractLsb'_append_eq_right] at hright
    exact ⟨hleft, hright⟩
  · rintro ⟨rfl, rfl⟩
    rfl

/-- `save_regs`. -/
def saveRegs (m : CtxRegsMap) (regs : CtxRegs) (eventId tid : u32) : CtxRegsMap :=
  m.put (ctxRegsKey eventId tid) regs

/-- `load_regs`; `none` is the result `-1`. -/
def loadRegs (m : CtxRegsMap) (eventId tid : u32) : Option CtxRegs :=
  m.lookup (ctxRegsKey eventId tid)

/-- `del_regs`. -/
def delRegs (m : CtxRegsMap) (eventId tid : u32) : CtxRegsMap :=
  m.erase (ctxRegsKey eventId tid)

/-- The slot has room for a save. -/
def RegsRoom (m : CtxRegsMap) (eventId tid : u32) : Prop :=
  m.HasRoom (ctxRegsKey eventId tid)

theorem loadRegs_saveRegs_self {m : CtxRegsMap} {eventId tid : u32} (regs : CtxRegs)
    (h : RegsRoom m eventId tid) :
    loadRegs (saveRegs m regs eventId tid) eventId tid = some regs :=
  BoundedMap.lookup_put_self regs h

/-- After a save the slot holds what was saved, or, when the map was full, nothing. -/
theorem loadRegs_saveRegs (m : CtxRegsMap) (regs : CtxRegs) (eventId tid : u32) :
    loadRegs (saveRegs m regs eventId tid) eventId tid = some regs ∨
      loadRegs (saveRegs m regs eventId tid) eventId tid = none := by
  by_cases h : RegsRoom m eventId tid
  · exact Or.inl (loadRegs_saveRegs_self regs h)
  · refine Or.inr ?_
    rw [saveRegs, BoundedMap.put_of_full regs h, loadRegs, BoundedMap.lookup_eq_none]
    exact fun hkey => h (BoundedMap.hasRoom_of_hasKey hkey)

theorem loadRegs_saveRegs_ne (m : CtxRegsMap) (regs : CtxRegs) {e e' tid tid' : u32}
    (h : e' ≠ e ∨ tid' ≠ tid) :
    loadRegs (saveRegs m regs e tid) e' tid' = loadRegs m e' tid' := by
  refine BoundedMap.lookup_put_ne m regs fun hkey => ?_
  obtain ⟨he, ht⟩ := ctxRegsKey_inj.mp hkey
  exact h.elim (fun hne => hne he) (fun hne => hne ht)

@[simp] theorem loadRegs_delRegs_self (m : CtxRegsMap) (eventId tid : u32) :
    loadRegs (delRegs m eventId tid) eventId tid = none :=
  BoundedMap.lookup_erase_self m _

theorem loadRegs_delRegs_ne (m : CtxRegsMap) {e e' tid tid' : u32}
    (h : e' ≠ e ∨ tid' ≠ tid) :
    loadRegs (delRegs m e tid) e' tid' = loadRegs m e' tid' := by
  refine BoundedMap.lookup_erase_ne m fun hkey => ?_
  obtain ⟨he, ht⟩ := ctxRegsKey_inj.mp hkey
  exact h.elim (fun hne => hne he) (fun hne => hne ht)

/-! ## The head of an event -/

/-- The link register, which a 32-bit process keeps in `r14`. -/
def CommonFilter.lr (filter : CommonFilter) (regs : CtxRegs) : u64 :=
  if filter.is32bit ≠ 0 then regs.get 14 else regs.get 30

/-- The stack pointer, which a 32-bit process keeps in `r13`. -/
def CommonFilter.sp (filter : CommonFilter) (regs : CtxRegs) : u64 :=
  if filter.is32bit ≠ 0 then regs.get 13 else regs.sp

/-- The words saved before the arguments: the point key or system call number, then `lr`,
`sp` and `pc`. -/
def saveHead (filter : CommonFilter) (key : u32) (regs : CtxRegs) (event : EventData) :
    EventData :=
  let word (event : EventData) (value : u64) (index : u8) : EventData :=
    (saveToSubmitBuf event (LittleEndian.ofWord 8 value) index).1
  let event := (saveToSubmitBuf event (LittleEndian.ofWord 4 key) 0).1
  let event := word event (filter.lr regs) 1
  let event := word event (filter.sp regs) 2
  word event regs.pc 3

/-- The head of a new event is committed. -/
theorem saveHead_init (filter : CommonFilter) (key : u32) (regs : CtxRegs) :
    saveHead filter key regs .init =
      (((EventData.init.commit (0 :: LittleEndian.ofWord 4 key)).commit
        (1 :: LittleEndian.ofWord 8 (filter.lr regs))).commit
        (2 :: LittleEndian.ofWord 8 (filter.sp regs))).commit
        (3 :: LittleEndian.ofWord 8 regs.pc) := by
  have hkey : (saveToSubmitBuf .init (LittleEndian.ofWord 4 key) 0).1 =
      EventData.init.commit (0 :: LittleEndian.ofWord 4 key) :=
    congrArg Prod.fst (saveToSubmitBuf_of_room (by simp) (by decide))
  have hword (event : EventData) (value : u64) (index : u8) (h : event.bufOff ≤ 64) :
      (saveToSubmitBuf event (LittleEndian.ofWord 8 value) index).1 =
        event.commit (index :: LittleEndian.ofWord 8 value) :=
    congrArg Prod.fst (saveToSubmitBuf_of_room (by simp) (Nat.le_trans h (by decide)))
  unfold saveHead
  dsimp only
  rw [hkey, hword _ (filter.lr regs) 1, hword _ (filter.sp regs) 2, hword _ regs.pc 3]
  all_goals simp [EventData.bufOff, EventData.commit, EventData.init]

theorem saveHead_args (filter : CommonFilter) (key : u32) (regs : CtxRegs) :
    (saveHead filter key regs .init).args =
      (0 :: LittleEndian.ofWord 4 key) ++ (1 :: LittleEndian.ofWord 8 (filter.lr regs)) ++
        (2 :: LittleEndian.ofWord 8 (filter.sp regs)) ++ (3 :: LittleEndian.ofWord 8 regs.pc) := by
  rw [saveHead_init]
  rfl

end Stackplz
