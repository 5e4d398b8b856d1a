import Mathlib.Data.BitVec
import Stackplz.User.Packed
import Stackplz.User.ParseArg

/-!
# Read addresses

A read address `seg0.seg1. ... .segn` is a chain of sums: the value of `seg0`, then for each
further segment the word at the address so far plus the value of the segment. `readOpList`
compiles it term by term. An offset is added to the accumulator, but a register is loaded into
the accumulator first and added to it then, so that a further register overwrites what was
summed up before it. `readAddress_savesMeaning` says for which addresses the compiled list
finds the address that is meant.
-/

set_option autoImplicit false

namespace Stackplz

/-! ## Addresses -/

/-- The index of a register that `OP_READ_REG` reads. -/
abbrev RegIndex := { i : u32 // i.toNat < 33 }

inductive Operand where
  | reg (index : RegIndex)
  | num (value : u64)
deriving DecidableEq

/-- An operand, with whether a minus stands before it. -/
abbrev Term := Bool × Operand

/-- An address whose first term is the register `head`. -/
structure ReadAddress where
  minus : Bool
  head : RegIndex
  rest : List Term
  later : List (List Term)
deriving DecidableEq

def operandOf (token : Text) : Option Operand :=
  match Text.parseUint token 0 64 with
  | some value => some (.num (BitVec.ofNat 64 value))
  | none => (getRegIndex token).pmap (fun i h => .reg ⟨i, h⟩) fun _ => getRegIndex_lt

def termOf (t : Bool × Text) : Option Term := (operandOf t.2).map fun o => (t.1, o)

/-- The terms of a segment, which may be empty. -/
def termsOf (segment : Text) : Option (List Term) :=
  ((signedTerms false segment).filter fun t => t.2 ≠ []).mapM termOf

/-- The address that a text stands for. -/
def ReadAddress.ofText (readOp : Text) : Option ReadAddress :=
  match (Text.splitOn '.' readOp).mapM termsOf with
  | some (((minus, .reg head) :: rest) :: later) => some ⟨minus, head, rest, later⟩
  | _ => none

/-! ## Its meaning -/

def Operand.value (regs : CtxRegs) : Operand → u64
  | .reg index => regs.get index.val.toNat
  | .num value => value

def signed (minus : Bool) (value : u64) : u64 := if minus then -value else value

/-- The value of a segment. -/
def sumTerms (regs : CtxRegs) (terms : List Term) : u64 :=
  (terms.map fun t => signed t.1 (t.2.value regs)).sum

/-- The value of the first segment up to some terms after its head. -/
def ReadAddress.headSum (a : ReadAddress) (regs : CtxRegs) (terms : List Term) : u64 :=
  signed a.minus (regs.get a.head.val.toNat) + sumTerms regs terms

/-- The address that is meant. -/
def ReadAddress.meaning (a : ReadAddress) (mem : UserMem) (regs : CtxRegs) : u64 :=
  a.later.foldl (fun addr seg => mem.readWord addr + sumTerms regs seg) (a.headSum regs a.rest)

/-! ## Its ops -/

/-- The ops of a term that is not the first one. -/
def Term.ops : Term → List NamedOp
  | (minus, .num value) => [(if minus then opcSubOffset else opcAddOffset).newValue value]
  | (minus, .reg index) =>
      [readMoveReg (index.val.setWidth 64), if minus then opcSubReg else opcAddReg]

def segmentCode (seg : List Term) : List NamedOp :=
  [opcReadPointer, opcMovePointerValue] ++ seg.flatMap Term.ops

/-- The ops of an address before the one that saves it. -/
def ReadAddress.ops (a : ReadAddress) : List NamedOp :=
  readMoveReg (a.head.val.setWidth 64) :: (a.rest.flatMap Term.ops ++ a.later.flatMap segmentCode)

theorem operandOf_num {token : Text} {value : Nat} (h : Text.parseUint token 0 64 = some value) :
    operandOf token = some (.num (BitVec.ofNat 64 value)) := by
  unfold operandOf
  rw [h]

theorem operandOf_reg {token : Text} (h : Text.parseUint token 0 64 = none) {o : Operand}
    (ho : operandOf token = some o) :
    ∃ index : RegIndex, o = .reg index ∧ getRegIndex token = some index.val := by
  unfold operandOf at ho
  rw [h] at ho
  obtain ⟨i, hi, hreg, rfl⟩ := Option.pmap_eq_some_iff.mp ho
  exact ⟨⟨i, hi⟩, rfl, hreg⟩

/-- The ops of a term after a register was read. -/
theorem termOps_eq {t : Bool × Text} {term : Term} (h : termOf t = some term) (hne : t.2 ≠ [])
    (acc : List NamedOp) : termOps (acc, true) t = .ok (acc ++ term.ops, true) := by
  obtain ⟨minus, token⟩ := t
  obtain ⟨o, ho, rfl⟩ := Option.map_eq_some_iff.mp h
  unfold termOps
  dsimp only at hne ho ⊢
  rw [if_neg hne]
  cases hnum : Text.parseUint token 0 64 with
  | some value =>
      obtain rfl := Option.some.inj ((operandOf_num hnum).symm.trans ho)
      rfl
  | none =>
      obtain ⟨index, rfl, hreg⟩ := operandOf_reg hnum ho
      rw [hreg]
      rfl

/-- The ops of the first term, a register. -/
theorem termOps_head {t : Bool × Text} {minus : Bool} {index : RegIndex}
    (h : termOf t = some (minus, .reg index)) (hne : t.2 ≠ []) :
    termOps ([], false) t = .ok ([readMoveReg (index.val.setWidth 64)], true) := by
  obtain ⟨minus', token⟩ := t
  obtain ⟨o, ho, heq⟩ := Option.map_eq_some_iff.mp h
  obtain ⟨rfl, rfl⟩ := Prod.mk.inj heq
  unfold termOps
  dsimp only at hne ho ⊢
  rw [if_neg hne]
  cases hnum : Text.parseUint token 0 64 with
  | some value => cases (operandOf_num hnum).symm.trans ho
  | none =>
      obtain ⟨index', hindex, hreg⟩ := operandOf_reg hnum ho
      obtain rfl := Operand.reg.inj hindex
      rw [hreg]
      rfl

/-- Empty terms, as before a leading sign, have no ops. -/
theorem foldlM_termOps_filter (ts : List (Bool × Text)) (acc : List NamedOp × Bool) :
    ts.foldlM termOps acc = (ts.filter fun t => t.2 ≠ []).foldlM termOps acc := by
  induction ts generalizing acc with
  | nil => rfl
  | cons t ts ih =>
      by_cases ht : t.2 = []
      · have hskip : termOps acc t = .ok acc := if_pos ht
        rw [List.foldlM_cons, hskip, List.filter_cons_of_neg (by simp [ht])]
        exact ih acc
      · rw [List.filter_cons_of_pos (by simp [ht]), List.foldlM_cons, List.foldlM_cons]
        exact congrArg _ (funext ih)

theorem foldlM_termOps {ts : List (Bool × Text)} (hne : ∀ t ∈ ts, t.2 ≠ []) {terms : List Term}
    (h : ts.mapM termOf = some terms) (acc : List NamedOp) :
    ts.foldlM termOps (acc, true) = .ok (acc ++ terms.flatMap Term.ops, true) := by
  induction ts generalizing terms acc with
  | nil =>
      obtain rfl : [] = terms := Option.some.inj h
      rw [List.flatMap_nil, List.append_nil]
      rfl
  | cons t ts ih =>
      obtain ⟨ht, hts⟩ := List.forall_mem_cons.mp hne
      rw [List.mapM_cons] at h
      obtain ⟨term, hterm, h⟩ := Option.bind_eq_some_iff.mp h
      obtain ⟨terms', hterms, h⟩ := Option.bind_eq_some_iff.mp h
      obtain rfl := Option.some.inj h
      rw [List.foldlM_cons, termOps_eq hterm ht, List.flatMap_cons, ← List.append_assoc]
      exact ih hts hterms (acc ++ term.ops)

/-- The tokens of a segment that are no empty terms. -/
theorem tokens_ne_nil (segment : Text) :
    ∀ t ∈ (signedTerms false segment).filter fun t => t.2 ≠ [], t.2 ≠ [] := by
  intro t ht
  simpa using (List.mem_filter.mp ht).2

theorem termsOf_nil : termsOf [] = some [] := rfl

/-- The ops of a segment after the first. -/
theorem segmentOps_eq {segment : Text} {seg : List Term} (h : termsOf segment = some seg)
    (acc : List NamedOp) :
    segmentOps (acc, true) segment false = .ok (acc ++ segmentCode seg, true) := by
  unfold segmentOps segmentCode
  dsimp only
  by_cases hnil : segment = []
  · obtain rfl : [] = seg := Option.some.inj (termsOf_nil.symm.trans (hnil ▸ h))
    rw [if_pos hnil]
    rfl
  · rw [if_neg hnil, foldlM_termOps_filter]
    have hterms := foldlM_termOps (tokens_ne_nil segment) h
      (acc ++ [opcReadPointer, opcMovePointerValue])
    rwa [List.append_assoc] at hterms

theorem foldlM_segmentOps {segments : List Text} {segs : List (List Term)}
    (h : segments.mapM termsOf = some segs) {n : Nat} (hn : n ≠ 0) (acc : List NamedOp) :
    (segments.zipIdx n).foldlM (fun acc x => segmentOps acc x.1 (x.2 == 0)) (acc, true) =
      .ok (acc ++ segs.flatMap segmentCode, true) := by
  induction segments generalizing segs n acc with
  | nil =>
      obtain rfl : [] = segs := Option.some.inj h
      rw [List.flatMap_nil, List.append_nil]
      rfl
  | cons segment segments ih =>
      rw [List.mapM_cons] at h
      obtain ⟨seg, hseg, h⟩ := Option.bind_eq_some_iff.mp h
      obtain ⟨segs', hsegs, h⟩ := Option.bind_eq_some_iff.mp h
      obtain rfl := Option.some.inj h
      have hfirst : (n == 0) = false := by simpa using hn
      rw [List.zipIdx_cons, List.foldlM_cons]
      dsimp only
      rw [hfirst, segmentOps_eq hseg, List.flatMap_cons, ← List.append_assoc]
      exact ih hsegs (Nat.succ_ne_zero n) (acc ++ segmentCode seg)

/-- The text of an address is compiled to its ops and one that saves the address. -/
theorem readOpList_ofText {readOp : Text} {a : ReadAddress}
    (h : ReadAddress.ofText readOp = some a) :
    readOpList readOp = .ok (a.ops ++ [opcSaveAddr]) := by
  unfold ReadAddress.ofText at h
  split at h
  case h_2 => cases h
  rename_i minus head rest later hsegs
  obtain rfl := Option.some.inj h
  cases hsplit : Text.splitOn '.' readOp with
  | nil =>
      rw [hsplit] at hsegs
      cases hsegs
  | cons segment segments =>
      rw [hsplit, List.mapM_cons] at hsegs
      obtain ⟨seg, hseg, hsegs⟩ := Option.bind_eq_some_iff.mp hsegs
      obtain ⟨segs, hlater, hsegs⟩ := Option.bind_eq_some_iff.mp hsegs
      obtain ⟨rfl, rfl⟩ := List.cons.inj (Option.some.inj hsegs)
      -- the first token is the register
      have hfirst : segmentOps ([], false) segment true =
          .ok (readMoveReg (head.val.setWidth 64) :: rest.flatMap Term.ops, true) := by
        have hne := tokens_ne_nil segment
        have hnil : segment ≠ [] := by
          rintro rfl
          cases hseg
        unfold segmentOps
        dsimp only
        rw [if_neg hnil, if_pos rfl, foldlM_termOps_filter]
        unfold termsOf at hseg
        generalize ((signedTerms false segment).filter fun t => t.2 ≠ []) = ts at hseg hne
        cases ts with
        | nil => cases hseg
        | cons t ts =>
            obtain ⟨ht, hts⟩ := List.forall_mem_cons.mp hne
            rw [List.mapM_cons] at hseg
            obtain ⟨term, hterm, hseg⟩ := Option.bind_eq_some_iff.mp hseg
            obtain ⟨terms, hterms, hseg⟩ := Option.bind_eq_some_iff.mp hseg
            obtain ⟨rfl, rfl⟩ := List.cons.inj (Option.some.inj hseg)
            rw [List.foldlM_cons, termOps_head hterm ht]
            exact foldlM_termOps hts hterms [readMoveReg (head.val.setWidth 64)]
      have hne : readOp ≠ [] := by
        rintro rfl
        obtain ⟨rfl, rfl⟩ := List.cons.inj hsplit
        cases hseg
      have hfold := foldlM_segmentOps hlater Nat.one_ne_zero
        (readMoveReg (head.val.setWidth 64) :: rest.flatMap Term.ops)
      unfold readOpList
      rw [if_neg hne, hsplit]
      dsimp only
      rw [List.zipIdx_cons, List.foldlM_cons]
      dsimp only
      rw [show ((0 : Nat) == 0) = true from rfl, hfirst]
      show Except.bind (List.foldlM _ _ _) _ = _
      rw [hfold]
      rfl

/-! ## What the ops do -/

/-- The read address and the register value. -/
abbrev Accum := u64 × u64

def OpState.accum (st : OpState) : Accum := (st.data.readAddr, st.data.regValue)

/-- A further register replaces what was summed up before it. -/
def Term.exec (regs : CtxRegs) : Term → Accum → Accum
  | (minus, .num value), (addr, reg) => (addr + signed minus value, reg)
  | (minus, .reg index), _ =>
      let value := regs.get index.val.toNat
      (value + signed minus value, value)

def execTerms (regs : CtxRegs) (terms : List Term) (acc : Accum) : Accum :=
  terms.foldl (fun acc t => t.exec regs acc) acc

def execSegment (mem : UserMem) (regs : CtxRegs) (acc : Accum) (seg : List Term) : Accum :=
  execTerms regs seg (mem.readWord acc.1, acc.2)

/-- The address that the ops find, and the register that they read last. -/
def ReadAddress.exec (a : ReadAddress) (mem : UserMem) (regs : CtxRegs) : Accum :=
  a.later.foldl (execSegment mem regs)
    (execTerms regs a.rest (regs.get a.head.val.toNat, regs.get a.head.val.toNat))

/-- The codes save nothing and take the accumulator through `f`. -/
def Moves (env : ProbeEnv) (xs : List (OpConfig × OpCode)) (f : Accum → Accum) : Prop :=
  ∀ st : OpState, st.data.matchBlacklist = false →
    ∃ next, runSteps env xs st = some ([], next) ∧ next.data.matchBlacklist = false ∧
      next.accum = f st.accum ∧ next.event = st.event

/-- The codes of a list of ops. -/
def codesOf (ops : List NamedOp) : List (OpConfig × OpCode) := ops.flatMap fun op => op.steps

section Moves

variable {env : ProbeEnv}

theorem moves_nil : Moves env [] id := fun st hst => ⟨st, rfl, hst, rfl, rfl⟩

theorem Moves.append {xs ys : List (OpConfig × OpCode)} {f g : Accum → Accum}
    (hxs : Moves env xs f) (hys : Moves env ys g) : Moves env (xs ++ ys) (g ∘ f) := by
  intro st hst
  obtain ⟨mid, hrun, hmid, hacc, hevent⟩ := hxs st hst
  obtain ⟨next, hrun', hnext, hacc', hevent'⟩ := hys mid hmid
  refine ⟨next, runSteps_append.mpr ⟨[], mid, [], hrun, hrun', rfl⟩, hnext, ?_, ?_⟩
  · rw [hacc', hacc, Function.comp_apply]
  · rw [hevent', hevent]

/-- A code that only changes the accumulator. -/
theorem moves_step {x : OpConfig × OpCode} {f : Accum → Accum}
    (h : ∀ st : OpState, st.data.matchBlacklist = false → ∃ next, st.step env x = some ([], next) ∧
      next.accum = f st.accum ∧ next.event = st.event) : Moves env [x] f := by
  intro st hst
  obtain ⟨next, hstep, hacc, hevent⟩ := h st hst
  have hnext := (step_eq_some.mp hstep).2.1
  exact ⟨next, runSteps_cons.mpr ⟨[], next, [], hstep, rfl, rfl⟩, hnext, hacc, hevent⟩

theorem moves_offset (minus : Bool) (value : u64) :
    Moves env (codesOf [(if minus then opcSubOffset else opcAddOffset).newValue value])
      fun acc => (acc.1 + signed minus value, acc.2) := by
  cases minus with
  | false => exact moves_step fun st hst => ⟨_, step_eq_some.mpr ⟨rfl, hst, rfl⟩, rfl, rfl⟩
  | true =>
      refine moves_step fun st hst => ⟨_, step_eq_some.mpr ⟨rfl, hst, rfl⟩, ?_, rfl⟩
      show (st.data.readAddr - value, st.data.regValue) =
        (st.data.readAddr + -value, st.data.regValue)
      rw [BitVec.sub_eq_add_neg]

/-- `READ_MOVE_REG`. -/
theorem moves_readMoveReg (index : RegIndex) :
    Moves env (codesOf [readMoveReg (index.val.setWidth 64)])
      fun _ => (env.regs.get index.val.toNat, env.regs.get index.val.toNat) := by
  let op := (readMoveReg (index.val.setWidth 64)).toOpConfig
  have hindex (i : u8) : (op.readIndex i).toNat = index.val.toNat := by
    show ((index.val.setWidth 64).setWidth 8).toNat = index.val.toNat
    have hlt := index.property
    simp only [BitVec.toNat_setWidth]
    omega
  have hread : Moves env [(op, .readReg)] fun acc => (acc.1, env.regs.get index.val.toNat) := by
    refine moves_step fun st hst => ⟨_, step_readReg ?_ hst, ?_, rfl⟩
    · rw [hindex]
      exact index.property
    · show (st.data.readAddr, env.regs.get (op.readIndex st.data.regIndex).toNat) = _
      rw [hindex]
      rfl
  have hmove : Moves env [(op, .moveRegValue)] fun acc => (acc.2, acc.2) :=
    moves_step fun st hst => ⟨_, step_eq_some.mpr ⟨rfl, hst, rfl⟩, rfl, rfl⟩
  exact hread.append hmove

theorem moves_term (t : Term) : Moves env (codesOf t.ops) (t.exec env.regs) := by
  obtain ⟨minus, operand⟩ := t
  cases operand with
  | num value => exact moves_offset minus value
  | reg index =>
      have hadd : Moves env (codesOf [if minus then opcSubReg else opcAddReg])
          fun acc => (acc.1 + signed minus acc.2, acc.2) := by
        cases minus with
        | false => exact moves_step fun st hst => ⟨_, step_eq_some.mpr ⟨rfl, hst, rfl⟩, rfl, rfl⟩
        | true =>
            refine moves_step fun st hst => ⟨_, step_eq_some.mpr ⟨rfl, hst, rfl⟩, ?_, rfl⟩
            show (st.data.readAddr - st.data.regValue, st.data.regValue) =
              (st.data.readAddr + -st.data.regValue, st.data.regValue)
            rw [BitVec.sub_eq_add_neg]
      exact (moves_readMoveReg index).append hadd

theorem codesOf_append (xs ys : List NamedOp) : codesOf (xs ++ ys) = codesOf xs ++ codesOf ys :=
  List.flatMap_append

theorem moves_terms (terms : List Term) :
    Moves env (codesOf (terms.flatMap Term.ops)) (execTerms env.regs terms) := by
  induction terms with
  | nil => exact moves_nil
  | cons t terms ih =>
      rw [List.flatMap_cons, codesOf_append]
      exact (moves_term t).append ih

theorem moves_segment (seg : List Term) :
    Moves env (codesOf (segmentCode seg)) fun acc => execSegment env.mem env.regs acc seg := by
  have hderef : Moves env (codesOf [opcReadPointer, opcMovePointerValue])
      fun acc => (env.mem.readWord acc.1, acc.2) := by
    intro st hst
    exact ⟨_, runSteps_cons.mpr ⟨[], _, [], step_eq_some.mpr ⟨rfl, hst, rfl⟩,
      runSteps_cons.mpr ⟨[], _, [], step_eq_some.mpr ⟨rfl, hst, rfl⟩, rfl, rfl⟩, rfl⟩,
      hst, rfl, rfl⟩
  unfold segmentCode
  rw [codesOf_append]
  exact hderef.append (moves_terms seg)

theorem moves_later (later : List (List Term)) :
    Moves env (codesOf (later.flatMap segmentCode))
      fun acc => later.foldl (execSegment env.mem env.regs) acc := by
  induction later with
  | nil => exact moves_nil
  | cons seg later ih =>
      rw [List.flatMap_cons, codesOf_append]
      exact (moves_segment seg).append ih

/-- The ops of an address leave it in the accumulator. -/
theorem moves_ops (a : ReadAddress) :
    Moves env (codesOf a.ops) fun _ => a.exec env.mem env.regs := by
  have hrest := (moves_terms a.rest).append (@moves_later env a.later)
  rw [← codesOf_append] at hrest
  exact (moves_readMoveReg a.head).append hrest

/-- The compiled list runs to its end and saves the address that its ops find. -/
theorem runSteps_ops (a : ReadAddress) {st : OpState} (hst : st.data.matchBlacklist = false) :
    ∃ next, runSteps env (codesOf (a.ops ++ [opcSaveAddr])) st =
        some ([.word (a.exec env.mem env.regs).1], next) ∧
      next.data.matchBlacklist = false ∧ next.accum = a.exec env.mem env.regs := by
  obtain ⟨mid, hrun, hmid, hacc, -⟩ := moves_ops a st hst
  have haddr : mid.data.readAddr = (a.exec env.mem env.regs).1 := congrArg Prod.fst hacc
  rw [codesOf_append]
  refine ⟨_, runSteps_append.mpr ⟨[], mid, _, hrun, runSteps_cons.mpr
    ⟨_, _, [], step_eq_some.mpr ⟨rfl, hmid, rfl⟩, rfl, rfl⟩, ?_⟩, hmid, hacc⟩
  rw [← haddr]
  rfl

end Moves

/-! ## When the address is the one that is meant -/

/-- The last register of some terms, with the terms before it. -/
def splitLast : List Term → Option (List Term × RegIndex)
  | [] => none
  | t :: ts =>
      match splitLast ts, t.2 with
      | some (before, index), _ => some (t :: before, index)
      | none, .reg index => some ([], index)
      | none, .num _ => none

/-- Before the last further register of the first segment, the terms always add up to the value
of that register, in their low `w` bits; without a further register, the head has no minus. -/
def ReadAddress.HeadAgrees (a : ReadAddress) (w : Nat) : Prop :=
  match splitLast a.rest with
  | none => a.minus = false
  | some (before, index) => ∀ regs,
      (a.headSum regs before).setWidth w = (regs.get index.val.toNat).setWidth w

/-- The first segment agrees, and the later ones have no registers. -/
def ReadAddress.Faithful (a : ReadAddress) (w : Nat) : Prop :=
  a.HeadAgrees w ∧ ∀ seg ∈ a.later, splitLast seg = none

section Exec

variable {regs : CtxRegs}

theorem sumTerms_cons (t : Term) (terms : List Term) :
    sumTerms regs (t :: terms) = signed t.1 (t.2.value regs) + sumTerms regs terms :=
  List.sum_cons

/-- Terms without a register are added. -/
theorem execTerms_of_none {terms : List Term} (h : splitLast terms = none) (acc : Accum) :
    execTerms regs terms acc = (acc.1 + sumTerms regs terms, acc.2) := by
  induction terms generalizing acc with
  | nil => exact Prod.ext (BitVec.add_zero _).symm rfl
  | cons t terms ih =>
      obtain ⟨minus, operand⟩ := t
      unfold splitLast at h
      split at h
      · cases h
      · cases h
      · rename_i value hnone hop
        obtain rfl : operand = .num value := hop
        show execTerms regs terms (acc.1 + signed minus value, acc.2) = _
        rw [ih hnone, sumTerms_cons, ← BitVec.add_assoc]
        rfl

/-- From the last register on, the terms are added to the value of that register. -/
theorem execTerms_of_some {terms before : List Term} {index : RegIndex}
    (h : splitLast terms = some (before, index)) (acc : Accum) :
    (execTerms regs terms acc).1 + sumTerms regs before =
      sumTerms regs terms + regs.get index.val.toNat := by
  induction terms generalizing before acc with
  | nil => cases h
  | cons t terms ih =>
      obtain ⟨minus, operand⟩ := t
      unfold splitLast at h
      split at h
      · rename_i before' index' hsome
        obtain ⟨rfl, rfl⟩ := Prod.mk.inj (Option.some.inj h)
        have hrest := ih hsome (Term.exec regs (minus, operand) acc)
        show (execTerms regs terms (Term.exec regs (minus, operand) acc)).1 + _ = _
        rw [sumTerms_cons, sumTerms_cons]
        grind
      · rename_i index' hnone hop
        obtain rfl : operand = .reg index' := hop
        obtain ⟨rfl, rfl⟩ := Prod.mk.inj (Option.some.inj h)
        have hafter : (execTerms regs ((minus, .reg index') :: terms) acc).1 =
            regs.get index'.val.toNat + signed minus (regs.get index'.val.toNat) +
              sumTerms regs terms := congrArg Prod.fst (execTerms_of_none hnone _)
        have hnil : sumTerms regs [] = 0 := rfl
        rw [hafter, hnil, sumTerms_cons]
        show _ = signed minus (regs.get index'.val.toNat) + sumTerms regs terms +
          regs.get index'.val.toNat
        grind
      · cases h

/-- After terms with a register, the low bits of the sum are meant exactly when those that
were overwritten are those of the register. -/
theorem execTerms_low_iff {terms before : List Term} {index : RegIndex}
    (h : splitLast terms = some (before, index)) (base : u64) (acc : Accum) {w : Nat}
    (hw : w ≤ 64) :
    (execTerms regs terms acc).1.setWidth w = (base + sumTerms regs terms).setWidth w ↔
      (base + sumTerms regs before).setWidth w = (regs.get index.val.toNat).setWidth w := by
  have hexec := congrArg (BitVec.setWidth w) (@execTerms_of_some regs _ _ _ h acc)
  simp only [BitVec.setWidth_add _ _ hw] at hexec ⊢
  constructor <;> intro heq <;> grind

/-- The first segment is compiled to its value exactly when it agrees. -/
theorem headAgrees_iff (a : ReadAddress) {w : Nat} (hw : w ≤ 64) (hpos : 2 ≤ w) :
    a.HeadAgrees w ↔ ∀ regs, (execTerms regs a.rest
      (regs.get a.head.val.toNat, regs.get a.head.val.toNat)).1.setWidth w =
        (a.headSum regs a.rest).setWidth w := by
  unfold ReadAddress.HeadAgrees ReadAddress.headSum
  split
  · rename_i hnone
    simp only [execTerms_of_none hnone, BitVec.setWidth_add _ _ hw]
    constructor
    · intro hminus regs
      rw [hminus]
      rfl
    · intro heq
      by_contra hminus
      -- a register file whose registers are all one
      have hone := heq ⟨Vector.replicate 31 1, 1, 1, 1⟩
      have hhead : CtxRegs.get ⟨Vector.replicate 31 1, 1, 1, 1⟩ a.head.val.toNat = 1 := by
        unfold CtxRegs.get
        split
        · exact Vector.getElem_replicate _
        · exact ite_self _
      rw [hhead, Bool.eq_true_of_not_eq_false hminus] at hone
      have hsigned : (1 : u64).setWidth w = (signed true 1).setWidth w := by grind
      have hbit := congrArg (fun x : BitVec w => x.getLsbD 1) hsigned
      simp only [BitVec.getLsbD_setWidth] at hbit
      have hlt : (1 < w) = True := eq_true (by omega)
      simp only [hlt, decide_true, Bool.true_and] at hbit
      exact absurd hbit (by decide)
  · rename_i before index hsome
    exact forall_congr' fun regs => (execTerms_low_iff hsome _ _ hw).symm

/-- Without registers in the later segments the pointers are followed as they are meant. -/
theorem foldl_execSegment {later : List (List Term)} (h : ∀ seg ∈ later, splitLast seg = none)
    (mem : UserMem) (acc : Accum) :
    (later.foldl (execSegment mem regs) acc).1 =
      later.foldl (fun addr seg => mem.readWord addr + sumTerms regs seg) acc.1 := by
  induction later generalizing acc with
  | nil => rfl
  | cons seg later ih =>
      obtain ⟨hseg, hlater⟩ := List.forall_mem_cons.mp h
      have hfirst : (execSegment mem regs acc seg).1 = mem.readWord acc.1 + sumTerms regs seg :=
        congrArg Prod.fst (execTerms_of_none hseg _)
      rw [List.foldl_cons, List.foldl_cons, ih hlater, hfirst]

/-- A faithful address is found. -/
theorem exec_of_faithful {a : ReadAddress} (h : a.Faithful 64) (mem : UserMem) (regs : CtxRegs) :
    (a.exec mem regs).1 = a.meaning mem regs := by
  have hhead := (headAgrees_iff a (Nat.le_refl 64) (by decide)).mp h.1 regs
  rw [BitVec.setWidth_eq, BitVec.setWidth_eq] at hhead
  unfold ReadAddress.exec ReadAddress.meaning
  rw [foldl_execSegment h.2, hhead]

end Exec

/-! ## A memory that shows where it was read -/

/-- The memory whose words have the low byte of their address, plus `shift`, as low byte. -/
def lowMem (shift : u8) : UserMem := fun addr => some (addr.setWidth 8 + shift)

theorem readWord_lowMem (shift : u8) (addr : u64) :
    ((lowMem shift).readWord addr).setWidth 8 = addr.setWidth 8 + shift :=
  LittleEndian.setWidth_toWord 7 _ _

/-- Every pointer that is followed leaves the low byte, up to the shift and the sums. -/
theorem foldl_lowMem (regs : CtxRegs) (shift : u8) (later : List (List Term)) (addr : u64) :
    (later.foldl (fun addr seg =>
        (lowMem shift).readWord addr + sumTerms regs seg) addr).setWidth 8 =
      addr.setWidth 8 + BitVec.ofNat 8 later.length * shift +
        ((later.map (sumTerms regs)).sum).setWidth 8 := by
  induction later generalizing addr with
  | nil =>
      show _ = _ + 0 * shift + 0
      grind
  | cons seg later ih =>
      rw [List.foldl_cons, ih, BitVec.setWidth_add _ _ (by decide), readWord_lowMem, List.map_cons,
        List.sum_cons, BitVec.setWidth_add _ _ (by decide), List.length_cons, BitVec.ofNat_add]
      grind

/-- The last element with a property. -/
theorem exists_last {α : Type} {P : α → Prop} {l : List α} (h : ∃ x ∈ l, P x) :
    ∃ pre x post, l = pre ++ x :: post ∧ P x ∧ ∀ y ∈ post, ¬ P y := by
  induction l with
  | nil =>
      obtain ⟨x, hx, -⟩ := h
      cases hx
  | cons y l ih =>
      by_cases hl : ∃ x ∈ l, P x
      · obtain ⟨pre, x, post, rfl, hx, hpost⟩ := ih hl
        exact ⟨y :: pre, x, post, rfl, hx, hpost⟩
      · have hnone : ∀ x ∈ l, ¬ P x := fun x hx hP => hl ⟨x, hx, hP⟩
        obtain ⟨x, hx, hP⟩ := h
        rcases List.mem_cons.mp hx with rfl | hx
        · exact ⟨[], x, l, rfl, hP, hnone⟩
        · exact absurd hP (hnone x hx)

section Exact

variable {a : ReadAddress} (h : ∀ mem regs, (a.exec mem regs).1 = a.meaning mem regs)
include h

/-- A register in a later segment hides how many pointers were followed before it. -/
theorem later_none_of_exec (hlen : a.later.length < 256) :
    ∀ seg ∈ a.later, splitLast seg = none := by
  by_contra hsome
  have hany : ∃ seg ∈ a.later, splitLast seg ≠ none := by
    simpa only [not_forall, exists_prop] using hsome
  obtain ⟨pre, seg, post, hlater, hseg, hpost⟩ := exists_last hany
  have hpost : ∀ seg ∈ post, splitLast seg = none := fun seg hmem => not_not.mp (hpost seg hmem)
  obtain ⟨⟨terms, index⟩, hsplit⟩ := Option.ne_none_iff_exists'.mp hseg
  let regs : CtxRegs := ⟨Vector.replicate 31 0, 0, 0, 0⟩
  let found (acc : Accum) : u8 := (execTerms regs seg acc).1.setWidth 8
  -- what is found follows the pointers after the segment, what is meant follows all of them
  have hshift (shift : u8) : ∃ acc : Accum,
      found acc + BitVec.ofNat 8 post.length * shift +
          ((post.map (sumTerms regs)).sum).setWidth 8 =
        (a.headSum regs a.rest).setWidth 8 +
          BitVec.ofNat 8 (pre.length + (post.length + 1)) * shift +
          (((pre ++ seg :: post).map (sumTerms regs)).sum).setWidth 8 := by
    have heq := congrArg (BitVec.setWidth 8) (h (lowMem shift) regs)
    unfold ReadAddress.exec ReadAddress.meaning at heq
    rw [hlater, foldl_lowMem, List.foldl_append, List.foldl_cons, foldl_execSegment hpost,
      foldl_lowMem, List.length_append, List.length_cons] at heq
    exact ⟨_, heq⟩
  have hfound (acc acc' : Accum) : found acc = found acc' := by
    have hacc := @execTerms_of_some regs _ _ _ hsplit acc
    have hacc' := @execTerms_of_some regs _ _ _ hsplit acc'
    have hsame : (execTerms regs seg acc).1 = (execTerms regs seg acc').1 := by grind
    exact congrArg (BitVec.setWidth 8) hsame
  obtain ⟨acc, hzero⟩ := hshift 0
  obtain ⟨acc', hone⟩ := hshift 1
  rw [hfound acc acc'] at hzero
  have hcount : BitVec.ofNat 8 (pre.length + 1) = 0 := by
    have hsum : BitVec.ofNat 8 (pre.length + (post.length + 1)) =
        BitVec.ofNat 8 (pre.length + 1) + BitVec.ofNat 8 post.length := by
      rw [← BitVec.ofNat_add, Nat.add_right_comm, Nat.add_assoc]
    grind
  have hmod : (pre.length + 1) % 256 = 0 := congrArg BitVec.toNat hcount
  rw [hlater, List.length_append, List.length_cons] at hlen
  omega

/-- The pointers leave the low byte of the first segment. -/
theorem faithful_of_exec (hlen : a.later.length < 256) :
    a.Faithful (if a.later = [] then 64 else 8) := by
  have hlater := later_none_of_exec h hlen
  refine ⟨?_, hlater⟩
  split
  · rename_i hnil
    refine (headAgrees_iff a (Nat.le_refl 64) (by decide)).mpr fun regs => ?_
    have heq := h (lowMem 0) regs
    unfold ReadAddress.exec ReadAddress.meaning at heq
    rw [hnil] at heq
    exact congrArg (BitVec.setWidth 64) heq
  · refine (headAgrees_iff a (by decide) (by decide)).mpr fun regs => ?_
    have heq := congrArg (BitVec.setWidth 8) (h (lowMem 0) regs)
    unfold ReadAddress.exec ReadAddress.meaning at heq
    rw [foldl_execSegment hlater, foldl_lowMem, foldl_lowMem] at heq
    grind

end Exact

/-! ## In the probe -/

variable {maxOp : Nat}

/-- From place `k` on, the interpreter runs the ops and saves the word `f`. -/
def SavesWord (opList : OpListMap) (keys : Vector u32 maxOp) (k : Nat) (ops : List NamedOp)
    (f : UserMem → CtxRegs → u64) : Prop :=
  ∀ (mem : UserMem) (regs : CtxRegs) (argFilter : ArgFilterMap) (st : LoopState), st.AtOp k →
    st.ctx.matchBlacklist = false → ∃ next,
      (interpreter ⟨mem, regs, opList, argFilter⟩ keys).run st (codesOf ops) = some next ∧
      next.AtOp (k + ops.length) ∧
      runSteps ⟨mem, regs, opList, argFilter⟩ (codesOf ops) st.opState =
        some ([.word (f mem regs)], next.opState)

theorem isForward_ops (a : ReadAddress) :
    ∀ op ∈ (a.ops ++ [opcSaveAddr]).map NamedOp.toOpConfig, op.isForward = true := by
  have hterm (t : Term) : ∀ op ∈ t.ops, op.toOpConfig.isForward = true := by
    obtain ⟨minus, operand⟩ := t
    cases operand <;> cases minus <;>
      simp [Term.ops, OpConfig.isForward, OpConfig.steps, OpCode.isForward, NamedOp.newValue,
        opcAddOffset, opcSubOffset, opcAddReg, opcSubReg, readMoveReg, combinedOp, rop]
  have hterms (terms : List Term) :
      ∀ op ∈ terms.flatMap Term.ops, op.toOpConfig.isForward = true := by
    intro op hop
    obtain ⟨t, -, hop⟩ := List.mem_flatMap.mp hop
    exact hterm t op hop
  have hsegment (seg : List Term) : ∀ op ∈ segmentCode seg, op.toOpConfig.isForward = true :=
    List.forall_mem_append.mpr ⟨by decide, hterms seg⟩
  have hall : ∀ op ∈ a.ops ++ [opcSaveAddr], op.toOpConfig.isForward = true := by
    refine List.forall_mem_append.mpr ⟨List.forall_mem_cons.mpr ⟨rfl,
      List.forall_mem_append.mpr ⟨hterms a.rest, fun op hop => ?_⟩⟩, by decide⟩
    obtain ⟨seg, -, hop⟩ := List.mem_flatMap.mp hop
    exact hsegment seg op hop
  intro op hop
  obtain ⟨named, hnamed, rfl⟩ := List.mem_map.mp hop
  exact hall named hnamed

section Saves

variable {opList : OpListMap} {keys : Vector u32 maxOp} {k : Nat} {a : ReadAddress}

/-- The interpreter saves the address that the ops find. -/
theorem savesWord_exec (hmax : maxOp < 2 ^ 32)
    (hkeys : ∀ env : ProbeEnv, env.opList = opList →
      KeysAt env keys k ((a.ops ++ [opcSaveAddr]).map NamedOp.toOpConfig)) :
    SavesWord opList keys k (a.ops ++ [opcSaveAddr]) fun mem regs => (a.exec mem regs).1 := by
  intro mem regs argFilter st hat hblack
  obtain ⟨o, hrun, -, -⟩ := @runSteps_ops ⟨mem, regs, opList, argFilter⟩ a st.opState hblack
  have hcodes : ((a.ops ++ [opcSaveAddr]).map NamedOp.toOpConfig).flatMap OpConfig.steps =
      codesOf (a.ops ++ [opcSaveAddr]) := by
    rw [List.flatMap_map]
    rfl
  obtain ⟨next, hnext, hat', rfl⟩ := run_ops hmax hat (hkeys _ rfl) (isForward_ops a)
    (hcodes ▸ hrun)
  rw [hcodes] at hnext
  rw [List.length_map] at hat'
  exact ⟨next, hnext, hat', hrun⟩

/-- Where two words are saved, they are the same. -/
theorem SavesWord.unique (hk : k < 2 ^ 32) {ops : List NamedOp} {f g : UserMem → CtxRegs → u64}
    (hf : SavesWord opList keys k ops f) (hg : SavesWord opList keys k ops g) (mem : UserMem)
    (regs : CtxRegs) : f mem regs = g mem regs := by
  let st : LoopState := ⟨none, { OpCtx.cleared with
    postCode := .skip, opKeyIndex := BitVec.ofNat 32 k }, .init, .empty⟩
  have hat : st.AtOp k := ⟨rfl, Nat.mod_eq_of_lt hk⟩
  obtain ⟨_, -, -, hrun⟩ := hf mem regs .empty st hat rfl
  obtain ⟨_, -, -, hrun'⟩ := hg mem regs .empty st hat rfl
  have hlog := congrArg Prod.fst (Option.some.inj (hrun.symm.trans hrun'))
  exact Saved.word.inj (List.cons.inj hlog).1

theorem length_later_le (a : ReadAddress) : a.later.length ≤ a.ops.length := by
  have hsegs : a.later.length ≤ (a.later.flatMap segmentCode).length := by
    rw [List.length_flatMap]
    induction a.later with
    | nil => exact Nat.le_refl 0
    | cons seg later ih =>
        rw [List.length_cons, List.map_cons, List.sum_cons]
        have hseg : 1 ≤ (segmentCode seg).length := by simp [segmentCode]
        omega
  unfold ReadAddress.ops
  rw [List.length_cons, List.length_append]
  omega

/-- **When a read address is compiled faithfully.** If the address is faithful, the interpreter
saves the address that is meant, for every memory and register file; and only then, as far as
the low byte shows where several pointers are followed. -/
theorem readAddress_savesMeaning {readOp : Text} {ops : List NamedOp} (hmax : maxOp ≤ 256)
    (htext : ReadAddress.ofText readOp = some a) (hops : readOpList readOp = .ok ops)
    (hkeys : ∀ env : ProbeEnv, env.opList = opList →
      KeysAt env keys k (ops.map NamedOp.toOpConfig)) :
    (a.Faithful 64 → SavesWord opList keys k ops a.meaning) ∧
      (SavesWord opList keys k ops a.meaning → a.Faithful (if a.later = [] then 64 else 8)) := by
  obtain rfl : a.ops ++ [opcSaveAddr] = ops :=
    Except.ok.inj ((readOpList_ofText htext).symm.trans hops)
  have hexec := savesWord_exec (Nat.lt_of_le_of_lt hmax (by decide)) hkeys
  constructor
  · intro hfaithful
    have hsame : (fun mem regs => (a.exec mem regs).1) = a.meaning :=
      funext fun mem => funext fun regs => exec_of_faithful hfaithful mem regs
    rwa [hsame] at hexec
  · intro hmeaning
    -- the list has a place in the key list
    let env : ProbeEnv := ⟨lowMem 0, ⟨Vector.replicate 31 0, 0, 0, 0⟩, opList, .empty⟩
    have hlast : a.ops.length < ((a.ops ++ [opcSaveAddr]).map NamedOp.toOpConfig).length := by simp
    obtain ⟨hplace, -⟩ := hkeys env rfl a.ops.length hlast
    have hlen := length_later_le a
    exact faithful_of_exec (hexec.unique (by omega) hmeaning) (by omega)

end Saves

/-! ### Two read addresses -/

/-- An argument `int` at a read address. -/
def addressArg (a : ReadAddress) : PointArg :=
  { newUprobePointArg [] (.num .int .plain) 0 with extraOpList := a.ops ++ [opcSaveAddr] }

/-- The op table after the argument is parsed. -/
def addressTable (a : ReadAddress) : OpManager :=
  (a.ops ++ [opcSaveAddr]).foldl OpManager.addOp .init

theorem addressTable_keysAt {a : ReadAddress} {packed : PointArgs stackMaxOpCount}
    (hlen : (addressTable a).opList.length ≤ 256)
    (hmem : ∀ op ∈ (addressArg a).getOpList, op ∈ (addressTable a).opList)
    (hpack : PointArgs.pack stackMaxOpCount (addressTable a) 0 [addressArg a] = some packed) :
    ∀ env : ProbeEnv, env.opList = (addressTable a).load →
      KeysAt env packed.opKeyList 0 ((a.ops ++ [opcSaveAddr]).map NamedOp.toOpConfig) := by
  intro env henv
  have hloaded : (addressTable a).LoadedIn env.opList := henv ▸ OpManager.loadedIn_load hlen
  have hops : (addressArg a).getOpList = a.ops ++ [opcSaveAddr] := by
    have hne : (addressArg a).extraOpList ≠ [] := by simp [addressArg]
    have hword : (addressArg a).wordOps = a.ops ++ [opcSaveAddr] := by
      unfold PointArg.wordOps
      rw [if_pos hne]
      rfl
    show (addressArg a).wordOps ++ [] ++ [] = _
    rw [hword, List.append_nil, List.append_nil]
  have hkeys := packed_keysAt (by decide) (by decide) hloaded
    (List.forall_mem_singleton.mpr hmem) hpack
  have hall : packedOps [addressArg a] = (a.ops ++ [opcSaveAddr]).map NamedOp.toOpConfig := by
    rw [packedOps, List.flatMap_cons, List.flatMap_nil, List.append_nil, hops]
  rwa [hall] at hkeys

/-- The read address `x0+x1`. -/
def sumAddress : ReadAddress := ⟨false, ⟨0, by decide⟩, [(false, .reg ⟨1, by decide⟩)], []⟩

def sumPacked : PointArgs stackMaxOpCount :=
  (PointArgs.pack stackMaxOpCount (addressTable sumAddress) 0 [addressArg sumAddress]).get
    (by decide +kernel)

/-- The address `x0+x1` is read as `x1+x1`. -/
theorem sumAddress_not_saved :
    ReadAddress.ofText "x0+x1".toList = some sumAddress ∧
      readOpList "x0+x1".toList = .ok (sumAddress.ops ++ [opcSaveAddr]) ∧
      ¬ SavesWord (addressTable sumAddress).load sumPacked.opKeyList 0
        (sumAddress.ops ++ [opcSaveAddr]) sumAddress.meaning := by
  have htext : ReadAddress.ofText "x0+x1".toList = some sumAddress := by decide +kernel
  have hkeys := addressTable_keysAt (a := sumAddress) (by decide +kernel) (by decide +kernel)
    (Option.some_get (by decide +kernel)).symm
  refine ⟨htext, readOpList_ofText htext, fun hmeaning => ?_⟩
  have hexec := savesWord_exec (by decide) hkeys
  have hsame := hexec.unique (by decide) hmeaning (lowMem 0)
    ⟨(Vector.replicate 31 0).set 0 1, 0, 0, 0⟩
  exact absurd hsame (by decide +kernel)

/-- The read address `sp+8.`, a pointer on the stack. -/
def stackAddress : ReadAddress := ⟨false, ⟨31, by decide⟩, [(false, .num 8)], [[]]⟩

def stackPacked : PointArgs stackMaxOpCount :=
  (PointArgs.pack stackMaxOpCount (addressTable stackAddress) 0 [addressArg stackAddress]).get
    (by decide +kernel)

/-- The address `sp+8.` is read as it is meant. -/
theorem stackAddress_saved :
    SavesWord (addressTable stackAddress).load stackPacked.opKeyList 0
      (stackAddress.ops ++ [opcSaveAddr]) stackAddress.meaning := by
  have htext : ReadAddress.ofText "sp+8.".toList = some stackAddress := by decide +kernel
  have hkeys := addressTable_keysAt (a := stackAddress) (by decide +kernel) (by decide +kernel)
    (Option.some_get (by decide +kernel)).symm
  have hfaithful : stackAddress.Faithful 64 := ⟨rfl, List.forall_mem_singleton.mpr rfl⟩
  exact (readAddress_savesMeaning (by decide) htext (readOpList_ofText htext) hkeys).1 hfaithful

end Stackplz
