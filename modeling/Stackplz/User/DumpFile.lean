import Stackplz.Basic.Machine
import Stackplz.User.ParseEvent

/-!
# Dump files

`ModuleConfig.DumpRecord` (`config_module.go`) appends records to a file, each in five writes
under `file_lock`; the loop of `ParseDump` (`parser.go`) reads them back. The writers are
goroutines whose steps interleave in any order that the lock allows. What they write is, at
every moment, the beginning of the frames of the records in the order in which the lock was
taken, and the loop makes of every beginning of such a file the records it holds in whole.
-/

set_option autoImplicit false

namespace Stackplz

/-- A record in a dump file, with the index of the event it is bound to. -/
structure DumpEntry where
  eventIndex : u8
  record : PerfRecord
deriving DecidableEq

/-- A record whose lengths fit their words. -/
structure DumpRecord extends DumpEntry where
  bound : record.rawSample.length < 2 ^ 32 - 9

/-- The five writes of `DumpRecord`: `total_len|event_index|rec_type|rec_len|rec_raw`. -/
def DumpEntry.fields (e : DumpEntry) : List (List u8) :=
  let recLen : u32 := BitVec.ofNat 32 e.record.rawSample.length
  let totalLen : u32 := 1 + (4 + 4 + recLen)
  [LittleEndian.ofWord 4 totalLen, LittleEndian.ofWord 1 e.eventIndex,
    LittleEndian.ofWord 4 e.record.recordType, LittleEndian.ofWord 4 recLen, e.record.rawSample]

/-- What the file holds of a record. -/
def DumpEntry.frame (e : DumpEntry) : List u8 := e.fields.flatten

/-- The frames of a list of records. -/
def frames (rs : List DumpRecord) : List u8 := rs.flatMap fun r => r.frame

/-! ## The writers -/

/-- Where a goroutine is: outside `DumpRecord`, before the lock, or holding it with the writes
that it has not done yet. -/
inductive DumpCall where
  | idle
  | waiting (r : DumpRecord)
  | writing (fields : List (List u8))

structure DumpState where
  file : List u8
  /-- The goroutine that holds `file_lock`. -/
  fileLock : Option Nat
  calls : Nat → DumpCall
  /-- The records in the order in which the lock was taken for them; no code looks at it. -/
  order : List DumpRecord

def DumpState.init : DumpState := ⟨[], none, fun _ => .idle, []⟩

inductive DumpAction where
  /-- Goroutine `g` calls `DumpRecord`. -/
  | call (g : Nat) (r : DumpRecord)
  | lock (g : Nat)
  /-- The next `binary.Write`. -/
  | write (g : Nat)
  | unlock (g : Nat)

def DumpState.setCall (s : DumpState) (g : Nat) (c : DumpCall) : DumpState :=
  { s with calls := fun g' => if g' = g then c else s.calls g' }

def DumpState.step (s : DumpState) : DumpAction → Option DumpState
  | .call g r =>
      match s.calls g with
      | .idle => some (s.setCall g (.waiting r))
      | _ => none
  | .lock g =>
      match s.calls g, s.fileLock with
      | .waiting r, none => some { s.setCall g (.writing r.fields) with
          fileLock := some g, order := s.order ++ [r] }
      | _, _ => none
  | .write g =>
      match s.calls g with
      | .writing (field :: rest) =>
          some { s.setCall g (.writing rest) with file := s.file ++ field }
      | _ => none
  | .unlock g =>
      match s.calls g with
      | .writing [] => some { s.setCall g .idle with fileLock := none }
      | _ => none

def dumpMachine : Machine DumpState DumpAction := ⟨DumpState.step⟩

/-! ## The reading loop -/

/-- The five reads of one round. -/
def readEntry : Reader DumpEntry := do
  let _ ← Reader.word 4
  let eventIndex ← Reader.word 1
  let recType ← Reader.word 4
  let recLen ← Reader.word 4
  let recRaw ← Reader.take recLen.toNat
  return ⟨eventIndex, recType, recRaw⟩

theorem length_readEntry_lt {buf rest : List u8} {e : DumpEntry}
    (h : readEntry buf = (some e, rest)) : rest.length < buf.length := by
  have hlen : 4 ≤ buf.length := by
    by_contra hshort
    have hnone : (readEntry buf).1 = none :=
      Reader.bind_of_none ((Reader.takes_word 4 buf).2 (by omega)) _
    rw [h] at hnone
    cases hnone
  obtain ⟨_, mid, hlong, h⟩ := Reader.bind_eq_some h
  obtain ⟨-, rfl⟩ := Reader.word_eq_some hlong
  obtain ⟨_, mid, hindex, h⟩ := Reader.bind_eq_some h
  obtain ⟨-, rfl⟩ := Reader.word_eq_some hindex
  obtain ⟨_, mid, htype, h⟩ := Reader.bind_eq_some h
  obtain ⟨-, rfl⟩ := Reader.word_eq_some htype
  obtain ⟨_, mid, hrecLen, h⟩ := Reader.bind_eq_some h
  obtain ⟨-, rfl⟩ := Reader.word_eq_some hrecLen
  obtain ⟨_, mid, hraw, h⟩ := Reader.bind_eq_some h
  obtain ⟨-, rfl⟩ := Reader.take_eq_some hraw
  obtain rfl := (Prod.mk.inj h).2
  simp only [List.length_drop]
  omega

/-- How the loop ends: at the end of the file, or with a panic. -/
inductive DumpEnd where
  | eof | panic
deriving DecidableEq

section Loop

variable {σ : Type}

/-- The loop of `ParseDump`: the records that it hands to their events, and how it ends.
`handle` stands for what is done with a record, `ParseEvent` and the output of the result; it
may change the state of the program and may panic. -/
def parseDump (handle : σ → DumpEntry → Option σ) (s : σ) (buf : List u8) :
    List DumpEntry × DumpEnd :=
  if buf = [] then ([], .eof)
  else
    match _h : readEntry buf with
    | (none, _) => ([], .panic)
    | (some e, rest) =>
        match handle s e with
        | none => ([e], .panic)
        | some s' =>
            let (later, ending) := parseDump handle s' rest
            (e :: later, ending)
termination_by buf.length
decreasing_by exact length_readEntry_lt ‹_›

/-- The records handed to their events one after the other, up to one whose event panics; if
none does, the end is the given one. -/
def replay (handle : σ → DumpEntry → Option σ) :
    σ → List DumpRecord → DumpEnd → List DumpEntry × DumpEnd
  | _, [], ending => ([], ending)
  | s, r :: rs, ending =>
      match handle s r.toDumpEntry with
      | none => ([r.toDumpEntry], .panic)
      | some s' =>
          let (later, ending) := replay handle s' rs ending
          (r.toDumpEntry :: later, ending)

variable {handle : σ → DumpEntry → Option σ}

theorem parseDump_nil (s : σ) : parseDump handle s [] = ([], .eof) := by
  rw [parseDump, if_pos rfl]

/-- A rest of the file that is no whole record. -/
theorem parseDump_of_none {buf : List u8} (hne : buf ≠ []) (h : (readEntry buf).1 = none)
    (s : σ) : parseDump handle s buf = ([], .panic) := by
  rw [parseDump, if_neg hne]
  split
  · rfl
  · rename_i e rest hread
    rw [hread] at h
    cases h

/-- A whole record is handed over, and the loop goes on behind it. -/
theorem parseDump_of_some {buf rest : List u8} {e : DumpEntry} (hne : buf ≠ [])
    (h : readEntry buf = (some e, rest)) (s : σ) :
    parseDump handle s buf =
      match handle s e with
      | none => ([e], .panic)
      | some s' => (e :: (parseDump handle s' rest).1, (parseDump handle s' rest).2) := by
  rw [parseDump, if_neg hne]
  split
  · rename_i hread
    rw [hread] at h
    cases h
  · rename_i e' rest' hread
    obtain ⟨he, rfl⟩ := Prod.mk.inj (hread.symm.trans h)
    obtain rfl := Option.some.inj he
    rfl

/-! ## Frames -/

/-- The five reads take the five writes, and nothing less. -/
theorem delimits_frame (r : DumpRecord) :
    Reader.Delimits readEntry r.frame r.toDumpEntry := by
  have hlen : r.record.rawSample.length =
      (BitVec.ofNat 32 r.record.rawSample.length).toNat := by
    have hbound := r.bound
    rw [BitVec.toNat_ofNat, Nat.mod_eq_of_lt (by omega)]
  refine (Reader.delimits_word 4 _).bind ?_
  refine (Reader.delimits_word 1 r.eventIndex).bind ?_
  refine (Reader.delimits_word 4 r.record.recordType).bind ?_
  refine (Reader.delimits_word 4 (BitVec.ofNat 32 r.record.rawSample.length)).bind ?_
  exact (Reader.delimits_take hlen).bind (Reader.delimits_pure _)

theorem frame_ne_nil (e : DumpEntry) : e.frame ≠ [] := by
  intro h
  have hlen := congrArg List.length h
  simp [DumpEntry.frame, DumpEntry.fields] at hlen

theorem frames_cons (r : DumpRecord) (rs : List DumpRecord) :
    frames (r :: rs) = r.frame ++ frames rs := List.flatMap_cons

theorem frames_append (rs rs' : List DumpRecord) : frames (rs ++ rs') = frames rs ++ frames rs' :=
  List.flatMap_append

end Loop

/-! ## Files cut short -/

/-- The position behind the first `j` records. -/
def offset (rs : List DumpRecord) (j : Nat) : Nat := (frames (rs.take j)).length

@[simp] theorem offset_zero (rs : List DumpRecord) : offset rs 0 = 0 := rfl

theorem offset_cons_succ (r : DumpRecord) (rs : List DumpRecord) (j : Nat) :
    offset (r :: rs) (j + 1) = r.frame.length + offset rs j := by
  unfold offset
  rw [List.take_succ_cons, frames_cons, List.length_append]

/-- The first `j` records are those that lie wholly in the first `k` bytes. -/
structure HoldsWhole (rs : List DumpRecord) (k j : Nat) : Prop where
  count : j ≤ rs.length
  whole : offset rs j ≤ k
  most : ∀ i ≤ rs.length, offset rs i ≤ k → i ≤ j

theorem holdsWhole_nil (k : Nat) : HoldsWhole [] k 0 :=
  ⟨Nat.le_refl 0, Nat.zero_le k, fun _ hi _ => hi⟩

theorem holdsWhole_cons_zero {r : DumpRecord} {rs : List DumpRecord} {k : Nat} :
    HoldsWhole (r :: rs) k 0 ↔ k < r.frame.length := by
  have hone : offset (r :: rs) 1 = r.frame.length := by rw [offset_cons_succ, offset_zero]; rfl
  constructor
  · intro h
    by_contra hle
    have hmost := h.most 1 (by simp) (by omega)
    omega
  · intro h
    refine ⟨Nat.zero_le _, Nat.zero_le _, fun i _ hi => ?_⟩
    cases i with
    | zero => exact Nat.le_refl 0
    | succ i =>
        rw [offset_cons_succ] at hi
        omega

theorem holdsWhole_cons_succ {r : DumpRecord} {rs : List DumpRecord} {k j : Nat} :
    HoldsWhole (r :: rs) k (j + 1) ↔
      r.frame.length ≤ k ∧ HoldsWhole rs (k - r.frame.length) j := by
  constructor
  · intro h
    have hwhole := h.whole
    rw [offset_cons_succ] at hwhole
    refine ⟨by omega, Nat.le_of_succ_le_succ h.count, by omega, fun i hlen hi => ?_⟩
    refine Nat.le_of_succ_le_succ (h.most (i + 1) (Nat.succ_le_succ hlen) ?_)
    rw [offset_cons_succ]
    omega
  · rintro ⟨hle, h⟩
    have hwhole := h.whole
    refine ⟨Nat.succ_le_succ h.count, ?_, fun i hlen hi => ?_⟩
    · rw [offset_cons_succ]
      omega
    · cases i with
      | zero => exact Nat.zero_le _
      | succ i =>
          rw [offset_cons_succ] at hi
          exact Nat.succ_le_succ (h.most i (Nat.le_of_succ_le_succ hlen) (by omega))

/-- Some number of records lies wholly in the first bytes. -/
theorem exists_holdsWhole (rs : List DumpRecord) (k : Nat) : ∃ j, HoldsWhole rs k j := by
  induction rs generalizing k with
  | nil => exact ⟨0, holdsWhole_nil k⟩
  | cons r rs ih =>
      by_cases hlt : k < r.frame.length
      · exact ⟨0, holdsWhole_cons_zero.mpr hlt⟩
      · obtain ⟨j, hj⟩ := ih (k - r.frame.length)
        exact ⟨j + 1, holdsWhole_cons_succ.mpr ⟨Nat.le_of_not_lt hlt, hj⟩⟩

section Cut

variable {σ : Type} {handle : σ → DumpEntry → Option σ}

/-- A whole record in front of a file is handed over first. -/
theorem parseDump_frame_append (r : DumpRecord) (buf : List u8) (s : σ) :
    parseDump handle s (r.frame ++ buf) =
      match handle s r.toDumpEntry with
      | none => ([r.toDumpEntry], .panic)
      | some s' => (r.toDumpEntry :: (parseDump handle s' buf).1, (parseDump handle s' buf).2) :=
  parseDump_of_some (List.append_ne_nil_of_left_ne_nil (frame_ne_nil r.toDumpEntry) buf)
    ((delimits_frame r).consumes buf) s

/-- **Replay.** A file of whole frames is read to its end. -/
theorem parseDump_frames (rs : List DumpRecord) (s : σ) :
    parseDump handle s (frames rs) = replay handle s rs .eof := by
  induction rs generalizing s with
  | nil => exact parseDump_nil s
  | cons r rs ih =>
      rw [frames_cons, parseDump_frame_append, replay]
      cases handle s r.toDumpEntry with
      | none => rfl
      | some s' =>
          dsimp only
          rw [ih s']

/-- **Replay of a cut file.** The records that the kept part holds in whole are read; the end
is regular when the cut lies behind the last of them. -/
theorem parseDump_take {rs : List DumpRecord} {k j : Nat} (hk : k ≤ (frames rs).length)
    (hj : HoldsWhole rs k j) (s : σ) : parseDump handle s ((frames rs).take k) =
      replay handle s (rs.take j) (if offset rs j = k then .eof else .panic) := by
  induction rs generalizing k j s with
  | nil =>
      obtain rfl : k = 0 := Nat.le_zero.mp hk
      obtain rfl : j = 0 := Nat.le_zero.mp hj.count
      exact parseDump_nil s
  | cons r rs ih =>
      rw [frames_cons, List.length_append] at hk
      cases j with
      | zero =>
          have hlt := holdsWhole_cons_zero.mp hj
          rw [frames_cons, List.take_append_of_le_length (Nat.le_of_lt hlt)]
          show _ = ([], if 0 = k then DumpEnd.eof else DumpEnd.panic)
          by_cases hzero : 0 = k
          · subst hzero
            exact parseDump_nil s
          · have hne : r.frame.take k ≠ [] := by
              rw [Ne, List.take_eq_nil_iff, not_or]
              exact ⟨fun h => hzero h.symm, frame_ne_nil r.toDumpEntry⟩
            rw [if_neg hzero]
            exact parseDump_of_none hne ((delimits_frame r).cut k hlt) s
      | succ j =>
          obtain ⟨hle, hrest⟩ := holdsWhole_cons_succ.mp hj
          have hsplit : (frames (r :: rs)).take k =
              r.frame ++ (frames rs).take (k - r.frame.length) := by
            rw [frames_cons, List.take_append, List.take_of_length_le hle]
          have hoffset : offset (r :: rs) (j + 1) = k ↔ offset rs j = k - r.frame.length := by
            rw [offset_cons_succ]
            omega
          rw [hsplit, parseDump_frame_append, List.take_succ_cons, replay]
          cases handle s r.toDumpEntry with
          | none => rfl
          | some s' =>
              dsimp only
              rw [ih (by omega) hrest s']
              simp only [hoffset]

/-- Nothing is handed over but what was written, in the order of the writes. -/
theorem replay_isPrefix (rs : List DumpRecord) (ending : DumpEnd) (s : σ) :
    (replay handle s rs ending).1 <+: rs.map DumpRecord.toDumpEntry := by
  induction rs generalizing s with
  | nil => exact List.prefix_refl []
  | cons r rs ih =>
      rw [replay, List.map_cons]
      cases handle s r.toDumpEntry with
      | none => exact List.cons_prefix_cons.mpr ⟨rfl, List.nil_prefix⟩
      | some s' => exact List.cons_prefix_cons.mpr ⟨rfl, ih s'⟩

/-- When no event panics, every record is handed over. -/
theorem replay_of_returns (hreturns : ∀ s e, ∃ s', handle s e = some s')
    (rs : List DumpRecord) (ending : DumpEnd) (s : σ) :
    replay handle s rs ending = (rs.map DumpRecord.toDumpEntry, ending) := by
  induction rs generalizing s with
  | nil => rfl
  | cons r rs ih =>
      obtain ⟨s', hs'⟩ := hreturns s r.toDumpEntry
      rw [replay, hs']
      dsimp only
      rw [ih s']
      rfl

end Cut

/-! ## What the writers leave -/

/-- The file is the beginning of the frames of the records in the order of the lock; what is
missing of the last one is what the holder of the lock still has to write. -/
structure DumpState.Framed (s : DumpState) : Prop where
  holder : ∀ g fields, s.calls g = .writing fields → s.fileLock = some g
  free : s.fileLock = none → s.file = frames s.order
  held : ∀ g fields, s.calls g = .writing fields → s.file ++ fields.flatten = frames s.order

theorem framed_init : DumpState.init.Framed :=
  ⟨fun _ _ h => DumpCall.noConfusion h, fun _ => rfl, fun _ _ h => DumpCall.noConfusion h⟩

/-- What a step does to a state: every goroutine but the one that steps stays where it is. -/
theorem dumpStep_cases {s t : DumpState} {a : DumpAction} (h : s.step a = some t) :
    (∃ g r, t = s.setCall g (.waiting r) ∧ s.calls g = .idle) ∨
    (∃ g r, t = { s.setCall g (.writing r.fields) with
        fileLock := some g, order := s.order ++ [r] } ∧ s.fileLock = none) ∨
    (∃ g field rest, t = { s.setCall g (.writing rest) with file := s.file ++ field } ∧
      s.calls g = .writing (field :: rest)) ∨
    ∃ g, t = { s.setCall g .idle with fileLock := none } ∧ s.calls g = .writing [] := by
  cases a with
  | call g r =>
      simp only [DumpState.step] at h
      split at h
      · rename_i hidle
        exact Or.inl ⟨g, r, (Option.some.inj h).symm, hidle⟩
      · cases h
  | lock g =>
      simp only [DumpState.step] at h
      split at h
      · rename_i r _ hfree
        exact Or.inr (Or.inl ⟨g, r, (Option.some.inj h).symm, hfree⟩)
      · cases h
  | write g =>
      simp only [DumpState.step] at h
      split at h
      · rename_i field rest hwriting
        exact Or.inr (Or.inr (Or.inl ⟨g, field, rest, (Option.some.inj h).symm, hwriting⟩))
      · cases h
  | unlock g =>
      simp only [DumpState.step] at h
      split at h
      · rename_i hwriting
        exact Or.inr (Or.inr (Or.inr ⟨g, (Option.some.inj h).symm, hwriting⟩))
      · cases h

theorem setCall_writing {s : DumpState} {g g' : Nat} {c : DumpCall} {fields : List (List u8)} :
    (s.setCall g c).calls g' = .writing fields ↔
      (g' = g ∧ c = .writing fields) ∨ (g' ≠ g ∧ s.calls g' = .writing fields) := by
  show (if g' = g then c else s.calls g') = .writing fields ↔ _
  by_cases h : g' = g
  · simp [h]
  · simp [h]

/-- Only one goroutine is past the lock. -/
theorem DumpState.Framed.only {s : DumpState} (hs : s.Framed) {g g' : Nat}
    {fields fields' : List (List u8)} (h : s.calls g = .writing fields)
    (h' : s.calls g' = .writing fields') : g' = g :=
  Option.some.inj ((hs.holder g' fields' h').symm.trans (hs.holder g fields h))

theorem framed_call {s : DumpState} (hs : s.Framed) (g : Nat) (r : DumpRecord) :
    (s.setCall g (.waiting r)).Framed := by
  have hold (g' : Nat) (fields : List (List u8))
      (h : (s.setCall g (.waiting r)).calls g' = .writing fields) :
      s.calls g' = .writing fields := by
    rcases setCall_writing.mp h with ⟨-, hc⟩ | ⟨-, hcalls⟩
    · cases hc
    · exact hcalls
  exact ⟨fun g' fields h => hs.holder g' fields (hold g' fields h), hs.free,
    fun g' fields h => hs.held g' fields (hold g' fields h)⟩

theorem framed_lock {s : DumpState} (hs : s.Framed) (hfree : s.fileLock = none) (g : Nat)
    (r : DumpRecord) : DumpState.Framed { s.setCall g (.writing r.fields) with
      fileLock := some g, order := s.order ++ [r] } := by
  have hfile : s.file ++ r.fields.flatten = frames (s.order ++ [r]) := by
    rw [hs.free hfree, frames_append]
    show frames s.order ++ r.frame = frames s.order ++ (r.frame ++ [])
    rw [List.append_nil]
  have hnew (g' : Nat) (fields : List (List u8))
      (h : (s.setCall g (.writing r.fields)).calls g' = .writing fields) :
      g' = g ∧ r.fields = fields := by
    rcases setCall_writing.mp h with ⟨hg, hc⟩ | ⟨-, hcalls⟩
    · exact ⟨hg, DumpCall.writing.inj hc⟩
    · have hlock := hs.holder g' fields hcalls
      rw [hfree] at hlock
      cases hlock
  refine ⟨fun g' fields h => ?_, fun h => (by cases h), fun g' fields h => ?_⟩
  · rw [(hnew g' fields h).1]
  · rw [← (hnew g' fields h).2]
    exact hfile

theorem framed_write {s : DumpState} (hs : s.Framed) {g : Nat} {field : List u8}
    {rest : List (List u8)} (hcall : s.calls g = .writing (field :: rest)) :
    DumpState.Framed { s.setCall g (.writing rest) with file := s.file ++ field } := by
  have hlock := hs.holder g _ hcall
  have hnew (g' : Nat) (fields : List (List u8))
      (h : (s.setCall g (.writing rest)).calls g' = .writing fields) : g' = g ∧ rest = fields := by
    rcases setCall_writing.mp h with ⟨hg, hc⟩ | ⟨hne, hcalls⟩
    · exact ⟨hg, DumpCall.writing.inj hc⟩
    · exact absurd (hs.only hcall hcalls) hne
  refine ⟨fun g' fields h => ?_, fun h => ?_, fun g' fields h => ?_⟩
  · rw [(hnew g' fields h).1]
    exact hlock
  · have hnone : s.fileLock = none := h
    rw [hlock] at hnone
    cases hnone
  · rw [← (hnew g' fields h).2]
    show s.file ++ field ++ rest.flatten = frames s.order
    rw [List.append_assoc]
    exact hs.held g _ hcall

theorem framed_unlock {s : DumpState} (hs : s.Framed) {g : Nat} (hcall : s.calls g = .writing []) :
    DumpState.Framed { s.setCall g .idle with fileLock := none } := by
  have hnone (g' : Nat) (fields : List (List u8)) :
      (s.setCall g .idle).calls g' ≠ .writing fields := by
    intro h
    rcases setCall_writing.mp h with ⟨-, hc⟩ | ⟨hne, hcalls⟩
    · cases hc
    · exact hne (hs.only hcall hcalls)
  refine ⟨fun g' fields h => absurd h (hnone g' fields), fun _ => ?_,
    fun g' fields h => absurd h (hnone g' fields)⟩
  have hheld := hs.held g [] hcall
  rwa [List.flatten_nil, List.append_nil] at hheld

theorem framed_keeps : dumpMachine.Keeps (fun _ _ => True) DumpState.Framed := by
  intro s a t hs _ hstep
  rcases dumpStep_cases hstep with ⟨g, r, rfl, -⟩ | ⟨g, r, rfl, hfree⟩ |
    ⟨g, field, rest, rfl, hcall⟩ | ⟨g, rfl, hcall⟩
  · exact framed_call hs g r
  · exact framed_lock hs hfree g r
  · exact framed_write hs hcall
  · exact framed_unlock hs hcall

/-- **Round trip of dump files.** Whenever no goroutine holds the lock, the loop of `ParseDump`
hands the records to their events in the order in which the lock was taken, all of them unless
an event panics, and stops at the end of the file. Of a file cut at any byte it hands over the
records that the kept part holds in whole; it ends regularly when the cut is at the end of a
record, and with a panic when it is not. -/
theorem parseDump_recovers {as : List DumpAction} {s : DumpState}
    (hrun : dumpMachine.run .init as = some s) (hfree : s.fileLock = none) {σ : Type}
    (handle : σ → DumpEntry → Option σ) (s₀ : σ) :
    parseDump handle s₀ s.file = replay handle s₀ s.order .eof ∧
      ((∀ s e, ∃ s', handle s e = some s') →
        parseDump handle s₀ s.file = (s.order.map DumpRecord.toDumpEntry, .eof)) ∧
      ∀ k ≤ s.file.length, ∃ j, HoldsWhole s.order k j ∧
        parseDump handle s₀ (s.file.take k) =
          replay handle s₀ (s.order.take j) (if offset s.order j = k then .eof else .panic) ∧
        (parseDump handle s₀ (s.file.take k)).1 <+: s.order.map DumpRecord.toDumpEntry := by
  have hframed : s.Framed :=
    Machine.run_invariant framed_keeps as _ s framed_init (Machine.guarded_true _ as _) hrun
  have hwhole : parseDump handle s₀ (frames s.order) = _ := parseDump_frames s.order s₀
  rw [hframed.free hfree]
  refine ⟨hwhole, fun hreturns => ?_, fun k hk => ?_⟩
  · rw [hwhole, replay_of_returns hreturns]
  · obtain ⟨j, hj⟩ := exists_holdsWhole s.order k
    have htake : parseDump handle s₀ ((frames s.order).take k) = _ := parseDump_take hk hj s₀
    have hstarts : s.order.take j <+: s.order := List.take_prefix j s.order
    refine ⟨j, hj, htake, ?_⟩
    rw [htake]
    exact (replay_isPrefix _ _ s₀).trans (hstarts.map _)

/-- A sample without any bytes and a record of three. -/
def emptyDump : DumpRecord := ⟨⟨2, ⟨perfRecordSample, []⟩⟩, by decide⟩
def shortDump : DumpRecord := ⟨⟨3, ⟨perfRecordComm, [1, 2, 3]⟩⟩, by decide⟩

/-- Two goroutines call `DumpRecord`, and the later one gets the lock first. -/
def twoDumps : List DumpAction :=
  [.call 0 emptyDump, .call 1 shortDump, .lock 1] ++ List.replicate 5 (.write 1) ++
    [.unlock 1, .lock 0] ++ List.replicate 5 (.write 0) ++ [.unlock 0]

/-- The state after both calls. -/
def twoDumpsDone : DumpState := (dumpMachine.run .init twoDumps).getD .init

theorem twoDumps_recovered :
    dumpMachine.run .init twoDumps = some twoDumpsDone ∧
      parseDump (fun _ _ => some ()) () twoDumpsDone.file =
        ([shortDump.toDumpEntry, emptyDump.toDumpEntry], .eof) := by
  have hrun : dumpMachine.run .init twoDumps = some twoDumpsDone := rfl
  exact ⟨hrun, (parseDump_recovers hrun rfl _ ()).2.1 fun _ _ => ⟨(), rfl⟩⟩

end Stackplz
