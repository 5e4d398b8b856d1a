import Stackplz.Basic.Bytes

/-!
# Byte readers

A reader takes bytes off the front of a buffer and returns a value or stops short; what it
leaves of the buffer is known in both cases. `Consumes` says that a reader takes exactly
these bytes for this value, whatever follows them, so that records are read back one after
the other, and `Idle` says that it leaves every buffer as it is.
-/

set_option autoImplicit false

/-- A reader of a buffer; `none` is a read that stops the program. -/
def Reader (α : Type) := List (BitVec 8) → Option α × List (BitVec 8)

namespace Reader

variable {α β : Type}

protected def pure (a : α) : Reader α := fun buf => (some a, buf)

protected def bind (r : Reader α) (f : α → Reader β) : Reader β := fun buf =>
  match r buf with
  | (some a, rest) => f a rest
  | (none, rest) => (none, rest)

instance : Monad Reader where
  pure := Reader.pure
  bind := Reader.bind

/-- Stop without looking at the buffer. -/
def stop : Reader α := fun buf => (none, buf)

/-- The next `n` bytes. A buffer that holds fewer is used up by the attempt. -/
def take (n : Nat) : Reader (List (BitVec 8)) := fun buf =>
  if n ≤ buf.length then (some (buf.take n), buf.drop n) else (none, [])

/-- A little-endian word of `w` bytes. -/
def word (w : Nat) : Reader (BitVec (8 * w)) := do
  let bytes ← take w
  return LittleEndian.toWord w bytes

/-- A reading whose failure is the end and not a stop. -/
def bindOr (r : Reader α) (b : β) (f : α → Reader β) : Reader β := fun buf =>
  match r buf with
  | (some a, rest) => f a rest
  | (none, rest) => (some b, rest)

/-- One reading for each element of a list. -/
def each (f : β → Reader α) : List β → Reader (List α)
  | [] => pure []
  | x :: xs => do
      let a ← f x
      let as ← each f xs
      return a :: as

/-- A sequence that returns something has read both its parts. -/
theorem bind_eq_some {r : Reader α} {f : α → Reader β} {buf rest : List (BitVec 8)} {b : β}
    (h : (r >>= f) buf = (some b, rest)) :
    ∃ a mid, r buf = (some a, mid) ∧ f a mid = (some b, rest) := by
  have hbind : Reader.bind r f buf = (some b, rest) := h
  unfold Reader.bind at hbind
  split at hbind
  · rename_i a mid hr
    exact ⟨a, mid, hr, hbind⟩
  · cases hbind

theorem bind_assoc {γ : Type} (r : Reader α) (f : α → Reader β) (g : β → Reader γ) :
    ((r >>= f) >>= g) = r >>= fun a => f a >>= g := by
  funext buf
  show Reader.bind (Reader.bind r f) g buf = Reader.bind r (fun a => Reader.bind (f a) g) buf
  unfold Reader.bind
  rcases r buf with ⟨_ | a, mid⟩ <;> rfl

/-- A value that is computed from what was read can be computed later. -/
theorem bind_pure_bind {γ : Type} (r : Reader α) (f : α → β) (g : β → Reader γ) :
    ((r >>= fun a => pure (f a)) >>= g) = r >>= fun a => g (f a) := by
  funext buf
  show Reader.bind (Reader.bind r fun a => Reader.pure (f a)) g buf =
    Reader.bind r (fun a => g (f a)) buf
  unfold Reader.bind
  cases r buf with
  | mk a? rest => cases a? with
    | none => rfl
    | some a => rfl

theorem length_of_take {n : Nat} {buf bytes rest : List (BitVec 8)}
    (h : take n buf = (some bytes, rest)) : bytes.length = n := by
  unfold take at h
  split at h
  · rename_i hle
    obtain rfl := Option.some.inj (Prod.mk.inj h).1
    rw [List.length_take, Nat.min_eq_left hle]
  · cases h

/-! ## Exact consumption -/

/-- The reader takes exactly `bytes` and returns `a`. -/
def Consumes (r : Reader α) (bytes : List (BitVec 8)) (a : α) : Prop :=
  ∀ rest, r (bytes ++ rest) = (some a, rest)

theorem consumes_pure (a : α) : Consumes (pure a) [] a := fun _ => rfl

theorem Consumes.bind {r : Reader α} {f : α → Reader β} {bytes bytes' : List (BitVec 8)}
    {a : α} {b : β} (hr : Consumes r bytes a) (hf : Consumes (f a) bytes' b) :
    Consumes (r >>= f) (bytes ++ bytes') b := by
  intro rest
  show Reader.bind r f (bytes ++ bytes' ++ rest) = (some b, rest)
  rw [List.append_assoc]
  unfold Reader.bind
  rw [hr]
  exact hf rest

/-- After its own bytes a reader hands over to the next one. -/
theorem Consumes.bind_pure {r : Reader α} {bytes : List (BitVec 8)} {a : α}
    (hr : Consumes r bytes a) (f : α → β) :
    Consumes (r >>= fun x => pure (f x)) bytes (f a) := by
  rw [← List.append_nil bytes]
  exact hr.bind (consumes_pure (f a))

theorem Consumes.run {r : Reader α} {bytes : List (BitVec 8)} {a : α} (hr : Consumes r bytes a) :
    r bytes = (some a, []) := by
  have hend := hr []
  rwa [List.append_nil] at hend

theorem Consumes.bind_append {r : Reader α} {bytes : List (BitVec 8)} {a : α}
    (hr : Consumes r bytes a) (f : α → Reader β) (rest : List (BitVec 8)) :
    (r >>= f) (bytes ++ rest) = f a rest := by
  show Reader.bind r f (bytes ++ rest) = f a rest
  unfold Reader.bind
  rw [hr]

theorem Consumes.bindOr {r : Reader α} {f : α → Reader β} {bytes : List (BitVec 8)} {a : α}
    (hr : Consumes r bytes a) (b : β) (rest : List (BitVec 8)) :
    bindOr r b f (bytes ++ rest) = f a rest := by
  unfold Reader.bindOr
  rw [hr]

theorem consumes_take (bytes : List (BitVec 8)) : Consumes (take bytes.length) bytes bytes := by
  intro rest
  have hle : bytes.length ≤ (bytes ++ rest).length := by
    rw [List.length_append]
    omega
  unfold take
  rw [if_pos hle, List.take_left, List.drop_left]

theorem consumes_take_of_length {n : Nat} {bytes : List (BitVec 8)} (h : bytes.length = n) :
    Consumes (take n) bytes bytes := h ▸ consumes_take bytes

theorem consumes_word (w : Nat) (x : BitVec (8 * w)) :
    Consumes (word w) (LittleEndian.ofWord w x) x := by
  have htake : Consumes (take w) (LittleEndian.ofWord w x) (LittleEndian.ofWord w x) :=
    consumes_take_of_length (LittleEndian.length_ofWord w x)
  have hword := htake.bind_pure (LittleEndian.toWord w)
  rw [LittleEndian.toWord_ofWord] at hword
  exact hword

/-- Records written one after the other are read back one after the other. -/
theorem consumes_each {f : β → Reader α} {bytes : β → List (BitVec 8)} {value : β → α} :
    ∀ {xs : List β}, (∀ x ∈ xs, Consumes (f x) (bytes x) (value x)) →
      Consumes (each f xs) (xs.flatMap bytes) (xs.map value)
  | [], _ => consumes_pure []
  | x :: xs, h => by
      have hx := h x (List.mem_cons_self ..)
      have hxs := consumes_each fun y hy => h y (List.mem_cons_of_mem x hy)
      rw [List.flatMap_cons, List.map_cons]
      refine hx.bind ?_
      exact hxs.bind_pure (value x :: ·)

/-- One reading for each element depends on their number only. -/
theorem each_const {γ : Type} (r : Reader α) {xs : List β} {ys : List γ}
    (h : xs.length = ys.length) : each (fun _ => r) xs = each (fun _ => r) ys := by
  induction xs generalizing ys with
  | nil => rw [List.eq_nil_of_length_eq_zero h.symm]; rfl
  | cons x xs ih =>
      cases ys with
      | nil => cases h
      | cons y ys => rw [each, each, ih (Nat.succ.inj h)]

theorem take_of_le {n : Nat} {buf : List (BitVec 8)} (h : n ≤ buf.length) :
    take n buf = (some (buf.take n), buf.drop n) := if_pos h

theorem take_of_lt {n : Nat} {buf : List (BitVec 8)} (h : buf.length < n) :
    take n buf = (none, []) := if_neg (Nat.not_le.mpr h)

theorem bind_of_some {r : Reader α} {f : α → Reader β} {buf mid : List (BitVec 8)} {a : α}
    (h : r buf = (some a, mid)) : (r >>= f) buf = f a mid := by
  show Reader.bind r f buf = f a mid
  unfold Reader.bind
  rw [h]

theorem bind_of_none {r : Reader α} {buf : List (BitVec 8)} (h : (r buf).1 = none)
    (f : α → Reader β) : ((r >>= f) buf).1 = none := by
  show (Reader.bind r f buf).1 = none
  unfold Reader.bind
  split
  · rename_i a mid hr
    rw [hr] at h
    cases h
  · rfl

/-! ## Cut records -/

/-- The reader takes exactly `bytes` and returns `a`; of every shorter part of them it makes
nothing. -/
structure Delimits (r : Reader α) (bytes : List (BitVec 8)) (a : α) : Prop where
  consumes : Consumes r bytes a
  cut : ∀ k < bytes.length, (r (bytes.take k)).1 = none

theorem delimits_pure (a : α) : Delimits (pure a) [] a :=
  ⟨consumes_pure a, fun _ hk => absurd hk (Nat.not_lt_zero _)⟩

theorem Delimits.bind {r : Reader α} {f : α → Reader β} {bytes bytes' : List (BitVec 8)}
    {a : α} {b : β} (hr : Delimits r bytes a) (hf : Delimits (f a) bytes' b) :
    Delimits (r >>= f) (bytes ++ bytes') b := by
  refine ⟨hr.consumes.bind hf.consumes, fun k hk => ?_⟩
  rw [List.length_append] at hk
  by_cases hfirst : k < bytes.length
  · rw [List.take_append_of_le_length (by omega)]
    exact bind_of_none (hr.cut k hfirst) f
  · -- the cut lies behind the first part, which is read
    have hsplit : (bytes ++ bytes').take k = bytes ++ bytes'.take (k - bytes.length) := by
      rw [List.take_append, List.take_of_length_le (by omega)]
    rw [hsplit, hr.consumes.bind_append]
    exact hf.cut _ (by omega)

theorem delimits_take {n : Nat} {bytes : List (BitVec 8)} (h : bytes.length = n) :
    Delimits (take n) bytes bytes := by
  refine ⟨consumes_take_of_length h, fun k hk => ?_⟩
  rw [take_of_lt]
  rw [List.length_take]
  omega

theorem delimits_word (w : Nat) (x : BitVec (8 * w)) :
    Delimits (word w) (LittleEndian.ofWord w x) x := by
  refine ⟨consumes_word w x, fun k hk => bind_of_none ?_ _⟩
  exact (delimits_take (LittleEndian.length_ofWord w x)).cut k hk

/-! ## How much a reader needs -/

/-- Everything that is left. -/
def rest : Reader (List (BitVec 8)) := fun buf => (some buf, [])

theorem word_of_le {w : Nat} {buf : List (BitVec 8)} (h : w ≤ buf.length) :
    word w buf = (some (LittleEndian.toWord w (buf.take w)), buf.drop w) :=
  bind_of_some (f := fun bytes => pure (LittleEndian.toWord w bytes)) (take_of_le h)

theorem take_eq_some {n : Nat} {buf bytes mid : List (BitVec 8)}
    (h : take n buf = (some bytes, mid)) : bytes = buf.take n ∧ mid = buf.drop n := by
  by_cases hle : n ≤ buf.length
  · rw [take_of_le hle, Prod.mk.injEq, Option.some.injEq] at h
    exact ⟨h.1.symm, h.2.symm⟩
  · rw [take_of_lt (Nat.lt_of_not_le hle)] at h
    cases h

theorem word_eq_some {w : Nat} {buf mid : List (BitVec 8)} {x : BitVec (8 * w)}
    (h : word w buf = (some x, mid)) :
    x = LittleEndian.toWord w (buf.take w) ∧ mid = buf.drop w := by
  obtain ⟨bytes, mid', htake, hpure⟩ := bind_eq_some h
  obtain ⟨rfl, rfl⟩ := take_eq_some htake
  obtain ⟨hx, hmid⟩ := Prod.mk.inj hpure
  exact ⟨(Option.some.inj hx).symm, hmid.symm⟩

/-- The reader takes `n` bytes, whatever they are, and stops at a buffer of fewer. -/
def Takes (r : Reader α) (n : Nat) : Prop :=
  ∀ buf, (n ≤ buf.length → ∃ a, r buf = (some a, buf.drop n)) ∧
    (buf.length < n → (r buf).1 = none)

/-- The reader returns a value from the buffers of at least `n` bytes. -/
def Accepts (r : Reader α) (n : Nat) : Prop := ∀ buf, (r buf).1.isSome ↔ n ≤ buf.length

theorem takes_pure (a : α) : Takes (pure a) 0 :=
  fun _ => ⟨fun _ => ⟨a, rfl⟩, fun h => absurd h (Nat.not_lt_zero _)⟩

theorem takes_take (n : Nat) : Takes (take n) n :=
  fun buf => ⟨fun h => ⟨buf.take n, take_of_le h⟩, fun h => congrArg Prod.fst (take_of_lt h)⟩

theorem Takes.bind {r : Reader α} {f : α → Reader β} {m n : Nat} (hr : Takes r m)
    (hf : ∀ a, Takes (f a) n) : Takes (r >>= f) (m + n) := by
  intro buf
  constructor
  · intro hlen
    obtain ⟨a, ha⟩ := (hr buf).1 (by omega)
    have hrest : n ≤ (buf.drop m).length := by
      rw [List.length_drop]
      omega
    obtain ⟨b, hb⟩ := (hf a (buf.drop m)).1 hrest
    refine ⟨b, ?_⟩
    rw [bind_of_some ha, hb, List.drop_drop]
  · intro hlen
    by_cases hm : m ≤ buf.length
    · obtain ⟨a, ha⟩ := (hr buf).1 hm
      rw [bind_of_some ha]
      refine (hf a (buf.drop m)).2 ?_
      rw [List.length_drop]
      omega
    · exact bind_of_none ((hr buf).2 (by omega)) f

theorem takes_word (w : Nat) : Takes (word w) w :=
  (takes_take w).bind fun _ => takes_pure _

theorem Takes.accepts {r : Reader α} {n : Nat} (h : Takes r n) : Accepts r n := by
  intro buf
  by_cases hlen : n ≤ buf.length
  · obtain ⟨a, ha⟩ := (h buf).1 hlen
    simp [ha, hlen]
  · simp [(h buf).2 (by omega), hlen]

theorem accepts_rest_map (f : List (BitVec 8) → α) : Accepts (do return f (← rest)) 0 := by
  intro buf
  simp only [Nat.zero_le, iff_true]
  rfl

theorem Takes.bind_accepts {r : Reader α} {f : α → Reader β} {m n : Nat} (hr : Takes r m)
    (hf : ∀ a, Accepts (f a) n) : Accepts (r >>= f) (m + n) := by
  intro buf
  by_cases hm : m ≤ buf.length
  · obtain ⟨a, ha⟩ := (hr buf).1 hm
    rw [bind_of_some ha, hf a (buf.drop m), List.length_drop]
    omega
  · rw [bind_of_none ((hr buf).2 (by omega)) f]
    simp only [Option.isSome_none, Bool.false_eq_true, false_iff]
    omega

/-- Whatever the reader returns satisfies `P`. -/
def Returns (r : Reader α) (P : α → Prop) : Prop :=
  ∀ buf a mid, r buf = (some a, mid) → P a

theorem returns_pure {P : α → Prop} {a : α} (h : P a) : Returns (pure a) P :=
  fun _ _ _ hr => Option.some.inj (Prod.mk.inj hr).1 ▸ h

theorem returns_stop {P : α → Prop} : Returns (stop : Reader α) P := by
  intro buf a mid h
  cases h

theorem Returns.bind {r : Reader α} {f : α → Reader β} {P : β → Prop}
    (hf : ∀ a, Returns (f a) P) : Returns (r >>= f) P := by
  intro buf b mid h
  obtain ⟨a, mid', -, hfa⟩ := bind_eq_some h
  exact hf a mid' b mid hfa

/-! ## Idle readers -/

/-- The reader leaves every buffer as it is. -/
def Idle (r : Reader α) : Prop := ∀ buf, (r buf).2 = buf

theorem idle_pure (a : α) : Idle (pure a : Reader α) := fun _ => rfl

theorem idle_stop : Idle (stop : Reader α) := fun _ => rfl

/-- The reader stops at a buffer of one byte, and uses it up. -/
def Starves (r : Reader α) : Prop := r [0] = (none, [])

theorem starves_take {n : Nat} (h : 2 ≤ n) : Starves (take n) := by
  have hshort : ¬ n ≤ [(0 : BitVec 8)].length := by
    show ¬ n ≤ 1
    omega
  exact if_neg hshort

theorem Starves.bind {r : Reader α} (h : Starves r) (f : α → Reader β) : Starves (r >>= f) := by
  show Reader.bind r f [0] = (none, [])
  unfold Reader.bind
  rw [h]

theorem Starves.not_idle {r : Reader α} (h : Starves r) : ¬ Idle r := by
  intro hidle
  have hbuf : (r [0]).2 = [0] := hidle [0]
  rw [h] at hbuf
  exact absurd hbuf (by simp)

/-! ## Readings that agree -/

/-- On every buffer the two readers leave the same bytes, and both stop or neither does. What
they return may differ. -/
structure SameReads (r : Reader α) (r' : Reader β) : Prop where
  rest_eq : ∀ buf, (r buf).2 = (r' buf).2
  stops_iff : ∀ buf, (r buf).1 = none ↔ (r' buf).1 = none

section SameReads

variable {γ δ : Type}

theorem SameReads.refl (r : Reader α) : SameReads r r := ⟨fun _ => rfl, fun _ => Iff.rfl⟩

theorem SameReads.symm {r : Reader α} {r' : Reader β} (h : SameReads r r') : SameReads r' r :=
  ⟨fun buf => (h.rest_eq buf).symm, fun buf => (h.stops_iff buf).symm⟩

theorem SameReads.trans {r : Reader α} {r' : Reader β} {r'' : Reader γ} (h : SameReads r r')
    (h' : SameReads r' r'') : SameReads r r'' :=
  ⟨fun buf => (h.rest_eq buf).trans (h'.rest_eq buf),
    fun buf => (h.stops_iff buf).trans (h'.stops_iff buf)⟩

/-- Returning reads nothing, whatever is returned. -/
theorem sameReads_pure (a : α) (b : β) : SameReads (pure a : Reader α) (pure b : Reader β) := by
  refine ⟨fun buf => rfl, fun buf => ?_⟩
  show some a = none ↔ some b = none
  simp

theorem sameReads_stop : SameReads (stop : Reader α) (stop : Reader β) :=
  ⟨fun _ => rfl, fun _ => ⟨fun _ => rfl, fun _ => rfl⟩⟩

/-- Readers that agree, continued by readers that agree on what was read from one buffer. -/
theorem SameReads.bind_of {r : Reader α} {r' : Reader β} {f : α → Reader γ} {f' : β → Reader δ}
    (h : SameReads r r')
    (hf : ∀ buf mid a b, r buf = (some a, mid) → r' buf = (some b, mid) →
      SameReads (f a) (f' b)) : SameReads (r >>= f) (r' >>= f') := by
  have hbuf (buf : List (BitVec 8)) : ((r >>= f) buf).2 = ((r' >>= f') buf).2 ∧
      (((r >>= f) buf).1 = none ↔ ((r' >>= f') buf).1 = none) := by
    have hrest := h.rest_eq buf
    have hstops := h.stops_iff buf
    have hcont := hf buf
    show (Reader.bind r f buf).2 = (Reader.bind r' f' buf).2 ∧
      ((Reader.bind r f buf).1 = none ↔ (Reader.bind r' f' buf).1 = none)
    unfold Reader.bind
    -- the first parts both stop, or both go on with the same bytes
    rcases hr : r buf with ⟨_ | a, mid⟩ <;> rcases hr' : r' buf with ⟨_ | b, mid'⟩ <;>
      rw [hr, hr'] at hrest hstops hcont
    · exact ⟨hrest, by simp⟩
    · exact absurd (hstops.mp rfl) (by simp)
    · exact absurd (hstops.mpr rfl) (by simp)
    · obtain rfl : mid = mid' := hrest
      have hsame := hcont mid a b rfl rfl
      exact ⟨hsame.rest_eq mid, hsame.stops_iff mid⟩
  exact ⟨fun buf => (hbuf buf).1, fun buf => (hbuf buf).2⟩

theorem SameReads.bind {r : Reader α} {r' : Reader β} {f : α → Reader γ} {f' : β → Reader δ}
    (h : SameReads r r') (hf : ∀ a b, SameReads (f a) (f' b)) :
    SameReads (r >>= f) (r' >>= f') := h.bind_of fun _ _ a b _ _ => hf a b

/-- The same first part, continued by readers that agree. -/
theorem sameReads_bind (r : Reader α) {f : α → Reader β} {f' : α → Reader γ}
    (hf : ∀ a, SameReads (f a) (f' a)) : SameReads (r >>= f) (r >>= f') := by
  refine (SameReads.refl r).bind_of fun buf mid a b ha hb => ?_
  have hab : a = b := by simpa [ha] using hb
  exact hab ▸ hf a

/-- A last step that only returns leaves the reading as it is. -/
theorem sameReads_bind_pure {r : Reader α} {P : α → Prop} (hr : Returns r P)
    {f : α → Reader β} (hf : ∀ a, P a → ∃ b, f a = pure b) : SameReads (r >>= f) r := by
  have hpure : r = r >>= fun a => pure a := by
    funext buf
    show r buf = Reader.bind r Reader.pure buf
    unfold Reader.bind
    rcases r buf with ⟨_ | a, mid⟩ <;> rfl
  have hsame : SameReads (r >>= f) (r >>= fun a => pure a) := by
    refine (SameReads.refl r).bind_of fun buf mid a b ha _ => ?_
    obtain ⟨c, hc⟩ := hf a (hr buf a mid ha)
    rw [hc]
    exact sameReads_pure c b
  rwa [← hpure] at hsame

/-- What is computed from a value reads nothing. -/
theorem sameReads_map (r : Reader α) (f : α → β) : SameReads (r >>= fun a => pure (f a)) r :=
  sameReads_bind_pure (P := fun _ => True) (fun _ _ _ _ => trivial) fun a _ => ⟨f a, rfl⟩

/-- One reading for each element agrees, when the readings of each element do. -/
theorem sameReads_each {f : γ → Reader α} {f' : γ → Reader β} :
    ∀ {xs : List γ}, (∀ x ∈ xs, SameReads (f x) (f' x)) → SameReads (each f xs) (each f' xs)
  | [], _ => sameReads_pure [] []
  | x :: xs, h => by
      have hx := h x (List.mem_cons_self ..)
      have hxs := sameReads_each fun y hy => h y (List.mem_cons_of_mem x hy)
      refine hx.bind fun a b => ?_
      exact hxs.bind fun as bs => sameReads_pure (a :: as) (b :: bs)

end SameReads

end Reader
