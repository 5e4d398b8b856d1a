import Mathlib.Algebra.Order.Group.Nat
import Mathlib.Tactic.Ring

/-!
# Little-endian bytes

Numbers as little-endian byte strings of a fixed width.
-/

set_option autoImplicit false

namespace LittleEndian

/-- The lowest `w` bytes of `x`, the lowest first. -/
def encode : Nat → Nat → List (BitVec 8)
  | 0, _ => []
  | w + 1, x => BitVec.ofNat 8 x :: encode w (x / 256)

/-- The number a little-endian byte string stands for. -/
def decode : List (BitVec 8) → Nat
  | [] => 0
  | b :: bs => b.toNat + 256 * decode bs

@[simp] theorem length_encode (w x : Nat) : (encode w x).length = w := by
  induction w generalizing x with
  | zero => rfl
  | succ w ih => simp [encode, ih]

theorem decode_lt (bs : List (BitVec 8)) : decode bs < 256 ^ bs.length := by
  induction bs with
  | nil => decide
  | cons b bs ih =>
      have hb : b.toNat < 256 := b.isLt
      rw [decode, List.length_cons, pow_succ]
      omega

/-- Reading back what was written gives the number modulo the width. -/
theorem decode_encode (w x : Nat) : decode (encode w x) = x % 256 ^ w := by
  induction w generalizing x with
  | zero => simp [encode, decode, Nat.mod_one]
  | succ w ih =>
      have hlow : (BitVec.ofNat 8 x).toNat = x % 256 := BitVec.toNat_ofNat x 8
      rw [encode, decode, ih, hlow, Nat.pow_succ, mul_comm (256 ^ w) 256, Nat.mod_mul]

/-- Writing back what was read gives the same bytes. -/
theorem encode_decode (bs : List (BitVec 8)) : encode bs.length (decode bs) = bs := by
  induction bs with
  | nil => rfl
  | cons b bs ih =>
      have hb : b.toNat < 256 := b.isLt
      have hlow : BitVec.ofNat 8 (b.toNat + 256 * decode bs) = b := by
        apply BitVec.eq_of_toNat_eq
        rw [BitVec.toNat_ofNat]
        omega
      have hhigh : (b.toNat + 256 * decode bs) / 256 = decode bs := by omega
      rw [List.length_cons, decode, encode, hlow, hhigh, ih]

/-- The bytes of a number split where its digits do. -/
theorem encode_add (v w x : Nat) : encode (v + w) x = encode v x ++ encode w (x / 256 ^ v) := by
  induction v generalizing x with
  | zero => simp [encode]
  | succ v ih =>
      rw [Nat.add_right_comm, encode, encode, ih, List.cons_append, Nat.div_div_eq_div_mul,
        Nat.pow_succ, mul_comm (256 ^ v) 256]

theorem encode_zero (w : Nat) : encode w 0 = List.replicate w 0 := by
  induction w with
  | zero => rfl
  | succ w ih =>
      rw [encode, ih, List.replicate_succ]
      rfl

/-- A wider word is padded with zeros at its end. -/
theorem encode_decode_add (bs : List (BitVec 8)) (w : Nat) :
    encode (bs.length + w) (decode bs) = bs ++ List.replicate w 0 := by
  rw [encode_add, encode_decode, Nat.div_eq_of_lt (decode_lt bs), encode_zero]

theorem decode_append (as bs : List (BitVec 8)) :
    decode (as ++ bs) = decode as + 256 ^ as.length * decode bs := by
  induction as with
  | nil => simp [decode]
  | cons a as ih =>
      rw [List.cons_append, decode, decode, ih, List.length_cons, Nat.pow_succ]
      ring

theorem decode_replicate_zero (w : Nat) : decode (List.replicate w 0) = 0 := by
  induction w with
  | zero => rfl
  | succ w ih =>
      rw [List.replicate_succ, decode, ih]
      rfl

/-- The first bytes are the number modulo their width. -/
theorem decode_take {n : Nat} {bs : List (BitVec 8)} (h : n ≤ bs.length) :
    decode (bs.take n) = decode bs % 256 ^ n := by
  have hsplit := decode_append (bs.take n) (bs.drop n)
  have hlen : (bs.take n).length = n := by
    rw [List.length_take, Nat.min_eq_left h]
  have hlt := decode_lt (bs.take n)
  rw [List.take_append_drop, hlen] at hsplit
  rw [hlen] at hlt
  rw [hsplit, Nat.add_mul_mod_self_left, Nat.mod_eq_of_lt hlt]

theorem decode_injective {as bs : List (BitVec 8)} (hlen : as.length = bs.length)
    (h : decode as = decode bs) : as = bs := by
  rw [← encode_decode as, ← encode_decode bs, hlen, h]

/-- The bytes of a machine word of `w` bytes. -/
def ofWord (w : Nat) (x : BitVec (8 * w)) : List (BitVec 8) := encode w x.toNat

/-- The machine word of `w` bytes that a byte string stands for. -/
def toWord (w : Nat) (bs : List (BitVec 8)) : BitVec (8 * w) := BitVec.ofNat (8 * w) (decode bs)

@[simp] theorem length_ofWord (w : Nat) (x : BitVec (8 * w)) : (ofWord w x).length = w :=
  length_encode w _

@[simp] theorem toWord_ofWord (w : Nat) (x : BitVec (8 * w)) : toWord w (ofWord w x) = x := by
  apply BitVec.eq_of_toNat_eq
  have hpow : 256 ^ w = 2 ^ (8 * w) := (pow_mul 2 8 w).symm
  have hlt : x.toNat < 256 ^ w := hpow ▸ x.isLt
  rw [toWord, ofWord, decode_encode, BitVec.toNat_ofNat, ← hpow, Nat.mod_mod,
    Nat.mod_eq_of_lt hlt]

/-- The first byte is the low byte of the word. -/
theorem setWidth_toWord (w : Nat) (b : BitVec 8) (bs : List (BitVec 8)) :
    (toWord (w + 1) (b :: bs)).setWidth 8 = b := by
  apply BitVec.eq_of_toNat_eq
  have hb : b.toNat < 256 := b.isLt
  have hdvd : 256 ∣ 2 ^ (8 * (w + 1)) := ⟨2 ^ (8 * w), by rw [Nat.mul_succ, Nat.pow_add, mul_comm]⟩
  rw [toWord, BitVec.toNat_setWidth, BitVec.toNat_ofNat, decode]
  show _ % 256 = _
  rw [Nat.mod_mod_of_dvd _ hdvd]
  omega

end LittleEndian
