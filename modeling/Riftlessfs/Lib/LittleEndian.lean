import Mathlib.Data.Nat.Basic
import Mathlib.Tactic

/-! Fixed-width little-endian encodings of natural numbers as byte lists. -/
namespace Lib.LittleEndian

/-- The low `w` bytes of `v`, least significant first. -/
def leBytes : ℕ → ℕ → List UInt8
  | 0, _ => []
  | w + 1, v => UInt8.ofNat v :: leBytes w (v / 256)

/-- The number a little-endian byte list denotes. -/
def leNat : List UInt8 → ℕ
  | [] => 0
  | b :: bs => b.toNat + 256 * leNat bs

@[simp] theorem leBytes_length (w v : ℕ) : (leBytes w v).length = w := by
  induction w generalizing v with
  | zero => rfl
  | succ w ih => simp [leBytes, ih]

theorem leNat_lt (bs : List UInt8) : leNat bs < 256 ^ bs.length := by
  induction bs with
  | nil => simp [leNat]
  | cons b bs ih =>
    have hb : b.toNat < 256 := b.toNat_lt
    rw [leNat, List.length_cons, pow_succ]
    omega

theorem leNat_leBytes_mod (w v : ℕ) : leNat (leBytes w v) = v % 256 ^ w := by
  induction w generalizing v with
  | zero => simp [leBytes, leNat, Nat.mod_one]
  | succ w ih =>
    rw [leBytes, leNat, ih, pow_succ, Nat.mul_comm (256 ^ w) 256, Nat.mod_mul]
    simp

theorem leNat_leBytes {w v : ℕ} (hv : v < 256 ^ w) : leNat (leBytes w v) = v := by
  rw [leNat_leBytes_mod, Nat.mod_eq_of_lt hv]

theorem leBytes_leNat (bs : List UInt8) : leBytes bs.length (leNat bs) = bs := by
  induction bs with
  | nil => rfl
  | cons b bs ih =>
    have hb : b.toNat < 256 := b.toNat_lt
    have hdiv : (b.toNat + 256 * leNat bs) / 256 = leNat bs := by omega
    have hbyte : UInt8.ofNat (b.toNat + 256 * leNat bs) = b := by
      apply UInt8.toNat_inj.mp
      simp
    simp [leNat, leBytes, hdiv, hbyte, ih]

end Lib.LittleEndian
