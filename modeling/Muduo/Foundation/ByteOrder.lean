import Mathlib.Algebra.Order.Ring.Int
import Mathlib.Tactic.Ring

/-!
# ByteOrder — machine words in memory and on the wire

A word of `n` bytes is a `BitVec (8 * n)`.  `image` is what a host of the given byte order keeps
in memory for it, and `htobe` / `betoh` are the conversions of `<endian.h>`, which reverse the
bytes on a little-endian host and do nothing on a big-endian one.  `networkOrder n x` is the
big-endian two's-complement encoding of an integer, stated over the integers; `image_htobe` says
that it is what `htobe` leaves in memory on either host, and `betoh_ofImage` reads it back.
-/

namespace ByteOrder

inductive Endian
  | little
  | big
  deriving DecidableEq, Repr

/-! ## Bytes of a number, least significant first -/

def lowFirst : Nat → Nat → List UInt8
  | 0, _ => []
  | n + 1, x => UInt8.ofNat x :: lowFirst n (x / 256)

def ofLowFirst : List UInt8 → Nat
  | [] => 0
  | b :: bs => b.toNat + 256 * ofLowFirst bs

@[simp] theorem length_lowFirst (n x : Nat) : (lowFirst n x).length = n := by
  induction n generalizing x with
  | zero => rfl
  | succ n ih => simp [lowFirst, ih]

theorem ofLowFirst_lowFirst {n x : Nat} (h : x < 256 ^ n) : ofLowFirst (lowFirst n x) = x := by
  induction n generalizing x with
  | zero =>
      simp only [pow_zero] at h
      simp only [lowFirst, ofLowFirst]
      omega
  | succ n ih =>
      have hx : x / 256 < 256 ^ n := by
        rw [pow_succ] at h
        omega
      simp only [lowFirst, ofLowFirst, ih hx, UInt8.toNat_ofNat']
      omega

theorem ofLowFirst_lt (bs : List UInt8) : ofLowFirst bs < 256 ^ bs.length := by
  induction bs with
  | nil => simp [ofLowFirst]
  | cons b bs ih =>
      have hb : b.toNat < 256 := b.toNat_lt
      simp only [ofLowFirst, List.length_cons, pow_succ]
      omega

theorem lowFirst_ofLowFirst (bs : List UInt8) : lowFirst bs.length (ofLowFirst bs) = bs := by
  induction bs with
  | nil => rfl
  | cons b bs ih =>
      have hb : b.toNat < 256 := b.toNat_lt
      have hhead : UInt8.ofNat (b.toNat + 256 * ofLowFirst bs) = b := by
        apply UInt8.toNat_inj.1
        rw [UInt8.toNat_ofNat']
        omega
      have htail : (b.toNat + 256 * ofLowFirst bs) / 256 = ofLowFirst bs := by omega
      simp only [List.length_cons, lowFirst, ofLowFirst, hhead, htail, ih]

/-! ## Words -/

/-- The bytes of a word in the memory of a host, from the lowest address up. -/
def image (e : Endian) {n : Nat} (x : BitVec (8 * n)) : List UInt8 :=
  match e with
  | .little => lowFirst n x.toNat
  | .big => (lowFirst n x.toNat).reverse

/-- The word whose image is copied into its memory. -/
def ofImage (e : Endian) (n : Nat) (bytes : List UInt8) : BitVec (8 * n) :=
  match e with
  | .little => BitVec.ofNat _ (ofLowFirst bytes)
  | .big => BitVec.ofNat _ (ofLowFirst bytes.reverse)

/-- The word with its bytes in the opposite order. -/
def bswap {n : Nat} (x : BitVec (8 * n)) : BitVec (8 * n) :=
  BitVec.ofNat _ (ofLowFirst (lowFirst n x.toNat).reverse)

/-- `htobe16`, `htobe32`, `htobe64`. -/
def htobe (e : Endian) {n : Nat} (x : BitVec (8 * n)) : BitVec (8 * n) :=
  match e with
  | .little => bswap x
  | .big => x

/-- `be16toh`, `be32toh`, `be64toh`. -/
def betoh (e : Endian) {n : Nat} (x : BitVec (8 * n)) : BitVec (8 * n) :=
  match e with
  | .little => bswap x
  | .big => x

theorem two_pow_bytes (n : Nat) : 2 ^ (8 * n) = 256 ^ n := by
  rw [pow_mul]
  norm_num

theorem toNat_ofNat_lowFirst {n : Nat} {bs : List UInt8} (h : bs.length = n) :
    (BitVec.ofNat (8 * n) (ofLowFirst bs)).toNat = ofLowFirst bs := by
  rw [BitVec.toNat_ofNat, two_pow_bytes]
  exact Nat.mod_eq_of_lt (h ▸ ofLowFirst_lt bs)

theorem ofLowFirst_lowFirst_toNat {n : Nat} (x : BitVec (8 * n)) :
    ofLowFirst (lowFirst n x.toNat) = x.toNat :=
  ofLowFirst_lowFirst (two_pow_bytes n ▸ x.isLt)

/-- Swapped bytes, least significant first, are the bytes in the opposite order. -/
theorem lowFirst_bswap {n : Nat} (x : BitVec (8 * n)) :
    lowFirst n (bswap x).toNat = (lowFirst n x.toNat).reverse := by
  have hlen : (lowFirst n x.toNat).reverse.length = n := by simp
  rw [bswap, toNat_ofNat_lowFirst hlen]
  have hround := lowFirst_ofLowFirst (lowFirst n x.toNat).reverse
  rwa [hlen] at hround

theorem image_htobe_eq (e : Endian) {n : Nat} (x : BitVec (8 * n)) :
    image e (htobe e x) = (lowFirst n x.toNat).reverse := by
  cases e with
  | little => exact lowFirst_bswap x
  | big => rfl

theorem betoh_ofImage_eq (e : Endian) {n : Nat} {bytes : List UInt8} (h : bytes.length = n) :
    betoh e (ofImage e n bytes) = BitVec.ofNat _ (ofLowFirst bytes.reverse) := by
  cases e with
  | little =>
      have hround := lowFirst_ofLowFirst bytes
      rw [h] at hround
      rw [betoh, ofImage, bswap, toNat_ofNat_lowFirst h, hround]
  | big => rfl

/-- Copying a word through its image. -/
theorem ofImage_image (e : Endian) {n : Nat} (x : BitVec (8 * n)) :
    ofImage e n (image e x) = x := by
  cases e with
  | little => rw [image, ofImage, ofLowFirst_lowFirst_toNat, BitVec.ofNat_toNat, BitVec.setWidth_eq]
  | big =>
      rw [image, ofImage, List.reverse_reverse, ofLowFirst_lowFirst_toNat, BitVec.ofNat_toNat,
        BitVec.setWidth_eq]

theorem image_ofImage (e : Endian) {n : Nat} {bytes : List UInt8} (h : bytes.length = n) :
    image e (ofImage e n bytes) = bytes := by
  cases e with
  | little =>
      rw [image, ofImage, toNat_ofNat_lowFirst h, ← h, lowFirst_ofLowFirst]
  | big =>
      have hlen : bytes.reverse.length = n := by simpa using h
      have hround := lowFirst_ofLowFirst bytes.reverse
      rw [hlen] at hround
      rw [image, ofImage, toNat_ofNat_lowFirst hlen, hround, List.reverse_reverse]

@[simp] theorem length_image (e : Endian) {n : Nat} (x : BitVec (8 * n)) :
    (image e x).length = n := by
  cases e <;> simp [image]

/-! ## The network encoding of an integer -/

/-- The `n` bytes of `x` in two's complement, most significant first. -/
def networkOrder : Nat → Int → List UInt8
  | 0, _ => []
  | n + 1, x => networkOrder n (x / 256) ++ [UInt8.ofNat (x % 256).toNat]

@[simp] theorem length_networkOrder (n : Nat) (x : Int) : (networkOrder n x).length = n := by
  induction n generalizing x with
  | zero => rfl
  | succ n ih => simp [networkOrder, ih]

/-- Only the residue modulo `256 ^ n` is encoded. -/
theorem networkOrder_eq_of_emod {n m : Nat} {x : Int} (h : x % 256 ^ n = m % 256 ^ n) :
    networkOrder n x = (lowFirst n m).reverse := by
  induction n generalizing x m with
  | zero => rfl
  | succ n ih =>
      -- `x` and `m` differ by a multiple of `256 * 256 ^ n`.
      obtain ⟨k, hk⟩ : (256 : Int) ^ (n + 1) ∣ x - m :=
        Int.dvd_of_emod_eq_zero (Int.emod_eq_emod_iff_emod_sub_eq_zero.1 h)
      have hx : x = m + 256 * (256 ^ n * k) := by
        have hassoc : (256 : Int) ^ (n + 1) * k = 256 * (256 ^ n * k) := by ring
        omega
      have hlow : UInt8.ofNat (x % 256).toNat = UInt8.ofNat m := by
        apply UInt8.toNat_inj.1
        rw [UInt8.toNat_ofNat', UInt8.toNat_ofNat']
        omega
      have hhigh : x / 256 = ((m / 256 : Nat) : Int) + 256 ^ n * k := by omega
      have hrest : networkOrder n (x / 256) = (lowFirst n (m / 256)).reverse := by
        apply ih
        rw [hhigh, Int.add_mul_emod_self_left]
      simp [networkOrder, lowFirst, hlow, hrest]

theorem image_htobe (e : Endian) {n : Nat} (x : BitVec (8 * n)) :
    image e (htobe e x) = networkOrder n x.toInt := by
  have hmod : x.toInt % 256 ^ n = x.toNat % 256 ^ n := by
    have hpow : ((256 : Int) ^ n) = ((2 ^ (8 * n) : Nat) : Int) := by
      rw [two_pow_bytes]
      norm_num
    rw [hpow, BitVec.toInt_eq_toNat_bmod, Int.bmod_emod]
  rw [image_htobe_eq, networkOrder_eq_of_emod hmod]

theorem betoh_ofImage (e : Endian) {n : Nat} (x : BitVec (8 * n)) :
    betoh e (ofImage e n (networkOrder n x.toInt)) = x := by
  rw [betoh_ofImage_eq e (length_networkOrder n _), ← image_htobe e x, image_htobe_eq,
    List.reverse_reverse, ofLowFirst_lowFirst_toNat, BitVec.ofNat_toNat, BitVec.setWidth_eq]

theorem betoh_htobe (e : Endian) {n : Nat} (x : BitVec (8 * n)) : betoh e (htobe e x) = x := by
  calc betoh e (htobe e x) = betoh e (ofImage e n (image e (htobe e x))) := by rw [ofImage_image]
    _ = betoh e (ofImage e n (networkOrder n x.toInt)) := by rw [image_htobe]
    _ = x := betoh_ofImage e x

theorem htobe_betoh (e : Endian) {n : Nat} (x : BitVec (8 * n)) : htobe e (betoh e x) = x := by
  have h := betoh_htobe e x
  cases e with
  | little => exact h
  | big => rfl

/-! ## Single bytes have no byte order -/

theorem bswap_byte (x : BitVec (8 * 1)) : bswap x = x := by
  apply BitVec.eq_of_toNat_eq
  calc
    (bswap x).toNat = ofLowFirst (lowFirst 1 (bswap x).toNat) :=
      (ofLowFirst_lowFirst_toNat (bswap x)).symm
    _ = ofLowFirst (lowFirst 1 x.toNat) := by rw [lowFirst_bswap]; rfl
    _ = x.toNat := ofLowFirst_lowFirst_toNat x

theorem image_byte (e : Endian) (x : BitVec (8 * 1)) : image e x = networkOrder 1 x.toInt := by
  rw [← image_htobe e x]
  cases e with
  | little => rw [htobe, bswap_byte]
  | big => rfl

theorem betoh_byte (e : Endian) (x : BitVec (8 * 1)) : betoh e x = x := by
  cases e with
  | little => exact bswap_byte x
  | big => rfl

end ByteOrder
