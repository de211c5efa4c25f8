import CrossChain.Values

/-! # The encodings of serialize.h

`READWRITE` writes fixed-width integers as their little-endian bytes, and vectors (scripts
included) as a CompactSize count followed by their elements.  A `Codec` pairs such an
encoding with a reader that takes it back off the front of any stream
(`Codec.read_write`), so every encoding built from codecs is self-delimiting and injective
(`Codec.write_append_eq_iff`); `Codec.pair`, `Codec.map` and `Codec.vector` build them. -/
set_option autoImplicit false

namespace CrossChain

/-- Modelled from the spec: serialize.h is not among the sources.  `WRITEDATA` of a
`w`-byte integer `n`: its `w` low bytes, least significant first. -/
def leBytes : Nat → Nat → List UInt8
  | 0, _ => []
  | w + 1, n => UInt8.ofNat (n % 256) :: leBytes w (n / 256)

/-- Modelled from the spec: `WriteCompactSize`: a size below 253 as one byte, otherwise
the marker 253, 254 or 255 and the size in 2, 4 or 8 bytes. -/
def compactSize (n : Nat) : List UInt8 :=
  if n < 253 then [UInt8.ofNat n]
  else if n ≤ 0xFFFF then 253 :: leBytes 2 n
  else if n ≤ 0xFFFFFFFF then 254 :: leBytes 4 n
  else 255 :: leBytes 8 n

/-- Modelled from the spec: a `std::vector` (a `CScript` too): its size as a CompactSize,
then its elements. -/
def serializeVector {α : Type} (ser : α → List UInt8) (v : StdVector α) : List UInt8 :=
  compactSize v.size ++ v.toList.flatMap ser

/-! ## Reading the encodings back -/

/-- The number whose little-endian bytes are `bs`. -/
def leValue : List UInt8 → Nat
  | [] => 0
  | b :: bs => b.toNat + 256 * leValue bs

def readLE (w : Nat) (bs : List UInt8) : Option (Nat × List UInt8) :=
  if w ≤ bs.length then some (leValue (bs.take w), bs.drop w) else none

def readCompactSize : List UInt8 → Option (Nat × List UInt8)
  | [] => none
  | c :: rest =>
      if c.toNat < 253 then some (c.toNat, rest)
      else if c.toNat = 253 then readLE 2 rest
      else if c.toNat = 254 then readLE 4 rest
      else readLE 8 rest

def readList {α : Type} (read : List UInt8 → Option (α × List UInt8)) :
    Nat → List UInt8 → Option (List α × List UInt8)
  | 0, bs => some ([], bs)
  | k + 1, bs =>
      (read bs).bind fun r => (readList read k r.2).bind fun s => some (r.1 :: s.1, s.2)

theorem uint8_toNat_ofNat (n : Nat) : (UInt8.ofNat n).toNat = n % 256 := BitVec.toNat_ofNat n 8

@[simp] theorem length_leBytes : ∀ (w n : Nat), (leBytes w n).length = w
  | 0, _ => rfl
  | w + 1, n => congrArg (· + 1) (length_leBytes w (n / 256))

theorem leValue_leBytes : ∀ (w n : Nat), leValue (leBytes w n) = n % 256 ^ w
  | 0, n => by simp [leBytes, leValue, Nat.mod_one]
  | w + 1, n => by
      rw [leBytes, leValue, uint8_toNat_ofNat, leValue_leBytes w, Nat.mod_mod, Nat.pow_succ',
        Nat.mod_mul]

theorem readLE_leBytes (w n : Nat) (rest : List UInt8) :
    readLE w (leBytes w n ++ rest) = some (n % 256 ^ w, rest) := by
  simp [readLE, List.take_left', List.drop_left', leValue_leBytes]

theorem readCompactSize_compactSize {n : Nat} (h : n < 2 ^ 64) (rest : List UInt8) :
    readCompactSize (compactSize n ++ rest) = some (n, rest) := by
  have h64 : n < 256 ^ 8 := h
  have h253 : (253 : UInt8).toNat = 253 := rfl
  have h254 : (254 : UInt8).toNat = 254 := rfl
  have h255 : (255 : UInt8).toNat = 255 := rfl
  unfold compactSize
  split_ifs with h₁ h₂ h₃
  · rw [List.singleton_append, readCompactSize, uint8_toNat_ofNat, Nat.mod_eq_of_lt (by omega),
      if_pos h₁]
  · have h₂' : n < 256 ^ 2 := by show n < 65536; omega
    rw [List.cons_append, readCompactSize, h253, if_neg (by omega), if_pos rfl, readLE_leBytes,
      Nat.mod_eq_of_lt h₂']
  · have h₃' : n < 256 ^ 4 := by show n < 4294967296; omega
    rw [List.cons_append, readCompactSize, h254, if_neg (by omega), if_neg (by omega), if_pos rfl,
      readLE_leBytes, Nat.mod_eq_of_lt h₃']
  · rw [List.cons_append, readCompactSize, h255, if_neg (by omega), if_neg (by omega),
      if_neg (by omega), readLE_leBytes, Nat.mod_eq_of_lt h64]

/-! ## Codecs -/

/-- An encoding together with a reader that takes it back off the front of any stream. -/
structure Codec (α : Type) where
  write : α → List UInt8
  read : List UInt8 → Option (α × List UInt8)
  read_write : ∀ x rest, read (write x ++ rest) = some (x, rest)

namespace Codec

variable {α β : Type}

theorem write_append_eq_iff (c : Codec α) (x y : α) (r r' : List UInt8) :
    c.write x ++ r = c.write y ++ r' ↔ x = y ∧ r = r' := by
  constructor
  · intro h
    have hx := c.read_write x r
    rw [h, c.read_write y r'] at hx
    obtain ⟨h₁, h₂⟩ := Prod.mk.inj (Option.some.inj hx)
    exact ⟨h₁.symm, h₂.symm⟩
  · rintro ⟨rfl, rfl⟩
    rfl

theorem readList_flatMap (c : Codec α) :
    ∀ (xs : List α) (rest : List UInt8), readList c.read xs.length (xs.flatMap c.write ++ rest) = some (xs, rest)
  | [], _ => rfl
  | x :: xs, rest => by
      simp only [List.length_cons, readList, List.flatMap_cons, List.append_assoc, c.read_write,
        Option.some_bind, readList_flatMap c xs]

/-- One encoding after the other. -/
def pair (a : Codec α) (b : Codec β) : Codec (α × β) where
  write x := a.write x.1 ++ b.write x.2
  read bs := (a.read bs).bind fun r => (b.read r.2).bind fun s => some ((r.1, s.1), s.2)
  read_write x rest := by simp [List.append_assoc, a.read_write, b.read_write]

/-- The encoding of `g y`, read back through `f`, a left inverse of `g`. -/
def map (c : Codec α) (f : α → β) (g : β → α) (hfg : ∀ y, f (g y) = y) : Codec β where
  write y := c.write (g y)
  read bs := (c.read bs).map fun r => (f r.1, r.2)
  read_write y rest := by simp [c.read_write, hfg]

/-- `unsigned int`: four little-endian bytes. -/
def uint32 : Codec UInt32 where
  write x := leBytes 4 x.toNat
  read bs := (readLE 4 bs).map fun r => (UInt32.ofNat r.1, r.2)
  read_write x rest := by
    have h : x.toNat < 256 ^ 4 := x.toNat_lt_size
    simp only [readLE_leBytes, Nat.mod_eq_of_lt h, Option.map_some']
    exact congrArg (fun y => some (y, rest)) (UInt32.toNat.inj (UInt32.toNat_ofNat_of_lt h))

/-- A `k`-byte integer kept as its bits: `int`, `int64`, and the `uint256` words. -/
def bitVec (k : Nat) : Codec (BitVec (8 * k)) where
  write x := leBytes k x.toNat
  read bs := (readLE k bs).map fun r => (BitVec.ofNat _ r.1, r.2)
  read_write x rest := by
    have h : x.toNat < 256 ^ k := by
      have := x.isLt; rwa [Nat.pow_mul] at this
    simp [readLE_leBytes, Nat.mod_eq_of_lt h]

/-- A `std::vector` of elements encoded by `c`. -/
def vector (c : Codec α) : Codec (StdVector α) where
  write := serializeVector c.write
  read bs := (readCompactSize bs).bind fun r => (readList c.read r.1 r.2).bind fun s =>
    if h : s.1.length < 2 ^ 64 then some (⟨s.1, h⟩, s.2) else none
  read_write v rest := by
    simp only [serializeVector, List.append_assoc, readCompactSize_compactSize v.size_lt,
      Option.some_bind, StdVector.size, readList_flatMap, dif_pos v.size_lt]

end Codec

end CrossChain
