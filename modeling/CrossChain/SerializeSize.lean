import CrossChain.TransactionSerialize

/-! # `GetSerializeSize`: the size of an encoding, without writing it

`IMPLEMENT_SERIALIZE` also generates `GetSerializeSize`, which runs the `READWRITE` list
adding up the sizes of the members in an `unsigned int` `nSerSize`: `sizeof` of a
fixed-width member, and for a vector `GetSizeOfCompactSize` of its count plus the sizes
of its elements.  Every sum is an `unsigned int` sum and wraps at `2 ^ 32`.

`getSerializeSize_eq_length_mod` says that for every value of the five classes the
computed size is the length of the serialization modulo `2 ^ 32`: the two agree on every
serialization shorter than 4 GiB, and the size wraps on a longer one. -/
set_option autoImplicit false

namespace CrossChain

/-- Modelled from the spec: serialize.h is not among the sources.  `GetSizeOfCompactSize`:
the bytes `WriteCompactSize` takes for the count `nSize`. -/
def getSizeOfCompactSize (nSize : Nat) : UInt32 :=
  if nSize < 253 then 1
  else if nSize ≤ 0xFFFF then 3
  else if nSize ≤ 0xFFFFFFFF then 5
  else 9

/-- Modelled from the spec: `GetSerializeSize` of a vector of `unsigned char` (a script):
`GetSizeOfCompactSize(v.size()) + v.size() * sizeof(unsigned char)`, a `size_t` sum
returned as an `unsigned int`. -/
def bytesSerializeSize (v : StdVector UInt8) : UInt32 :=
  UInt32.ofNat ((getSizeOfCompactSize v.size).toNat + v.size)

/-- Modelled from the spec: `GetSerializeSize` of a vector of objects: the size of its
count, then the size of each element added in an `unsigned int`. -/
def vectorSerializeSize {α : Type} (elemSize : α → UInt32) (v : StdVector α) : UInt32 :=
  v.toList.foldl (fun nSize x => nSize + elemSize x) (getSizeOfCompactSize v.size)

namespace COutPoint

/-- `FLATDATA(*this)`: `sizeof(COutPoint)`, the 32 bytes of `hash` and the 4 of `n`. -/
def getSerializeSize (_p : COutPoint) : UInt32 := 36

end COutPoint

namespace CTxIn

def getSerializeSize (i : CTxIn) : UInt32 :=
  i.prevout.getSerializeSize + bytesSerializeSize i.scriptSig + 4

end CTxIn

namespace CTxOut

def getSerializeSize (o : CTxOut) : UInt32 := 8 + bytesSerializeSize o.scriptPubKey

end CTxOut

namespace CBTCTransaction

/-- `nVersion`, `vin`, `vout`, `nLockTime`: `nTime` is not counted, as it is not written. -/
def getSerializeSize (t : CBTCTransaction) : UInt32 :=
  4 + vectorSerializeSize CTxIn.getSerializeSize t.vin +
    vectorSerializeSize CTxOut.getSerializeSize t.vout + 4

end CBTCTransaction

namespace CTransaction

def getSerializeSize (t : CTransaction) : UInt32 :=
  4 + 4 + vectorSerializeSize CTxIn.getSerializeSize t.vin +
    vectorSerializeSize CTxOut.getSerializeSize t.vout + 4

end CTransaction

/-! ## The sizes are the lengths, modulo `2 ^ 32` -/

theorem toNat_uint32_ofNat (n : Nat) : (UInt32.ofNat n).toNat = n % 2 ^ 32 := BitVec.toNat_ofNat n 32

theorem length_compactSize (n : Nat) : (compactSize n).length = (getSizeOfCompactSize n).toNat := by
  unfold compactSize getSizeOfCompactSize
  split_ifs <;> rfl

theorem bytesSerializeSize_toNat (v : StdVector UInt8) :
    (bytesSerializeSize v).toNat = (serializeVector (fun b => [b]) v).length % 2 ^ 32 := by
  rw [bytesSerializeSize, toNat_uint32_ofNat, serializeVector, List.length_append,
    length_compactSize, List.flatMap_singleton', StdVector.size]

theorem foldl_add_toNat {α : Type} {elemSize : α → UInt32} {ser : α → List UInt8}
    (h : ∀ x, (elemSize x).toNat = (ser x).length % 2 ^ 32) :
    ∀ (xs : List α) (nSize : UInt32),
      (xs.foldl (fun nSize x => nSize + elemSize x) nSize).toNat =
        (nSize.toNat + (xs.flatMap ser).length) % 2 ^ 32
  | [], nSize => by simpa using (Nat.mod_eq_of_lt nSize.toNat_lt_size).symm
  | x :: xs, nSize => by
      rw [List.foldl_cons, foldl_add_toNat h xs, UInt32.toNat_add, UInt32.size, List.flatMap_cons,
        List.length_append, h x]
      omega

theorem vectorSerializeSize_toNat {α : Type} {elemSize : α → UInt32} {ser : α → List UInt8}
    (h : ∀ x, (elemSize x).toNat = (ser x).length % 2 ^ 32) (v : StdVector α) :
    (vectorSerializeSize elemSize v).toNat = (serializeVector ser v).length % 2 ^ 32 := by
  rw [vectorSerializeSize, foldl_add_toNat h, serializeVector, List.length_append,
    length_compactSize]

theorem COutPoint.length_serialize (p : COutPoint) : p.serialize.length = 36 := by
  simp [serialize]

theorem COutPoint.getSerializeSize_toNat (p : COutPoint) :
    p.getSerializeSize.toNat = p.serialize.length % 2 ^ 32 := by
  rw [length_serialize]; rfl

theorem CTxIn.getSerializeSize_toNat (i : CTxIn) :
    i.getSerializeSize.toNat = i.serialize.length % 2 ^ 32 := by
  have hs := bytesSerializeSize_toNat i.scriptSig
  simp only [getSerializeSize, serialize, UInt32.toNat_add, UInt32.toNat_ofNat, UInt32.size,
    COutPoint.getSerializeSize_toNat, COutPoint.length_serialize, List.length_append, length_leBytes]
  omega

theorem CTxOut.getSerializeSize_toNat (o : CTxOut) :
    o.getSerializeSize.toNat = o.serialize.length % 2 ^ 32 := by
  have hs := bytesSerializeSize_toNat o.scriptPubKey
  simp only [getSerializeSize, serialize, UInt32.toNat_add, UInt32.toNat_ofNat, UInt32.size,
    List.length_append, length_leBytes]
  omega

theorem CBTCTransaction.getSerializeSize_toNat (t : CBTCTransaction) :
    t.getSerializeSize.toNat = t.serialize.length % 2 ^ 32 := by
  have hin := vectorSerializeSize_toNat CTxIn.getSerializeSize_toNat t.vin
  have hout := vectorSerializeSize_toNat CTxOut.getSerializeSize_toNat t.vout
  simp only [getSerializeSize, serialize, UInt32.toNat_add, UInt32.toNat_ofNat, UInt32.size,
    List.length_append, length_leBytes]
  omega

theorem CTransaction.getSerializeSize_toNat (t : CTransaction) :
    t.getSerializeSize.toNat = t.serialize.length % 2 ^ 32 := by
  have hin := vectorSerializeSize_toNat CTxIn.getSerializeSize_toNat t.vin
  have hout := vectorSerializeSize_toNat CTxOut.getSerializeSize_toNat t.vout
  simp only [getSerializeSize, serialize, UInt32.toNat_add, UInt32.toNat_ofNat, UInt32.size,
    List.length_append, length_leBytes]
  omega

/-- For every value of the five classes, `GetSerializeSize` is the length of the
serialization modulo `2 ^ 32`, the wrap of its `unsigned int` sums. -/
theorem getSerializeSize_eq_length_mod :
    (∀ p : COutPoint, p.getSerializeSize.toNat = p.serialize.length % 2 ^ 32) ∧
    (∀ i : CTxIn, i.getSerializeSize.toNat = i.serialize.length % 2 ^ 32) ∧
    (∀ o : CTxOut, o.getSerializeSize.toNat = o.serialize.length % 2 ^ 32) ∧
    (∀ t : CBTCTransaction, t.getSerializeSize.toNat = t.serialize.length % 2 ^ 32) ∧
    ∀ t : CTransaction, t.getSerializeSize.toNat = t.serialize.length % 2 ^ 32 :=
  ⟨COutPoint.getSerializeSize_toNat, CTxIn.getSerializeSize_toNat, CTxOut.getSerializeSize_toNat,
    CBTCTransaction.getSerializeSize_toNat, CTransaction.getSerializeSize_toNat⟩

end CrossChain
