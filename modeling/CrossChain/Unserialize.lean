import CrossChain.TransactionSerialize

/-! # `Unserialize`: reading the transaction classes back

`IMPLEMENT_SERIALIZE` also generates `Unserialize`, which runs the same `READWRITE` list
in reading mode: each member is read off the stream into the object, in order, and the
members the list leaves out keep the values the receiving object had.  Reading a
`std::vector` reads its CompactSize count, refuses a count above serialize.h's `MAX_SIZE`
(here `maxSize`), then reads that many elements; a refused count and a stream that runs
out both throw, here `none`.

`ReadsBack write read fits` says that `read` takes `write x` back off the front of any
stream exactly when `fits x`, and refuses it otherwise.  It holds of every member's
reader (`CTxIn.readsBack`, …), and it gives the round trips of the two transaction
classes (`unserialize_serialize_roundTrip`): whatever the receiving object, a
transaction whose vectors are within `MAX_SIZE` is read back with every serialized
member, a `CBTCTransaction` with the receiver's `nTime` and `nDoS`, a `CTransaction`
with the receiver's `nDoS` only; one with a longer vector is refused. -/
set_option autoImplicit false

namespace CrossChain

/-- `read` takes `write x` back off the front of any stream when `fits x`, and refuses
it otherwise. -/
def ReadsBack {α : Type} (write : α → List UInt8) (read : List UInt8 → Option (α × List UInt8))
    (fits : α → Bool) : Prop :=
  ∀ x rest, read (write x ++ rest) = if fits x then some (x, rest) else none

/-- Modelled from the spec: serialize.h is not among the sources.  `Unserialize` of a
`std::vector`: `ReadCompactSize`, which refuses a count above `MAX_SIZE`, then the
elements one after another.  (The length bound of `StdVector` always holds: a CompactSize
is below `2 ^ 64`.) -/
def readVector {α : Type} (maxSize : Nat) (readElem : List UInt8 → Option (α × List UInt8))
    (bs : List UInt8) : Option (StdVector α × List UInt8) := do
  let (n, bs) ← readCompactSize bs
  if n ≤ maxSize then
    let (xs, bs) ← readList readElem n bs
    if h : xs.length < 2 ^ 64 then pure (⟨xs, h⟩, bs) else none
  else none

/-- A vector is within `MAX_SIZE`, and so is each of its elements by `fits`. -/
def StdVector.withinMaxSize {α : Type} (maxSize : Nat) (fits : α → Bool) (v : StdVector α) : Bool :=
  decide (v.size ≤ maxSize) && v.toList.all fits

section ReadsBack

variable {α : Type} {write : α → List UInt8} {read : List UInt8 → Option (α × List UInt8)}
  {fits : α → Bool}

theorem Codec.readsBack (c : Codec α) : ReadsBack c.write c.read fun _ => true :=
  fun x rest => by rw [c.read_write, if_pos rfl]

theorem readsBack_byte : ReadsBack (fun b : UInt8 => [b]) byteCodec.read fun _ => true :=
  byteCodec.readsBack

theorem readsBack_uint32 : ReadsBack (fun x : UInt32 => leBytes 4 x.toNat) Codec.uint32.read
    fun _ => true :=
  Codec.uint32.readsBack

theorem readsBack_bitVec (k : Nat) :
    ReadsBack (fun x : BitVec (8 * k) => leBytes k x.toNat) (Codec.bitVec k).read fun _ => true :=
  (Codec.bitVec k).readsBack

theorem readList_flatMap_of_readsBack (h : ReadsBack write read fits) :
    ∀ (xs : List α) (rest : List UInt8),
      readList read xs.length (xs.flatMap write ++ rest) =
        if xs.all fits then some (xs, rest) else none
  | [], _ => rfl
  | x :: xs, rest => by
      rw [List.length_cons, readList, List.flatMap_cons, List.append_assoc, h, List.all_cons]
      cases fits x
      · rfl
      · rw [if_pos rfl, Option.some_bind, readList_flatMap_of_readsBack h xs rest]
        cases xs.all fits <;> rfl

theorem ReadsBack.vector (maxSize : Nat) (h : ReadsBack write read fits) :
    ReadsBack (serializeVector write) (readVector maxSize read)
      (StdVector.withinMaxSize maxSize fits) := fun v rest => by
  have hs : v.size < 2 ^ 64 := v.size_lt
  rw [serializeVector, List.append_assoc, readVector, readCompactSize_compactSize hs]
  simp only [Option.bind_eq_bind, Option.some_bind]
  by_cases hsz : v.size ≤ maxSize
  · rw [if_pos hsz, StdVector.size, readList_flatMap_of_readsBack h]
    cases hall : v.toList.all fits
    · simp [StdVector.withinMaxSize, hall]
    · rw [if_pos rfl, Option.some_bind]
      simp only [dif_pos v.size_lt, StdVector.withinMaxSize, hall, decide_eq_true hsz]
      rfl
  · simp [StdVector.withinMaxSize, hsz]

end ReadsBack

/-! ## The readers of the classes -/

namespace COutPoint

/-- `READWRITE(FLATDATA(*this))` reading: the 32 bytes of `hash`, then the 4 of `n`. -/
def unserialize (bs : List UInt8) : Option (COutPoint × List UInt8) := do
  let (hash, bs) ← (Codec.bitVec 32).read bs
  let (n, bs) ← Codec.uint32.read bs
  pure (⟨hash, n⟩, bs)

theorem readsBack : ReadsBack serialize unserialize fun _ => true := fun p rest => by
  simp only [serialize, unserialize, List.append_assoc, Option.bind_eq_bind]
  rw [readsBack_bitVec 32 p.hash, if_pos rfl, Option.some_bind, readsBack_uint32 p.n rest, if_pos rfl]
  rfl

end COutPoint

namespace CTxIn

/-- `Unserialize`: `prevout`, `scriptSig`, `nSequence`. -/
def unserialize (maxSize : Nat) (bs : List UInt8) : Option (CTxIn × List UInt8) := do
  let (prevout, bs) ← COutPoint.unserialize bs
  let (scriptSig, bs) ← readVector maxSize byteCodec.read bs
  let (nSequence, bs) ← Codec.uint32.read bs
  pure (⟨prevout, scriptSig, nSequence⟩, bs)

/-- The input's script is within `MAX_SIZE`. -/
def withinMaxSize (maxSize : Nat) (i : CTxIn) : Bool := i.scriptSig.withinMaxSize maxSize fun _ => true

theorem readsBack (maxSize : Nat) : ReadsBack serialize (unserialize maxSize) (withinMaxSize maxSize) :=
  fun i rest => by
    simp only [serialize, unserialize, List.append_assoc, COutPoint.readsBack _ _, if_true,
      Option.bind_eq_bind, Option.some_bind]
    rw [ReadsBack.vector maxSize readsBack_byte i.scriptSig, withinMaxSize]
    cases i.scriptSig.withinMaxSize maxSize fun _ => true
    · rfl
    · rw [if_pos rfl, if_pos rfl, Option.some_bind, readsBack_uint32 i.nSequence rest, if_pos rfl]
      rfl

end CTxIn

namespace CTxOut

/-- `Unserialize`: `nValue`, `scriptPubKey`. -/
def unserialize (maxSize : Nat) (bs : List UInt8) : Option (CTxOut × List UInt8) := do
  let (nValue, bs) ← (Codec.bitVec 8).read bs
  let (scriptPubKey, bs) ← readVector maxSize byteCodec.read bs
  pure (⟨nValue, scriptPubKey⟩, bs)

/-- The output's script is within `MAX_SIZE`. -/
def withinMaxSize (maxSize : Nat) (o : CTxOut) : Bool :=
  o.scriptPubKey.withinMaxSize maxSize fun _ => true

theorem readsBack (maxSize : Nat) : ReadsBack serialize (unserialize maxSize) (withinMaxSize maxSize) :=
  fun o rest => by
    simp only [serialize, unserialize, List.append_assoc, Option.bind_eq_bind]
    rw [readsBack_bitVec 8 o.nValue, if_pos rfl, Option.some_bind,
      ReadsBack.vector maxSize readsBack_byte o.scriptPubKey, withinMaxSize]
    cases o.scriptPubKey.withinMaxSize maxSize fun _ => true
    · rfl
    · rw [if_pos rfl, if_pos rfl]
      rfl

end CTxOut

namespace CBTCTransaction

/-- `Unserialize` into the object `into`: `nVersion`, `vin`, `vout`, `nLockTime`.
`READWRITE(nTime)` is commented out, so `nTime` keeps the receiver's value, as `nDoS`
does. -/
def unserialize (maxSize : Nat) (into : CBTCTransaction) (bs : List UInt8) :
    Option (CBTCTransaction × List UInt8) := do
  let (nVersion, bs) ← (Codec.bitVec 4).read bs
  let (vin, bs) ← readVector maxSize (CTxIn.unserialize maxSize) bs
  let (vout, bs) ← readVector maxSize (CTxOut.unserialize maxSize) bs
  let (nLockTime, bs) ← Codec.uint32.read bs
  pure ({ into with nVersion := nVersion, vin := vin, vout := vout, nLockTime := nLockTime }, bs)

/-- Both vectors, and every script in them, are within `MAX_SIZE`. -/
def withinMaxSize (maxSize : Nat) (t : CBTCTransaction) : Bool :=
  t.vin.withinMaxSize maxSize (CTxIn.withinMaxSize maxSize) &&
    t.vout.withinMaxSize maxSize (CTxOut.withinMaxSize maxSize)

theorem unserialize_serialize (maxSize : Nat) (into t : CBTCTransaction) (rest : List UInt8) :
    unserialize maxSize into (t.serialize ++ rest) =
      if t.withinMaxSize maxSize then some ({ t with nTime := into.nTime, nDoS := into.nDoS }, rest)
      else none := by
  simp only [serialize, unserialize, List.append_assoc, Option.bind_eq_bind]
  rw [readsBack_bitVec 4 t.nVersion, if_pos rfl, Option.some_bind,
    (CTxIn.readsBack maxSize).vector maxSize t.vin, withinMaxSize]
  cases t.vin.withinMaxSize maxSize (CTxIn.withinMaxSize maxSize)
  · rfl
  · rw [if_pos rfl, Option.some_bind, (CTxOut.readsBack maxSize).vector maxSize t.vout]
    cases t.vout.withinMaxSize maxSize (CTxOut.withinMaxSize maxSize)
    · rfl
    · rw [if_pos rfl, Option.some_bind, readsBack_uint32 t.nLockTime rest, if_pos rfl]
      rfl

end CBTCTransaction

namespace CTransaction

/-- `Unserialize` into the object `into`: `nVersion`, `nTime`, `vin`, `vout`,
`nLockTime`; `nDoS` keeps the receiver's value. -/
def unserialize (maxSize : Nat) (into : CTransaction) (bs : List UInt8) :
    Option (CTransaction × List UInt8) := do
  let (nVersion, bs) ← (Codec.bitVec 4).read bs
  let (nTime, bs) ← Codec.uint32.read bs
  let (vin, bs) ← readVector maxSize (CTxIn.unserialize maxSize) bs
  let (vout, bs) ← readVector maxSize (CTxOut.unserialize maxSize) bs
  let (nLockTime, bs) ← Codec.uint32.read bs
  pure ({ into with
    nVersion := nVersion, nTime := nTime, vin := vin, vout := vout, nLockTime := nLockTime }, bs)

theorem unserialize_serialize (maxSize : Nat) (into t : CTransaction) (rest : List UInt8) :
    unserialize maxSize into (t.serialize ++ rest) =
      if t.withinMaxSize maxSize then some ({ t with nDoS := into.nDoS }, rest) else none := by
  simp only [serialize, unserialize, List.append_assoc, Option.bind_eq_bind]
  rw [readsBack_bitVec 4 t.nVersion, if_pos rfl, Option.some_bind, readsBack_uint32 t.nTime,
    if_pos rfl, Option.some_bind, (CTxIn.readsBack maxSize).vector maxSize t.vin,
    CBTCTransaction.withinMaxSize]
  cases t.vin.withinMaxSize maxSize (CTxIn.withinMaxSize maxSize)
  · rfl
  · rw [if_pos rfl, Option.some_bind, (CTxOut.readsBack maxSize).vector maxSize t.vout]
    cases t.vout.withinMaxSize maxSize (CTxOut.withinMaxSize maxSize)
    · rfl
    · rw [if_pos rfl, Option.some_bind, readsBack_uint32 t.nLockTime rest, if_pos rfl]
      rfl

end CTransaction

/-- Every class reads back what it wrote, whatever follows it on the stream, exactly
when its vectors are within `MAX_SIZE`; the two transaction classes read into any
receiving object, a `CBTCTransaction` keeping the receiver's `nTime` and `nDoS`, a
`CTransaction` the receiver's `nDoS` only. -/
theorem unserialize_serialize_roundTrip (maxSize : Nat) :
    ReadsBack COutPoint.serialize COutPoint.unserialize (fun _ => true) ∧
    ReadsBack CTxIn.serialize (CTxIn.unserialize maxSize) (CTxIn.withinMaxSize maxSize) ∧
    ReadsBack CTxOut.serialize (CTxOut.unserialize maxSize) (CTxOut.withinMaxSize maxSize) ∧
    (∀ (into t : CBTCTransaction) (rest : List UInt8),
      CBTCTransaction.unserialize maxSize into (t.serialize ++ rest) =
        if t.withinMaxSize maxSize then some ({ t with nTime := into.nTime, nDoS := into.nDoS }, rest)
        else none) ∧
    ∀ (into t : CTransaction) (rest : List UInt8),
      CTransaction.unserialize maxSize into (t.serialize ++ rest) =
        if t.withinMaxSize maxSize then some ({ t with nDoS := into.nDoS }, rest) else none :=
  ⟨COutPoint.readsBack, CTxIn.readsBack maxSize, CTxOut.readsBack maxSize,
    CBTCTransaction.unserialize_serialize maxSize, CTransaction.unserialize_serialize maxSize⟩

end CrossChain
