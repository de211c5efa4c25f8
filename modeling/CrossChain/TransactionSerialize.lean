import CrossChain.Transaction
import CrossChain.Serialize

/-! # `IMPLEMENT_SERIALIZE` of the transaction classes

The byte encodings the `IMPLEMENT_SERIALIZE` blocks of ctransaction.h declare, and
`GetHash`, the digest of them.  Each encoding is the `write` of a codec built from the
codecs of its members (`COutPoint.codec_write`, …), so it is self-delimiting: the bytes of
a value followed by anything determine the value's members and what follows
(`serialize_selfDelimiting`).  With the `operator==` lemmas of `Transaction` this gives
`beq_iff_serialize_eq`: `operator==` holds exactly when the serializations agree, so it
compares exactly what `GetHash` digests (`nTime` for `CTransaction` only, `nDoS` never). -/
set_option autoImplicit false

namespace CrossChain

namespace COutPoint

/-- `READWRITE(FLATDATA(*this))`: the object's bytes, the 32 of `hash` (eight
little-endian words) then the 4 of `n`. -/
def serialize (p : COutPoint) : List UInt8 := leBytes 32 p.hash.toNat ++ leBytes 4 p.n.toNat

end COutPoint

namespace CTxIn

def serialize (i : CTxIn) : List UInt8 :=
  i.prevout.serialize ++ serializeVector (fun b => [b]) i.scriptSig ++ leBytes 4 i.nSequence.toNat

end CTxIn

namespace CTxOut

def serialize (o : CTxOut) : List UInt8 :=
  leBytes 8 o.nValue.toNat ++ serializeVector (fun b => [b]) o.scriptPubKey

end CTxOut

namespace CBTCTransaction

/-- `READWRITE(nTime)` is commented out: `nVersion`, `vin`, `vout`, `nLockTime`. -/
def serialize (t : CBTCTransaction) : List UInt8 :=
  leBytes 4 t.nVersion.toNat ++ serializeVector CTxIn.serialize t.vin ++
    serializeVector CTxOut.serialize t.vout ++ leBytes 4 t.nLockTime.toNat

/-- `GetHash`: `SerializeHash(*this)`, the digest `hash` of the serialization. -/
def getHash (hash : List UInt8 → Uint256) (t : CBTCTransaction) : Uint256 := hash t.serialize

end CBTCTransaction

namespace CTransaction

def serialize (t : CTransaction) : List UInt8 :=
  leBytes 4 t.nVersion.toNat ++ leBytes 4 t.nTime.toNat ++ serializeVector CTxIn.serialize t.vin ++
    serializeVector CTxOut.serialize t.vout ++ leBytes 4 t.nLockTime.toNat

/-- The overriding `GetHash`, over `CTransaction`'s own serialization. -/
def getHash (hash : List UInt8 → Uint256) (t : CTransaction) : Uint256 := hash t.serialize

end CTransaction

/-! ## The encodings are injective -/

/-- One byte of a `std::vector<unsigned char>`. -/
def byteCodec : Codec UInt8 where
  write b := [b]
  read
    | [] => none
    | b :: bs => some (b, bs)
  read_write _ _ := rfl

def COutPoint.codec : Codec COutPoint :=
  ((Codec.bitVec 32).pair Codec.uint32).map (fun r => ⟨r.1, r.2⟩) (fun p => (p.hash, p.n)) fun _ => rfl

def CTxIn.codec : Codec CTxIn :=
  ((COutPoint.codec.pair (Codec.vector byteCodec)).pair Codec.uint32).map
    (fun r => ⟨r.1.1, r.1.2, r.2⟩) (fun i => ((i.prevout, i.scriptSig), i.nSequence)) fun _ => rfl

def CTxOut.codec : Codec CTxOut :=
  ((Codec.bitVec 8).pair (Codec.vector byteCodec)).map (fun r => ⟨r.1, r.2⟩)
    (fun o => (o.nValue, o.scriptPubKey)) fun _ => rfl

/-- The members `CBTCTransaction` serializes, in order. -/
def CBTCTransaction.serializedCodec :
    Codec (((BitVec 32 × StdVector CTxIn) × StdVector CTxOut) × UInt32) :=
  (((Codec.bitVec 4).pair (Codec.vector CTxIn.codec)).pair (Codec.vector CTxOut.codec)).pair
    Codec.uint32

/-- The members `CTransaction` serializes, in order. -/
def CTransaction.serializedCodec :
    Codec ((((BitVec 32 × UInt32) × StdVector CTxIn) × StdVector CTxOut) × UInt32) :=
  ((((Codec.bitVec 4).pair Codec.uint32).pair (Codec.vector CTxIn.codec)).pair
    (Codec.vector CTxOut.codec)).pair Codec.uint32

theorem COutPoint.codec_write (p : COutPoint) : COutPoint.codec.write p = p.serialize := rfl

theorem CTxIn.codec_write (i : CTxIn) : CTxIn.codec.write i = i.serialize := rfl

theorem CTxOut.codec_write (o : CTxOut) : CTxOut.codec.write o = o.serialize := rfl

theorem CBTCTransaction.serialize_eq (t : CBTCTransaction) :
    t.serialize = serializedCodec.write (((t.nVersion, t.vin), t.vout), t.nLockTime) := rfl

theorem CTransaction.serialize_eq (t : CTransaction) :
    t.serialize = serializedCodec.write ((((t.nVersion, t.nTime), t.vin), t.vout), t.nLockTime) := rfl

/-! ## The encodings are self-delimiting -/

section SelfDelimiting

variable (r r' : List UInt8)

theorem COutPoint.serialize_append_eq_iff (a b : COutPoint) :
    a.serialize ++ r = b.serialize ++ r' ↔ a.beq b = true ∧ r = r' := by
  rw [← codec_write, ← codec_write, Codec.write_append_eq_iff, beq_iff]

theorem CTxIn.serialize_append_eq_iff (a b : CTxIn) :
    a.serialize ++ r = b.serialize ++ r' ↔ a.beq b = true ∧ r = r' := by
  rw [← codec_write, ← codec_write, Codec.write_append_eq_iff, beq_iff]

theorem CTxOut.serialize_append_eq_iff (a b : CTxOut) :
    a.serialize ++ r = b.serialize ++ r' ↔ a.beq b = true ∧ r = r' := by
  rw [← codec_write, ← codec_write, Codec.write_append_eq_iff, beq_iff]

theorem CBTCTransaction.serialize_append_eq_iff (a b : CBTCTransaction) :
    a.serialize ++ r = b.serialize ++ r' ↔ a.beq b = true ∧ r = r' := by
  rw [serialize_eq, serialize_eq, Codec.write_append_eq_iff, beq_iff]
  simp only [Prod.mk.injEq, and_assoc]

theorem CTransaction.serialize_append_eq_iff (a b : CTransaction) :
    a.serialize ++ r = b.serialize ++ r' ↔ a.beq b = true ∧ r = r' := by
  rw [serialize_eq, serialize_eq, Codec.write_append_eq_iff, beq_iff]
  simp only [Prod.mk.injEq, and_assoc]

end SelfDelimiting

/-- The serializations of each class are self-delimiting: the bytes of `a` followed by
`r` are the bytes of `b` followed by `r'` exactly when `a == b` and `r = r'`, so values
written one after another are read back apart. -/
theorem serialize_selfDelimiting (r r' : List UInt8) :
    (∀ a b : COutPoint, a.serialize ++ r = b.serialize ++ r' ↔ a.beq b = true ∧ r = r') ∧
    (∀ a b : CTxIn, a.serialize ++ r = b.serialize ++ r' ↔ a.beq b = true ∧ r = r') ∧
    (∀ a b : CTxOut, a.serialize ++ r = b.serialize ++ r' ↔ a.beq b = true ∧ r = r') ∧
    (∀ a b : CBTCTransaction, a.serialize ++ r = b.serialize ++ r' ↔ a.beq b = true ∧ r = r') ∧
    (∀ a b : CTransaction, a.serialize ++ r = b.serialize ++ r' ↔ a.beq b = true ∧ r = r') :=
  ⟨COutPoint.serialize_append_eq_iff r r', CTxIn.serialize_append_eq_iff r r',
    CTxOut.serialize_append_eq_iff r r', CBTCTransaction.serialize_append_eq_iff r r',
    CTransaction.serialize_append_eq_iff r r'⟩

theorem beq_iff_of_append {s t : List UInt8} {P : Prop}
    (h : ∀ r r' : List UInt8, s ++ r = t ++ r' ↔ P ∧ r = r') : P ↔ s = t := by
  simpa using (h [] []).symm

theorem forall_hash_eq_iff {s t : List UInt8} :
    (∀ hash : List UInt8 → Uint256, hash s = hash t) ↔ s = t :=
  ⟨fun h => by_contra fun hst => by simpa [Ne.symm hst] using h fun u => if u = s then 1 else 0,
    fun h _ => h ▸ rfl⟩

/-- `operator==` of every class holds exactly when the two serializations are the same
bytes; so two transactions have the same `GetHash` under every digest exactly when they
are `==`. -/
theorem beq_iff_serialize_eq :
    (∀ a b : COutPoint, a.beq b = true ↔ a.serialize = b.serialize) ∧
    (∀ a b : CTxIn, a.beq b = true ↔ a.serialize = b.serialize) ∧
    (∀ a b : CTxOut, a.beq b = true ↔ a.serialize = b.serialize) ∧
    (∀ a b : CBTCTransaction, a.beq b = true ↔ a.serialize = b.serialize) ∧
    (∀ a b : CTransaction, a.beq b = true ↔ a.serialize = b.serialize) ∧
    (∀ a b : CBTCTransaction,
      (∀ hash : List UInt8 → Uint256, a.getHash hash = b.getHash hash) ↔ a.beq b = true) ∧
    (∀ a b : CTransaction,
      (∀ hash : List UInt8 → Uint256, a.getHash hash = b.getHash hash) ↔ a.beq b = true) := by
  have hbtc (a b : CBTCTransaction) : a.beq b = true ↔ a.serialize = b.serialize :=
    beq_iff_of_append fun r r' => CBTCTransaction.serialize_append_eq_iff r r' a b
  have htx (a b : CTransaction) : a.beq b = true ↔ a.serialize = b.serialize :=
    beq_iff_of_append fun r r' => CTransaction.serialize_append_eq_iff r r' a b
  exact ⟨fun a b => beq_iff_of_append fun r r' => COutPoint.serialize_append_eq_iff r r' a b,
    fun a b => beq_iff_of_append fun r r' => CTxIn.serialize_append_eq_iff r r' a b,
    fun a b => beq_iff_of_append fun r r' => CTxOut.serialize_append_eq_iff r r' a b, hbtc, htx,
    fun a b => forall_hash_eq_iff.trans (hbtc a b).symm,
    fun a b => forall_hash_eq_iff.trans (htx a b).symm⟩

end CrossChain
