import CrossChain.Values
import Mathlib.Algebra.Ring.Int.Defs

/-! # Outpoints, inputs, outputs and transactions

The value classes of ctransaction.h: `COutPoint`, `CTxIn`, `CTxOut`, `CBTCTransaction`
and `CTransaction`, with the values their constructors and `SetNull` store, their
`operator==`, `COutPoint::operator<`, and the null, final, empty, coinbase and coinstake
tests; every default passes its own test (`defaults_pass_checks`).  Signed C integers are kept as their two's-complement bits (`BitVec`),
which is what `operator==` compares and what serialization writes.

Every `operator==` is equality of the members it names (`COutPoint.beq_iff`, …), so two
`CBTCTransaction`s are equal whatever their `nTime` and `nDoS`, and two `CTransaction`s
whatever their `nDoS`.  `COutPoint::operator<` is a strict total order whose equivalence
is `operator==` (`COutPoint.lt_strictTotal`). -/
set_option autoImplicit false

namespace CrossChain

/-- `std::numeric_limits<unsigned int>::max()`, also written `(unsigned int) -1`. -/
def uintMax : UInt32 := 0xFFFFFFFF

/-- Modelled from the spec: script.h is not among the sources.  A `CScript` is the
`std::vector<unsigned char>` it derives from, compared and serialized as that vector. -/
abbrev CScript := StdVector UInt8

structure COutPoint where
  hash : Uint256
  n : UInt32
  deriving DecidableEq, Repr

namespace COutPoint

/-- The value `SetNull()` stores, which `COutPoint()` runs. -/
def setNull : COutPoint := ⟨0, uintMax⟩

def isNull (p : COutPoint) : Bool := p.hash == 0 && p.n == uintMax

/-- `operator<`: by `hash`, then by `n`. -/
def lt (a b : COutPoint) : Bool := decide (a.hash < b.hash) || (a.hash == b.hash && decide (a.n < b.n))

instance : LT COutPoint := ⟨fun a b => a.lt b = true⟩

instance (a b : COutPoint) : Decidable (a < b) := inferInstanceAs (Decidable (a.lt b = true))

/-- `operator==`. -/
def beq (a b : COutPoint) : Bool := a.hash == b.hash && a.n == b.n

/-- `operator!=`. -/
def bne (a b : COutPoint) : Bool := !(a.beq b)

theorem eq_iff_toNat {a b : COutPoint} :
    a = b ↔ a.hash.toNat = b.hash.toNat ∧ a.n.toNat = b.n.toNat := by
  cases a; cases b
  simp only [mk.injEq, BitVec.toNat_eq, UInt32.ext_iff]

theorem beq_iff (a b : COutPoint) : a.beq b = true ↔ a = b := by
  cases a; cases b; simp [beq]

theorem lt_iff_toNat {a b : COutPoint} :
    a < b ↔ a.hash.toNat < b.hash.toNat ∨ (a.hash.toNat = b.hash.toNat ∧ a.n.toNat < b.n.toNat) := by
  show lt a b = true ↔ _
  simp only [lt, Bool.or_eq_true, decide_eq_true_eq, Bool.and_eq_true, beq_iff_eq,
    BitVec.lt_def, BitVec.toNat_eq, uint32_lt_iff]

/-- Exactly one of `a < b`, `a == b`, `b < a` holds, and `<` is transitive: the order
`std::map` and `std::set` need of a key. -/
theorem lt_strictTotal :
    (∀ a b : COutPoint, (a < b ∨ a.beq b = true ∨ b < a) ∧ ¬ (a < b ∧ a.beq b = true) ∧
      ¬ (a.beq b = true ∧ b < a) ∧ ¬ (a < b ∧ b < a)) ∧
    ∀ a b c : COutPoint, a < b → b < c → a < c := by
  refine ⟨fun a b => ?_, fun a b c => ?_⟩
  · simp only [beq_iff, eq_iff_toNat, lt_iff_toNat]
    omega
  · simp only [lt_iff_toNat]
    omega

end COutPoint

structure CTxIn where
  prevout : COutPoint
  scriptSig : CScript
  nSequence : UInt32
  deriving DecidableEq, Repr

namespace CTxIn

/-- `operator==`. -/
def beq (a b : CTxIn) : Bool :=
  a.prevout.beq b.prevout && StdVector.equal (· == ·) a.scriptSig b.scriptSig &&
    a.nSequence == b.nSequence

/-- `CTxIn()`: a null `prevout`, an empty `scriptSig` and the largest `nSequence`. -/
def construct : CTxIn := ⟨COutPoint.setNull, .empty, uintMax⟩

def isFinal (i : CTxIn) : Bool := i.nSequence == uintMax

theorem beq_iff (a b : CTxIn) : a.beq b = true ↔ a = b := by
  cases a; cases b
  simp [beq, COutPoint.beq_iff, StdVector.equal_iff (fun x y : UInt8 => beq_iff_eq), and_assoc]

end CTxIn

structure CTxOut where
  nValue : BitVec 64
  scriptPubKey : CScript
  deriving DecidableEq, Repr

namespace CTxOut

/-- `operator==`. -/
def beq (a b : CTxOut) : Bool :=
  a.nValue == b.nValue && StdVector.equal (· == ·) a.scriptPubKey b.scriptPubKey

/-- The value `SetNull()` stores, which `CTxOut()` runs. -/
def setNull : CTxOut := ⟨-1, .empty⟩

def isNull (o : CTxOut) : Bool := o.nValue == -1

/-- The value `SetEmpty()` stores. -/
def setEmpty : CTxOut := ⟨0, .empty⟩

def isEmpty (o : CTxOut) : Bool := o.nValue == 0 && o.scriptPubKey.toList.isEmpty

theorem beq_iff (a b : CTxOut) : a.beq b = true ↔ a = b := by
  cases a; cases b
  simp [beq, StdVector.equal_iff (fun x y : UInt8 => beq_iff_eq)]

end CTxOut

/-- `CBTCTransaction`; `nDoS` is its mutable denial-of-service score. -/
structure CBTCTransaction where
  nVersion : BitVec 32
  nTime : UInt32
  vin : StdVector CTxIn
  vout : StdVector CTxOut
  nLockTime : UInt32
  nDoS : BitVec 32
  deriving DecidableEq, Repr

namespace CBTCTransaction

/-- The value `SetNull()` stores at clock reading `now` (`time(0)`, cut to an `unsigned
int`), which `CBTCTransaction()` runs. -/
def setNull (now : Nat) : CBTCTransaction := ⟨1, UInt32.ofNat now, .empty, .empty, 0, 0⟩

def isNull (t : CBTCTransaction) : Bool := t.vin.toList.isEmpty && t.vout.toList.isEmpty

/-- `operator==`; the comparison of `nTime` is commented out in the source. -/
def beq (a b : CBTCTransaction) : Bool :=
  a.nVersion == b.nVersion && StdVector.equal CTxIn.beq a.vin b.vin &&
    StdVector.equal CTxOut.beq a.vout b.vout && a.nLockTime == b.nLockTime

/-- `IsCoinBase`: one input, spending the null outpoint, and at least one output. -/
def isCoinBase (t : CBTCTransaction) : Bool :=
  t.vin.size == 1 && (match t.vin.toList with | i :: _ => i.prevout.isNull | [] => false) &&
    decide (t.vout.size ≥ 1)

/-- `IsCoinStake`: a first input spending a real outpoint, and at least two outputs of
which the first is empty. -/
def isCoinStake (t : CBTCTransaction) : Bool :=
  decide (t.vin.size > 0) && (match t.vin.toList with | i :: _ => !i.prevout.isNull | [] => false) &&
    decide (t.vout.size ≥ 2) && (match t.vout.toList with | o :: _ => o.isEmpty | [] => false)

theorem beq_iff (a b : CBTCTransaction) :
    a.beq b = true ↔
      a.nVersion = b.nVersion ∧ a.vin = b.vin ∧ a.vout = b.vout ∧ a.nLockTime = b.nLockTime := by
  simp [beq, StdVector.equal_iff CTxIn.beq_iff, StdVector.equal_iff CTxOut.beq_iff, and_assoc]

end CBTCTransaction

theorem defaults_pass_checks (now : Nat) :
    COutPoint.setNull.isNull = true ∧ CTxIn.construct.isFinal = true ∧
    CTxIn.construct.prevout.isNull = true ∧ CTxOut.setNull.isNull = true ∧
    CTxOut.setNull.isEmpty = false ∧ CTxOut.setEmpty.isEmpty = true ∧
    (CBTCTransaction.setNull now).isNull = true ∧
    (CBTCTransaction.setNull now).isCoinBase = false ∧
    (CBTCTransaction.setNull now).isCoinStake = false :=
  ⟨rfl, rfl, rfl, rfl, rfl, rfl, rfl, rfl, rfl⟩

/-- `CTransaction`: a `CBTCTransaction` that serializes and compares `nTime` too. -/
structure CTransaction extends CBTCTransaction
  deriving DecidableEq, Repr

namespace CTransaction

/-- `operator==`. -/
def beq (a b : CTransaction) : Bool :=
  a.nVersion == b.nVersion && a.nTime == b.nTime && StdVector.equal CTxIn.beq a.vin b.vin &&
    StdVector.equal CTxOut.beq a.vout b.vout && a.nLockTime == b.nLockTime

theorem beq_iff (a b : CTransaction) :
    a.beq b = true ↔ a.nVersion = b.nVersion ∧ a.nTime = b.nTime ∧ a.vin = b.vin ∧
      a.vout = b.vout ∧ a.nLockTime = b.nLockTime := by
  simp [beq, StdVector.equal_iff CTxIn.beq_iff, StdVector.equal_iff CTxOut.beq_iff, and_assoc]

end CTransaction

/-! ## The denial-of-service score -/

/-- The values an `int` holds. -/
def inIntRange (z : Int) : Bool := decide (-2 ^ 31 ≤ z) && decide (z < 2 ^ 31)

theorem toInt_inIntRange (x : BitVec 32) : inIntRange x.toInt = true := by
  have hx := x.isLt
  rw [BitVec.toInt_eq_toNat_cond]
  simp only [inIntRange, Bool.and_eq_true, decide_eq_true_eq]
  split <;> omega

theorem bmod_of_inIntRange {z : Int} (h : inIntRange z = true) : z.bmod (2 ^ 32) = z := by
  simp only [inIntRange, Bool.and_eq_true, decide_eq_true_eq] at h
  rw [Int.bmod_def]
  split <;> omega

theorem ofInt_toInt (x : BitVec 32) : BitVec.ofInt 32 x.toInt = x :=
  BitVec.toInt_inj.1 (by rw [BitVec.toInt_ofInt, bmod_of_inIntRange (toInt_inIntRange x)])

theorem forall_inIntRange_take_cons_iff {α : Type} (f : α → Int) (s : Int) (c : α) (cs : List α) :
    (∀ k ≤ (c :: cs).length, inIntRange (s + (((c :: cs).take k).map f).sum)) ↔
      inIntRange s ∧ ∀ k ≤ cs.length, inIntRange (s + f c + ((cs.take k).map f).sum) := by
  constructor
  · exact fun h => ⟨by simpa using h 0 (Nat.zero_le _),
      fun k hk => by simpa [Int.add_assoc] using h (k + 1) (by simpa using hk)⟩
  · rintro ⟨h0, h⟩ (_ | k) hk
    · simpa using h0
    · simpa [Int.add_assoc] using h k (by simpa using hk)

namespace CBTCTransaction

/-- `DoS(nDoSIn, fIn)`, a `const` member: adds `nDoSIn` to the `mutable` score `nDoS` and
returns `fIn`.  `none` when the sum leaves the range of `int`, where the signed overflow
of `+=` is undefined behaviour. -/
def doS (t : CBTCTransaction) (nDoSIn : BitVec 32) (fIn : Bool) : Option (Bool × CBTCTransaction) :=
  if inIntRange (t.nDoS.toInt + nDoSIn.toInt) then some (fIn, { t with nDoS := t.nDoS + nDoSIn })
  else none

/-- `DoS` called with the scores and flags of `calls`, one after the other, and the flags
it returns; `none` once a call overflows. -/
def doSRun (t : CBTCTransaction) : List (BitVec 32 × Bool) → Option (List Bool × CBTCTransaction)
  | [] => some ([], t)
  | c :: cs => (t.doS c.1 c.2).bind fun r => (r.2.doSRun cs).map fun s => (r.1 :: s.1, s.2)

theorem doS_eq (t : CBTCTransaction) (nDoSIn : BitVec 32) (fIn : Bool) :
    t.doS nDoSIn fIn =
      if inIntRange (t.nDoS.toInt + nDoSIn.toInt) then
        some (fIn, { t with nDoS := BitVec.ofInt 32 (t.nDoS.toInt + nDoSIn.toInt) })
      else none := by
  unfold doS
  split_ifs with h
  · have hsum : t.nDoS + nDoSIn = BitVec.ofInt 32 (t.nDoS.toInt + nDoSIn.toInt) :=
      BitVec.toInt_inj.1 (by rw [BitVec.toInt_add, BitVec.toInt_ofInt, bmod_of_inIntRange h])
    rw [hsum]
  · rfl

theorem doSRun_eq (t : CBTCTransaction) (calls : List (BitVec 32 × Bool)) :
    t.doSRun calls =
      if ∀ k ≤ calls.length,
          inIntRange (t.nDoS.toInt + ((calls.take k).map fun c => c.1.toInt).sum) then
        some (calls.map Prod.snd,
          { t with nDoS := BitVec.ofInt 32 (t.nDoS.toInt + (calls.map fun c => c.1.toInt).sum) })
      else none := by
  induction calls generalizing t with
  | nil =>
    rw [if_pos fun k hk => by simp [Nat.le_zero.1 hk, toInt_inIntRange]]
    simp [doSRun, ofInt_toInt]
  | cons c cs ih =>
    rw [doSRun, doS_eq]
    simp only [forall_inIntRange_take_cons_iff, toInt_inIntRange, true_and]
    by_cases hc : inIntRange (t.nDoS.toInt + c.1.toInt)
    · have ht : (BitVec.ofInt 32 (t.nDoS.toInt + c.1.toInt)).toInt = t.nDoS.toInt + c.1.toInt := by
        rw [BitVec.toInt_ofInt, bmod_of_inIntRange hc]
      rw [if_pos hc, Option.some_bind, ih, ht]
      split_ifs <;> simp [Int.add_assoc]
    · rw [if_neg hc, if_neg fun hall => hc (by simpa using hall 0 (Nat.zero_le _))]
      rfl

/-- A run of `DoS` calls is defined exactly when the score is an `int` after every call;
then every call returns its flag, `nDoS` ends at the exact sum of the scores, and no
other member has changed. -/
theorem doSRun_spec (t : CBTCTransaction) (calls : List (BitVec 32 × Bool)) :
    ((t.doSRun calls).isSome ↔ ∀ k ≤ calls.length,
      inIntRange (t.nDoS.toInt + ((calls.take k).map fun c => c.1.toInt).sum)) ∧
    ∀ fs t', t.doSRun calls = some (fs, t') →
      fs = calls.map Prod.snd ∧
      t'.nDoS.toInt = t.nDoS.toInt + (calls.map fun c => c.1.toInt).sum ∧
      t' = { t with nDoS := t'.nDoS } := by
  rw [doSRun_eq]
  split_ifs with hall
  · refine ⟨by simpa using hall, fun fs t' h => ?_⟩
    obtain ⟨rfl, rfl⟩ := Prod.mk.inj (Option.some.inj h)
    have hsum := hall calls.length le_rfl
    rw [List.take_length] at hsum
    exact ⟨rfl, by rw [BitVec.toInt_ofInt, bmod_of_inIntRange hsum], rfl⟩
  · exact ⟨by simpa using hall, fun _ _ h => h.elim⟩

end CBTCTransaction

end CrossChain
