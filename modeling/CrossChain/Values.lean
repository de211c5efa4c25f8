import Mathlib.Order.Defs.Unbundled
import Mathlib.Data.List.Basic
import Mathlib.Algebra.Group.Nat.Basic
import Mathlib.Data.String.Basic

/-! # Value types of the cross-chain headers

The C++ value types the swap descriptor and the transaction classes are built from:
`uint256`, `std::vector` with its `size_t` size, and `boost::posix_time::ptime` compared
as its `int_adapter` compares, under which `not_a_date_time` is ordered against nothing.

`keepEarlier` is the `created` merge of `XBridgeTransactionDescr::copyFrom`.  Folded over
a list of times from an ordinary start it yields the earliest of them
(`foldl_keepEarlier_isEarliest`), and the earliest of a list does not depend on its order
(`IsEarliest.unique`). -/
set_option autoImplicit false

namespace CrossChain

/-- Modelled from the spec: util/uint256.h is not among the sources.  A `uint256` is the
spec's 256-bit identifier, an unsigned number that `base_uint` compares numerically. -/
abbrev Uint256 := BitVec 256

theorem uint32_lt_iff {a b : UInt32} : a < b ↔ a.toNat < b.toNat := Iff.rfl

theorem uint32_le_iff {a b : UInt32} : a ≤ b ↔ a.toNat ≤ b.toNat := Iff.rfl

/-- A `std::vector`: its elements in order.  `size()` is a `size_t`, so it holds fewer
than `2 ^ 64` of them. -/
structure StdVector (α : Type) where
  toList : List α
  size_lt : toList.length < 2 ^ 64
  deriving DecidableEq, Repr

namespace StdVector

variable {α : Type}

/-- A default-constructed vector. -/
def empty : StdVector α := ⟨[], Nat.two_pow_pos 64⟩

def size (v : StdVector α) : Nat := v.toList.length

/-- `operator==` of `std::vector`: equal sizes, and `eq` at every position. -/
def equal (eq : α → α → Bool) (a b : StdVector α) : Bool :=
  a.size == b.size && (a.toList.zip b.toList).all fun p => eq p.1 p.2

theorem ext_toList {a b : StdVector α} (h : a.toList = b.toList) : a = b := by
  cases a; cases b; cases h; rfl

theorem list_equal_iff {eq : α → α → Bool} (heq : ∀ x y, eq x y = true ↔ x = y) :
    ∀ xs ys : List α, (xs.length == ys.length && (xs.zip ys).all fun p => eq p.1 p.2) = true ↔
      xs = ys
  | [], [] => by simp
  | [], _ :: _ => by simp
  | _ :: _, [] => by simp
  | x :: xs, y :: ys => by
      have ih := list_equal_iff heq xs ys
      simp only [Bool.and_eq_true, beq_iff_eq, List.length_cons, List.zip_cons_cons,
        List.all_cons, List.cons.injEq, heq] at ih ⊢
      constructor
      · rintro ⟨hl, hxy, hall⟩; exact ⟨hxy, ih.1 ⟨by omega, hall⟩⟩
      · rintro ⟨rfl, rfl⟩; exact ⟨rfl, rfl, (ih.2 rfl).2⟩

theorem equal_iff {eq : α → α → Bool} (heq : ∀ x y, eq x y = true ↔ x = y)
    (a b : StdVector α) : equal eq a b = true ↔ a = b :=
  (list_equal_iff heq a.toList b.toList).trans ⟨ext_toList, fun h => h ▸ rfl⟩

end StdVector

/-- A `boost::posix_time::ptime`: a tick count, or one of the special values its
`int_adapter` reserves. -/
inductive PTime where
  | notADateTime
  | negInfin
  | posInfin
  | ticks (count : Int)
  deriving DecidableEq, Repr

namespace PTime

/-- `int_adapter::compare`: `-1`, `0` or `1`, and `2` when exactly one side is
`not_a_date_time`. -/
def compare : PTime → PTime → Int
  | notADateTime, notADateTime => 0
  | notADateTime, _ => 2
  | _, notADateTime => 2
  | negInfin, negInfin => 0
  | posInfin, posInfin => 0
  | negInfin, _ => -1
  | _, posInfin => -1
  | posInfin, _ => 1
  | _, negInfin => 1
  | ticks a, ticks b => if a < b then -1 else if b < a then 1 else 0

/-- `operator<` of `ptime`: `compare(rhs) == -1`.  Boost's `operator>` is the flipped
`operator<`, as Lean's `>` is. -/
instance : LT PTime := ⟨fun a b => a.compare b = -1⟩

instance (a b : PTime) : Decidable (a < b) := inferInstanceAs (Decidable (a.compare b = -1))

@[simp] theorem ticks_lt_ticks {a b : Int} : ticks a < ticks b ↔ a < b := by
  show compare _ _ = -1 ↔ _
  simp only [compare]
  split_ifs <;> simp <;> omega

@[simp] theorem not_lt_notADateTime (t : PTime) : ¬ t < notADateTime := by
  cases t <;> simp [LT.lt, compare]

@[simp] theorem notADateTime_not_lt (t : PTime) : ¬ notADateTime < t := by
  cases t <;> simp [LT.lt, compare]

@[simp] theorem negInfin_lt_iff (t : PTime) : negInfin < t ↔ t ≠ negInfin ∧ t ≠ notADateTime := by
  cases t <;> simp [LT.lt, compare]

@[simp] theorem lt_posInfin_iff (t : PTime) : t < posInfin ↔ t ≠ posInfin ∧ t ≠ notADateTime := by
  cases t <;> simp [LT.lt, compare]

@[simp] theorem not_lt_negInfin (t : PTime) : ¬ t < negInfin := by
  cases t <;> simp [LT.lt, compare]

@[simp] theorem posInfin_not_lt (t : PTime) : ¬ posInfin < t := by
  cases t <;> simp [LT.lt, compare]

theorem lt_irrefl (a : PTime) : ¬ a < a := by
  cases a <;> simp

theorem lt_trans {a b c : PTime} (h₁ : a < b) (h₂ : b < c) : a < c := by
  cases a <;> cases b <;> cases c <;> simp_all
  omega

theorem lt_trichotomy {a b : PTime} (ha : a ≠ notADateTime) (hb : b ≠ notADateTime) :
    a < b ∨ a = b ∨ b < a := by
  cases a <;> cases b <;> simp_all
  omega

theorem ne_notADateTime_of_lt {a b : PTime} (h : a < b) : a ≠ notADateTime := by
  rintro rfl; exact notADateTime_not_lt b h

/-! ## The `created` merge and the earliest of a list of times -/

/-- `if (created > d.created) created = d.created;` of `copyFrom`, with `mine` the
target's `created` and `theirs` the source's. -/
def keepEarlier (mine theirs : PTime) : PTime := if mine > theirs then theirs else mine

/-- `a` is `b` or before it. -/
def AtOrBefore (a b : PTime) : Prop := a = b ∨ a < b

instance (a b : PTime) : Decidable (AtOrBefore a b) := inferInstanceAs (Decidable (a = b ∨ a < b))

/-- `t` is the earliest of `ts`: one of them, and none of them is before it.
`not_a_date_time`, before nothing, never stands in the way. -/
def IsEarliest (t : PTime) (ts : List PTime) : Prop := t ∈ ts ∧ ∀ s ∈ ts, ¬ s < t

theorem AtOrBefore.trans {a b c : PTime} (h₁ : AtOrBefore a b) (h₂ : AtOrBefore b c) :
    AtOrBefore a c := by
  rcases h₁ with rfl | h₁ <;> rcases h₂ with rfl | h₂
  exacts [.inl rfl, .inr h₂, .inr h₁, .inr (lt_trans h₁ h₂)]

theorem keepEarlier_atOrBefore (mine theirs : PTime) : AtOrBefore (keepEarlier mine theirs) mine := by
  unfold keepEarlier; split_ifs with h
  exacts [.inr h, .inl rfl]

theorem keepEarlier_ne_notADateTime {mine : PTime} (theirs : PTime) (h : mine ≠ notADateTime) :
    keepEarlier mine theirs ≠ notADateTime := by
  unfold keepEarlier; split_ifs with h'
  exacts [ne_notADateTime_of_lt h', h]

theorem keepEarlier_isEarliest (mine theirs : PTime) :
    IsEarliest (keepEarlier mine theirs) [mine, theirs] := by
  unfold keepEarlier IsEarliest
  split_ifs with hlt
  · refine ⟨by simp, ?_⟩
    simp only [List.mem_cons, List.mem_singleton, List.not_mem_nil, or_false, forall_eq_or_imp,
      forall_eq]
    exact ⟨fun h' => lt_irrefl _ (lt_trans hlt h'), lt_irrefl _⟩
  · refine ⟨by simp, ?_⟩
    simp only [List.mem_cons, List.mem_singleton, List.not_mem_nil, or_false, forall_eq_or_imp,
      forall_eq]
    exact ⟨lt_irrefl _, hlt⟩

theorem IsEarliest.append {r m : PTime} {us ts : List PTime} (hr : IsEarliest r (m :: ts))
    (hm : IsEarliest m us) (hm' : m ≠ notADateTime) : IsEarliest r (us ++ ts) := by
  obtain ⟨hrmem, hrmin⟩ := hr
  refine ⟨?_, fun u hu hlt => ?_⟩
  · rcases List.mem_cons.1 hrmem with rfl | h
    exacts [List.mem_append_left _ hm.1, List.mem_append_right _ h]
  rcases List.mem_append.1 hu with hu | hu
  · have hmr : ¬ m < r := hrmin m (List.mem_cons_self _ _)
    rcases lt_trichotomy (ne_notADateTime_of_lt hlt) hm' with h | rfl | h
    exacts [hm.2 u hu h, hmr hlt, hmr (lt_trans h hlt)]
  · exact hrmin u (List.mem_cons_of_mem _ hu) hlt

theorem foldl_keepEarlier_isEarliest :
    ∀ (ts : List PTime) {t : PTime}, t ≠ notADateTime → IsEarliest (ts.foldl keepEarlier t) (t :: ts)
  | [], t, _ => ⟨List.mem_singleton_self t, by simpa using lt_irrefl t⟩
  | s :: ts, t, ht =>
      (foldl_keepEarlier_isEarliest ts (keepEarlier_ne_notADateTime s ht)).append
        (keepEarlier_isEarliest t s) (keepEarlier_ne_notADateTime s ht)

theorem foldl_keepEarlier_ne_notADateTime :
    ∀ (ts : List PTime) {t : PTime}, t ≠ notADateTime → ts.foldl keepEarlier t ≠ notADateTime
  | [], _, ht => ht
  | s :: ts, _, ht => foldl_keepEarlier_ne_notADateTime ts (keepEarlier_ne_notADateTime s ht)

theorem IsEarliest.unique {a b : PTime} {ts : List PTime} (ha : IsEarliest a ts) (hb : IsEarliest b ts)
    (ha' : a ≠ notADateTime) (hb' : b ≠ notADateTime) : a = b := by
  rcases lt_trichotomy ha' hb' with h | h | h
  exacts [absurd h (hb.2 a ha.1), h, absurd h (ha.2 b hb.1)]

theorem IsEarliest.of_perm {t : PTime} {ts us : List PTime} (h : IsEarliest t ts) (hp : ts.Perm us) :
    IsEarliest t us :=
  ⟨hp.subset h.1, fun s hs => h.2 s (hp.symm.subset hs)⟩

end PTime

end CrossChain
