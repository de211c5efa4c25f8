import CrossChain.Transaction

/-! # `CBTCTransaction::IsNewerThan`

`IsNewerThan(old)` tells whether a transaction replaces `old`: the same inputs, and among
the inputs whose sequence numbers differ, the lowest sequence number is one of `old`'s.
The loop keeps a running lowest `nLowest` and a flag `fNewer` that each differing input
may reset; `LoopInv` is its invariant (`foldl_newerStep_inv`), `isNewerThan_iff` the
closed form it yields, and `isNewerThan_strictPartialOrder` the order it defines, so that
no chain of replacements comes back to the inputs it started from. -/
set_option autoImplicit false

namespace CrossChain

namespace CBTCTransaction

/-- One turn of the second loop of `IsNewerThan` on an input of this transaction and the
same input of `old`, updating `(fNewer, nLowest)`. -/
def newerStep (acc : Bool × UInt32) (p : CTxIn × CTxIn) : Bool × UInt32 :=
  if p.1.nSequence != p.2.nSequence then
    let acc := if p.1.nSequence ≤ acc.2 then (false, p.1.nSequence) else acc
    if p.2.nSequence < acc.2 then (true, p.2.nSequence) else acc
  else acc

/-- `IsNewerThan(old)`.  Both loops run over the positions of `vin`; once the sizes agree
they visit the pairs of `vin.zip old.vin` in order. -/
def isNewerThan (self old : CBTCTransaction) : Bool :=
  if self.vin.size != old.vin.size then false
  else if (self.vin.toList.zip old.vin.toList).any fun p => p.1.prevout.bne p.2.prevout then false
  else ((self.vin.toList.zip old.vin.toList).foldl newerStep (false, uintMax)).1

/-! ## The loop invariant -/

/-- `m` lowered to the sequence number `s` when the pair `p` differs in sequence. -/
def lowStep (s : UInt32) (p : CTxIn × CTxIn) (m : Nat) : Nat :=
  if p.1.nSequence ≠ p.2.nSequence then min m s.toNat else m

/-- The least of `m` and the sequence numbers `side` picks from the pairs of `ps` that
differ in sequence. -/
def lowestOn (side : CTxIn × CTxIn → CTxIn) (m : Nat) (ps : List (CTxIn × CTxIn)) : Nat :=
  ps.foldl (fun m p => lowStep (side p).nSequence p m) m

/-- `(fNewer, nLowest)` once the differing pairs seen have least new sequence number `mA`
and least old one `mO`: `nLowest` is the least of both, and `fNewer` says it is old. -/
def LoopInv (acc : Bool × UInt32) (mA mO : Nat) : Prop :=
  acc.2.toNat = min mA mO ∧ (acc.1 = true ↔ mO < mA)

theorem newerStep_inv {acc : Bool × UInt32} {mA mO : Nat} (p : CTxIn × CTxIn)
    (h : LoopInv acc mA mO) :
    LoopInv (newerStep acc p) (lowStep p.1.nSequence p mA) (lowStep p.2.nSequence p mO) := by
  obtain ⟨f, L⟩ := acc
  obtain ⟨hL, hf⟩ := h
  unfold newerStep lowStep LoopInv
  by_cases hd : p.1.nSequence = p.2.nSequence
  · simp [hd, hL, hf]
  · have hd' : p.1.nSequence.toNat ≠ p.2.nSequence.toNat := fun h => hd (UInt32.ext h)
    simp only [bne_iff_ne, ne_eq, hd, not_false_eq_true, if_true] at hL hf ⊢
    split_ifs with h1 h2 h2 <;> simp only [uint32_le_iff, uint32_lt_iff] at h1 h2
    · simp only [true_iff]; omega
    · simp only [Bool.false_eq_true, false_iff, not_lt]; omega
    · simp only [true_iff]; omega
    · dsimp only; rw [hf]; omega

theorem foldl_newerStep_inv :
    ∀ (ps : List (CTxIn × CTxIn)) {acc : Bool × UInt32} {mA mO : Nat}, LoopInv acc mA mO →
      LoopInv (ps.foldl newerStep acc) (lowestOn Prod.fst mA ps) (lowestOn Prod.snd mO ps)
  | [], _, _, _, h => h
  | p :: ps, _, _, _, h => foldl_newerStep_inv ps (newerStep_inv p h)

/-! ## Least sequence numbers -/

section Lowest

variable (side : CTxIn × CTxIn → CTxIn)

theorem lowestOn_cons (m : Nat) (p : CTxIn × CTxIn) (ps : List (CTxIn × CTxIn)) :
    lowestOn side m (p :: ps) = lowestOn side (lowStep (side p).nSequence p m) ps := rfl

theorem lowestOn_le_start : ∀ (ps : List (CTxIn × CTxIn)) (m : Nat), lowestOn side m ps ≤ m
  | [], _ => le_rfl
  | p :: ps, m => by
      rw [lowestOn_cons]
      exact (lowestOn_le_start ps _).trans (by unfold lowStep; split_ifs <;> omega)

theorem lowestOn_le_of_mem :
    ∀ (ps : List (CTxIn × CTxIn)) (m : Nat) {q : CTxIn × CTxIn}, q ∈ ps →
      q.1.nSequence ≠ q.2.nSequence → lowestOn side m ps ≤ (side q).nSequence.toNat
  | p :: ps, m, q, hq, hd => by
      rw [lowestOn_cons]
      rcases List.mem_cons.1 hq with rfl | hq
      · exact (lowestOn_le_start side ps _).trans (by rw [lowStep, if_pos hd]; omega)
      · exact lowestOn_le_of_mem ps _ hq hd

theorem lowestOn_eq :
    ∀ (ps : List (CTxIn × CTxIn)) (m : Nat), lowestOn side m ps = m ∨
      ∃ p ∈ ps, p.1.nSequence ≠ p.2.nSequence ∧ lowestOn side m ps = (side p).nSequence.toNat
  | [], _ => .inl rfl
  | p :: ps, m => by
      rw [lowestOn_cons]
      rcases lowestOn_eq ps (lowStep (side p).nSequence p m) with h | ⟨q, hq, hd, h⟩
      · rw [h, lowStep]
        by_cases hd : p.1.nSequence ≠ p.2.nSequence
        · rw [if_pos hd]
          by_cases hle : m ≤ (side p).nSequence.toNat
          · exact .inl (by omega)
          · exact .inr ⟨p, List.mem_cons_self _ _, hd, by omega⟩
        · exact .inl (if_neg hd)
      · exact .inr ⟨q, List.mem_cons_of_mem _ hq, hd, h⟩

end Lowest

theorem toNat_le_uintMax (s : UInt32) : s.toNat ≤ uintMax.toNat := by
  have h : s.toNat < 4294967296 := s.toNat_lt_size
  show s.toNat ≤ 4294967295; omega

theorem lowestOn_lt_iff (ps : List (CTxIn × CTxIn)) :
    lowestOn Prod.snd uintMax.toNat ps < lowestOn Prod.fst uintMax.toNat ps ↔
      ∃ p ∈ ps, p.1.nSequence ≠ p.2.nSequence ∧
        ∀ q ∈ ps, q.1.nSequence ≠ q.2.nSequence → p.2.nSequence < q.1.nSequence := by
  constructor
  · intro h
    rcases lowestOn_eq Prod.snd ps uintMax.toNat with h' | ⟨p, hp, hd, h'⟩
    · have := lowestOn_le_start Prod.fst ps uintMax.toNat; omega
    · refine ⟨p, hp, hd, fun q hq hdq => ?_⟩
      have := lowestOn_le_of_mem Prod.fst ps uintMax.toNat hq hdq
      rw [uint32_lt_iff]; omega
  · rintro ⟨p, hp, hd, hall⟩
    have hO := lowestOn_le_of_mem Prod.snd ps uintMax.toNat hp hd
    rcases lowestOn_eq Prod.fst ps uintMax.toNat with h | ⟨q, hq, hdq, h⟩
    · have := uint32_lt_iff.1 (hall p hp hd); have := toNat_le_uintMax p.1.nSequence; omega
    · have := uint32_lt_iff.1 (hall q hq hdq); omega

theorem isNewerThan_eq_true_iff_lowest (a old : CBTCTransaction) :
    a.isNewerThan old = true ↔
      a.vin.size = old.vin.size ∧
      (∀ p ∈ a.vin.toList.zip old.vin.toList, p.1.prevout = p.2.prevout) ∧
      lowestOn Prod.snd uintMax.toNat (a.vin.toList.zip old.vin.toList) <
        lowestOn Prod.fst uintMax.toNat (a.vin.toList.zip old.vin.toList) := by
  have hinit : LoopInv (false, uintMax) uintMax.toNat uintMax.toNat := by simp [LoopInv]
  have hloop := (foldl_newerStep_inv (a.vin.toList.zip old.vin.toList) hinit).2
  unfold isNewerThan
  by_cases hs : a.vin.size = old.vin.size
  · by_cases hp : ∀ p ∈ a.vin.toList.zip old.vin.toList, p.1.prevout = p.2.prevout
    · have hany : ((a.vin.toList.zip old.vin.toList).any fun p => p.1.prevout.bne p.2.prevout) = false :=
        List.any_eq_false.2 fun p hp' => by simp [COutPoint.bne, (COutPoint.beq_iff _ _).2 (hp p hp')]
      rw [if_neg (by simp [hs]), if_neg (by simp [hany]), hloop]
      exact ⟨fun h => ⟨hs, hp, h⟩, fun h => h.2.2⟩
    · push_neg at hp
      obtain ⟨p, hp', hne⟩ := hp
      have hany : ((a.vin.toList.zip old.vin.toList).any fun p => p.1.prevout.bne p.2.prevout) = true :=
        List.any_eq_true.2 ⟨p, hp', by
          simpa [COutPoint.bne] using mt (COutPoint.beq_iff _ _).1 hne⟩
      rw [if_neg (by simp [hs]), if_pos hany]
      exact ⟨fun h => absurd h Bool.false_ne_true, fun h => absurd (h.2.1 p hp') hne⟩
  · rw [if_pos (by simp [hs])]
    exact ⟨fun h => absurd h Bool.false_ne_true, fun h => absurd h.1 hs⟩

/-- Closed form of `IsNewerThan`: the same number of inputs spending the same outpoints,
and some input whose sequence number changed has an old sequence number below the new
sequence number of every changed input (the lowest changed sequence number is old, a tie
is not newer). -/
theorem isNewerThan_iff (a old : CBTCTransaction) :
    a.isNewerThan old = true ↔
      a.vin.size = old.vin.size ∧
      (∀ p ∈ a.vin.toList.zip old.vin.toList, p.1.prevout = p.2.prevout) ∧
      ∃ p ∈ a.vin.toList.zip old.vin.toList, p.1.nSequence ≠ p.2.nSequence ∧
        ∀ q ∈ a.vin.toList.zip old.vin.toList, q.1.nSequence ≠ q.2.nSequence →
          p.2.nSequence < q.1.nSequence := by
  rw [isNewerThan_eq_true_iff_lowest, lowestOn_lt_iff]

/-! ## The replacement order -/

section Zip

variable {α β : Type}

theorem mem_zip_iff_getElem {xs : List α} {ys : List β} {p : α × β} :
    p ∈ xs.zip ys ↔ ∃ i, ∃ (h₁ : i < xs.length) (h₂ : i < ys.length), (xs[i], ys[i]) = p := by
  rw [List.mem_iff_getElem]
  constructor
  · rintro ⟨i, h, rfl⟩
    exact ⟨i, List.lt_length_left_of_zip h, List.lt_length_right_of_zip h, List.getElem_zip.symm⟩
  · rintro ⟨i, h₁, h₂, rfl⟩
    exact ⟨i, by rw [List.length_zip]; omega, List.getElem_zip⟩

theorem forall_mem_zip {xs : List α} {ys : List β} {P : α × β → Prop} :
    (∀ p ∈ xs.zip ys, P p) ↔ ∀ i (h₁ : i < xs.length) (h₂ : i < ys.length), P (xs[i], ys[i]) := by
  simp only [mem_zip_iff_getElem]
  exact ⟨fun h i h₁ h₂ => h _ ⟨i, h₁, h₂, rfl⟩, fun h p ⟨i, h₁, h₂, hp⟩ => hp ▸ h i h₁ h₂⟩

theorem exists_mem_zip {xs : List α} {ys : List β} {P : α × β → Prop} :
    (∃ p ∈ xs.zip ys, P p) ↔ ∃ i, ∃ (h₁ : i < xs.length) (h₂ : i < ys.length), P (xs[i], ys[i]) := by
  simp only [mem_zip_iff_getElem]
  exact ⟨fun ⟨p, ⟨i, h₁, h₂, hp⟩, hP⟩ => ⟨i, h₁, h₂, hp ▸ hP⟩, fun ⟨i, h₁, h₂, hP⟩ => ⟨_, ⟨i, h₁, h₂, rfl⟩, hP⟩⟩

end Zip

/-- The closed form on positions: at some position the sequence numbers differ and the
old one is below the new one at every position where they differ. -/
def NewerAt (xs ys : List CTxIn) : Prop :=
  ∃ i, ∃ (h₁ : i < xs.length) (h₂ : i < ys.length), xs[i].nSequence ≠ ys[i].nSequence ∧
    ∀ j (g₁ : j < xs.length) (g₂ : j < ys.length), xs[j].nSequence ≠ ys[j].nSequence →
      ys[i].nSequence < xs[j].nSequence

theorem isNewerThan_iff_newerAt (a old : CBTCTransaction) :
    a.isNewerThan old = true ↔
      a.vin.toList.length = old.vin.toList.length ∧
      (∀ i (h₁ : i < a.vin.toList.length) (h₂ : i < old.vin.toList.length),
        a.vin.toList[i].prevout = old.vin.toList[i].prevout) ∧
      NewerAt a.vin.toList old.vin.toList := by
  rw [isNewerThan_eq_true_iff_lowest, lowestOn_lt_iff]
  simp only [forall_mem_zip, exists_mem_zip, NewerAt]
  rfl

theorem not_newerAt_self (xs : List CTxIn) : ¬ NewerAt xs xs :=
  fun ⟨_, _, _, h, _⟩ => h rfl

theorem NewerAt.trans {xa xb xc : List CTxIn} (hab : xa.length = xb.length)
    (hbc : xb.length = xc.length) (h₁ : NewerAt xa xb) (h₂ : NewerAt xb xc) : NewerAt xa xc := by
  simp only [NewerAt, ne_eq, UInt32.ext_iff, uint32_lt_iff] at h₁ h₂ ⊢
  obtain ⟨q, hqa, hqb, hqne, hq⟩ := h₁
  obtain ⟨p, hpb, hpc, hpne, hp⟩ := h₂
  have hpa : p < xa.length := by omega
  have hqc : q < xc.length := by omega
  by_cases hle : xc[p].nSequence.toNat ≤ xb[q].nSequence.toNat
  · refine ⟨p, hpa, hpc, ?_, fun j ga gc hj => ?_⟩
    · by_cases he : xa[p].nSequence.toNat = xb[p].nSequence.toNat
      · omega
      · have := hq p hpa hpb he; omega
    · have gb : j < xb.length := by omega
      by_cases he : xa[j].nSequence.toNat = xb[j].nSequence.toNat
      · have := hp j gb gc (by omega); omega
      · have := hq j ga gb he; omega
  · have hcq : xc[q].nSequence.toNat = xb[q].nSequence.toNat := by
      by_contra hne
      have := hp q hqb hqc (Ne.symm hne); omega
    refine ⟨q, hqa, hqc, by omega, fun j ga gc hj => ?_⟩
    have gb : j < xb.length := by omega
    by_cases he : xa[j].nSequence.toNat = xb[j].nSequence.toNat
    · have := hp j gb gc (by omega); omega
    · have := hq j ga gb he; omega

theorem isNewerThan_self (a : CBTCTransaction) : a.isNewerThan a = false := by
  rw [← Bool.not_eq_true, isNewerThan_iff_newerAt]
  exact fun h => not_newerAt_self _ h.2.2

theorem isNewerThan_trans {a b c : CBTCTransaction} (hab : a.isNewerThan b = true)
    (hbc : b.isNewerThan c = true) : a.isNewerThan c = true := by
  rw [isNewerThan_iff_newerAt] at hab hbc ⊢
  obtain ⟨lab, pab, nab⟩ := hab
  obtain ⟨lbc, pbc, nbc⟩ := hbc
  exact ⟨lab.trans lbc, fun i h₁ h₂ => (pab i h₁ (by omega)).trans (pbc i (by omega) h₂),
    nab.trans lab lbc nbc⟩

theorem isNewerThan_of_inputs_eq {a old : CBTCTransaction}
    (h : (a.vin.toList.map fun i => (i.prevout, i.nSequence)) =
      old.vin.toList.map fun i => (i.prevout, i.nSequence)) : a.isNewerThan old = false := by
  rw [← Bool.not_eq_true, isNewerThan_iff_newerAt]
  rintro ⟨-, -, i, h₁, h₂, hne, -⟩
  have := congrArg (fun l => l[i]?) h
  simp only [List.getElem?_map, List.getElem?_eq_getElem h₁, List.getElem?_eq_getElem h₂,
    Option.map_some', Option.some.injEq, Prod.mk.injEq] at this
  exact hne this.2

/-- A transaction whose inputs are all final is replaced by none: its changed sequence
numbers sit at `UINT_MAX`, below no new one. -/
theorem isNewerThan_eq_false_of_isFinal (a old : CBTCTransaction)
    (h : ∀ i ∈ old.vin.toList, i.isFinal = true) : a.isNewerThan old = false := by
  rw [← Bool.not_eq_true, isNewerThan_iff_newerAt]
  rintro ⟨-, -, i, h₁, h₂, hne, hlow⟩
  have hfin : old.vin.toList[i].nSequence = uintMax := by
    simpa [CTxIn.isFinal] using h _ (List.getElem_mem h₂)
  have hlt := uint32_lt_iff.1 (hlow i h₁ h₂ hne)
  rw [hfin] at hlt
  exact absurd hlt (Nat.not_lt.2 (toNat_le_uintMax _))

theorem isNewerThan_eq_false_of_isFinal_single :
    (∀ i ∈ [CTxIn.construct], i.isFinal = true) ∧
    isNewerThan ⟨1, 0, ⟨[{ CTxIn.construct with nSequence := 0 }], by decide⟩, .empty, 0, 0⟩
      ⟨1, 0, ⟨[CTxIn.construct], by decide⟩, .empty, 0, 0⟩ = false :=
  ⟨by decide, isNewerThan_eq_false_of_isFinal _ _ (by decide)⟩

theorem isNewerThan_getLast_of_chain :
    ∀ (t₀ : CBTCTransaction) (ts : List CBTCTransaction) (h : ts ≠ []),
      List.Chain (fun t t' => t'.isNewerThan t = true) t₀ ts → (ts.getLast h).isNewerThan t₀ = true
  | _, [t₁], _, .cons h₁ _ => h₁
  | t₀, t₁ :: t₂ :: ts, _, .cons h₁ hc => by
      rw [List.getLast_cons (List.cons_ne_nil _ _)]
      exact isNewerThan_trans (isNewerThan_getLast_of_chain t₁ (t₂ :: ts) (List.cons_ne_nil _ _) hc) h₁

/-- `IsNewerThan` is a strict partial order: irreflexive, transitive, hence asymmetric;
so no nonempty chain of replacements, each newer than the one before, ends in a
transaction spending the same outpoints with the same sequence numbers as its start. -/
theorem isNewerThan_strictPartialOrder :
    (∀ a : CBTCTransaction, a.isNewerThan a = false) ∧
    (∀ a b c : CBTCTransaction, a.isNewerThan b = true → b.isNewerThan c = true →
      a.isNewerThan c = true) ∧
    (∀ a b : CBTCTransaction, ¬ (a.isNewerThan b = true ∧ b.isNewerThan a = true)) ∧
    ∀ (t₀ : CBTCTransaction) (ts : List CBTCTransaction) (h : ts ≠ []),
      List.Chain (fun t t' => t'.isNewerThan t = true) t₀ ts →
      ((ts.getLast h).vin.toList.map fun i => (i.prevout, i.nSequence)) ≠
        t₀.vin.toList.map fun i => (i.prevout, i.nSequence) := by
  refine ⟨isNewerThan_self, fun _ _ _ => isNewerThan_trans, fun a b ⟨hab, hba⟩ => ?_,
    fun t₀ ts h hc heq => ?_⟩
  · have := isNewerThan_trans hab hba
    rw [isNewerThan_self] at this
    exact Bool.false_ne_true this
  · have := isNewerThan_getLast_of_chain t₀ ts h hc
    rw [isNewerThan_of_inputs_eq heq] at this
    exact Bool.false_ne_true this

end CBTCTransaction

end CrossChain
