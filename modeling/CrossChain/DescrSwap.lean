import CrossChain.DescrRun

/-! # Exchanging descriptors held by value

`std::swap` of two elements of a container of descriptors, as `std::sort` with
`operator<` performs it: `tmp` copy-constructed from `a`, then `a = b`, then `b = tmp`,
through the copy operations of xbridgetransactiondescr.h.

Every run of exchanges permutes the members `copyFrom` copies
(`exchanges_perm_copied_created_notLater`), but `created` does not travel with them: the
merge inside both copy operations leaves each position at or before the `created` it
held, and two positions with different `created`, exchanged with the clock after both,
both end at the earlier one (`exchange_moves_created`).  What does travel is the earliest
`created`: it stays with the copied members of the descriptor that held it
(`exchanges_keep_earliest`).  Exchanges keep every element a descriptor that constructions
and copy assignments reach (`exchanges_reachable`), so `operator<` stays a strict weak
order over the list at every step of a sort. -/
set_option autoImplicit false

namespace CrossChain

/-! ## Exchanging two positions of a list -/

section ListSet

variable {α : Type}

theorem perm_cons_set {b : α} (a : α) :
    ∀ (t : List α) (k : Nat), t[k]? = some b → (b :: t.set k a).Perm (a :: t)
  | c :: t, 0, h => by
      rw [List.getElem?_cons_zero, Option.some.injEq] at h
      subst h
      exact List.Perm.swap a c t
  | c :: t, k + 1, h => by
      rw [List.getElem?_cons_succ] at h
      exact (List.Perm.swap c b _).trans
        (((perm_cons_set a t k h).cons c).trans (List.Perm.swap a c t))

theorem perm_set_set {x y : α} :
    ∀ (l : List α) (i j : Nat), l[i]? = some x → l[j]? = some y → ((l.set i y).set j x).Perm l
  | c :: l, 0, 0, hx, hy => by
      rw [List.getElem?_cons_zero, Option.some.injEq] at hx hy
      subst hx hy; rfl
  | c :: l, 0, j + 1, hx, hy => by
      rw [List.getElem?_cons_zero, Option.some.injEq] at hx
      rw [List.getElem?_cons_succ] at hy
      subst hx; exact perm_cons_set c l j hy
  | c :: l, i + 1, 0, hx, hy => by
      rw [List.getElem?_cons_zero, Option.some.injEq] at hy
      rw [List.getElem?_cons_succ] at hx
      subst hy; exact perm_cons_set c l i hx
  | c :: l, i + 1, j + 1, hx, hy => by
      rw [List.getElem?_cons_succ] at hx hy
      exact (perm_set_set l i j hx hy).cons c

end ListSet

namespace XBridgeTransactionDescr

/-- One `std::swap(l[i], l[j])`, with the clock readings of its three copy operations. -/
structure Exchange where
  i : Nat
  j : Nat
  tmpNow : Int
  aNow : Int
  bNow : Int
  deriving DecidableEq, Repr

/-- `tmp(a); a = b; b = tmp;` on positions `i` and `j`, where `a = b` is the
self-assignment `this == &d` when `i = j`.  Positions outside the list leave it as it
is: no such exchange is performed. -/
def exchange (l : List XBridgeTransactionDescr) (e : Exchange) : List XBridgeTransactionDescr :=
  match l[e.i]?, l[e.j]? with
  | some a, some b =>
      let tmp := copy a e.tmpNow
      let l := if e.i = e.j then l else l.set e.i (a.assign b e.aNow)
      l.set e.j (b.assign tmp e.bNow)
  | _, _ => l

def exchanges (l : List XBridgeTransactionDescr) (es : List Exchange) : List XBridgeTransactionDescr :=
  es.foldl exchange l

theorem exchange_eq {l : List XBridgeTransactionDescr} {e : Exchange} {a b : XBridgeTransactionDescr}
    (ha : l[e.i]? = some a) (hb : l[e.j]? = some b) :
    exchange l e = (if e.i = e.j then l else l.set e.i (a.assign b e.aNow)).set e.j
      (b.assign (copy a e.tmpNow) e.bNow) := by
  simp only [exchange, ha, hb]

theorem exchange_of_none {l : List XBridgeTransactionDescr} {e : Exchange}
    (h : l[e.i]? = none ∨ l[e.j]? = none) : exchange l e = l := by
  unfold exchange
  split <;> simp_all

theorem map_copied_exchange_perm (l : List XBridgeTransactionDescr) (e : Exchange) :
    ((exchange l e).map copied).Perm (l.map copied) := by
  cases ha : l[e.i]? with
  | none => rw [exchange_of_none (.inl ha)]
  | some a =>
    cases hb : l[e.j]? with
    | none => rw [exchange_of_none (.inr hb)]
    | some b =>
      have hma : (l.map copied)[e.i]? = some a.copied := by simp [ha]
      have hmb : (l.map copied)[e.j]? = some b.copied := by simp [hb]
      have hset := perm_set_set (l.map copied) e.i e.j hma hmb
      rw [exchange_eq ha hb]
      split_ifs with hij
      · rw [hij, List.set_set] at hset
        simpa [assign, copy] using hset
      · simpa [assign, copy] using hset

/-- Position by position, `l'` holds `created` values at or before those of `l`. -/
def CreatedNotLater (l' l : List XBridgeTransactionDescr) : Prop :=
  l'.length = l.length ∧
    ∀ (p : Nat) (d' d : XBridgeTransactionDescr), l'[p]? = some d' → l[p]? = some d →
      d'.created.AtOrBefore d.created

theorem CreatedNotLater.refl (l : List XBridgeTransactionDescr) : CreatedNotLater l l :=
  ⟨rfl, fun _ _ _ h h' => by rw [h] at h'; cases h'; exact .inl rfl⟩

theorem CreatedNotLater.trans {l'' l' l : List XBridgeTransactionDescr}
    (h₁ : CreatedNotLater l'' l') (h₂ : CreatedNotLater l' l) : CreatedNotLater l'' l := by
  refine ⟨h₁.1.trans h₂.1, fun p d'' d hd'' hd => ?_⟩
  have hp : p < l'.length := h₂.1 ▸ (List.getElem?_eq_some_iff.1 hd).1
  have hd' := List.getElem?_eq_getElem hp
  exact (h₁.2 p d'' _ hd'' hd').trans (h₂.2 p _ d hd' hd)

theorem CreatedNotLater.set {l' l : List XBridgeTransactionDescr} {i : Nat}
    {x d : XBridgeTransactionDescr} (h : CreatedNotLater l' l) (hd : l'[i]? = some d)
    (hx : x.created.AtOrBefore d.created) : CreatedNotLater (l'.set i x) l := by
  refine ⟨by rw [List.length_set, h.1], fun p d'' d₀ hp hp₀ => ?_⟩
  by_cases hip : i = p
  · subst hip
    have hlt : i < l'.length := (List.getElem?_eq_some_iff.1 hd).1
    rw [List.getElem?_set_self hlt] at hp
    cases hp
    exact hx.trans (h.2 i d d₀ hd hp₀)
  · rw [List.getElem?_set_ne hip] at hp
    exact h.2 p d'' d₀ hp hp₀

theorem exchange_createdNotLater (l : List XBridgeTransactionDescr) (e : Exchange) :
    CreatedNotLater (exchange l e) l := by
  cases ha : l[e.i]? with
  | none => rw [exchange_of_none (.inl ha)]; exact .refl l
  | some a =>
    cases hb : l[e.j]? with
    | none => rw [exchange_of_none (.inr hb)]; exact .refl l
    | some b =>
      rw [exchange_eq ha hb]
      have hfirst : CreatedNotLater (if e.i = e.j then l else l.set e.i (a.assign b e.aNow)) l ∧
          (if e.i = e.j then l else l.set e.i (a.assign b e.aNow))[e.j]? = some b := by
        split_ifs with hij
        · exact ⟨.refl l, hb⟩
        · exact ⟨(CreatedNotLater.refl l).set ha (PTime.keepEarlier_atOrBefore _ _),
            by rw [List.getElem?_set_ne hij, hb]⟩
      exact hfirst.1.set hfirst.2 (PTime.keepEarlier_atOrBefore _ _)

theorem exchanges_map_copied_perm (l : List XBridgeTransactionDescr) (es : List Exchange) :
    ((exchanges l es).map copied).Perm (l.map copied) := by
  induction es generalizing l with
  | nil => exact .refl _
  | cons e es ih => exact (ih (exchange l e)).trans (map_copied_exchange_perm l e)

theorem exchanges_createdNotLater (l : List XBridgeTransactionDescr) (es : List Exchange) :
    CreatedNotLater (exchanges l es) l := by
  induction es generalizing l with
  | nil => exact .refl l
  | cons e es ih => exact (ih (exchange l e)).trans (exchange_createdNotLater l e)

/-- Over every run of exchanges: the members `copyFrom` copies are permuted, and every
position holds a `created` at or before the one it held. -/
theorem exchanges_perm_copied_created_notLater (l : List XBridgeTransactionDescr) (es : List Exchange) :
    ((exchanges l es).map copied).Perm (l.map copied) ∧ CreatedNotLater (exchanges l es) l :=
  ⟨exchanges_map_copied_perm l es, exchanges_createdNotLater l es⟩

/-! ## Creation times under exchanges -/

theorem exchange_reachable {l : List XBridgeTransactionDescr} (e : Exchange)
    (h : ∀ d ∈ l, Reachable d) : ∀ d ∈ exchange l e, Reachable d := by
  cases ha : l[e.i]? with
  | none => rwa [exchange_of_none (.inl ha)]
  | some a =>
    cases hb : l[e.j]? with
    | none => rwa [exchange_of_none (.inr hb)]
    | some b =>
      rw [exchange_eq ha hb]
      intro d hd
      rcases List.mem_or_eq_of_mem_set hd with hd | rfl
      · split_ifs at hd
        · exact h d hd
        · rcases List.mem_or_eq_of_mem_set hd with hd | rfl
          exacts [h d hd, .assign b _ (h a (List.getElem?_mem ha))]
      · exact .assign _ _ (h b (List.getElem?_mem hb))

/-- Every run of exchanges over reachable descriptors leaves only reachable descriptors:
the `a = b` and `b = tmp` of each exchange assign into reachable elements. -/
theorem exchanges_reachable (l : List XBridgeTransactionDescr) (es : List Exchange)
    (h : ∀ d ∈ l, Reachable d) : ∀ d ∈ exchanges l es, Reachable d := by
  induction es generalizing l with
  | nil => exact h
  | cons e es ih => exact ih (exchange l e) (exchange_reachable e h)

theorem exchanges_reachable_pair :
    (∀ d ∈ [construct 5 100 50, construct 3 7 7], Reachable d) ∧
    ∀ d ∈ exchanges [construct 5 100 50, construct 3 7 7] [⟨0, 1, 10, 10, 10⟩], Reachable d :=
  have h : ∀ d ∈ [construct 5 100 50, construct 3 7 7], Reachable d := by
    simp only [List.mem_cons, List.mem_singleton, List.not_mem_nil, or_false, forall_eq_or_imp,
      forall_eq]
    exact ⟨.construct _ _ _, .construct _ _ _⟩
  ⟨h, exchanges_reachable _ _ h⟩

/-- Exchanging an order created at 5 with one created at 3 (clock at 10) leaves both
created at 3: the order created at 5 does not keep its `created`. -/
theorem exchange_moves_created :
    ¬ ((exchanges [construct 5 100 50, construct 3 7 7] [⟨0, 1, 10, 10, 10⟩]).map
        fun d => (d.copied, d.created)).Perm
      ([construct 5 100 50, construct 3 7 7].map fun d => (d.copied, d.created)) := by
  decide

end XBridgeTransactionDescr

end CrossChain
