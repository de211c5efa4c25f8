import CrossChain.Descr

/-! # Runs of constructions and copy assignments

A descriptor is built by one of its constructors and then overwritten by copy
assignments from other descriptors.  Along every such run `created` only moves earlier
and ends at the earliest of the clock reading and the copies' `created`, whatever their
order, while `txtime` is the last clock reading (`assignAll_created_earliest`).  No run
ever stores `not_a_date_time` in `created`, so on the descriptors runs reach
(`reachable_iff_run`) `operator<` is a strict weak order
(`reachable_lt_isStrictWeakOrder`).  `copyFrom` does
not copy `packet` (`copy_assign_drop_packet`). -/
set_option autoImplicit false

namespace CrossChain

namespace XBridgeTransactionDescr

open PTime

/-- How the descriptor of a run is built: by `XBridgeTransactionDescr()`, whose
uninitialised amounts are given, or by the copy constructor from `s`. -/
inductive Origin where
  | construct (fromAmount toAmount : UInt64)
  | copy (s : XBridgeTransactionDescr)

/-- The descriptor `o` builds at clock reading `now`. -/
def Origin.build (now : Int) : Origin → XBridgeTransactionDescr
  | .construct fromAmount toAmount => XBridgeTransactionDescr.construct now fromAmount toAmount
  | .copy s => XBridgeTransactionDescr.copy s now

/-- The `created` values the constructor merges after its clock reading. -/
def Origin.sources : Origin → List PTime
  | .construct _ _ => []
  | .copy s => [s.created]

theorem Origin.created_build (now : Int) (o : Origin) :
    (o.build now).created = o.sources.foldl keepEarlier (.ticks now) := by
  cases o <;> rfl

theorem Origin.txtime_build (now : Int) (o : Origin) : (o.build now).txtime = .ticks now := by
  cases o <;> rfl

/-- `x = d₁; …; x = dₙ`, each `dᵢ` another object than `x`, at clock reading `Tᵢ`. -/
def assignAll (x : XBridgeTransactionDescr) (ds : List (XBridgeTransactionDescr × Int)) :
    XBridgeTransactionDescr :=
  ds.foldl (fun x d => x.assign d.1 d.2) x

theorem assignAll_append (x : XBridgeTransactionDescr) (ds es : List (XBridgeTransactionDescr × Int)) :
    assignAll x (ds ++ es) = assignAll (assignAll x ds) es :=
  List.foldl_append _ _ _ _

theorem created_assignAll :
    ∀ (x : XBridgeTransactionDescr) (ds : List (XBridgeTransactionDescr × Int)),
      (assignAll x ds).created = (ds.map (·.1.created)).foldl keepEarlier x.created
  | _, [] => rfl
  | x, d :: ds => created_assignAll (x.assign d.1 d.2) ds

theorem txtime_assignAll :
    ∀ (x : XBridgeTransactionDescr) (ds : List (XBridgeTransactionDescr × Int)) (T : Int),
      x.txtime = .ticks T →
        (assignAll x ds).txtime = .ticks ((T :: ds.map Prod.snd).getLast (List.cons_ne_nil _ _))
  | _, [], _, h => h
  | x, d :: ds, _, _ => by
      rw [List.map_cons, List.getLast_cons (List.cons_ne_nil _ _)]
      exact txtime_assignAll (x.assign d.1 d.2) ds d.2 rfl

theorem created_assignAll_take_succ (x : XBridgeTransactionDescr)
    (ds : List (XBridgeTransactionDescr × Int)) (k : Nat) :
    (assignAll x (ds.take (k + 1))).created.AtOrBefore (assignAll x (ds.take k)).created := by
  rw [List.take_succ, assignAll_append]
  cases ds[k]? with
  | none => exact .inl rfl
  | some d => exact keepEarlier_atOrBefore _ _

/-- Over every run from either constructor: `created` is a date and ends at the earliest
of the constructor's clock reading, the copied source's `created`, and the assigned
copies' `created`; `txtime` is the last clock reading; no step moves `created` later; and
the order in which the copies arrive does not change the final `created`. -/
theorem assignAll_created_earliest (T0 : Int) (o : Origin) (ds : List (XBridgeTransactionDescr × Int)) :
    (assignAll (o.build T0) ds).created ≠ .notADateTime ∧
    (assignAll (o.build T0) ds).created.IsEarliest (.ticks T0 :: o.sources ++ ds.map (·.1.created)) ∧
    (assignAll (o.build T0) ds).txtime = .ticks ((T0 :: ds.map Prod.snd).getLast (List.cons_ne_nil _ _)) ∧
    (∀ k, (assignAll (o.build T0) (ds.take (k + 1))).created.AtOrBefore
      (assignAll (o.build T0) (ds.take k)).created) ∧
    ∀ ds' : List (XBridgeTransactionDescr × Int), (ds'.map Prod.fst).Perm (ds.map Prod.fst) →
      (assignAll (o.build T0) ds').created = (assignAll (o.build T0) ds).created := by
  have hcreated : ∀ es : List (XBridgeTransactionDescr × Int), (assignAll (o.build T0) es).created =
      (o.sources ++ es.map (·.1.created)).foldl keepEarlier (.ticks T0) := fun es => by
    rw [created_assignAll, Origin.created_build, List.foldl_append]
  have hne : ∀ es : List (XBridgeTransactionDescr × Int),
      (assignAll (o.build T0) es).created ≠ .notADateTime := fun es => by
    rw [hcreated]; exact foldl_keepEarlier_ne_notADateTime _ (by simp)
  have hearliest : ∀ es : List (XBridgeTransactionDescr × Int), (assignAll (o.build T0) es).created.IsEarliest
      (.ticks T0 :: o.sources ++ es.map (·.1.created)) := fun es => by
    rw [hcreated]; exact foldl_keepEarlier_isEarliest _ (by simp)
  refine ⟨hne ds, hearliest ds, txtime_assignAll _ ds T0 (Origin.txtime_build T0 o),
    created_assignAll_take_succ _ ds, fun ds' hp => ?_⟩
  have hp' : (PTime.ticks T0 :: o.sources ++ ds'.map (·.1.created)).Perm
      (.ticks T0 :: o.sources ++ ds.map (·.1.created)) := by
    have := hp.map (·.created)
    simp only [List.map_map] at this
    exact (this.append_left _).cons _
  exact (hearliest ds').of_perm hp' |>.unique (hearliest ds) (hne ds') (hne ds)

/-! ## Reachable descriptors -/

/-- The descriptors a run of constructions and copy assignments can hold; the sources
of the copies are arbitrary.  (`x = x` returns `x` unchanged.) -/
inductive Reachable : XBridgeTransactionDescr → Prop
  | construct (now : Int) (fromAmount toAmount : UInt64) :
      Reachable (XBridgeTransactionDescr.construct now fromAmount toAmount)
  | copy (d : XBridgeTransactionDescr) (now : Int) : Reachable (XBridgeTransactionDescr.copy d now)
  | assign {x : XBridgeTransactionDescr} (d : XBridgeTransactionDescr) (now : Int) :
      Reachable x → Reachable (x.assign d now)

theorem Reachable.created_ne {x : XBridgeTransactionDescr} (h : Reachable x) :
    x.created ≠ .notADateTime := by
  induction h with
  | construct => simp
  | copy d now => exact keepEarlier_ne_notADateTime _ (by simp)
  | assign d now _ ih => exact keepEarlier_ne_notADateTime _ ih

theorem Reachable.assignAll {x : XBridgeTransactionDescr} (hx : Reachable x) :
    ∀ ds : List (XBridgeTransactionDescr × Int), Reachable (assignAll x ds)
  | [] => hx
  | d :: ds => (hx.assign d.1 d.2).assignAll ds

theorem reachable_iff_run (x : XBridgeTransactionDescr) :
    Reachable x ↔ ∃ (T0 : Int) (o : Origin) (ds : List (XBridgeTransactionDescr × Int)),
      x = assignAll (o.build T0) ds := by
  constructor
  · intro h
    induction h with
    | construct now fromAmount toAmount => exact ⟨now, .construct fromAmount toAmount, [], rfl⟩
    | copy d now => exact ⟨now, .copy d, [], rfl⟩
    | assign d now _ ih =>
        obtain ⟨T0, o, ds, rfl⟩ := ih
        exact ⟨T0, o, ds ++ [(d, now)], by rw [assignAll_append]; rfl⟩
  · rintro ⟨T0, o, ds, rfl⟩
    cases o with
    | construct fromAmount toAmount => exact (Reachable.construct T0 fromAmount toAmount).assignAll ds
    | copy s => exact (Reachable.copy s T0).assignAll ds

/-- No reachable descriptor has `created = not_a_date_time`; so `operator<` is a strict
weak order on reachable descriptors, and `operator>` is `operator<` flipped. -/
theorem reachable_lt_isStrictWeakOrder :
    (∀ x, Reachable x → x.created ≠ .notADateTime) ∧
    IsStrictWeakOrder {x // Reachable x} (fun a b => a.1 < b.1) ∧
    ∀ a b : XBridgeTransactionDescr, a > b ↔ b < a := by
  have incomp : ∀ a b : {x // Reachable x}, ¬ a.1 < b.1 → ¬ b.1 < a.1 → a.1.created = b.1.created :=
    fun a b hab hba => by
      rcases lt_trichotomy a.2.created_ne b.2.created_ne with h | h | h
      exacts [absurd h hab, h, absurd h hba]
  refine ⟨fun _ h => h.created_ne, ?_, fun _ _ => Iff.rfl⟩
  exact
    { irrefl := fun a => lt_irrefl a.1.created
      trans := fun _ _ _ => lt_trans
      incomp_trans := fun a b c ⟨hab, hba⟩ ⟨hbc, hcb⟩ => by
        have h₁ := incomp a b hab hba
        have h₂ := incomp b c hbc hcb
        show ¬ a.1.created < c.1.created ∧ ¬ c.1.created < a.1.created
        rw [h₁, h₂]; exact ⟨lt_irrefl _, lt_irrefl _⟩ }

/-! ## The packet -/

/-- A descriptor holding a packet, copied by the copy constructor and assigned to a fresh
descriptor: neither copy holds the packet. -/
theorem copy_assign_drop_packet :
    (copy { construct 0 0 0 with packet := some [1] } 0).packet ≠ some [1] ∧
      ((construct 0 0 0).assign { construct 0 0 0 with packet := some [1] } 0).packet ≠ some [1] := by
  simp [copy, assign]

end XBridgeTransactionDescr

end CrossChain
