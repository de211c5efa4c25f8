import CrossChain.Unserialize

/-! # The readers take bytes off a stream and look at none past them

`Unserialize` reads a `CDataStream` from its front and leaves the rest of the stream
where it was: a reader that succeeds on a stream succeeds in the same way on any longer
stream, leaving the extra bytes after the rest (`Streaming`).  The property is proved
once per way a reader is built (a fixed-width read, a CompactSize, a bind, a branch, a
count of elements) and from those for each class's reader.

With the round trips it says what the readers never do: a stream cut short anywhere
inside an encoded object is refused (`unserialize_truncated_eq_none`), so a truncated
message is never taken for a smaller object. -/
set_option autoImplicit false

namespace CrossChain

/-- Appending bytes to a stream that `read` reads leaves its result, and the bytes
follow the rest. -/
def Streaming {α : Type} (read : List UInt8 → Option (α × List UInt8)) : Prop :=
  ∀ bs more x rest, read bs = some (x, rest) → read (bs ++ more) = some (x, rest ++ more)

section Streaming

variable {α β : Type}

theorem Streaming.pure (f : α) : Streaming fun bs => (pure (f, bs) : Option (α × List UInt8)) :=
  fun _ _ _ _ h => by cases h; rfl

theorem Streaming.refuse : Streaming fun _ => (none : Option (α × List UInt8)) :=
  fun _ _ _ _ h => nomatch h

theorem Streaming.ite (c : Prop) [Decidable c] {r₁ r₂ : List UInt8 → Option (α × List UInt8)}
    (h₁ : Streaming r₁) (h₂ : Streaming r₂) : Streaming fun bs => if c then r₁ bs else r₂ bs := by
  by_cases hc : c
  · simpa only [if_pos hc] using h₁
  · simpa only [if_neg hc] using h₂

theorem Streaming.dite (c : Prop) [Decidable c] {r₁ : c → List UInt8 → Option (α × List UInt8)}
    {r₂ : ¬c → List UInt8 → Option (α × List UInt8)} (h₁ : ∀ hc, Streaming (r₁ hc))
    (h₂ : ∀ hc, Streaming (r₂ hc)) : Streaming fun bs => if hc : c then r₁ hc bs else r₂ hc bs := by
  by_cases hc : c
  · simpa only [dif_pos hc] using h₁ hc
  · simpa only [dif_neg hc] using h₂ hc

theorem Streaming.bind {read : List UInt8 → Option (α × List UInt8)}
    {k : α × List UInt8 → Option (β × List UInt8)}
    (h : Streaming read) (hk : ∀ a, Streaming fun bs => k (a, bs)) :
    Streaming fun bs => (read bs).bind k := fun bs more x rest hr => by
  obtain ⟨⟨a, bs'⟩, ha, hb⟩ := Option.bind_eq_some.1 hr
  simp only [h _ more _ _ ha, Option.some_bind]
  exact hk a bs' more x rest hb

theorem Streaming.map {read : List UInt8 → Option (α × List UInt8)} (h : Streaming read)
    (f : α → β) : Streaming fun bs => (read bs).map fun r => (f r.1, r.2) :=
  fun bs more x rest hr => by
    obtain ⟨⟨a, bs'⟩, ha, hb⟩ := Option.map_eq_some'.1 hr
    cases hb
    simp only [h _ more _ _ ha, Option.map_some']

theorem streaming_readLE (w : Nat) : Streaming (readLE w) := fun bs more x rest h => by
  unfold readLE at h ⊢
  split_ifs at h with hw
  cases h
  rw [if_pos (by rw [List.length_append]; omega), List.take_append_of_le_length hw,
    List.drop_append_of_le_length hw]

theorem streaming_readCompactSize : Streaming readCompactSize
  | [], _, _, _, h => nomatch h
  | c :: bs, more, x, rest, h => by
      rw [List.cons_append, readCompactSize]
      rw [readCompactSize] at h
      split_ifs at h ⊢
      · cases h; rfl
      all_goals exact streaming_readLE _ bs more x rest h

theorem Streaming.readList {read : List UInt8 → Option (α × List UInt8)} (h : Streaming read) :
    ∀ k, Streaming (CrossChain.readList read k)
  | 0 => fun _ _ _ _ hr => by cases hr; rfl
  | k + 1 => fun bs more x rest hr => by
      rw [CrossChain.readList] at hr ⊢
      refine h.bind (fun a => ?_) bs more x rest hr
      dsimp only
      exact (h.readList k).bind fun s => Streaming.pure (a :: s)

theorem streaming_byte : Streaming byteCodec.read
  | [], _, _, _, h => nomatch h
  | _ :: _, _, _, _, h => by cases h; rfl

theorem Streaming.readVector {read : List UInt8 → Option (α × List UInt8)} (h : Streaming read)
    (maxSize : Nat) : Streaming (CrossChain.readVector maxSize read) :=
  streaming_readCompactSize.bind fun n => .ite _ ((h.readList n).bind fun xs =>
    .dite _ (fun hx => .pure ⟨xs, hx⟩) fun _ => .refuse) .refuse

end Streaming

/-! ## The readers of the classes -/

theorem COutPoint.streaming : Streaming unserialize :=
  ((streaming_readLE 32).map _).bind fun _ => ((streaming_readLE 4).map _).bind fun _ => .pure _

theorem CTxIn.streaming (maxSize : Nat) : Streaming (unserialize maxSize) :=
  COutPoint.streaming.bind fun _ => (streaming_byte.readVector maxSize).bind fun _ =>
    ((streaming_readLE 4).map _).bind fun _ => .pure _

theorem CTxOut.streaming (maxSize : Nat) : Streaming (unserialize maxSize) :=
  ((streaming_readLE 8).map _).bind fun _ => (streaming_byte.readVector maxSize).bind fun _ =>
    .pure _

theorem CBTCTransaction.streaming (maxSize : Nat) (into : CBTCTransaction) :
    Streaming (unserialize maxSize into) :=
  ((streaming_readLE 4).map _).bind fun _ =>
    ((CTxIn.streaming maxSize).readVector maxSize).bind fun _ =>
    ((CTxOut.streaming maxSize).readVector maxSize).bind fun _ =>
    ((streaming_readLE 4).map _).bind fun _ => .pure _

theorem CTransaction.streaming (maxSize : Nat) (into : CTransaction) :
    Streaming (unserialize maxSize into) :=
  ((streaming_readLE 4).map _).bind fun _ => ((streaming_readLE 4).map _).bind fun _ =>
    ((CTxIn.streaming maxSize).readVector maxSize).bind fun _ =>
    ((CTxOut.streaming maxSize).readVector maxSize).bind fun _ =>
    ((streaming_readLE 4).map _).bind fun _ => .pure _

/-! ## A truncated encoding is refused -/

theorem Streaming.take_eq_none {α : Type} {read : List UInt8 → Option (α × List UInt8)}
    (hs : Streaming read) {w : List UInt8} {c : Bool} {y : α}
    (hw : ∀ rest, read (w ++ rest) = if c then some (y, rest) else none) {k : Nat}
    (hk : k < w.length) : read (w.take k) = none := by
  cases h : read (w.take k) with
  | none => rfl
  | some r =>
      have hread := hs _ (w.drop k) r.1 r.2 h
      rw [List.take_append_drop, ← List.append_nil w, hw] at hread
      split_ifs at hread
      have hlen := congrArg (fun p => p.2.length) (Option.some.inj hread)
      simp only [List.length_append, List.length_drop, List.append_nil, List.length_nil] at hlen
      omega

/-- No reader takes a strict prefix of a serialization: a stream cut short anywhere inside
an encoded object is refused, whatever the object, the receiver and `MAX_SIZE`. -/
theorem unserialize_truncated_eq_none (maxSize : Nat) :
    (∀ (p : COutPoint) (k : Nat), k < p.serialize.length →
      COutPoint.unserialize (p.serialize.take k) = none) ∧
    (∀ (i : CTxIn) (k : Nat), k < i.serialize.length →
      CTxIn.unserialize maxSize (i.serialize.take k) = none) ∧
    (∀ (o : CTxOut) (k : Nat), k < o.serialize.length →
      CTxOut.unserialize maxSize (o.serialize.take k) = none) ∧
    (∀ (into t : CBTCTransaction) (k : Nat), k < t.serialize.length →
      CBTCTransaction.unserialize maxSize into (t.serialize.take k) = none) ∧
    ∀ (into t : CTransaction) (k : Nat), k < t.serialize.length →
      CTransaction.unserialize maxSize into (t.serialize.take k) = none :=
  ⟨fun p _ => COutPoint.streaming.take_eq_none (COutPoint.readsBack p),
    fun i _ => (CTxIn.streaming maxSize).take_eq_none (CTxIn.readsBack maxSize i),
    fun o _ => (CTxOut.streaming maxSize).take_eq_none (CTxOut.readsBack maxSize o),
    fun into t _ => (CBTCTransaction.streaming maxSize into).take_eq_none
      (CBTCTransaction.unserialize_serialize maxSize into t),
    fun into t _ => (CTransaction.streaming maxSize into).take_eq_none
      (CTransaction.unserialize_serialize maxSize into t)⟩

theorem unserialize_truncated_setNull :
    9 < (CBTCTransaction.setNull 0).serialize.length ∧
      CBTCTransaction.unserialize 0 (CBTCTransaction.setNull 0)
        ((CBTCTransaction.setNull 0).serialize.take 9) = none :=
  ⟨by decide, (unserialize_truncated_eq_none 0).2.2.2.1 _ _ 9 (by decide)⟩

end CrossChain
