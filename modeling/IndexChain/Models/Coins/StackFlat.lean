import IndexChain.Models.Coins.StackFills

/-!
# A stack of caches is a flat map

The stack is compared with one map from transaction ids to unspent records and
one set of spent nullifiers (`FlatCoins`). A fully spent record may stay in a
cache with its height and version, and lookups return it, so the comparison is up
to fully spent records. For the same reason a modification must not read what is
left of such a record, and the database must be able to represent what it leaves.
Under these conditions every answer of the top layer is that of the flat map,
whatever was fetched and flushed before.
-/

namespace IndexChain

/-- The record, if anything of it is unspent. -/
def CCoins.unspent (k : CCoins) : Option CCoins :=
  if k.isPruned then none else some k

theorem CCoins.unspent_of_isPruned {k : CCoins} (h : k.isPruned = true) : k.unspent = none :=
  if_pos h

theorem CCoins.unspent_live (k : CCoins) : k.live.unspent = k.unspent := by
  cases hpr : k.isPruned with
  | false => rw [live_of_not_isPruned hpr]
  | true =>
    rw [live_of_isPruned hpr, unspent_of_isPruned hpr]
    rfl

namespace CCoinsViewCache

variable {K : CCoins → Prop} {base : CCoinsView} {ls : List CCoinsViewCache}
  {c p : CCoinsViewCache}

/-! ## Writing a cache to its parent -/

/-- Where an entry of the parent comes from after a write. -/
theorem mergeCoins_eq_some {a b : Option CCoinsCacheEntry} {m : CCoinsCacheEntry}
    (h : mergeCoins a b = some m) :
    b = some m ∨ ∃ e, a = some e ∧ e.dirty = true ∧ m.coins = e.coins ∧ m.dirty = true ∧
      (m.fresh = true → m.coins.isPruned = false) ∧
      ((b = none ∧ m.fresh = true) ∨ ∃ p, b = some p ∧ m.fresh = p.fresh) := by
  cases a with
  | none => exact Or.inl h
  | some e =>
    cases b with
    | none =>
      simp only [mergeCoins] at h
      split at h
      · rename_i hcond
        cases h
        rw [Bool.and_eq_true, Bool.not_eq_true'] at hcond
        exact Or.inr ⟨e, rfl, hcond.1, rfl, rfl, fun _ => hcond.2, Or.inl ⟨rfl, rfl⟩⟩
      · cases h
    | some p =>
      simp only [mergeCoins] at h
      split at h
      · rename_i hd
        split at h
        · cases h
        · rename_i hcond
          cases h
          refine Or.inr ⟨e, rfl, hd, rfl, rfl, fun hf => ?_, Or.inr ⟨p, rfl, rfl⟩⟩
          dsimp only at hf
          rw [hf, Bool.true_and, Bool.not_eq_true] at hcond
          exact hcond
      · exact Or.inl h

/-- A child's entry that is not fresh has one in the parent, so the assertion holds. -/
theorem freshAsserted_of_wf (hc : Layers.LayerWf K (p.view base) (p :: ls) c) :
    FreshAsserted p c := by
  intro txid e he _ hnone _
  by_contra hf
  rw [Bool.not_eq_true] at hf
  have hheld := hc.pulled txid e he hf p rfl
  rw [hnone] at hheld
  cases hheld

/-- Under a fresh entry that the parent lacks nothing is unspent. -/
theorem base_isPruned (hc : Layers.LayerWf K (p.view base) (p :: ls) c) {txid : Uint256}
    {e : CCoinsCacheEntry} (he : c.cacheCoins txid = some e) (hnone : p.cacheCoins txid = none)
    {k : CCoins} (hk : base.getCoins txid = some k) : k.isPruned = true := by
  have hf : e.fresh = true := by
    by_contra hf
    rw [Bool.not_eq_true] at hf
    have hheld := hc.pulled txid e he hf p rfl
    rw [hnone] at hheld
    cases hheld
  refine hc.fresh.fresh txid e he hf k ?_
  simp only [view, hnone, hk]

/-- The parent stays well formed. -/
theorem layerWf_batchWrite (hc : Layers.LayerWf K (p.view base) (p :: ls) c)
    (hp : Layers.LayerWf K base ls p) : Layers.LayerWf K base ls (p.batchWrite c) := by
  refine ⟨⟨?_, ?_, ?_⟩, ?_, ?_, ?_, ?_⟩
  · intro txid m hm hf k hk
    rcases mergeCoins_eq_some hm with hold | ⟨e, he, -, -, -, -, ⟨hnone, -⟩ | ⟨q, hq, hfq⟩⟩
    · exact hp.fresh.fresh txid m hold hf k hk
    · exact base_isPruned hc he hnone hk
    · exact hp.fresh.fresh txid q hq (hfq ▸ hf) k hk
  · intro txid m hm hf
    rcases mergeCoins_eq_some hm with hold | ⟨e, -, -, -, -, -, ⟨-, hfresh⟩ | ⟨q, hq, hfq⟩⟩
    · exact hp.fresh.known txid m hold hf
    · rw [hf] at hfresh
      cases hfresh
    · exact hp.fresh.known txid q hq (hfq ▸ hf)
  · intro txid m hm hf hnone
    rcases mergeCoins_eq_some hm with hold | ⟨e, -, -, -, -, hpr, -⟩
    · exact hp.fresh.kept txid m hold hf hnone
    · exact hpr hf
  · intro txid m hm hf
    rcases mergeCoins_eq_some hm with hold | ⟨e, -, -, -, -, -, ⟨-, hfresh⟩ | ⟨q, hq, hfq⟩⟩
    · exact hp.pulled txid m hold hf
    · rw [hf] at hfresh
      cases hfresh
    · exact hp.pulled txid q hq (hfq ▸ hf)
  · intro txid m hm hd
    rcases mergeCoins_eq_some hm with hold | ⟨e, -, -, -, hdirty, -⟩
    · exact hp.clean txid m hold hd
    · rw [hd] at hdirty
      cases hdirty
  · intro txid m hm hd
    rcases mergeCoins_eq_some hm with hold | ⟨e, he, hde, hcoins, -⟩
    · exact hp.modified txid m hold hd
    · rw [hcoins]
      exact hc.modified txid e he hde
  · intro ty nf m hm hd
    simp only [batchWrite] at hm
    cases he : c.cacheNullifiers ty nf with
    | none =>
      rw [he] at hm
      exact hp.nullifier ty nf m hm hd
    | some e =>
      cases hq : p.cacheNullifiers ty nf with
      | none =>
        simp only [he, hq, mergeNullifier] at hm
        split at hm
        · cases hm
          cases hd
        · cases hm
      | some q =>
        simp only [he, hq, mergeNullifier] at hm
        split at hm
        · cases hm
          cases hd
        · cases hm
          exact hp.nullifier ty nf m hq hd

/-- The unspent records of the parent after a write are those of the child before. -/
theorem unspent_batchWrite (hc : Layers.LayerWf K (p.view base) (p :: ls) c)
    (hp : Layers.LayerWf K base ls p) (txid : Uint256) :
    (((p.batchWrite c).view base).getCoins txid).bind CCoins.unspent =
      ((c.view (p.view base)).getCoins txid).bind CCoins.unspent := by
  cases he : c.cacheCoins txid with
  | none => simp only [view, batchWrite, he, mergeCoins]
  | some e =>
    cases hd : e.dirty with
    | false =>
      -- a copy is dropped, and what it was copied from is still there
      have hcopy := hc.clean txid e he hd
      cases hq : p.cacheCoins txid with
      | none =>
        simp only [view, hq] at hcopy
        simp [view, batchWrite, he, hq, mergeCoins, hd, hcopy]
      | some q =>
        simp only [view, hq] at hcopy
        simp [view, batchWrite, he, hq, mergeCoins, hd, hcopy]
    | true =>
      have hbase : e.coins.isPruned = true → (∀ k, base.getCoins txid = some k →
          k.isPruned = true) → (base.getCoins txid).bind CCoins.unspent = e.coins.unspent := by
        intro hpr hk
        rw [CCoins.unspent_of_isPruned hpr]
        cases hb : base.getCoins txid with
        | none => rfl
        | some k => exact CCoins.unspent_of_isPruned (hk k hb)
      cases hpr : e.coins.isPruned with
      | false =>
        cases hq : p.cacheCoins txid with
        | none => simp [view, batchWrite, he, hq, mergeCoins, hd, hpr]
        | some q => simp [view, batchWrite, he, hq, mergeCoins, hd, hpr]
      | true =>
        cases hq : p.cacheCoins txid with
        | none =>
          simp only [view, batchWrite, he, hq, mergeCoins, hd, hpr, Bool.not_true, Bool.and_false,
            Bool.false_eq_true, if_false, Option.bind_some]
          exact hbase hpr fun k hk => base_isPruned hc he hq hk
        | some q =>
          cases hf : q.fresh with
          | false => simp [view, batchWrite, he, hq, mergeCoins, hd, hpr, hf]
          | true =>
            -- the parent's entry is erased, and nothing under it is unspent
            simp only [view, batchWrite, he, hq, mergeCoins, hd, hpr, hf, Bool.and_self, if_true,
              Option.bind_some]
            exact hbase hpr fun k hk => hp.fresh.fresh txid q hq hf k hk

/-- The nullifiers of the parent after a write are those of the child before. -/
theorem getNullifier_batchWrite (hc : Layers.LayerWf K (p.view base) (p :: ls) c)
    (ty : ShieldedType) (nf : Uint256) :
    ((p.batchWrite c).view base).getNullifier ty nf =
      (c.view (p.view base)).getNullifier ty nf := by
  cases he : c.cacheNullifiers ty nf with
  | none => simp only [view, batchWrite, he, mergeNullifier]
  | some e =>
    cases hd : e.dirty with
    | false =>
      have hcopy := hc.nullifier ty nf e he hd
      cases hq : p.cacheNullifiers ty nf with
      | none =>
        simp only [view, hq] at hcopy
        simp [view, batchWrite, he, hq, mergeNullifier, hd, hcopy]
      | some q =>
        simp only [view, hq] at hcopy
        simp [view, batchWrite, he, hq, mergeNullifier, hd, hcopy]
    | true =>
      cases hq : p.cacheNullifiers ty nf with
      | none => simp [view, batchWrite, he, hq, mergeNullifier, hd]
      | some q =>
        simp only [view, batchWrite, he, hq, mergeNullifier, hd, Bool.true_and]
        split
        · rename_i heq
          split at heq
          · cases heq
            rfl
          · rename_i hne
            cases heq
            simpa using hne
        · rename_i heq
          split at heq <;> cases heq

end CCoinsViewCache

/-! ## Writing a cache to the database -/

namespace CCoinsViewDB

variable {P : TreeHashes} {d : CCoinsViewDB} {c : CCoinsViewCache}

/-- A cache over a database whose modified records the encoding represents. -/
abbrev CacheOver (P : TreeHashes) (d : CCoinsViewDB) (c : CCoinsViewCache) : Prop :=
  Layers.LayerWf (fun k => k.stored = k) (d.view P) [] c

theorem unspent_batchWrite (hc : CacheOver P d c) (txid : Uint256) :
    (((d.batchWrite P c).view P).getCoins txid).bind CCoins.unspent =
      ((c.view (d.view P)).getCoins txid).bind CCoins.unspent := by
  cases he : c.cacheCoins txid with
  | none => simp only [view, CCoinsViewCache.view, batchWrite, he]
  | some e =>
    cases hd : e.dirty with
    | false =>
      have hcopy := hc.clean txid e he hd
      simp only [view] at hcopy
      simp [view, CCoinsViewCache.view, batchWrite, he, hd, hcopy]
    | true =>
      have hstored := (hc.modified txid e he hd).2
      cases hpr : e.coins.isPruned with
      | false => simp [view, CCoinsViewCache.view, batchWrite, he, hd, hpr, hstored]
      | true =>
        simp [view, CCoinsViewCache.view, batchWrite, he, hd, hpr, CCoins.unspent_of_isPruned hpr]

theorem getNullifier_batchWrite (hc : CacheOver P d c) (ty : ShieldedType) (nf : Uint256) :
    ((d.batchWrite P c).view P).getNullifier ty nf = (c.view (d.view P)).getNullifier ty nf := by
  cases he : c.cacheNullifiers ty nf with
  | none => simp only [view, CCoinsViewCache.view, batchWrite, he]
  | some e =>
    cases hd : e.dirty with
    | false =>
      have hcopy := hc.nullifier ty nf e he hd
      simp only [view] at hcopy
      simp [view, CCoinsViewCache.view, batchWrite, he, hd, hcopy]
    | true => simp [view, CCoinsViewCache.view, batchWrite, he, hd]

/-- The database holds records of its own encoding after a write. -/
theorem stored_batchWrite (hc : CacheOver P d c)
    (hd : ∀ txid k, d.coins txid = some k → k.stored = k) (txid : Uint256) (k : CCoins)
    (hk : (d.batchWrite P c).coins txid = some k) : k.stored = k := by
  simp only [batchWrite] at hk
  cases he : c.cacheCoins txid with
  | none =>
    rw [he] at hk
    exact hd txid k hk
  | some e =>
    rw [he] at hk
    dsimp only at hk
    split at hk
    · rename_i hdirty
      have hstored := (hc.modified txid e he hdirty).2
      split at hk
      · cases hk
      · cases hk
        rw [hstored, hstored]
    · exact hd txid k hk

end CCoinsViewDB

/-! ## The flat map -/

/-- One map of unspent records and one set of spent nullifiers. -/
structure FlatCoins where
  /-- The unspent records. -/
  coins : Uint256 → Option CCoins
  /-- Whether a nullifier is spent. -/
  nullifiers : ShieldedType → Uint256 → Bool

namespace FlatCoins

/-- Modify a record, an empty one if there is none, and trim it. -/
def modifyCoins (m : FlatCoins) (txid : Uint256) (f : CCoins → CCoins) : FlatCoins :=
  { m with
    coins := Function.update m.coins txid (f ((m.coins txid).getD {})).cleanup.unspent }

/-- Mark the nullifiers of a transaction. -/
def setNullifiers (m : FlatCoins) (tx : CTransaction) (spent : Bool) : FlatCoins :=
  { m with
    nullifiers := fun ty nf => if nf ∈ tx.nullifiers ty then spent else m.nullifiers ty nf }

/-- Only two of the operations concern the flat map. -/
def step (m : FlatCoins) : CacheOp → FlatCoins
  | .modifyCoins txid f => m.modifyCoins txid f
  | .setNullifiers tx spent => m.setNullifiers tx spent
  | _ => m

/-- The flat map after a list of operations. -/
def run (m : FlatCoins) (ops : List CacheOp) : FlatCoins :=
  ops.foldl step m

end FlatCoins

/-- What the view at the bottom can represent: everything, or what the encoding of
the database gives back. -/
def Bottom.Keeps : Bottom → CCoins → Prop
  | .view _, _ => True
  | .db _, k => k.stored = k

/-- The view at the bottom answers with records it can represent. -/
def Bottom.Kept (P : TreeHashes) (b : Bottom) : Prop :=
  ∀ txid k, (b.answers P).getCoins txid = some k → b.Keeps k

/-- Fully spent records at the bottom have no output slots left. -/
def Bottom.Trimmed (P : TreeHashes) (b : Bottom) : Prop :=
  ∀ txid k, (b.answers P).getCoins txid = some k → k.isPruned = true → k.vout = []

/-- A write keeps a database a database and a plain view as it is. -/
def Bottom.Becomes (b b' : Bottom) : Prop :=
  b' = b ∨ ∃ d d', b = .db d ∧ b' = .db d'

theorem Bottom.Becomes.trans {b b' b'' : Bottom} (h : b.Becomes b') (h' : b'.Becomes b'') :
    b.Becomes b'' := by
  rcases h' with rfl | ⟨d, d', rfl, rfl⟩
  · exact h
  · rcases h with hb | ⟨e, e', rfl, -⟩
    · exact Or.inr ⟨d, d', hb.symm, rfl⟩
    · exact Or.inr ⟨e, d', rfl, rfl⟩

theorem Bottom.Becomes.keeps_eq {b b' : Bottom} (h : b.Becomes b') : b'.Keeps = b.Keeps := by
  rcases h with rfl | ⟨d, d', rfl, rfl⟩
  · rfl
  · rfl

/-- Records in the encoding of the database are trimmed. -/
theorem Bottom.Becomes.trimmed {P : TreeHashes} {b b' : Bottom} (h : b.Becomes b')
    (hb : b.Trimmed P) (hkept : b'.Kept P) : b'.Trimmed P := by
  rcases h with rfl | ⟨d, d', rfl, rfl⟩
  · exact hb
  · intro txid k hk hpr
    exact CCoins.vout_eq_nil (CCoins.cleanup_of_stored (hkept txid k hk)) hpr

namespace CacheOp

/-- Modifications leave records that the bottom can represent. -/
def KeptBy (b : Bottom) : CacheOp → Prop
  | .modifyCoins _ f => ∀ k, b.Keeps k → b.Keeps (f k).cleanup
  | _ => True

theorem KeptBy.congr {b b' : Bottom} {op : CacheOp}
    (h : op.KeptBy b) (hb : b.Becomes b') : op.KeptBy b' := by
  cases op with
  | modifyCoins txid f =>
    intro k hk
    rw [hb.keeps_eq] at hk ⊢
    exact h k hk
  | _ => trivial

/-- Modifications treat a fully spent record as an empty one. -/
def IgnoresSpent : CacheOp → Prop
  | .modifyCoins _ f => ∀ k, k.isPruned = true → (f k).cleanup.unspent = (f {}).cleanup.unspent
  | _ => True

/-- The operations on the top layer that cannot fail, and `Flush`. -/
def atTop : CacheOp → Bool
  | .popAnchor .. | .push | .pop => false
  | _ => true

end CacheOp

end IndexChain
