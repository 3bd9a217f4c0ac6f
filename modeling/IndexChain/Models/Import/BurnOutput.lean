import IndexChain.Core.VarInt
import IndexChain.Models.CC.TokenOprets
import IndexChain.Models.Import.ImportValue

/-!
# Burn outputs

The three forms of `MakeBurnOutput` of `importcoin.cpp` write the same fields after the eval
code. The forms for gateways and for receipts write more after them, at which
`UnmarshalBurnTx` does not look: it accepts what is left over.
-/

namespace IndexChain

open IndexChain.Core Reader

/-- `SerializeHash(payouts)`. -/
def hashPayouts (payouts : List CTxOut) : Uint256 :=
  Wire.serializeHash (writeVector
    (fun out => writeInt 8 out.nValue ++ writeBytes out.scriptPubKey) payouts)

/-- What every burn output starts with. -/
def burnFields (targetCCid : UInt32) (targetSymbol : List UInt8) (payouts : List CTxOut)
    (rawproof : List UInt8) : List UInt8 :=
  [ImportEnv.evalImportcoin] ++ (writeVarInt targetCCid.toNat ++ (writeBytes targetSymbol ++
    (writeUint256 (hashPayouts payouts) ++ writeBytes rawproof)))

/-- What the burn output of a gateway has besides. -/
structure GatewayBurn where
  /-- The binding of the gateway. -/
  bindtxid : Uint256
  /-- Its publishers. -/
  publishers : List CPubKey
  /-- Transactions of the oracle. -/
  txids : List Uint256
  /-- The transaction on the other chain. -/
  burntxid : Uint256
  /-- Its height. -/
  height : Int32
  /-- Its output. -/
  burnvout : Int32
  /-- Its bytes. -/
  rawburntx : List UInt8
  /-- Who is paid. -/
  destpub : CPubKey
  /-- What is paid. -/
  amount : Int64

/-- The fields of a gateway in their order. -/
def GatewayBurn.write (g : GatewayBurn) : List UInt8 :=
  writeUint256 g.bindtxid ++ (writeVector writeBytes g.publishers ++
    (writeVector writeUint256 g.txids ++ (writeUint256 g.burntxid ++
      (writeInt 4 g.height.toInt ++ (writeInt 4 g.burnvout.toInt ++ (writeBytes g.rawburntx ++
        (writeBytes g.destpub ++ writeInt 8 g.amount.toInt)))))))

/-- `MakeBurnOutput`. -/
def makeBurnOutput (value : Int) (targetCCid : UInt32) (targetSymbol : List UInt8)
    (payouts : List CTxOut) (rawproof : List UInt8) : CTxOut where
  nValue := value
  scriptPubKey := CScript.opReturn (burnFields targetCCid targetSymbol payouts rawproof)

/-- `MakeBurnOutput` for a gateway. -/
def makeBurnOutputGateway (value : Int) (targetCCid : UInt32) (targetSymbol : List UInt8)
    (payouts : List CTxOut) (rawproof : List UInt8) (gateway : GatewayBurn) : CTxOut where
  nValue := value
  scriptPubKey := CScript.opReturn
    (burnFields targetCCid targetSymbol payouts rawproof ++ gateway.write)

/-- `MakeBurnOutput` with a receipt. -/
def makeBurnOutputReceipt (value : Int) (targetCCid : UInt32) (targetSymbol : List UInt8)
    (payouts : List CTxOut) (rawproof srcaddr receipt : List UInt8) : CTxOut where
  nValue := value
  scriptPubKey := CScript.opReturn (burnFields targetCCid targetSymbol payouts rawproof ++
    (writeBytes srcaddr ++ writeBytes receipt))

/-- A burn output of one of the three forms and its data. -/
inductive IsBurnOutput (targetCCid : UInt32) (targetSymbol : List UInt8) (payouts : List CTxOut)
    (rawproof : List UInt8) : CTxOut → List UInt8 → Prop
  | coins (value : Int) :
      IsBurnOutput targetCCid targetSymbol payouts rawproof
        (makeBurnOutput value targetCCid targetSymbol payouts rawproof)
        (burnFields targetCCid targetSymbol payouts rawproof)
  | gateway (value : Int) (gateway : GatewayBurn) :
      IsBurnOutput targetCCid targetSymbol payouts rawproof
        (makeBurnOutputGateway value targetCCid targetSymbol payouts rawproof gateway)
        (burnFields targetCCid targetSymbol payouts rawproof ++ gateway.write)
  | receipt (value : Int) (srcaddr receipt : List UInt8) :
      IsBurnOutput targetCCid targetSymbol payouts rawproof
        (makeBurnOutputReceipt value targetCCid targetSymbol payouts rawproof srcaddr receipt)
        (burnFields targetCCid targetSymbol payouts rawproof ++
          (writeBytes srcaddr ++ writeBytes receipt))

/-! ## Fields -/

/-- A digit that is put behind a number. -/
theorem toNat_pushDigit (n : UInt32) (c : UInt8) :
    ((n <<< 7) ||| (c &&& 0x7f).toUInt32).toNat = (n.toNat * 128 + c.toNat % 128) % 2 ^ 32 := by
  have hdigit : (c &&& 0x7f).toUInt32.toNat = c.toNat % 128 := by
    rw [UInt8.toNat_toUInt32, UInt8.toNat_and]
    exact Nat.and_two_pow_sub_one_eq_mod c.toNat 7
  have hshift : (n <<< 7).toNat = 2 ^ 7 * (n.toNat % 2 ^ 25) := by
    rw [UInt32.toNat_shiftLeft]
    change (n.toNat <<< 7) % 2 ^ 32 = _
    rw [Nat.shiftLeft_eq]
    omega
  have hlt : c.toNat % 128 < 2 ^ 7 := Nat.mod_lt _ (by decide)
  rw [UInt32.toNat_or, hdigit, hshift, ← Nat.two_pow_add_eq_or_of_lt hlt]
  omega

/-- The high bit of a byte. -/
theorem and_0x80_ne_zero (c : UInt8) : c &&& 0x80 ≠ 0 ↔ 128 ≤ c.toNat := by
  have hall : ∀ i : Fin 256, UInt8.ofFin i &&& 0x80 ≠ 0 ↔ 128 ≤ i.val := by decide +kernel
  exact hall c.toFin

/-- A number is read into a register of 32 bits. -/
theorem readVarInt_eq (n : UInt32) (bs : List UInt8) :
    readVarInt n bs = (varIntFrom 32 n.toNat bs).map fun p => (UInt32.ofNat p.1, p.2) := by
  induction bs generalizing n with
  | nil => rfl
  | cons c rest ih =>
    unfold readVarInt varIntFrom
    dsimp only
    rw [← toNat_pushDigit]
    generalize (n <<< 7) ||| (c &&& 0x7f).toUInt32 = m
    by_cases hmore : 128 ≤ c.toNat
    · rw [if_pos ((and_0x80_ne_zero c).2 hmore), if_pos hmore, ih, UInt32.toNat_add]
      rfl
    · rw [if_neg (mt (and_0x80_ne_zero c).1 hmore), if_neg hmore, Option.map_some,
        UInt32.ofNat_toNat]

theorem reads_readVarInt (n : UInt32) : Reads (readVarInt 0) (writeVarInt n.toNat) n := by
  intro rest
  have hread : varIntFrom 32 0 (writeVarInt n.toNat ++ rest) = some (n.toNat, rest) :=
    Reads.varInt n.toNat_lt rest
  rw [readVarInt_eq, UInt32.toNat_zero, hread, Option.map_some, UInt32.ofNat_toNat]

/-- The fields of a burn output are read back when the symbol and the proof are not too long. -/
theorem readsWhen_burnFields (targetCCid : UInt32) (targetSymbol rawproof : List UInt8)
    (payouts : List CTxOut)
    (hshort : (burnFields targetCCid targetSymbol payouts rawproof).length < 2 ^ 32) :
    ReadsWhen (targetSymbol.length ≤ maxSize ∧ rawproof.length ≤ maxSize) readBurnData
      (burnFields targetCCid targetSymbol payouts rawproof)
      { targetSymbol := stringOfBytes targetSymbol, targetCcid := targetCCid
        payoutsHash := hashPayouts payouts, rawproof := rawproof } := by
  simp only [burnFields, writeBytes, List.length_append] at hshort
  refine ReadsWhen.bind_always (Reads.byte _) (ReadsWhen.bind_always (reads_readVarInt _) ?_)
  refine (ReadsWhen.bytes (by omega)).bind ?_
  refine ReadsWhen.bind_always (inverts_uint256.reads _ trivial) ?_
  exact (ReadsWhen.bytes (by omega)).bind_pure (Reads.pure _)

/-! ## Burn transactions -/

section

variable {targetCCid : UInt32} {targetSymbol rawproof : List UInt8} {payouts : List CTxOut}
  {out : CTxOut} {data : List UInt8}

/-- A burn output has its fields and perhaps more. -/
theorem IsBurnOutput.fields (h : IsBurnOutput targetCCid targetSymbol payouts rawproof out data) :
    out.scriptPubKey = CScript.opReturn data ∧
      ∃ more, data = burnFields targetCCid targetSymbol payouts rawproof ++ more := by
  cases h with
  | coins value => exact ⟨rfl, [], (List.append_nil _).symm⟩
  | gateway value gateway => exact ⟨rfl, gateway.write, rfl⟩
  | receipt value srcaddr receipt => exact ⟨rfl, writeBytes srcaddr ++ writeBytes receipt, rfl⟩

/-- The fields of a burn output that ends a transaction are read exactly when the symbol and
the proof are not too long. -/
theorem unmarshalBurnTx_iff {burnTx : CTransaction}
    (h : IsBurnOutput targetCCid targetSymbol payouts rawproof out data)
    (hlast : burnTx.vout.getLast? = some out)
    (hpush : CScript.getOpReturnData out.scriptPubKey = data) :
    BurnData.unmarshalBurnTx burnTx =
        some { targetSymbol := stringOfBytes targetSymbol, targetCcid := targetCCid
               payoutsHash := hashPayouts payouts, rawproof := rawproof } ↔
      targetSymbol.length ≤ maxSize ∧ rawproof.length ≤ maxSize := by
  obtain ⟨hscript, more, rfl⟩ := h.fields
  have hopret : lastOpret burnTx = burnFields targetCCid targetSymbol payouts rawproof ++ more := by
    unfold lastOpret
    rw [hlast]
    exact hpush
  rw [hscript, CScript.getOpReturnData_opReturn_iff, List.length_append] at hpush
  have hread := readsWhen_burnFields targetCCid targetSymbol rawproof payouts (by omega)
  have hburn : burnOpret burnTx = some (lastOpret burnTx) := by
    unfold burnOpret
    rw [hopret, if_neg (by simp [burnFields, ImportEnv.evalImportcoin, evalTokens])]
  have hhead : (burnFields targetCCid targetSymbol payouts rawproof ++ more).head? =
      some ImportEnv.evalImportcoin := rfl
  unfold BurnData.unmarshalBurnTx
  rw [hburn, hopret]
  dsimp only
  rw [if_pos hhead]
  constructor
  · intro hsome
    by_contra hbig
    rw [hread.refuses hbig more] at hsome
    cases hsome
  · intro hsizes
    rw [hread.reads hsizes more, Option.map_some]

end

end IndexChain
