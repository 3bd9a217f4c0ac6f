import IndexChain.Models.Notary.StateFile

/-!
# Torn records in the state file

A read that fails is counted and otherwise ignored: a record that is cut off can still add an
event, made of what happens to be in memory, and what is left of it is read as further
records. `ignoresTail_iff` states for which tails nothing happens.
-/

namespace IndexChain.Notary

open IndexChain.Core

/-! ## Truncated records -/

/-- What `memread` leaves of the data. -/
def skip (size : Nat) (data : List UInt8) : List UInt8 :=
  if size ≤ data.length then data.drop size else data

/-- The first bytes of the records that are handed on whatever follows. -/
def eventLetters : List UInt8 := [0x4e, 0x4d, 0x4b, 0x54, 0x52]

namespace FileReader

variable (rd : FileReader)

/-- No event is added for one of these records: the node's own chain keeps no log, or
`komodo_eventadd_notarized` does not take the checkpoint. -/
def Dropped (env : ReaderEnv) (stack : StateLocals) (func : UInt8) (data : List UInt8) : Prop :=
  let height := rd.read stack.ht 4 data
  (func ∈ [0x4e, 0x4d] ∧ env.addsNotarized (rd.readNotarized stack (func == 0x4d)
      (int32Of height.bytes) height.rest).1 = false) ∨
    env.assetchainsSymbol = []

/-- What is left after one of these records. -/
def restOfEvent (stack : StateLocals) (func : UInt8) (data : List UInt8) : List UInt8 :=
  let data := (rd.read stack.ht 4 data).rest
  if func = 0x52 then
    let olen := rd.read stack.olen 2 (rd.read stack.ovalue 8 (rd.read stack.v 2
      (rd.read stack.txid 32 data).rest).rest).rest
    (rd.read stack.opret (leNat olen.bytes) olen.rest).rest
  else if func = 0x4b then (rd.read stack.kheight 4 data).rest
  else if func = 0x54 then
    (rd.read stack.ktimestamp 4 (rd.read stack.kheight 4 data).rest).rest
  else (rd.readNotarized stack (func == 0x4d) 0 data).2

variable {env : ReaderEnv} {stack : StateLocals} {func : UInt8} {data : List UInt8}

theorem dropped_notarized (hfunc : func ∈ [0x4e, 0x4d]) :
    rd.Dropped env stack func data ↔
      env.addsNotarized (rd.readNotarized stack (func == 0x4d)
        (int32Of (rd.read stack.ht 4 data).bytes) (rd.read stack.ht 4 data).rest).1 = false ∨
        env.assetchainsSymbol = [] := by
  unfold Dropped
  simp only [hfunc, true_and]

theorem dropped_other (hfunc : func ∉ [0x4e, 0x4d]) :
    rd.Dropped env stack func data ↔ env.assetchainsSymbol = [] := by
  unfold Dropped
  simp only [hfunc, false_and, false_or]

end FileReader

/-- A first byte, and what follows it, that add nothing when they are read from memory, with
what is left after them. The height, the number of keys or prices, and whatever of the rest
is there in full have been skipped. What is dropped is dropped by the tests before the log. -/
inductive SilentRecord (env : ReaderEnv) (stack : StateLocals) :
    UInt8 → List UInt8 → List UInt8 → Prop
  | other {func : UInt8} {data : List UInt8}
      (hfunc : func ∉ [0x50, 0x4e, 0x4d, 0x55, 0x4b, 0x54, 0x52, 0x56]) :
      SilentRecord env stack func data (skip 4 data)
  | utxo {data bs : List UInt8} {n nid : UInt8} (head : skip 4 data = n :: nid :: bs) :
      SilentRecord env stack 0x55 data (skip 32 (skip 8 bs))
  | keysShort {data bs : List UInt8} {num : UInt8} (head : skip 4 data = num :: bs)
      (short : 64 < num.toNat ∨ bs.length < 33 * num.toNat) :
      SilentRecord env stack 0x50 data bs
  | keysDropped {data bs : List UInt8} {num : UInt8} (head : skip 4 data = num :: bs)
      (hnum : num.toNat ≤ 64) (hlen : 33 * num.toNat ≤ bs.length)
      (dropped : env.addsPubkeys = false ∨ env.assetchainsSymbol = []) :
      SilentRecord env stack 0x50 data (bs.drop (33 * num.toNat))
  | pricesShort {data bs : List UInt8} {num : UInt8} (head : skip 4 data = num :: bs)
      (short : 128 < num.toNat ∨ bs.length < 4 * num.toNat) :
      SilentRecord env stack 0x56 data bs
  | pricesDropped {data bs : List UInt8} {num : UInt8} (head : skip 4 data = num :: bs)
      (hnum : num.toNat ≤ 128) (hlen : 4 * num.toNat ≤ bs.length)
      (dropped : num.toNat ≠ 35 ∨ env.assetchainsSymbol = []) :
      SilentRecord env stack 0x56 data (bs.drop (4 * num.toNat))
  | event {func : UInt8} {data : List UInt8} (hfunc : func ∈ eventLetters)
      (dropped : memory.Dropped env stack func data) :
      SilentRecord env stack func data (memory.restOfEvent stack func data)

/-- Bytes that add nothing when they are read from memory. -/
inductive Silent (env : ReaderEnv) (stack : Nat → StateLocals) : List UInt8 → Prop
  | nil : Silent env stack []
  | cons {func : UInt8} {data rest : List UInt8}
      (head : SilentRecord env (stack data.length) func data rest)
      (tail : Silent env stack rest) : Silent env stack (func :: data)

/-- A reader adds the events of complete records, and nothing for what follows them. -/
def IgnoresTail (rd : FileReader) (env : ReaderEnv) (stack : Nat → StateLocals)
    (records : List StateRecord) (tail : List UInt8) : Prop :=
  ∃ events, rd.parseFile env stack (fileBytes records) = .ok (events, []) ∧
    rd.parseFile env stack (fileBytes records ++ tail) = .ok (events, [])

variable {env : ReaderEnv}

/-- Only the tail matters. -/
theorem ignoresTail_iff_parseFile {rd : FileReader} {stack : Nat → StateLocals}
    {records : List StateRecord} {tail : List UInt8} (hrecords : ∀ r ∈ records, r.Typed) :
    IgnoresTail rd env stack records tail ↔
      rd.parseFile env stack tail = .ok ([], []) := by
  have hall : rd.parseFile env stack (fileBytes records) =
      .ok (records.flatMap (StateRecord.events env), []) := by
    calc
      _ = rd.parseFile env stack (fileBytes records ++ []) := by rw [List.append_nil]
      _ = .ok (records.flatMap (StateRecord.events env) ++ [], []) :=
        rd.parseFile_fileBytes hrecords []
      _ = _ := by rw [List.append_nil]
  unfold IgnoresTail
  rw [hall, rd.parseFile_fileBytes hrecords]
  constructor
  · rintro ⟨events, hevents, htail⟩
    cases hevents
    rw [except_bind_eq_ok] at htail
    obtain ⟨⟨events', rest⟩, hparse, htail⟩ := htail
    obtain ⟨hevents', hrest⟩ := Prod.mk.inj (Except.ok.inj htail)
    obtain rfl : events' = [] := List.append_right_eq_self.1 hevents'
    obtain rfl : rest = [] := hrest
    exact hparse
  · intro hparse
    refine ⟨_, rfl, ?_⟩
    rw [hparse, except_ok_bind, List.append_nil]

theorem skip_eq_rest (dest : ScriptBuf) (size : Nat) (data : List UInt8) :
    (memory.read dest size data).rest = skip size data := by
  change (memread dest size data).rest = _
  unfold memread skip
  split <;> rfl

/-- A read that does not fit leaves the destination and the position. -/
theorem memory_read_short (dest : ScriptBuf) {size : Nat} {data : List UInt8}
    (h : ¬ size ≤ data.length) :
    memory.read dest size data = { ok := false, bytes := dest.slice 0 size, rest := data } :=
  if_neg h

/-- Keys from memory. -/
theorem parsePubkeys_silent {stack : StateLocals} {ht : Int} {func : UInt8}
    {data rest : List UInt8} (hfunc : func = 0x50) :
    memory.parsePubkeys env stack ht (skip 4 data) = .ok ([], rest) ↔
      SilentRecord env stack func data rest := by
  subst hfunc
  unfold FileReader.parsePubkeys
  constructor
  · intro h
    rw [except_bind_eq_ok] at h
    obtain ⟨⟨num, bs⟩, hget, h⟩ := h
    cases hdata : skip 4 data with
    | nil =>
      rw [hdata] at hget
      cases hget
    | cons num bs =>
      rw [hdata] at hget
      cases hget
      dsimp only at h
      split at h
      · rename_i hnum
        by_cases hlen : 33 * num.toNat ≤ bs.length
        · rw [memory.read_of_le _ hlen, Bool.true_and] at h
          cases hadds : env.addsPubkeys with
          | false =>
            rw [hadds, if_neg Bool.false_ne_true] at h
            cases h
            exact SilentRecord.keysDropped hdata hnum hlen (Or.inl hadds)
          | true =>
            rw [hadds, if_pos rfl] at h
            obtain ⟨hevents, hrest⟩ := Prod.mk.inj (Except.ok.inj h)
            rw [← hrest]
            exact SilentRecord.keysDropped hdata hnum hlen
              (Or.inr (env.eventadd_eq_nil.1 hevents))
        · rw [memory_read_short _ hlen] at h
          cases h
          exact SilentRecord.keysShort hdata (Or.inr (Nat.not_le.1 hlen))
      · rename_i hnum
        cases h
        exact SilentRecord.keysShort hdata (Or.inl (Nat.not_le.1 hnum))
  · intro h
    cases h with
    | other hfunc => exact absurd hfunc (by decide)
    | event hfunc dropped => exact absurd hfunc (by decide)
    | keysShort head short =>
      rename_i num
      rw [head, memory.getc_cons]
      dsimp only [except_ok_bind]
      split
      · rename_i hnum
        have hlen : ¬ 33 * num.toNat ≤ rest.length := by omega
        rw [memory_read_short _ hlen]
        rfl
      · rfl
    | keysDropped head hnum hlen dropped =>
      rename_i bs num
      rw [head, memory.getc_cons]
      dsimp only [except_ok_bind]
      rw [if_pos hnum, memory.read_of_le _ hlen, Bool.true_and]
      rcases dropped with hadds | hempty
      · rw [hadds]
        rfl
      · rw [env.eventadd_eq_nil.2 hempty, ite_self]

@[simp] theorem pvalsOf_length (numpvals : Nat) (bs : List UInt8) :
    (pvalsOf numpvals bs).length = numpvals := by
  induction numpvals generalizing bs with
  | zero => rfl
  | succ numpvals ih => simp [pvalsOf, ih]

/-- Prices from memory. -/
theorem parsePricefeed_silent {stack : StateLocals} {ht : Int} {func : UInt8}
    {data rest : List UInt8} (hfunc : func = 0x56) :
    memory.parsePricefeed env stack ht (skip 4 data) = .ok ([], rest) ↔
      SilentRecord env stack func data rest := by
  subst hfunc
  unfold FileReader.parsePricefeed
  constructor
  · intro h
    rw [except_bind_eq_ok] at h
    obtain ⟨⟨numpvals, bs⟩, hget, h⟩ := h
    cases hdata : skip 4 data with
    | nil =>
      rw [hdata] at hget
      cases hget
    | cons num bs =>
      rw [hdata] at hget
      cases hget
      dsimp only at h
      split at h
      · rename_i hnum
        by_cases hlen : 4 * num.toNat ≤ bs.length
        · rw [memory.read_of_le _ hlen, if_pos rfl] at h
          obtain ⟨hevents, hrest⟩ := Prod.mk.inj (Except.ok.inj h)
          rw [env.eventaddPricefeed_eq_nil, pvalsOf_length] at hevents
          rw [← hrest]
          exact SilentRecord.pricesDropped hdata hnum hlen hevents
        · rw [memory_read_short _ hlen] at h
          cases h
          exact SilentRecord.pricesShort hdata (Or.inr (Nat.not_le.1 hlen))
      · rename_i hnum
        cases h
        exact SilentRecord.pricesShort hdata (Or.inl (Nat.not_le.1 hnum))
  · intro h
    cases h with
    | other hfunc => exact absurd hfunc (by decide)
    | event hfunc dropped => exact absurd hfunc (by decide)
    | pricesShort head short =>
      rename_i num
      rw [head, memory.getc_cons]
      dsimp only [except_ok_bind]
      split
      · rename_i hnum
        have hlen : ¬ 4 * num.toNat ≤ rest.length := by omega
        rw [memory_read_short _ hlen]
        rfl
      · rfl
    | pricesDropped head hnum hlen dropped =>
      rename_i bs num
      rw [head, memory.getc_cons]
      dsimp only [except_ok_bind]
      rw [if_pos hnum, memory.read_of_le _ hlen, if_pos rfl,
        env.eventaddPricefeed_eq_nil.2 (by rwa [pvalsOf_length])]

/-- Outputs from memory. -/
theorem parseUtxo_silent {stack : StateLocals} {func : UInt8} {data rest : List UInt8}
    (hfunc : func = 0x55) :
    memory.parseUtxo stack (skip 4 data) = .ok ([], rest) ↔
      SilentRecord env stack func data rest := by
  subst hfunc
  unfold FileReader.parseUtxo
  constructor
  · intro h
    match hdata : skip 4 data with
    | [] =>
      rw [hdata] at h
      cases h
    | [n] =>
      rw [hdata] at h
      cases h
    | n :: nid :: bs =>
      rw [hdata, memory.getc_cons, except_ok_bind] at h
      dsimp only at h
      rw [memory.getc_cons, except_ok_bind] at h
      dsimp only at h
      rw [skip_eq_rest, skip_eq_rest] at h
      cases h
      exact SilentRecord.utxo hdata
  · intro h
    cases h with
    | other hfunc => exact absurd hfunc (by decide)
    | event hfunc dropped => exact absurd hfunc (by decide)
    | utxo head =>
      rw [head, memory.getc_cons, except_ok_bind]
      dsimp only
      rw [memory.getc_cons, except_ok_bind]
      dsimp only
      rw [skip_eq_rest, skip_eq_rest]

/-- A record of an event adds nothing exactly when a test drops the event, be the record cut
off or not. -/
theorem parse_eventLetters (rd : FileReader) {stack : StateLocals} {func : UInt8}
    {data rest : List UInt8} (hfunc : func ∈ eventLetters) :
    rd.parse env stack func data = .ok ([], rest) ↔
      rd.Dropped env stack func data ∧ rest = rd.restOfEvent stack func data := by
  simp only [eventLetters, List.mem_cons, List.not_mem_nil, or_false] at hfunc
  have hpair : ∀ {events : List KomodoEvent} {left : List UInt8} {p : Prop},
      (events = [] ↔ p) →
        ((Except.ok (events, left) : Except Overrun Parsed) = .ok ([], rest) ↔
          p ∧ rest = left) := by
    intro events left p hevents
    rw [Except.ok.injEq, Prod.mk.injEq, hevents, eq_comm (a := left)]
  rcases hfunc with rfl | rfl | rfl | rfl | rfl
  · have hdropped : rd.Dropped env stack 0x4e data ↔ _ := rd.dropped_notarized (by decide)
    exact hpair (env.eventaddNotarized_eq_nil.trans hdropped.symm)
  · have hdropped : rd.Dropped env stack 0x4d data ↔ _ := rd.dropped_notarized (by decide)
    exact hpair (env.eventaddNotarized_eq_nil.trans hdropped.symm)
  · have hdropped : rd.Dropped env stack 0x4b data ↔ _ := rd.dropped_other (by decide)
    exact hpair (env.eventaddKmdheight_eq_nil.trans hdropped.symm)
  · have hdropped : rd.Dropped env stack 0x54 data ↔ _ := rd.dropped_other (by decide)
    exact hpair (env.eventaddKmdheight_eq_nil.trans hdropped.symm)
  · have hdropped : rd.Dropped env stack 0x52 data ↔ _ := rd.dropped_other (by decide)
    exact hpair (env.eventaddOpreturn_eq_nil.trans hdropped.symm)

/-- A round of the loop adds nothing exactly for the silent records. -/
theorem parse_silent {stack : StateLocals} {func : UInt8} {data rest : List UInt8} :
    memory.parse env stack func data = .ok ([], rest) ↔
      SilentRecord env stack func data rest := by
  by_cases hevent : func ∈ eventLetters
  · rw [parse_eventLetters memory hevent]
    constructor
    · rintro ⟨dropped, rfl⟩
      exact SilentRecord.event hevent dropped
    · intro h
      cases h with
      | event hfunc dropped => exact ⟨dropped, rfl⟩
      | other hfunc =>
        simp only [List.mem_cons, List.not_mem_nil, or_false, not_or] at hfunc
        simp [eventLetters, hfunc] at hevent
      | utxo head => exact absurd hevent (by decide)
      | keysShort head short => exact absurd hevent (by decide)
      | keysDropped head hnum hlen dropped => exact absurd hevent (by decide)
      | pricesShort head short => exact absurd hevent (by decide)
      | pricesDropped head hnum hlen dropped => exact absurd hevent (by decide)
  · have hletters := hevent
    simp only [eventLetters, List.mem_cons, List.not_mem_nil, or_false, not_or] at hletters
    obtain ⟨hN, hM, hK, hT, hR⟩ := hletters
    unfold FileReader.parse
    dsimp only
    rw [skip_eq_rest, if_neg hN, if_neg hM, if_neg hK, if_neg hT, if_neg hR]
    by_cases hP : func = 0x50
    · rw [if_pos hP]
      exact parsePubkeys_silent hP
    by_cases hU : func = 0x55
    · rw [if_neg hP, if_pos hU]
      exact parseUtxo_silent hU
    by_cases hV : func = 0x56
    · rw [if_neg hP, if_neg hU, if_pos hV]
      exact parsePricefeed_silent hV
    · rw [if_neg hP, if_neg hU, if_neg hV]
      constructor
      · intro h
        cases h
        exact SilentRecord.other (by simp [hN, hM, hK, hT, hR, hP, hU, hV])
      · intro h
        cases h with
        | other hfunc => rfl
        | event hfunc dropped => exact absurd hfunc hevent
        | utxo head => exact absurd rfl hU
        | keysShort head short => exact absurd rfl hP
        | keysDropped head hnum hlen dropped => exact absurd rfl hP
        | pricesShort head short => exact absurd rfl hV
        | pricesDropped head hnum hlen dropped => exact absurd rfl hV

/-- A file adds nothing exactly when its first record does not, and neither does the rest. -/
theorem parseFile_cons_eq_nil {rd : FileReader} {stack : Nat → StateLocals} {func : UInt8}
    {data : List UInt8} :
    rd.parseFile env stack (func :: data) = .ok ([], []) ↔
      ∃ rest, rd.parse env (stack data.length) func data = .ok ([], rest) ∧
        rd.parseFile env stack rest = .ok ([], []) := by
  rw [rd.parseFile_cons, except_bind_eq_ok]
  constructor
  · rintro ⟨⟨events, rest⟩, hparse, h⟩
    rw [except_bind_eq_ok] at h
    obtain ⟨⟨events', rest'⟩, hfile, h⟩ := h
    obtain ⟨hevents, hrest⟩ := Prod.mk.inj (Except.ok.inj h)
    obtain ⟨rfl, rfl⟩ := List.append_eq_nil_iff.1 hevents
    obtain rfl : rest' = [] := hrest
    exact ⟨rest, hparse, hfile⟩
  · rintro ⟨rest, hparse, hfile⟩
    refine ⟨_, hparse, ?_⟩
    rw [hfile]
    rfl

/-- A file in memory adds nothing exactly when it is silent. -/
theorem parseFile_silent {stack : Nat → StateLocals} {data : List UInt8} :
    memory.parseFile env stack data = .ok ([], []) ↔ Silent env stack data := by
  constructor
  · intro h
    induction hn : data.length using Nat.strong_induction_on generalizing data with
    | _ n ih =>
      cases data with
      | nil => exact Silent.nil
      | cons func data =>
        obtain ⟨rest, hparse, hfile⟩ := parseFile_cons_eq_nil.1 h
        have hlength : rest.length ≤ data.length := memory.parse_length hparse
        have hlt : rest.length < n := by
          rw [← hn]
          exact Nat.lt_succ_of_le hlength
        exact Silent.cons (parse_silent.1 hparse) (ih rest.length hlt hfile rfl)
  · intro h
    induction h with
    | nil => rfl
    | cons head tail ih => exact parseFile_cons_eq_nil.2 ⟨_, parse_silent.2 head, ih⟩

/-! ## The stream -/

theorem drop_eq_rest (dest : ScriptBuf) (size : Nat) (data : List UInt8) :
    (stream.read dest size data).rest = data.drop size := by
  change (fread dest size data).rest = _
  unfold fread
  split
  · rfl
  · rename_i hlt
    exact (List.drop_eq_nil_of_le (Nat.not_le.1 hlt).le).symm

/-- A read that does not fit reads what is left. -/
theorem stream_read_short (dest : ScriptBuf) {size : Nat} {data : List UInt8}
    (h : data.length < size) :
    stream.read dest size data =
      { ok := false, bytes := (dest.memcpy data).slice 0 size, rest := [] } :=
  if_neg (Nat.not_le.2 h)

theorem stream_getc (data : List UInt8) : stream.getc data = .ok (data.head?, data.tail) := by
  cases data with
  | nil => rfl
  | cons b rest => rfl

/-- A record with a count that is cut off has no count, or too little after it. -/
theorem drop_four_cases {height : Int} {num : UInt8} {bs data : List UInt8}
    (hdata : data <+: int32Bytes height ++ num :: bs)
    (hlt : data.length < (int32Bytes height ++ num :: bs).length) :
    data.drop 4 = [] ∨ ∃ ks, data.drop 4 = num :: ks ∧ ks.length < bs.length := by
  have hdrop : data.drop 4 <+: num :: bs := by
    have h := hdata.drop 4
    rwa [List.drop_left' (int32Bytes_length height)] at h
  have hlength : (data.drop 4).length = data.length - 4 := List.length_drop
  cases hks : data.drop 4 with
  | nil => exact Or.inl rfl
  | cons b ks =>
    rw [hks] at hdrop hlength
    obtain ⟨rfl, -⟩ := List.cons_prefix_cons.1 hdrop
    refine Or.inr ⟨ks, rfl, ?_⟩
    simp only [List.length_append, int32Bytes_length, List.length_cons] at hlt hlength
    omega

/-- Keys, prices and outputs that are cut off add nothing when they are read from a stream. -/
theorem stream_parse_short {stack : StateLocals} {r : StateRecord} {data : List UInt8}
    (hr : r.Typed) (hletter : r.letter ∉ eventLetters) (hdata : data <+: r.body)
    (hlt : data.length < r.body.length) :
    stream.parse env stack r.letter data = .ok ([], []) := by
  cases r with
  | T height kmdheight timestamp =>
    exact absurd (by simp [StateRecord.letter, eventLetters]) hletter
  | K height kmdheight => exact absurd (by simp [StateRecord.letter, eventLetters]) hletter
  | R height txid vout value opret =>
    exact absurd (by simp [StateRecord.letter, eventLetters]) hletter
  | N height notarizedHeight notarizedHash notarizedDesttxid =>
    exact absurd (by simp [StateRecord.letter, eventLetters]) hletter
  | M height notarizedHeight notarizedHash notarizedDesttxid MoM MoMdepth =>
    exact absurd (by simp [StateRecord.letter, eventLetters]) hletter
  | U height numvouts notaryid voutmask txid =>
    change stream.parseUtxo stack _ = _
    unfold FileReader.parseUtxo
    simp only [stream_getc, except_ok_bind, drop_eq_rest, List.tail_drop, List.drop_drop]
    have hlength : data.length ≤ 46 := by
      simp [StateRecord.body] at hlt
      omega
    rw [List.drop_eq_nil_of_le hlength]
  | P height pubkeys =>
    obtain ⟨-, -, hle⟩ := hr
    have hnum : (UInt8.ofNat pubkeys.length).toNat = pubkeys.length :=
      UInt8.toNat_ofNat_of_lt' (by change _ < 256; omega)
    change stream.parsePubkeys env stack _ _ = _
    unfold FileReader.parsePubkeys
    rw [drop_eq_rest, stream_getc, except_ok_bind]
    rcases drop_four_cases hdata hlt with hnil | ⟨ks, hks, hshort⟩
    · rw [hnil]
      rfl
    · rw [pubkeys_length] at hshort
      rw [hks]
      dsimp only [List.head?_cons, List.tail_cons]
      rw [hnum, if_pos hle, stream_read_short _ hshort]
      rfl
  | V height pvals =>
    obtain ⟨-, -, hle⟩ := hr
    have hnum : (UInt8.ofNat pvals.length).toNat = pvals.length :=
      UInt8.toNat_ofNat_of_lt' (by change _ < 256; omega)
    change stream.parsePricefeed env stack _ _ = _
    unfold FileReader.parsePricefeed
    rw [drop_eq_rest, stream_getc, except_ok_bind]
    rcases drop_four_cases hdata hlt with hnil | ⟨ks, hks, hshort⟩
    · rw [hnil]
      rfl
    · rw [pvals_length] at hshort
      rw [hks]
      dsimp only [List.head?_cons, List.tail_cons]
      rw [hnum, if_pos hle, stream_read_short _ hshort]
      rfl

/-- Nothing is left of a stream after a record that is cut off. -/
theorem stream_restOfEvent (stack : StateLocals) {r : StateRecord} {data : List UInt8}
    (hr : r.Typed) (hletter : r.letter ∈ eventLetters) (hdata : data <+: r.body)
    (hlt : data.length < r.body.length) : stream.restOfEvent stack r.letter data = [] := by
  cases r with
  | P height pubkeys => exact absurd hletter (by simp [StateRecord.letter, eventLetters])
  | U height numvouts notaryid voutmask txid =>
    exact absurd hletter (by simp [StateRecord.letter, eventLetters])
  | V height pvals => exact absurd hletter (by simp [StateRecord.letter, eventLetters])
  | K height kmdheight =>
    change (stream.read stack.kheight 4 (stream.read stack.ht 4 data).rest).rest = []
    simp only [drop_eq_rest, List.drop_drop]
    simp only [StateRecord.body, List.length_append, int32Bytes_length] at hlt
    exact List.drop_eq_nil_of_le (by omega)
  | T height kmdheight timestamp =>
    change (stream.read stack.ktimestamp 4 (stream.read stack.kheight 4
      (stream.read stack.ht 4 data).rest).rest).rest = []
    simp only [drop_eq_rest, List.drop_drop]
    simp only [StateRecord.body, List.length_append, int32Bytes_length, leBytes_length] at hlt
    exact List.drop_eq_nil_of_le (by omega)
  | N height notarizedHeight notarizedHash notarizedDesttxid =>
    change (stream.readNotarized stack false 0 (stream.read stack.ht 4 data).rest).2 = []
    simp only [FileReader.readNotarized, Bool.false_eq_true, if_false, drop_eq_rest,
      List.drop_drop]
    simp only [StateRecord.body, List.length_append, int32Bytes_length, leBytes_length] at hlt
    exact List.drop_eq_nil_of_le (by omega)
  | M height notarizedHeight notarizedHash notarizedDesttxid MoM MoMdepth =>
    change (stream.readNotarized stack true 0 (stream.read stack.ht 4 data).rest).2 = []
    simp only [FileReader.readNotarized, if_true, drop_eq_rest, List.drop_drop]
    simp only [StateRecord.body, List.length_append, int32Bytes_length, leBytes_length] at hlt
    exact List.drop_eq_nil_of_le (by omega)
  | R height txid vout value opret =>
    obtain ⟨-, -, -, holen⟩ := hr
    have hlen : leNat (leBytes 2 opret.length) = opret.length := leNat_leBytes holen
    change (stream.read stack.opret _ (stream.read stack.olen 2 (stream.read stack.ovalue 8
      (stream.read stack.v 2 (stream.read stack.txid 32
        (stream.read stack.ht 4 data).rest).rest).rest).rest).rest).rest = []
    have hdrop : data.drop 46 <+: leBytes 2 opret.length ++ opret := by
      have h := hdata.drop 46
      have hbody : (StateRecord.R height txid vout value opret).body =
          (int32Bytes height ++ (leBytes 32 txid.toNat ++ (leBytes 2 vout ++ leBytes 8 value))) ++
            (leBytes 2 opret.length ++ opret) := by simp [StateRecord.body]
      rwa [hbody, List.drop_left' (by simp)] at h
    simp only [StateRecord.body, List.length_append, int32Bytes_length, leBytes_length] at hlt
    simp only [drop_eq_rest, List.drop_drop]
    by_cases hshort : data.length ≤ 48
    · exact List.drop_eq_nil_of_le (by omega)
    · -- the length is there in full, and too little after it
      obtain ⟨ks, hks⟩ : leBytes 2 opret.length <+: data.drop 46 :=
        List.prefix_of_prefix_length_le (List.prefix_append _ _) hdrop (by simp; omega)
      rw [← hks, stream.read_leBytes, hlen]
      exact List.drop_eq_nil_of_le (by omega)

/-- A stream adds nothing for a truncated record exactly when no event is made of it, or the
event is dropped. -/
theorem parseFile_stream {stack : Nat → StateLocals} {r : StateRecord} {tail : List UInt8}
    (hr : r.Typed) (hfront : tail <+: r.bytes) (hproper : tail ≠ r.bytes) :
    stream.parseFile env stack tail = .ok ([], []) ↔
      ∀ func data, tail = func :: data → func ∈ eventLetters →
        stream.Dropped env (stack data.length) func data := by
  cases tail with
  | nil => exact ⟨fun _ _ _ htail => absurd htail (by simp), fun _ => rfl⟩
  | cons func data =>
    obtain ⟨rfl, hdata⟩ := List.cons_prefix_cons.1 hfront
    have hlt : data.length < r.body.length := by
      refine lt_of_le_of_ne hdata.length_le fun heq => hproper ?_
      rw [StateRecord.bytes, hdata.eq_of_length heq]
    rw [parseFile_cons_eq_nil]
    constructor
    · rintro ⟨rest, hparse, -⟩ func data' htail hevent
      cases htail
      exact ((parse_eventLetters stream hevent).1 hparse).1
    · intro h
      by_cases hevent : r.letter ∈ eventLetters
      · have hrest := stream_restOfEvent (stack data.length) hr hevent hdata hlt
        exact ⟨[], (parse_eventLetters stream hevent).2 ⟨h _ _ rfl hevent, hrest.symm⟩, rfl⟩
      · exact ⟨[], stream_parse_short hr hevent hdata hlt, rfl⟩

/-- Which truncated records a reader ignores after complete ones: from memory the bytes must be
silent, from a stream the record must be one of keys, outputs or prices, or its event be
dropped. -/
theorem ignoresTail_iff {W : Type} {records : List StateRecord} {r : StateRecord}
    {tail : List UInt8} (hrecords : ∀ r ∈ records, Written W r) (hr : Written W r)
    (hfront : tail <+: r.bytes) (hproper : tail ≠ r.bytes) (env : ReaderEnv)
    (stack : Nat → StateLocals) :
    (IgnoresTail memory env stack records tail ↔ Silent env stack tail) ∧
      (IgnoresTail stream env stack records tail ↔
        ∀ func data, tail = func :: data → func ∈ eventLetters →
          stream.Dropped env (stack data.length) func data) := by
  have htyped : ∀ r ∈ records, r.Typed := fun r hmem => (hrecords r hmem).typed
  rw [ignoresTail_iff_parseFile htyped, ignoresTail_iff_parseFile htyped]
  exact ⟨parseFile_silent, parseFile_stream hr.typed hfront hproper⟩

namespace SampleStateFile

/-- A height on the main chain. -/
def kmdheight : StateRecord := .K 5 7

/-- An output of a notary. -/
def utxo : StateRecord := .U 6 2 3 1 0

/-- A node that reads the file of its own chain. -/
def node : ReaderEnv where
  assetchainsSymbol := [0x58]
  symbol := [0x58]
  externalNotaries := true
  verifynotarization := fun _ => true

/-- Memory that is null. -/
def stack (_ : Nat) : StateLocals where
  ht := fun _ => 0
  pubkeys := fun _ => 0
  notarizedHeight := fun _ => 0
  notarizedHash := fun _ => 0
  notarizedDesttxid := fun _ => 0
  MoM := fun _ => 0
  MoMdepth := fun _ => 0
  mask := fun _ => 0
  hash := fun _ => 0
  kheight := fun _ => 0
  ktimestamp := fun _ => 0
  txid := fun _ => 0
  v := fun _ => 0
  ovalue := fun _ => 0
  olen := fun _ => 0
  opret := fun _ => 0
  pvals := fun _ => 0

/-- Arguments without a value are typed. -/
theorem typed_of_bounds {a : KomodoEnv.StateUpdate} (hheight : Int32 a.height)
    (hkmdheight : Int32 a.kmdheight) (hnumvouts : a.numvouts < 256) (hnotaryid : a.notaryid < 256)
    (hrest : a.notarypubs = [] ∧ a.pvals = [] ∧ a.kmdtimestamp = 0 ∧ a.opretvalue = 0 ∧
      a.opretlen = 0 ∧ a.vout = 0) : a.Typed := by
  obtain ⟨hkeys, hpvals, htime, hvalue, hlen, hvout⟩ := hrest
  refine ⟨hheight, ?_, hnumvouts, hnotaryid, ?_, hkmdheight, ?_, ?_, ?_, ?_⟩ <;> simp [*]

theorem kmdheight_written : Written Unit kmdheight :=
  ⟨{ height := 5, kmdheight := 7 }, { world := () },
    typed_of_bounds (by unfold Int32; decide) (by unfold Int32; decide) (by decide) (by decide)
      (by decide),
    by unfold Int32; decide, by unfold Int32; decide, rfl⟩

theorem utxo_written : Written Unit utxo :=
  ⟨{ height := 6, voutmask := 1, numvouts := 2, notaryid := 3 }, { world := () },
    typed_of_bounds (by unfold Int32; decide) (by unfold Int32; decide) (by decide) (by decide)
      (by decide),
    by unfold Int32; decide, by unfold Int32; decide, rfl⟩

end SampleStateFile

open SampleStateFile in
/-- The first three bytes of an output record are ignored after a complete record. -/
theorem ignoresTail_iff_utxo :
    IgnoresTail memory node stack [kmdheight] [0x55, 6, 0] ∧
      IgnoresTail stream node stack [kmdheight] [0x55, 6, 0] := by
  have hrecords : ∀ r ∈ [kmdheight], Written Unit r := by simpa using kmdheight_written
  have htail : [0x55, 6, 0] <+: utxo.bytes := by decide
  have h := ignoresTail_iff hrecords utxo_written htail (by decide) node stack
  refine ⟨h.1.2 (Silent.cons (SilentRecord.utxo rfl) Silent.nil), h.2.2 ?_⟩
  intro func data htail hevent
  cases htail
  exact absurd hevent (by decide)

open SampleStateFile in
/-- A height record without its height on the main chain rewinds the events. -/
theorem truncated_rewinds :
    Written Unit kmdheight ∧ [0x4b, 5, 0, 0, 0] <+: kmdheight.bytes ∧
      [0x4b, 5, 0, 0, 0] ≠ kmdheight.bytes ∧
      memory.parseFile node stack [0x4b, 5, 0, 0, 0] =
        .ok ([{ height := 5, data := .rewind }], []) ∧
      stream.parseFile node stack [0x4b, 5, 0, 0, 0] =
        .ok ([{ height := 5, data := .rewind }], []) ∧
      ¬ IgnoresTail memory node stack [] [0x4b, 5, 0, 0, 0] ∧
      ¬ IgnoresTail stream node stack [] [0x4b, 5, 0, 0, 0] := by
  have hmemory : memory.parseFile node stack [0x4b, 5, 0, 0, 0] =
      .ok ([{ height := 5, data := .rewind }], []) := by decide +kernel
  have hstream : stream.parseFile node stack [0x4b, 5, 0, 0, 0] =
      .ok ([{ height := 5, data := .rewind }], []) := by decide +kernel
  refine ⟨kmdheight_written, by decide, by decide, hmemory, hstream, ?_, ?_⟩
  · rw [ignoresTail_iff_parseFile (by simp), hmemory]
    intro h
    cases h
  · rw [ignoresTail_iff_parseFile (by simp), hstream]
    intro h
    cases h

end IndexChain.Notary
