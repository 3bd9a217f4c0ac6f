import IndexChain.Core.Regions
import Mathlib.Algebra.Group.Nat.Defs

/-!
# Space in the block files

`FindBlockPos` and `FindUndoPos` of `main.cpp` hand out space for a block and for its undo
data: the position is the number of bytes in use, which is raised by the bytes asked for.
All sums have 32 bits. As long as none of them wraps, the ranges handed out in a file lie
apart and within its bytes in use.
-/

namespace IndexChain.Chain

open IndexChain.Core

/-- `CBlockFileInfo` of `main.h`. -/
structure CBlockFileInfo where
  nBlocks : UInt32 := 0
  /-- Number of used bytes of the block file. -/
  nSize : UInt32 := 0
  /-- Number of used bytes in the undo file. -/
  nUndoSize : UInt32 := 0
  nHeightFirst : UInt32 := 0
  nHeightLast : UInt32 := 0
  nTimeFirst : UInt64 := 0
  nTimeLast : UInt64 := 0
  deriving DecidableEq, Repr

/-- `CDiskBlockPos`. -/
structure CDiskBlockPos where
  nFile : Int
  nPos : UInt32
  deriving DecidableEq, Repr

/-- `MAX_BLOCKFILE_SIZE`. -/
def maxBlockfileSize : UInt32 := 0x8000000

/-- `BLOCKFILE_CHUNK_SIZE`. -/
def blockfileChunkSize : UInt32 := 0x1000000

/-- `UNDOFILE_CHUNK_SIZE`. -/
def undofileChunkSize : UInt32 := 0x100000

/-- `TMPFILE_START`. -/
def tmpfileStart : Int := 100000000

/-- `CBlockFileInfo::AddBlock`. -/
def CBlockFileInfo.addBlock (info : CBlockFileInfo) (nHeightIn : UInt32) (nTimeIn : UInt64) :
    CBlockFileInfo :=
  { info with
    nHeightFirst :=
      if info.nBlocks = 0 ∨ nHeightIn < info.nHeightFirst then nHeightIn else info.nHeightFirst
    nTimeFirst :=
      if info.nBlocks = 0 ∨ nTimeIn < info.nTimeFirst then nTimeIn else info.nTimeFirst
    nBlocks := info.nBlocks + 1
    nHeightLast := if info.nHeightLast < nHeightIn then nHeightIn else info.nHeightLast
    nTimeLast := if info.nTimeLast < nTimeIn then nTimeIn else info.nTimeLast }

/-- What `main.cpp` remembers of its block files. -/
structure BlockFiles where
  vinfoBlockFile : List CBlockFileInfo := []
  nLastBlockFile : Nat := 0
  deriving DecidableEq, Repr

/-- `resize(nFile + 1)` where the file is not in the list yet. -/
def resizeTo (files : List CBlockFileInfo) (nFile : Nat) : List CBlockFileInfo :=
  files ++ List.replicate (nFile + 1 - files.length) ({} : CBlockFileInfo)

/-- The test of the loop, in 32 bits. -/
def CBlockFileInfo.fits (nAddSize : UInt32) (info : CBlockFileInfo) : Bool :=
  info.nSize + nAddSize < maxBlockfileSize

/-- The loop over the files from `nFile` on. A file that is added at the end is empty; where
not even that one has the room, the loop adds files for ever. -/
def findFile (nAddSize : UInt32) : List CBlockFileInfo → Nat → Option Nat
  | [], nFile => if ({} : CBlockFileInfo).fits nAddSize then some nFile else none
  | info :: rest, nFile =>
    if info.fits nAddSize then some nFile else findFile nAddSize rest (nFile + 1)

/-- Whether room has to be reserved on disk, and how much it is: the chunks up to the new
size, less the position. -/
def reserve (chunkSize nPos nNewSize : UInt32) : Option UInt32 :=
  let nOldChunks := (nPos + chunkSize - 1) / chunkSize
  let nNewChunks := (nNewSize + chunkSize - 1) / chunkSize
  if nOldChunks < nNewChunks then some (nNewChunks * chunkSize - nPos) else none

/-- Whether `CheckDiskSpace` lets the call go on. -/
def hasRoom (checkDiskSpace : UInt32 → Bool) (chunkSize nPos nNewSize : UInt32) : Bool :=
  (reserve chunkSize nPos nNewSize).all checkDiskSpace

namespace BlockFiles

/-- `FindBlockPos` for a position that is not known, in the files that are kept
(`fKnown = false`, `tmpflag = 0`). The size is raised also where the disk is full. -/
def findBlockPos (checkDiskSpace : UInt32 → Bool) (s : BlockFiles) (nAddSize nHeight : UInt32)
    (nTime : UInt64) : Option (BlockFiles × Option CDiskBlockPos) :=
  let files := resizeTo s.vinfoBlockFile s.nLastBlockFile
  (findFile nAddSize (files.drop s.nLastBlockFile) s.nLastBlockFile).map fun nFile =>
    let files := resizeTo files nFile
    let info := files.getD nFile {}
    let nPos := info.nSize
    let info := info.addBlock nHeight nTime
    let info := { info with nSize := info.nSize + nAddSize }
    ({ vinfoBlockFile := files.set nFile info, nLastBlockFile := nFile },
      if hasRoom checkDiskSpace blockfileChunkSize nPos info.nSize then
        some { nFile := nFile, nPos := nPos }
      else none)

/-- `FindUndoPos`. A file that is not in the list is not looked for. -/
def findUndoPos (checkDiskSpace : UInt32 → Bool) (s : BlockFiles) (nFile : Int)
    (nAddSize : UInt32) : Option (BlockFiles × Option CDiskBlockPos) :=
  if tmpfileStart ≤ nFile then some (s, none)
  else if nFile < 0 then none
  else
    s.vinfoBlockFile[nFile.toNat]?.map fun info =>
      let nPos := info.nUndoSize
      let nNewSize := info.nUndoSize + nAddSize
      ({ s with vinfoBlockFile :=
          s.vinfoBlockFile.set nFile.toNat { info with nUndoSize := nNewSize } },
        if hasRoom checkDiskSpace undofileChunkSize nPos nNewSize then
          some { nFile := nFile, nPos := nPos }
        else none)

/-- The record of a file, empty where there is none. -/
def info (s : BlockFiles) (nFile : Nat) : CBlockFileInfo := s.vinfoBlockFile.getD nFile {}

end BlockFiles

/-- The file of a block and the file of its undo data. -/
inductive FileKind where
  | blk
  | rev
  deriving DecidableEq, Repr

/-- The bytes that a record takes to be in use. -/
def CBlockFileInfo.used (info : CBlockFileInfo) : FileKind → UInt32
  | .blk => info.nSize
  | .rev => info.nUndoSize

/-- A request for space, with the state of the disk at that time. -/
inductive Request where
  | findBlockPos (checkDiskSpace : UInt32 → Bool) (nAddSize nHeight : UInt32) (nTime : UInt64)
  | findUndoPos (checkDiskSpace : UInt32 → Bool) (nFile : Int) (nAddSize : UInt32)

/-- The files and the ranges that have been handed out in them. -/
structure Storage where
  files : BlockFiles
  handedOut : List (Region (FileKind × Nat)) := []
  deriving DecidableEq, Repr

namespace Request

/-- The kind of file that the request is for. -/
def kind : Request → FileKind
  | findBlockPos .. => .blk
  | findUndoPos .. => .rev

/-- The bytes asked for. -/
def addSize : Request → UInt32
  | findBlockPos _ nAddSize _ _ => nAddSize
  | findUndoPos _ _ nAddSize => nAddSize

/-- The call of the request. -/
def call : Request → BlockFiles → Option (BlockFiles × Option CDiskBlockPos)
  | findBlockPos checkDiskSpace nAddSize nHeight nTime, s =>
    s.findBlockPos checkDiskSpace nAddSize nHeight nTime
  | findUndoPos checkDiskSpace nFile nAddSize, s => s.findUndoPos checkDiskSpace nFile nAddSize

/-- The sum of the call does not wrap. For a block it is made in the first file from the last
one on that passes the test of the loop. -/
def Exact (r : Request) (s : BlockFiles) : Prop :=
  match r with
  | findBlockPos _ nAddSize _ _ =>
    ∀ info, (s.vinfoBlockFile.drop s.nLastBlockFile).find? (·.fits nAddSize) = some info →
      info.nSize.toNat + nAddSize.toNat < 2 ^ 32
  | findUndoPos _ nFile nAddSize =>
    nFile < tmpfileStart → ∀ info, s.vinfoBlockFile[nFile.toNat]? = some info →
      info.nUndoSize.toNat + nAddSize.toNat < 2 ^ 32

instance (r : Request) (s : BlockFiles) : Decidable (r.Exact s) :=
  match r with
  | findBlockPos _ nAddSize _ _ =>
    inferInstanceAs (Decidable (∀ info ∈
      (s.vinfoBlockFile.drop s.nLastBlockFile).find? (·.fits nAddSize),
        info.nSize.toNat + nAddSize.toNat < 2 ^ 32))
  | findUndoPos _ nFile nAddSize =>
    inferInstanceAs (Decidable (nFile < tmpfileStart → ∀ info ∈ s.vinfoBlockFile[nFile.toNat]?,
      info.nUndoSize.toNat + nAddSize.toNat < 2 ^ 32))

/-- The request is served, and the range that is returned is noted. -/
def serve (r : Request) (s : Storage) : Option Storage :=
  (r.call s.files).map fun (files, out) =>
    { files := files
      handedOut := (out.map fun pos =>
        { file := (r.kind, pos.nFile.toNat)
          start := pos.nPos.toNat
          size := r.addSize.toNat }).toList ++ s.handedOut }

end Request

namespace Storage

/-- The requests are served one after another. -/
def serveAll : List Request → Storage → Option Storage
  | [], s => some s
  | r :: requests, s => (r.serve s).bind (serveAll requests)

/-- No sum wraps along the way. -/
def AllExact : List Request → Storage → Prop
  | [], _ => True
  | r :: requests, s => r.Exact s.files ∧ ∀ s' ∈ r.serve s, AllExact requests s'

instance decidableAllExact : ∀ requests s, Decidable (AllExact requests s)
  | [], _ => inferInstanceAs (Decidable True)
  | r :: requests, s =>
    have : DecidablePred (AllExact requests) := decidableAllExact requests
    inferInstanceAs (Decidable (r.Exact s.files ∧ ∀ s' ∈ r.serve s, AllExact requests s'))

end Storage

/-- The bytes in use as the records have them. -/
def BlockFiles.used (s : BlockFiles) (file : FileKind × Nat) : Nat :=
  ((s.info file.2).used file.1).toNat

/-! ## The calls -/

/-- Files that are added are empty. -/
@[simp]
theorem resizeTo_getD (files : List CBlockFileInfo) (nFile i : Nat) :
    (resizeTo files nFile).getD i {} = files.getD i {} := by
  by_cases hi : i < files.length
  · simp [resizeTo, List.getElem?_append_left hi]
  · have hi' : files.length ≤ i := by omega
    simp [resizeTo, List.getElem?_append_right hi', List.getElem?_eq_none hi',
      List.getElem?_replicate]
    split <;> rfl

theorem lt_length_resizeTo (files : List CBlockFileInfo) (nFile : Nat) :
    nFile < (resizeTo files nFile).length := by
  simp [resizeTo]
  omega

/-- The record that is entered is found, and the others are as they were. -/
theorem getD_set_of_lt {files : List CBlockFileInfo} {nFile : Nat} (h : nFile < files.length)
    (info : CBlockFileInfo) (i : Nat) :
    (files.set nFile info).getD i {} = if i = nFile then info else files.getD i {} := by
  rw [List.getD_eq_getElem?_getD, List.getElem?_set]
  split
  · next heq => simp [heq]
  · next hne => simp [Ne.symm hne]

/-- The loop stops at the first file that passes the test, or at the end. -/
theorem findFile_spec {nAddSize : UInt32} {files : List CBlockFileInfo} {nFile k : Nat}
    (h : findFile nAddSize files nFile = some k) :
    ∃ i, k = nFile + i ∧ files.find? (·.fits nAddSize) = files[i]? := by
  induction files generalizing nFile with
  | nil =>
    rw [findFile, Option.ite_none_right_eq_some] at h
    exact ⟨0, by simpa using h.2.symm, rfl⟩
  | cons info rest ih =>
    rw [findFile] at h
    split at h
    · next hfits =>
      exact ⟨0, by simpa using h.symm, by simp [hfits]⟩
    · next hfits =>
      obtain ⟨i, hi, hfind⟩ := ih h
      exact ⟨i + 1, by omega, by simp [hfits, hfind]⟩

/-- A file is found for every size that an empty file has the room for. -/
theorem findFile_isSome {nAddSize : UInt32} (h : nAddSize < maxBlockfileSize)
    (files : List CBlockFileInfo) (nFile : Nat) : (findFile nAddSize files nFile).isSome := by
  induction files generalizing nFile with
  | nil => simp [findFile, CBlockFileInfo.fits, h]
  | cons info rest ih =>
    rw [findFile]
    split
    · rfl
    · exact ih (nFile + 1)

/-- Where the search has to add a file first, no file of the list passes the test. -/
theorem findFile_resizeTo {nAddSize : UInt32} {files : List CBlockFileInfo} {nFile k : Nat}
    (h : findFile nAddSize ((resizeTo files nFile).drop nFile) nFile = some k) :
    (files.drop nFile).find? (·.fits nAddSize) = files[k]? := by
  by_cases hlen : nFile < files.length
  · rw [resizeTo, Nat.sub_eq_zero_of_le hlen, List.replicate_zero, List.append_nil] at h
    obtain ⟨i, rfl, hfind⟩ := findFile_spec h
    rw [hfind, List.getElem?_drop]
  · have hle : files.length ≤ nFile := by omega
    obtain ⟨i, rfl, -⟩ := findFile_spec h
    rw [List.drop_eq_nil_of_le hle, List.getElem?_eq_none (by omega), List.find?_nil]

namespace BlockFiles

variable {checkDiskSpace : UInt32 → Bool} {s s' : BlockFiles} {nAddSize nHeight : UInt32}
  {nTime : UInt64} {out : Option CDiskBlockPos}

/-- A block goes to the end of the first file that passes the test, and the size of that
file is all that is raised. -/
theorem findBlockPos_spec
    (h : s.findBlockPos checkDiskSpace nAddSize nHeight nTime = some (s', out)) :
    ∃ nFile info,
      (s.vinfoBlockFile.drop s.nLastBlockFile).find? (·.fits nAddSize) = s.vinfoBlockFile[nFile]? ∧
      info.nSize = (s.info nFile).nSize + nAddSize ∧
      info.nUndoSize = (s.info nFile).nUndoSize ∧
      (∀ i, s'.info i = if i = nFile then info else s.info i) ∧
      ∀ pos, out = some pos → pos = ⟨nFile, (s.info nFile).nSize⟩ := by
  rw [findBlockPos, Option.map_eq_some_iff] at h
  obtain ⟨nFile, hfind, heq⟩ := h
  simp only [resizeTo_getD, Prod.mk.injEq] at heq
  obtain ⟨rfl, rfl⟩ := heq
  refine ⟨nFile, { (s.info nFile).addBlock nHeight nTime with
    nSize := (s.info nFile).nSize + nAddSize }, findFile_resizeTo hfind, rfl, rfl, ?_, ?_⟩
  · intro i
    rw [BlockFiles.info, getD_set_of_lt (lt_length_resizeTo _ _), resizeTo_getD, resizeTo_getD]
    rfl
  · intro pos hpos
    exact (Option.some.inj (Option.ite_none_right_eq_some.1 hpos).2).symm

/-- The search ends for every block that fits into an empty file. -/
theorem findBlockPos_isSome (h : nAddSize < maxBlockfileSize) :
    (s.findBlockPos checkDiskSpace nAddSize nHeight nTime).isSome := by
  rw [findBlockPos, Option.isSome_map]
  exact findFile_isSome h _ _

/-- Undo data goes to the end of the file that is asked for. -/
theorem findUndoPos_spec {nFile : Int}
    (h : s.findUndoPos checkDiskSpace nFile nAddSize = some (s', out)) :
    (s' = s ∧ out = none) ∨ nFile < tmpfileStart ∧ ∃ info,
      s.vinfoBlockFile[nFile.toNat]? = some (s.info nFile.toNat) ∧
      info.nSize = (s.info nFile.toNat).nSize ∧
      info.nUndoSize = (s.info nFile.toNat).nUndoSize + nAddSize ∧
      (∀ i, s'.info i = if i = nFile.toNat then info else s.info i) ∧
      ∀ pos, out = some pos → pos = ⟨nFile, (s.info nFile.toNat).nUndoSize⟩ := by
  rw [findUndoPos] at h
  split at h
  · obtain ⟨rfl, rfl⟩ := by simpa using h
    exact Or.inl ⟨rfl, rfl⟩
  · next htmp =>
    rw [Option.ite_none_left_eq_some, Option.map_eq_some_iff] at h
    obtain ⟨-, info, hinfo, heq⟩ := h
    have hlt : nFile.toNat < s.vinfoBlockFile.length := (List.getElem?_eq_some_iff.1 hinfo).1
    have hs : s.info nFile.toNat = info := by simp [BlockFiles.info, hinfo]
    obtain ⟨rfl, rfl⟩ := by simpa using heq
    rw [hs]
    refine Or.inr ⟨by omega, { info with nUndoSize := info.nUndoSize + nAddSize }, hinfo, rfl, rfl,
      fun i => getD_set_of_lt hlt _ i, ?_⟩
    intro pos hpos
    exact (Option.some.inj (Option.ite_none_right_eq_some.1 hpos).2).symm

end BlockFiles

/-! ## Runs -/

namespace Request

variable {r : Request} {s s' : BlockFiles} {out : Option CDiskBlockPos}

/-- A write to one entry that lowers none of its counts lowers no count. -/
theorem used_le {nFile : Nat} {info : CBlockFileInfo}
    (hinfo : ∀ i, s'.info i = if i = nFile then info else s.info i)
    (hle : ∀ kind, ((s.info nFile).used kind).toNat ≤ (info.used kind).toNat)
    (kind : FileKind) (i : Nat) :
    ((s.info i).used kind).toNat ≤ ((s'.info i).used kind).toNat := by
  rw [hinfo]
  split
  · next heq =>
    rw [heq]
    exact hle kind
  · exact le_rfl

/-- A call whose sum does not wrap raises one count by the bytes asked for, or none, and a
position that it returns is the count before. -/
theorem call_spec (h : r.call s = some (s', out)) (hexact : r.Exact s) :
    (s' = s ∧ out = none) ∨ ∃ nFile : Nat,
      ((s.info nFile).used r.kind).toNat + r.addSize.toNat =
        ((s'.info nFile).used r.kind).toNat ∧
      (∀ kind i, ((s.info i).used kind).toNat ≤ ((s'.info i).used kind).toNat) ∧
      ∀ pos, out = some pos →
        pos.nFile.toNat = nFile ∧ pos.nPos = (s.info nFile).used r.kind := by
  have hraise : ∀ {x y a : UInt32}, y = x + a → x.toNat + a.toNat < 2 ^ 32 →
      x.toNat + a.toNat = y.toNat := by
    intro x y a hy hlt
    rw [hy, UInt32.toNat_add, Nat.mod_eq_of_lt hlt]
  cases r with
  | findBlockPos checkDiskSpace nAddSize nHeight nTime =>
    obtain ⟨nFile, info, hfind, hsize, hundo, hinfo, hpos⟩ := BlockFiles.findBlockPos_spec h
    have hlt : (s.info nFile).nSize.toNat + nAddSize.toNat < 2 ^ 32 := by
      cases hget : s.vinfoBlockFile[nFile]? with
      | none =>
        have hnull : s.info nFile = {} := by simp [BlockFiles.info, hget]
        have hadd := nAddSize.toNat_lt
        rw [hnull]
        simpa using hadd
      | some old =>
        have hold : s.info nFile = old := by simp [BlockFiles.info, hget]
        rw [hold]
        exact hexact old (hfind.trans hget)
    have hsum := hraise hsize hlt
    refine Or.inr ⟨nFile, ?_, used_le hinfo ?_, ?_⟩
    · rw [hinfo, if_pos rfl]
      exact hsum
    · intro kind
      cases kind with
      | blk => exact Nat.le.intro hsum
      | rev => rw [CBlockFileInfo.used, CBlockFileInfo.used, hundo]
    · intro pos hout
      rw [hpos pos hout]
      exact ⟨Int.toNat_natCast nFile, rfl⟩
  | findUndoPos checkDiskSpace nFile nAddSize =>
    rcases BlockFiles.findUndoPos_spec h with hsame | ⟨htmp, info, hget, hsize, hundo, hinfo, hpos⟩
    · exact Or.inl hsame
    have hsum := hraise hundo (hexact htmp _ hget)
    refine Or.inr ⟨nFile.toNat, ?_, used_le hinfo ?_, ?_⟩
    · rw [hinfo, if_pos rfl]
      exact hsum
    · intro kind
      cases kind with
      | blk => rw [CBlockFileInfo.used, CBlockFileInfo.used, hsize]
      | rev => exact Nat.le.intro hsum
    · intro pos hout
      rw [hpos pos hout]
      exact ⟨rfl, rfl⟩

/-- A request whose sum does not wrap keeps the ranges apart and covered. -/
theorem serve_laid {s s' : Storage} (h : r.serve s = some s') (hexact : r.Exact s.files)
    (hs : Laid s.files.used s.handedOut) : Laid s'.files.used s'.handedOut := by
  rw [serve, Option.map_eq_some_iff] at h
  obtain ⟨⟨files, out⟩, hcall, rfl⟩ := h
  rcases call_spec hcall hexact with ⟨rfl, rfl⟩ | ⟨nFile, hsum, hle, hpos⟩
  · exact hs
  · have hused : ∀ file, s.files.used file ≤ files.used file := by
      intro file
      exact hle file.1 file.2
    cases out with
    | none => exact hs.mono hused
    | some pos =>
      obtain ⟨hfile, hstart⟩ := hpos pos rfl
      have hend : s.files.used (r.kind, nFile) + r.addSize.toNat ≤ files.used (r.kind, nFile) :=
        hsum.le
      have hlaid := hs.cons hused hend
      subst hfile
      rw [BlockFiles.used, ← hstart] at hlaid
      exact hlaid

end Request

namespace Storage

/-- Ranges that are apart and covered stay so along a run in which no sum wraps. -/
theorem serveAll_laid {requests : List Request} {s s' : Storage}
    (h : serveAll requests s = some s') (hexact : AllExact requests s)
    (hs : Laid s.files.used s.handedOut) : Laid s'.files.used s'.handedOut := by
  induction requests generalizing s with
  | nil =>
    obtain rfl := Option.some.inj h
    exact hs
  | cons r requests ih =>
    obtain ⟨s₁, hserve, hrest⟩ := Option.bind_eq_some_iff.1 h
    exact ih hrest (hexact.2 s₁ hserve) (Request.serve_laid hserve hexact.1 hs)

/-- Whatever the files are at first, as long as no sum wraps, all ranges that are handed out
in a file lie apart and within the bytes that its record has in use. -/
theorem handedOut_laid (files : BlockFiles) (requests : List Request) (s : Storage)
    (h : serveAll requests { files := files } = some s)
    (hexact : AllExact requests { files := files }) : Laid s.files.used s.handedOut :=
  serveAll_laid h hexact (Laid.nil _)

/-- Two blocks in the first file, with their undo data. -/
theorem handedOut_laid_blocks :
    let s : Storage :=
      { files :=
          { vinfoBlockFile :=
              [{ nBlocks := 2, nSize := 300, nUndoSize := 30, nHeightFirst := 1, nHeightLast := 2,
                 nTimeFirst := 50, nTimeLast := 60 }] }
        handedOut :=
          [⟨(.rev, 0), 10, 20⟩, ⟨(.blk, 0), 100, 200⟩, ⟨(.rev, 0), 0, 10⟩, ⟨(.blk, 0), 0, 100⟩] }
    Laid s.files.used s.handedOut :=
  handedOut_laid {}
    [.findBlockPos (fun _ => true) 100 1 50, .findUndoPos (fun _ => true) 0 10,
      .findBlockPos (fun _ => true) 200 2 60, .findUndoPos (fun _ => true) 0 20]
    _ (by decide +kernel) (by decide +kernel)

/-- Three pieces of undo data, the first two of half the range of a size each: the third one
starts where the first does. -/
theorem undo_overlaps :
    ¬∀ (files : BlockFiles) (requests : List Request) (s : Storage),
      serveAll requests { files := files } = some s → Laid s.files.used s.handedOut := by
  intro h
  have hlaid := h { vinfoBlockFile := [{}] }
    [.findUndoPos (fun _ => true) 0 0x80000000, .findUndoPos (fun _ => true) 0 0x80000000,
      .findUndoPos (fun _ => true) 0 16]
    { files := { vinfoBlockFile := [{ nUndoSize := 16 }] }
      handedOut := [⟨(.rev, 0), 0, 16⟩, ⟨(.rev, 0), 0x80000000, 0x80000000⟩,
        ⟨(.rev, 0), 0, 0x80000000⟩] } (by decide +kernel)
  have hapart := List.rel_of_pairwise_cons hlaid.apart
    (List.mem_cons_of_mem _ List.mem_cons_self) rfl
  have hmem : (0 : Nat) ∈ Set.Ico 0 16 ∧ (0 : Nat) ∈ Set.Ico 0 (0 + 0x80000000) := by simp
  exact Set.disjoint_left.1 hapart hmem.1 hmem.2

end Storage

end IndexChain.Chain
