import Csos.Lib.Bytes
import Csos.Lib.Loop
import Mathlib.Data.Vector.Basic

/-!
# Paths on a FAT volume (`kernel32/fs/fat.c`)

`fat_fs_mount`, `fat_next_cluster` and `read_fat_path_cluster`. The disk is
a function that reads a sector; `none` is a `device_read` that fails.

A store behind `buf` and a read behind the NUL of the path end the search
with a fault. What C leaves open is a parameter, `PathStack`: the bytes
that stand behind `buf`, and the entries of `dirs` that the one sector does
not fill.
-/

namespace Csos

open Lib Lib.Bytes

/-! ## The volume -/

def diskSectorSize : Nat := 512

def fatFileNameSize : Nat := 11

def fatClusterInvalid : UInt32 := 0xFFF8

def fdnFree : BitVec 8 := 0xE5

def fdnEnd : BitVec 8 := 0x00

/-- `boot_record_t`, as far as `fat_fs_mount` reads it. -/
structure BootRecord where
  bytesPerSector : UInt16
  sectorsPerCluster : UInt8
  reservedSectors : UInt16
  nocFats : UInt8
  maxRde : UInt16
  sectorsPerFat : UInt16
  fatName : Vector (BitVec 8) 8

/-- `fs_fat_t`; `buf` holds the sector `pcs`. -/
structure FsFat where
  fatStart : UInt32
  fatTotal : UInt32
  fatSectors : UInt32
  rootStart : UInt32
  rootTotal : UInt32
  dataStart : UInt32
  bps : UInt32
  spc : UInt32
  buf : Bytes
  pcs : UInt32

/-- `fat_fs_mount`, with the page that the boot record has been read into. -/
def fatFsMount (br : BootRecord) (page : Bytes) : Option FsFat :=
  let fatStart := br.reservedSectors.toUInt32
  let fatTotal := br.nocFats.toUInt32
  let fatSectors := br.sectorsPerFat.toUInt32
  let rootTotal := br.maxRde.toUInt32
  let rootStart := fatStart + fatSectors * fatTotal
  let dataStart := rootStart + rootTotal * 32 / 512
  if fatTotal ≠ 2 ∨ br.fatName.toList.take 5 ≠ [0x46, 0x41, 0x54, 0x31, 0x36] then none
  else some {
    fatStart, fatTotal, fatSectors, rootStart, rootTotal, dataStart
    bps := br.bytesPerSector.toUInt32
    spc := br.sectorsPerCluster.toUInt32
    buf := page
    pcs := -1 }

/-- `fat_dir_t`, as far as a path is concerned. -/
structure FatDir where
  name : Vector (BitVec 8) 11
  attr : BitVec 8
  clusterH : Nat
  clusterL : Nat
deriving DecidableEq

/-- The entry at the address `a`. -/
def dirAt (m : Bytes) (a : Nat) : FatDir where
  name := Vector.ofFn fun i => m (a + i)
  attr := m (a + 11)
  clusterH := load16 m (a + 20)
  clusterL := load16 m (a + 26)

/-- `name[0]`, which says that an entry is free or the end. -/
abbrev nameFirst (name : Vector (BitVec 8) 11) : BitVec 8 := name[0]

/-- `(cluster_h << 16) | cluster_l`. -/
def FatDir.cluster (fdir : FatDir) : Nat := fdir.clusterH <<< 16 ||| fdir.clusterL

/-- `file_type_t`. -/
inductive FatType where
  | unknown
  | tty
  | file
  | dir
deriving DecidableEq

/-- `read_fat_ftype`. The second test is `attr & (FDA_LNAME == FDA_LNAME)`. -/
def readFatFtype (fdir : FatDir) : FatType :=
  if fdir.attr &&& 0x0E ≠ 0 then .unknown
  else if fdir.attr &&& 1 ≠ 0 then .unknown
  else if fdir.attr &&& 0x10 ≠ 0 then .dir
  else .file

/-! ## Names -/

/-- A string up to its NUL. -/
abbrev Chars := List (BitVec 8)

/-- A letter in upper case. -/
def upperChar (c : BitVec 8) : BitVec 8 := if 0x61 ≤ c ∧ c ≤ 0x7A then c - 0x61 + 0x41 else c

/-- The loop of `fat_to_sfn`, with `pc` counted from `dst`. -/
def fatToSfnLoop : Chars → Nat → Vector (BitVec 8) 11 → Vector (BitVec 8) 11
  | [], _, dst => dst
  | c :: src, pc, dst =>
      if h : pc < 11 then
        if c = 0x2F then dst
        else if c = 0x2E then fatToSfnLoop src 8 dst
        else fatToSfnLoop src (pc + 1) (dst.set pc (upperChar c))
      else dst

def fatToSfn (src : Chars) : Vector (BitVec 8) 11 :=
  fatToSfnLoop src 0 (Vector.replicate 11 0x20)

def matchFatName (fdir : FatDir) (name : Chars) : Bool := fatToSfn name == fdir.name

/-! ## Sectors and clusters -/

/-- `fs_bread`. -/
def fsBread (read : UInt32 → Option Bytes) (fat : FsFat) (sector : UInt32) : FsFat × Bool :=
  if sector = fat.pcs then (fat, true)
  else
    match read sector with
    | some bytes => ({ fat with buf := copy fat.buf 0 bytes diskSectorSize, pcs := sector }, true)
    | none => (fat, false)

def fatVerifyCluster (cluster : UInt16) : Bool :=
  cluster.toUInt32 < fatClusterInvalid && 2 ≤ cluster

/-- `fat_next_cluster`. -/
def fatNextCluster (read : UInt32 → Option Bytes) (fat : FsFat) (cc : UInt16) : FsFat × UInt16 :=
  if ¬ fatVerifyCluster cc then (fat, 0)
  else if cc.toUInt32 = fat.rootStart then (fat, cc + 1)
  else
    let offset := cc.toNat * 2
    let sector := offset / fat.bps.toNat
    if sector ≥ fat.fatSectors.toNat then (fat, fatClusterInvalid.toUInt16)
    else
      let os := offset % fat.bps.toNat
      match fsBread read fat (fat.fatStart + UInt32.ofNat sector) with
      | (fat', true) => (fat', UInt16.ofNat (load16 fat'.buf os))
      | (fat', false) => (fat', fatClusterInvalid.toUInt16)

/-! ## The search of a path -/

/-- `kernel_strcmp` of two strings. -/
def kernelStrcmp : Chars → Chars → Nat
  | a :: s, b :: t => if a = b then kernelStrcmp s t else 1
  | [], [] => 0
  | _, _ => 1

/-- What the stack of `read_fat_path_cluster` holds by chance: the bytes
behind `buf`, up to the first NUL, and the entries of `dirs`. -/
structure PathStack where
  behind : Chars
  dirs : Nat → FatDir

inductive PathFault where
  | storePastBuf
  | readPastPath

/-- `buf` as a string: ten characters leave no NUL in it. -/
def PathStack.string (stack : PathStack) (buf : Chars) : Chars :=
  if buf.length < 10 then buf else buf ++ stack.behind

/-- `dirs` after a sector has been read into it. -/
def PathStack.read (stack : PathStack) (bytes : Bytes) (dcount : Nat) : List FatDir :=
  (List.range dcount).map fun i => if i < 16 then dirAt bytes (32 * i) else stack.dirs i

/-- `bps * spc / sizeof(fat_dir_t)`. -/
def FsFat.dcount (fat : FsFat) : Nat := (fat.bps * fat.spc / 32).toNat

/-- `*(path + si)` is a slash or the NUL. -/
def nameEnds : Chars → Bool
  | [] => true
  | c :: _ => c = 0x2F

/-- The do-while that copies a name from the path to `buf`: what is in
`buf` then, and the rest of the path. -/
def copyName : Chars → Chars → Except PathFault (Chars × Chars)
  | buf, [] => if buf.length < 10 then .error .readPastPath else .error .storePastBuf
  | buf, c :: path =>
      if buf.length < 10 then
        if nameEnds path then .ok (buf ++ [c], path) else copyName (buf ++ [c]) path
      else .error .storePastBuf

/-- How the scan of `dirs` ends. -/
inductive Scan where
  | file (i : Nat)
  | dir (i : Nat) (fdir : FatDir)
  | foundEnd
  | notFound

/-- The scan of `dirs` for a name. -/
def scanDirs (name : Chars) : Nat → List FatDir → Scan
  | _, [] => .notFound
  | i, fdir :: dirs =>
      if nameFirst fdir.name = fdnEnd then .foundEnd
      else if nameFirst fdir.name = fdnFree then scanDirs name (i + 1) dirs
      else if matchFatName fdir name then
        match readFatFtype fdir with
        | .file => .file i
        | .dir => .dir i fdir
        | _ => scanDirs name (i + 1) dirs
      else scanDirs name (i + 1) dirs

/-- The variables of the loop; `suffix` is `path + si`. -/
structure Search where
  suffix : Chars
  sc : UInt32
  sector : Int
  offset : Int
  fat : FsFat

/-- What the call comes to. -/
inductive PathEnd where
  | returned (type : FatType) (sector offset : Int) (fat : FsFat)
  | fault (f : PathFault)

namespace Search

/-- Behind the loop. -/
def finish (s : Search) : PathEnd :=
  if s.sc ≥ fatClusterInvalid then .returned .unknown s.sector s.offset s.fat
  else .returned .dir s.sector s.offset s.fat

/-- The end of a round, behind the scan of the sector. -/
def scanned (read : UInt32 → Option Bytes) (path suffix : Chars) (s : Search) :
    Scan → Round Search PathEnd
  | .file i => .leave (.returned .file s.sc.toNat i s.fat)
  | .foundEnd => .leave (.returned .unknown fatClusterInvalid.toNat s.offset s.fat)
  | .dir i fdir =>
      .again { s with
        suffix, sector := s.sc.toNat, offset := i
        sc := s.fat.dataStart + UInt32.ofNat fdir.cluster - 2 }
  | .notFound =>
      let (fat, nc) := fatNextCluster read s.fat s.sc.toUInt16
      .again { s with suffix := path, sc := nc.toUInt32, fat }

def round (read : UInt32 → Option Bytes) (stack : PathStack) (path : Chars) (s : Search) :
    Round Search PathEnd :=
  if s.sc < fatClusterInvalid then
    match s.suffix with
    | [] => .leave s.finish
    | _ :: rest =>
        match copyName [] rest with
        | .error f => .leave (.fault f)
        | .ok (buf, suffix) =>
            match read s.sc with
            | none => .leave (.returned .unknown fatClusterInvalid.toNat s.offset s.fat)
            | some bytes =>
                s.scanned read path suffix
                  (scanDirs (stack.string buf) 0 (stack.read bytes s.fat.dcount))
  else .leave s.finish

end Search

/-- `read_fat_path_cluster`, for a number of rounds of its loop. -/
def readFatPathCluster (read : UInt32 → Option Bytes) (stack : PathStack) (fat : FsFat)
    (path : Chars) (sector offset : Int) (n : Nat) : Option PathEnd :=
  if kernelStrcmp path [0x2F] = 0 then some (.returned .dir 0 0 fat)
  else
    loopFor (Search.round read stack path) n
      { suffix := path, sc := fat.rootStart, sector, offset, fat }

end Csos
