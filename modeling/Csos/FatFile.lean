import Csos.FatAlloc

/-!
# Files of a FAT volume

`fat_fs_read`, `fat_fs_write` and `fat_fs_seek` on a file that is open.
The memory of the caller is a memory of its own. The loops go round for a
number of rounds, and a fault is a division by zero or a store behind
`sbuf`.
-/

namespace Csos

open Lib Lib.Bytes

/-- `FILE`, as far as the file system uses it once it is open. -/
structure FatFile where
  size : UInt32
  dcluster : UInt32
  doffset : UInt32
  offset : UInt32
  sblk : UInt32
  cblk : UInt32
  mode : UInt8

def fmWrite : UInt8 := 2

/-- A file of 700 bytes, from the cluster 2 on, just opened. -/
def smallFile : FatFile where
  size := 700
  dcluster := 5
  doffset := 0
  offset := 0
  sblk := 2
  cblk := 2
  mode := fmWrite

/-- `bps * spc`, the bytes of a cluster. -/
def FsFat.cpb (fat : FsFat) : UInt32 := fat.bps * fat.spc

/-- `device_read` of several sectors. Each of them is stored at `buf`. -/
def Disk.readAll (disk : Disk) (buf : Bytes) (sectors : List UInt32) : Option Bytes :=
  if disk.up then
    some (sectors.foldl (fun bytes s => copy bytes 0 (disk.sectors s) diskSectorSize) buf)
  else none

/-- `kernel_memcpy` into the memory of the caller; a NULL pointer is left alone. -/
def memcpyTo (mem : Bytes) (dst : Nat) (src : Bytes) (size : Nat) : Bytes :=
  if dst = 0 then mem else copy mem dst src size

/-! ## Reading -/

/-- `fat_move_file_offset`. -/
def fatMoveFileOffset (read : UInt32 → Option Bytes) (fat : FsFat) (file : FatFile)
    (cpb mbytes : UInt32) : FsFat × FatFile × Bool :=
  let co := file.offset % cpb
  if co + mbytes ≥ cpb then
    match fatNextCluster read fat file.cblk.toUInt16 with
    | (fat, nc) =>
        if nc.toUInt32 ≥ fatClusterInvalid then (fat, file, false)
        else (fat, { file with cblk := nc.toUInt32, offset := file.offset + mbytes }, true)
  else (fat, { file with offset := file.offset + mbytes }, true)

/-- The variables of the loop of `fat_fs_read`, with `fs_fat_t`, the file
and the memory that `buf` points to. -/
structure ReadLoop where
  fat : FsFat
  file : FatFile
  mem : Bytes
  buf : Nat
  nbytes : UInt32
  total : UInt32

inductive ReadEnd where
  | returned (total : UInt32) (s : ReadLoop)
  | fault

namespace ReadLoop

/-- `ss`: where the data of the current cluster begins. -/
def ss (s : ReadLoop) : UInt32 := s.fat.dataStart + (s.file.cblk - 2) * s.fat.spc

/-- The `spc` sectors from `ss` on. -/
def sectors (s : ReadLoop) : List UInt32 :=
  (List.range s.fat.spc.toNat).map fun i => s.ss + UInt32.ofNat i

/-- The end of a round: `cr` bytes have been read. -/
def advance (disk : Disk) (s : ReadLoop) (cr : UInt32) : Round ReadLoop ReadEnd :=
  let s := { s with buf := s.buf + cr.toNat, nbytes := s.nbytes - cr, total := s.total + cr }
  match fatMoveFileOffset disk.read s.fat s.file s.fat.cpb cr with
  | (fat, file, true) => .again { s with fat, file }
  | (fat, file, false) => .leave (.returned s.total { s with fat, file })

def round (disk : Disk) (s : ReadLoop) : Round ReadLoop ReadEnd :=
  if s.nbytes > 0 then
    let cpb := s.fat.cpb
    if cpb = 0 then .leave .fault
    else
      let co := s.file.offset % cpb
      if co = 0 ∧ s.nbytes = cpb then
        match disk.readAll s.fat.buf s.sectors with
        | none => .leave (.returned s.total s)
        | some bytes => { s with fat := { s.fat with buf := bytes } }.advance disk cpb
      else
        let cr := if co + s.nbytes > cpb then cpb - co else s.nbytes
        let fat := { s.fat with pcs := -1 }
        match disk.readAll s.fat.buf s.sectors with
        | none => .leave (.returned s.total { s with fat })
        | some bytes =>
            { s with
              fat := { fat with buf := bytes }
              mem := memcpyTo s.mem s.buf (fun i => bytes (co.toNat + i)) cr.toNat
              }.advance disk cr
  else .leave (.returned s.total s)

end ReadLoop

/-- The number of bytes that `fat_fs_read` sets out to read. -/
def readSize (file : FatFile) (size : UInt32) : UInt32 :=
  if file.offset + size > file.size then file.size - file.offset else size

/-- The loop as `fat_fs_read` begins it. -/
def readStart (fat : FsFat) (file : FatFile) (mem : Bytes) (buf : Nat) (size : UInt32) : ReadLoop :=
  { fat, file, mem, buf, nbytes := readSize file size, total := 0 }

/-- `fat_fs_read`, for a number of rounds of its loop. -/
def fatFsRead (fat : FsFat) (disk : Disk) (file : FatFile) (mem : Bytes) (buf : Nat) (size : UInt32)
    (n : Nat) : Option ReadEnd :=
  loopFor (ReadLoop.round disk) n (readStart fat file mem buf size)

/-- What `fs_fread` makes of what the file system returns. -/
def fsFread (ret : Int32) : Int32 := if ret < 0 then -1 else 0

/-! ## Writing -/

/-- `tm` and `century`, as far as they are stored with a file. -/
structure FatClock where
  century : Nat
  year : Nat
  mon : Nat
  mday : Nat
  hour : Nat
  min : Nat
  sec : Nat

/-- `fat_date_t` with its bit fields. -/
def FatClock.date (t : FatClock) : Nat :=
  t.mday % 32 + 32 * (t.mon % 16) + 512 * ((t.century * 100 + t.year - 1980) % 128)

/-- `fat_time_t` with its bit fields. -/
def FatClock.time (t : FatClock) : Nat :=
  t.sec * 2 % 32 + 32 * (t.min % 64) + 2048 * (t.hour % 32)

/-- The variables of the loop of `fat_fs_write`. -/
structure WriteLoop where
  disk : Disk
  file : FatFile
  nbytes : Int32

inductive WriteEnd where
  | returned (ret : Int32) (fat : FsFat) (s : WriteLoop)
  | fault

/-- What surrounds the loop: `fs_fat_t`, the memory and `buf` of the
caller, and `size`. -/
structure WriteCall where
  fat : FsFat
  mem : Bytes
  buf : Nat
  size : Int32
  clock : FatClock

namespace WriteCall

/-- The sector that a cluster is written to. -/
def target (call : WriteCall) (s : WriteLoop) : UInt32 := call.fat.dataStart + s.file.cblk - 2

def fail (call : WriteCall) (s : WriteLoop) : Round WriteLoop WriteEnd :=
  .leave (.returned (-1) call.fat s)

/-- The rest of a sector. -/
def writeRest (call : WriteCall) (s : WriteLoop) : Round WriteLoop WriteEnd :=
  let os := s.file.offset % call.fat.bps
  let fbytes := (call.fat.bps - os).toInt32
  match s.disk.read (call.target s) with
  | none => call.fail s
  | some sbuf =>
      let n := if call.size < fbytes then call.size else fbytes
      if os.toNat + n.toUInt32.toNat > diskSectorSize then .leave .fault
      else
        let sbuf := copy sbuf os.toNat (fun i => call.mem (call.buf + i)) n.toUInt32.toNat
        let s := { s with
          file := { s.file with offset := s.file.offset + n.toUInt32 }
          nbytes := s.nbytes - n }
        match s.disk.write (call.target s) sbuf with
        | none => call.fail s
        | some disk => .again { s with disk }

/-- A sector of its own for `n` bytes. -/
def writeSector (call : WriteCall) (s : WriteLoop) (n : UInt32) : Round WriteLoop WriteEnd :=
  match fatAllocCluster call.fat true s.disk with
  | .fault => .leave .fault
  | .returned cluster disk =>
      let s := { s with disk }
      if cluster.toInt32 ≥ fatClusterInvalid.toInt32 then call.fail s
      else
        let data := fun i => call.mem (call.buf + (call.size - s.nbytes).toUInt32.toNat + i)
        match s.disk.write (call.target s) data with
        | none => call.fail s
        | some disk =>
            .again { s with
              disk
              file := { s.file with offset := s.file.offset + n, cblk := s.file.cblk + 1 }
              nbytes := s.nbytes - n.toInt32 }

/-- Behind the loop: the entry of the file gets its new size. -/
def finish (call : WriteCall) (s : WriteLoop) : WriteEnd :=
  match fsBread s.disk.read call.fat s.file.dcluster with
  | (fat, false) => .returned (-1) fat s
  | (fat, true) =>
      let fdir := 32 * s.file.doffset.toNat
      let size := load32 fat.buf (fdir + 28) + call.size.toUInt32.toNat
      let buf := store32 fat.buf (fdir + 28) size
      let buf := store16 buf (fdir + 18) call.clock.date
      let buf := store16 buf (fdir + 24) call.clock.date
      let buf := store16 buf (fdir + 22) call.clock.time
      let fat := { fat with buf }
      let s := { s with file := { s.file with offset := s.file.offset + call.size.toUInt32 } }
      match s.disk.write s.file.dcluster buf with
      | none => .returned (-1) fat s
      | some disk => .returned call.size fat { s with disk }

def round (call : WriteCall) (s : WriteLoop) : Round WriteLoop WriteEnd :=
  let bps := call.fat.bps
  if s.nbytes > 0 then
    if bps = 0 then .leave .fault
    else if s.file.offset % bps > 0 then call.writeRest s
    else if s.nbytes.toUInt32 > bps ∧ s.file.offset % bps = 0 then call.writeSector s bps
    else if s.nbytes.toUInt32 < bps ∧ s.file.offset % bps = 0 then
      call.writeSector s s.nbytes.toUInt32
    else .again s
  else .leave (call.finish s)

/-- The loop as `fat_fs_write` begins it. -/
def start (call : WriteCall) (disk : Disk) (file : FatFile) : WriteLoop :=
  { disk, file, nbytes := call.size }

end WriteCall

/-- `fat_fs_write`, for a number of rounds of its loop. -/
def fatFsWrite (call : WriteCall) (disk : Disk) (file : FatFile) (n : Nat) : Option WriteEnd :=
  if file.mode &&& fmWrite = 0 then some (.returned (-1) call.fat (call.start disk file))
  else loopFor call.round n (call.start disk file)

/-! ## Seeking -/

/-- `SEEK_SET`, `SEEK_CUR`, `SEEK_END`, and whatever else is passed. -/
inductive SeekDir where
  | seekSet
  | seekCur
  | seekEnd
  | other
deriving DecidableEq

/-- The variables of the loop of `SEEK_CUR`. -/
structure SeekLoop where
  off : UInt32
  offset : UInt32
  cblk : UInt32

def SeekLoop.round (cpb : UInt32) (s : SeekLoop) : Round SeekLoop SeekLoop :=
  if s.off + s.offset > cpb then .again { off := 0, offset := s.offset - cpb, cblk := s.cblk + 1 }
  else .leave s

/-- Enough rounds for every distance. -/
def seekRounds : Nat := 2 ^ 32 + 1

/-- `fat_fs_seek`: what it returns, and the file. `none` is a division by
zero. -/
def fatFsSeek (fat : FsFat) (file : FatFile) (offset : UInt32) (dir : SeekDir) :
    Option (UInt32 × FatFile) :=
  let cpb := fat.cpb
  match dir with
  | .seekSet =>
      if cpb = 0 then none
      else some (0, { file with cblk := file.sblk + offset / cpb, offset })
  | .seekCur =>
      if cpb = 0 then none
      else
        (loopFor (SeekLoop.round cpb) seekRounds
          { off := file.offset % cpb, offset, cblk := file.cblk }).map fun s =>
          (0, { file with cblk := s.cblk, offset := file.offset + s.offset })
  | .seekEnd =>
      if cpb = 0 then none
      else
        let soff := file.size / cpb
        some (file.size, { file with offset := file.size, cblk := file.sblk + soff })
  | .other => some (0, file)

end Csos
