import Csos.Fat

/-!
# The disk (`kernel32/device/disk.c`)

`dev_disk_read` and `dev_disk_write` against a disk that serves a command one
sector after the other. The disk raises an interrupt when a sector can be
fetched, when a sector is stored, and when it gives up with an error; the
handler notifies the semaphore that the calls wait for.

A task is running, and no other one uses the disk. Both loops hand `buf` to
each round as it is.
-/

namespace Csos

open Lib Lib.Bytes

/-! ## The disk -/

/-- The two commands with 48 address bits. -/
inductive DiskCmd where
  | read
  | write
deriving DecidableEq

/-- A register that keeps the value before the last one too. -/
structure AtaReg where
  before : UInt8
  last : UInt8

def AtaReg.put (r : AtaReg) (v : UInt8) : AtaReg := ⟨r.last, v⟩

/-- What the disk is at: `left` sectors are to be served from `lba` on. -/
inductive AtaPhase where
  | idle
  | busy (cmd : DiskCmd) (lba left : Nat) (data : Bytes)
  | transfer (cmd : DiskCmd) (lba left pos : Nat) (data : Bytes)

/-- The disk, with the semaphore that its interrupts notify. -/
structure AtaDisk where
  sectors : Nat → Bytes
  drive : UInt8
  sc : AtaReg
  lbaL : AtaReg
  lbaM : AtaReg
  lbaH : AtaReg
  phase : AtaPhase
  err : Bool
  sem : Nat

/-- The ports that are written by the byte. -/
inductive DiskPort where
  | drive
  | sc
  | lbaL
  | lbaM
  | lbaH
  | cmd

def diskStatusErr : UInt8 := 1

def diskStatusDqr : UInt8 := 8

def diskStatusBusy : UInt8 := 0x80

def diskCmdRead : UInt8 := 0x24

def diskCmdWrite : UInt8 := 0x34

namespace AtaDisk

/-- The address in the registers. -/
def lba (d : AtaDisk) : Nat :=
  d.lbaL.last.toNat + 0x100 * d.lbaM.last.toNat + 0x10000 * d.lbaH.last.toNat
    + 0x1000000 * d.lbaL.before.toNat + 0x100000000 * d.lbaM.before.toNat
    + 0x10000000000 * d.lbaH.before.toNat

/-- The number of sectors in the registers; zero says 65536. -/
def count (d : AtaDisk) : Nat :=
  let n := d.sc.last.toNat + 0x100 * d.sc.before.toNat
  if n = 0 then 0x10000 else n

def command (d : AtaDisk) (cmd : UInt8) : AtaDisk :=
  if cmd = diskCmdRead then
    { d with err := false, phase := .busy .read d.lba d.count fun _ => 0 }
  else if cmd = diskCmdWrite then
    { d with err := false, phase := .transfer .write d.lba d.count 0 fun _ => 0 }
  else d

def outb (d : AtaDisk) : DiskPort → UInt8 → AtaDisk
  | .drive, v => { d with drive := v }
  | .sc, v => { d with sc := d.sc.put v }
  | .lbaL, v => { d with lbaL := d.lbaL.put v }
  | .lbaM, v => { d with lbaM := d.lbaM.put v }
  | .lbaH, v => { d with lbaH := d.lbaH.put v }
  | .cmd, v => d.command v

/-- A word comes from the data port. -/
def inw (d : AtaDisk) : Nat × AtaDisk :=
  match d.phase with
  | .transfer .read lba left pos data =>
      (load16 data (2 * pos),
        { d with
          phase :=
            if pos + 1 < 256 then .transfer .read lba left (pos + 1) data
            else if left = 1 then .idle
            else .busy .read (lba + 1) (left - 1) fun _ => 0 })
  | _ => (0xFFFF, d)

/-- A word goes to the data port. -/
def outw (d : AtaDisk) (w : Nat) : AtaDisk :=
  match d.phase with
  | .transfer .write lba left pos data =>
      let data := store16 data (2 * pos) w
      { d with
        phase :=
          if pos + 1 < 256 then .transfer .write lba left (pos + 1) data
          else .busy .write lba left data }
  | _ => d

def status (d : AtaDisk) : UInt8 :=
  match d.phase with
  | .busy .. => diskStatusBusy
  | .transfer .. => diskStatusDqr ||| if d.err then diskStatusErr else 0
  | .idle => if d.err then diskStatusErr else 0

/-- The disk with the first bytes of `data` in a sector. -/
def put (d : AtaDisk) (lba : Nat) (data : Bytes) : Nat → Bytes := fun s =>
  if s = lba then copy (d.sectors s) 0 data diskSectorSize else d.sectors s

/-- A busy disk gets done with its sector and raises an interrupt. The sectors that
it cannot read or write are given by `fails`. -/
def tick (fails : DiskCmd → Nat → Bool) (d : AtaDisk) : AtaDisk :=
  match d.phase with
  | .busy cmd lba left data =>
      if fails cmd lba then { d with phase := .idle, err := true, sem := d.sem + 1 }
      else
        match cmd with
        | .read =>
            { d with phase := .transfer .read lba left 0 (d.sectors lba), sem := d.sem + 1 }
        | .write =>
            { d with
              sectors := d.put lba data
              phase :=
                if left = 1 then .idle else .transfer .write (lba + 1) (left - 1) 0 fun _ => 0
              sem := d.sem + 1 }
  | _ => d

/-- `sem_wait`; `none` is a wait without end. -/
def semWait (fails : DiskCmd → Nat → Bool) (d : AtaDisk) : Option AtaDisk :=
  if d.sem > 0 then some { d with sem := d.sem - 1 }
  else
    match d.phase with
    | .busy .. => some { d.tick fails with sem := d.sem }
    | _ => none

end AtaDisk

/-! ## The driver -/

/-- `disk_part_t`; `disk` is the drive of `part->disk`. -/
structure DiskPart where
  disk : Option UInt8
  startSector : UInt32

/-- `disk_cmd`. -/
def diskCmd (d : AtaDisk) (drive : UInt8) (ss sc : UInt32) (cmd : UInt8) : AtaDisk :=
  let d := d.outb .drive (0xE0 ||| drive)
  let d := d.outb .sc (sc >>> 8).toUInt8
  let d := d.outb .lbaL (ss >>> 24).toUInt8
  let d := d.outb .lbaM 0
  let d := d.outb .lbaH 0
  let d := d.outb .sc sc.toUInt8
  let d := d.outb .lbaL ss.toUInt8
  let d := d.outb .lbaM (ss >>> 8).toUInt8
  let d := d.outb .lbaH (ss >>> 16).toUInt8
  d.outb .cmd cmd

/-- `disk_read_data`, for a number of words. -/
def diskReadData (d : AtaDisk) (mem : Bytes) (c : Nat) : Nat → AtaDisk × Bytes
  | 0 => (d, mem)
  | n + 1 =>
      let (w, d) := d.inw
      diskReadData d (store16 mem c w) (c + 2) n

/-- `disk_write_data`, for a number of words. -/
@[irreducible] def diskWriteData (d : AtaDisk) (mem : Bytes) (c : Nat) : Nat → AtaDisk
  | 0 => d
  | n + 1 => diskWriteData (d.outw (load16 mem c)) mem (c + 2) n

/-- A poll of `disk_wait_data`. -/
def diskPoll (fails : DiskCmd → Nat → Bool) (d : AtaDisk) : Round AtaDisk (AtaDisk × Int) :=
  let status := d.status
  if status &&& (diskStatusBusy ||| diskStatusDqr ||| diskStatusErr) ≠ diskStatusBusy then
    .leave (d, if status &&& diskStatusErr ≠ 0 then -1 else 0)
  else .again (d.tick fails)

/-- `disk_wait_data`. A busy disk is done by the second poll. -/
def diskWaitData (fails : DiskCmd → Nat → Bool) (d : AtaDisk) : Option (AtaDisk × Int) :=
  loopFor (diskPoll fails) 2 d

/-- The loop of `dev_disk_read`. -/
def devDiskReadLoop (fails : DiskCmd → Nat → Bool) (buf : Nat) :
    Nat → AtaDisk → Bytes → Option (AtaDisk × Bytes)
  | 0, d, mem => some (d, mem)
  | n + 1, d, mem =>
      match d.semWait fails with
      | none => none
      | some d =>
          match diskWaitData fails d with
          | none => none
          | some (d, err) =>
              if err < 0 then some (d, mem)
              else
                let (d, mem) := diskReadData d mem buf (diskSectorSize / 2)
                devDiskReadLoop fails buf n d mem

/-- `dev_disk_read`: what it returns, the disk and the memory. -/
def devDiskRead (fails : DiskCmd → Nat → Bool) (part : Option DiskPart) (d : AtaDisk) (mem : Bytes)
    (addr : Int32) (buf : Nat) (size : Int32) : Option (Int × AtaDisk × Bytes) :=
  match part with
  | none => some (-1, d, mem)
  | some part =>
      match part.disk with
      | none => some (-1, d, mem)
      | some drive =>
          let d := diskCmd d drive (part.startSector + addr.toUInt32) size.toUInt32 diskCmdRead
          (devDiskReadLoop fails buf size.toInt.toNat d mem).map fun (d, mem) => (0, d, mem)

/-- The loop of `dev_disk_write`. -/
def devDiskWriteLoop (fails : DiskCmd → Nat → Bool) (mem : Bytes) (buf : Nat) :
    Nat → AtaDisk → Option AtaDisk
  | 0, d => some d
  | n + 1, d =>
      match (diskWriteData d mem buf (diskSectorSize / 2)).semWait fails with
      | none => none
      | some d =>
          match diskWaitData fails d with
          | none => none
          | some (d, err) => if err < 0 then some d else devDiskWriteLoop fails mem buf n d

/-- `dev_disk_write`: what it returns, and the disk. -/
def devDiskWrite (fails : DiskCmd → Nat → Bool) (part : Option DiskPart) (d : AtaDisk) (mem : Bytes)
    (addr : Int32) (buf : Nat) (size : Int32) : Option (Int × AtaDisk) :=
  match part with
  | none => some (-1, d)
  | some part =>
      match part.disk with
      | none => some (-1, d)
      | some drive =>
          let d := diskCmd d drive (part.startSector + addr.toUInt32) size.toUInt32 diskCmdWrite
          (devDiskWriteLoop fails mem buf size.toInt.toNat d).map fun d => (0, d)

/-! ## One sector -/

section Rounds

variable {fails : DiskCmd → Nat → Bool} {d d' : AtaDisk} {mem data : Bytes}
  {buf c lba left pos n : Nat}

namespace AtaDisk

/-- What a disk is at behind a sector that has been read. -/
def readOn (lba left : Nat) : AtaPhase :=
  if left = 1 then .idle else .busy .read (lba + 1) (left - 1) fun _ => 0

/-- What a disk is at behind a sector that has been written. -/
def writeOn (lba left : Nat) : AtaPhase :=
  if left = 1 then .idle else .transfer .write (lba + 1) (left - 1) 0 fun _ => 0

theorem inw_of_transfer (h : d.phase = .transfer .read lba left pos data) :
    d.inw = (load16 data (2 * pos),
      { d with
        phase := if pos + 1 < 256 then .transfer .read lba left (pos + 1) data
          else readOn lba left }) := by
  rw [inw, h]
  rfl

theorem outw_of_transfer (h : d.phase = .transfer .write lba left pos data) (w : Nat) :
    d.outw w = { d with
      phase := if pos + 1 < 256 then .transfer .write lba left (pos + 1) (store16 data (2 * pos) w)
        else .busy .write lba left (store16 data (2 * pos) w) } := by
  rw [outw, h]

theorem semWait_of_busy {cmd : DiskCmd} (h : d.phase = .busy cmd lba left data) (hsem : d.sem = 0) :
    d.semWait fails = some { d.tick fails with sem := d.sem } := by
  rw [semWait, if_neg (by omega), h]

theorem tick_read (h : d.phase = .busy .read lba left data) (hok : fails .read lba = false) :
    d.tick fails
      = { d with phase := .transfer .read lba left 0 (d.sectors lba), sem := d.sem + 1 } := by
  rw [tick, h]
  simp only [hok, Bool.false_eq_true, if_false]

theorem tick_write (h : d.phase = .busy .write lba left data) (hok : fails .write lba = false) :
    d.tick fails
      = { d with sectors := d.put lba data, phase := writeOn lba left, sem := d.sem + 1 } := by
  rw [tick, h]
  simp only [hok, Bool.false_eq_true, if_false]
  rfl

end AtaDisk

open AtaDisk

/-- The words that are left of a sector, to the memory. -/
theorem diskReadData_eq (h : d.phase = .transfer .read lba left pos data) (hn : pos + n = 255) :
    diskReadData d mem c (n + 1)
      = ({ d with phase := readOn lba left },
        copy mem c (fun i => data (2 * pos + i)) (2 * (n + 1))) := by
  induction n generalizing d mem c pos with
  | zero =>
      rw [diskReadData, inw_of_transfer h, if_neg (by omega)]
      dsimp only
      rw [diskReadData, store16_load16]
  | succ n ih =>
      rw [diskReadData, inw_of_transfer h, if_pos (by omega)]
      dsimp only
      rw [ih rfl (by omega), store16_load16, Nat.mul_add 2 pos 1, copy_append]
      rw [show 2 + 2 * (n + 1) = 2 * (n + 1 + 1) by omega]

/-- The words that are left of a sector, from the memory. -/
theorem diskWriteData_eq (h : d.phase = .transfer .write lba left pos data) (hn : pos + n = 255) :
    diskWriteData d mem c (n + 1)
      = { d with
        phase := .busy .write lba left
          (copy data (2 * pos) (fun i => mem (c + i)) (2 * (n + 1))) } := by
  induction n generalizing d data c pos with
  | zero =>
      rw [diskWriteData, outw_of_transfer h, if_neg (by omega)]
      rw [diskWriteData, store16_load16]
  | succ n ih =>
      rw [diskWriteData, outw_of_transfer h, if_pos (by omega)]
      rw [ih rfl (by omega), store16_load16, Nat.mul_add 2 pos 1, copy_append]
      rw [show 2 + 2 * (n + 1) = 2 * (n + 1 + 1) by omega]

/-- A disk that is not busy and has no error is not waited for. -/
theorem diskWaitData_eq (h : ∀ cmd lba left data, d.phase ≠ .busy cmd lba left data)
    (herr : d.err = false) : diskWaitData fails d = some (d, 0) := by
  have hstatus : d.status = 0 ∨ d.status = diskStatusDqr := by
    rw [status, herr]
    cases hphase : d.phase with
    | idle => exact Or.inl rfl
    | busy cmd lba left data => exact absurd hphase (h cmd lba left data)
    | transfer => exact Or.inr rfl
  have hpoll : diskPoll fails d = .leave (d, 0) := by
    rw [diskPoll]
    rcases hstatus with hstatus | hstatus
    · rw [hstatus]
      rfl
    · rw [hstatus]
      rfl
  rw [diskWaitData, loopFor, hpoll]

theorem writeOn_ne_busy (lba left : Nat) (cmd : DiskCmd) (lba' left' : Nat) (data : Bytes) :
    writeOn lba left ≠ .busy cmd lba' left' data := by
  rw [writeOn]
  split
  · exact AtaPhase.noConfusion
  · exact AtaPhase.noConfusion

/-- A round of `dev_disk_read`. -/
theorem devDiskReadLoop_step (h : d.phase = .busy .read lba left data) (hsem : d.sem = 0)
    (herr : d.err = false) (hok : fails .read lba = false) :
    devDiskReadLoop fails buf (n + 1) d mem
      = devDiskReadLoop fails buf n { d with phase := readOn lba left }
          (copy mem buf (d.sectors lba) diskSectorSize) := by
  let ready : AtaDisk := { d with phase := .transfer .read lba left 0 (d.sectors lba) }
  have hwait : d.semWait fails = some ready := by
    rw [semWait_of_busy h hsem, tick_read h hok]
  have hready : diskWaitData fails ready = some (ready, 0) :=
    diskWaitData_eq (fun _ _ _ _ => AtaPhase.noConfusion) herr
  have hdata : diskReadData ready mem buf (255 + 1)
      = ({ d with phase := readOn lba left }, copy mem buf (d.sectors lba) diskSectorSize) := by
    rw [diskReadData_eq rfl rfl]
    simp only [Nat.mul_zero, Nat.zero_add]
    rfl
  rw [devDiskReadLoop, hwait]
  dsimp only
  rw [hready]
  dsimp only
  rw [if_neg (by decide), show diskSectorSize / 2 = 255 + 1 from rfl, hdata]

/-- A round of `dev_disk_write`. -/
theorem devDiskWriteLoop_step (h : d.phase = .transfer .write lba left 0 data) (hsem : d.sem = 0)
    (herr : d.err = false) (hok : fails .write lba = false) :
    devDiskWriteLoop fails mem buf (n + 1) d
      = devDiskWriteLoop fails mem buf n
          { d with
            sectors := d.put lba fun i => mem (buf + i)
            phase := writeOn lba left } := by
  let bytes : Bytes := copy data 0 (fun i => mem (buf + i)) diskSectorSize
  let full : AtaDisk := { d with phase := .busy .write lba left bytes }
  let ready : AtaDisk :=
    { d with sectors := d.put lba fun i => mem (buf + i), phase := writeOn lba left }
  have hdata : diskWriteData d mem buf (255 + 1) = full := by
    rw [diskWriteData_eq h rfl]
    rfl
  have hput : full.put lba bytes = d.put lba fun i => mem (buf + i) := by
    funext s
    rw [put, put, copy_copy]
  have hwait : full.semWait fails = some ready := by
    rw [semWait_of_busy (d := full) rfl hsem, tick_write (d := full) rfl hok, hput]
  have hready : diskWaitData fails ready = some (ready, 0) :=
    diskWaitData_eq (writeOn_ne_busy lba left) herr
  rw [devDiskWriteLoop, show diskSectorSize / 2 = 255 + 1 from rfl, hdata, hwait]
  dsimp only
  rw [hready]
  exact if_neg (by decide)

/-! ## All sectors -/

variable (mem buf) in
/-- `n + 1` rounds of `dev_disk_read`: the last sector stays in the memory. -/
theorem devDiskReadLoop_run (h : d.phase = .busy .read lba left data) (hsem : d.sem = 0)
    (herr : d.err = false) (hok : ∀ i ≤ n, fails .read (lba + i) = false) (hn : n < left) :
    ∃ d', devDiskReadLoop fails buf (n + 1) d mem
        = some (d', copy mem buf (d.sectors (lba + n)) diskSectorSize)
      ∧ d'.sectors = d.sectors := by
  induction n generalizing d mem lba left data with
  | zero =>
      rw [devDiskReadLoop_step h hsem herr (hok 0 (Nat.le_refl 0)), devDiskReadLoop]
      exact ⟨_, rfl, rfl⟩
  | succ n ih =>
      have hmore : readOn lba left = .busy .read (lba + 1) (left - 1) fun _ => 0 :=
        if_neg (by omega)
      rw [devDiskReadLoop_step h hsem herr (hok 0 (Nat.zero_le _))]
      have hrest : ∀ i ≤ n, fails .read (lba + 1 + i) = false := by
        intro i hi
        rw [Nat.add_right_comm]
        exact hok (i + 1) (by omega)
      obtain ⟨d', hrun, hsectors⟩ := ih (d := { d with phase := readOn lba left })
        (copy mem buf (d.sectors lba) diskSectorSize) hmore hsem herr hrest (by omega)
      refine ⟨d', hrun.trans ?_, hsectors⟩
      rw [copy_over, Nat.add_right_comm]
      rfl

variable (mem buf) in
/-- `n` rounds of `dev_disk_write`: each sector gets the bytes at `buf`. -/
theorem devDiskWriteLoop_run (h : d.phase = .transfer .write lba left 0 data) (hsem : d.sem = 0)
    (herr : d.err = false) (hok : ∀ i < n, fails .write (lba + i) = false) (hn : n ≤ left) :
    ∃ d', devDiskWriteLoop fails mem buf n d = some d' ∧ d'.sem = 0
      ∧ ∀ s, d'.sectors s
        = if lba ≤ s ∧ s < lba + n then
            copy (d.sectors s) 0 (fun i => mem (buf + i)) diskSectorSize
          else d.sectors s := by
  induction n generalizing d lba left data with
  | zero => exact ⟨d, rfl, hsem, fun s => (if_neg (by omega)).symm⟩
  | succ n ih =>
      rw [devDiskWriteLoop_step h hsem herr (hok 0 (Nat.succ_pos n))]
      let next : AtaDisk :=
        { d with sectors := d.put lba fun i => mem (buf + i), phase := writeOn lba left }
      have hnext : ∃ d', devDiskWriteLoop fails mem buf n next = some d' ∧ d'.sem = 0
          ∧ ∀ s, d'.sectors s
            = if lba + 1 ≤ s ∧ s < lba + 1 + n then
                copy (next.sectors s) 0 (fun i => mem (buf + i)) diskSectorSize
              else next.sectors s := by
        cases n with
        | zero => exact ⟨next, rfl, hsem, fun s => (if_neg (by omega)).symm⟩
        | succ n =>
            have hmore : next.phase = .transfer .write (lba + 1) (left - 1) 0 fun _ => 0 :=
              if_neg (by omega)
            refine ih (d := next) hmore hsem herr (fun i hi => ?_) (by omega)
            rw [Nat.add_right_comm]
            exact hok (i + 1) (by omega)
      obtain ⟨d', hrun, hsem', hsectors⟩ := hnext
      refine ⟨d', hrun, hsem', fun s => ?_⟩
      rw [hsectors s]
      by_cases hs : s = lba
      · rw [if_neg (by omega), if_pos (by omega)]
        exact if_pos hs
      · have hother : next.sectors s = d.sectors s := if_neg hs
        rw [hother]
        exact if_congr (by omega) rfl rfl

theorem diskWriteData_idle (h : d.phase = .idle) : diskWriteData d mem c n = d := by
  induction n generalizing c with
  | zero => rw [diskWriteData]
  | succ n ih =>
      have hout : ∀ w, d.outw w = d := by
        intro w
        rw [outw, h]
      rw [diskWriteData, hout, ih]

theorem devDiskWriteLoop_idle (h : d.phase = .idle) (hsem : d.sem = 0) :
    devDiskWriteLoop fails mem buf (n + 1) d = none := by
  have hwait : d.semWait fails = none := by
    rw [semWait, if_neg (by omega), h]
  rw [devDiskWriteLoop, diskWriteData_idle h, hwait]

variable (mem buf) in
/-- A disk that has served its sectors is waited for without end. -/
theorem devDiskWriteLoop_blocks (h : d.phase = .transfer .write lba left 0 data) (hsem : d.sem = 0)
    (herr : d.err = false) (hok : ∀ i < left, fails .write (lba + i) = false) (hpos : 0 < left)
    (hn : left < n) : devDiskWriteLoop fails mem buf n d = none := by
  obtain ⟨n, rfl⟩ : ∃ k, n = k + 1 := ⟨n - 1, by omega⟩
  induction n generalizing d lba left data with
  | zero => omega
  | succ n ih =>
      rw [devDiskWriteLoop_step h hsem herr (hok 0 hpos)]
      let next : AtaDisk :=
        { d with sectors := d.put lba fun i => mem (buf + i), phase := writeOn lba left }
      by_cases hone : left = 1
      · exact devDiskWriteLoop_idle (d := next) (if_pos hone) hsem
      · have hmore : next.phase = .transfer .write (lba + 1) (left - 1) 0 fun _ => 0 :=
          if_neg hone
        refine ih (d := next) hmore hsem herr (fun i hi => ?_) (by omega) (by omega)
        rw [Nat.add_right_comm]
        exact hok (i + 1) (by omega)

end Rounds

/-! ## A command -/

section Command

variable {d : AtaDisk} {drive : UInt8} {ss sc : UInt32}

/-- The sectors that the disk serves for a count of 16 bits. -/
def servedCount (sc : UInt32) : Nat :=
  if sc.toNat % 0x10000 = 0 then 0x10000 else sc.toNat % 0x10000

theorem address_bytes (ss : UInt32) :
    ss.toUInt8.toNat + 0x100 * (ss >>> 8).toUInt8.toNat + 0x10000 * (ss >>> 16).toUInt8.toNat
      + 0x1000000 * (ss >>> 24).toUInt8.toNat = ss.toNat := by
  have h := ss.toNat_lt
  simp only [UInt32.toNat_toUInt8, UInt32.toNat_shiftRight, Nat.shiftRight_eq_div_pow]
  have h8 : (8 : UInt32).toNat % 32 = 8 := rfl
  have h16 : (16 : UInt32).toNat % 32 = 16 := rfl
  have h24 : (24 : UInt32).toNat % 32 = 24 := rfl
  rw [h8, h16, h24]
  omega

theorem count_bytes (sc : UInt32) :
    sc.toUInt8.toNat + 0x100 * (sc >>> 8).toUInt8.toNat = sc.toNat % 0x10000 := by
  simp only [UInt32.toNat_toUInt8, UInt32.toNat_shiftRight, Nat.shiftRight_eq_div_pow]
  have h8 : (8 : UInt32).toNat % 32 = 8 := rfl
  rw [h8]
  omega

/-- The registers as `disk_cmd` leaves them. -/
theorem diskCmd_eq (d : AtaDisk) (drive : UInt8) (ss sc : UInt32) (cmd : UInt8) :
    ∃ d' : AtaDisk, diskCmd d drive ss sc cmd = d'.command cmd ∧ d'.lba = ss.toNat
      ∧ d'.count = servedCount sc ∧ d'.sem = d.sem ∧ d'.sectors = d.sectors := by
  refine ⟨_, rfl, ?_, ?_, rfl, rfl⟩
  · rw [← address_bytes ss]
    rfl
  · rw [servedCount, ← count_bytes sc]
    rfl

theorem diskCmd_read (d : AtaDisk) (drive : UInt8) (ss sc : UInt32) :
    ∃ d' : AtaDisk, diskCmd d drive ss sc diskCmdRead = d'
      ∧ d'.phase = .busy .read ss.toNat (servedCount sc) (fun _ => 0) ∧ d'.err = false
      ∧ d'.sem = d.sem ∧ d'.sectors = d.sectors := by
  obtain ⟨d', hcmd, hlba, hcount, hsem, hsectors⟩ := diskCmd_eq d drive ss sc diskCmdRead
  rw [AtaDisk.command, if_pos rfl, hlba, hcount] at hcmd
  exact ⟨_, hcmd, rfl, rfl, hsem, hsectors⟩

theorem diskCmd_write (d : AtaDisk) (drive : UInt8) (ss sc : UInt32) :
    ∃ d' : AtaDisk, diskCmd d drive ss sc diskCmdWrite = d'
      ∧ d'.phase = .transfer .write ss.toNat (servedCount sc) 0 (fun _ => 0) ∧ d'.err = false
      ∧ d'.sem = d.sem ∧ d'.sectors = d.sectors := by
  obtain ⟨d', hcmd, hlba, hcount, hsem, hsectors⟩ := diskCmd_eq d drive ss sc diskCmdWrite
  rw [AtaDisk.command, if_neg (by decide), if_pos rfl, hlba, hcount] at hcmd
  exact ⟨_, hcmd, rfl, rfl, hsem, hsectors⟩

end Command

/-! ## A write and a read -/

/-- `start_sector + addr`. -/
def DiskPart.sector (part : DiskPart) (addr : Int32) : Nat :=
  (part.startSector + addr.toUInt32).toNat

/-- A write of `size` sectors and a read of them. Each call reports the errors of the
disk; without one the bytes come back, and no other sector changes. -/
def TransfersWell (fails : DiskCmd → Nat → Bool) (part : DiskPart) (d : AtaDisk) (mem : Bytes)
    (addr : Int32) (buf buf2 : Nat) (size : Int32) : Prop :=
  let lba := part.sector addr
  let n := size.toInt.toNat
  ∃ r₁ d₁ r₂ d₂ mem₂, devDiskWrite fails (some part) d mem addr buf size = some (r₁, d₁)
    ∧ devDiskRead fails (some part) d₁ mem addr buf2 size = some (r₂, d₂, mem₂)
    ∧ ((∃ i < n, fails .write (lba + i)) → r₁ < 0)
    ∧ ((∃ i < n, fails .read (lba + i)) → r₂ < 0)
    ∧ ((∀ i < n, ¬ fails .write (lba + i) ∧ ¬ fails .read (lba + i)) →
        ∀ j < 512 * n, mem₂ (buf2 + j) = mem (buf + j))
    ∧ ∀ s, s < lba ∨ lba + n ≤ s → d₂.sectors s = d.sectors s

section Law

variable {fails : DiskCmd → Nat → Bool} {part : DiskPart} {d d' : AtaDisk} {mem mem' : Bytes}
  {addr size : Int32} {buf buf2 n : Nat} {drive : UInt8} {r : Int}

theorem devDiskWrite_returns (hpart : part.disk = some drive)
    (h : devDiskWrite fails (some part) d mem addr buf size = some (r, d')) : r = 0 := by
  rw [devDiskWrite] at h
  simp only [hpart] at h
  obtain ⟨d₁, -, h⟩ := Option.map_eq_some_iff.mp h
  exact (congrArg Prod.fst h).symm

theorem devDiskRead_returns (hpart : part.disk = some drive)
    (h : devDiskRead fails (some part) d mem addr buf size = some (r, d', mem')) : r = 0 := by
  rw [devDiskRead] at h
  simp only [hpart] at h
  obtain ⟨d₁, -, h⟩ := Option.map_eq_some_iff.mp h
  exact (congrArg Prod.fst h).symm

/-- The disk serves the whole of a size up to 65536. -/
theorem servedCount_eq (hsize : 0 < size) :
    (size.toInt.toNat ≤ 0x10000 → servedCount size.toUInt32 = size.toInt.toNat)
      ∧ (0x10000 < size.toInt.toNat → servedCount size.toUInt32 < size.toInt.toNat)
      ∧ 0 < servedCount size.toUInt32 := by
  have hpos : 0 < size.toInt := by simpa using Int32.lt_iff_toInt_lt.mp hsize
  have hnat : size.toUInt32.toNat = size.toInt.toNat :=
    Int32.toNat_toUInt32_of_le (Int32.le_of_lt hsize)
  rw [servedCount, hnat]
  split
  · omega
  · omega

variable (mem buf) in
/-- Without an error every sector gets the first bytes at `buf`. -/
theorem devDiskWrite_eq (hpart : part.disk = some drive) (hsem : d.sem = 0) (hsize : 0 < size)
    (hn : size.toInt.toNat ≤ 0x10000)
    (hok : ∀ i < size.toInt.toNat, fails .write (part.sector addr + i) = false) :
    ∃ d', devDiskWrite fails (some part) d mem addr buf size = some (0, d') ∧ d'.sem = 0
      ∧ ∀ s, d'.sectors s
        = if part.sector addr ≤ s ∧ s < part.sector addr + size.toInt.toNat then
            copy (d.sectors s) 0 (fun i => mem (buf + i)) diskSectorSize
          else d.sectors s := by
  obtain ⟨d₀, hcmd, hphase, herr, hsem₀, hsectors₀⟩ := diskCmd_write d drive
    (part.startSector + addr.toUInt32) size.toUInt32
  have hcount := (servedCount_eq hsize).1 hn
  obtain ⟨d', hrun, hsem', hsectors'⟩ := devDiskWriteLoop_run mem buf hphase
    (hsem₀.trans hsem) herr hok (Nat.le_of_eq hcount.symm)
  refine ⟨d', ?_, hsem', ?_⟩
  · rw [devDiskWrite]
    simp only [hpart, hcmd, hrun]
    rfl
  · rw [← hsectors₀]
    exact hsectors'

variable (mem buf) in
/-- More sectors than the disk counts are waited for without end. -/
theorem devDiskWrite_blocks (hpart : part.disk = some drive) (hsem : d.sem = 0) (hsize : 0 < size)
    (hn : 0x10000 < size.toInt.toNat)
    (hok : ∀ i < size.toInt.toNat, fails .write (part.sector addr + i) = false) :
    devDiskWrite fails (some part) d mem addr buf size = none := by
  obtain ⟨d₀, hcmd, hphase, herr, hsem₀, hsectors₀⟩ := diskCmd_write d drive
    (part.startSector + addr.toUInt32) size.toUInt32
  obtain ⟨-, hlt, hpos⟩ := servedCount_eq hsize
  have hblocks := devDiskWriteLoop_blocks mem buf hphase (hsem₀.trans hsem) herr
    (fun i hi => hok i (Nat.lt_trans hi (hlt hn))) hpos (hlt hn)
  rw [devDiskWrite]
  simp only [hpart, hcmd, hblocks]
  rfl

variable (mem buf) in
/-- Without an error the last sector stays at `buf`. -/
theorem devDiskRead_eq (hpart : part.disk = some drive) (hsem : d.sem = 0) (hsize : 0 < size)
    (hn : size.toInt.toNat ≤ 0x10000)
    (hok : ∀ i < size.toInt.toNat, fails .read (part.sector addr + i) = false) :
    ∃ d', devDiskRead fails (some part) d mem addr buf size
        = some (0, d', copy mem buf (d.sectors (part.sector addr + (size.toInt.toNat - 1)))
            diskSectorSize)
      ∧ d'.sectors = d.sectors := by
  obtain ⟨d₀, hcmd, hphase, herr, hsem₀, hsectors₀⟩ := diskCmd_read d drive
    (part.startSector + addr.toUInt32) size.toUInt32
  obtain ⟨hcount, -, hpos⟩ := servedCount_eq hsize
  have hserved := hcount hn
  obtain ⟨n, hsucc⟩ : ∃ n, size.toInt.toNat = n + 1 := ⟨size.toInt.toNat - 1, by omega⟩
  rw [hsucc] at hok
  obtain ⟨d', hrun, hsectors'⟩ := devDiskReadLoop_run (n := n) mem buf hphase
    (hsem₀.trans hsem) herr (fun i hi => hok i (Nat.lt_succ_of_le hi)) (by omega)
  refine ⟨d', ?_, hsectors'.trans hsectors₀⟩
  rw [devDiskRead]
  simp only [hpart, hcmd, hsucc, hrun, hsectors₀]
  rfl

variable (mem buf buf2) in
/-- What comes of a write and a read without an error. -/
theorem transfer_eq (hpart : part.disk = some drive) (hsem : d.sem = 0) (hsize : 0 < size)
    (hn : size.toInt.toNat ≤ 0x10000)
    (hok : ∀ i < size.toInt.toNat,
      ¬ fails .write (part.sector addr + i) ∧ ¬ fails .read (part.sector addr + i)) :
    ∃ d₁ d₂ mem₂, devDiskWrite fails (some part) d mem addr buf size = some (0, d₁)
      ∧ devDiskRead fails (some part) d₁ mem addr buf2 size = some (0, d₂, mem₂)
      ∧ (∀ j, mem₂ (buf2 + j) = if j < 512 then mem (buf + j) else mem (buf2 + j))
      ∧ ∀ s, s < part.sector addr ∨ part.sector addr + size.toInt.toNat ≤ s →
          d₂.sectors s = d.sectors s := by
  have hpos : 0 < size.toInt := by simpa using Int32.lt_iff_toInt_lt.mp hsize
  obtain ⟨d₁, hwrite, hsem₁, hsectors₁⟩ := devDiskWrite_eq mem buf hpart hsem
    hsize hn fun i hi => Bool.eq_false_iff.mpr (hok i hi).1
  obtain ⟨d₂, hread, hsectors₂⟩ := devDiskRead_eq mem buf2 hpart hsem₁
    hsize hn fun i hi => Bool.eq_false_iff.mpr (hok i hi).2
  refine ⟨d₁, d₂, _, hwrite, hread, fun j => ?_, fun s hs => ?_⟩
  · by_cases hj : j < 512
    · have hlast : part.sector addr ≤ part.sector addr + (size.toInt.toNat - 1)
          ∧ part.sector addr + (size.toInt.toNat - 1) < part.sector addr + size.toInt.toNat := by
        omega
      rw [if_pos hj, copy_inside (by omega) (by rw [diskSectorSize]; omega), hsectors₁,
        if_pos hlast, copy_inside (by omega) (by rw [diskSectorSize]; omega)]
      exact congrArg mem (by omega)
    · rw [if_neg hj, copy_outside (by rw [diskSectorSize]; omega)]
  · rw [hsectors₂, hsectors₁, if_neg (by omega)]

/-- A transfer goes well if and only if the disk has no error to report, it can count the
sectors, and the bytes behind the first sector are at `buf2` already. -/
theorem devDisk_law (hpart : part.disk = some drive) (hsem : d.sem = 0) (hsize : 0 < size) :
    TransfersWell fails part d mem addr buf buf2 size
      ↔ (∀ i < size.toInt.toNat,
          ¬ fails .write (part.sector addr + i) ∧ ¬ fails .read (part.sector addr + i))
        ∧ size.toInt.toNat ≤ 0x10000
        ∧ ∀ j, 512 ≤ j → j < 512 * size.toInt.toNat → mem (buf2 + j) = mem (buf + j) := by
  constructor
  · rintro ⟨r₁, d₁, r₂, d₂, mem₂, hwrite, hread, herr₁, herr₂, hdata, -⟩
    have hok : ∀ i < size.toInt.toNat,
        ¬ fails .write (part.sector addr + i) ∧ ¬ fails .read (part.sector addr + i) := by
      intro i hi
      have h₁ := devDiskWrite_returns hpart hwrite
      have h₂ := devDiskRead_returns hpart hread
      constructor
      · intro hfails
        have hneg := herr₁ ⟨i, hi, hfails⟩
        omega
      · intro hfails
        have hneg := herr₂ ⟨i, hi, hfails⟩
        omega
    have hn : size.toInt.toNat ≤ 0x10000 := by
      by_contra hmore
      have hblocks := devDiskWrite_blocks mem buf hpart hsem hsize
        (Nat.lt_of_not_le hmore) fun i hi => Bool.eq_false_iff.mpr (hok i hi).1
      rw [hblocks] at hwrite
      cases hwrite
    refine ⟨hok, hn, fun j hj hlt => ?_⟩
    obtain ⟨d₁', d₂', mem₂', hwrite', hread', hmem, -⟩ :=
      transfer_eq mem buf buf2 hpart hsem hsize hn hok
    rw [hwrite] at hwrite'
    cases hwrite'
    rw [hread] at hread'
    cases hread'
    rw [← hdata hok j hlt, hmem, if_neg (by omega)]
  · rintro ⟨hok, hn, hsame⟩
    obtain ⟨d₁, d₂, mem₂, hwrite, hread, hmem, hsectors⟩ :=
      transfer_eq mem buf buf2 hpart hsem hsize hn hok
    refine ⟨0, d₁, 0, d₂, mem₂, hwrite, hread, ?_, ?_, ?_, hsectors⟩
    · rintro ⟨i, hi, hfails⟩
      exact absurd hfails (hok i hi).1
    · rintro ⟨i, hi, hfails⟩
      exact absurd hfails (hok i hi).2
    · intro _ j hj
      rw [hmem]
      split
      · rfl
      · exact hsame j (by omega) hj

end Law

/-- A partition at the sector 63 of the first drive. -/
def smallPart : DiskPart := ⟨some 0, 63⟩

/-- A disk of zeros. -/
def smallAta : AtaDisk where
  sectors := fun _ _ => 0
  drive := 0
  sc := ⟨0, 0⟩
  lbaL := ⟨0, 0⟩
  lbaM := ⟨0, 0⟩
  lbaH := ⟨0, 0⟩
  phase := .idle
  err := false
  sem := 0

/-- Every sector can be read and written. -/
def noFails : DiskCmd → Nat → Bool := fun _ _ => false

/-- A memory with ones behind the first 512 bytes, up to 1024. -/
def twoSectors : Bytes := fun a => if 512 ≤ a ∧ a < 1024 then 1 else 0

/-- One sector goes and comes back. -/
theorem devDisk_law_one :
    TransfersWell noFails smallPart smallAta twoSectors 5 0 4096 1 :=
  (devDisk_law rfl rfl (by decide)).mpr
    ⟨fun _ _ => ⟨Bool.false_ne_true, Bool.false_ne_true⟩, by decide,
      fun j hj hlt => absurd hlt (by rw [show (1 : Int32).toInt.toNat = 1 from rfl]; omega)⟩

/-- The second of two sectors does not. -/
theorem devDisk_law_two :
    ¬ TransfersWell noFails smallPart smallAta twoSectors 5 0 4096 2 := by
  rintro ⟨r₁, d₁, r₂, d₂, mem₂, hwrite, hread, -, -, hdata, -⟩
  have hsize : (0 : Int32) < 2 := by decide
  have hok : ∀ i < (2 : Int32).toInt.toNat,
      ¬ noFails .write (smallPart.sector 5 + i) ∧ ¬ noFails .read (smallPart.sector 5 + i) :=
    fun _ _ => ⟨Bool.false_ne_true, Bool.false_ne_true⟩
  obtain ⟨d₁', d₂', mem₂', hwrite', hread', hmem, -⟩ := transfer_eq twoSectors 0 4096
    (d := smallAta) rfl rfl hsize (by decide) hok
  rw [hwrite] at hwrite'
  cases hwrite'
  rw [hread] at hread'
  cases hread'
  have hbyte := (hmem 512).symm.trans (hdata hok 512 (by decide))
  exact absurd hbyte (by decide)

end Csos
