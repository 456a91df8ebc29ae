import Csos.Device
import Csos.FileTable
import Csos.Tty

/-!
# From a file to its terminal (`dev_fs_open`, `device_write`, `get_tty`)

A `FILE` on `/dev/ttyN` keeps N in `dcluster`, but its `devid` is the
constant `DEV_TTY`, which happens to be the slot of the first terminal that
was opened. `dev_tty_write` adds N to the minor number of that slot, so the
bytes go to terminal N only when the first one was `tty0`.

Every number of tasks opens, writes and reads. A byte waits here until
there is room for it, or until it has come, which is what the semaphores
of the terminals are for.
-/

namespace Csos

open Lib

/-- `FILE`, as `dev_fs_open` leaves it. -/
structure TtyFile where
  fd : Int
  name : List UInt8
  devid : UInt8
  dcluster : UInt32
  mode : UInt8
deriving DecidableEq

namespace TtyFile

/-- The terminal whose name was opened. -/
def number (file : TtyFile) : Nat := (file.name.getD 3 0 - 0x30).toNat

end TtyFile

/-- `"tty"`, and the path of a terminal. -/
def ttyPrefix : List UInt8 := [0x74, 0x74, 0x79]
def ttyPath (n : Nat) : List UInt8 := devPrefix ++ ttyPrefix ++ [0x30 + UInt8.ofNat n]

/-- A call in progress: the terminal that `get_tty(dev) + addr` points to,
unless there is none, and what is left to do. -/
inductive RoutePc where
  | idle
  | write (file : TtyFile) (tty : Option Int) (buf : List UInt8)
  | read (file : TtyFile) (tty : Option Int) (size : Nat)

/-- A byte that a call has moved. -/
structure Moved where
  file : TtyFile
  tty : Int
  c : UInt8

structure TtyRoutes (T : Type) where
  dt : Nat → DeviceT Unit
  ofifo : Int → TtyFifo
  ififo : Int → TtyFifo
  files : List TtyFile
  pc : T → RoutePc
  written : List Moved
  read : List Moved

inductive RouteAction (T : Type) where
  | fopen (filepath : List UInt8) (mode : UInt8) (fd : Int)
  | fwrite (t : T) (file : TtyFile) (buf : List UInt8)
  | fread (t : T) (file : TtyFile) (size : Nat)
  | step (t : T)
  /-- `tty_write` takes a byte, and the keyboard brings one -/
  | drain (tty : Int)
  | typed (tty : Int) (c : UInt8)

namespace TtyRoutes

variable {T : Type} [DecidableEq T]

/-- The device table after `fs_init`, which has opened the disk. -/
def diskOpened : Nat → DeviceT Unit :=
  (deviceOpen (fun _ => .zero) DeviceHandle.disk.major 0xb1 { err := 0, data := none }).dt

def fsInit (fifo : Int → TtyFifo) : TtyRoutes T where
  dt := diskOpened
  ofifo := fifo
  ififo := fifo
  files := []
  pc := fun _ => .idle
  written := []
  read := []

/-- What `dev_tty_open` returns for a minor number. -/
def devTtyOpenErr (minor : Int32) : Int32 := if minor < 0 ∨ minor ≥ 8 then -1 else 0

/-- `dev_fs_open`, and the file unless it fails. -/
def devFsOpen (s : TtyRoutes T) (path : List UInt8) (mode : UInt8) (fd : Int) :
    TtyRoutes T × Option TtyFile :=
  if kernelStrncmp path ttyPrefix = 0 then
    let screen : Int32 := Int32.ofInt (path.getD 3 0).toInt8.toInt - 0x30
    let o := deviceOpen s.dt DeviceHandle.tty.major screen
      { err := devTtyOpenErr screen, data := none }
    let opened := o.called && devTtyOpenErr screen = 0
    let n := screen.toInt
    ({ s with
        dt := o.dt
        ofifo := if opened then
          Function.update s.ofifo n (ttyFifoInit (s.ofifo n).buf ttyObufSize) else s.ofifo
        ififo := if opened then
          Function.update s.ififo n (ttyFifoInit (s.ififo n).buf ttyIbufSize) else s.ififo },
      if o.result < 0 then none
      else some {
        fd
        name := path
        devid := 1
        dcluster := screen.toUInt32
        mode := if mode = 0x77 then 2 else 1 })
  else (s, none)

/-- `fs_fopen` of a device; `fd` is what `task_alloc_fd` returns. -/
def fsFopen (s : TtyRoutes T) (filepath : List UInt8) (mode : UInt8) (fd : Int) : TtyRoutes T :=
  let (s, file) := s.devFsOpen (filepath.drop 5) mode fd
  { s with files := s.files ++ file.toList }

/-- `get_tty(dev) + addr`. -/
def getTty (dev : DeviceT Unit) (addr : UInt32) : Option Int :=
  if dev.minor < 0 ∨ dev.minor ≥ 8 ∨ dev.opc = 0 then none
  else some (dev.minor.toInt + addr.toInt32.toInt)

/-- The terminal that `device_write` and `device_read` go on with; `none`
when they go on with none. -/
def target (s : TtyRoutes T) (file : TtyFile) : Option (Option Int) :=
  if file.fd < 0 then none
  else
    match deviceTarget s.dt file.devid.toNat with
    | some (.tty, dev) => some (getTty dev file.dcluster)
    | _ => none

def goto (s : TtyRoutes T) (t : T) (pc : RoutePc) : TtyRoutes T :=
  { s with pc := Function.update s.pc t pc }

/-- `fs_fwrite` and `fs_fread`. -/
def fsFwrite (s : TtyRoutes T) (t : T) (file : TtyFile) (buf : List UInt8) : TtyRoutes T :=
  match s.target file with
  | none => s
  | some tty => if buf = [] then s else s.goto t (.write file tty buf)

def fsFread (s : TtyRoutes T) (t : T) (file : TtyFile) (size : Nat) : TtyRoutes T :=
  match s.target file with
  | none => s
  | some tty => if size = 0 then s else s.goto t (.read file tty size)

/-- One round of the loop of `dev_tty_write`. -/
def putByte (s : TtyRoutes T) (t : T) (file : TtyFile) (tty : Int) (c : UInt8) (rest : List UInt8) :
    Option (TtyRoutes T) :=
  (ttyFifoPut (s.ofifo tty) c).map fun fifo =>
    { s.goto t (if rest = [] then .idle else .write file (some tty) rest) with
      ofifo := Function.update s.ofifo tty fifo
      written := s.written ++ [{ file, tty, c }] }

/-- One round of the loop of `dev_tty_read`. -/
def getByte (s : TtyRoutes T) (t : T) (file : TtyFile) (tty : Int) (size : Nat) :
    Option (TtyRoutes T) :=
  (ttyFifoGet (s.ififo tty)).map fun r =>
    { s.goto t (if size = 0 then .idle else .read file (some tty) size) with
      ififo := Function.update s.ififo tty r.1
      read := s.read ++ [{ file, tty, c := r.2 }] }

def step (s : TtyRoutes T) : RouteAction T → Option (TtyRoutes T)
  | .fopen filepath mode fd => some (s.fsFopen filepath mode fd)
  | .fwrite t file buf =>
      match s.pc t with
      | .idle => some (s.fsFwrite t file buf)
      | _ => none
  | .fread t file size =>
      match s.pc t with
      | .idle => some (s.fsFread t file size)
      | _ => none
  | .step t =>
      match s.pc t with
      | .write file (some tty) (c :: rest) => s.putByte t file tty c rest
      | .read file (some tty) (size + 1) => s.getByte t file tty size
      | _ => none
  | .drain tty =>
      (ttyFifoGet (s.ofifo tty)).map fun r =>
        { s with ofifo := Function.update s.ofifo tty r.1 }
  | .typed tty c =>
      (ttyFifoPut (s.ififo tty) c).map fun fifo =>
        { s with ififo := Function.update s.ififo tty fifo }

/-- Only terminals are opened, and only files that were opened are used. -/
def Fits (s : TtyRoutes T) : RouteAction T → Prop
  | .fopen filepath _ _ => ∃ n < ttyDevNr, filepath = ttyPath n
  | .fwrite _ file _ => file ∈ s.files
  | .fread _ file _ => file ∈ s.files
  | .step _ | .drain _ | .typed .. => True

/-- Calls go to the terminal of their file, and so does every byte that
they move. -/
structure RouteLaw (s : TtyRoutes T) : Prop where
  writes : ∀ t file tty buf, s.pc t = .write file tty buf → tty = some (file.number : Int)
  reads : ∀ t file tty size, s.pc t = .read file tty size → tty = some (file.number : Int)
  written : ∀ m ∈ s.written, m.tty = m.file.number
  read : ∀ m ∈ s.read, m.tty = m.file.number

/-- The slot that all files name is that of `tty0`. -/
def FirstIsTty0 (s : TtyRoutes T) : Prop := (s.dt 1).minor = 0 ∧ (s.dt 1).opc ≠ 0

/-- A call that has bytes to move is made while `tty0` is in the slot. -/
def Meets (s : TtyRoutes T) : RouteAction T → Prop
  | .fwrite t file buf => s.pc t = .idle → 0 ≤ file.fd → buf ≠ [] → s.FirstIsTty0
  | .fread t file size => s.pc t = .idle → 0 ≤ file.fd → size ≠ 0 → s.FirstIsTty0
  | _ => True

/-! ## The device table -/

/-- The slot that all files name: it is free and there are no files, or a
terminal has it. -/
def SlotOk (dt : Nat → DeviceT Unit) (files : List TtyFile) : Prop :=
  (dt 1).opc = 0 ∧ files = []
    ∨ (dt 1).handle = some .tty ∧ ∃ k : Nat, k < 8 ∧ (dt 1).minor = Int32.ofNat k

/-- What the files and the table have to do with each other. -/
structure RouteInv (s : TtyRoutes T) : Prop extends RouteLaw s where
  disk : (s.dt 0).handle = some .disk ∧ (s.dt 0).Live
  slot : SlotOk s.dt s.files
  files : ∀ f ∈ s.files, f.devid = 1 ∧ ∃ n : Nat, n < 8 ∧ f.number = n ∧ f.dcluster = UInt32.ofNat n

theorem toInt_ofNat_screen {n : Nat} (h : n < 8) : (Int32.ofNat n).toInt = n :=
  Int32.toInt_ofNat_of_lt (by omega)

/-- A terminal is opened. Whatever the loop finds, there is a terminal in
the slot behind the disk then. -/
theorem deviceOpen_tty {dt : Nat → DeviceT Unit} {files : List TtyFile} {n : Nat} (hn : n < 8)
    (hdisk : (dt 0).handle = some .disk ∧ (dt 0).Live) (hslot : SlotOk dt files) :
    let o := deviceOpen dt DeviceHandle.tty.major (Int32.ofNat n) { err := 0, data := none }
    o.dt 0 = dt 0 ∧ (o.dt 1).handle = some .tty
      ∧ ∃ k : Nat, k < 8 ∧ (o.dt 1).minor = Int32.ofNat k := by
  have h0 : ¬ (dt 0).Is DeviceHandle.tty.major (Int32.ofNat n) := by
    rintro ⟨hh, -⟩
    rw [hdisk.1] at hh
    exact absurd hh (by decide)
  -- a slot that is not free has had a terminal before
  have hone : (dt 1).Live → (dt 1).handle = some .tty
      ∧ ∃ k : Nat, k < 8 ∧ (dt 1).minor = Int32.ofNat k := fun hl =>
    hslot.resolve_left fun hz => hl hz.1
  unfold deviceOpen
  rcases deviceSearch_cases dt DeviceHandle.tty.major (Int32.ofNat n) deviceTableSize 0 with
    ⟨j, hs, -, hj, hfree, hall⟩ | ⟨j, hs, -, hj, hlive, his, hall⟩ | ⟨hs, hall⟩
  · have hj0 : j ≠ 0 := fun he => hfree (he ▸ hdisk.2)
    rw [hs, findHandle_major]
    dsimp only
    rw [if_pos rfl]
    refine ⟨Function.update_of_ne hj0.symm _ _, ?_⟩
    dsimp only
    by_cases hj1 : j = 1
    · rw [hj1, Function.update_self]
      exact ⟨rfl, n, hn, rfl⟩
    · rw [Function.update_of_ne (Ne.symm hj1)]
      exact hone (hall 1 (Nat.zero_le 1) (by omega)).1
  · have hj0 : j ≠ 0 := fun he => h0 (he ▸ his)
    rw [hs]
    refine ⟨Function.update_of_ne hj0.symm _ _, ?_⟩
    dsimp only
    by_cases hj1 : j = 1
    · subst hj1
      rw [Function.update_self]
      exact hone hlive
    · rw [Function.update_of_ne (Ne.symm hj1)]
      exact hone (hall 1 (Nat.zero_le 1) (by omega)).1
  · rw [hs]
    exact ⟨rfl, hone (hall 1 (Nat.zero_le 1) (by decide)).1⟩

variable {s s' : TtyRoutes T} {file : TtyFile} {t : T}

theorem addr_screen {n : Nat} (h : n < 8) : (UInt32.ofNat n).toInt32.toInt = n := by
  have hcases : ∀ m : Fin 8, (UInt32.ofNat m.val).toInt32.toInt = m.val := by decide
  exact hcases ⟨n, h⟩

/-- `get_tty(dev) + addr`. -/
theorem getTty_eq {dev : DeviceT Unit} {k n : Nat} (hk : k < 8) (hn : n < 8)
    (hminor : dev.minor = Int32.ofNat k) :
    getTty dev (UInt32.ofNat n) = if dev.opc = 0 then none else some ((k : Int) + n) := by
  have hm := toInt_ofNat_screen hk
  have h0 : ¬ dev.minor < 0 := by
    rw [hminor, Int32.lt_iff_toInt_lt, hm]
    exact Int.not_lt.mpr (Int.natCast_nonneg k)
  have h8 : ¬ dev.minor ≥ 8 := by
    rw [hminor, ge_iff_le, Int32.le_iff_toInt_le, hm]
    have : (8 : Int32).toInt = 8 := rfl
    omega
  unfold getTty
  simp only [h0, h8, false_or]
  rw [hminor, hm, addr_screen hn]

omit [DecidableEq T] in
/-- Where a call goes: to the terminal of the file exactly when `tty0` is
in the slot. -/
theorem target_iff (h : s.RouteInv) (hf : file ∈ s.files) (hfd : 0 ≤ file.fd) :
    ∃ tty, s.target file = some tty ∧ (tty = some (file.number : Int) ↔ s.FirstIsTty0) := by
  obtain ⟨hdevid, n, hn, hnumber, haddr⟩ := h.files file hf
  obtain ⟨hhandle, k, hk, hminor⟩ := h.slot.resolve_left fun hz => by
    rw [hz.2] at hf
    exact List.not_mem_nil hf
  have hverify : verifyDeviceId s.dt 1 = true := by
    refine decide_eq_true ⟨by decide, by decide, ?_⟩
    change (s.dt 1).handle ≠ none
    rw [hhandle]
    exact Option.some_ne_none _
  have htarget : deviceTarget s.dt file.devid.toNat = some (.tty, s.dt 1) := by
    rw [hdevid]
    change deviceTarget s.dt 1 = _
    unfold deviceTarget
    rw [if_pos hverify]
    change (s.dt 1).handle.map _ = _
    rw [hhandle]
    rfl
  refine ⟨getTty (s.dt 1) file.dcluster, ?_, ?_⟩
  · unfold target
    rw [if_neg (Int.not_lt.mpr hfd), htarget]
  · rw [haddr, getTty_eq hk hn hminor, hnumber]
    unfold FirstIsTty0
    by_cases hopc : (s.dt 1).opc = 0
    · rw [if_pos hopc]
      exact iff_of_false nofun fun h1 => h1.2 hopc
    · rw [if_neg hopc, and_iff_left hopc, Option.some.injEq, hminor]
      refine ⟨fun he => ?_, fun he => ?_⟩
      · have hk0 : k = 0 := by omega
        rw [hk0]
        rfl
      · have hk0 := toInt_ofNat_screen hk
        rw [he, Int32.toInt_zero] at hk0
        omega

/-! ## Opening -/

/-- The digit in the name of a terminal. -/
theorem screen_digit {n : Nat} (h : n < 8) :
    Int32.ofInt ((0x30 + UInt8.ofNat n).toInt8.toInt) - 0x30 = Int32.ofNat n
      ∧ (0x30 + UInt8.ofNat n - 0x30 : UInt8).toNat = n
      ∧ (Int32.ofNat n).toUInt32 = UInt32.ofNat n ∧ devTtyOpenErr (Int32.ofNat n) = 0 := by
  have hcases : ∀ m : Fin 8,
      Int32.ofInt ((0x30 + UInt8.ofNat m.val).toInt8.toInt) - 0x30 = Int32.ofNat m.val
        ∧ (0x30 + UInt8.ofNat m.val - 0x30 : UInt8).toNat = m.val
        ∧ (Int32.ofNat m.val).toUInt32 = UInt32.ofNat m.val
        ∧ devTtyOpenErr (Int32.ofNat m.val) = 0 := by decide
  exact hcases ⟨n, h⟩

omit [DecidableEq T] in
/-- A terminal is opened. -/
theorem RouteInv.fopen {n : Nat} (h : s.RouteInv) (hn : n < 8) (mode : UInt8) (fd : Int) :
    RouteInv (s.fsFopen (ttyPath n) mode fd) := by
  obtain ⟨hscreen, hnumber, haddr, herr⟩ := screen_digit hn
  obtain ⟨h0, hhandle, hminor⟩ := deviceOpen_tty hn h.disk h.slot
  have hpath : (ttyPath n).drop 5 = ttyPrefix ++ [0x30 + UInt8.ofNat n] := rfl
  have hprefix : kernelStrncmp (ttyPrefix ++ [0x30 + UInt8.ofNat n]) ttyPrefix = 0 := rfl
  have hdigit : (ttyPrefix ++ [0x30 + UInt8.ofNat n]).getD 3 0 = 0x30 + UInt8.ofNat n := rfl
  unfold fsFopen devFsOpen
  rw [hpath, if_pos hprefix, hdigit, hscreen]
  dsimp only
  rw [herr]
  refine { h with disk := ?_, slot := Or.inr ⟨hhandle, hminor⟩, files := fun f hf => ?_ }
  · dsimp only
    rw [h0]
    exact h.disk
  · rcases List.mem_append.mp hf with hf | hf
    · exact h.files f hf
    · rw [Option.mem_toList] at hf
      split at hf
      case isTrue => cases hf
      case isFalse =>
        obtain rfl := Option.some.inj hf
        exact ⟨rfl, n, hn, hnumber, haddr⟩

/-! ## Calls -/

/-- A task is where it was, or where it has gone. -/
theorem goto_pc {pc pc' : RoutePc} {u : T} (hu : (s.goto t pc).pc u = pc') :
    pc = pc' ∨ s.pc u = pc' := by
  change Function.update s.pc t pc u = _ at hu
  by_cases he : u = t
  · rw [he, Function.update_self] at hu
    exact Or.inl hu
  · rw [Function.update_of_ne he] at hu
    exact Or.inr hu

/-- A task goes on to a call of which the law holds. -/
theorem RouteInv.goto (h : s.RouteInv) (t : T) (pc : RoutePc)
    (hw : ∀ file tty buf, pc = .write file tty buf → tty = some (file.number : Int))
    (hr : ∀ file tty size, pc = .read file tty size → tty = some (file.number : Int)) :
    RouteInv (s.goto t pc) :=
  { h with
    writes := fun u file tty buf hu =>
      (goto_pc hu).elim (hw file tty buf) (h.writes u file tty buf)
    reads := fun u file tty size hu =>
      (goto_pc hu).elim (hr file tty size) (h.reads u file tty size) }

theorem RouteInv.fwrite {buf : List UInt8} (h : s.RouteInv) (ht : s.pc t = .idle)
    (hf : file ∈ s.files) (hm : s.Meets (.fwrite t file buf)) :
    RouteInv (s.fsFwrite t file buf) := by
  unfold fsFwrite
  by_cases hfd : 0 ≤ file.fd
  · obtain ⟨tty, htty, hiff⟩ := target_iff h hf hfd
    rw [htty]
    dsimp only
    split
    case isTrue => exact h
    case isFalse hbuf =>
      refine h.goto t _ (fun f tty' buf' he => ?_) nofun
      cases he
      exact hiff.mpr (hm ht hfd hbuf)
  · rw [target, if_pos (Int.not_le.mp hfd)]
    exact h

theorem RouteInv.fread {size : Nat} (h : s.RouteInv) (ht : s.pc t = .idle)
    (hf : file ∈ s.files) (hm : s.Meets (.fread t file size)) :
    RouteInv (s.fsFread t file size) := by
  unfold fsFread
  by_cases hfd : 0 ≤ file.fd
  · obtain ⟨tty, htty, hiff⟩ := target_iff h hf hfd
    rw [htty]
    dsimp only
    split
    case isTrue => exact h
    case isFalse hsize =>
      refine h.goto t _ nofun fun f tty' size' he => ?_
      cases he
      exact hiff.mpr (hm ht hfd hsize)
  · rw [target, if_pos (Int.not_le.mp hfd)]
    exact h

/-- A byte is put, and it goes where the call goes. -/
theorem RouteInv.putByte {tty : Int} {c : UInt8} {rest : List UInt8} (h : s.RouteInv)
    (ht : s.pc t = .write file (some tty) (c :: rest))
    (hs : s.putByte t file tty c rest = some s') : RouteInv s' := by
  obtain ⟨fifo, -, rfl⟩ := Option.map_eq_some_iff.mp hs
  have htty := h.writes t file _ _ ht
  have hgoto := h.goto t (if rest = [] then .idle else .write file (some tty) rest)
    (fun f tty' buf' he => ?_) (fun f tty' size' he => ?_)
  · refine { hgoto with written := fun m hm => ?_ }
    rcases List.mem_append.mp hm with hm | hm
    · exact h.written m hm
    · rw [List.mem_singleton.mp hm]
      exact Option.some.inj htty
  · split at he <;> cases he
    exact htty
  · split at he <;> cases he

theorem RouteInv.getByte {tty : Int} {size : Nat} (h : s.RouteInv)
    (ht : s.pc t = .read file (some tty) (size + 1)) (hs : s.getByte t file tty size = some s') :
    RouteInv s' := by
  obtain ⟨r, -, rfl⟩ := Option.map_eq_some_iff.mp hs
  have htty := h.reads t file _ _ ht
  have hgoto := h.goto t (if size = 0 then .idle else .read file (some tty) size)
    (fun f tty' buf' he => ?_) (fun f tty' size' he => ?_)
  · refine { hgoto with read := fun m hm => ?_ }
    rcases List.mem_append.mp hm with hm | hm
    · exact h.read m hm
    · rw [List.mem_singleton.mp hm]
      exact Option.some.inj htty
  · split at he <;> cases he
  · split at he <;> cases he
    exact htty

/-! ## Runs -/

theorem RouteInv.step {a : RouteAction T} (h : s.RouteInv) (hf : s.Fits a) (hm : s.Meets a)
    (hs : s.step a = some s') : s'.RouteInv := by
  cases a with
  | fopen filepath mode fd =>
      obtain ⟨n, hn, rfl⟩ := hf
      obtain rfl := Option.some.inj hs
      exact h.fopen hn mode fd
  | fwrite t file buf =>
      cases ht : s.pc t with
      | idle =>
          simp only [TtyRoutes.step, ht, Option.some.injEq] at hs
          exact hs ▸ h.fwrite ht hf hm
      | _ =>
          simp only [TtyRoutes.step, ht] at hs
          cases hs
  | fread t file size =>
      cases ht : s.pc t with
      | idle =>
          simp only [TtyRoutes.step, ht, Option.some.injEq] at hs
          exact hs ▸ h.fread ht hf hm
      | _ =>
          simp only [TtyRoutes.step, ht] at hs
          cases hs
  | step t =>
      unfold TtyRoutes.step at hs
      dsimp only at hs
      split at hs
      case h_1 file tty c rest ht => exact h.putByte ht hs
      case h_2 file tty size ht => exact h.getByte ht hs
      case h_3 => cases hs
  | drain tty =>
      obtain ⟨r, -, rfl⟩ := Option.map_eq_some_iff.mp hs
      exact { h with }
  | typed tty c =>
      obtain ⟨fifo, -, rfl⟩ := Option.map_eq_some_iff.mp hs
      exact { h with }

/-- A call with bytes to move that does not meet the condition goes to a
wrong terminal. -/
theorem RouteInv.breaks {a : RouteAction T} (h : s.RouteInv) (hf : s.Fits a) (hm : ¬ s.Meets a) :
    ∃ s', s.step a = some s' ∧ ¬ s'.RouteLaw := by
  cases a with
  | fwrite t file buf =>
      simp only [Meets, Classical.not_imp] at hm
      obtain ⟨ht, hfd, hbuf, hfirst⟩ := hm
      obtain ⟨tty, htty, hiff⟩ := target_iff h hf hfd
      have hcall : s.fsFwrite t file buf = s.goto t (.write file tty buf) := by
        unfold fsFwrite
        rw [htty]
        exact if_neg hbuf
      refine ⟨s.fsFwrite t file buf, by simp only [TtyRoutes.step, ht], fun hlaw => ?_⟩
      rw [hcall] at hlaw
      exact hfirst (hiff.mp (hlaw.writes t file tty buf (Function.update_self t _ _)))
  | fread t file size =>
      simp only [Meets, Classical.not_imp] at hm
      obtain ⟨ht, hfd, hsize, hfirst⟩ := hm
      obtain ⟨tty, htty, hiff⟩ := target_iff h hf hfd
      have hcall : s.fsFread t file size = s.goto t (.read file tty size) := by
        unfold fsFread
        rw [htty]
        exact if_neg hsize
      refine ⟨s.fsFread t file size, by simp only [TtyRoutes.step, ht], fun hlaw => ?_⟩
      rw [hcall] at hlaw
      exact hfirst (hiff.mp (hlaw.reads t file tty size (Function.update_self t _ _)))
  | fopen => exact absurd trivial hm
  | step => exact absurd trivial hm
  | drain => exact absurd trivial hm
  | typed => exact absurd trivial hm

omit [DecidableEq T] in
theorem routeInv_fsInit (fifo : Int → TtyFifo) : RouteInv (fsInit fifo : TtyRoutes T) where
  writes := nofun
  reads := nofun
  written := nofun
  read := nofun
  disk := ⟨(by decide : (diskOpened 0).handle = some .disk), (by decide : (diskOpened 0).Live)⟩
  slot := Or.inl ⟨(by decide : (diskOpened 1).opc = 0), rfl⟩
  files := nofun

/-- After `fs_init`, in every run of opens, writes and reads of terminals,
all bytes go to and come from the terminal of their file if and only if
every call that has bytes to move is made while `tty0` is in the slot of
the terminal that was opened first. -/
theorem route_law (fifo : Int → TtyFifo) (as : List (RouteAction T))
    (hfits : Always step Fits (fsInit fifo) as) :
    Throughout step RouteLaw (fsInit fifo) as ↔ Always step Meets (fsInit fifo) as :=
  throughout_iff_always (I := RouteInv) (fun _ h => h.toRouteLaw)
    (fun _ _ _ h hf hm hs => h.step hf hm hs) (fun _ _ h hf hm => h.breaks hf hm)
    (routeInv_fsInit fifo) hfits

/-- What `fs_fopen` leaves in a `FILE` on a terminal. -/
def ttyFile (n : Nat) : TtyFile where
  fd := 0
  name := ttyPrefix ++ [0x30 + UInt8.ofNat n]
  devid := 1
  dcluster := UInt32.ofNat n
  mode := 2

/-- The memory of the terminals before any is opened. -/
def noFifo (_ : Int) : TtyFifo := ttyFifoInit (fun _ => 0) 0

/-- `tty0` is opened first and `tty3` is written. -/
theorem route_law_tty0 :
    Throughout step RouteLaw (fsInit noFifo : TtyRoutes Unit)
      [.fopen (ttyPath 0) 0x77 0, .fopen (ttyPath 3) 0x77 0, .fwrite () (ttyFile 3) [0x41]] := by
  refine (route_law noFifo _ ?_).mpr ?_
  · refine ⟨⟨0, by decide, rfl⟩, fun s₁ h₁ => ⟨⟨3, by decide, rfl⟩, fun s₂ h₂ => ⟨?_, ?_⟩⟩⟩
    · obtain rfl := Option.some.inj h₁
      obtain rfl := Option.some.inj h₂
      exact (by decide : ttyFile 3 ∈ [ttyFile 0, ttyFile 3])
    · exact fun _ _ => trivial
  · refine ⟨trivial, fun s₁ h₁ => ⟨trivial, fun s₂ h₂ => ⟨fun _ _ _ => ?_, fun _ _ => trivial⟩⟩⟩
    obtain rfl := Option.some.inj h₁
    obtain rfl := Option.some.inj h₂
    exact ⟨by decide, by decide⟩

/-- `tty1` is opened first, and what is written to it comes out on
`tty2`. -/
theorem route_law_tty1 :
    ¬ ∀ as : List (RouteAction Unit), Always step Fits (fsInit noFifo) as →
      Throughout step RouteLaw (fsInit noFifo) as := by
  intro h
  have hlaw := h [.fopen (ttyPath 1) 0x77 0, .fopen (ttyPath 2) 0x77 0,
    .fwrite () (ttyFile 1) [0x41], .step ()] ?_ _ _ List.prefix_rfl rfl
  · have hm := hlaw.written { file := ttyFile 1, tty := 2, c := 0x41 } List.mem_cons_self
    exact absurd hm (by decide)
  · refine ⟨⟨1, by decide, rfl⟩, fun s₁ h₁ => ⟨⟨2, by decide, rfl⟩, fun s₂ h₂ => ⟨?_, ?_⟩⟩⟩
    · obtain rfl := Option.some.inj h₁
      obtain rfl := Option.some.inj h₂
      exact (by decide : ttyFile 1 ∈ [ttyFile 1, ttyFile 2])
    · exact fun _ _ => ⟨trivial, fun _ _ => trivial⟩

end TtyRoutes

end Csos
