import Csos.FileTable
import Csos.Queues
import Csos.Sync

/-!
# The lock of a file system (`mount`, `fs_lock`, `fs_unlock`)

The `mutex` of an `fs_t` is a pointer. `mount` fills the `fs_t` with zeroes
and passes the pointer to `mutex_init`, which does not set it, and nobody
else does: `fs_lock` and `fs_unlock` find no mutex and do nothing. So two
tasks are in one file system as soon as one of them calls it while the
other waits for the disk there.

The system is the kernel with its tasks and interrupts, and for each task
the call of the file system that it is in. What a call does between
`fs_lock` and `fs_unlock` is any sequence of steps of the kernel.
-/

namespace Csos

open Lib

/-- `fs_t`, as far as `mount` and the lock use it. -/
structure FsT (X : Type) where
  mp : List UInt8
  mutex : Option X

/-- `mounted_list` and `free_list`. -/
structure MountLists (X : Type) where
  mounted : List (FsT X)
  free : List (FsT X)

/-- A call that takes the lock of a file system, with what decides which
one it is. `fclose` is that of the last reference; `fs_getc` and `fs_putc`,
which do not get to `fs_unlock` when they fail, are left out. -/
inductive FsCall where
  | fopen (filepath : List UInt8)
  | fread (tty : Bool)
  | fwrite (tty : Bool)
  | lseek
  | remove
  | fclose
  | opendir
  | readdir
  | closedir
  | getcwd
  | chdir
  | mkdir
  | rmdir

def FsCall.fs : FsCall → MountedFs
  | fopen filepath => pathFs filepath
  | fread tty | fwrite tty => if tty then .devfs else .rootfs
  | _ => .rootfs

/-- Where a task is: in no call, waiting in `fs_lock`, or between `fs_lock`
and `fs_unlock`. -/
inductive FsPc where
  | outside
  | locking (fs : MountedFs)
  | inside (fs : MountedFs)

structure FsSystem (T X S : Type) where
  k : Kernel T X S
  fs : MountedFs → FsT X
  pc : T → FsPc

/-- The running task calls the file system, goes on behind `fs_lock`, or
gets to `fs_unlock`; or something else happens in the kernel. -/
inductive FsAction (X S : Type) where
  | call (c : FsCall)
  | locked
  | unlock
  | kernel (a : Action X S)

section Source

variable {T X S : Type} [DecidableEq T] [DecidableEq X] [DecidableEq S] [IdleTask T]

/-- `mutex_init` of a pointer. No mutex of the system is at address 0. -/
def mutexInitAt (k : Kernel T X S) : Option X → Option (Kernel T X S)
  | none => some k
  | some mutex => mutexInit k mutex

/-- `mount`; `mounts` is whether `fs->op->mount` succeeds. -/
def mount (k : Kernel T X S) (lists : MountLists X) (mp : List UInt8) (mounts : Bool) :
    Option (Kernel T X S × MountLists X × Option (FsT X)) :=
  if lists.mounted.any fun fs => kernelStrncmp fs.mp mp ≠ 0 then some (k, lists, none)
  else
    match lists.free with
    | [] => none
    | _ :: free => do
        -- `kernel_memset(fs, 0, sizeof(fs_t))`
        let fs : FsT X := { mp, mutex := none }
        let k ← mutexInitAt k fs.mutex
        if mounts then return (k, { mounted := lists.mounted ++ [fs], free }, some fs)
        else return (k, { lists with free := fs :: free }, none)

def fsLock (k : Kernel T X S) (fs : FsT X) : Option (Kernel T X S) :=
  match fs.mutex with
  | none => some k
  | some mutex => mutexLock k mutex

def fsUnlock (k : Kernel T X S) (fs : FsT X) : Option (Kernel T X S) :=
  match fs.mutex with
  | none => some k
  | some mutex => mutexUnlock k mutex

namespace FsSystem

def step (s : FsSystem T X S) : FsAction X S → Option (FsSystem T X S)
  | .call c => do
      let t ← s.k.vars.runningTask
      match s.pc t with
      | .outside =>
          let k ← fsLock s.k (s.fs c.fs)
          let pc := if k.vars.runningTask = some t then .inside c.fs else .locking c.fs
          return { s with k, pc := Function.update s.pc t pc }
      | _ => none
  | .locked => do
      let t ← s.k.vars.runningTask
      match s.pc t with
      | .locking fs => return { s with pc := Function.update s.pc t (.inside fs) }
      | _ => none
  | .unlock => do
      let t ← s.k.vars.runningTask
      match s.pc t with
      | .inside fs =>
          let k ← fsUnlock s.k (s.fs fs)
          return { s with k, pc := Function.update s.pc t .outside }
      | _ => none
  | .kernel a => (s.k.step a).map fun k => { s with k }

end FsSystem

end Source

namespace FsSystem

variable {T X S : Type}

/-- At most one task at a time is between `fs_lock` and `fs_unlock` of a
file system. -/
def Serial (s : FsSystem T X S) : Prop :=
  ∀ fs t u, s.pc t = .inside fs → s.pc u = .inside fs → t = u

/-- The file system is called while no task is in it. -/
def Meets (s : FsSystem T X S) : FsAction X S → Prop
  | .call c => ∀ t, s.k.vars.runningTask = some t → s.pc t = .outside → ∀ u, s.pc u ≠ .inside c.fs
  | .locked | .unlock | .kernel _ => True

/-- No file system has a mutex, so nobody waits in `fs_lock`. -/
structure LockInv (s : FsSystem T X S) : Prop where
  unlocked : ∀ fs, (s.fs fs).mutex = none
  passed : ∀ t fs, s.pc t ≠ .locking fs
  serial : s.Serial

/-- All tasks are outside. -/
def idle (k : Kernel T X S) (fs : MountedFs → FsT X) : FsSystem T X S where
  k := k
  fs := fs
  pc := fun _ => .outside

theorem lockInv_idle {k : Kernel T X S} {fs : MountedFs → FsT X}
    (h : ∀ f, (fs f).mutex = none) : LockInv (idle k fs) where
  unlocked := h
  passed := nofun
  serial := nofun

section Steps

variable [DecidableEq T] [DecidableEq X] [DecidableEq S] [IdleTask T]

variable (T S) in
/-- What `mount` has mounted. -/
def Mounted (fs : FsT X) : Prop :=
  ∃ (k k' : Kernel T X S) (lists lists' : MountLists X) (mp : List UInt8) (mounts : Bool),
    mount k lists mp mounts = some (k', lists', some fs)

omit [IdleTask T] in
/-- `mount` leaves the pointer at NULL. -/
theorem Mounted.mutex {fs : FsT X} (h : Mounted T S fs) : fs.mutex = none := by
  obtain ⟨k, k', lists, lists', mp, mounts, h⟩ := h
  unfold mount at h
  split at h
  case isTrue => cases h
  case isFalse =>
    split at h
    case h_1 => cases h
    case h_2 =>
      obtain ⟨k₁, -, h⟩ := Option.bind_eq_some_iff.mp h
      split at h
      case isTrue =>
        cases h
        rfl
      case isFalse => cases h

variable {s s' : FsSystem T X S} {a : FsAction X S} {t : T}

/-- What a step does when no file system has a mutex. -/
theorem step_cases (h : s.LockInv) (hs : s.step a = some s') :
    (∃ c t, a = .call c ∧ s.k.vars.runningTask = some t ∧ s.pc t = .outside
        ∧ s' = { s with pc := Function.update s.pc t (.inside c.fs) })
      ∨ (∃ fs t, a = .unlock ∧ s.k.vars.runningTask = some t ∧ s.pc t = .inside fs
        ∧ s' = { s with pc := Function.update s.pc t .outside })
      ∨ ∃ b k, a = .kernel b ∧ s' = { s with k } := by
  cases a with
  | call c =>
      obtain ⟨t, ht, hs⟩ := Option.bind_eq_some_iff.mp hs
      split at hs
      case h_1 hpc =>
        obtain ⟨k, hk, hs⟩ := Option.bind_eq_some_iff.mp hs
        rw [fsLock, h.unlocked] at hk
        obtain rfl := Option.some.inj hk
        rw [if_pos ht] at hs
        exact Or.inl ⟨c, t, rfl, ht, hpc, (Option.some.inj hs).symm⟩
      case h_2 => cases hs
  | locked =>
      obtain ⟨t, -, hs⟩ := Option.bind_eq_some_iff.mp hs
      split at hs
      case h_1 fs hpc => exact absurd hpc (h.passed t fs)
      case h_2 => cases hs
  | unlock =>
      obtain ⟨t, ht, hs⟩ := Option.bind_eq_some_iff.mp hs
      split at hs
      case h_1 fs hpc =>
        obtain ⟨k, hk, hs⟩ := Option.bind_eq_some_iff.mp hs
        rw [fsUnlock, h.unlocked] at hk
        obtain rfl := Option.some.inj hk
        exact Or.inr (Or.inl ⟨fs, t, rfl, ht, hpc, (Option.some.inj hs).symm⟩)
      case h_2 => cases hs
  | kernel b =>
      obtain ⟨k, -, rfl⟩ := Option.map_eq_some_iff.mp hs
      exact Or.inr (Or.inr ⟨b, k, rfl, rfl⟩)

omit [DecidableEq X] [DecidableEq S] [IdleTask T] in
/-- A task goes in while no other is. -/
theorem LockInv.enter {fs : MountedFs} (h : s.LockInv) (hfree : ∀ u, s.pc u ≠ .inside fs) :
    LockInv { s with pc := Function.update s.pc t (.inside fs) } := by
  refine ⟨h.unlocked, fun u f hu => ?_, fun f u v hu hv => ?_⟩
  · dsimp only at hu
    by_cases he : u = t
    · rw [he, Function.update_self] at hu
      cases hu
    · rw [Function.update_of_ne he] at hu
      exact h.passed u f hu
  · dsimp only at hu hv
    by_cases he : u = t <;> by_cases he' : v = t
    · rw [he, he']
    · rw [he, Function.update_self] at hu
      rw [Function.update_of_ne he'] at hv
      cases hu
      exact absurd hv (hfree v)
    · rw [he', Function.update_self] at hv
      rw [Function.update_of_ne he] at hu
      cases hv
      exact absurd hu (hfree u)
    · rw [Function.update_of_ne he] at hu
      rw [Function.update_of_ne he'] at hv
      exact h.serial f u v hu hv

omit [DecidableEq X] [DecidableEq S] [IdleTask T] in
theorem LockInv.leave (h : s.LockInv) :
    LockInv { s with pc := Function.update s.pc t .outside } := by
  have hold : ∀ {u pc}, Function.update s.pc t .outside u = pc → pc ≠ .outside → s.pc u = pc := by
    intro u pc hu hpc
    by_cases he : u = t
    · rw [he, Function.update_self] at hu
      exact absurd hu.symm hpc
    · rwa [Function.update_of_ne he] at hu
  exact ⟨h.unlocked, fun u f hu => h.passed u f (hold hu nofun),
    fun f u v hu hv => h.serial f u v (hold hu nofun) (hold hv nofun)⟩

theorem LockInv.step (h : s.LockInv) (hm : s.Meets a) (hs : s.step a = some s') : s'.LockInv := by
  obtain ⟨c, t, rfl, ht, hpc, rfl⟩ | ⟨fs, t, rfl, ht, hpc, rfl⟩ | ⟨b, k, rfl, rfl⟩ := step_cases h hs
  · exact h.enter (hm t ht hpc)
  · exact h.leave
  · exact ⟨h.unlocked, h.passed, h.serial⟩

/-- A call that does not meet the condition brings a second task in. -/
theorem LockInv.breaks (h : s.LockInv) (hm : ¬ s.Meets a) :
    ∃ s', s.step a = some s' ∧ ¬ s'.Serial := by
  cases a with
  | call c =>
      simp only [Meets, Classical.not_forall, Classical.not_not] at hm
      obtain ⟨t, ht, hpc, u, hu⟩ := hm
      have hne : u ≠ t := by
        rintro rfl
        rw [hpc] at hu
        cases hu
      refine ⟨{ s with pc := Function.update s.pc t (.inside c.fs) }, ?_, fun hserial => ?_⟩
      · unfold FsSystem.step
        dsimp only
        rw [ht]
        change (match s.pc t with | .outside => _ | _ => _) = _
        rw [hpc, fsLock, h.unlocked]
        dsimp only
        rw [Option.bind_eq_bind, Option.bind_some, if_pos ht]
        rfl
      · refine hne (hserial c.fs u t ?_ (Function.update_self t _ _))
        dsimp only
        rw [Function.update_of_ne hne]
        exact hu
  | locked => exact absurd trivial hm
  | unlock => exact absurd trivial hm
  | kernel => exact absurd trivial hm

/-- In every run, at most one task at a time is in each mounted file system
if and only if every call is made while no task is in the file system that
it takes. -/
theorem fsLock_law (k : Kernel T X S) (fs : MountedFs → FsT X)
    (hfs : ∀ f, Mounted T S (fs f)) (as : List (FsAction X S)) :
    Throughout step Serial (idle k fs) as ↔ Always step Meets (idle k fs) as :=
  throughout_iff_always (B := fun _ _ => True) (I := LockInv) (fun _ h => h.serial)
    (fun _ _ _ h _ hm hs => h.step hm hs) (fun _ _ h _ hm => h.breaks hm)
    (lockInv_idle fun f => (hfs f).mutex) (always_of_forall fun _ _ => trivial)

end Steps

/-- Both file systems as `mount` leaves them. -/
def mountedFs (fs : MountedFs) : FsT Unit where
  mp := if fs = .devfs then [0x2F, 0x64, 0x65, 0x76] else [0x2F]
  mutex := none

theorem mounted_mountedFs (fs : MountedFs) : Mounted ThreeTasks Unit (mountedFs fs) :=
  ⟨twoReady, twoReady, { mounted := [], free := [mountedFs fs] },
    { mounted := [mountedFs fs], free := [] }, (mountedFs fs).mp, true, rfl⟩

/-- A task reads, waits for the disk and is done; then the other one
removes a file. -/
theorem fsLock_law_turns : Throughout step Serial (idle twoReady mountedFs)
    [.call (.fread false), .kernel (.wait ()), .kernel (.notify ()), .kernel .yield, .unlock,
      .kernel .yield, .call .remove] := by
  refine (fsLock_law twoReady mountedFs mounted_mountedFs _).mpr ?_
  refine always_cons_get (fun _ _ _ _ => nofun) rfl (always_cons_get trivial rfl ?_)
  refine always_cons_get trivial rfl (always_cons_get trivial rfl ?_)
  refine always_cons_get trivial rfl (always_cons_get trivial rfl ?_)
  refine ⟨fun _ _ _ u hu => ?_, fun _ _ => trivial⟩
  cases u <;> cases hu

/-- Two tasks read: the second one comes in while the first one waits for
the disk. -/
theorem fsLock_law_both :
    ¬ ∀ as : List (FsAction Unit Unit), Throughout step Serial (idle twoReady mountedFs) as := by
  intro h
  have hrun : ∃ s, run step (idle twoReady mountedFs)
      [.call (.fread false), .kernel (.wait ()), .call (.fread false)] = some s
      ∧ s.pc .first = .inside .rootfs ∧ s.pc .second = .inside .rootfs := by
    refine ⟨_, rfl, ?_, ?_⟩
    · rfl
    · rfl
  obtain ⟨s, hs, hfirst, hsecond⟩ := hrun
  exact absurd (h _ _ s List.prefix_rfl hs .rootfs .first .second hfirst hsecond) (by decide)

end FsSystem

end Csos
