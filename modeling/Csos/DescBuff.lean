import Csos.Lib.Run
import Csos.List
import Csos.PageDir

/-!
# Descriptor buffers (`lib/buff.c`)

A network packet travels in a `desc_buff_t`, half a page that starts
with the list node of the buffer. `alloc_desc_buff` takes a new page
when `buff_list` has an even number of buffers and otherwise the 2048
bytes after the last one; `free_desc_buff` gives the buffer's page back
when the number of buffers that stay is even. Nothing else records which
halves of which pages are in use.

`BuffLaw` is what the allocator is for: the live buffers are halves of
pages taken from `alloc_page`, and a page is back exactly when none of
them lies in it. A call keeps it as long as the parity of `buff_list`
agrees with the pages (`BuffCall.Fits`), which frees in another order
than last in, first out need not do. The mutex of `buff.c` makes the two
functions atomic and does not appear.
-/

namespace Csos

open Lib

/-! ## The data -/

/-- A non-NULL pointer to a `desc_buff_t`. The field `node` comes first,
so this is also the address of its list node. -/
structure BuffPtr where
  addr : Nat
  pos : 0 < addr
  lt : addr < 2 ^ 32
deriving DecidableEq

/-- A pointer that is dereferenced: NULL has no result. -/
def BuffPtr.ofAddr (addr : Nat) : Option BuffPtr :=
  if h : 0 < addr ∧ addr < 2 ^ 32 then some ⟨addr, h.1, h.2⟩ else none

/-- The page in which the buffer lies. -/
def BuffPtr.page (buf : BuffPtr) : Nat := buf.addr / 0x1000 * 0x1000

instance : HasAddr BuffPtr where
  addr buf := UInt32.ofNat buf.addr
  addr_injective := by
    rintro ⟨a, ha, ha'⟩ ⟨b, hb, hb'⟩ h
    have heq := congrArg UInt32.toNat h
    rw [UInt32.toNat_ofNat_of_lt' ha', UInt32.toNat_ofNat_of_lt' hb'] at heq
    simpa using heq
  addr_ne_zero := by
    rintro ⟨a, ha, ha'⟩ h
    have heq := congrArg UInt32.toNat h
    rw [UInt32.toNat_ofNat_of_lt' ha'] at heq
    exact ha.ne' heq

/-- The lists that link buffers: `buff_list`, and three for each `netif_t`. -/
inductive BuffList where
  | buffList
  | rxList (netif : Nat)
  | txList (netif : Nat)
  | waitList (netif : Nat)
deriving DecidableEq

/-- The buffers and the memory under them. A field of `desc_buff_t` is a
function of the buffer, and `refp` is NULL or another buffer. -/
structure DescBuffs where
  heap : Heap BuffList BuffPtr
  length : BuffPtr → UInt16
  refp : BuffPtr → Option BuffPtr
  payload : BuffPtr → Bytes
  machine : Machine

/-! ## The functions of `buff.c` -/

def descBuffInit (s : DescBuffs) : Option DescBuffs := do
  let heap ← listInit s.heap .buffList
  return { s with heap }

def freeDescBuff (s : DescBuffs) (buff : BuffPtr) : Option DescBuffs := do
  let (heap, node) ← listRemove s.heap .buffList buff
  let s := { s with heap }
  if s.heap.size .buffList % 2 = 0 then
    let machine ← freePage s.machine s.machine.cr3 node.page
    return { s with machine }
  else
    return s

/-- Where `alloc_desc_buff` puts the next buffer. -/
def nextDescBuff (s : DescBuffs) : Option (DescBuffs × Nat) :=
  if s.heap.size .buffList % 2 = 0 then
    let (info, addr) := memory32AllocPage s.machine.info 1
    some ({ s with machine := { s.machine with info } }, addr)
  else do
    let last ← listGetLast s.heap .buffList
    return (s, u32 ((last.map BuffPtr.addr).getD 0 + 0x1000 / 2))

def allocDescBuff (s : DescBuffs) : Option (DescBuffs × BuffPtr) := do
  let (s, addr) ← nextDescBuff s
  let buf ← BuffPtr.ofAddr addr
  let length := Function.update s.length buf 0
  let refp := Function.update s.refp buf none
  let heap ← listNodeInit s.heap buf
  let heap ← listInsertBack heap .buffList buf
  return ({ s with heap, length, refp }, buf)

/-- The calls of the allocator. -/
inductive BuffCall where
  | alloc
  | free (buff : BuffPtr)
deriving DecidableEq

/-- The buffers together with those that are live: allocated and not yet
freed. No function reads `live`. -/
structure BuffRun where
  buffs : DescBuffs
  live : List BuffPtr

def BuffRun.step (r : BuffRun) : BuffCall → Option BuffRun
  | .alloc => do
      let (buffs, buf) ← allocDescBuff r.buffs
      return { buffs, live := r.live ++ [buf] }
  | .free buff => do
      let buffs ← freeDescBuff r.buffs buff
      return { buffs, live := r.live.erase buff }

/-! ## Addresses and parity -/

@[simp] theorem BuffPtr.ofAddr_addr (b : BuffPtr) : BuffPtr.ofAddr b.addr = some b :=
  dif_pos ⟨b.pos, b.lt⟩

theorem BuffPtr.ext_addr {b c : BuffPtr} (h : b.addr = c.addr) : b = c := by
  cases b
  cases c
  cases h
  rfl

/-- Different halves of pages do not overlap. -/
theorem BuffPtr.disjoint {b c : BuffPtr} (hb : b.addr % 2048 = 0) (hc : c.addr % 2048 = 0)
    (hne : b ≠ c) : b.addr + 2048 ≤ c.addr ∨ c.addr + 2048 ≤ b.addr := by
  have haddr : b.addr ≠ c.addr := fun h => hne (BuffPtr.ext_addr h)
  omega

/-- The parity of `size` is that of the number of nodes. -/
theorem Heap.Rep.size_even {L N : Type} {h : Heap L N} {l : L} {ns : List N} (hr : h.Rep l ns) :
    h.size l % 2 = 0 ↔ ns.length % 2 = 0 := by
  rw [← hr.size, ← UInt32.toNat_inj, UInt32.toNat_mod]
  rfl

/-! ## The law -/

/-- What holds of the live buffers, when the pages that `info₀` calls
free were there to be taken in the beginning. -/
structure BuffLaw (info₀ : Memory32Info) (r : BuffRun) : Prop where
  half : ∀ b ∈ r.live, b.addr % 2048 = 0
  disjoint : r.live.Pairwise fun b c => b.addr + 2048 ≤ c.addr ∨ c.addr + 2048 ≤ b.addr
  taken : ∀ b ∈ r.live, info₀.Free b.page ∧ ¬ r.buffs.machine.info.Free b.page
  returned : ∀ p, info₀.Free p →
    (r.buffs.machine.info.Free p ↔ ∀ b ∈ r.live, b.page ≠ p)

/-- The call is one that the parity of `buff_list` gets right.

An allocation with an even number of buffers needs a free page. With an
odd number, the 2048 bytes after the last buffer must be unused, in a
page that a live buffer holds. When an even number stays, the buffer
that is freed must be the last one of its page, in memory that is mapped
to itself; when an odd number stays, its page must be in use still. -/
def BuffRun.Fits (r : BuffRun) : BuffCall → Prop
  | .alloc =>
      if r.live.length % 2 = 0 then ∃ p, r.buffs.machine.info.Free p
      else ∀ b ∈ r.live.getLast?, (∀ c ∈ r.live, c.addr ≠ b.addr + 2048)
        ∧ ∃ c ∈ r.live, c.page = (b.addr + 2048) / 0x1000 * 0x1000
  | .free b =>
      b ∈ r.live ∧ if r.live.length % 2 = 1 then
          b.page < vmShellBase ∧ ∀ c ∈ r.live, c.page = b.page → c = b
        else ∃ c ∈ r.live, c ≠ b ∧ c.page = b.page

instance (info : Memory32Info) : Decidable (∃ p, info.Free p) :=
  decidable_of_iff (∃ i < info.bitmap.bitSize, bitmapGetBit info.bitmap i = false)
    ⟨fun ⟨i, hi, hbit⟩ => ⟨info.page i, i, hi, hbit, rfl⟩, fun ⟨_, i, hi, hbit, _⟩ => ⟨i, hi, hbit⟩⟩

instance decidableFits (r : BuffRun) : ∀ c, Decidable (r.Fits c)
  | .alloc => inferInstanceAs (Decidable (if r.live.length % 2 = 0 then
        ∃ p, r.buffs.machine.info.Free p
      else ∀ b ∈ r.live.getLast?, (∀ c ∈ r.live, c.addr ≠ b.addr + 2048)
        ∧ ∃ c ∈ r.live, c.page = (b.addr + 2048) / 0x1000 * 0x1000))
  | .free b => inferInstanceAs (Decidable (b ∈ r.live ∧ if r.live.length % 2 = 1 then
          b.page < vmShellBase ∧ ∀ c ∈ r.live, c.page = b.page → c = b
        else ∃ c ∈ r.live, c ≠ b ∧ c.page = b.page))

/-- The law, with what carries it from call to call: `buff_list` links
exactly the live buffers, and the allocator is the one it was. -/
structure BuffInv (info₀ : Memory32Info) (r : BuffRun) : Prop where
  ok : r.buffs.machine.info.Ok
  start : r.buffs.machine.info.start = info₀.start
  bitSize : r.buffs.machine.info.bitmap.bitSize = info₀.bitmap.bitSize
  held : r.buffs.heap.Rep .buffList r.live
  half : ∀ b ∈ r.live, b.addr % 2048 = 0
  taken : ∀ b ∈ r.live, info₀.Free b.page
  free : ∀ p, r.buffs.machine.info.Free p ↔ info₀.Free p ∧ ∀ b ∈ r.live, b.page ≠ p

variable {info₀ : Memory32Info} {r r' : BuffRun} {b : BuffPtr}

theorem BuffInv.law (h : BuffInv info₀ r) : BuffLaw info₀ r := by
  refine ⟨h.half, ?_, fun b hb => ⟨h.taken b hb, fun hfree => ?_⟩, fun p hp => ?_⟩
  · exact h.held.nodup.imp_of_mem fun hb hc => BuffPtr.disjoint (h.half _ hb) (h.half _ hc)
  · exact ((h.free _).mp hfree).2 b hb rfl
  · rw [h.free]
    exact and_iff_right hp

/-- A page of a live buffer is a page of the allocator. -/
theorem BuffInv.page_eq (h : BuffInv info₀ r) (hb : b ∈ r.live) :
    ∃ i < r.buffs.machine.info.bitmap.bitSize, b.page = r.buffs.machine.info.page i := by
  obtain ⟨i, hi, -, hpage⟩ := h.taken b hb
  exact ⟨i, by rw [h.bitSize]; exact hi,
    by rw [hpage, Memory32Info.page, Memory32Info.page, h.start]⟩

/-! ## One call -/

/-- The next buffer is half of a page that is now in use, and no live
buffer is there. -/
theorem nextDescBuff_fits (h : BuffInv info₀ r) (hfits : r.Fits .alloc) :
    ∃ (buf : BuffPtr) (info : Memory32Info),
      nextDescBuff r.buffs
        = some ({ r.buffs with machine := { r.buffs.machine with info } }, buf.addr)
      ∧ info.Ok ∧ info.start = info₀.start ∧ info.bitmap.bitSize = info₀.bitmap.bitSize
      ∧ buf ∉ r.live ∧ buf.addr % 2048 = 0 ∧ info₀.Free buf.page
      ∧ ∀ p, info.Free p ↔ info₀.Free p ∧ ∀ b ∈ r.live ++ [buf], b.page ≠ p := by
  have hparity := h.held.size_even
  by_cases heven : r.live.length % 2 = 0
  · simp only [BuffRun.Fits, if_pos heven] at hfits
    rcases memory32AllocPage_one h.ok with ⟨-, hnone⟩ | ⟨i, hi, hfree, heq⟩
    · exact absurd hfits (not_exists.mpr hnone)
    · have haligned := hfree.aligned h.ok
      have hfits' := hfree.fits h.ok
      let buf : BuffPtr := ⟨r.buffs.machine.info.page i, hfree.pos h.ok, by omega⟩
      have hpage : buf.page = r.buffs.machine.info.page i := by
        show r.buffs.machine.info.page i / 0x1000 * 0x1000 = _
        omega
      obtain ⟨hfree₀, hunused⟩ := (h.free _).mp hfree
      refine ⟨buf, r.buffs.machine.info.setPage i true, ?_, h.ok.setPage i true, h.start, ?_, ?_,
        ?_, ?_, fun p => ?_⟩
      · rw [nextDescBuff, if_pos (hparity.mpr heven), heq]
      · rw [Memory32Info.setPage_bitSize, h.bitSize]
      · exact fun hmem => hunused buf hmem hpage
      · show r.buffs.machine.info.page i % 2048 = 0
        omega
      · rw [hpage]
        exact hfree₀
      · rw [Memory32Info.free_setPage hi, h.free, ← hpage]
        simp only [List.mem_append, List.mem_singleton, or_imp, forall_and, forall_eq, and_assoc,
          ne_comm]
  · simp only [BuffRun.Fits, if_neg heven] at hfits
    have hne : r.live ≠ [] := fun h0 => heven (by rw [h0]; rfl)
    let last := r.live.getLast hne
    have hlast : r.live.getLast? = some last := List.getLast?_eq_some_getLast hne
    obtain ⟨hunused, c, hc, hpage⟩ := hfits last hlast
    have hclt := (h.taken c hc).aligned
    have hhalf := h.half last (List.getLast_mem hne)
    obtain ⟨i, hi, hci⟩ := h.page_eq hc
    have hlim := h.ok.limit
    simp only [Memory32Info.page] at hlim hci
    have hlt : last.addr + 2048 < 0x100000000 := by omega
    let buf : BuffPtr := ⟨last.addr + 2048, by omega, hlt⟩
    have hsame : buf.page = c.page := hpage.symm
    refine ⟨buf, r.buffs.machine.info, ?_, h.ok, h.start, h.bitSize, ?_, ?_, ?_, fun p => ?_⟩
    · rw [nextDescBuff, if_neg (fun h0 => heven (hparity.mp h0))]
      simp only [listGetLast, Heap.mem_tail, h.held.tail_eq, hlast]
      show some (_, u32 (last.addr + 2048)) = _
      rw [u32, Nat.mod_eq_of_lt hlt]
    · exact fun hmem => hunused buf hmem rfl
    · show (last.addr + 2048) % 2048 = 0
      omega
    · rw [hsame]
      exact h.taken c hc
    · rw [h.free]
      refine and_congr_right fun _ => ⟨fun hall b hb => ?_, fun hall b hb => ?_⟩
      · rcases List.mem_append.mp hb with hb | hb
        · exact hall b hb
        · rw [List.mem_singleton.mp hb, hsame]
          exact hall c hc
      · exact hall b (List.mem_append_left _ hb)

/-- Finding the place does not touch the lists. -/
theorem nextDescBuff_heap {s s' : DescBuffs} {a : Nat} (heq : nextDescBuff s = some (s', a)) :
    s'.heap = s.heap := by
  rw [nextDescBuff] at heq
  split at heq
  · rw [← (Prod.mk.inj (Option.some.inj heq)).1]
  · rw [← (Prod.mk.inj (Option.some.inj heq)).1]

theorem BuffInv.alloc (h : BuffInv info₀ r) (hfits : r.Fits .alloc) :
    ∃ r', r.step .alloc = some r' ∧ BuffInv info₀ r' := by
  obtain ⟨buf, info, hnext, hok, hstart, hbits, hnew, hhalf, htaken, hfree⟩ :=
    nextDescBuff_fits h hfits
  obtain ⟨h₁, e₁, -, -, hkeep⟩ := Heap.listNodeInit_spec r.buffs.heap buf
  obtain ⟨h₂, e₂, hheld, -⟩ := Heap.listInsertBack_spec (hkeep _ _ h.held hnew) hnew
  refine ⟨_, by simp [BuffRun.step, allocDescBuff, hnext, e₁, e₂]; rfl, ?_⟩
  constructor
  case ok => exact hok
  case start => exact hstart
  case bitSize => exact hbits
  case held => exact hheld
  case free => exact hfree
  case half =>
    intro b hb
    rcases List.mem_append.mp hb with hb | hb
    · exact h.half b hb
    · rw [List.mem_singleton.mp hb]
      exact hhalf
  case taken =>
    intro b hb
    rcases List.mem_append.mp hb with hb | hb
    · exact h.taken b hb
    · rw [List.mem_singleton.mp hb]
      exact htaken

/-- Giving a page back, or not, leaves the allocator the one it was. -/
theorem BuffInv.kept (h : BuffInv info₀ r) (given : Bool) (a : Nat) :
    (if given then memory32FreePage r.buffs.machine.info a 1 else r.buffs.machine.info).Ok
    ∧ (if given then memory32FreePage r.buffs.machine.info a 1
        else r.buffs.machine.info).start = info₀.start
    ∧ (if given then memory32FreePage r.buffs.machine.info a 1
        else r.buffs.machine.info).bitmap.bitSize = info₀.bitmap.bitSize := by
  cases given with
  | false => exact ⟨h.ok, h.start, h.bitSize⟩
  | true =>
      have hok := fun i => h.ok.setPage i false
      have hbits := fun i => (Memory32Info.setPage_bitSize (i := i) false).trans h.bitSize
      simp only [Memory32Info.setPage] at hok hbits
      simp only [if_true, memory32FreePage]
      exact ⟨hok _, h.start, hbits _⟩

/-- After a fitting free the pages in use are those of the other buffers. -/
theorem freePages_fits (h : BuffInv info₀ r) (hfits : r.Fits (.free b)) (p : Nat) :
    (if (r.live.erase b).length % 2 = 0 then
        memory32FreePage r.buffs.machine.info b.page 1 else r.buffs.machine.info).Free p
      ↔ info₀.Free p ∧ ∀ c ∈ r.live.erase b, c.page ≠ p := by
  obtain ⟨hb, hfits⟩ := hfits
  have hlen := List.length_erase_of_mem hb
  have hpos := List.length_pos_of_mem hb
  have hmem : ∀ c, c ∈ r.live.erase b ↔ c ≠ b ∧ c ∈ r.live := fun c => h.held.nodup.mem_erase_iff
  by_cases hodd : r.live.length % 2 = 1
  · rw [if_pos hodd] at hfits
    obtain ⟨i, hi, hpage⟩ := h.page_eq hb
    rw [if_pos (by omega), hpage, memory32FreePage_page h.ok hi, Memory32Info.free_setPage_false hi,
      h.free, ← hpage]
    constructor
    · rintro (⟨hp, hall⟩ | rfl)
      · exact ⟨hp, fun c hc => hall c ((hmem c).mp hc).2⟩
      · exact ⟨h.taken b hb, fun c hc hcb =>
          ((hmem c).mp hc).1 (hfits.2 c ((hmem c).mp hc).2 hcb)⟩
    · rintro ⟨hp, hall⟩
      by_cases hpb : p = b.page
      · exact Or.inr hpb
      · refine Or.inl ⟨hp, fun c hc => ?_⟩
        by_cases hcb : c = b
        · rw [hcb]
          exact Ne.symm hpb
        · exact hall c ((hmem c).mpr ⟨hcb, hc⟩)
  · rw [if_neg hodd] at hfits
    obtain ⟨c, hc, hcb, hpage⟩ := hfits
    rw [if_neg (by omega), h.free]
    refine and_congr_right fun _ =>
      ⟨fun hall d hd => hall d ((hmem d).mp hd).2, fun hall d hd => ?_⟩
    by_cases hdb : d = b
    · rw [hdb, ← hpage]
      exact hall c ((hmem c).mpr ⟨hcb, hc⟩)
    · exact hall d ((hmem d).mpr ⟨hdb, hd⟩)

/-- What `free_desc_buff` does to a buffer that `buff_list` links. -/
theorem freeDescBuff_spec {s : DescBuffs} {as bs : List BuffPtr}
    (hr : s.heap.Rep .buffList (as ++ b :: bs))
    (hmap : (as ++ bs).length % 2 = 0 → b.page < vmShellBase) :
    ∃ heap, freeDescBuff s b = some { s with
        heap
        machine := { s.machine with info :=
          if (as ++ bs).length % 2 = 0 then memory32FreePage s.machine.info b.page 1
          else s.machine.info } }
      ∧ heap.Rep .buffList (as ++ bs) ∧ Heap.Frame s.heap heap .buffList (as ++ b :: bs)
      ∧ listRemove s.heap .buffList b = some (heap, b) := by
  obtain ⟨heap, heq, hheld, hframe⟩ := Heap.listRemove_spec hr
  refine ⟨heap, ?_, hheld, hframe, heq⟩
  by_cases heven : (as ++ bs).length % 2 = 0
  · rw [if_pos heven]
    simp only [freeDescBuff, heq, Option.bind_eq_bind, Option.bind_some,
      if_pos (hheld.size_even.mpr heven), freePage, if_pos (hmap heven), Option.pure_def]
  · rw [if_neg heven]
    simp only [freeDescBuff, heq, Option.bind_eq_bind, Option.bind_some,
      if_neg (fun h0 => heven (hheld.size_even.mp h0)), Option.pure_def]

theorem BuffInv.free_step (h : BuffInv info₀ r) (hfits : r.Fits (.free b)) :
    ∃ r', r.step (.free b) = some r' ∧ BuffInv info₀ r' := by
  have hpages := freePages_fits h hfits
  obtain ⟨hb, hfits⟩ := hfits
  have hlen := List.length_erase_of_mem hb
  have hpos := List.length_pos_of_mem hb
  have hmem : ∀ c ∈ r.live.erase b, c ∈ r.live := fun c hc => List.mem_of_mem_erase hc
  obtain ⟨as, bs, hnot, hlive, herase⟩ := List.exists_erase_eq hb
  have hmap : (as ++ bs).length % 2 = 0 → b.page < vmShellBase := fun heven => by
    rw [← herase] at heven
    have hodd : r.live.length % 2 = 1 := by omega
    rw [if_pos hodd] at hfits
    exact hfits.1
  obtain ⟨heap, heq, hheld, -⟩ := freeDescBuff_spec (hlive ▸ h.held) hmap
  rw [← herase] at heq hheld
  obtain ⟨hok, hstart, hbits⟩ :=
    h.kept (decide ((r.live.erase b).length % 2 = 0)) b.page
  simp only [decide_eq_true_eq] at hok hstart hbits
  refine ⟨_, by rw [BuffRun.step, heq]; rfl, ?_⟩
  constructor
  case held => exact hheld
  case half => exact fun c hc => h.half c (hmem c hc)
  case taken => exact fun c hc => h.taken c (hmem c hc)
  case free => exact hpages
  case ok => exact hok
  case start => exact hstart
  case bitSize => exact hbits

/-! ## Every sequence of calls -/

theorem BuffInv.step {c : BuffCall} (h : BuffInv info₀ r) (hfits : r.Fits c) :
    ∃ r', r.step c = some r' ∧ BuffInv info₀ r' := by
  cases c with
  | alloc => exact h.alloc hfits
  | free b => exact h.free_step hfits

/-- `desc_buff_init` leaves no buffer and takes no page. -/
theorem descBuffInit_inv {s : DescBuffs} (hok : s.machine.info.Ok) :
    ∃ s', descBuffInit s = some s' ∧ BuffInv s.machine.info { buffs := s', live := [] } := by
  obtain ⟨heap, heq, hheld, -⟩ := Heap.listInit_spec s.heap .buffList
  refine ⟨_, by rw [descBuffInit, heq]; rfl, ?_⟩
  constructor
  case ok => exact hok
  case start => rfl
  case bitSize => rfl
  case held => exact hheld
  case half => exact fun b hb => nomatch hb
  case taken => exact fun b hb => nomatch hb
  case free => exact fun p => ⟨fun hp => ⟨hp, fun b hb => nomatch hb⟩, And.left⟩

/-- After every sequence of fitting calls the live buffers are disjoint
halves of pages that are in use, and every other page is back. -/
theorem descBuffs_law {s s₀ : DescBuffs} {cs : List BuffCall} (hok : s.machine.info.Ok)
    (hinit : descBuffInit s = some s₀)
    (hfits : Always BuffRun.step BuffRun.Fits { buffs := s₀, live := [] } cs) :
    ∃ r, run BuffRun.step { buffs := s₀, live := [] } cs = some r
      ∧ BuffLaw s.machine.info r := by
  obtain ⟨s₁, heq, hinv⟩ := descBuffInit_inv hok
  obtain rfl := Option.some.inj (heq.symm.trans hinit)
  obtain ⟨r, hrun, hr⟩ := run_total_of_always (fun _ _ => BuffInv.step) hinv hfits
  exact ⟨r, hrun, hr.law⟩

/-! ## Two runs -/

/-- Before `desc_buff_init`, with 15 pages to take. -/
def noBuffs : DescBuffs where
  heap :=
    { pre := fun _ => none
      next := fun _ => none
      head := fun _ => none
      tail := fun _ => none
      size := fun _ => 0 }
  length := fun _ => 0
  refp := fun _ => none
  payload := fun _ _ => 0
  machine := smallMachine

/-- The two halves of the first page, and the first half of the second. -/
abbrev firstBuff : BuffPtr := ⟨0x101000, by decide, by decide⟩

abbrev secondBuff : BuffPtr := ⟨0x101800, by decide, by decide⟩

abbrev thirdBuff : BuffPtr := ⟨0x102000, by decide, by decide⟩

/-- No buffer yet. -/
def emptyRun : BuffRun where
  buffs := (descBuffInit noBuffs).get (by decide)
  live := []

/-- Two buffers are taken and freed again, the second one first. -/
theorem descBuffs_law_two :
    ∃ r, run BuffRun.step emptyRun [.alloc, .alloc, .free secondBuff, .free firstBuff] = some r
      ∧ BuffLaw smallMachine.info r :=
  descBuffs_law (s := noBuffs) smallMachine_infoOk (Option.some_get _).symm (by decide +kernel)

/-- Three buffers are taken, and then the first one is freed: its page is
given back while the second one lies in it. -/
theorem descBuffs_law_fails : ¬ ∀ (s s₀ : DescBuffs) (cs : List BuffCall),
    s.machine.info.Ok → descBuffInit s = some s₀ →
    Always BuffRun.step (fun r c => ∀ b, c = .free b → b ∈ r.live) { buffs := s₀, live := [] } cs →
    ∃ r, run BuffRun.step { buffs := s₀, live := [] } cs = some r
      ∧ BuffLaw s.machine.info r := by
  intro hall
  have hlive : Always BuffRun.step (fun r c => ∀ b, c = .free b → b ∈ r.live) emptyRun
      [.alloc, .alloc, .alloc, .free firstBuff] := by
    refine And.intro nofun fun r₁ h₁ => And.intro nofun fun r₂ h₂ => And.intro nofun fun r₃ h₃ => ?_
    refine And.intro (fun b hb => ?_) fun _ _ => trivial
    obtain rfl := BuffCall.free.inj hb
    have hrun : run BuffRun.step emptyRun [.alloc, .alloc, .alloc] = some r₃ := by
      simp [run, h₁, h₂, h₃]
    have hmem : (run BuffRun.step emptyRun [.alloc, .alloc, .alloc]).any
        (fun r => firstBuff ∈ r.live) = true := by decide +kernel
    simpa [hrun] using hmem
  obtain ⟨r, hrun, hlaw⟩ := hall noBuffs _ _ smallMachine_infoOk (Option.some_get _).symm hlive
  have hrun : run BuffRun.step emptyRun [.alloc, .alloc, .alloc, .free firstBuff] = some r := hrun
  have hleft : (run BuffRun.step emptyRun [.alloc, .alloc, .alloc, .free firstBuff]).any
      (fun r => secondBuff ∈ r.live ∧ 1 < r.buffs.machine.info.bitmap.bitSize
        ∧ bitmapGetBit r.buffs.machine.info.bitmap 1 = false
        ∧ r.buffs.machine.info.page 1 = secondBuff.page) = true := by decide +kernel
  rw [hrun, Option.any_some, decide_eq_true_eq] at hleft
  obtain ⟨hmem, hlt, hbit, hpage⟩ := hleft
  exact (hlaw.taken _ hmem).2 ⟨1, hlt, hbit, hpage.symm⟩

end Csos
