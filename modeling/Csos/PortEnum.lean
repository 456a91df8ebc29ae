import Csos.Lib.Find
import Csos.Lib.Loop
import Csos.Packet

/-!
# Showing the ports (`sys_enum_port`, `cmd_exec_lsof`)

`lsof -i` asks the kernel for the ports one after the other, with a cursor
`cp` and the next number `np`; zero is the beginning and the end. A call
of `sys_enum_port` reads the entry of `cp` at the beginning only, and
writes that of `np` over it in the same call. So every number is shown,
but with the entry of the one behind it (`shownPorts`).
-/

namespace Csos

open Lib

/-! ## The code -/

/-- `PORT_SIZE`. -/
abbrev portSize : Nat := 0x10000

/-- The loops of `sys_enum_port`: the first port from `i` on that is not
down. -/
def portFrom (ports : Nat → Port) (i : Nat) : Option Nat :=
  (List.range' i (portSize - i)).find? fun i => (ports i).status ≠ .down

/-- `sys_enum_port`, from `*np = 0` on: `*port`, `*cp` and `*np`. -/
def enumNext (ports : Nat → Port) (port : Port) (cp : Nat) : Port × Nat × Nat :=
  match portFrom ports (cp + 1) with
  | some i => (ports i, cp, i)
  | none => (port, cp, 0)

def sysEnumPort (ports : Nat → Port) (port : Port) (cp : Nat) : Port × Nat × Nat :=
  if cp = 0 then
    match portFrom ports 0 with
    | some i => enumNext ports (ports i) i
    | none => enumNext ports port cp
  else enumNext ports port cp

/-- The variables of `cmd_exec_lsof`, and the numbers and entries that it
has shown. -/
structure Lsof where
  port : Port
  cp : Nat
  shown : List (Nat × Port)

/-- A round of the loop of `cmd_exec_lsof`. -/
def lsofRound (ports : Nat → Port) (s : Lsof) : Round Lsof (List (Nat × Port)) :=
  let (port, cp, np) := sysEnumPort ports s.port s.cp
  -- `continue` goes to the test of the loop
  if port.status = .down then
    if np > 0 then .again { s with port, cp } else .leave s.shown
  else
    let shown := s.shown ++ [(cp, port)]
    if np > 0 then .again { port, cp := np, shown } else .leave shown

/-! ## The law -/

/-- The ports in use, in increasing order. -/
def usedPorts (ports : Nat → Port) : List Nat :=
  (List.range' 0 portSize).filter fun i => (ports i).status ≠ .down

/-- `lsof -i` shows every port in use, once and in order, with its entry.
The variable `port` is not initialized. -/
def ShowsPorts (ports : Nat → Port) (port : Port) : Prop :=
  Lib.Ends (lsofRound ports) ⟨port, 0, []⟩ ((usedPorts ports).map fun i => (i, ports i))

/-- What is shown of the ports in a list: each with the entry of the next
one, the last one with its own. -/
def shownPorts (ports : Nat → Port) : List Nat → List (Nat × Port)
  | [] => []
  | [p] => [(p, ports p)]
  | p :: q :: ps => (p, ports q) :: shownPorts ports (q :: ps)

section Scan

variable {ports : Nat → Port} {p : Nat} {ps : List Nat}

/-- The ports in use from `i` on. -/
def usedFrom (ports : Nat → Port) (i : Nat) : List Nat :=
  (List.range' i (portSize - i)).filter fun i => (ports i).status ≠ .down

theorem portFrom_eq (i : Nat) : portFrom ports i = (usedFrom ports i).head? :=
  List.head?_filter.symm

theorem usedFrom_cons {i : Nat} (hi : i ≤ portSize) (h : usedFrom ports i = p :: ps) :
    i ≤ p ∧ p < portSize ∧ (ports p).status ≠ .down ∧ usedFrom ports (p + 1) = ps := by
  obtain ⟨hle, hlt, hup, hrest⟩ := filter_range'_cons h
  rw [Nat.add_sub_of_le hi] at hrest hlt
  exact ⟨hle, hlt, of_decide_eq_true hup, hrest⟩

/-- A call that comes to the port `p`: it shows `p`, with the entry of the
next port in use. -/
theorem lsof_from {s : Lsof} (hp : p < portSize) (hup : (ports p).status ≠ .down)
    (hcall : sysEnumPort ports s.port s.cp = enumNext ports (ports p) p)
    (hrest : usedFrom ports (p + 1) = ps) :
    Lib.Ends (lsofRound ports) s (s.shown ++ shownPorts ports (p :: ps)) := by
  induction ps generalizing p s with
  | nil =>
      have hnext : enumNext ports (ports p) p = (ports p, p, 0) := by
        rw [enumNext, portFrom_eq, hrest]
        rfl
      refine Lib.Ends.of_leave ?_
      rw [lsofRound, hcall, hnext]
      exact (if_neg hup).trans (if_neg (Nat.lt_irrefl 0))
  | cons q ps ih =>
      have hnext : enumNext ports (ports p) p = (ports q, p, q) := by
        rw [enumNext, portFrom_eq, hrest]
        rfl
      obtain ⟨hle, hlt, hq, hrest'⟩ := usedFrom_cons hp hrest
      have hpos : 0 < q := Nat.lt_of_lt_of_le (Nat.succ_pos p) hle
      have hround : lsofRound ports s
          = .again ⟨ports q, q, s.shown ++ [(p, ports q)]⟩ := by
        rw [lsofRound, hcall, hnext]
        exact (if_neg hq).trans (if_pos hpos)
      rw [ends_again_iff hround, shownPorts]
      have hends := ih (s := ⟨ports q, q, s.shown ++ [(p, ports q)]⟩) hlt hq
        (if_neg (Nat.ne_of_gt hpos)) hrest'
      rwa [List.append_assoc] at hends

/-- With no port in use, `port` is left as it was. -/
theorem lsof_none (port : Port) (h : usedPorts ports = []) :
    Lib.Ends (lsofRound ports) ⟨port, 0, []⟩ (if port.status = .down then [] else [(0, port)]) := by
  have hzero : portFrom ports 0 = none := by
    rw [portFrom_eq]
    exact congrArg List.head? h
  have hone : portFrom ports 1 = none := by
    rw [portFrom, List.find?_eq_none] at hzero ⊢
    intro i hi
    refine hzero i ?_
    rw [List.mem_range'_1] at hi ⊢
    exact ⟨Nat.zero_le i, by omega⟩
  have hcall : sysEnumPort ports port 0 = (port, 0, 0) := by
    rw [sysEnumPort, if_pos rfl, hzero, enumNext, hone]
  refine Lib.Ends.of_leave ?_
  rw [lsofRound, hcall]
  by_cases hdown : port.status = .down
  · rw [if_pos hdown]
    exact (if_pos hdown).trans (if_neg (Nat.lt_irrefl 0))
  · rw [if_neg hdown]
    exact (if_neg hdown).trans (if_neg (Nat.lt_irrefl 0))

/-- With ports in use, each is shown with the entry of the next one. -/
theorem lsof_shown (port : Port) (h : usedPorts ports = p :: ps) :
    Lib.Ends (lsofRound ports) ⟨port, 0, []⟩ (shownPorts ports (p :: ps)) := by
  obtain ⟨-, hlt, hup, hrest⟩ := usedFrom_cons (Nat.zero_le _) h
  have hzero : portFrom ports 0 = some p := by
    rw [portFrom_eq]
    exact congrArg List.head? h
  have hcall : sysEnumPort ports port 0 = enumNext ports (ports p) p := by
    rw [sysEnumPort, if_pos rfl, hzero]
  exact lsof_from (s := ⟨port, 0, []⟩) hlt hup hcall hrest

/-- The entries shown are those of the ports when these are all the same. -/
theorem shownPorts_iff : shownPorts ports ps = ps.map (fun i => (i, ports i))
    ↔ ∀ p ∈ ps, ∀ q ∈ ps, ports p = ports q := by
  induction ps with
  | nil => exact iff_of_true rfl fun p hp => nomatch hp
  | cons p ps ih =>
      cases ps with
      | nil =>
          refine iff_of_true rfl fun q hq r hr => ?_
          rw [List.mem_singleton.mp hq, List.mem_singleton.mp hr]
      | cons q ps =>
          rw [shownPorts, List.map_cons, List.cons.injEq, Prod.mk.injEq, ih]
          constructor
          · rintro ⟨⟨-, heq⟩, hall⟩
            have hq : ∀ r ∈ p :: q :: ps, ports r = ports q := by
              intro r hr
              rcases List.mem_cons.mp hr with rfl | hr
              · exact heq.symm
              · exact hall r hr q List.mem_cons_self
            exact fun r hr r' hr' => (hq r hr).trans (hq r' hr').symm
          · intro hall
            refine ⟨⟨rfl, hall q (by simp) p (by simp)⟩, fun r hr r' hr' => ?_⟩
            exact hall r (List.mem_cons_of_mem p hr) r' (List.mem_cons_of_mem p hr')

theorem mem_usedPorts : p ∈ usedPorts ports ↔ p < portSize ∧ (ports p).status ≠ .down := by
  rw [usedPorts, List.mem_filter, List.mem_range'_1, decide_eq_true_eq]
  simp

/-- What is shown, with the list of the ports in use. -/
theorem showsPorts_iff_used {port : Port} : ShowsPorts ports port
    ↔ (∀ p ∈ usedPorts ports, ∀ q ∈ usedPorts ports, ports p = ports q)
      ∧ (usedPorts ports ≠ [] ∨ port.status = .down) := by
  rw [ShowsPorts]
  cases hused : usedPorts ports with
  | nil =>
      have hends := lsof_none port hused
      constructor
      · intro h
        refine ⟨fun p hp => (List.not_mem_nil hp).elim, Or.inr ?_⟩
        by_contra hup
        rw [if_neg hup] at hends
        cases hends.unique h
      · rintro ⟨-, hsome | hdown⟩
        · exact absurd rfl hsome
        · rwa [if_pos hdown] at hends
  | cons p ps =>
      have hends := lsof_shown port hused
      rw [← shownPorts_iff, and_iff_left (Or.inl (List.cons_ne_nil p ps))]
      constructor
      · exact fun h => hends.unique h
      · exact fun h => h ▸ hends

/-- `lsof -i` shows the ports in use with their entries exactly when these
are all the same, and there is one or the variable happens to be down. -/
theorem showsPorts_iff (ports : Nat → Port) (port : Port) :
    ShowsPorts ports port ↔
      (∀ p < portSize, ∀ q < portSize, (ports p).status ≠ .down → (ports q).status ≠ .down →
          ports p = ports q)
        ∧ ((∃ p < portSize, (ports p).status ≠ .down) ∨ port.status = .down) := by
  rw [showsPorts_iff_used]
  refine and_congr ?_ (or_congr_left ?_)
  · simp only [mem_usedPorts]
    exact ⟨fun h p hp q hq hup hup' => h p ⟨hp, hup⟩ q ⟨hq, hup'⟩,
      fun h p hp q hq => h p hp.1 q hq.1 hp.2 hq.2⟩
  · constructor
    · intro hne
      obtain ⟨p, hp⟩ := List.exists_mem_of_ne_nil _ hne
      exact ⟨p, mem_usedPorts.mp hp⟩
    · rintro ⟨p, hp⟩
      exact List.ne_nil_of_mem (mem_usedPorts.mpr hp)

/-- A web server and its proxy. -/
def twoPorts : Nat → Port := fun p =>
  if p = 80 then ⟨.listen, .tcp, 5, 0⟩
  else if p = 8080 then ⟨.listen, .tcp, 6, 1⟩
  else ⟨.down, .unk, 0, 0⟩

/-- The port 80 is shown with the process of 8080. -/
theorem showsPorts_fails :
    ¬ ∀ (ports : Nat → Port) (port : Port), (ports 0).status = .down → ShowsPorts ports port := by
  intro hall
  have hshows := hall twoPorts ⟨.down, .unk, 0, 0⟩ rfl
  have hmem : 80 ∈ usedPorts twoPorts ∧ 8080 ∈ usedPorts twoPorts :=
    ⟨mem_usedPorts.mpr ⟨by decide, by decide⟩, mem_usedPorts.mpr ⟨by decide, by decide⟩⟩
  have hsame := (showsPorts_iff_used.mp hshows).1 80 hmem.1 8080 hmem.2
  exact absurd (congrArg Port.pid hsame) (by decide)

end Scan

end Csos
