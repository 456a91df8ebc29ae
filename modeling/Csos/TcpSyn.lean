import Csos.Lib.Run
import Csos.TcpSegment

/-!
# The active opening (`tcp_syn`)

`tcp_syn` hands the SYN to `netif_output`, which wakes the network
threads, and only then sets the state to SYN_SENT. The scheduler may let
the answer in between the two, so `tcp_syn` is two steps here, which run
interleaved with the sending of the SYN and the processing of the SYN
ACK.
-/

namespace Csos

open Lib

namespace NetIn

variable (env : NetEnv) (s : NetIn)

/-- `tcp_syn` up to the return of `netif_output`, for the task with this
`pid`. -/
def tcpSynQueue (pid sock : Nat) (buff : Frame) (dstIp : IpAddr) : Option NetIn := do
  let socket := s.sockets sock
  let (ports, srcp) := allocRandomPort s.ports pid sock .tcp
  let seq := env.xrandom 0
  let dstMac ← s.kernelSetmac env socket.netif dstIp
  let frame ← ipv4Build (s.netifs socket.netif) (tcpSynHeader socket srcp seq buff) dstMac
    (env.xrandom 1) dstIp ipTypeTcp none 0 0
  return (({ s with ports }.setSocket sock { socket with srcp, seq }).netifOutput frame).1

/-- The last line of `tcp_syn`. -/
def tcpSynMark (sock : Nat) : NetIn := s.setSocket sock { s.sockets sock with state := .synSent }

def tcpSyn (pid sock : Nat) (buff : Frame) (dstIp : IpAddr) : Option NetIn :=
  (s.tcpSynQueue env pid sock buff dstIp).map fun s => s.tcpSynMark sock

end NetIn

section Syn

variable {env : NetEnv} {s s' : NetIn} {pid sock : Nat} {buff : Frame} {dstIp : IpAddr}

theorem netifOutput_setSocket {socket : Socket} {frame : Frame} :
    ((s.setSocket sock socket).netifOutput frame).1
      = (s.netifOutput frame).1.setSocket sock socket := by
  have hsame : findNetif (s.setSocket sock socket).netifs (s.setSocket sock socket).netifCount
      (macAt frame.payload ethSrc) = findNetif s.netifs s.netifCount (macAt frame.payload ethSrc) :=
    rfl
  rw [NetIn.netifOutput, NetIn.netifOutput, hsame]
  cases findNetif s.netifs s.netifCount (macAt frame.payload ethSrc) with
  | some i => rfl
  | none => rfl

theorem tcpSynMark_setSocket {socket : Socket} :
    (s.setSocket sock socket).tcpSynMark sock
      = s.setSocket sock { socket with state := .synSent } := by
  rw [NetIn.tcpSynMark, setSocket_sockets, Function.update_self, NetIn.setSocket, NetIn.setSocket,
    NetIn.setSocket]
  dsimp only
  rw [Function.update_idem]

/-- The two steps in a row are the builder that sets the state together
with the other fields. -/
theorem tcpSyn_eq : s.tcpSyn env pid sock buff dstIp = (do
    let dstMac ← s.kernelSetmac env (s.sockets sock).netif dstIp
    let (frame, socket, ports) ← Csos.tcpSyn (s.netifs (s.sockets sock).netif) (s.sockets sock)
      s.ports pid sock buff dstMac (env.xrandom 0) (env.xrandom 1) dstIp
    return (({ s with ports }.setSocket sock socket).netifOutput frame).1) := by
  rw [NetIn.tcpSyn, NetIn.tcpSynQueue]
  simp only [Csos.tcpSyn]
  obtain ⟨ports, srcp⟩ := allocRandomPort s.ports pid sock .tcp
  cases s.kernelSetmac env (s.sockets sock).netif dstIp with
  | none => rfl
  | some dstMac =>
      simp only [Option.bind_eq_bind, Option.bind_some]
      generalize ipv4Build (s.netifs (s.sockets sock).netif)
        (tcpSynHeader (s.sockets sock) srcp (env.xrandom 0) buff) dstMac (env.xrandom 1) dstIp
        ipTypeTcp none 0 0 = frame
      cases frame with
      | none => rfl
      | some frame =>
          simp only [Option.bind_some, Option.pure_def, Option.map_some, netifOutput_setSocket,
            tcpSynMark_setSocket]

/-- What `tcp_syn` sends and leaves. -/
theorem tcpSyn_some (h : s.tcpSyn env pid sock buff dstIp = some s') :
    ∃ ports srcp f, allocRandomPort s.ports pid sock .tcp = (ports, srcp)
      ∧ Headed (s.netifs (s.sockets sock).netif) dstIp (u16 (20 + 20 + 0 + 0)) f.payload
      ∧ HasFields f.payload (u16 srcp) (u16 (s.sockets sock).dstp) (u32 (env.xrandom 0)) (u32 0)
          (tcpFlagWord flagsSyn (20 / 4))
      ∧ s' = (({ s with ports }.setSocket sock { s.sockets sock with
          srcp, seq := env.xrandom 0, state := .synSent }).netifOutput f).1 := by
  obtain ⟨net, hnet, rfl⟩ := Option.map_eq_some_iff.mp h
  rw [NetIn.tcpSynQueue] at hnet
  generalize allocRandomPort s.ports pid sock .tcp = alloc at hnet ⊢
  obtain ⟨ports, srcp⟩ := alloc
  obtain ⟨dstMac, -, hnet⟩ := Option.bind_eq_some_iff.mp hnet
  obtain ⟨f, hf, hnet⟩ := Option.bind_eq_some_iff.mp hnet
  obtain rfl := Option.some.inj hnet
  obtain ⟨hheaded, hfields⟩ := tcpSynHeader_segment hf
  refine ⟨ports, srcp, f, rfl, hheaded, hfields, ?_⟩
  rw [netifOutput_setSocket, tcpSynMark_setSocket, ← netifOutput_setSocket]

end Syn

/-! ## Schedules -/

/-- The steps of the three threads: `tcp_syn` in two, `netout_thread`
sends the SYN, `netin_thread` processes the answer. -/
inductive SynStep where
  | queue
  | mark
  | transmit
  | process
deriving DecidableEq

/-- How far `tcp_syn` has come. -/
inductive SynPc where
  | called
  | queued
  | returned
deriving DecidableEq

/-- The state, how far `tcp_syn` is, and whether the SYN is on the wire
and its answer processed. -/
structure SynRun where
  net : NetIn
  pc : SynPc
  sent : Bool
  processed : Bool

/-- One call of `tcp_syn`, and the answer of the peer. -/
structure SynCall where
  env : NetEnv
  pid : Nat
  sock : Nat
  buff : Frame
  dstIp : IpAddr
  answerEnv : NetEnv
  answer : Frame

namespace SynRun

variable (c : SynCall) (r : SynRun)

def step : SynStep → Option SynRun
  | .queue =>
      if r.pc = .called then do
        let net ← r.net.tcpSynQueue c.env c.pid c.sock c.buff c.dstIp
        return { r with net, pc := .queued }
      else none
  | .mark =>
      if r.pc = .queued then some { r with net := r.net.tcpSynMark c.sock, pc := .returned }
      else none
  | .transmit => if r.pc ≠ .called ∧ r.sent = false then some { r with sent := true } else none
  | .process =>
      if r.sent ∧ r.processed = false then do
        let net ← r.net.tcpInput c.answerEnv c.answer
        return { r with net, processed := true }
      else none

/-- The answer is the correct SYN ACK for the SYN that was queued, and it
goes to the client's port. -/
structure Answers (net : NetIn) : Prop where
  flags : segFlags c.answer.payload = flagsSynAck
  ack : segAck c.answer.payload = u32 ((net.sockets c.sock).seq + 1)
  port : segDstPort c.answer.payload = (net.sockets c.sock).srcp
  status : (net.portOf c.answer.payload).status = .up
  sock : (net.portOf c.answer.payload).sock = c.sock

/-- `tcp_syn` sets the state before the answer is processed. -/
def MarkedFirst (schedule : List SynStep) : Prop :=
  .mark ∈ schedule.takeWhile fun a => a ≠ .process

instance decidableMarkedFirst (schedule : List SynStep) : Decidable (MarkedFirst schedule) :=
  inferInstanceAs (Decidable (_ ∈ _))

def Done (r : SynRun) : Prop := r.pc = .returned ∧ r.processed = true

def Established (r : SynRun) : Prop := (r.net.sockets c.sock).state = .established

/-! ## Every schedule -/

variable {c r} {r' : SynRun} {net : NetIn} {schedule : List SynStep}

/-- The state after `tcp_syn`. -/
theorem tcpSynMark_state {sock : Nat} : ((net.tcpSynMark sock).sockets sock).state = .synSent := by
  rw [NetIn.tcpSynMark, setSocket_sockets, Function.update_self]

theorem markedFirst_mark : MarkedFirst (.mark :: schedule) := List.mem_cons_self

theorem not_markedFirst_process : ¬ MarkedFirst (.process :: schedule) := nofun

theorem markedFirst_cons {a : SynStep} (hmark : a ≠ .mark) (hprocess : a ≠ .process) :
    MarkedFirst (a :: schedule) ↔ MarkedFirst schedule := by
  rw [MarkedFirst, MarkedFirst, List.takeWhile_cons_of_pos (by simpa using hprocess), List.mem_cons,
    or_iff_right hmark.symm]

/-- When both have finished, only the SYN is left to be sent. -/
theorem run_done {sent : Bool}
    (hrun : run (step c) ⟨net, .returned, sent, true⟩ schedule = some r) :
    r.net = net := by
  induction schedule generalizing sent with
  | nil =>
      obtain rfl := Option.some.inj hrun
      rfl
  | cons a schedule ih =>
      obtain ⟨r₁, hstep, hrun⟩ := Option.bind_eq_some_iff.mp hrun
      cases a with
      | transmit =>
          rw [step] at hstep
          obtain ⟨-, hstep⟩ := Option.ite_none_right_eq_some.mp hstep
          obtain rfl := Option.some.inj hstep
          exact ih hrun
      | process =>
          rw [step] at hstep
          obtain ⟨hcond, -⟩ := Option.ite_none_right_eq_some.mp hstep
          cases hcond.2
      | _ => cases hstep

/-- The answer comes too early: `tcp_syn` writes over the state. -/
theorem run_early {sent : Bool} (hrun : run (step c) ⟨net, .queued, sent, true⟩ schedule = some r)
    (hdone : r.Done) : ¬ Established c r := by
  induction schedule generalizing sent with
  | nil =>
      obtain rfl := Option.some.inj hrun
      cases hdone.1
  | cons a schedule ih =>
      obtain ⟨r₁, hstep, hrun⟩ := Option.bind_eq_some_iff.mp hrun
      cases a with
      | queue => cases hstep
      | mark =>
          obtain rfl := Option.some.inj hstep
          rw [Established, run_done hrun, tcpSynMark_state]
          nofun
      | transmit =>
          rw [step] at hstep
          obtain ⟨-, hstep⟩ := Option.ite_none_right_eq_some.mp hstep
          obtain rfl := Option.some.inj hstep
          exact ih hrun
      | process =>
          rw [step] at hstep
          obtain ⟨hcond, -⟩ := Option.ite_none_right_eq_some.mp hstep
          cases hcond.2

/-- A client in SYN_SENT takes the answer. -/
theorem tcpInput_answer (hanswer : Answers c net)
    (hclient : (net.sockets c.sock).socktype = .client)
    {net' : NetIn} (h : (net.tcpSynMark c.sock).tcpInput c.answerEnv c.answer = some net') :
    (net'.sockets c.sock).state = .established := by
  obtain ⟨reply, -, hhandles⟩ := tcpInput_handles h
  have hport : (net.tcpSynMark c.sock).portOf c.answer.payload = net.portOf c.answer.payload := rfl
  rw [hport, hanswer.sock, hanswer.status, segSocket_synAck hanswer.flags] at hhandles
  rw [hhandles.self, ackSocket, ackState, tcpSynMark_state, NetIn.tcpSynMark, setSocket_sockets,
    Function.update_self, hclient]

theorem run_marked {sent : Bool} (hanswer : Answers c net)
    (hclient : (net.sockets c.sock).socktype = .client)
    (hrun : run (step c) ⟨net.tcpSynMark c.sock, .returned, sent, false⟩ schedule = some r)
    (hdone : r.Done) : Established c r := by
  induction schedule generalizing sent with
  | nil =>
      obtain rfl := Option.some.inj hrun
      cases hdone.2
  | cons a schedule ih =>
      obtain ⟨r₁, hstep, hrun⟩ := Option.bind_eq_some_iff.mp hrun
      cases a with
      | transmit =>
          rw [step] at hstep
          obtain ⟨-, hstep⟩ := Option.ite_none_right_eq_some.mp hstep
          obtain rfl := Option.some.inj hstep
          exact ih hrun
      | process =>
          rw [step] at hstep
          obtain ⟨-, hstep⟩ := Option.ite_none_right_eq_some.mp hstep
          obtain ⟨net', hnet', heq⟩ := Option.bind_eq_some_iff.mp hstep
          obtain rfl := Option.some.inj heq
          rw [Established, run_done hrun]
          exact tcpInput_answer hanswer hclient hnet'
      | _ => cases hstep

theorem run_queued {sent : Bool} (hanswer : Answers c net)
    (hclient : (net.sockets c.sock).socktype = .client)
    (hrun : run (step c) ⟨net, .queued, sent, false⟩ schedule = some r) (hdone : r.Done) :
    Established c r ↔ MarkedFirst schedule := by
  induction schedule generalizing sent with
  | nil =>
      obtain rfl := Option.some.inj hrun
      cases hdone.1
  | cons a schedule ih =>
      obtain ⟨r₁, hstep, hrun⟩ := Option.bind_eq_some_iff.mp hrun
      cases a with
      | queue => cases hstep
      | mark =>
          obtain rfl := Option.some.inj hstep
          exact iff_of_true (run_marked hanswer hclient hrun hdone) markedFirst_mark
      | transmit =>
          rw [step] at hstep
          obtain ⟨-, hstep⟩ := Option.ite_none_right_eq_some.mp hstep
          obtain rfl := Option.some.inj hstep
          rw [ih hrun, markedFirst_cons (a := .transmit) (by decide) (by decide)]
      | process =>
          rw [step] at hstep
          obtain ⟨-, hstep⟩ := Option.ite_none_right_eq_some.mp hstep
          obtain ⟨net', -, heq⟩ := Option.bind_eq_some_iff.mp hstep
          obtain rfl := Option.some.inj heq
          exact iff_of_false (run_early hrun hdone) not_markedFirst_process

/-- What the first step leaves. -/
theorem tcpSynQueue_spec {net' : NetIn}
    (h : net.tcpSynQueue c.env c.pid c.sock c.buff c.dstIp = some net') :
    net'.sockets c.sock = { net.sockets c.sock with
        srcp := (allocRandomPort net.ports c.pid c.sock .tcp).2, seq := c.env.xrandom 0 }
      ∧ net'.ports = (allocRandomPort net.ports c.pid c.sock .tcp).1 := by
  rw [NetIn.tcpSynQueue] at h
  obtain ⟨dstMac, -, h⟩ := Option.bind_eq_some_iff.mp h
  obtain ⟨frame, -, h⟩ := Option.bind_eq_some_iff.mp h
  obtain rfl := Option.some.inj h
  rw [netifOutput_frame.2.1, netifOutput_frame.2.2, setSocket_sockets, Function.update_self]
  exact ⟨rfl, rfl⟩

/-- In every schedule in which `tcp_syn` returns and the correct answer is
processed, the client ends in ESTABLISHED if and only if `tcp_syn` set the
state before the answer was processed. -/
theorem handshake_completes (c : SynCall) (net : NetIn) (schedule : List SynStep) (r : SynRun)
    (hclient : (net.sockets c.sock).socktype = .client)
    (hanswer : ∀ net', net.tcpSynQueue c.env c.pid c.sock c.buff c.dstIp = some net' →
      Answers c net')
    (hrun : run (step c) ⟨net, .called, false, false⟩ schedule = some r) (hdone : r.Done) :
    Established c r ↔ MarkedFirst schedule := by
  cases schedule with
  | nil =>
      obtain rfl := Option.some.inj hrun
      cases hdone.1
  | cons a schedule =>
      obtain ⟨r₁, hstep, hrun⟩ := Option.bind_eq_some_iff.mp hrun
      cases a with
      | queue =>
          rw [step, if_pos rfl] at hstep
          obtain ⟨net', hnet', heq⟩ := Option.bind_eq_some_iff.mp hstep
          obtain rfl := Option.some.inj heq
          rw [markedFirst_cons (a := .queue) (by decide) (by decide)]
          refine run_queued (hanswer net' hnet') ?_ hrun hdone
          rw [(tcpSynQueue_spec hnet').1, hclient]
      | _ => cases hstep

/-- A card whose gateway is in the ARP map, and a closed socket. -/
def idleNet : NetIn :=
  { aloneNet with arpMap := [(testNetif.gw, testNetif.mac)] }

/-- A call for port 80 of the gateway, and the SYN ACK for the number 0,
to port 20000. -/
def gatewayCall : SynCall where
  env := silentEnv
  pid := 1
  sock := 0
  buff := { length := 0, payload := fun _ => 0 }
  dstIp := testNetif.gw
  answerEnv := silentEnv
  answer :=
    { length := 58
      payload := fun b =>
        ([0x52, 0x52, 0x52, 0x52, 0x52, 0x52, 0x53, 0x53, 0x53, 0x53, 0x53, 0x53, 0x08, 0x00,
          0x45, 0, 0, 40, 0, 0, 0, 0, 64, 6, 0, 0, 1, 1, 1, 1, 10, 10, 10, 10,
          0, 80, 0x4E, 0x20, 0, 0, 0, 7, 0, 0, 0, 1, 0x50, 0x12] : List (BitVec 8))[b]?.getD 0 }

theorem answers_gatewayCall {net' : NetIn}
    (h : idleNet.tcpSynQueue gatewayCall.env gatewayCall.pid gatewayCall.sock gatewayCall.buff
      gatewayCall.dstIp = some net') : Answers gatewayCall net' := by
  obtain ⟨hsocket, hports⟩ := tcpSynQueue_spec h
  constructor
  case flags => decide
  case ack =>
    rw [hsocket]
    decide
  case port =>
    rw [hsocket]
    decide +kernel
  case status =>
    rw [NetIn.portOf, hports]
    decide +kernel
  case sock =>
    rw [NetIn.portOf, hports]
    decide +kernel

/-- The schedules of one call that come to their end. -/
theorem exists_done {schedule : List SynStep}
    (h : ((run (step gatewayCall) ⟨idleNet, .called, false, false⟩ schedule).map
      fun r => (r.pc, r.processed)) = some (.returned, true)) :
    ∃ r, run (step gatewayCall) ⟨idleNet, .called, false, false⟩ schedule = some r ∧ r.Done := by
  obtain ⟨r, hrun, hr⟩ := Option.map_eq_some_iff.mp h
  exact ⟨r, hrun, (Prod.mk.inj hr).1, (Prod.mk.inj hr).2⟩

theorem handshake_completes_marked :
    ∃ r, run (step gatewayCall) ⟨idleNet, .called, false, false⟩ [.queue, .mark, .transmit, .process]
        = some r ∧ Established gatewayCall r := by
  obtain ⟨r, hrun, hdone⟩ := @exists_done [.queue, .mark, .transmit, .process] (by decide +kernel)
  exact ⟨r, hrun, (handshake_completes gatewayCall idleNet _ r rfl (fun _ => answers_gatewayCall)
    hrun hdone).mpr (by decide)⟩

/-- When `sem_notify` lets the network threads run, the SYN ACK finds the
client still closed, and SYN_SENT is the last state. -/
theorem handshake_completes_fails :
    ¬ ∀ (c : SynCall) (net : NetIn) (schedule : List SynStep) (r : SynRun),
      (net.sockets c.sock).socktype = .client →
      (∀ net', net.tcpSynQueue c.env c.pid c.sock c.buff c.dstIp = some net' → Answers c net') →
      run (step c) ⟨net, .called, false, false⟩ schedule = some r → r.Done → Established c r := by
  intro hall
  obtain ⟨r, hrun, hdone⟩ := @exists_done [.queue, .transmit, .process, .mark] (by decide +kernel)
  have hestablished := hall gatewayCall idleNet _ r rfl (fun _ => answers_gatewayCall) hrun hdone
  obtain ⟨r₁, hstep, hrest⟩ := Option.bind_eq_some_iff.mp hrun
  rw [step, if_pos rfl] at hstep
  obtain ⟨net', hnet', heq⟩ := Option.bind_eq_some_iff.mp hstep
  obtain rfl := Option.some.inj heq
  have hmarked := (run_queued (answers_gatewayCall hnet')
    (by rw [(tcpSynQueue_spec hnet').1]; rfl) hrest hdone).mp hestablished
  exact absurd hmarked (by decide)

end SynRun

end Csos
