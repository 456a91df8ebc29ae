import Csos.Lib.Run
import Csos.TcpSegment

/-!
# Sending data (`sys_send`, `tcp_build`)

A data segment has the number `socket->seq`. Sending leaves that field as
it is; only an incoming ACK moves it, to whatever the ACK says. So two
sends in a row cover the same numbers unless an ACK of all of the first
comes between them.
-/

namespace Csos

open Lib

/-! ## `sys_send` -/

namespace NetIn

/-- The segment that `sys_send` builds. The length is cut to 16 bits. -/
def sendSegment (env : NetEnv) (s : NetIn) (sock : Nat) (data : Option Bytes) (len : Nat) :
    Option Frame := do
  let socket := s.sockets sock
  let payload ← env.descBuff
  let dstMac ← s.kernelSetmac env socket.netif socket.dipv4
  tcpBuild (s.netifs socket.netif) socket { payload, length := 0 } dstMac (env.xrandom 0) data
    (u16 len)

/-- `sys_send`, for the socket of the file descriptor. -/
def sysSend (env : NetEnv) (s : NetIn) (sock : Nat) (data : Option Bytes) (len : Nat) :
    Option (NetIn × Int) :=
  if (s.sockets sock).state ≠ .established then some (s, -1)
  else (s.sendSegment env sock data len).map fun buff => ((s.netifOutput buff).1, 0)

end NetIn

section Segment

variable {env : NetEnv} {s : NetIn} {sock len : Nat} {data : Option Bytes} {f : Frame}

theorem sendSegment_fields (h : s.sendSegment env sock data len = some f) :
    Headed (s.netifs (s.sockets sock).netif) (s.sockets sock).dipv4 (u16 (20 + 20 + u16 len + 0))
        f.payload
      ∧ HasFields f.payload (u16 (s.sockets sock).srcp) (u16 (s.sockets sock).dstp)
          (u32 (s.sockets sock).seq) (u32 (s.sockets sock).ack)
          (tcpFlagWord flagsPshAck (20 / 4)) := by
  rw [NetIn.sendSegment] at h
  obtain ⟨payload, -, h⟩ := Option.bind_eq_some_iff.mp h
  obtain ⟨dstMac, -, h⟩ := Option.bind_eq_some_iff.mp h
  exact tcpBuild_segment h

end Segment

/-! ## Runs -/

/-- What can happen to a socket that sends. -/
inductive SendEvent where
  | send (env : NetEnv) (data : Option Bytes) (len : Nat)
  | ack (env : NetEnv) (buff : Frame)

/-- The state, the number and the length of the last data segment, and
what the last ACK after it acknowledges. -/
structure SendRun where
  net : NetIn
  last : Option (Nat × Nat)
  acked : Option Nat

namespace SendRun

variable (sock : Nat) (r : SendRun)

/-- The data segment that a step hands to the network. -/
def sent : SendEvent → Option Frame
  | .send env data len =>
      if (r.net.sockets sock).state = .established then r.net.sendSegment env sock data len
      else none
  | .ack _ _ => none

def step : SendEvent → Option SendRun
  | .send env data len => do
      let (net, _) ← r.net.sysSend env sock data len
      match r.sent sock (.send env data len) with
      | some f => return { net, last := some (segSeq f.payload, u16 len), acked := none }
      | none => return { r with net }
  | .ack env buff => do
      let net ← r.net.tcpInput env buff
      return { r with net, acked := some (segAck buff.payload) }

/-- The segment is an ACK for the socket. -/
def AckFor (p : Bytes) : Prop :=
  segFlags p = flagsAck ∧ (r.net.portOf p).sock = sock ∧ (r.net.portOf p).status.Open

/-- The call returns, and the only segments that come in are ACKs for the
socket. -/
def Regular (e : SendEvent) : Prop :=
  (r.step sock e).isSome ∧
    match e with
    | .send .. => True
    | .ack _ buff => r.AckFor sock buff.payload

variable {sock r} {r' : SendRun} {e : SendEvent}

/-- The socket is connected, and its number is the one that was last
acknowledged or sent. -/
structure Tracks (sock : Nat) (r : SendRun) : Prop where
  state : (r.net.sockets sock).state = .established
  seq : ∀ seq len, r.last = some (seq, len) →
    len < 0x10000 ∧ seq < 0x100000000 ∧ u32 (r.net.sockets sock).seq = r.acked.getD seq

theorem sent_send {env : NetEnv} {data : Option Bytes} {len : Nat} (h : r.Tracks sock) :
    r.sent sock (.send env data len) = r.net.sendSegment env sock data len := if_pos h.state

/-- A send leaves the socket alone. -/
theorem step_send {env : NetEnv} {data : Option Bytes} {len : Nat} (h : r.Tracks sock)
    (hstep : r.step sock (.send env data len) = some r') :
    ∃ f, r.net.sendSegment env sock data len = some f ∧ r'.net.sockets = r.net.sockets
      ∧ r'.last = some (segSeq f.payload, u16 len) ∧ r'.acked = none := by
  rw [step] at hstep
  obtain ⟨⟨net, result⟩, hnet, hstep⟩ := Option.bind_eq_some_iff.mp hstep
  rw [NetIn.sysSend, if_neg (not_not_intro h.state)] at hnet
  obtain ⟨f, hf, heq⟩ := Option.map_eq_some_iff.mp hnet
  obtain ⟨rfl, -⟩ := Prod.mk.inj heq
  rw [sent_send h, hf] at hstep
  obtain rfl := Option.some.inj hstep
  exact ⟨f, hf, netifOutput_frame.2.1, rfl, rfl⟩

/-- An ACK sets the number to what it acknowledges. -/
theorem step_ack {env : NetEnv} {buff : Frame} (h : r.Tracks sock)
    (hack : r.AckFor sock buff.payload)
    (hstep : r.step sock (.ack env buff) = some r') :
    (r'.net.sockets sock).state = .established
      ∧ (r'.net.sockets sock).seq = segAck buff.payload
      ∧ r'.last = r.last ∧ r'.acked = some (segAck buff.payload) := by
  rw [step] at hstep
  obtain ⟨net, hnet, heq⟩ := Option.bind_eq_some_iff.mp hstep
  obtain rfl := Option.some.inj heq
  obtain ⟨reply, -, hhandles⟩ := tcpInput_handles hnet
  obtain ⟨hflags, hsock, hopen⟩ := hack
  rw [hsock, segSocket_ack hopen hflags, ackedSocket, h.state] at hhandles
  refine ⟨?_, ?_, rfl, rfl⟩
  · rw [hhandles.self]
  · rw [hhandles.self]

theorem Tracks.step (h : r.Tracks sock) (hreg : r.Regular sock e)
    (hstep : r.step sock e = some r') : r'.Tracks sock := by
  cases e with
  | send env data len =>
      obtain ⟨f, hf, hsockets, hlast, hacked⟩ := step_send h hstep
      refine ⟨by rw [hsockets, h.state], fun seq n heq => ?_⟩
      obtain ⟨rfl, rfl⟩ := Prod.mk.inj (Option.some.inj (hlast.symm.trans heq))
      refine ⟨Nat.mod_lt _ (by decide), ntohl_lt _, ?_⟩
      rw [hsockets, hacked, Option.getD_none, (sendSegment_fields hf).2.seq]
  | ack env buff =>
      obtain ⟨hstate, hseq, hlast, hacked⟩ := step_ack h hreg.2 hstep
      refine ⟨hstate, fun seq n heq => ?_⟩
      obtain ⟨hn, hlt, -⟩ := h.seq seq n (hlast.symm.trans heq)
      refine ⟨hn, hlt, ?_⟩
      rw [hseq, hacked, Option.getD_some]
      exact Nat.mod_eq_of_lt (ntohl_lt _)

/-- A card with a connected socket, whose peer is in the ARP map. -/
def connectedNet : NetIn :=
  { aloneNet.setSocket 0 { aloneNet.sockets 0 with
      state := .established, srcp := 20000, dstp := 80, dipv4 := testNetif.gw, seq := 100 } with
    arpMap := [(testNetif.gw, testNetif.mac)] }

/-- Buffers are to be had, and full of zeros. -/
def blankEnv : NetEnv := { silentEnv with descBuff := some fun _ => 0 }

end SendRun

end Csos
