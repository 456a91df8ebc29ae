import Csos.Lib.Run
import Csos.TcpSegment

/-!
# Receiving data (`tcp_ack`)

An acknowledgement names the byte after the longest prefix of the stream
that has arrived. `tcp_ack` does not look at the number of a data segment:
it adds its length to `socket->ack`. That is the same only as long as the
segments arrive in order and none arrives twice.
-/

namespace Csos

open Lib

/-! ## Bytes of a stream -/

/-- The byte at `b` lies in one of the segments, each with its position in
the stream and its length. -/
def Covered (received : List (Nat × Nat)) (b : Nat) : Prop :=
  ∃ segment ∈ received, segment.1 ≤ b ∧ b < segment.1 + segment.2

/-- The longest prefix of the stream that the segments cover has `n`
bytes. -/
def IsPrefix (received : List (Nat × Nat)) (n : Nat) : Prop :=
  (∀ b < n, Covered received b) ∧ ¬ Covered received n

/-- The segments cover just the first `n` bytes. -/
def Fills (received : List (Nat × Nat)) (n : Nat) : Prop := ∀ b, Covered received b ↔ b < n

section Stream

variable {received : List (Nat × Nat)} {pos len n b : Nat}

theorem covered_snoc : Covered (received ++ [(pos, len)]) b
    ↔ Covered received b ∨ pos ≤ b ∧ b < pos + len := by
  simp only [Covered, List.mem_append, List.mem_singleton, or_and_right, exists_or, exists_eq_left]

theorem fills_nil : Fills [] 0 := by
  intro b
  refine ⟨?_, fun h => absurd h (Nat.not_lt_zero b)⟩
  rintro ⟨segment, hmem, -⟩
  cases hmem

theorem Fills.snoc (h : Fills received n) (hpos : len = 0 ∨ pos = n) :
    Fills (received ++ [(pos, len)]) (n + len) := by
  intro b
  rw [covered_snoc, h b]
  omega

theorem Fills.isPrefix (h : Fills received n) : IsPrefix received n :=
  ⟨fun b hb => (h b).mpr hb, fun hc => Nat.lt_irrefl n ((h n).mp hc)⟩

/-- A segment that is not the next one adds fewer bytes to the prefix than
it has. -/
theorem Fills.lt_of_isPrefix {m : Nat} (h : Fills received n) (hlen : len ≠ 0) (hpos : pos ≠ n)
    (hm : IsPrefix (received ++ [(pos, len)]) m) : n ≤ m ∧ m < n + len := by
  obtain ⟨hall, hend⟩ := hm
  rw [covered_snoc, h m] at hend
  refine ⟨by omega, ?_⟩
  by_contra hle
  have hn := hall n (by omega)
  rw [covered_snoc, h n] at hn
  have hlast := hall (n + len - 1) (by omega)
  rw [covered_snoc, h _] at hlast
  omega

end Stream

/-! ## Runs -/

/-- A data segment arrives: the frame, and which bytes of the stream it
carries. -/
structure DataEvent where
  env : NetEnv
  buff : Frame
  pos : Nat
  len : Nat

/-- The state, and the segments that have arrived. -/
structure ReceiveRun where
  net : NetIn
  received : List (Nat × Nat)

namespace ReceiveRun

variable (sock base : Nat) (r : ReceiveRun) (e : DataEvent)

def step : Option ReceiveRun := do
  let net ← r.net.tcpInput e.env e.buff
  return { net, received := r.received ++ [(e.pos, e.len)] }

/-- The segment that `tcp_ack` passes on in reply. -/
def reply : Option Frame :=
  (r.net.tcpAck e.env sock { e.buff with payload := hostFlags e.buff.payload }).map Prod.snd

/-- The frame is a data segment for the socket, with these bytes of a
stream whose first byte has the number `base`. -/
structure IsData : Prop where
  tcp : IsTcp e.buff.payload
  flags : segFlags e.buff.payload = flagsPshAck
  sock : (r.net.portOf e.buff.payload).sock = sock
  status : (r.net.portOf e.buff.payload).status.Open
  seq : segSeq e.buff.payload = u32 (base + e.pos)
  len : ntohs (e.buff.payload.load16 ipv4TotalLen) = segHeaderLen e.buff.payload + e.len

/-- The reply acknowledges the longest prefix of the stream that has
arrived. -/
def Acknowledges : Prop :=
  ∃ f n, r.reply sock e = some f ∧ IsPrefix (r.received ++ [(e.pos, e.len)]) n
    ∧ segAck f.payload = u32 (base + n)

/-- The number of bytes that have arrived, all segments counted. -/
def total : Nat := (r.received.map Prod.snd).sum

/-- The segment is the next one of the stream, or empty. -/
def Next : Prop := e.len = 0 ∨ e.pos = r.total

/-! ## All runs -/

variable {sock base r e} {r' : ReceiveRun}

/-- So far everything has come in order. -/
structure InOrder (sock base : Nat) (r : ReceiveRun) : Prop where
  fills : Fills r.received r.total
  ack : u32 (r.net.sockets sock).ack = u32 (base + r.total)

theorem IsData.segDataLen (h : IsData sock base r e) : Csos.segDataLen e.buff.payload = e.len := by
  have hlt := ntohs_lt (e.buff.payload.load16 ipv4TotalLen)
  have hlen := h.len
  rw [Csos.segDataLen, u32]
  omega

theorem IsData.ackSocket (h : IsData sock base r e) {socket : Socket} :
    (Csos.ackSocket socket e.buff.payload).ack = u32 (socket.ack + e.len) := by
  rw [ackSocket_ack_pshAck h.flags, h.segDataLen]

/-- The reply has the new `socket->ack`. -/
theorem IsData.reply (h : IsData sock base r e) :
    ∃ f, r.reply sock e = some f ∧ segAck f.payload = u32 ((r.net.sockets sock).ack + e.len) := by
  obtain ⟨⟨net, f⟩, hf⟩ := @tcpAck_returns e.env r.net sock e.buff.length _ h.tcp
  refine ⟨f, by rw [ReceiveRun.reply, hf]; rfl, ?_⟩
  rw [(ackOf_ipv4Output h.tcp (tcpAck_some hf).1).ack, ackNumOf, h.flags, if_neg (by decide),
    if_pos rfl, Option.getD_some, h.segDataLen]

theorem total_snoc {net : NetIn} :
    total { net, received := r.received ++ [(e.pos, e.len)] } = r.total + e.len := by
  rw [total, List.map_append, List.sum_append]
  rfl

theorem step_keeps (hstep : r.step e = some r') :
    r'.net.ports = r.net.ports ∧ r'.received = r.received ++ [(e.pos, e.len)] := by
  rw [ReceiveRun.step] at hstep
  obtain ⟨net, hnet, heq⟩ := Option.bind_eq_some_iff.mp hstep
  obtain rfl := Option.some.inj heq
  obtain ⟨reply, -, hhandles⟩ := tcpInput_handles hnet
  exact ⟨hhandles.ports, rfl⟩

theorem InOrder.step (h : r.InOrder sock base) (hdata : IsData sock base r e) (hnext : r.Next e)
    (hstep : r.step e = some r') : r'.InOrder sock base := by
  obtain ⟨net, hnet, heq⟩ := Option.bind_eq_some_iff.mp hstep
  obtain rfl := Option.some.inj heq
  obtain ⟨reply, -, hhandles⟩ := tcpInput_handles hnet
  rw [hdata.sock, segSocket_pshAck hdata.status hdata.flags] at hhandles
  refine ⟨?_, ?_⟩
  · rw [total_snoc]
    exact h.fills.snoc hnext
  · have hack := h.ack
    rw [total_snoc, hhandles.self, hdata.ackSocket, u32, u32, u32]
    rw [u32, u32] at hack
    omega

theorem acknowledges_iff_next (h : r.InOrder sock base) (hdata : IsData sock base r e) :
    r.Acknowledges sock base e ↔ r.Next e := by
  obtain ⟨f, hf, hack⟩ := hdata.reply
  have hsock := h.ack
  constructor
  · rintro ⟨f', n, hf', hprefix, heq⟩
    obtain rfl := Option.some.inj (hf.symm.trans hf')
    by_contra hn
    obtain ⟨hlen, hpos⟩ := not_or.mp hn
    obtain ⟨hle, hlt⟩ := h.fills.lt_of_isPrefix hlen hpos hprefix
    have hshort : e.len < 0x10000 := by
      have hlt := ntohs_lt (e.buff.payload.load16 ipv4TotalLen)
      have hlen := hdata.len
      omega
    rw [hack, u32, u32] at heq
    rw [u32, u32] at hsock
    omega
  · intro hnext
    refine ⟨f, r.total + e.len, hf, (h.fills.snoc hnext).isPrefix, ?_⟩
    rw [hack, u32, u32]
    rw [u32, u32] at hsock
    omega

/-- However the data segments of a stream are delivered, every reply
acknowledges the longest prefix that has arrived exactly when every
segment that is not empty comes right after the bytes before it. -/
theorem receive_acknowledges (sock : Nat) (net : NetIn) (events : List DataEvent)
    (hdata : Always step (IsData sock (net.sockets sock).ack) ⟨net, []⟩ events) :
    Always step (Acknowledges sock (net.sockets sock).ack) ⟨net, []⟩ events
      ↔ Always step Next ⟨net, []⟩ events :=
  always_congr_of_invariant (I := InOrder sock (net.sockets sock).ack)
    (fun _ _ _ h hdata hnext hstep => h.step hdata hnext hstep)
    (fun _ _ h hdata => acknowledges_iff_next h hdata) ⟨fills_nil, rfl⟩ hdata

/-- A card with a connected socket at port 20000. -/
def openNet : NetIn :=
  { aloneNet.setSocket 0 { aloneNet.sockets 0 with
      state := .established, srcp := 20000, dstp := 80, dipv4 := testNetif.gw } with
    ports := fun _ => { status := .up, ptype := .tcp, pid := 0, sock := 0 } }

/-- One byte from the peer, the first of its stream. -/
def firstByte : DataEvent where
  env := silentEnv
  buff :=
    { length := 55
      payload := fun b =>
        ([0x52, 0x52, 0x52, 0x52, 0x52, 0x52, 0x53, 0x53, 0x53, 0x53, 0x53, 0x53, 0x08, 0x00,
          0x45, 0, 0, 41, 0, 0, 0, 0, 64, 6, 0, 0, 1, 1, 1, 1, 10, 10, 10, 10,
          0, 80, 0x4E, 0x20, 0, 0, 0, 0, 0, 0, 0, 100, 0x50, 0x18] : List (BitVec 8))[b]?.getD 0 }
  pos := 0
  len := 1

theorem isData_firstByte (hports : r.net.ports = openNet.ports) : IsData 0 0 r firstByte where
  tcp := ⟨by decide, by decide⟩
  flags := by decide
  sock := by
    rw [NetIn.portOf, hports]
    rfl
  status := by
    rw [NetIn.portOf, hports]
    exact Or.inl rfl
  seq := by decide
  len := by decide

theorem receive_acknowledges_first :
    Always step (Acknowledges 0 0) ⟨openNet, []⟩ [firstByte] :=
  (receive_acknowledges 0 openNet [firstByte] ⟨isData_firstByte rfl, fun _ _ => trivial⟩).mpr
    ⟨Or.inr rfl, fun _ _ => trivial⟩

/-- The same segment once more: the reply acknowledges two bytes. -/
theorem receive_acknowledges_fails : ¬ ∀ (sock : Nat) (net : NetIn) (events : List DataEvent),
    Always step (IsData sock (net.sockets sock).ack) ⟨net, []⟩ events →
      Always step (Acknowledges sock (net.sockets sock).ack) ⟨net, []⟩ events := by
  intro hall
  have hports : ∀ r', step ⟨openNet, []⟩ firstByte = some r' → r'.net.ports = openNet.ports :=
    fun r' hstep => (step_keeps hstep).1
  have hback : (step ⟨openNet, []⟩ firstByte).isSome := by decide +kernel
  obtain ⟨r', hstep⟩ := Option.isSome_iff_exists.mp hback
  have hlaw := hall 0 openNet [firstByte, firstByte]
    ⟨isData_firstByte rfl, fun r' hstep => ⟨isData_firstByte (hports r' hstep), fun _ _ => trivial⟩⟩
  have horder : r'.InOrder 0 0 :=
    InOrder.step ⟨fills_nil, rfl⟩ (isData_firstByte rfl) (Or.inr rfl) hstep
  have hnext := (acknowledges_iff_next horder (isData_firstByte (hports r' hstep))).mp
    (hlaw.2 r' hstep).1
  rw [Next, total, (step_keeps hstep).2] at hnext
  exact absurd hnext (by decide)

end ReceiveRun

end Csos
