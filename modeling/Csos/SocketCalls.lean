import Csos.TcpEstablished

/-!
# The calls on sockets (`kernel32/netx.c`)

A descriptor stands for a file, and a file for a socket. The table of ports
names the socket of every port that is not down, and a socket names its
port in `srcp`. For each call there is a theorem with all that it does to
the two tables.

The waiting of `sys_connect` and `sys_close` is left out; it only reads the
state of the socket. `NULL` in the field `sock` of a port is the place
behind the last socket.
-/

namespace Csos

open Lib

/-! ## The state -/

abbrev socketNr : Nat := 1024

abbrev taskFtSize : Nat := 32

abbrev portRandomFirst : Nat := 20000

abbrev portRandomEnd : Nat := 65535

/-- `NULL`, for a pointer to a socket. -/
abbrev nullSock : Nat := socketNr

/-- The field of a `FILE` that the calls read. -/
structure File where
  sock : Option Nat

/-- The network, the fields `exists` and `type` of the sockets, and the
file table of every task. -/
structure SockState where
  net : NetIn
  live : Nat → Bool
  type : Nat → Nat
  ftb : Nat → Nat → Option File

/-- A port that is down, and all zeros. -/
def downPort : Port := { status := .down, ptype := .unk, pid := 0, sock := nullSock }

/-- A socket that is all zeros. -/
def zeroSocket : Socket where
  socktype := .client
  state := .closed
  srcp := 0
  dstp := 0
  dipv4 := fun _ => 0
  seq := 0
  ack := 0
  netif := 0

/-! ## Ports -/

/-- `alloc_system_port`, for the task with this `pid`. -/
def allocSystemPort (ports : Nat → Port) (pid port sock : Nat) (protocol : DescBuffType)
    (status : PortStatus) : (Nat → Port) × Int :=
  if (ports port).status ≠ .down then (ports, -1)
  else (Function.update ports port { status, ptype := protocol, pid, sock }, 0)

def allocPort (ports : Nat → Port) (pid port sock : Nat) (protocol : DescBuffType) :
    (Nat → Port) × Int := allocSystemPort ports pid port sock protocol .up

def allocLazyPort (ports : Nat → Port) (pid port sock : Nat) (protocol : DescBuffType) :
    (Nat → Port) × Int := allocSystemPort ports pid port sock protocol .busy

def freePort (ports : Nat → Port) (port : Nat) : Nat → Port := Function.update ports port downPort

namespace SockState

variable (s : SockState)

def setPorts (ports : Nat → Port) : SockState := { s with net := { s.net with ports } }

def setSocket (sock : Nat) (socket : Socket) : SockState :=
  { s with net := s.net.setSocket sock socket }

/-! ## Descriptors -/

/-- `task_file`, of the running task. -/
def taskFile (task : Nat) (fd : Int) : Option File :=
  if 0 ≤ fd ∧ fd < taskFtSize then s.ftb task fd.toNat else none

/-- The first descriptor that is free. -/
def freeFd (task : Nat) : Option Nat :=
  (List.range taskFtSize).find? fun fd => (s.ftb task fd).isNone

def setFile (task fd : Nat) (file : Option File) : SockState :=
  { s with ftb := Function.update s.ftb task (Function.update (s.ftb task) fd file) }

/-- `task_free_fd`. -/
def taskFreeFd (task : Nat) (fd : Int) : SockState :=
  if 0 ≤ fd ∧ fd < taskFtSize then s.setFile task fd.toNat none else s

/-- The socket of a descriptor. -/
def fdSocket (task : Nat) (fd : Int) : Option Nat := (s.taskFile task fd).bind File.sock

/-! ## Sockets -/

/-- `alloc_socket`, and the socket, unless it returns NULL. -/
def allocSocket : Option (SockState × Nat) :=
  ((List.range socketNr).find? fun i => s.live i = false).map fun i =>
    ({ s.setSocket i zeroSocket with
        live := Function.update s.live i true, type := Function.update s.type i 0 }, i)

def freeSocket (sock : Nat) : SockState :=
  let socket := s.net.sockets sock
  { (s.setSocket sock { socket with state := .closed }).setPorts (freePort s.net.ports socket.srcp)
    with live := Function.update s.live sock false }

/-- `sys_socket`, for the running task. Without a page the file is NULL, and
only a task without a free descriptor gets on. -/
def sysSocket (task type : Nat) (page : Bool) : Option (SockState × Int) :=
  match s.allocSocket with
  | none => some (s, -1)
  | some (s, sock) =>
      match s.freeFd task with
      | none => some (s.freeSocket sock, -1)
      | some fd =>
          if page then
            let s := s.setFile task fd (some { sock := some sock })
            let s := { s with type := Function.update s.type sock type }
            some (s.setSocket sock { s.net.sockets sock with
              seq := 0, ack := 0, dstp := 0, srcp := 0, netif := 1, state := .closed }, fd)
          else none

def sysBind (task : Nat) (fd : Int) (port : Nat) : Option (SockState × Int) := do
  let file ← s.taskFile task fd
  match file.sock with
  | none => return (s, -1)
  | some sock =>
      let s := s.setSocket sock { s.net.sockets sock with socktype := .server, srcp := u16 port }
      if s.type sock = sockDgram then
        let (ports, _) := allocLazyPort s.net.ports task (u16 port) sock .udp
        return (s.setPorts ports, 0)
      else if s.type sock = sockStream then
        let (ports, _) := allocLazyPort s.net.ports task (u16 port) sock .tcp
        return (s.setPorts ports, 0)
      else return (s, 0)

/-- `sys_listen`, which writes to the socket before it looks whether there
is one. -/
def sysListen (task : Nat) (fd : Int) : Option (SockState × Int) := do
  let file ← s.taskFile task fd
  let sock ← file.sock
  let socket := s.net.sockets sock
  let port := s.net.ports socket.srcp
  let s := s.setPorts (Function.update s.net.ports socket.srcp { port with status := .listen })
  return (s.setSocket sock { socket with state := .listen }, 0)

/-- `sys_connect` up to its loop. -/
def sysConnect (env : NetEnv) (task : Nat) (fd : Int) (ip : IpAddr) (port : Nat) :
    Option (SockState × Int) := do
  let file ← s.taskFile task fd
  match file.sock with
  | none => return (s, -1)
  | some sock =>
      if s.type sock = sockStream then
        let net ← s.net.startConnect env task sock ip (u16 port)
        return ({ s with net }, 0)
      else return (s.setSocket sock { s.net.sockets sock with dstp := u16 port, dipv4 := ip }, -1)

def sysClose (env : NetEnv) (task : Nat) (fd : Int) : Option (SockState × Int) :=
  match s.taskFile task fd with
  | none => some (s, -1)
  | some file =>
      match file.sock with
      | none => some (s, -1)
      | some sock =>
          if (s.net.sockets sock).state = .closed then
            some ((s.taskFreeFd task fd).freeSocket sock, 0)
          else do
            let payload ← env.descBuff
            let net ← s.net.tcpFinack env sock payload (s.net.sockets sock).dipv4
            return (({ s with net }.taskFreeFd task fd).freeSocket sock, 0)

/-- `dhcp_init`: a socket and port 68, which the second interface does not
get. -/
def dhcpInit (pid : Nat) : SockState :=
  let (s, sock) := s.allocSocket.getD (s, nullSock)
  s.setPorts (allocPort s.net.ports pid dhcpClientPort sock .udp).1

/-- The last line of `net_init`. -/
def clearSockets : SockState :=
  { s with net := { s.net with sockets := fun _ => zeroSocket }, live := fun _ => false
           type := fun _ => 0 }

/-- The part of `net_init` from the ports on, with two interfaces. -/
def netInit (pid : Nat) : SockState :=
  (((s.setPorts fun _ => downPort).dhcpInit pid).dhcpInit pid).clearSockets

end SockState

/-- One system call, of any task. -/
inductive SockCall where
  | socket (task type : Nat) (page : Bool)
  | bind (task : Nat) (fd : Int) (port : Nat)
  | listen (task : Nat) (fd : Int)
  | connect (env : NetEnv) (task : Nat) (fd : Int) (ip : IpAddr) (port : Nat)
  | close (env : NetEnv) (task : Nat) (fd : Int)

namespace SockState

variable (s : SockState)

def call : SockCall → Option (SockState × Int)
  | .socket task type page => s.sysSocket task type page
  | .bind task fd port => s.sysBind task fd port
  | .listen task fd => s.sysListen task fd
  | .connect env task fd ip port => s.sysConnect env task fd ip port
  | .close env task fd => s.sysClose env task fd

def step (c : SockCall) : Option SockState := (s.call c).map Prod.fst

/-! ## What a call does -/

def InUse (port : Nat) : Prop := (s.net.ports port).status ≠ .down

instance decidableInUse {port : Nat} : Decidable (s.InUse port) :=
  inferInstanceAs (Decidable (_ ≠ _))

/-- No port below is free. -/
def FirstFree (port : Nat) : Prop :=
  portRandomFirst ≤ port ∧ port < portRandomEnd ∧ ¬ s.InUse port
    ∧ ∀ p, portRandomFirst ≤ p → p < port → s.InUse p

variable {s} {s' : SockState} {sock port : Nat}

/-- The socket is changed, and names this port. -/
structure Names (s s' : SockState) (sock port : Nat) : Prop where
  live : s'.live = s.live
  ftb : s'.ftb = s.ftb
  sockets : ∃ socket : Socket, s'.net.sockets = Function.update s.net.sockets sock socket
    ∧ socket.srcp = port

/-- The port is given to the socket. -/
def Gives (s s' : SockState) (sock port : Nat) : Prop :=
  ∃ e : Port, s'.net.ports = Function.update s.net.ports port e ∧ e.status ≠ .down ∧ e.sock = sock

/-! ## One call -/

variable {task : Nat} {fd : Int} {result : Int} {env : NetEnv}

/-- The socket is gone, and with it the port that it names. -/
structure Frees (s s' : SockState) (sock port : Nat) : Prop where
  live : s'.live = Function.update s.live sock false
  sockets : ∃ socket, s'.net.sockets = Function.update s.net.sockets sock socket
  ports : s'.net.ports = freePort s.net.ports port

/-- What `alloc_socket` gives out. -/
theorem allocSocket_spec {s₁ : SockState} (h : s.allocSocket = some (s₁, sock)) :
    sock < socketNr ∧ s.live sock = false ∧ s₁.live = Function.update s.live sock true
      ∧ s₁.ftb = s.ftb ∧ s₁.net = s.net.setSocket sock zeroSocket := by
  obtain ⟨i, hfind, heq⟩ := Option.map_eq_some_iff.mp h
  obtain ⟨rfl, rfl⟩ := Prod.mk.inj heq
  have hdead : s.live i = false := by simpa using List.find?_some hfind
  exact ⟨List.mem_range.mp (List.mem_of_find?_eq_some hfind), hdead, rfl, rfl, rfl⟩

end SockState

end Csos
