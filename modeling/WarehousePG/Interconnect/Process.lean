import Mathlib.Logic.Function.Basic
import WarehousePG.Framework.Transition
import WarehousePG.Framework.Bits

namespace WarehousePG.Interconnect

@[irreducible] def add32 (a b : Nat) : Nat := (a+b)%2^32

@[irreducible] def sub32 (a b : Nat) : Nat := (2^32-b%2^32+a)%2^32

structure Packet where
  seq : Nat
  eos : Bool
  stop : Bool
  payload : List UInt8
  deriving DecidableEq

/-- What a sender puts on the wire; a status query is a header alone with the CAPACITY bit. -/
inductive Datagram where
  | data (pkt : Packet)
  | statusQuery (seq : Nat)
  deriving DecidableEq

structure AckFlags where
  ack : Bool := false
  stop : Bool := false
  eos : Bool := false
  disorder : Bool := false
  duplicate : Bool := false
  capacity : Bool := false
  deriving DecidableEq

/-- What a receiver puts on the wire; `lost` is the content of a DISORDER message. -/
structure Ack where
  flags : AckFlags
  seq : Nat
  extraSeq : Nat
  lost : List Nat := []
  deriving DecidableEq

def maxSeqsInDisorderAck : Nat := 4

/-- The receiving end of a `MotionConn`. `seq`, `extraSeq` and `eos` are of its `conn_info`, `pktQ`
is the array of `capacity` slots, and `pBuff` is the packet the executor has in hand. -/
structure RcvConn where
  capacity : Nat
  seq : Nat := 1
  extraSeq : Nat := 0
  eos : Bool := false
  stillActive : Bool := true
  stopRequested : Bool := false
  pktQ : Nat → Option Packet := fun _ => none
  size : Nat := 0
  head : Nat := 0
  tail : Nat := 0
  pBuff : Option Packet := none
  statCountDropped : Nat := 0

namespace RcvConn

def withInfo (c : RcvConn) (f : AckFlags) : AckFlags :=
  { f with eos := f.eos || c.eos, stop := f.stop || c.stopRequested }

def plainAck (c : RcvConn) : Ack :=
  { flags := c.withInfo { ack := true, capacity := true }
    seq := sub32 c.seq 1
    extraSeq := c.extraSeq }

def stopAck (c : RcvConn) (seq : Nat) : Ack :=
  { flags := c.withInfo { ack := true, stop := true, capacity := true }
    seq := seq
    extraSeq := seq }

def statusReply (c : RcvConn) : Ack :=
  let seq := if 0<c.seq then c.seq-1 else 0
  { flags := c.withInfo { ack := true, capacity := true }
    seq := seq
    extraSeq := if c.stopRequested then seq else c.extraSeq }

/-- The loop that moves the queue tail; each turn makes the queue one longer. -/
def moveTail : Nat → RcvConn → RcvConn
  | 0, c => c
  | k+1, c =>
    if (c.pktQ c.tail).isSome ∧ c.size<c.capacity then
      moveTail k
        { c with
          size := c.size+1
          tail := (c.tail+1)%c.capacity
          seq := add32 c.seq 1 }
    else c

def lastIsEos (c : RcvConn) : Bool :=
  match c.pktQ ((c.tail+c.capacity-1)%c.capacity) with
  | some p => p.eos
  | none => false

/-- The loop of `handleDisorderPacket`: the numbers of the empty slots from `start` up to `pos`, at
most `room` of them. -/
def lostSeqs (c : RcvConn) (pos : Nat) : Nat → Nat → Nat → Nat → List Nat
  | 0, _, _, _ => []
  | k+1, start, tailSeq, room =>
    if start=pos ∨ room=0 then []
    else
      let next := (start+1)%c.capacity
      match c.pktQ start with
      | none => tailSeq::lostSeqs c pos k next (add32 tailSeq 1) (room-1)
      | some _ => lostSeqs c pos k next (add32 tailSeq 1) room

def handleDisorderPacket (c : RcvConn) (pos tailSeq : Nat) (pkt : Packet) : Ack :=
  { flags := c.withInfo { disorder := true }
    seq := pkt.seq
    extraSeq := sub32 c.seq 1
    lost := lostSeqs c pos c.capacity c.tail tailSeq maxSeqsInDisorderAck }

/-- The end of `handleDataPacket`, for a packet whose slot is empty. -/
def storePacket (c : RcvConn) (pos headSeq : Nat) (pkt : Packet) : RcvConn × Ack :=
  let c := { c with pktQ := Function.update c.pktQ pos (some pkt) }
  if pos=c.tail then
    let c := moveTail (c.capacity-c.size) c
    let c := { c with eos := c.eos || c.lastIsEos }
    (c, c.plainAck)
  else (c, c.handleDisorderPacket pos (add32 headSeq c.size) pkt)

/-- `handleDataPacket`: the connection, the acknowledgement to send and whether the packet's buffer
is kept. -/
def handleDataPacket (c : RcvConn) (pkt : Packet) : RcvConn × Option Ack × Bool :=
  if c.stopRequested=false ∧ pkt.stop then (c, none, false)
  else if c.stopRequested ∧ c.stillActive then
    let c := { c with
      eos := c.eos || pkt.eos
      seq := if c.seq<pkt.seq then pkt.seq else c.seq }
    ({ c with stillActive := !pkt.eos }, some (c.stopAck pkt.seq), false)
  else if pkt.seq<c.seq then (c, some c.plainAck, false)
  else if c.stillActive=false then
    let c := { c with seq := if c.seq<pkt.seq then pkt.seq else c.seq }
    (c, some (c.stopAck pkt.seq), false)
  else
    let headSeq := sub32 c.seq c.size
    if c.size=c.capacity ∨ c.capacity ≤ sub32 pkt.seq headSeq then
      ({ c with statCountDropped := c.statCountDropped+1 }, none, false)
    else
      let pos := sub32 pkt.seq 1%c.capacity
      match c.pktQ pos with
      | none =>
        let (c, ack) := c.storePacket pos headSeq pkt
        (c, some ack, true)
      | some _ =>
        (c, some
          { flags := c.withInfo { duplicate := true }
            seq := pkt.seq
            extraSeq := sub32 c.seq 1 }, false)

def receive (c : RcvConn) : Datagram → RcvConn × Option Ack × Bool
  | .data pkt => c.handleDataPacket pkt
  | .statusQuery _ => (c, some c.statusReply, false)

/-- `prepareRxConnForRead`: the executor takes the packet at the head of the queue. -/
def prepareRxConnForRead (c : RcvConn) : Option (RcvConn × Packet) :=
  if c.pBuff=none then
    (c.pktQ c.head).map fun p => ({ c with pBuff := some p }, p)
  else none

/-- `markUDPConnInactiveIFC`, called for the end-of-stream chunk of the packet in hand. -/
def markInactive (c : RcvConn) : Option RcvConn :=
  match c.pBuff with
  | some p => if p.eos then some { c with stillActive := false } else none
  | none => none

def putRxBufferAndSendAck (c : RcvConn) : Option (RcvConn × Option Ack) :=
  match c.pBuff, c.pktQ c.head with
  | some _, some buf =>
    let c := { c with
      pktQ := Function.update c.pktQ c.head none
      pBuff := none
      head := (c.head+1)%c.capacity
      size := c.size-1
      extraSeq := buf.seq }
    if buf.seq%2=0 ∨ c.capacity=1 then some (c, some { c.plainAck with extraSeq := buf.seq })
    else some (c, none)
  | _, _ => none

end RcvConn

inductive FcMethod where
  | capacity
  | loss
  deriving DecidableEq

/-- The congestion control of a sending process: its state changes with the packets sent, resent and
acknowledged and with the losses noticed, and `blocks` is the test of the congestion window against
`numSharedOutStanding`. -/
structure Congestion (Γ : Type*) where
  sent : Γ → Packet → Γ
  resent : Γ → Packet → Γ
  acked : Γ → Packet → Γ
  disorder : Γ → Γ
  expired : Γ → Γ
  blocks : Γ → Int → Bool

structure Config (Γ : Type*) where
  fcMethod : FcMethod
  queueDepth : Nat
  sndQueueDepth : Nat
  maxPacketSize : Nat
  segindex : Nat
  congestion : Congestion Γ

inductive ConnState where
  | setupOutgoingConnection
  | started
  | eosSent
  deriving DecidableEq

/-- The sending end of a `MotionConn`. `seq`, `eos` and `stop` are of its `conn_info`, and `curBuff`
is what follows the header in the buffer being filled. -/
structure SndConn where
  capacity : Nat
  seq : Nat := 1
  eos : Bool := false
  stop : Bool := false
  sndQueue : List Packet := []
  unackQueue : List Packet := []
  sentSeq : Nat := 0
  receivedAckSeq : Nat := 0
  consumedSeq : Nat := 0
  state : ConnState := .setupOutgoingConnection
  stillActive : Bool := true
  stopRequested : Bool := false
  curBuff : Option (List UInt8) := some []
  deriving DecidableEq

/-- What the connections of a process share: the counts of `snd_buffer_pool`, those of
`unack_queue_ring`, the congestion control and the static variables of `handleAckForDisorderPkt`. -/
structure Control (Γ : Type*) where
  freeList : Nat
  count : Nat
  maxCount : Nat
  numOutStanding : Int
  numSharedOutStanding : Int
  window : Γ
  lastSeq : Nat
  times : Nat

/-- A connection in the hands of its process, with the datagrams sent so far. -/
structure Tx (Γ : Type*) where
  ctl : Control Γ
  conn : SndConn
  out : List Datagram := []

namespace Tx

variable {Γ : Type*} (cfg : Config Γ)

def resend (t : Tx Γ) (p : Packet) : Tx Γ :=
  { t with
    ctl := { t.ctl with window := cfg.congestion.resent t.ctl.window p }
    out := t.out ++ [.data p] }

def sendPacket (t : Tx Γ) (p : Packet) (rest : List Packet) : Tx Γ :=
  let unack := t.conn.unackQueue ++ [p]
  { ctl :=
      match cfg.fcMethod with
      | .capacity => t.ctl
      | .loss =>
        { t.ctl with
          numOutStanding := t.ctl.numOutStanding+1
          numSharedOutStanding := t.ctl.numSharedOutStanding+(if 1<unack.length then 1 else 0)
          window := cfg.congestion.sent t.ctl.window p }
    conn := { t.conn with
      sndQueue := rest
      unackQueue := unack
      capacity := t.conn.capacity-1
      sentSeq := p.seq }
    out := t.out ++ [.data p] }

def maySend (t : Tx Γ) : Bool :=
  0<t.conn.capacity &&
    !(cfg.fcMethod=.loss && 0<t.conn.unackQueue.length &&
      cfg.congestion.blocks t.ctl.window t.ctl.numSharedOutStanding) &&
    !(t.conn.state=.setupOutgoingConnection && 1≤t.conn.unackQueue.length)

def sendLoop : List Packet → Tx Γ → Tx Γ
  | [], t => t
  | p::rest, t => if t.maySend cfg then sendLoop rest (t.sendPacket cfg p rest) else t

def sendBuffers (t : Tx Γ) : Tx Γ := sendLoop cfg t.conn.sndQueue t

def handleAckedPacket (t : Tx Γ) (p : Packet) : Tx Γ :=
  let unack := t.conn.unackQueue.erase p
  let ctl :=
    match cfg.fcMethod with
    | .capacity => t.ctl
    | .loss =>
      { t.ctl with
        numOutStanding := t.ctl.numOutStanding-1
        numSharedOutStanding := t.ctl.numSharedOutStanding-(if 1≤unack.length then 1 else 0)
        window := cfg.congestion.acked t.ctl.window p }
  { t with
    ctl := { ctl with freeList := ctl.freeList+1 }
    conn := { t.conn with
      unackQueue := unack
      receivedAckSeq :=
        if t.conn.unackQueue.head?=some p then p.seq else t.conn.receivedAckSeq
      state := if p.seq=1 then .started else t.conn.state } }

def ackUpTo (seq : Nat) : List Packet → Tx Γ → Tx Γ × Bool
  | [], t => (t, false)
  | p::ps, t =>
    if p.seq ≤ seq then ((ackUpTo seq ps (t.handleAckedPacket cfg p)).1, true) else (t, false)

/-- The second loop of `handleAckForDuplicatePkt`. -/
def ackSingle (seq : Nat) : List Packet → Tx Γ → Tx Γ × Bool
  | [], t => (t, false)
  | p::ps, t =>
    if p.seq=seq then (t.handleAckedPacket cfg p, true)
    else if p.seq<seq then ackSingle seq ps t
    else (t, false)

def handleAckForDuplicatePkt (t : Tx Γ) (pkt : Ack) : Tx Γ × Bool :=
  if pkt.seq≤pkt.extraSeq then (t, false)
  else
    let (t, some₁) := ackUpTo cfg pkt.extraSeq t.conn.unackQueue t
    let (t, some₂) := ackSingle cfg pkt.seq t.conn.unackQueue t
    (t, some₁ || some₂)

/-- The loop of `handleAckForDisorderPkt` over the unacknowledged packets. The last branch of the
source passes over the lost numbers below the packet's own. -/
def disorderLoop (seq : Nat) : List Packet → List Nat → Tx Γ → Tx Γ × Bool
  | [], _, t => (t, false)
  | p::ps, lost, t =>
    if lost=[] ∨ seq<p.seq then (t, false)
    else if p.seq=seq then (t.handleAckedPacket cfg p, true)
    else
      match lost.dropWhile (· < p.seq) with
      | [] => (t, false)
      | x::xs =>
        if p.seq=x then disorderLoop seq ps xs (t.resend cfg p)
        else ((disorderLoop seq ps (x::xs) (t.handleAckedPacket cfg p)).1, true)

/-- `handleAckForDisorderPkt`: only the third message in a row with one `extraSeq` is acted on. -/
def handleAckForDisorderPkt (t : Tx Γ) (pkt : Ack) : Tx Γ × Bool :=
  if pkt.extraSeq≠t.ctl.lastSeq then
    ({ t with ctl := { t.ctl with lastSeq := pkt.extraSeq, times := 0 } }, false)
  else
    let times := add32 t.ctl.times 1
    let t := { t with ctl := { t.ctl with times := times } }
    if times≠2 then (t, false)
    else
      let (t, some₁) := disorderLoop cfg pkt.seq t.conn.unackQueue pkt.lost t
      match cfg.fcMethod with
      | .capacity => (t, some₁)
      | .loss =>
        ({ t with ctl := { t.ctl with window := cfg.congestion.disorder t.ctl.window } }, some₁)

/-- The part of `handleAcks` for a message without DUPLICATE and DISORDER, once its CAPACITY field
is taken: the connection, whether packets were acknowledged and whether a stop was seen. -/
def handlePlainAck (t : Tx Γ) (pkt : Ack) : Tx Γ × Bool × Bool :=
  if pkt.seq<t.conn.receivedAckSeq then (t, false, false)
  else
    let stops := pkt.flags.stop && !t.conn.stopRequested && t.conn.stillActive
    let t := if stops then { t with conn := { t.conn with stopRequested := true, stop := true } }
      else t
    if pkt.seq=t.conn.receivedAckSeq ∨ pkt.flags.ack=false then (t, false, stops)
    else
      let (t, some₁) := ackUpTo cfg pkt.seq t.conn.unackQueue t
      (t, some₁, stops)

def handleAck (t : Tx Γ) (pkt : Ack) : Tx Γ × Bool × Bool :=
  if pkt.flags.capacity then
    if t.conn.consumedSeq<pkt.extraSeq then
      let t := { t with conn := { t.conn with
        capacity := t.conn.capacity+(pkt.extraSeq-t.conn.consumedSeq)
        consumedSeq := pkt.extraSeq } }
      let (t, _, stops) := t.handlePlainAck cfg pkt
      (t, true, stops)
    else t.handlePlainAck cfg pkt
  else if pkt.flags.duplicate then
    let (t, some₁) := t.handleAckForDuplicatePkt cfg pkt
    (t, some₁, false)
  else if pkt.flags.disorder then
    let (t, some₁) := t.handleAckForDisorderPkt cfg pkt
    (t, some₁, false)
  else t.handlePlainAck cfg pkt

/-- One message of `handleAcks` with the call of `sendBuffers` after it; `send` is
`shouldSendBuffers`, which is never reset. -/
def handleAckAndSend (t : Tx Γ) (pkt : Ack) (send : Bool) : Tx Γ × Bool × Bool :=
  let (t, some₁, stops) := t.handleAck cfg pkt
  let send := send || some₁
  (if send then t.sendBuffers cfg else t, send, stops)

def queueBuffer (t : Tx Γ) (payload : List UInt8) : Tx Γ × Packet :=
  let p : Packet :=
    { seq := t.conn.seq, eos := t.conn.eos, stop := t.conn.stop, payload := payload }
  ({ t with conn := { t.conn with
      seq := add32 t.conn.seq 1
      sndQueue := t.conn.sndQueue ++ [p]
      curBuff := none } }, p)

def checkDeadlock (t : Tx Γ) : Tx Γ :=
  if t.conn.unackQueue=[] ∧ t.conn.capacity=0 ∧ t.conn.sndQueue≠[] then
    { t with out := t.out ++ [.statusQuery (sub32 t.conn.seq 1)] }
  else t

/-- `getSndBuffer`: the pool after a buffer is taken. -/
def getSndBuffer (t : Tx Γ) : Option (Control Γ) :=
  if cfg.fcMethod=.capacity ∧
      cfg.sndQueueDepth≤t.conn.unackQueue.length+t.conn.sndQueue.length then none
  else if 0<t.ctl.freeList then some { t.ctl with freeList := t.ctl.freeList-1 }
  else if t.ctl.count<t.ctl.maxCount then some { t.ctl with count := t.ctl.count+1 }
  else none

end Tx

/-- Both ends of a connection and the network between them. The lists at the end are history: the
packets queued by the sender, those stored by the receiver and those handed to its executor. -/
structure Link where
  snd : SndConn
  rcv : RcvConn
  toReceiver : List Datagram := []
  toSender : List Ack := []
  queued : List Packet := []
  stored : List Packet := []
  delivered : List Packet := []

inductive Call (n : Nat) where
  | idle
  /-- In the loop of `SendChunkUDPIFC` that waits for a buffer. `broadcast` lists the connections
  left when the call is made by `SendEosUDPIFC`. -/
  | chunk (i : Fin n) (chunk : List UInt8) (retry : Nat) (checkExpiration gotStops : Bool)
      (broadcast : Option (List (Fin n)))
  /-- `SendEosUDPIFC` is in `doBroadcast`. -/
  | broadcast (chunk : List UInt8) (rest : List (Fin n))
  /-- `SendEosUDPIFC` flushes the buffers; `active` is `activeCount`. -/
  | flush (rest : List (Fin n)) (active : Nat)
  /-- `SendEosUDPIFC` waits for the queues of the first connection of `rest`. -/
  | drain (rest : List (Fin n)) (retry active : Nat)
  | closed
  deriving DecidableEq

structure Sys (n : Nat) (Γ : Type*) where
  links : Fin n → Link
  ctl : Control Γ
  call : Call n

inductive Action (n : Nat) where
  | loseData (i : Fin n) (k : Nat)
  | duplicateData (i : Fin n) (k : Nat)
  | loseAck (i : Fin n) (k : Nat)
  | duplicateAck (i : Fin n) (k : Nat)
  | receive (i : Fin n) (k : Nat)
  /-- The executor of the receiver takes a packet, handles its end-of-stream chunk, gives its buffer
  back. -/
  | read (i : Fin n)
  | markInactive (i : Fin n)
  | putRxBuffer (i : Fin n)
  /-- `SendChunkUDPIFC` is called; `late` is `doCheckExpiration`. -/
  | sendChunk (i : Fin n) (chunk : List UInt8) (late : Bool)
  /-- One turn of a waiting loop: the acknowledgements read, the unacknowledged packets whose time
  is up, and whether it is time for a status query. -/
  | wait (arrived expired : List (Fin n × Nat)) (due : Bool)
  | getBuffer
  /-- `SendEosUDPIFC` is called with the end-of-stream chunk. -/
  | sendEos (chunk : List UInt8)
  /-- `SendEosUDPIFC` goes on without waiting. -/
  | eosStep (late : Bool)
  deriving DecidableEq

/-- `sizeof(icpkthdr)`. -/
def headerSize : Nat := 64

def maxTry : Nat := 11

namespace Sys

variable {n : Nat} {Γ : Type*} (cfg : Config Γ)

def setLink (s : Sys n Γ) (i : Fin n) (l : Link) : Sys n Γ :=
  { s with links := Function.update s.links i l }

def tx (s : Sys n Γ) (i : Fin n) : Tx Γ := { ctl := s.ctl, conn := (s.links i).snd }

def putTx (s : Sys n Γ) (i : Fin n) (t : Tx Γ) : Sys n Γ :=
  { s.setLink i { s.links i with
      snd := t.conn
      toReceiver := (s.links i).toReceiver ++ t.out } with ctl := t.ctl }

def flushBuffer (s : Sys n Γ) (i : Fin n) (payload : List UInt8) : Sys n Γ :=
  let (t, p) := (s.tx i).queueBuffer payload
  let s := s.putTx i (t.sendBuffers cfg)
  s.setLink i { s.links i with queued := (s.links i).queued ++ [p] }

/-- `SendChunkUDPIFC` up to its loop. -/
def startChunk (s : Sys n Γ) (i : Fin n) (chunk : List UInt8) (late : Bool)
    (broadcast : Option (List (Fin n))) (done : Call n) : Option (Sys n Γ) :=
  match (s.links i).snd.curBuff with
  | none => none
  | some payload =>
    if headerSize+payload.length+chunk.length≤cfg.maxPacketSize then
      let l := s.links i
      some { s.setLink i { l with snd := { l.snd with curBuff := some (payload ++ chunk) } } with
        call := done }
    else
      some { s.flushBuffer cfg i payload with
        call := .chunk i chunk 0 (cfg.fcMethod=.loss && late) false broadcast }

def takeAck (s : Sys n Γ) (i : Fin n) (k : Nat) (t : Tx Γ) : Sys n Γ :=
  { s.setLink i { s.links i with
      snd := t.conn
      toReceiver := (s.links i).toReceiver ++ t.out
      toSender := (s.links i).toSender.eraseIdx k } with ctl := t.ctl }

def handleAcks : Sys n Γ → Bool → List (Fin n × Nat) → Option (Sys n Γ × Bool)
  | s, _, [] => some (s, false)
  | s, send, (i, k)::more =>
    match (s.links i).toSender[k]? with
    | none => none
    | some pkt =>
      let (t, send, stops) := (s.tx i).handleAckAndSend cfg pkt send
      (handleAcks (s.takeAck i k t) send more).map fun r => (r.1, stops || r.2)

/-- `checkExpiration`: the packets whose time is up are sent again. -/
def resendExpired : Sys n Γ → List (Fin n × Nat) → Option (Sys n Γ)
  | s, [] => some s
  | s, (i, k)::more =>
    match (s.links i).snd.unackQueue[k]? with
    | none => none
    | some p => resendExpired (s.putTx i ((s.tx i).resend cfg p)) more

/-- `checkExpirationCapacityFC`. -/
def resendFirst (s : Sys n Γ) (i : Fin n) : Sys n Γ :=
  match (s.links i).snd.unackQueue with
  | [] => s
  | p::_ => s.putTx i ((s.tx i).resend cfg p)

def checkExceptions (s : Sys n Γ) (i : Fin n) (retry : Nat) (expired : List (Fin n × Nat))
    (due : Bool) : Option (Sys n Γ) :=
  let s :=
    match cfg.fcMethod with
    | .capacity => some (if expired=[] then s else s.resendFirst cfg i)
    | .loss =>
      (s.resendExpired cfg expired).map fun s =>
        if expired=[] then s
        else { s with ctl := { s.ctl with window := cfg.congestion.expired s.ctl.window } }
  s.map fun s => if retry%4=2 ∧ due then s.putTx i (s.tx i).checkDeadlock else s

def turn (s : Sys n Γ) (i : Fin n) (retry : Nat) (arrived expired : List (Fin n × Nat))
    (due : Bool) : Option (Sys n Γ × Bool) :=
  (s.handleAcks cfg false arrived).bind fun (s, stops) =>
    (s.checkExceptions cfg i retry expired due).map fun s => (s, stops)

def drained (s : Sys n Γ) (i : Fin n) : Bool :=
  (s.links i).snd.unackQueue.isEmpty && (s.links i).snd.sndQueue.isEmpty

/-- `SendEosUDPIFC` leaves a connection: one whose queues are empty is finished. -/
def leaveConn (s : Sys n Γ) (i : Fin n) (rest : List (Fin n)) (active : Nat) : Sys n Γ :=
  if s.drained i then
    let l := s.links i
    { s.setLink i { l with snd := { l.snd with state := .eosSent, stillActive := false } } with
      call := .drain rest 0 active }
  else { s with call := .drain rest 0 (active+1) }

/-- `SendEosUDPIFC` outside its waiting loops. -/
def eosStep (s : Sys n Γ) (late : Bool) : Option (Sys n Γ) :=
  match s.call with
  | .broadcast chunk (i::rest) =>
    if (s.links i).snd.stillActive then
      s.startChunk cfg i chunk late (some rest) (.broadcast chunk rest)
    else some { s with call := .broadcast chunk rest }
  | .broadcast _ [] => some { s with call := .flush (List.finRange n) 0 }
  | .flush (i::rest) active =>
    let l := s.links i
    if l.snd.stillActive then
      l.snd.curBuff.map fun payload =>
        let s := s.setLink i { l with snd := { l.snd with eos := true } }
        { s.flushBuffer cfg i payload with call := .flush rest (active+1) }
    else some { s with call := .flush rest active }
  | .flush [] active | .drain [] _ active =>
    some { s with call := if 0<active then .drain (List.finRange n) 0 0 else .closed }
  | .drain (i::rest) _ active =>
    if (s.links i).snd.stillActive=false then some { s with call := .drain rest 0 active }
    else if s.drained i then some (s.leaveConn i rest active)
    else none
  | _ => none

def wait (s : Sys n Γ) (arrived expired : List (Fin n × Nat)) (due : Bool) : Option (Sys n Γ) :=
  match s.call with
  | .chunk i chunk retry late stops broadcast =>
    if late ∨ (s.tx i).getSndBuffer cfg=none then
      (s.turn cfg i retry arrived expired due).map fun (s, stops') =>
        { s with call := .chunk i chunk (retry+1) false (stops || stops') broadcast }
    else none
  | .drain (i::rest) retry active =>
    if (s.links i).snd.stillActive ∧ s.drained i=false then
      (s.turn cfg i retry arrived expired due).map fun (s, _) =>
        if maxTry≤retry+1 then s.leaveConn i rest active
        else { s with call := .drain (i::rest) (retry+1) active }
    else none
  | _ => none

/-- `SendChunkUDPIFC` gets its buffer and puts the chunk into it. A stop that was seen is not
followed up here. -/
def getBuffer (s : Sys n Γ) : Option (Sys n Γ) :=
  match s.call with
  | .chunk i chunk _ false false broadcast =>
    ((s.tx i).getSndBuffer cfg).map fun ctl =>
      let l := s.links i
      { s.setLink i { l with snd := { l.snd with curBuff := some chunk } } with
        ctl := ctl
        call := match broadcast with
          | none => .idle
          | some rest => .broadcast chunk rest }
  | _ => none

def rcvStep (l : Link) : Action n → Option Link
  | .receive _ k =>
    (l.toReceiver[k]?).map fun d =>
      let (rcv, ack, kept) := l.rcv.receive d
      { l with
        rcv := rcv
        toReceiver := l.toReceiver.eraseIdx k
        toSender := l.toSender ++ ack.toList
        stored := match d, kept with
          | .data p, true => l.stored ++ [p]
          | _, _ => l.stored }
  | .read _ =>
    l.rcv.prepareRxConnForRead.map fun (rcv, p) =>
      { l with rcv := rcv, delivered := l.delivered ++ [p] }
  | .markInactive _ => l.rcv.markInactive.map fun rcv => { l with rcv := rcv }
  | .putRxBuffer _ =>
    l.rcv.putRxBufferAndSendAck.map fun (rcv, ack) =>
      { l with rcv := rcv, toSender := l.toSender ++ ack.toList }
  | _ => none

def netStep (l : Link) : Action n → Option Link
  | .loseData _ k =>
    if k<l.toReceiver.length then some { l with toReceiver := l.toReceiver.eraseIdx k } else none
  | .duplicateData _ k =>
    (l.toReceiver[k]?).map fun d => { l with toReceiver := l.toReceiver ++ [d] }
  | .loseAck _ k =>
    if k<l.toSender.length then some { l with toSender := l.toSender.eraseIdx k } else none
  | .duplicateAck _ k => (l.toSender[k]?).map fun a => { l with toSender := l.toSender ++ [a] }
  | _ => none

def step (s : Sys n Γ) (a : Action n) : Option (Sys n Γ) :=
  match a with
  | .loseData i _ | .duplicateData i _ | .loseAck i _ | .duplicateAck i _ =>
    (netStep (s.links i) a).map (s.setLink i)
  | .receive i _ | .read i | .markInactive i | .putRxBuffer i =>
    (rcvStep (s.links i) a).map (s.setLink i)
  | .sendChunk i chunk late =>
    match s.call with
    | .idle => if (s.links i).snd.stillActive then s.startChunk cfg i chunk late none .idle else none
    | _ => none
  | .wait arrived expired due => s.wait cfg arrived expired due
  | .getBuffer => s.getBuffer cfg
  | .sendEos chunk =>
    match s.call with
    | .idle =>
      let first := if n≤cfg.segindex then 0 else cfg.segindex
      some { s with call := .broadcast chunk ((List.finRange n).rotate first) }
    | _ => none
  | .eosStep late => s.eosStep cfg late

/-- The state `startOutgoingUDPConnections` and the setup of the receivers leave, where a receive
queue has the depth `depths i`; the static variables keep their values from an earlier command. -/
def start (depths : Fin n → Nat) (window : Γ) (lastSeq times : Nat) : Sys n Γ where
  links i := { snd := { capacity := cfg.queueDepth }, rcv := { capacity := depths i } }
  ctl :=
    { freeList := 0
      count := n
      maxCount := (if cfg.sndQueueDepth=1 then 1 else 0)+n*cfg.sndQueueDepth
      numOutStanding := 0
      numSharedOutStanding := 0
      window := window
      lastSeq := lastSeq
      times := times }
  call := .idle

end Sys

open List

theorem sub32_eq (h : b≤a) (ha : a<2^32) : sub32 a b=a-b := by
  rw [sub32]
  omega

theorem add32_eq (h : a+b<2^32) : add32 a b=a+b := by
  rw [add32]
  exact Nat.mod_eq_of_lt h

/-- The packets a sender has queued are numbered from one on, fit the numbers of the receiver, and
only the last one can end the stream. -/
structure StreamInv (queued : List Packet) : Prop where
  numbered : ∀ k p, queued[k]?=some p → p.seq=k+1
  short : queued.length+1<2^32
  notStop : ∀ p∈queued, p.stop=false
  eosLast : ∀ k p, queued[k]?=some p → p.eos → k+1=queued.length

def Stored (stored : List Packet) (k : Nat) : Prop := ∃ p∈stored, p.seq=k

structure AckInv (stored : List Packet) (consumed : Nat) (a : Ack) : Prop where
  notStop : a.flags.stop=false
  plain : a.flags.capacity → a.flags.duplicate=false ∧ a.flags.disorder=false
  credit : a.flags.capacity → a.extraSeq≤consumed
  upTo : a.flags.duplicate=false → a.flags.disorder=false →
    ∀ k, 0<k → k≤a.seq → Stored stored k
  duplicate : a.flags.duplicate →
    Stored stored a.seq ∧ ∀ k, 0<k → k≤a.extraSeq → Stored stored k
  disorder : a.flags.disorder →
    Stored stored a.seq ∧ a.lost.Pairwise (· < ·) ∧
      ∀ x∈a.lost, ∀ k, 0<k → k<x → k∉a.lost → Stored stored k

/-- The sending end: the send queue is what is not sent yet, and a packet sent is unacknowledged or
stored by the receiver. -/
structure SndInv (depth : Nat) (queued stored : List Packet) (consumed : Nat) (c : SndConn) :
    Prop where
  seq : c.seq=queued.length+1
  notStop : c.stop=false
  notRequested : c.stopRequested=false
  sentLe : c.sentSeq≤queued.length
  sndQueue : c.sndQueue=queued.drop c.sentSeq
  unackQueue : c.unackQueue.Sublist (queued.take c.sentSeq)
  accounted : ∀ p∈queued.take c.sentSeq, p∈c.unackQueue ∨ p∈stored
  received : ∀ p∈c.unackQueue, c.receivedAckSeq<p.seq
  receivedLe : c.receivedAckSeq≤c.sentSeq
  window : c.capacity+c.sentSeq=depth+c.consumedSeq
  consumedLe : c.consumedSeq≤consumed
  eos : ∀ p∈queued, p.eos → c.eos

/-- The receiving end: `extraSeq` packets are consumed, the next `size` are in the queue, and a slot
of the window of `capacity` packets holds the packet of its number or nothing. -/
structure RcvCore (cap : Nat) (queued stored delivered : List Packet) (c : RcvConn) : Prop where
  notRequested : c.stopRequested=false
  capacity : c.capacity=cap
  positive : 0<c.capacity
  sizeLe : c.size≤c.capacity
  seq : c.seq=c.extraSeq+c.size+1
  head : c.head=c.extraSeq%c.capacity
  tail : c.tail=(c.extraSeq+c.size)%c.capacity
  lengthLe : c.extraSeq+c.size≤queued.length
  slot : ∀ k p, c.extraSeq≤k → k<c.extraSeq+c.capacity → c.pktQ (k%c.capacity)=some p →
    queued[k]?=some p
  inQueue : ∀ k, c.extraSeq≤k → k<c.extraSeq+c.size → (c.pktQ (k%c.capacity)).isSome
  slotStored : ∀ i p, c.pktQ i=some p → p∈stored
  storedSlot : ∀ p∈stored, p.seq≤c.extraSeq ∨ c.pktQ ((p.seq-1)%c.capacity)=some p
  contiguous : ∀ p∈queued.take (c.extraSeq+c.size), p∈stored
  storedQueued : ∀ p∈stored, p∈queued
  delivered : delivered=queued.take (c.extraSeq+if c.pBuff.isSome then 1 else 0)
  inHand : ∀ p, c.pBuff=some p → c.pktQ c.head=some p
  ended : c.stillActive=false → c.extraSeq+c.size=queued.length ∧ ∃ p∈queued, p.eos

structure RcvInv (cap : Nat) (queued stored delivered : List Packet) (c : RcvConn) : Prop
    extends RcvCore cap queued stored delivered c where
  gap : c.size<c.capacity → c.pktQ c.tail=none

/-- What holds of a connection in every state, where `depth` is the queue depth known to the
sender and `cap` the one of the receiver. -/
structure LinkInv (depth cap : Nat) (l : Link) : Prop where
  stream : StreamInv l.queued
  snd : SndInv depth l.queued l.stored l.rcv.extraSeq l.snd
  rcv : RcvInv cap l.queued l.stored l.delivered l.rcv
  sent : ∀ p∈l.stored, p∈l.queued.take l.snd.sentSeq
  data : ∀ p, .data p∈l.toReceiver → p∈l.queued.take l.snd.sentSeq
  acks : ∀ a∈l.toSender, AckInv l.stored l.rcv.extraSeq a

variable {stored : List Packet}

theorem Stored.mono (h : Stored stored k) (hsub : ∀ p∈stored, p∈stored') : Stored stored' k := by
  obtain ⟨p,hp,hk⟩ := h
  exact ⟨p,hsub p hp,hk⟩

theorem AckInv.mono (h : AckInv stored consumed a) (hsub : ∀ p∈stored, p∈stored')
    (hle : consumed≤consumed') : AckInv stored' consumed' a where
  notStop := h.notStop
  plain := h.plain
  credit hc := Nat.le_trans (h.credit hc) hle
  upTo hd hl k hk hle := (h.upTo hd hl k hk hle).mono hsub
  duplicate hd :=
    ⟨(h.duplicate hd).1.mono hsub,fun k hk hle => ((h.duplicate hd).2 k hk hle).mono hsub⟩
  disorder hd :=
    ⟨(h.disorder hd).1.mono hsub,(h.disorder hd).2.1,
      fun x hx k hk hlt hn => ((h.disorder hd).2.2 x hx k hk hlt hn).mono hsub⟩

theorem SndInv.mono (h : SndInv depth queued stored consumed c)
    (hsub : ∀ p∈stored, p∈stored') (hle : consumed≤consumed') :
    SndInv depth queued stored' consumed' c :=
  { h with
    accounted := fun p hp => (h.accounted p hp).imp_right (hsub p)
    consumedLe := Nat.le_trans h.consumedLe hle }

namespace StreamInv

section

variable (h : StreamInv queued)
include h

variable {p : Packet}

theorem eq_of_seq (hp : p∈queued) (hq : q∈queued) (hseq : p.seq=q.seq) : p=q := by
  obtain ⟨i,hi⟩ := mem_iff_getElem?.mp hp
  obtain ⟨j,hj⟩ := mem_iff_getElem?.mp hq
  have hpi := h.numbered i p hi
  have hqj := h.numbered j q hj
  have hij : i=j := by omega
  rw [hij,hj] at hi
  exact (Option.some.inj hi).symm

theorem mem_of_stored (hsub : ∀ p∈stored, p∈queued)
    (hp : p∈queued) (hs : Stored stored p.seq) : p∈stored := by
  obtain ⟨q,hq,hseq⟩ := hs
  have heq : q=p := h.eq_of_seq (hsub q hq) hp hseq
  rwa [heq] at hq

section

variable (hp : p∈queued)
include hp

theorem seq_pos : 0<p.seq := by
  obtain ⟨i,hi⟩ := mem_iff_getElem?.mp hp
  have := h.numbered i p hi
  omega

theorem getElem?_seq : queued[p.seq-1]?=some p := by
  obtain ⟨i,hi⟩ := mem_iff_getElem?.mp hp
  have hseq := h.numbered i p hi
  have : p.seq-1=i := by omega
  rwa [this]

theorem seq_le : p.seq≤queued.length := by
  have hget := h.getElem?_seq hp
  have hpos := h.seq_pos hp
  have := (List.getElem?_eq_some_iff.mp hget).1
  omega

theorem mem_take_iff (m : Nat) : p∈queued.take m ↔ p.seq ≤ m := by
  have hget := h.getElem?_seq hp
  have hpos := h.seq_pos hp
  constructor
  · intro hm
    obtain ⟨i,hi⟩ := mem_iff_getElem?.mp hm
    rw [getElem?_take] at hi
    split_ifs at hi with him
    have := h.numbered i p hi
    omega
  · intro hle
    apply mem_iff_getElem?.mpr
    refine ⟨p.seq-1,?_⟩
    rw [getElem?_take,if_pos (by omega)]
    exact hget

end

theorem sorted : queued.Pairwise (fun p q => p.seq<q.seq) := by
  rw [pairwise_iff_getElem]
  intro i j hi hj hij
  have hpi := h.numbered i queued[i] (getElem?_eq_getElem hi)
  have hpj := h.numbered j queued[j] (getElem?_eq_getElem hj)
  omega

end

end StreamInv

end WarehousePG.Interconnect
