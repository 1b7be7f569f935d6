import WarehousePG.Interconnect.Delivery

namespace WarehousePG.Interconnect

open Framework Function RcvConn Sys Tx List

theorem RcvConn.storePacket_dropped (c : RcvConn) (pos headSeq : Nat) (p : Packet) :
    (c.storePacket pos headSeq p).1.statCountDropped=c.statCountDropped := by
  rw [storePacket]
  split_ifs
  · exact (moveTail_frame _ _).2.2.2
  · rfl

variable {p : Packet}

/-- A packet within the window is never dropped for lack of room. -/
theorem RcvInv.not_dropped
    (h : RcvInv cap queued stored delivered c) (hq : StreamInv queued) (hp : p∈queued)
    (hwin : p.seq≤c.extraSeq+c.capacity) :
    (c.handleDataPacket p).1.statCountDropped=c.statCountDropped := by
  have hstop := hq.notStop p hp
  have hle := hq.seq_le hp
  have hshort := hq.short
  have hseq := h.seq
  have hlen := h.lengthLe
  rw [RcvConn.handleDataPacket,if_neg (by simp [hstop]),if_neg (by simp [h.notRequested]),
    h.headSeq hq]
  by_cases hold : p.seq<c.seq
  · rw [if_pos hold]
  rw [if_neg hold]
  by_cases hactive : c.stillActive=false
  · rw [if_pos hactive]
  have hroom : ¬ (c.size=c.capacity ∨ c.capacity ≤ sub32 p.seq (c.extraSeq+1)) := by
    rw [sub32_eq (by omega) (by omega)]
    omega
  rw [if_neg hactive,if_neg hroom]
  dsimp only
  cases c.pktQ (sub32 p.seq 1%c.capacity) with
  | none => exact storePacket_dropped c _ _ p
  | some q => rfl

theorem LinkInv.consumed_le_sent (h : LinkInv depth cap l) : l.snd.consumedSeq≤l.snd.sentSeq := by
  have hcon := h.snd.consumedLe
  have hlen := h.rcv.lengthLe
  by_contra hlt
  have hindex : l.snd.sentSeq<l.queued.length := by omega
  have hget := getElem?_eq_getElem hindex
  -- The first packet not sent would be among those the receiver has in order.
  have hcont : l.queued[l.snd.sentSeq]∈l.queued.take (l.rcv.extraSeq+l.rcv.size) := by
    refine mem_iff_getElem?.mpr ⟨l.snd.sentSeq,?_⟩
    rw [getElem?_take,if_pos (by omega)]
    exact hget
  have hsent := h.sent _ (h.rcv.contiguous _ hcont)
  rw [h.stream.mem_take_iff (mem_of_mem_take hsent),h.stream.numbered _ _ hget] at hsent
  omega

theorem LinkInv.in_window (h : LinkInv depth cap l) (hcap : cap=depth) (hp : .data p∈l.toReceiver) :
    p.seq≤l.rcv.extraSeq+l.rcv.capacity := by
  have hsent := h.data p hp
  have hle : p.seq≤l.snd.sentSeq := by
    rwa [h.stream.mem_take_iff (mem_of_mem_take hsent)] at hsent
  have hcapacity := h.rcv.capacity
  have hwin := h.snd.window
  have hcon := h.snd.consumedLe
  omega

/-- The sender's capacity and the packets sent but not known to be consumed always add up to the
queue depth, and no packet that arrives is dropped for want of a slot. -/
theorem window_kept {n : Nat} {Γ : Type*} (cfg : Config Γ) (depths : Fin n → Nat)
    (hdepths : ∀ j, 0<depths j) (window : Γ) (lastSeq times : Nat) (acts : List (Action n))
    (s : Sys n Γ)
    (h : run (step cfg) (start cfg depths window lastSeq times) acts=some s) (i : Fin n)
    (hdepth : depths i=cfg.queueDepth) (hshort : (s.links i).queued.length<2^32-1) :
    (s.links i).snd.consumedSeq≤(s.links i).snd.sentSeq ∧
    (s.links i).snd.capacity+((s.links i).snd.sentSeq-(s.links i).snd.consumedSeq)=cfg.queueDepth ∧
    ∀ p, .data p∈(s.links i).toReceiver →
      ((s.links i).rcv.handleDataPacket p).1.statCountDropped=(s.links i).rcv.statCountDropped := by
  have hlink := (run_link hdepths h i).2.link (by omega)
  have hwin := hlink.snd.window
  have hcon := hlink.consumed_le_sent
  refine ⟨hcon,by omega,fun p hp => ?_⟩
  have hqd := mem_of_mem_take (hlink.data p hp)
  exact hlink.rcv.not_dropped hlink.stream hqd (hlink.in_window hdepth hp)

open Sys (smallConfig)

theorem window_kept_copy :
    ∃ s, run (step smallConfig) (start smallConfig (fun _ : Fin 1 => 3) () 0 0)
        [.sendChunk 0 [7] false,.sendChunk 0 [8] false,.duplicateData 0 0,.receive 0 0]=some s ∧
      (s.links 0).toReceiver.length=1 ∧ (s.links 0).queued.length=1 ∧
      (s.links 0).snd.capacity+((s.links 0).snd.sentSeq-(s.links 0).snd.consumedSeq)=3 := by
  refine exists_run_of (fun s => (s.links 0).toReceiver.length=1 ∧ (s.links 0).queued.length=1)
    (by decide +kernel) ?_
  rintro s hs ⟨hdata,hqd⟩
  have hmain := window_kept smallConfig (fun _ => 3) (by decide) () 0 0 _ s hs 0 rfl
    (by rw [hqd]; decide)
  exact ⟨hdata,hqd,hmain.2.1⟩

def bytePacket (k : Nat) : Packet := { seq := k+1, eos := false, stop := false, payload := [0] }

def receiverAt (k : Nat) : RcvConn :=
  { capacity := 3, seq := add32 k 1, extraSeq := k, head := k%3, tail := k%3 }

def receiverHolding (k : Nat) : RcvConn :=
  { receiverAt k with
    pktQ := update (fun _ => none) (k%3) (some (bytePacket k))
    seq := add32 (k+1) 1
    size := 1
    tail := (k+1)%3 }

def byteAck (k : Nat) : Ack :=
  { flags := { ack := true, capacity := true }, seq := k+1, extraSeq := k }

theorem sub32_add32_one (hk : k+1<2^32) : sub32 (add32 (k+1) 1) 1=k+1 := by
  rw [sub32,add32]
  omega

attribute [local simp] RcvConn.handleDataPacket rcvStep

theorem receive_next (hk : k+1<2^32) :
    (receiverAt k).handleDataPacket (bytePacket k)=(receiverHolding k, some (byteAck k), true) := by
  have hseq : add32 k 1=k+1 := add32_eq hk
  have hhead : sub32 (k+1) 0=k+1 := sub32_eq (by omega) hk
  have hoff : sub32 (k+1) (k+1)=0 := by rw [sub32_eq (by omega) hk,Nat.sub_self]
  have hpos : sub32 (k+1) 1=k := by rw [sub32_eq (by omega) hk,Nat.add_sub_cancel]
  have hnext : (k%3+1)%3=(k+1)%3 := by omega
  have hne : (k+1)%3≠k%3 := by omega
  have hlast : ((k+1)%3+2)%3=k%3 := by omega
  simp [receiverAt,bytePacket,hseq,hhead,hoff,hpos,
    storePacket,moveTail,hnext,update_of_ne hne,lastIsEos,
    hlast,plainAck,withInfo,receiverHolding,byteAck,sub32_add32_one hk]

theorem consume_next (k : Nat) : (receiverHolding k).prepareRxConnForRead
      =some ({ receiverHolding k with pBuff := some (bytePacket k) }, bytePacket k) ∧
    ({ receiverHolding k with pBuff := some (bytePacket k) } : RcvConn).putRxBufferAndSendAck
      =some (receiverAt (k+1),
        if (k+1)%2=0 then some { (receiverHolding k).plainAck with extraSeq := k+1 } else none) := by
  have hnext : (k%3+1)%3=(k+1)%3 := by omega
  constructor
  · simp [prepareRxConnForRead,receiverHolding,receiverAt]
  · by_cases heven : (k+1)%2=0 <;>
      simp [putRxBufferAndSendAck,receiverHolding,receiverAt,bytePacket,hnext,heven,
        plainAck,withInfo]

def senderAt (k : Nat) : SndConn :=
  { capacity := if k=0 then 3 else 2
    seq := add32 k 1
    sentSeq := k
    receivedAckSeq := k
    consumedSeq := k-1
    state := if k=0 then .setupOutgoingConnection else .started
    curBuff := some [0] }

def senderSent (k : Nat) : SndConn :=
  { senderAt k with
    capacity := if k=0 then 2 else 1
    seq := add32 (k+1) 1
    unackQueue := [bytePacket k]
    sentSeq := k+1
    curBuff := none }

def poolWith (free : Nat) : Control Unit :=
  { freeList := free
    count := 1
    maxCount := 2
    numOutStanding := 0
    numSharedOutStanding := 0
    window := ()
    lastSeq := 0
    times := 0 }

theorem send_next (hk : k+1<2^32) :
    let r := ({ ctl := poolWith 0, conn := senderAt k } : Tx Unit).queueBuffer [0]
    r.2=bytePacket k ∧ r.1.sendBuffers smallConfig
      ={ ctl := poolWith 0, conn := senderSent k, out := [.data (bytePacket k)] } := by
  have hseq : add32 k 1=k+1 := add32_eq hk
  cases k with
  | zero | succ k =>
    simp [queueBuffer,senderAt,hseq,bytePacket,sendBuffers,sendLoop,maySend,
      smallConfig,sendPacket,senderSent]

theorem ack_next (k : Nat) :
    ({ ctl := poolWith 0, conn := senderSent k } : Tx Unit).handleAckAndSend smallConfig (byteAck k)
        false
      =({ ctl := poolWith 1, conn := { senderAt (k+1) with curBuff := none } }, true, false) := by
  cases k with
  | zero =>
    simp [handleAckAndSend,handleAck,byteAck,senderSent,senderAt,handlePlainAck,
      ackUpTo,bytePacket,handleAckedPacket,smallConfig,poolWith,sendBuffers,sendLoop]
  | succ k =>
    have hold : ¬ k+1<k := by omega
    simp [handleAckAndSend,handleAck,byteAck,senderSent,senderAt,handlePlainAck,
      ackUpTo,bytePacket,handleAckedPacket,smallConfig,poolWith,sendBuffers,sendLoop,hold]

def bytePackets (k : Nat) : List Packet := (range k).map bytePacket

@[simp] theorem bytePackets_length (k : Nat) : (bytePackets k).length=k := by simp [bytePackets]

theorem bytePackets_succ (k : Nat) : bytePackets (k+1)=bytePackets k ++ [bytePacket k] := by
  simp [bytePackets,range_succ]

def oneLink (l : Link) (free : Nat) (call : Call 1) : Sys 1 Unit :=
  { links := fun _ => l, ctl := poolWith free, call := call }

theorem setLink_oneLink (l l' : Link) (free : Nat) (call : Call 1) :
    (oneLink l free call).setLink 0 l'=oneLink l' free call := by
  have hupd : update (fun _ : Fin 1 => l) 0 l'=fun _ => l' := by
    funext j
    rw [Subsingleton.elim j 0,update_self]
  simp [setLink,oneLink,hupd]

theorem step_of_netStep (h : netStep l a=some l') (free : Nat)
    (call : Call 1) : (oneLink l free call).step smallConfig a=some (oneLink l' free call) := by
  cases a with
  | loseData j k | duplicateData j k | loseAck j k | duplicateAck j k =>
    obtain rfl : j=0 := Subsingleton.elim j 0
    show (netStep l _).map _=_
    rw [h,Option.map_some,setLink_oneLink]
  | _ => exact absurd h (by simp [netStep])

theorem step_of_rcvStep (h : rcvStep l a=some l') (free : Nat)
    (call : Call 1) : (oneLink l free call).step smallConfig a=some (oneLink l' free call) := by
  cases a with
  | receive j k | read j | markInactive j | putRxBuffer j =>
    obtain rfl : j=0 := Subsingleton.elim j 0
    show (rcvStep l _).map _=_
    rw [h,Option.map_some,setLink_oneLink]
  | _ => exact absurd h (by simp)

def linkAt (kept : List Datagram) (k : Nat) : Link where
  snd := senderAt k
  rcv := receiverAt k
  toReceiver := kept
  queued := bytePackets k
  stored := bytePackets k
  delivered := bytePackets k

def linkSent (kept : List Datagram) (k : Nat) : Link :=
  { linkAt kept k with
    snd := senderSent k
    toReceiver := kept ++ [.data (bytePacket k)]
    queued := bytePackets (k+1) }

def waitingCall {n : Nat} (i : Fin n) (retry : Nat) : Call n := .chunk i [0] retry false false none

theorem step_sendChunk (kept : List Datagram) (hk : k+1<2^32) :
    (oneLink (linkAt kept k) 0 .idle).step smallConfig (.sendChunk 0 [0] false)
      =some (oneLink (linkSent kept k) 0 (waitingCall 0 0)) := by
  obtain ⟨hpac,hsend⟩ := send_next hk
  have hflush : (oneLink (linkAt kept k) 0 .idle).flushBuffer smallConfig 0 [0]
      =oneLink (linkSent kept k) 0 .idle := by
    rw [flushBuffer_eq,setLink_oneLink]
    simp [tx,oneLink,linkAt,hpac,hsend,linkSent,bytePackets_succ]
  have hcur : ((oneLink (linkAt kept k) 0 .idle).links 0).snd.curBuff=some [0] := rfl
  have hfull : ¬ headerSize+[(0 : UInt8)].length+[(0 : UInt8)].length ≤ smallConfig.maxPacketSize := by
    decide
  show startChunk smallConfig (oneLink (linkAt kept k) 0 .idle) 0 [0] false none .idle=_
  simp only [startChunk,hcur]
  rw [if_neg hfull,hflush]
  rfl

theorem step_duplicate (k : Nat) :
    (oneLink (linkSent [] k) 0 (waitingCall 0 0)).step smallConfig (.duplicateData 0 0)
      =some (oneLink (linkSent [.data (bytePacket k)] k) 0 (waitingCall 0 0)) := by
  have hnet : netStep (linkSent [] k) (.duplicateData (0 : Fin 1) 0)
      =some (linkSent [.data (bytePacket k)] k) := by
    simp [netStep,linkSent,linkAt]
  exact step_of_netStep hnet 0 (waitingCall 0 0)

def linkStored (kept : List Datagram) (k : Nat) : Link :=
  { linkSent kept k with
    rcv := receiverHolding k
    toReceiver := kept
    toSender := [byteAck k]
    stored := bytePackets (k+1) }

def linkConsumed (kept : List Datagram) (k : Nat) : Link :=
  { linkStored kept k with
    rcv := receiverAt (k+1)
    delivered := bytePackets (k+1) }

section

variable (kept : List Datagram)

theorem rcvStep_receive (hk : k+1<2^32) :
    rcvStep (linkSent kept k) (.receive (0 : Fin 1) kept.length)=some (linkStored kept k) := by
  have herase : (kept ++ [Datagram.data (bytePacket k)]).eraseIdx kept.length=kept := by
    rw [eraseIdx_append_of_length_le (Nat.le_refl _),Nat.sub_self]
    simp
  have hrcv : (receiverAt k).receive (.data (bytePacket k))
      =(receiverHolding k, some (byteAck k), true) := receive_next hk
  simp [linkSent,linkAt,herase,hrcv,linkStored,bytePackets_succ]

theorem consume_run (acks : List Ack) (k free : Nat) (call : Call 1) :
    ∃ acts, run (step smallConfig)
      (oneLink { linkStored kept k with toSender := acks } free call) acts
      =some (oneLink { linkConsumed kept k with toSender := acks } free call) := by
  obtain ⟨hread,hput⟩ := consume_next k
  let taken : Link :=
    { linkStored kept k with
      rcv := { receiverHolding k with pBuff := some (bytePacket k) }
      toSender := acks
      delivered := bytePackets (k+1) }
  have htake : rcvStep { linkStored kept k with toSender := acks } (.read (0 : Fin 1))
      =some taken := by
    simp [linkStored,hread,taken,linkSent,linkAt,bytePackets_succ]
  have hgive : ∀ ack : Option Ack,
      (if (k+1)%2=0 then some { (receiverHolding k).plainAck with extraSeq := k+1 } else none)=ack →
      rcvStep taken (.putRxBuffer (0 : Fin 1))
        =some { linkConsumed kept k with toSender := acks ++ ack.toList } := by
    intro ack hack
    rw [hack] at hput
    simp [taken,hput,linkConsumed]
  by_cases heven : (k+1)%2=0
  · have hlose : ∀ ack : Ack, netStep { linkConsumed kept k with toSender := acks ++ [ack] }
        (.loseAck (0 : Fin 1) acks.length)=some { linkConsumed kept k with toSender := acks } := by
      intro ack
      simp [netStep,eraseIdx_append_of_length_le]
    refine ⟨[.read 0,.putRxBuffer 0,.loseAck 0 acks.length],?_⟩
    rw [run_cons_iff]
    refine ⟨_,step_of_rcvStep htake free call,?_⟩
    rw [run_cons_iff]
    refine ⟨_,step_of_rcvStep (hgive _ (if_pos heven)) free call,?_⟩
    rw [run_cons_iff]
    exact ⟨_,step_of_netStep (hlose _) free call,rfl⟩
  · have hnone := hgive _ (if_neg heven)
    rw [Option.toList_none,append_nil] at hnone
    refine ⟨[.read 0,.putRxBuffer 0],?_⟩
    rw [run_cons_iff]
    refine ⟨_,step_of_rcvStep htake free call,?_⟩
    rw [run_cons_iff]
    exact ⟨_,step_of_rcvStep hnone free call,rfl⟩

/-- The acknowledgement lets the next packet go out. -/
theorem ack_run (k : Nat) :
    run (step smallConfig) (oneLink (linkConsumed kept k) 0 (waitingCall 0 0))
      [.wait [(0, 0)] [] false,.getBuffer]=some (oneLink (linkAt kept (k+1)) 0 .idle) := by
  have hack := ack_next k
  have hfull : ((oneLink (linkConsumed kept k) 0 (waitingCall 0 0)).tx 0).getSndBuffer smallConfig
      =none := by
    simp [getSndBuffer,tx,oneLink,linkConsumed,linkStored,linkSent,senderSent,smallConfig]
  let freed : Link := { linkAt kept (k+1) with snd := { senderAt (k+1) with curBuff := none } }
  have hturn : (oneLink (linkConsumed kept k) 0 (waitingCall 0 0)).turn smallConfig 0 0 [(0, 0)] []
      false=some (oneLink freed 1 (waitingCall 0 0), false) := by
    have hget : ((oneLink (linkConsumed kept k) 0 (waitingCall 0 0)).links 0).toSender[0]?
        =some (byteAck k) := rfl
    have htx : (oneLink (linkConsumed kept k) 0 (waitingCall 0 0)).tx 0
        ={ ctl := poolWith 0, conn := senderSent k } := rfl
    have htake : (oneLink (linkConsumed kept k) 0 (waitingCall 0 0)).takeAck 0 0
        { ctl := poolWith 1, conn := { senderAt (k+1) with curBuff := none } }
        =oneLink freed 1 (waitingCall 0 0) := by
      rw [takeAck,setLink_oneLink]
      simp [oneLink,linkConsumed,linkStored,linkSent,linkAt,freed]
    have hfc : smallConfig.fcMethod=.capacity := rfl
    simp [turn,handleAcks,hget,htx,hack,htake,checkExceptions,hfc]
  have hwait : (oneLink (linkConsumed kept k) 0 (waitingCall 0 0)).step smallConfig
      (.wait [(0, 0)] [] false)=some (oneLink freed 1 (waitingCall 0 1)) := by
    have hcall : (oneLink (linkConsumed kept k) 0 (waitingCall 0 0)).call
        =.chunk 0 [0] 0 false false none := rfl
    simp only [step,wait,hcall,hfull,hturn]
    rfl
  have hbuf : (oneLink freed 1 (waitingCall 0 1)).step smallConfig .getBuffer
      =some (oneLink (linkAt kept (k+1)) 0 .idle) := by
    have hpool : ((oneLink freed 1 (waitingCall 0 1)).tx 0).getSndBuffer smallConfig
        =some (poolWith 0) := by
      simp [getSndBuffer,tx,oneLink,freed,linkAt,senderAt,smallConfig,poolWith]
    have hcall : (oneLink freed 1 (waitingCall 0 1)).call=.chunk 0 [0] 1 false false none := rfl
    simp only [step,getBuffer,hcall,hpool,Option.map_some,setLink_oneLink]
    rfl
  rw [run_cons_iff]
  refine ⟨_,hwait,?_⟩
  rw [run_cons_iff]
  exact ⟨_,hbuf,rfl⟩

theorem round_run (hk : k+1<2^32) :
    ∃ acts, run (step smallConfig) (oneLink (linkSent kept k) 0 (waitingCall 0 0)) acts
      =some (oneLink (linkAt kept (k+1)) 0 .idle) := by
  obtain ⟨consume,hcons⟩ := consume_run kept [byteAck k] k 0 (waitingCall 0 0)
  refine ⟨.receive 0 kept.length::(consume ++ [.wait [(0, 0)] [] false,.getBuffer]),?_⟩
  rw [run_cons_iff]
  refine ⟨_,step_of_rcvStep (rcvStep_receive kept hk) 0 (waitingCall 0 0),?_⟩
  rw [run_append_iff]
  exact ⟨_,hcons,ack_run kept k⟩

theorem rounds_run (k m : Nat) (hm : k+m<2^32) :
    ∃ acts, run (step smallConfig) (oneLink (linkAt kept k) 0 .idle) acts
      =some (oneLink (linkAt kept (k+m)) 0 .idle) := by
  induction m with
  | zero => exact ⟨[],rfl⟩
  | succ m ih =>
    obtain ⟨before,hbef⟩ := ih (by omega)
    obtain ⟨after,haft⟩ := round_run kept (show k+m+1<2^32 by omega)
    refine ⟨before ++ .sendChunk 0 [0] false::after,?_⟩
    rw [run_append_iff]
    refine ⟨_,hbef,?_⟩
    rw [run_cons_iff]
    exact ⟨_,step_sendChunk kept (by omega),haft⟩

end

theorem first_byte :
    (start smallConfig (fun _ : Fin 1 => 3) () 0 0).step smallConfig (.sendChunk 0 [0] false)
      =some (oneLink (linkAt [] 0) 0 .idle) := by
  have hseq : add32 0 1=1 := add32_eq (by decide)
  have hupd : ∀ l l' : Link, update (fun _ : Fin 1 => l) 0 l'=fun _ => l' := by
    intro l l'
    funext j
    rw [Subsingleton.elim j 0,update_self]
  simp [step,start,startChunk,smallConfig,headerSize,setLink,hupd,oneLink,
    linkAt,senderAt,receiverAt,hseq,poolWith,bytePackets]

theorem start_rounds (k : Nat) (hk : k<2^32) :
    ∃ acts, run (step smallConfig) (start smallConfig (fun _ : Fin 1 => 3) () 0 0) acts
      =some (oneLink (linkAt [] k) 0 .idle) := by
  obtain ⟨acts,hacts⟩ := rounds_run [] 0 k (by omega)
  rw [zero_add] at hacts
  refine ⟨.sendChunk 0 [0] false::acts,?_⟩
  rw [run_cons_iff]
  exact ⟨_,first_byte,hacts⟩

theorem start_rounds_duplicate (k m : Nat) (hk : k+1+m<2^32) :
    ∃ acts, run (step smallConfig) (start smallConfig (fun _ : Fin 1 => 3) () 0 0) acts
      =some (oneLink (linkAt [.data (bytePacket k)] (k+1+m)) 0 .idle) := by
  obtain ⟨before,hbef⟩ := start_rounds k (by omega)
  obtain ⟨round,hround⟩ := round_run [.data (bytePacket k)] (show k+1<2^32 by omega)
  obtain ⟨after,haft⟩ := rounds_run [.data (bytePacket k)] (k+1) m hk
  refine ⟨before ++ .sendChunk 0 [0] false::.duplicateData 0 0::(round ++ after),?_⟩
  rw [run_append_iff]
  refine ⟨_,hbef,?_⟩
  rw [run_cons_iff]
  refine ⟨_,step_sendChunk [] (by omega),?_⟩
  rw [run_cons_iff]
  refine ⟨_,step_duplicate k,?_⟩
  rw [run_append_iff]
  exact ⟨_,hround,haft⟩

theorem receiverAt_wrapped (hk : k+1=2^32) :
    receiverAt k={ capacity := 3, seq := 0, extraSeq := k, head := 0, tail := 0 } := by
  have hseq : add32 k 1=0 := by
    rw [add32,hk]
    exact Nat.mod_self _
  have hslot : k%3=0 := by omega
  rw [receiverAt,hseq,hslot]

theorem receive_first_again (hk : k+1=2^32) :
    ∃ rcv ack, (receiverAt k).receive (.data (bytePacket 0))=(rcv, some ack, true) ∧
      rcv.pBuff=none ∧ rcv.pktQ rcv.head=some (bytePacket 0) := by
  have hzero : sub32 0 0=0 := sub32_eq (by omega) (by omega)
  have hone : sub32 1 0=1 := sub32_eq (by omega) (by omega)
  have hpos : sub32 1 1=0 := sub32_eq (by omega) (by omega)
  rw [receiverAt_wrapped hk]
  simp [receive,bytePacket,hzero,hone,hpos,storePacket,moveTail]

/-- With 2^32-1 packets a late copy of the first packet counts as a new one, and the executor gets it
a second time. -/
theorem delivers_first_packet_twice :
    ∃ acts s, run (step smallConfig) (start smallConfig (fun _ : Fin 1 => 3) () 0 0) acts =some s ∧
      (s.links 0).queued.length<2^32 ∧ ¬ (s.links 0).delivered <+: (s.links 0).queued := by
  obtain ⟨k,hk⟩ : ∃ k, 1+k+1=2^32 := ⟨2^32-2,by decide⟩
  obtain ⟨acts,hacts⟩ := start_rounds_duplicate 0 k (by omega)
  rw [zero_add] at hacts
  obtain ⟨rcv,ack,hrcv,hhand,hslot⟩ := receive_first_again hk
  let stored : Link :=
    { linkAt [] (1+k) with
      rcv := rcv
      toSender := [ack]
      stored := bytePackets (1+k) ++ [bytePacket 0] }
  let read : Link :=
    { stored with
      rcv := { rcv with pBuff := some (bytePacket 0) }
      delivered := bytePackets (1+k) ++ [bytePacket 0] }
  have hrec : rcvStep (linkAt [.data (bytePacket 0)] (1+k)) (.receive (0 : Fin 1) 0)
      =some stored := by
    simp [linkAt,hrcv,stored]
  have hread : rcvStep stored (.read (0 : Fin 1))=some read := by
    simp [prepareRxConnForRead,stored,hhand,hslot,read,linkAt]
  refine ⟨acts ++ [.receive 0 0,.read 0],oneLink read 0 .idle,?run,?short,?twice⟩
  case run =>
    rw [run_append_iff]
    refine ⟨_,hacts,?_⟩
    rw [run_cons_iff]
    refine ⟨_,step_of_rcvStep hrec 0 .idle,?_⟩
    rw [run_cons_iff]
    exact ⟨_,step_of_rcvStep hread 0 .idle,rfl⟩
  case short =>
    show (bytePackets (1+k)).length<2^32
    rw [bytePackets_length]
    omega
  case twice =>
    intro hfirst
    have hle : (bytePackets (1+k) ++ [bytePacket 0]).length≤(bytePackets (1+k)).length :=
      hfirst.length_le
    simp only [length_append,length_singleton] at hle
    omega

/-- A late copy of the last of 2^32-1 packets is out of range for a receiver that expects number 0,
and is counted as dropped. -/
theorem drops_last_packet :
    ∃ acts s, run (step smallConfig) (start smallConfig (fun _ : Fin 1 => 3) () 0 0) acts =some s ∧
      (s.links 0).queued.length<2^32 ∧ ∃ p, .data p∈(s.links 0).toReceiver ∧
        ((s.links 0).rcv.handleDataPacket p).1.statCountDropped
          =(s.links 0).rcv.statCountDropped+1 := by
  obtain ⟨k,hk⟩ : ∃ k, k+1+1=2^32 := ⟨2^32-2,by decide⟩
  obtain ⟨acts,hacts⟩ := start_rounds_duplicate k 0 (by omega)
  rw [add_zero] at hacts
  refine ⟨acts,_,hacts,?short,bytePacket k,mem_singleton_self _,?dropped⟩
  case short =>
    show (bytePackets (k+1)).length<2^32
    rw [bytePackets_length]
    omega
  case dropped =>
    have hzero : sub32 0 0=0 := sub32_eq (by omega) (by omega)
    have hfar : sub32 (k+1) 0=k+1 := sub32_eq (by omega) (by omega)
    have hthree : 3≤k+1 := by omega
    show ((receiverAt (k+1)).handleDataPacket (bytePacket k)).1.statCountDropped
      =(receiverAt (k+1)).statCountDropped+1
    rw [receiverAt_wrapped hk]
    simp [bytePacket,hzero,hfar,hthree]

/-- A packet that was sent can be sent again or is with the receiver, and an acknowledgement on its
way speaks only of packets that are. -/
theorem sent_kept_or_stored {n : Nat} {Γ : Type*} (cfg : Config Γ) (depths : Fin n → Nat)
    (hdepths : ∀ j, 0<depths j) (window : Γ) (lastSeq times : Nat) (acts : List (Action n))
    (s : Sys n Γ) (h : run (step cfg) (start cfg depths window lastSeq times) acts=some s)
    (i : Fin n) (hshort : (s.links i).queued.length<2^32-1) :
    (∀ p∈(s.links i).queued.take (s.links i).snd.sentSeq,
      p∈(s.links i).snd.unackQueue ∨ p∈(s.links i).stored) ∧
    ∀ a∈(s.links i).toSender, a.flags.duplicate=false → a.flags.disorder=false →
      ∀ p∈(s.links i).queued, p.seq≤a.seq → p∈(s.links i).stored := by
  have hlink := (run_link hdepths h i).2.link (by omega)
  refine ⟨hlink.snd.accounted,fun a ha hdup hdis p hp hle => ?_⟩
  apply hlink.stream.mem_of_stored hlink.rcv.storedQueued hp
  exact (hlink.acks a ha).upTo hdup hdis p.seq (hlink.stream.seq_pos hp) hle

theorem sent_kept_or_stored_copy :
    ∃ s, run (step smallConfig) (start smallConfig (fun _ : Fin 1 => 3) () 0 0)
        [.sendChunk 0 [7] false,.sendChunk 0 [8] false,.duplicateData 0 0,.receive 0 0]=some s ∧
      ∀ p∈(s.links 0).queued.take (s.links 0).snd.sentSeq,
        p∈(s.links 0).snd.unackQueue ∨ p∈(s.links 0).stored := by
  refine exists_run_of (fun s => (s.links 0).queued.length=1) (by decide +kernel) ?_
  intro s hs hqd
  exact (sent_kept_or_stored smallConfig (fun _ => 3) (by decide) () 0 0 _ s hs 0
    (by rw [hqd]; decide)).1

end WarehousePG.Interconnect
