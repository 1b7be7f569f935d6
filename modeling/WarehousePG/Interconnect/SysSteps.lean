import WarehousePG.Interconnect.ReceiverSteps
import WarehousePG.Interconnect.SenderSteps

namespace WarehousePG.Interconnect

open List Option

section

variable {Γ : Type*}

namespace LinkInv

section

variable (h : LinkInv depth cap l)
include h

/-- The network loses, copies and delays packets. -/
theorem netStep (hl : Sys.netStep l a=some l') : LinkInv depth cap l' := by
  cases a with
  | loseData i k =>
    obtain ⟨-,rfl⟩ := Framework.of_guard hl
    exact { h with data := fun p hp => h.data p (mem_of_mem_eraseIdx hp) }
  | loseAck i k =>
    obtain ⟨-,rfl⟩ := Framework.of_guard hl
    exact { h with acks := fun a ha => h.acks a (mem_of_mem_eraseIdx ha) }
  | duplicateData i k =>
    obtain ⟨d,hd,rfl⟩ := map_eq_some_iff.mp hl
    refine { h with data := fun p hp => ?_ }
    obtain hold | hnew := mem_append.mp hp
    · exact h.data p hold
    · obtain rfl := mem_singleton.mp hnew
      exact h.data p (mem_of_getElem? hd)
  | duplicateAck i k =>
    obtain ⟨a,ha,rfl⟩ := map_eq_some_iff.mp hl
    refine { h with acks := fun b hb => ?_ }
    obtain hold | hnew := mem_append.mp hb
    · exact h.acks b hold
    · rw [mem_singleton.mp hnew]
      exact h.acks a (mem_of_getElem? ha)
  | _ => exact absurd hl (by simp [Sys.netStep])

theorem withReceiver {rcv : RcvConn} (ack : Option Ack)

    (hrcv : RcvInv cap l.queued stored delivered rcv) (hack : ∀ a∈ack, AckInv stored rcv.extraSeq a)
    (hext : l.rcv.extraSeq≤rcv.extraSeq) (hsto : ∀ p∈l.stored, p∈stored)
    (hsent : ∀ p∈stored, p∈l.queued.take l.snd.sentSeq)
    (hdata : ∀ d∈toReceiver, d∈l.toReceiver) :
    LinkInv depth cap { l with
      rcv := rcv
      toReceiver := toReceiver
      toSender := l.toSender ++ ack.toList
      stored := stored
      delivered := delivered } where
  stream := h.stream
  snd := h.snd.mono hsto hext
  rcv := hrcv
  sent := hsent
  data p hp := h.data p (hdata _ hp)
  acks a ha := by
    obtain hold | hnew := mem_append.mp ha
    · exact (h.acks a hold).mono hsto hext
    · exact hack a (by simpa using hnew)

/-- The receiver takes a packet off the network, or a caller consumes one. -/
theorem rcvStep (hl : Sys.rcvStep l a=some l') : LinkInv depth cap l' := by
  cases a with
  | receive i k =>
    obtain ⟨d,hd,rfl⟩ := map_eq_some_iff.mp hl
    have herase : ∀ e∈l.toReceiver.eraseIdx k, e∈l.toReceiver :=
      fun e he => mem_of_mem_eraseIdx he
    cases d with
    | statusQuery seq =>
      refine h.withReceiver (some _) h.rcv (fun a ha => ?_) (Nat.le_refl _)
        (fun p hp => hp) h.sent herase
      cases ha
      exact h.rcv.statusReply h.stream
    | data p =>
      have hsent := h.data p (mem_of_getElem? hd)
      have hp := mem_of_mem_take hsent
      have hres : l.rcv.receive (.data p)=l.rcv.handleDataPacket p := rfl
      rw [hres]
      rcases hpkt : l.rcv.handleDataPacket p with ⟨rcv,ack,kept⟩
      obtain ⟨hrcv,hack,hext⟩ := h.rcv.handleDataPacket h.stream hp hpkt
      rw [← hext] at hack
      cases kept with
      | false => exact h.withReceiver ack hrcv hack (by omega) (fun p hp => hp) h.sent herase
      | true =>
        refine h.withReceiver ack hrcv hack (by omega) (fun p hp => mem_append_left _ hp) ?_
          herase
        intro q hq
        obtain hold | hnew := mem_append.mp hq
        · exact h.sent q hold
        · rw [mem_singleton.mp hnew]
          exact hsent
  | read i =>
    obtain ⟨⟨rcv,p⟩,hres,rfl⟩ := map_eq_some_iff.mp hl
    obtain ⟨hrcv,hext⟩ := h.rcv.prepareRxConnForRead hres
    have := h.withReceiver none hrcv (by simp) (by omega) (fun p hp => hp) h.sent
      (fun d hd => hd)
    simpa using this
  | markInactive i =>
    obtain ⟨rcv,hres,rfl⟩ := map_eq_some_iff.mp hl
    obtain ⟨hrcv,hext⟩ := h.rcv.markInactive h.stream hres
    have := h.withReceiver none hrcv (by simp) (by omega) (fun p hp => hp) h.sent
      (fun d hd => hd)
    simpa using this
  | putRxBuffer i =>
    obtain ⟨⟨rcv,ack⟩,hres,rfl⟩ := map_eq_some_iff.mp hl
    obtain ⟨hrcv,hack,hext⟩ := h.rcv.putRxBufferAndSendAck h.stream hres
    exact h.withReceiver ack hrcv hack hext (fun p hp => hp) h.sent (fun d hd => hd)
  | _ => exact absurd hl (by simp [Sys.rcvStep])

theorem tx (ctl : Control Γ) : TxInv depth l.queued l.stored l.rcv.extraSeq l.snd.sentSeq
      ({ ctl := ctl, conn := l.snd } : Tx Γ) :=
  ⟨Nat.le_refl _,h.snd,by simp⟩

theorem putTx (ht : TxInv depth l.queued l.stored l.rcv.extraSeq l.snd.sentSeq t)
    (hacks : ∀ a∈toSender, a∈l.toSender) : LinkInv depth cap { l with
      snd := t.conn
      toReceiver := l.toReceiver ++ t.out
      toSender := toSender } where
  __ := h
  snd := ht.snd
  sent p hp := take_subset_take_left l.queued ht.sentLe (h.sent p hp)
  data p hp := by
    obtain hold | hnew := mem_append.mp hp
    · exact (take_subset_take_left l.queued ht.sentLe) (h.data p hold)
    · exact ht.out p hnew
  acks a ha := h.acks a (hacks a ha)

end

end LinkInv

section Queueing

/-- The stream grows by a packet with the next number. -/
theorem StreamInv.queue (h : StreamInv queued) (hno : ∀ q∈queued, q.eos=false)
    (hseq : p.seq=queued.length+1) (hstop : p.stop=false) (hshort : queued.length+2<2^32) :
    StreamInv (queued ++ [p]) := by
  constructor
  case numbered =>
    intro k q hk
    by_cases hlt : k<queued.length
    · rw [List.getElem?_append_left hlt] at hk
      exact h.numbered k q hk
    · obtain ⟨hlen,-⟩ := List.getElem?_eq_some_iff.mp hk
      rw [List.length_append,List.length_singleton] at hlen
      have hkeq : k=queued.length := by omega
      rw [hkeq,List.getElem?_concat_length] at hk
      rw [← some.inj hk,hseq,hkeq]
  case short =>
    rw [List.length_append,List.length_singleton]
    exact hshort
  case notStop =>
    intro q hq
    obtain hold | hnew := List.mem_append.mp hq
    · exact h.notStop q hold
    · rw [List.mem_singleton.mp hnew]
      exact hstop
  case eosLast =>
    intro k q hk heos
    obtain ⟨hlen,-⟩ := List.getElem?_eq_some_iff.mp hk
    by_cases hlt : k<queued.length
    · rw [List.getElem?_append_left hlt] at hk
      have := hno q (List.mem_of_getElem? hk)
      rw [heos] at this
      cases this
    · rw [List.length_append,List.length_singleton] at hlen ⊢
      omega

theorem SndInv.queue (h : SndInv depth queued stored consumed c)
    (hshort : queued.length+2<2^32) (heos : p.eos → c.eos) :
    SndInv depth (queued ++ [p]) stored consumed
      { c with seq := add32 c.seq 1, sndQueue := c.sndQueue ++ [p], curBuff := none } := by
  have hsent := h.sentLe
  have htake : (queued ++ [p]).take c.sentSeq=queued.take c.sentSeq :=
    take_append_of_le_length hsent
  refine { h with
    seq := ?seq
    sentLe := ?sentLe
    sndQueue := ?sndQueue
    unackQueue := ?unackQueue
    accounted := ?accounted
    eos := ?eos }
  case seq =>
    have hseq := h.seq
    show add32 c.seq 1=(queued ++ [p]).length+1
    rw [add32_eq (by omega),length_append,length_singleton]
    omega
  case sentLe =>
    rw [length_append]
    exact Nat.le_add_right_of_le hsent
  case sndQueue =>
    show c.sndQueue ++ [p]=(queued ++ [p]).drop c.sentSeq
    rw [drop_append_of_le_length hsent,h.sndQueue]
  case unackQueue =>
    show c.unackQueue.Sublist ((queued ++ [p]).take c.sentSeq)
    rw [htake]
    exact h.unackQueue
  case accounted =>
    show ∀ q∈(queued ++ [p]).take c.sentSeq, q∈c.unackQueue ∨ q∈stored
    rw [htake]
    exact h.accounted
  case eos =>
    intro q hq
    obtain hold | hnew := mem_append.mp hq
    · exact h.eos q hold
    · rw [mem_singleton.mp hnew]
      exact heos

theorem RcvInv.queue (h : RcvInv cap queued stored delivered c)
    (hno : ∀ q∈queued, q.eos=false) : RcvInv cap (queued ++ [p]) stored delivered c := by
  have hlen := h.lengthLe
  have hhand : (c.extraSeq+if c.pBuff.isSome then 1 else 0)≤queued.length := by
    cases hbuff : c.pBuff with
    | none =>
      simp only [isSome_none,Bool.false_eq_true,if_false]
      omega
    | some q =>
      obtain ⟨hget,-⟩ := h.head_packet (h.inHand q hbuff)
      have := (List.getElem?_eq_some_iff.mp hget).1
      simp only [isSome_some,if_true]
      omega
  refine { h with
    lengthLe := ?lengthLe
    slot := ?slot
    contiguous := ?contiguous
    storedQueued := fun q hq => mem_append_left _ (h.storedQueued q hq)
    delivered := ?handed
    ended := ?ended }
  case lengthLe =>
    rw [length_append]
    exact Nat.le_add_right_of_le hlen
  case slot =>
    intro k q hk hk' hslot
    have hget := h.slot k q hk hk' hslot
    rw [List.getElem?_append_left (List.getElem?_eq_some_iff.mp hget).1]
    exact hget
  case contiguous =>
    rw [take_append_of_le_length hlen]
    exact h.contiguous
  case handed =>
    rw [take_append_of_le_length hhand]
    exact h.delivered
  case ended =>
    intro hend
    obtain ⟨-,q,hq,heos⟩ := h.ended hend
    rw [hno q hq] at heos
    cases heos

end Queueing

theorem LinkInv.flushBuffer (h : LinkInv depth cap l) (hno : ∀ q∈l.queued, q.eos=false)
    (hshort : l.queued.length+2<2^32) (ctl : Control Γ) (payload : List UInt8) :
    let r := ({ ctl := ctl, conn := l.snd } : Tx Γ).queueBuffer payload
    let t := r.1.sendBuffers cfg
    LinkInv depth cap { l with
      snd := t.conn
      toReceiver := l.toReceiver ++ t.out
      queued := l.queued ++ [r.2] } := by
  intro r t
  have hstr : StreamInv (l.queued ++ [r.2]) :=
    h.stream.queue hno h.snd.seq h.snd.notStop hshort
  have hsnd : SndInv depth (l.queued ++ [r.2]) l.stored l.rcv.extraSeq r.1.conn :=
    h.snd.queue hshort fun heos => heos
  have htake : (l.queued ++ [r.2]).take l.snd.sentSeq=l.queued.take l.snd.sentSeq :=
    take_append_of_le_length h.snd.sentLe
  have hnext : LinkInv depth cap { l with snd := r.1.conn, queued := l.queued ++ [r.2] } :=
    { h with
      stream := hstr
      snd := hsnd
      rcv := h.rcv.queue hno
      sent := fun p hp => htake ▸ h.sent p hp
      data := fun p hp => htake ▸ h.data p hp }
  have htx : TxInv depth (l.queued ++ [r.2]) l.stored l.rcv.extraSeq l.snd.sentSeq t :=
    (hnext.tx ctl).sendBuffers hstr
  exact hnext.putTx htx fun a ha => ha

end

open SndConn.Frees Tx.Keeps Sys

variable {n : Nat} {Γ : Type*} {s t : Sys n Γ}

/-- What the sending process keeps of a connection outside `SendChunkUDPIFC` and `SendEosUDPIFC`
proper. -/
structure Link.Keeps (l l' : Link) : Prop where
  seq : l'.snd.seq=l.snd.seq
  eos : l'.snd.eos=l.snd.eos
  stillActive : l'.snd.stillActive=l.snd.stillActive
  curBuff : l'.snd.curBuff=l.snd.curBuff
  drained : l.snd.unackQueue=[] → l.snd.sndQueue=[] →
    l'.snd.unackQueue=[] ∧ l'.snd.sndQueue=[]
  queued : l'.queued=l.queued
  stored : l'.stored=l.stored

variable {l : Link}

namespace Link.Keeps

theorem refl (l : Link) : Link.Keeps l l := ⟨rfl,rfl,rfl,rfl,fun hu hs => ⟨hu,hs⟩,rfl,rfl⟩

theorem trans (h : Link.Keeps l l') (h' : Link.Keeps l' l'') : Link.Keeps l l'' where
  seq := h'.seq.trans h.seq
  eos := h'.eos.trans h.eos
  stillActive := h'.stillActive.trans h.stillActive
  curBuff := h'.curBuff.trans h.curBuff
  drained hu hs :=
    have hd := h.drained hu hs
    h'.drained hd.1 hd.2
  queued := h'.queued.trans h.queued
  stored := h'.stored.trans h.stored

theorem ofTx {t : Tx Γ} (h : Tx.Keeps l.snd t) {toReceiver : List Datagram} {toSender : List Ack} :
    Link.Keeps l { l with snd := t.conn, toReceiver := toReceiver, toSender := toSender } :=
  ⟨h.seq,h.eos,h.stillActive,h.curBuff,h.drained,rfl,rfl⟩

end Link.Keeps

/-- A part of a step that leaves the call alone, keeps every connection, and keeps the invariant of
each of them; only packets the receiver has stored are taken for acknowledged. -/
structure Sys.Quiet (depth : Nat) (caps : Fin n → Nat) (s t : Sys n Γ) : Prop where
  call : t.call=s.call
  keeps : ∀ i, Link.Keeps (s.links i) (t.links i)
  link : ∀ i, LinkInv depth (caps i) (s.links i) → LinkInv depth (caps i) (t.links i)
  acked : ∀ i, LinkInv depth (caps i) (s.links i) → ∀ p∈(s.links i).snd.unackQueue,
    p∈(t.links i).snd.unackQueue ∨ p∈(s.links i).stored
  frees : ∀ i, SndConn.Frees s.ctl.freeList (s.links i).snd t.ctl.freeList (t.links i).snd
  settled : ∀ i, (s.links i).snd.Settled → (t.links i).snd.Settled

namespace Sys.Quiet

theorem refl (s : Sys n Γ) : Sys.Quiet depth caps s s :=
  ⟨rfl,fun _ => Link.Keeps.refl _,fun _ h => h,fun _ _ _ hp => .inl hp,
    fun _ => SndConn.Frees.refl _ _,fun _ h => h⟩

theorem trans (h : Sys.Quiet depth caps s t) (h' : Sys.Quiet depth caps t u) :
    Sys.Quiet depth caps s u where
  call := h'.call.trans h.call
  keeps i := (h.keeps i).trans (h'.keeps i)
  link i hi := h'.link i (h.link i hi)
  acked i hi p hp := by
    cases h.acked i hi p hp with
    | inr hs => exact .inr hs
    | inl hu =>
      rw [← (h.keeps i).stored]
      exact h'.acked i (h.link i hi) p hu
  frees i := (h.frees i).trans (h'.frees i)
  settled i hi := h'.settled i (h.settled i hi)

attribute [local simp] setLink

theorem setLink (hkeep : Link.Keeps (s.links i) l)
    (hlink : LinkInv depth (caps i) (s.links i) → LinkInv depth (caps i) l)
    (hacked : LinkInv depth (caps i) (s.links i) → ∀ p∈(s.links i).snd.unackQueue,
      p∈l.snd.unackQueue ∨ p∈(s.links i).stored) (ctl : Control Γ)
    (hfrs : SndConn.Frees s.ctl.freeList (s.links i).snd ctl.freeList l.snd)
    (hsettled : (s.links i).snd.Settled → l.snd.Settled) :
    Sys.Quiet depth caps s { s.setLink i l with ctl := ctl } where
  call := rfl
  keeps j := by
    by_cases hj : j=i
    · rw [hj]
      simpa using hkeep
    · simpa [hj] using Link.Keeps.refl _
  link j := by
    by_cases hj : j=i
    · rw [hj]
      simpa using hlink
    · simp [hj]
  acked j := by
    by_cases hj : j=i
    · rw [hj]
      simpa using hacked
    · exact fun _ p hp => .inl (by simpa [hj] using hp)
  frees j := by
    by_cases hj : j=i
    · rw [hj]
      simpa using hfrs
    · have hfree := hfrs.freeLe
      simp only [Sys.setLink,Function.update_of_ne hj]
      exact ⟨hfree,Nat.le_refl _,by omega⟩
  settled j := by
    by_cases hj : j=i
    · rw [hj]
      simpa using hsettled
    · simp [hj]

theorem putTx (hkeep : Tx.Keeps (s.links i).snd x)
    (hfrs : SndConn.Frees s.ctl.freeList (s.links i).snd x.ctl.freeList x.conn)
    (hsettled : (s.links i).snd.Settled → x.conn.Settled)
    (hlink : LinkInv depth (caps i) (s.links i) → TxInv depth (s.links i).queued (s.links i).stored
      (s.links i).rcv.extraSeq (s.links i).snd.sentSeq x) : Sys.Quiet depth caps s (s.putTx i x) :=
  setLink (Link.Keeps.ofTx hkeep) (fun h => h.putTx (hlink h) fun _ ha => ha)
    (fun h _ hp => (hlink h).acked h.snd rfl hp) x.ctl hfrs hsettled

end Sys.Quiet

theorem Link.handleAckAndSend (ctl : Control Γ) (send : Bool) (ha : a∈l.toSender)
    (hx : ({ ctl := ctl, conn := l.snd } : Tx Γ).handleAckAndSend cfg a send=(x, send', stops)) :
    Tx.Keeps l.snd x ∧ SndConn.Frees ctl.freeList l.snd x.ctl.freeList x.conn ∧
      (l.snd.Settled → x.conn.Settled) ∧ (LinkInv depth cap l →
      TxInv depth l.queued l.stored l.rcv.extraSeq l.snd.sentSeq x ∧ stops=false) := by
  have hcl := Tx.keeps_closed cfg l.snd
  have hkeep := hcl.handleAck a (refl ({ ctl := ctl, conn := l.snd } : Tx Γ))
  have hpool := Tx.frees_closed cfg ctl.freeList l.snd
  have hstart : SndConn.Frees ctl.freeList l.snd ({ ctl := ctl, conn := l.snd } : Tx Γ).ctl.freeList
      ({ ctl := ctl, conn := l.snd } : Tx Γ).conn := refl _ _
  have hfrs := hpool.handleAck a hstart
  have hsettled : l.snd.Settled →
      (({ ctl := ctl, conn := l.snd } : Tx Γ).handleAckAndSend cfg a send).1.conn.Settled :=
    fun h => Tx.handleAckAndSend_settled a send h
  rw [hx] at hsettled
  rw [Tx.handleAckAndSend] at hx
  dsimp only at hx
  obtain ⟨hx,hrest⟩ := Prod.mk.inj hx
  obtain ⟨-,hstops⟩ := Prod.mk.inj hrest
  refine ⟨?_,?_,hsettled,fun h => ?_⟩
  · rw [← hx]
    split_ifs
    · exact hcl.sendBuffers hkeep
    · exact hkeep
  · rw [← hx]
    split_ifs
    · exact hpool.sendBuffers hfrs
    · exact hfrs
  · obtain ⟨htx,hstop⟩ := (h.tx ctl).handleAck h.stream h.rcv.storedQueued (h.acks a ha)
    rw [← hx,← hstops]
    refine ⟨?_,hstop⟩
    split_ifs
    · exact htx.sendBuffers h.stream
    · exact htx

/-- Any choice of acknowledgements is handled. -/
theorem Sys.handleAcks_quiet (picks : List (Fin n × Nat)) (send stops : Bool)
    (h : s.handleAcks cfg send picks=some (t, stops)) :
    Sys.Quiet depth caps s t ∧ ((∀ i, LinkInv depth (caps i) (s.links i)) → stops=false) := by
  induction picks generalizing s send stops with
  | nil =>
    obtain ⟨rfl,rfl⟩ := Prod.mk.inj (some.inj h)
    exact ⟨Sys.Quiet.refl _,fun _ => rfl⟩
  | cons pick more ih =>
    obtain ⟨i,k⟩ := pick
    rw [handleAcks] at h
    cases hget : (s.links i).toSender[k]? with
    | none => simp [hget] at h
    | some a =>
      rw [hget] at h
      dsimp only at h
      rcases hx : (s.tx i).handleAckAndSend cfg a send with ⟨x,send',stops₁⟩
      rw [hx] at h
      obtain ⟨⟨u,stops₂⟩,hrest,heq⟩ := map_eq_some_iff.mp h
      obtain ⟨rfl,rfl⟩ := Prod.mk.inj heq
      obtain ⟨hkeep,hfrs,hsettled,hinv⟩ :=
        Link.handleAckAndSend s.ctl send (List.mem_of_getElem? hget) hx
      have hstep : Sys.Quiet depth caps s (s.takeAck i k x) :=
        Sys.Quiet.setLink (Link.Keeps.ofTx hkeep)
          (fun hl => hl.putTx (hinv hl).1 fun _ ha => List.mem_of_mem_eraseIdx ha)
          (fun hl _ hp => (hinv hl).1.acked hl.snd rfl hp) x.ctl hfrs hsettled
      obtain ⟨hlater,hnone⟩ := ih _ _ hrest
      refine ⟨hstep.trans hlater,fun hall => ?_⟩
      rw [(hinv (hall i)).2,hnone fun j => hstep.link j (hall j)]
      rfl

theorem Sys.resendExpired_quiet (picks : List (Fin n × Nat))
    (h : s.resendExpired cfg picks=some t) : Sys.Quiet depth caps s t := by
  induction picks generalizing s with
  | nil =>
    cases h
    exact Sys.Quiet.refl _
  | cons pick more ih =>
    obtain ⟨i,k⟩ := pick
    rw [resendExpired] at h
    cases hget : (s.links i).snd.unackQueue[k]? with
    | none => simp [hget] at h
    | some p =>
      rw [hget] at h
      have hstep : Sys.Quiet depth caps s (s.putTx i ((s.tx i).resend cfg p)) :=
        Sys.Quiet.putTx ((Tx.keeps_closed cfg _).resend _ p (refl (s.tx i)))
          (refl _ _) (fun h => h) fun hl => (hl.tx s.ctl).resend (List.mem_of_getElem? hget)
      exact hstep.trans (ih h)

theorem Sys.resendFirst_quiet (i : Fin n) : Sys.Quiet depth caps s (s.resendFirst cfg i) := by
  rw [resendFirst]
  split
  case h_1 => exact Sys.Quiet.refl _
  case h_2 p ps hps =>
    exact Sys.Quiet.putTx ((Tx.keeps_closed cfg _).resend _ p (refl (s.tx i)))
      (refl _ _) (fun h => h) fun hl => (hl.tx s.ctl).resend (by simp [hps])

theorem Tx.checkDeadlock_eq (x : Tx Γ) :
    x.checkDeadlock.conn=x.conn ∧ x.checkDeadlock.ctl=x.ctl := by
  rw [Tx.checkDeadlock]
  split_ifs <;> exact ⟨rfl,rfl⟩

theorem Tx.Keeps.checkDeadlock (x : Tx Γ) : Tx.Keeps x.conn x.checkDeadlock := by
  rw [Tx.checkDeadlock]
  split_ifs
  · exact { refl x with }
  · exact refl x

theorem Sys.checkExceptions_quiet (h : s.checkExceptions cfg i retry expired due=some t) :
    Sys.Quiet depth caps s t := by
  obtain ⟨u,hu,rfl⟩ := map_eq_some_iff.mp h
  have hres : Sys.Quiet depth caps s u := by
    cases hfc : cfg.fcMethod with
    | capacity =>
      rw [hfc] at hu
      cases hu
      split_ifs
      · exact Sys.Quiet.refl _
      · exact resendFirst_quiet i
    | loss =>
      rw [hfc] at hu
      obtain ⟨v,hv,rfl⟩ := map_eq_some_iff.mp hu
      have hqt : Sys.Quiet depth caps s v := resendExpired_quiet expired hv
      split_ifs
      · exact hqt
      · exact { hqt with }
  apply hres.trans
  split_ifs
  · obtain ⟨hconn,hctl⟩ := Tx.checkDeadlock_eq (u.tx i)
    refine Sys.Quiet.putTx (checkDeadlock (u.tx i)) ?_ ?_
      fun hl => (hl.tx u.ctl).checkDeadlock
    · rw [hconn,hctl]
      exact refl _ _
    · rw [hconn]
      exact fun h => h
  · exact Sys.Quiet.refl _

theorem Sys.turn_quiet (h : s.turn cfg i retry arrived expired due=some (t, stops)) :
    Sys.Quiet depth caps s t ∧ ((∀ j, LinkInv depth (caps j) (s.links j)) → stops=false) := by
  obtain ⟨⟨u,stops'⟩,hu,ht⟩ := bind_eq_some_iff.mp h
  obtain ⟨v,hv,heq⟩ := map_eq_some_iff.mp ht
  obtain ⟨rfl,rfl⟩ := Prod.mk.inj heq
  obtain ⟨hacks,hnone⟩ := handleAcks_quiet arrived false stops' hu
  exact ⟨hacks.trans (checkExceptions_quiet hv),hnone⟩

end WarehousePG.Interconnect
