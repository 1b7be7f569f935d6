import WarehousePG.Interconnect.Process

namespace WarehousePG.Interconnect

open Datagram Tx SndConn List
open List (mem_cons_of_mem mem_cons_self)

variable {Γ : Type*} {cfg : Config Γ} {stored : List Packet} {t : Tx Γ} {a : Ack} {p : Packet}
  {rest : List Packet} {seq : Nat}

structure TxInv (depth : Nat) (queued stored : List Packet) (consumed sent : Nat) (t : Tx Γ) :
    Prop where
  sentLe : sent≤t.conn.sentSeq
  snd : SndInv depth queued stored consumed t.conn
  out : ∀ p, .data p∈t.out → p∈queued.take t.conn.sentSeq

namespace SndInv

section

variable (h : SndInv depth queued stored consumed c)
include h

theorem unack_mem (hp : p∈c.unackQueue) : p∈queued := mem_of_mem_take (h.unackQueue.subset hp)

theorem unack_sorted (hq : StreamInv queued) : c.unackQueue.Pairwise (fun p q => p.seq<q.seq) :=
  hq.sorted.sublist (h.unackQueue.trans (take_sublist _ _))

theorem next_packet (hq : StreamInv queued) (hsnd : c.sndQueue=p::rest) :
    queued[c.sentSeq]?=some p ∧ p.seq=c.sentSeq+1 ∧ queued.drop p.seq=rest := by
  have hdrop : queued.drop c.sentSeq=p::rest := by rw [← h.sndQueue,hsnd]
  have hget : queued[c.sentSeq]?=some p := by
    have := congrArg head? hdrop
    simpa [head?_drop] using this
  have hseq := hq.numbered _ p hget
  refine ⟨hget,hseq,?_⟩
  rw [hseq,← drop_drop,hdrop]
  rfl

end

end SndInv

namespace TxInv

section

variable (h : TxInv depth queued stored consumed sent t)
include h

theorem acked
    (hc : SndInv depth queued stored consumed c) (hsent : c.sentSeq=sent) (hp : p∈c.unackQueue) :
    p∈t.conn.unackQueue ∨ p∈stored := by
  apply h.snd.accounted
  apply take_subset_take_left queued h.sentLe
  rw [← hsent]
  exact hc.unackQueue.subset hp

theorem resend
    (hp : p∈t.conn.unackQueue) : TxInv depth queued stored consumed sent (t.resend cfg p) where
  sentLe := h.sentLe
  snd := h.snd
  out q hq := by
    rw [Tx.resend,mem_append,mem_singleton] at hq
    obtain hold | hnew := hq
    · exact h.out q hold
    · obtain rfl := data.inj hnew
      exact h.snd.unackQueue.subset hp

/-- A packet sent is in the unacknowledged queue. -/
theorem sendPacket (hq : StreamInv queued)
    (hsnd : t.conn.sndQueue=p::rest) (hcap : 0<t.conn.capacity) :
    TxInv depth queued stored consumed sent (t.sendPacket cfg p rest) := by
  obtain ⟨hget,hseq,hrest⟩ := h.snd.next_packet hq hsnd
  have hlen : t.conn.sentSeq<queued.length := (List.getElem?_eq_some_iff.mp hget).1
  have htake : queued.take p.seq=queued.take t.conn.sentSeq ++ [p] := by
    rw [hseq,take_add_one,hget]
    rfl
  constructor
  case sentLe =>
    show sent≤p.seq
    have := h.sentLe
    omega
  case snd =>
    refine { h.snd with
      sentLe := ?sentLe
      sndQueue := hrest.symm
      unackQueue := ?unackQueue
      accounted := ?accounted
      received := ?received
      receivedLe := ?receivedLe
      window := ?window }
    case sentLe =>
      show p.seq≤queued.length
      omega
    case unackQueue =>
      show (t.conn.unackQueue ++ [p]).Sublist (queued.take p.seq)
      rw [htake]
      exact h.snd.unackQueue.append (List.Sublist.refl _)
    case accounted =>
      intro q hq'
      have hq'' : q∈queued.take p.seq := hq'
      rw [htake,mem_append] at hq''
      obtain hold | hnew := hq''
      · exact (h.snd.accounted q hold).imp_left fun hin => mem_append_left _ hin
      · exact .inl (mem_append_right _ hnew)
    case received =>
      intro q hq'
      obtain hold | hnew := mem_append.mp hq'
      · exact h.snd.received q hold
      · rw [mem_singleton.mp hnew]
        show t.conn.receivedAckSeq<p.seq
        have := h.snd.receivedLe
        omega
    case receivedLe =>
      show t.conn.receivedAckSeq≤p.seq
      have := h.snd.receivedLe
      omega
    case window =>
      have := h.snd.window
      show t.conn.capacity-1+p.seq=depth+t.conn.consumedSeq
      omega
  case out =>
    intro q hq'
    show q∈queued.take p.seq
    rw [htake]
    obtain hold | hnew := mem_append.mp hq'
    · exact mem_append_left _ (h.out q hold)
    · obtain rfl := data.inj (mem_singleton.mp hnew)
      exact mem_append_right _ (mem_singleton_self q)

end

theorem sendLoop (hq : StreamInv queued) (ps : List Packet) (hps : t.conn.sndQueue=ps)
    (h : TxInv depth queued stored consumed sent t) :
    TxInv depth queued stored consumed sent (t.sendLoop cfg ps) := by
  induction ps generalizing t with
  | nil => exact h
  | cons p rest ih =>
    rw [sendLoop]
    split_ifs with hmay
    · have hcap : 0<t.conn.capacity := by
        simp only [maySend,Bool.and_eq_true,decide_eq_true_eq] at hmay
        exact hmay.1.1
      exact ih rfl (h.sendPacket hq hps hcap)
    · exact h

theorem sendBuffers (h : TxInv depth queued stored consumed sent t) (hq : StreamInv queued) :
    TxInv depth queued stored consumed sent (t.sendBuffers cfg) :=
  sendLoop hq _ rfl h

/-- An acknowledged packet leaves the queue and gives its capacity back. -/
theorem handleAckedPacket (h : TxInv depth queued stored consumed sent t) (hq : StreamInv queued)
    (hp : p∈t.conn.unackQueue) (hs : p∈stored) :
    TxInv depth queued stored consumed sent (t.handleAckedPacket cfg p) := by
  have hsorted := h.snd.unack_sorted hq
  refine { h with snd := ?snd }
  case snd =>
    refine { h.snd with
      unackQueue := ?unackQueue
      accounted := ?accounted
      received := ?received
      receivedLe := ?receivedLe }
    case unackQueue => exact erase_sublist.trans h.snd.unackQueue
    case accounted =>
      intro q hq'
      by_cases heq : q=p
      · rw [heq]
        exact .inr hs
      · exact (h.snd.accounted q hq').imp_left (mem_erase_of_ne heq).mpr
    case received =>
      intro q hq'
      have hmem : q∈t.conn.unackQueue := mem_of_mem_erase hq'
      show (if t.conn.unackQueue.head?=some p then p.seq else t.conn.receivedAckSeq)<q.seq
      split_ifs with hhead
      · obtain ⟨ps,hps⟩ := head?_eq_some_iff.mp hhead
        have hq'' : q∈t.conn.unackQueue.erase p := hq'
        rw [hps,erase_cons_head] at hq''
        rw [hps,pairwise_cons] at hsorted
        exact hsorted.1 q hq''
      · exact h.snd.received q hmem
    case receivedLe =>
      show (if t.conn.unackQueue.head?=some p then p.seq else t.conn.receivedAckSeq) ≤
        t.conn.sentSeq
      split_ifs with hhead
      · exact (hq.mem_take_iff (h.snd.unack_mem hp) _).mp (h.snd.unackQueue.subset hp)
      · exact h.snd.receivedLe

theorem ackUpTo (hq : StreamInv queued) (ps : List Packet) (hps : t.conn.unackQueue=ps)
    (hs : ∀ p∈ps, p.seq ≤ seq → p∈stored) (h : TxInv depth queued stored consumed sent t) :
    TxInv depth queued stored consumed sent (t.ackUpTo cfg seq ps).1 := by
  induction ps generalizing t with
  | nil => exact h
  | cons p ps ih =>
    rw [ackUpTo]
    split_ifs with hle
    · have hmem : p∈t.conn.unackQueue := by simp [hps]
      apply ih
      · show t.conn.unackQueue.erase p=ps
        rw [hps,erase_cons_head]
      · exact fun q hq' => hs q (mem_cons_of_mem _ hq')
      · exact h.handleAckedPacket hq hmem (hs p mem_cons_self hle)
    · exact h

theorem ackSingle (h : TxInv depth queued stored consumed sent t) (hq : StreamInv queued)
    (ps : List Packet) (hps : ∀ p∈ps, p∈t.conn.unackQueue) (hs : ∀ p∈ps, p.seq=seq → p∈stored) :
    TxInv depth queued stored consumed sent (t.ackSingle cfg seq ps).1 := by
  induction ps with
  | nil => exact h
  | cons p ps ih =>
    rw [Tx.ackSingle]
    split_ifs with heq hlt
    · exact h.handleAckedPacket hq (hps p mem_cons_self) (hs p mem_cons_self heq)
    · exact ih (fun q hq' => hps q (mem_cons_of_mem _ hq'))
        (fun q hq' => hs q (mem_cons_of_mem _ hq'))
    · exact h

/-- In the loop over a DISORDER message a packet is taken for stored when the next lost number is
above its own. -/
theorem disorderLoop (hq : StreamInv queued) (ps : List Packet) (lost : List Nat)
    (hps : ∀ p∈ps, p∈t.conn.unackQueue) (hsorted : ps.Pairwise (fun p q => p.seq<q.seq))
    (hlost : lost.Pairwise (· < ·)) (hseq : ∀ p∈ps, p.seq=seq → p∈stored)
    (hs : ∀ p∈ps, ∀ x∈lost, p.seq<x → p.seq∉lost → p∈stored)
    (h : TxInv depth queued stored consumed sent t) :
    TxInv depth queued stored consumed sent (t.disorderLoop cfg seq ps lost).1 := by
  induction ps generalizing t lost with
  | nil => exact h
  | cons p ps ih =>
    have hmem : p∈t.conn.unackQueue := hps p mem_cons_self
    obtain ⟨hbel,hsorted⟩ := pairwise_cons.mp hsorted
    rw [disorderLoop]
    split_ifs with hdone heq
    · exact h
    · exact h.handleAckedPacket hq hmem (hseq p mem_cons_self heq)
    cases hdrop : lost.dropWhile (· < p.seq) with
    | nil => exact h
    | cons x xs =>
      have hsuf : (x::xs).Sublist lost := by
        rw [← hdrop]
        exact dropWhile_sublist _
      have hkept := hlost.sublist hsuf
      -- A number passed over is below the packet's own.
      have hpass : ∀ y∈lost, p.seq≤y → y∈x::xs := by
        intro y hy hle
        rw [← takeWhile_append_dropWhile (p := (· < p.seq)) (l := lost),hdrop,
          mem_append] at hy
        refine hy.resolve_left fun hin => ?_
        have hall : (lost.takeWhile (· < p.seq)).all (· < p.seq) := all_takeWhile
        have := all_eq_true.mp hall y hin
        simp only [decide_eq_true_eq] at this
        omega
      have hx : p.seq≤x := by
        have := head?_dropWhile_not (· < p.seq) lost
        rw [hdrop] at this
        simpa using this
      have hltr : ∀ q∈ps, ∀ zs : List Nat, (∀ y∈x::xs, p.seq<y → y∈zs) →
          (∀ y∈zs, y∈lost) → ∀ y∈zs, q.seq<y → q.seq∉zs → q∈stored := by
        intro q hq' zs hall hsub y hy hlt hnot
        have hpq := hbel q hq'
        refine hs q (mem_cons_of_mem _ hq') y (hsub y hy) hlt fun hin => hnot ?_
        exact hall q.seq (hpass q.seq hin (by omega)) hpq
      dsimp only
      split_ifs with hfound
      · apply ih xs
        · exact fun q hq' => hps q (mem_cons_of_mem _ hq')
        · exact hsorted
        · exact (pairwise_cons.mp hkept).2
        · exact fun q hq' => hseq q (mem_cons_of_mem _ hq')
        · intro q hq'
          apply hltr q hq' xs
          · intro y hy hlt
            exact (mem_cons.mp hy).resolve_left (by omega)
          · exact fun y hy => hsuf.subset (mem_cons_of_mem _ hy)
        · exact h.resend hmem
      · have hsto : p∈stored := by
          apply hs p mem_cons_self x (hsuf.subset mem_cons_self) (by omega)
          intro hin
          have := mem_cons.mp (hpass p.seq hin (Nat.le_refl _))
          rcases this with heq' | hin'
          · exact hfound heq'
          · have := (pairwise_cons.mp hkept).1 _ hin'
            omega
        apply ih (x::xs)
        · intro q hq'
          have hne : q≠p := by
            intro heq'
            have := hbel q hq'
            rw [heq'] at this
            omega
          exact (mem_erase_of_ne hne).mpr (hps q (mem_cons_of_mem _ hq'))
        · exact hsorted
        · exact hkept
        · exact fun q hq' => hseq q (mem_cons_of_mem _ hq')
        · intro q hq'
          exact hltr q hq' (x::xs) (fun y hy _ => hy) (fun y hy => hsuf.subset hy)
        · exact h.handleAckedPacket hq hmem hsto

section

variable (h : TxInv depth queued stored consumed sent t)
include h

theorem withControl (ctl : Control Γ) :
    TxInv depth queued stored consumed sent { t with ctl := ctl } :=
  ⟨h.sentLe,h.snd,h.out⟩

section

variable (hq : StreamInv queued) (hsub : ∀ p∈stored, p∈queued)
include hq hsub

theorem handleAckForDuplicatePkt (ha : AckInv stored consumed a) (hd : a.flags.duplicate) :
    TxInv depth queued stored consumed sent (t.handleAckForDuplicatePkt cfg a).1 := by
  obtain ⟨hsin,hupTo⟩ := ha.duplicate hd
  rw [Tx.handleAckForDuplicatePkt]
  split_ifs with hbad
  · exact h
  · have hfirst : TxInv depth queued stored consumed sent
        (t.ackUpTo cfg a.extraSeq t.conn.unackQueue).1 := by
      apply ackUpTo hq _ rfl _ h
      intro p hp hle
      have hmem := h.snd.unack_mem hp
      exact hq.mem_of_stored hsub hmem (hupTo p.seq (hq.seq_pos hmem) hle)
    refine hfirst.ackSingle hq _ (fun p hp => hp) fun p hp heq => ?_
    apply hq.mem_of_stored hsub (hfirst.snd.unack_mem hp)
    rw [heq]
    exact hsin

/-- Packets that a disorder acknowledgement does not list as missing are stored. -/
theorem handleAckForDisorderPkt (ha : AckInv stored consumed a) (hd : a.flags.disorder) :
    TxInv depth queued stored consumed sent (t.handleAckForDisorderPkt cfg a).1 := by
  obtain ⟨hsin,hsorted,hbet⟩ := ha.disorder hd
  have hmem : ∀ p∈t.conn.unackQueue, p∈queued := fun p hp => h.snd.unack_mem hp
  have hloop : ∀ ctl, TxInv depth queued stored consumed sent
      (({ t with ctl := ctl } : Tx Γ).disorderLoop cfg a.seq t.conn.unackQueue a.lost).1 := by
    intro ctl
    apply disorderLoop hq
    · exact fun p hp => hp
    · exact h.snd.unack_sorted hq
    · exact hsorted
    · intro p hp heq
      apply hq.mem_of_stored hsub (hmem p hp)
      rw [heq]
      exact hsin
    · intro p hp x hx hlt hnot
      exact hq.mem_of_stored hsub (hmem p hp)
        (hbet x hx p.seq (hq.seq_pos (hmem p hp)) hlt hnot)
    · exact h.withControl ctl
  rw [Tx.handleAckForDisorderPkt]
  dsimp only
  split_ifs with hfirst hthird
  · exact h.withControl _
  · exact h.withControl _
  · cases cfg.fcMethod with
    | capacity => exact hloop _
    | loss => exact (hloop _).withControl _

theorem handlePlainAck (hstop : a.flags.stop=false) (hupTo : ∀ k, 0<k → k≤a.seq → Stored stored k) :
    TxInv depth queued stored consumed sent (t.handlePlainAck cfg a).1 ∧
      (t.handlePlainAck cfg a).2.2=false := by
  rw [Tx.handlePlainAck]
  simp only [hstop,Bool.false_and,Bool.false_eq_true,if_false]
  split_ifs with hold hsame
  · exact ⟨h,rfl⟩
  · exact ⟨h,rfl⟩
  · refine ⟨ackUpTo hq _ rfl (fun p hp hle => ?_) h,rfl⟩
    have hmem := h.snd.unack_mem hp
    exact hq.mem_of_stored hsub hmem (hupTo p.seq (hq.seq_pos hmem) hle)

/-- Every acknowledgement keeps the sender in step and stops nothing. -/
theorem handleAck (ha : AckInv stored consumed a) :
    TxInv depth queued stored consumed sent (t.handleAck cfg a).1 ∧
      (t.handleAck cfg a).2.2=false := by
  rw [Tx.handleAck]
  split_ifs with hcap hmore hdup hdis
  · obtain ⟨hd,hl⟩ := ha.plain hcap
    have hwindow := h.snd.window
    have hcredit : TxInv depth queued stored consumed sent
        { t with conn := { t.conn with
          capacity := t.conn.capacity+(a.extraSeq-t.conn.consumedSeq)
          consumedSeq := a.extraSeq } } := by
      refine ⟨h.sentLe,{ h.snd with window := ?_, consumedLe := ha.credit hcap },h.out⟩
      dsimp only
      omega
    exact hcredit.handlePlainAck hq hsub ha.notStop (ha.upTo hd hl)
  · obtain ⟨hd,hl⟩ := ha.plain hcap
    exact h.handlePlainAck hq hsub ha.notStop (ha.upTo hd hl)
  · exact ⟨h.handleAckForDuplicatePkt hq hsub ha hdup,rfl⟩
  · exact ⟨h.handleAckForDisorderPkt hq hsub ha hdis,rfl⟩
  · exact h.handlePlainAck hq hsub ha.notStop (ha.upTo (by simpa using hdup) (by simpa using hdis))

end

theorem checkDeadlock : TxInv depth queued stored consumed sent t.checkDeadlock := by
  rw [Tx.checkDeadlock]
  split_ifs with hstuck
  · refine ⟨h.sentLe,h.snd,fun p hp => h.out p ?_⟩
    simpa using hp
  · exact h

end

end TxInv

/-- A property kept by all that `handleAcks` and `sendBuffers` do to a connection. -/
structure Tx.Closed (cfg : Config Γ) (P : Tx Γ → Prop) : Prop where
  acked : ∀ t p, P t → P (t.handleAckedPacket cfg p)
  resend : ∀ t p, P t → P (t.resend cfg p)
  send : ∀ t p rest, t.conn.sndQueue=p::rest → P t → P (t.sendPacket cfg p rest)
  credit : ∀ t n e, P t → P { t with conn := { t.conn with capacity := n, consumedSeq := e } }
  stop : ∀ t, P t → P { t with conn := { t.conn with stopRequested := true, stop := true } }
  control : ∀ t ctl, ctl.freeList=t.ctl.freeList → P t → P { t with ctl := ctl }

namespace Tx.Closed

variable {P : Tx Γ → Prop}

section

variable (hP : Closed cfg P)
include hP

theorem sendLoop (ps : List Packet) (hps : t.conn.sndQueue=ps) (h : P t) :
    P (t.sendLoop cfg ps) := by
  induction ps generalizing t with
  | nil => exact h
  | cons p rest ih =>
    rw [sendLoop]
    split_ifs
    · exact ih rfl (hP.send t p rest hps h)
    · exact h

theorem sendBuffers (h : P t) : P (t.sendBuffers cfg) := hP.sendLoop _ rfl h

theorem ackUpTo (seq : Nat) (ps : List Packet) (h : P t) : P (t.ackUpTo cfg seq ps).1 := by
  induction ps generalizing t with
  | nil => exact h
  | cons p ps ih =>
    rw [ackUpTo]
    split_ifs
    · exact ih (hP.acked t p h)
    · exact h

theorem ackSingle (seq : Nat) (ps : List Packet) (h : P t) : P (t.ackSingle cfg seq ps).1 := by
  induction ps with
  | nil => exact h
  | cons p ps ih =>
    rw [Tx.ackSingle]
    split_ifs
    · exact hP.acked t p h
    · exact ih
    · exact h

theorem disorderLoop (seq : Nat) (ps : List Packet) (lost : List Nat)
    (h : P t) : P (t.disorderLoop cfg seq ps lost).1 := by
  induction ps generalizing t lost with
  | nil => exact h
  | cons p ps ih =>
    rw [disorderLoop]
    split_ifs
    · exact h
    · exact hP.acked t p h
    cases lost.dropWhile (· < p.seq) with
    | nil => exact h
    | cons x xs =>
      dsimp only
      split_ifs
      · exact ih xs (hP.resend t p h)
      · exact ih (x::xs) (hP.acked t p h)

theorem handlePlainAck (a : Ack) (h : P t) : P (t.handlePlainAck cfg a).1 := by
  rw [Tx.handlePlainAck]
  dsimp only
  split_ifs
  · exact h
  · exact hP.stop t h
  · exact hP.ackUpTo _ _ (hP.stop t h)
  · exact h
  · exact hP.ackUpTo _ _ h

theorem handleAck (a : Ack) (h : P t) : P (t.handleAck cfg a).1 := by
  rw [Tx.handleAck]
  split_ifs
  · exact hP.handlePlainAck a (hP.credit t _ _ h)
  · exact hP.handlePlainAck a h
  · rw [Tx.handleAckForDuplicatePkt]
    split_ifs
    · exact h
    · exact hP.ackSingle _ _ (hP.ackUpTo _ _ h)
  · rw [Tx.handleAckForDisorderPkt]
    dsimp only
    split_ifs
    · exact hP.control t _ rfl h
    · exact hP.control t _ rfl h
    · have hloop := hP.disorderLoop a.seq t.conn.unackQueue a.lost (hP.control t
        { t.ctl with times := add32 t.ctl.times 1 } rfl h)
      cases cfg.fcMethod with
      | capacity => exact hloop
      | loss => exact hP.control _ _ rfl hloop
  · exact hP.handlePlainAck a h

end

end Tx.Closed

structure Tx.Keeps (c : SndConn) (t : Tx Γ) : Prop where
  seq : t.conn.seq=c.seq
  eos : t.conn.eos=c.eos
  stillActive : t.conn.stillActive=c.stillActive
  curBuff : t.conn.curBuff=c.curBuff
  drained : c.unackQueue=[] → c.sndQueue=[] → t.conn.unackQueue=[] ∧ t.conn.sndQueue=[]

theorem Tx.keeps_closed (cfg : Config Γ) (c : SndConn) : Tx.Closed cfg (Tx.Keeps c) where
  acked t p h := { h with
    drained := fun hu hs => by simp [handleAckedPacket,h.drained hu hs] }
  resend t p h := { h with }
  send t p rest hsnd h := { h with
    drained := fun hu hs => by
      have := (h.drained hu hs).2
      rw [hsnd] at this
      exact absurd this (by simp) }
  credit t n e h := { h with }
  stop t h := { h with }
  control t ctl _ h := { h with }

theorem Tx.sendBuffers_unack (cfg : Config Γ) (t : Tx Γ) :
    t.conn.unackQueue⊆(t.sendBuffers cfg).conn.unackQueue := by
  have hloop : ∀ (ps : List Packet) (x : Tx Γ),
      x.conn.unackQueue⊆(x.sendLoop cfg ps).conn.unackQueue := by
    intro ps
    induction ps with
    | nil => exact fun x => List.Subset.refl _
    | cons p rest ih =>
      intro x
      rw [sendLoop]
      split_ifs
      · exact List.Subset.trans (subset_append_left _ _) (ih (x.sendPacket cfg p rest))
      · exact List.Subset.refl _
  exact hloop _ t

theorem Tx.Keeps.refl (t : Tx Γ) : Tx.Keeps t.conn t := ⟨rfl,rfl,rfl,rfl,fun hu hs => ⟨hu,hs⟩⟩

def SndConn.load (c : SndConn) : Nat := c.unackQueue.length+c.sndQueue.length

/-- What `sendBuffers` leaves: packets wait only for credit or for an acknowledgement. -/
def SndConn.Settled (c : SndConn) : Prop := c.sndQueue≠[] → c.capacity=0 ∨ c.unackQueue≠[]

structure SndConn.Frees (free : Nat) (c : SndConn) (free' : Nat) (c' : SndConn) : Prop where
  freeLe : free≤free'
  load : c'.load≤c.load
  total : free+c.load≤free'+c'.load

theorem SndConn.Frees.refl (free : Nat) (c : SndConn) : SndConn.Frees free c free c :=
  ⟨Nat.le_refl _,Nat.le_refl _,Nat.le_refl _⟩

theorem SndConn.Frees.trans
    (h : SndConn.Frees free c free' c') (h' : SndConn.Frees free' c' free'' c'') :
    SndConn.Frees free c free'' c'' :=
  ⟨Nat.le_trans h.freeLe h'.freeLe,Nat.le_trans h'.load h.load,Nat.le_trans h.total h'.total⟩

theorem Tx.frees_closed (cfg : Config Γ) (free : Nat) (c : SndConn) :
    Tx.Closed cfg fun t => SndConn.Frees free c t.ctl.freeList t.conn where
  acked t p h := by
    have hfree : (t.handleAckedPacket cfg p).ctl.freeList=t.ctl.freeList+1 := by
      cases hfc : cfg.fcMethod <;> simp [handleAckedPacket,hfc]
    have hstep : SndConn.Frees t.ctl.freeList t.conn (t.handleAckedPacket cfg p).ctl.freeList
        (t.handleAckedPacket cfg p).conn := by
      have hle := length_erase_le (a := p) (l := t.conn.unackQueue)
      have hge := le_length_erase (a := p) (l := t.conn.unackQueue)
      constructor
      · omega
      · simp only [load,handleAckedPacket]
        omega
      · rw [hfree]
        simp only [load,handleAckedPacket]
        omega
    exact h.trans hstep
  resend t p h := h
  send t p rest hsnd h := by
    have hfree : (t.sendPacket cfg p rest).ctl.freeList=t.ctl.freeList := by
      cases hfc : cfg.fcMethod <;> simp [sendPacket,hfc]
    have hload : (t.sendPacket cfg p rest).conn.load=t.conn.load := by
      simp only [load,sendPacket,hsnd,length_append,length_cons,length_nil]
      omega
    rw [hfree]
    exact ⟨h.freeLe,hload ▸ h.load,hload ▸ h.total⟩
  credit t n e h := ⟨h.freeLe,h.load,h.total⟩
  stop t h := ⟨h.freeLe,h.load,h.total⟩
  control t ctl hctl h := by
    rw [hctl]
    exact h

theorem Tx.sendBuffers_settled (cfg : Config Γ) (t : Tx Γ) : (t.sendBuffers cfg).conn.Settled := by
  have hloop : ∀ (ps : List Packet) (x : Tx Γ), x.conn.sndQueue=ps →
      (x.sendLoop cfg ps).conn.Settled := by
    intro ps
    induction ps with
    | nil =>
      intro x hx hne
      exact absurd hx hne
    | cons p rest ih =>
      intro x hx
      rw [sendLoop]
      split_ifs with hmay
      · exact ih (x.sendPacket cfg p rest) rfl
      · intro _
        by_contra hcan
        apply hmay
        have hemp : x.conn.unackQueue=[] := by
          by_contra hne
          exact hcan (.inr hne)
        have hcpc : 0<x.conn.capacity := Nat.pos_of_ne_zero fun hzero => hcan (.inl hzero)
        simp [maySend,hemp,hcpc]
  exact hloop _ t rfl

structure Tx.Idle (c : SndConn) (t : Tx Γ) : Prop where
  capacity : t.conn.capacity=c.capacity
  sndQueue : t.conn.sndQueue=c.sndQueue
  unackQueue : t.conn.unackQueue=c.unackQueue

theorem Tx.ackUpTo_idle (seq : Nat) (ps : List Packet) (h : Tx.Idle c t)
    (hno : (t.ackUpTo cfg seq ps).2=false) : Tx.Idle c (t.ackUpTo cfg seq ps).1 := by
  cases ps with
  | nil => exact h
  | cons p ps =>
    rw [ackUpTo] at hno ⊢
    split_ifs at hno ⊢
    exact h

theorem Tx.ackSingle_idle (seq : Nat) (ps : List Packet) (h : Tx.Idle c t)
    (hno : (t.ackSingle cfg seq ps).2=false) : Tx.Idle c (t.ackSingle cfg seq ps).1 := by
  induction ps with
  | nil => exact h
  | cons p ps ih =>
    rw [Tx.ackSingle] at hno ⊢
    split_ifs at hno ⊢
    · exact ih hno
    · exact h

theorem Tx.disorderLoop_idle (seq : Nat) (ps : List Packet) (lost : List Nat)
    (h : Tx.Idle c t) (hno : (t.disorderLoop cfg seq ps lost).2=false) :
    Tx.Idle c (t.disorderLoop cfg seq ps lost).1 := by
  induction ps generalizing t lost with
  | nil => exact h
  | cons p ps ih =>
    rw [disorderLoop] at hno ⊢
    split_ifs at hno ⊢
    · exact h
    cases hlost : lost.dropWhile (· < p.seq) with
    | nil => exact h
    | cons x xs =>
      rw [hlost] at hno
      dsimp only at hno ⊢
      split_ifs at hno ⊢
      exact ih xs ⟨h.capacity,h.sndQueue,h.unackQueue⟩ hno

theorem Tx.handlePlainAck_idle (a : Ack) (h : Tx.Idle c t)
    (hno : (t.handlePlainAck cfg a).2.1=false) : Tx.Idle c (t.handlePlainAck cfg a).1 := by
  rw [Tx.handlePlainAck] at hno ⊢
  dsimp only at hno ⊢
  have hstop : Tx.Idle c { t with conn := { t.conn with stopRequested := true, stop := true } } :=
    ⟨h.capacity,h.sndQueue,h.unackQueue⟩
  split_ifs at hno ⊢
  · exact h
  · exact hstop
  · exact ackUpTo_idle _ _ hstop hno
  · exact h
  · exact ackUpTo_idle _ _ h hno

theorem Tx.handleAck_idle (a : Ack) (hno : (t.handleAck cfg a).2.1=false) :
    Tx.Idle t.conn (t.handleAck cfg a).1 := by
  have hself : Tx.Idle t.conn t := ⟨rfl,rfl,rfl⟩
  rw [Tx.handleAck] at hno ⊢
  split_ifs at hno ⊢
  · exact handlePlainAck_idle a hself hno
  · rw [Tx.handleAckForDuplicatePkt] at hno ⊢
    split_ifs at hno ⊢
    · exact hself
    · dsimp only at hno ⊢
      rw [Bool.or_eq_false_iff] at hno
      exact ackSingle_idle _ _ (ackUpTo_idle _ _ hself hno.1) hno.2
  · rw [Tx.handleAckForDisorderPkt] at hno ⊢
    dsimp only at hno ⊢
    have hcon : ∀ ctl : Control Γ, Tx.Idle t.conn { t with ctl := ctl } :=
      fun _ => ⟨rfl,rfl,rfl⟩
    split_ifs at hno ⊢
    · exact hcon _
    · exact hcon _
    · cases hfc : cfg.fcMethod with
      | capacity =>
        rw [hfc] at hno
        exact disorderLoop_idle _ _ _ (hcon _) hno
      | loss =>
        rw [hfc] at hno
        have hloop := disorderLoop_idle _ _ _ (hcon _) hno
        exact ⟨hloop.capacity,hloop.sndQueue,hloop.unackQueue⟩
  · exact handlePlainAck_idle a hself hno

theorem Tx.handleAckAndSend_settled (a : Ack) (send : Bool) (h : t.conn.Settled) :
    (t.handleAckAndSend cfg a send).1.conn.Settled := by
  rw [handleAckAndSend]
  dsimp only
  split_ifs with hsend
  · exact sendBuffers_settled cfg _
  · have hno : (t.handleAck cfg a).2.1=false := by
      rw [Bool.or_eq_true,not_or] at hsend
      simpa using hsend.2
    have hidle := handleAck_idle a hno
    rw [SndConn.Settled,hidle.sndQueue,hidle.capacity,hidle.unackQueue]
    exact h

end WarehousePG.Interconnect
