import WarehousePG.Interconnect.Process

namespace WarehousePG.Interconnect

open Framework Function RcvConn List Option

variable {cap : Nat} {queued stored delivered : List Packet} {c : RcvConn}

namespace RcvCore

theorem slot_ne {k : Nat} (hj : c.extraSeq≤j) (hj' : j<c.extraSeq+c.capacity)
    (hk : c.extraSeq≤k) (hk' : k<c.extraSeq+c.capacity) (hne : j≠k) :
    j%c.capacity≠k%c.capacity := by
  intro heq
  exact hne (eq_of_mod_eq heq (by omega) (by omega))

theorem tail_packet (h : RcvCore cap queued stored delivered c) (hlt : c.size<c.capacity)
    (hp : c.pktQ c.tail=some p) : queued[c.extraSeq+c.size]?=some p := by
  rw [h.tail] at hp
  exact h.slot (c.extraSeq+c.size) p (by omega) (by omega) hp

/-- The tail moves over a packet that has arrived. -/
theorem moveTail_step (h : RcvCore cap queued stored delivered c) (hq : StreamInv queued)
    (hsome : (c.pktQ c.tail).isSome) (hlt : c.size<c.capacity) : RcvCore cap queued stored delivered
      { c with
        size := c.size+1
        tail := (c.tail+1)%c.capacity
        seq := add32 c.seq 1 } := by
  obtain ⟨p,hp⟩ := isSome_iff_exists.mp hsome
  have hget := h.tail_packet hlt hp
  have hlen : c.extraSeq+c.size<queued.length := (List.getElem?_eq_some_iff.mp hget).1
  have hshort := hq.short
  have hseq := h.seq
  refine { h with
    sizeLe := hlt
    seq := ?seq
    tail := ?tail
    lengthLe := ?lengthLe
    inQueue := ?inQueue
    contiguous := ?contiguous
    ended := ?ended }
  case seq =>
    show add32 c.seq 1=c.extraSeq+(c.size+1)+1
    rw [add32_eq (by omega)]
    omega
  case tail =>
    show (c.tail+1)%c.capacity=(c.extraSeq+(c.size+1))%c.capacity
    rw [h.tail,Nat.mod_add_mod,add_assoc]
  case lengthLe =>
    show c.extraSeq+(c.size+1)≤queued.length
    omega
  case inQueue =>
    intro k hk hk'
    by_cases hlast : k=c.extraSeq+c.size
    · rw [hlast]
      show (c.pktQ ((c.extraSeq+c.size)%c.capacity)).isSome
      rw [← h.tail]
      exact hsome
    · have hk'' : k<c.extraSeq+c.size := by
        have : k<c.extraSeq+(c.size+1) := hk'
        omega
      exact h.inQueue k hk hk''
  case contiguous =>
    intro q hq'
    have hq'' : q∈queued.take (c.extraSeq+c.size+1) := hq'
    rw [take_add_one,hget,mem_append] at hq''
    obtain hold | hnew := hq''
    · exact h.contiguous q hold
    · have : q=p := by simpa using hnew
      rw [this]
      exact h.slotStored c.tail p hp
  case ended =>
    intro hend
    have := (h.ended hend).1
    omega

theorem moveTail (hq : StreamInv queued) (k : Nat) (hk : c.capacity≤c.size+k)
    (h : RcvCore cap queued stored delivered c) :
    RcvInv cap queued stored delivered (c.moveTail k) := by
  induction k generalizing c with
  | zero =>
    have hfull : ¬c.size<c.capacity := by omega
    exact { h with gap := fun hlt => absurd hlt hfull }
  | succ k ih =>
    rw [moveTail]
    split_ifs with hcond
    · apply ih
      · show c.capacity≤c.size+1+k
        omega
      · exact h.moveTail_step hq hcond.1 hcond.2
    · refine { h with gap := fun hlt => ?_ }
      have hnone : ¬(c.pktQ c.tail).isSome := fun hs => hcond ⟨hs,hlt⟩
      simpa using hnone

attribute [local simp] plainAck

section

variable (h : RcvCore cap queued stored delivered c)
include h

theorem headSeq (hq : StreamInv queued) : sub32 c.seq c.size=c.extraSeq+1 := by
  have hseq := h.seq
  have hlen := h.lengthLe
  have hshort := hq.short
  rw [sub32_eq (by omega) (by omega)]
  omega

theorem expected (hq : StreamInv queued) : sub32 c.seq 1=c.extraSeq+c.size := by
  have hseq := h.seq
  have hlen := h.lengthLe
  have hshort := hq.short
  rw [sub32_eq (by omega) (by omega)]
  omega

theorem stored_of_le {k : Nat} (hk : 0<k)
    (hle : k≤c.extraSeq+c.size) (hq : StreamInv queued) : Stored stored k := by
  have hlen := h.lengthLe
  have hlt : k-1<queued.length := by omega
  have hget : queued[k-1]?=some queued[k-1] := getElem?_eq_getElem hlt
  have hseq := hq.numbered (k-1) _ hget
  have hmem : queued[k-1]∈queued.take (c.extraSeq+c.size) := by
    rw [hq.mem_take_iff (getElem_mem hlt)]
    omega
  exact ⟨queued[k-1],h.contiguous _ hmem,by omega⟩

theorem plainAck (hq : StreamInv queued) : AckInv stored c.extraSeq c.plainAck where
  notStop := by simp [withInfo,h.notRequested]
  plain _ := by simp [withInfo]
  credit _ := Nat.le_refl _
  upTo _ _ k hk hle := by
    have hle' : k ≤ sub32 c.seq 1 := hle
    rw [h.expected hq] at hle'
    exact h.stored_of_le hk hle' hq
  duplicate hd := by simp [withInfo] at hd
  disorder hd := by simp [withInfo] at hd

theorem statusReply (hq : StreamInv queued) : AckInv stored c.extraSeq c.statusReply := by
  have heq : c.statusReply=c.plainAck := by
    have hseq := h.seq
    have hexp := h.expected hq
    simp only [RcvConn.statusReply,RcvConn.plainAck,h.notRequested,hexp]
    rw [if_pos (by omega)]
    simp only [hseq,Nat.add_sub_cancel,Bool.false_eq_true,if_false]
  rw [heq]
  exact h.plainAck hq

/-- A packet is put in its place of the ring. -/
theorem put {k : Nat} {p : Packet}
    (hget : queued[k]?=some p) (hseq : p.seq-1=k) (hlo : c.extraSeq≤k) (hhi : k<c.extraSeq+c.capacity)
    (hemp : c.pktQ (k%c.capacity)=none) : RcvCore cap queued (stored ++ [p]) delivered
      { c with pktQ := update c.pktQ (k%c.capacity) (some p) } := by
  have hot : ∀ i, (c.pktQ i).isSome → i≠k%c.capacity := by
    intro i hi heq
    rw [heq,hemp] at hi
    simp at hi
  refine { h with
    slot := ?slot
    inQueue := ?inQueue
    slotStored := ?slotStored
    storedSlot := ?storedSlot
    contiguous := fun q hq => mem_append_left _ (h.contiguous q hq)
    storedQueued := ?storedQueued
    inHand := ?inHand }
  case slot =>
    intro j q hj hj' hslot
    by_cases hjk : j=k
    · have : p=q := by simpa [hjk] using hslot
      rw [hjk,← this]
      exact hget
    · have hne := slot_ne hj hj' hlo hhi hjk
      have hslot' : c.pktQ (j%c.capacity)=some q := by simpa [hne] using hslot
      exact h.slot j q hj hj' hslot'
  case inQueue =>
    intro j hj hj'
    have hsome := h.inQueue j hj hj'
    simpa [hot _ hsome] using hsome
  case slotStored =>
    intro i q hslot
    rw [mem_append,mem_singleton]
    by_cases hi : i=k%c.capacity
    · right
      simpa [hi,eq_comm] using hslot
    · left
      exact h.slotStored i q (by simpa [hi] using hslot)
  case storedSlot =>
    intro q hq
    rw [mem_append,mem_singleton] at hq
    obtain hold | hnew := hq
    · refine (h.storedSlot q hold).imp_right fun hslot => ?_
      have hne := hot ((q.seq-1)%c.capacity) (by simp [hslot])
      simpa [hne] using hslot
    · right
      rw [hnew,hseq]
      simp
  case storedQueued =>
    intro q hq
    rw [mem_append,mem_singleton] at hq
    obtain hold | hnew := hq
    · exact h.storedQueued q hold
    · rw [hnew]
      exact mem_of_getElem? hget
  case inHand =>
    intro q hq
    have hslot := h.inHand q hq
    have hne := hot c.head (by simp [hslot])
    simpa [hne] using hslot

end

end RcvCore

theorem RcvConn.moveTail_frame (k : Nat) (c : RcvConn) :
    (c.moveTail k).extraSeq=c.extraSeq ∧ (c.moveTail k).capacity=c.capacity ∧
      (c.moveTail k).stopRequested=c.stopRequested ∧
      (c.moveTail k).statCountDropped=c.statCountDropped := by
  induction k generalizing c with
  | zero => simp [moveTail]
  | succ k ih =>
    rw [moveTail]
    split_ifs with hcond
    · simpa using ih _
    · simp

/-- The numbers in a DISORDER message: in ascending order, and between the first one looked at and
any of them only numbers whose slots are filled are left out. -/
theorem RcvConn.lostSeqs_spec (c : RcvConn) (hpos : pos=(limit-1)%c.capacity)
    (hlimit : limit<2^32) (k start tailSeq room : Nat)
    (hstart : start=(tailSeq-1)%c.capacity) (hone : 1≤tailSeq) (hle : tailSeq≤limit) :
    let lost := c.lostSeqs pos k start tailSeq room
    (∀ x∈lost, tailSeq≤x ∧ x<limit) ∧ lost.Pairwise (· < ·) ∧
      ∀ x∈lost, ∀ m, tailSeq ≤ m → m<x → m∉lost → (c.pktQ ((m-1)%c.capacity)).isSome := by
  induction k generalizing start tailSeq room with
  | zero => simp [lostSeqs]
  | succ k ih =>
    rw [lostSeqs]
    split_ifs with hstop
    · simp
    · have hlt : tailSeq<limit := by
        by_contra hge
        have : tailSeq=limit := by omega
        exact hstop (.inl (by rw [hstart,hpos,this]))
      have hadd : add32 tailSeq 1=tailSeq+1 := add32_eq (by omega)
      have hnext : (start+1)%c.capacity=(tailSeq+1-1)%c.capacity := by
        rw [hstart,Nat.mod_add_mod]
        congr 1
        omega
      rw [hadd]
      cases hslot : c.pktQ start with
      | none =>
        obtain ⟨hrng,hsorted,hfilled⟩ :=
          ih ((start+1)%c.capacity) (tailSeq+1) (room-1) hnext (by omega) (by omega)
        refine ⟨?_,?_,?_⟩
        · intro x hx
          obtain hnew | hold := mem_cons.mp hx
          · omega
          ·
            have := hrng x hold
            omega
        · rw [pairwise_cons]
          refine ⟨fun x hx => ?_,hsorted⟩
          have := hrng x hx
          omega
        · intro x hx m hm hmx hnot
          have hne : m≠tailSeq := fun heq => hnot (by rw [heq]; exact mem_cons_self)
          obtain hnew | hold := mem_cons.mp hx
          · omega
          · exact hfilled x hold m (by omega) hmx fun hin => hnot (mem_cons_of_mem _ hin)
      | some q =>
        obtain ⟨hrng,hsorted,hfilled⟩ :=
          ih ((start+1)%c.capacity) (tailSeq+1) room hnext (by omega) (by omega)
        refine ⟨fun x hx => ?_,hsorted,?_⟩
        · have := hrng x hx
          omega
        · intro x hx m hm hmx hnot
          by_cases heq : m=tailSeq
          · rw [heq,← hstart,hslot]
            rfl
          · exact hfilled x hx m (by omega) hmx hnot

namespace RcvInv

/-- A packet that the list of missing ones leaves out is stored. -/
theorem disorderAck (h : RcvCore cap queued stored delivered c) (hq : StreamInv queued)
    (hp : p∈queued) (hs : p∈stored) (hlo : c.extraSeq+c.size<p.seq)
    (hhi : p.seq≤c.extraSeq+c.capacity) : AckInv stored c.extraSeq
      (c.handleDisorderPacket ((p.seq-1)%c.capacity) (c.extraSeq+c.size+1) p) := by
  have hshort := hq.short
  have hle := hq.seq_le hp
  have hstart : c.tail=(c.extraSeq+c.size+1-1)%c.capacity := h.tail
  obtain ⟨hrng,hsorted,hfilled⟩ :=
    c.lostSeqs_spec rfl (by omega : p.seq<2^32) c.capacity c.tail (c.extraSeq+c.size+1)
      maxSeqsInDisorderAck hstart (by omega) (by omega)
  constructor
  case notStop => simp [handleDisorderPacket,withInfo,h.notRequested]
  case disorder =>
    intro _
    refine ⟨⟨p,hs,rfl⟩,hsorted,?_⟩
    intro x hx k hk hlt hnot
    by_cases hbef : k≤c.extraSeq+c.size
    · exact h.stored_of_le hk hbef hq
    · have hsome := hfilled x hx k (by omega) hlt hnot
      obtain ⟨q,hslot⟩ := isSome_iff_exists.mp hsome
      have hxlt := (hrng x hx).2
      have hget := h.slot (k-1) q (by omega) (by omega) hslot
      have hseq := hq.numbered (k-1) q hget
      exact ⟨q,h.slotStored _ q hslot,by omega⟩
  all_goals simp [handleDisorderPacket,withInfo]

section

variable (h : RcvInv cap queued stored delivered c)
include h

theorem storePacket (hq : StreamInv queued)
    (hp : p∈queued) (hlo : c.extraSeq+c.size<p.seq) (hhi : p.seq≤c.extraSeq+c.capacity)
    (hemp : c.pktQ ((p.seq-1)%c.capacity)=none) :
    let r := c.storePacket ((p.seq-1)%c.capacity) (c.extraSeq+1) p
    RcvInv cap queued (stored ++ [p]) delivered r.1 ∧ AckInv (stored ++ [p]) c.extraSeq r.2 ∧
      r.1.extraSeq=c.extraSeq := by
  have hget := hq.getElem?_seq hp
  have hput := h.put hget rfl (by omega) (by omega) hemp
  rw [RcvConn.storePacket]
  dsimp only
  split_ifs with htail
  · have hmov := hput.moveTail hq (c.capacity-c.size) (by have := h.sizeLe; dsimp only; omega)
    obtain ⟨hext,-,-,-⟩ := moveTail_frame (c.capacity-c.size)
      { c with pktQ := update c.pktQ ((p.seq-1)%c.capacity) (some p) }
    generalize moveTail (c.capacity-c.size)
      { c with pktQ := update c.pktQ ((p.seq-1)%c.capacity) (some p) }=moved
      at hmov hext
    have hflag : RcvInv cap queued (stored ++ [p]) delivered
        { moved with eos := moved.eos || moved.lastIsEos } := { hmov with }
    have hack := hflag.plainAck hq
    refine ⟨hflag,?_,hext⟩
    rw [← hext]
    exact hack
  · have hwin : (p.seq-1)%c.capacity≠c.tail := htail
    have hlen := h.lengthLe
    have hshort := hq.short
    have hle := hq.seq_le hp
    rw [add32_eq (by omega),Nat.add_right_comm]
    refine ⟨{ hput with gap := fun hlt => ?_ },?_,rfl⟩
    · simpa [hwin.symm] using h.gap hlt
    · exact disorderAck hput hq hp (mem_append_right _ (mem_singleton_self p)) hlo hhi

/-- A data packet is stored, or dropped as a duplicate or out of the window. -/
theorem handleDataPacket (hq : StreamInv queued) (hp : p∈queued) {ack : Option Ack} {kept : Bool}
    (hres : c.handleDataPacket p=(c', ack, kept)) :
    RcvInv cap queued (if kept then stored ++ [p] else stored) delivered c' ∧
      (∀ a∈ack, AckInv (if kept then stored ++ [p] else stored) c.extraSeq a) ∧
      c'.extraSeq=c.extraSeq := by
  have hstop := hq.notStop p hp
  have hle := hq.seq_le hp
  have hpos := hq.seq_pos hp
  have hshort := hq.short
  have hseq := h.seq
  have hlen := h.lengthLe
  have hsub : sub32 p.seq 1=p.seq-1 := sub32_eq hpos (by omega)
  rw [RcvConn.handleDataPacket,if_neg (by simp [hstop]),if_neg (by simp [h.notRequested]),
    h.headSeq hq,hsub] at hres
  by_cases hold : p.seq<c.seq
  · -- An old packet: the acknowledgement may have been lost.
    rw [if_pos hold] at hres
    obtain ⟨rfl,rfl,rfl⟩ := hres
    refine ⟨h,fun a ha => ?_,rfl⟩
    obtain rfl : c.plainAck=a := by simpa using ha
    exact h.plainAck hq
  -- After the end of the stream every packet is an old one.
  have hactive : c.stillActive≠false := by
    intro hinac
    have := (h.ended hinac).1
    omega
  rw [if_neg hold,if_neg hactive] at hres
  dsimp only at hres
  split_ifs at hres with hfull
  · obtain ⟨rfl,rfl,rfl⟩ := hres
    exact ⟨{ h with },by simp,rfl⟩
  · have hwin : p.seq≤c.extraSeq+c.capacity := by
      rw [sub32_eq (by omega) (by omega)] at hfull
      omega
    cases hslot : c.pktQ ((p.seq-1)%c.capacity) with
    | none =>
      rw [hslot] at hres
      obtain ⟨hinv,hack,hext⟩ := h.storePacket hq hp (by omega) hwin hslot
      obtain ⟨rfl,rfl,rfl⟩ := hres
      refine ⟨hinv,fun a ha => ?_,hext⟩
      cases ha
      exact hack
    | some q =>
      rw [hslot] at hres
      obtain ⟨rfl,rfl,rfl⟩ := hres
      refine ⟨h,fun a ha => ?_,rfl⟩
      cases ha
      have hget := h.slot (p.seq-1) q (by omega) (by omega) hslot
      have hqseq := hq.numbered _ q hget
      constructor
      case notStop => simp [withInfo,h.notRequested]
      case duplicate =>
        intro _
        refine ⟨⟨q,h.slotStored _ q hslot,by dsimp only; omega⟩,fun k hk hkle => ?_⟩
        have hkle' : k ≤ sub32 c.seq 1 := hkle
        rw [h.expected hq] at hkle'
        exact h.stored_of_le hk hkle' hq
      all_goals simp [withInfo]

theorem head_packet (hp : c.pktQ c.head=some p) : queued[c.extraSeq]?=some p ∧ 0<c.size := by
  have hpos := h.positive
  have hget := h.slot c.extraSeq p (by omega) (by omega) (by rw [← h.head]; exact hp)
  refine ⟨hget,?_⟩
  by_contra hzero
  have hsize : c.size=0 := by omega
  have hnone := h.gap (by omega)
  rw [h.tail,hsize,add_zero,← h.head,hp] at hnone
  cases hnone

theorem prepareRxConnForRead (hres : c.prepareRxConnForRead=some (c', p)) :
    RcvInv cap queued stored (delivered ++ [p]) c' ∧ c'.extraSeq=c.extraSeq := by
  obtain ⟨hnone,q,hslot,heq⟩ := of_guard_map hres
  obtain ⟨rfl,rfl⟩ := Prod.mk.inj heq
  obtain ⟨hget,-⟩ := h.head_packet hslot
  refine ⟨{ h with delivered := ?_, inHand := ?_ },rfl⟩
  · have htak : delivered=queued.take c.extraSeq := by simpa [hnone] using h.delivered
    show delivered ++ [q]=queued.take (c.extraSeq+1)
    rw [htak,take_add_one,hget]
    rfl
  · intro p hp
    obtain rfl : q=p := by simpa using hp
    exact hslot

theorem markInactive (hq : StreamInv queued) (hres : c.markInactive=some c') :
    RcvInv cap queued stored delivered c' ∧ c'.extraSeq=c.extraSeq := by
  rw [RcvConn.markInactive] at hres
  split at hres
  case h_1 p hbuff =>
    obtain ⟨heos,rfl⟩ := of_guard hres
    obtain ⟨hget,hsize⟩ := h.head_packet (h.inHand p hbuff)
    have hlast := hq.eosLast _ p hget heos
    have hlen := h.lengthLe
    refine ⟨{ h with ended := fun _ => ⟨?_,p,mem_of_getElem? hget,heos⟩ },rfl⟩
    show c.extraSeq+c.size=queued.length
    omega
  case h_2 => cases hres

/-- A consumed packet frees its place and is acknowledged. -/
theorem putRxBufferAndSendAck (hq : StreamInv queued)
    {ack : Option Ack} (hres : c.putRxBufferAndSendAck=some (c', ack)) :
    RcvInv cap queued stored delivered c' ∧ (∀ a∈ack, AckInv stored c'.extraSeq a) ∧
      c.extraSeq≤c'.extraSeq := by
  cases hbuff : c.pBuff with
  | none => simp [RcvConn.putRxBufferAndSendAck,hbuff] at hres
  | some p =>
    have hslot := h.inHand p hbuff
    obtain ⟨hget,hsize⟩ := h.head_packet hslot
    have hseq := hq.numbered _ p hget
    have hpos := h.positive
    have hsizeLe := h.sizeLe
    have hinv : RcvInv cap queued stored delivered
        { c with
          pktQ := update c.pktQ c.head none
          pBuff := none
          head := (c.head+1)%c.capacity
          size := c.size-1
          extraSeq := p.seq } := by
      have hcnt : p.seq+(c.size-1)=c.extraSeq+c.size := by omega
      constructor
      case toRcvCore =>
        refine { h with
          sizeLe := ?sizeLe
          seq := ?seq
          head := ?head
          tail := ?tail
          lengthLe := ?lengthLe
          slot := ?slot
          inQueue := ?inQueue
          slotStored := ?slotStored
          storedSlot := ?storedSlot
          contiguous := ?contiguous
          delivered := ?handed
          inHand := fun q hq => nomatch hq
          ended := ?ended }
        case sizeLe =>
          dsimp only
          omega
        case seq =>
          have := h.seq
          dsimp only
          omega
        case head =>
          show (c.head+1)%c.capacity=p.seq%c.capacity
          rw [h.head,hseq,Nat.mod_add_mod]
        case tail =>
          show c.tail=(p.seq+(c.size-1))%c.capacity
          rw [hcnt]
          exact h.tail
        case lengthLe =>
          show p.seq+(c.size-1)≤queued.length
          rw [hcnt]
          exact h.lengthLe
        case slot =>
          intro k q hk hk' hq'
          have hne : k%c.capacity≠c.head := by
            intro heq
            simp [heq] at hq'
          have hq'' : c.pktQ (k%c.capacity)=some q := by simpa [hne] using hq'
          have hbound : k<c.extraSeq+1+c.capacity := by
            have : k<p.seq+c.capacity := hk'
            omega
          have hlast : k≠c.extraSeq+c.capacity := by
            intro heq
            apply hne
            rw [heq,Nat.add_mod_right,h.head]
          have hlo : p.seq≤k := hk
          exact h.slot k q (by omega) (by omega) hq''
        case inQueue =>
          intro k hk hk'
          have hlo : p.seq≤k := hk
          have hhi : k<p.seq+(c.size-1) := hk'
          have hne : k%c.capacity≠c.head := by
            rw [h.head]
            exact RcvCore.slot_ne (by omega) (by omega) (by omega) (by omega) (by omega)
          simpa [hne] using h.inQueue k (by omega) (by omega)
        case slotStored =>
          intro i q hi
          by_cases hhead : i=c.head
          · simp [hhead] at hi
          · exact h.slotStored i q (by simpa [hhead] using hi)
        case storedSlot =>
          intro q hq'
          obtain hold | hkept := h.storedSlot q hq'
          · left
            show q.seq≤p.seq
            omega
          · by_cases hhead : (q.seq-1)%c.capacity=c.head
            · rw [hhead,hslot] at hkept
              cases hkept
              exact Or.inl (Nat.le_refl _)
            · right
              simpa [hhead] using hkept
        case contiguous =>
          show ∀ q∈queued.take (p.seq+(c.size-1)), q∈stored
          rw [hcnt]
          exact h.contiguous
        case handed =>
          have htak : delivered=queued.take (c.extraSeq+1) := by
            simpa [hbuff] using h.delivered
          rw [htak,← hseq]
          rfl
        case ended =>
          intro hend
          have hended := h.ended hend
          refine ⟨?_,hended.2⟩
          show p.seq+(c.size-1)=queued.length
          rw [hcnt]
          exact hended.1
      case gap =>
        intro _
        by_cases hfull : c.size=c.capacity
        · have htail : c.tail=c.head := by rw [h.tail,hfull,Nat.add_mod_right,h.head]
          simp [htail]
        · have hnone := h.gap (by omega)
          by_cases htail : c.tail=c.head
          · simp [htail]
          · simpa [htail] using hnone
    have hle : c.extraSeq≤p.seq := by omega
    rw [RcvConn.putRxBufferAndSendAck,hbuff,hslot] at hres
    dsimp only at hres
    split_ifs at hres with heven
    · obtain ⟨rfl,rfl⟩ := Prod.mk.inj (some.inj hres)
      refine ⟨hinv,fun a ha => ?_,hle⟩
      cases ha
      exact hinv.plainAck hq
    · obtain ⟨rfl,rfl⟩ := Prod.mk.inj (some.inj hres)
      exact ⟨hinv,by simp,hle⟩

end

end RcvInv

end WarehousePG.Interconnect
