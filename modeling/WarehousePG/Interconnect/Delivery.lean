import WarehousePG.Interconnect.SysSteps

namespace WarehousePG.Interconnect

open Framework Function List
open Option (ite_none_right_eq_some map_eq_some_iff)

variable {n depth : Nat} {caps : Fin n → Nat} {Γ : Type*} {cfg : Config Γ} {s t : Sys n Γ} {i : Fin n}

theorem LinkInv.delivered_first (h : LinkInv depth cap l) :
    l.delivered <+: l.queued ∧ l.delivered.Nodup := by
  have hfirst : l.delivered <+: l.queued := by
    rw [h.rcv.delivered]
    exact take_prefix _ _
  have hnd : l.queued.Nodup := by
    apply h.stream.sorted.imp
    intro p q hlt heq
    rw [heq] at hlt
    omega
  exact ⟨hfirst,hnd.sublist hfirst.sublist⟩

theorem LinkInv.stored_of_drained (h : LinkInv depth cap l)
    (hunack : l.snd.unackQueue=[]) (hsnd : l.snd.sndQueue=[]) : ∀ p∈l.queued, p∈l.stored := by
  have hall : l.queued.length≤l.snd.sentSeq := by
    apply drop_eq_nil_iff.mp
    rw [← h.snd.sndQueue,hsnd]
  intro p hp
  have hacc := h.snd.accounted p
  rw [take_of_length_le hall,hunack] at hacc
  simpa using hacc hp

namespace Sys

def CallOk (s : Sys n Γ) : Prop :=
  match s.call with
  | .idle | .chunk .. | .broadcast .. => ∀ j, (s.links j).snd.eos=false
  | .flush rest active =>
    rest.Nodup ∧ (∀ j∈rest, (s.links j).snd.eos=false) ∧
      (active=0 → ∀ j, j∉rest → (s.links j).snd.stillActive=false)
  | .drain rest _ active => active=0 → ∀ j, j∉rest → (s.links j).snd.stillActive=false
  | .closed => ∀ j, (s.links j).snd.stillActive=false

/-- A connection that is finished has empty queues, and the connection looked at meets its invariant
as long as its packets are few enough. -/
structure ConnsOk (depth : Nat) (caps : Fin n → Nat) (i : Fin n) (s : Sys n Γ) : Prop where
  finished : ∀ j, (s.links j).snd.stillActive=false →
    (s.links j).snd.unackQueue=[] ∧ (s.links j).snd.sndQueue=[]
  link : (s.links i).queued.length+1<2^32 → LinkInv depth (caps i) (s.links i)

theorem CallOk.quiet (h : s.CallOk) (hq : Quiet depth caps s t) : t.CallOk := by
  unfold CallOk at h ⊢
  simp only [hq.call,(hq.keeps _).eos,(hq.keeps _).stillActive]
  exact h

variable {j : Fin n}

section

variable (h : ConnsOk depth caps i s)
include h

theorem ConnsOk.quiet (hq : Quiet depth caps s t) : ConnsOk depth caps i t where
  finished j hj := by
    rw [(hq.keeps j).stillActive] at hj
    exact (hq.keeps j).drained (h.finished j hj).1 (h.finished j hj).2
  link hshort := by
    rw [(hq.keeps i).queued] at hshort
    exact hq.link i (h.link hshort)

theorem ConnsOk.notEnded (hopen : (s.links j).snd.eos=false)
    (hij : i=j) (hshort : (s.links j).queued.length+2<2^32) :
    ∀ p∈(s.links j).queued, p.eos=false := by
  subst hij
  intro p hp
  have heos := (h.link (by omega)).snd.eos p hp
  rw [hopen] at heos
  simpa using heos

theorem ConnsOk.withCall (call : Call n) : ConnsOk depth caps i { s with call := call } :=
  ⟨h.finished,h.link⟩

theorem ConnsOk.setLink
    (hfin : l.snd.stillActive=false → l.snd.unackQueue=[] ∧ l.snd.sndQueue=[])
    (hlen : (s.links j).queued.length≤l.queued.length)
    (hlink : i=j → l.queued.length+1<2^32 → LinkInv depth (caps j) (s.links j) →
      LinkInv depth (caps j) l) (ctl : Control Γ) (call : Call n) :
    ConnsOk depth caps i { s.setLink j l with ctl := ctl, call := call } where
  finished k hk := by
    by_cases hkj : k=j
    · rw [hkj] at hk ⊢
      simp only [Sys.setLink,update_self] at hk ⊢
      exact hfin hk
    · simp only [Sys.setLink,update_of_ne hkj] at hk ⊢
      exact h.finished k hk
  link hshort := by
    by_cases hij : i=j
    · subst hij
      simp only [Sys.setLink,update_self] at hshort ⊢
      exact hlink rfl hshort (h.link (by omega))
    · simp only [Sys.setLink,update_of_ne hij] at hshort ⊢
      exact h.link hshort

end

attribute [local simp] Sys.setLink setLink

theorem flushBuffer_eq (cfg : Config Γ) (s : Sys n Γ) (j : Fin n) (payload : List UInt8) :
    let r := (s.tx j).queueBuffer payload
    let x := r.1.sendBuffers cfg
    s.flushBuffer cfg j payload={ s.setLink j { s.links j with
      snd := x.conn
      toReceiver := (s.links j).toReceiver ++ x.out
      queued := (s.links j).queued ++ [r.2] } with ctl := x.ctl } := by
  simp [flushBuffer,putTx]

theorem flushBuffer_flags (cfg : Config Γ) (s : Sys n Γ) (j k : Fin n) (payload : List UInt8) :
    ((s.flushBuffer cfg j payload).links k).snd.eos=(s.links k).snd.eos ∧
      ((s.flushBuffer cfg j payload).links k).snd.stillActive=(s.links k).snd.stillActive := by
  rw [flushBuffer_eq]
  by_cases hk : k=j
  · subst hk
    have hkeeps := (Tx.keeps_closed cfg ((s.tx k).queueBuffer payload).1.conn).sendBuffers
      (Tx.Keeps.refl ((s.tx k).queueBuffer payload).1)
    simp only [setLink,update_self]
    exact ⟨hkeeps.eos,hkeeps.stillActive⟩
  · simp [hk]

theorem ConnsOk.flushBuffer (h : ConnsOk depth caps i s) (payload : List UInt8)
    (hactive : (s.links j).snd.stillActive)
    (hno : i=j → (s.links j).queued.length+2<2^32 → ∀ p∈(s.links j).queued, p.eos=false)
    (call : Call n) : ConnsOk depth caps i { s.flushBuffer cfg j payload with call := call } := by
  have hflags := (flushBuffer_flags cfg s j j payload).2
  rw [flushBuffer_eq] at hflags ⊢
  simp only [Sys.setLink,update_self] at hflags
  refine h.setLink ?_ ?_ ?_ _ call
  · intro hinac
    rw [hflags,hactive] at hinac
    cases hinac
  · simp
  · intro hij hshort hl
    have hlen : (s.links j).queued.length+2<2^32 := by simpa [length_append] using hshort
    exact hl.flushBuffer (hno hij hlen) hlen s.ctl payload

theorem ConnsOk.setCurBuff (h : ConnsOk depth caps i s) (j : Fin n) (curBuff : Option (List UInt8))
    (ctl : Control Γ) (call : Call n) : ConnsOk depth caps i { s.setLink j { s.links j with
      snd := { (s.links j).snd with curBuff := curBuff } } with ctl := ctl, call := call } := by
  apply h.setLink
  · exact h.finished j
  · exact Nat.le_refl _
  · exact fun _ _ hl => { hl with snd := { hl.snd with } }

variable {a : Action n}

theorem netStep_snd (hl : netStep l a=some l') : l'.snd=l.snd := by
  cases a with
  | loseData j k | loseAck j k =>
    obtain ⟨-,rfl⟩ := of_guard hl
    rfl
  | duplicateData j k | duplicateAck j k =>
    obtain ⟨d,-,rfl⟩ := map_eq_some_iff.mp hl
    rfl
  | _ => exact absurd hl (by simp [Sys.netStep])

theorem Link.Keeps.netStep (hl : netStep l a=some l') : Link.Keeps l l' := by
  cases a with
  | loseData j k | loseAck j k =>
    obtain ⟨-,rfl⟩ := of_guard hl
    exact { Link.Keeps.refl l with }
  | duplicateData j k | duplicateAck j k =>
    obtain ⟨d,-,rfl⟩ := map_eq_some_iff.mp hl
    exact { Link.Keeps.refl l with }
  | _ => exact absurd hl (by simp [Sys.netStep])

theorem netStep_quiet
    (h : (netStep (s.links j) a).map (s.setLink j)=some t) : Quiet depth caps s t := by
  obtain ⟨l,hl,rfl⟩ := map_eq_some_iff.mp h
  have hsnd := netStep_snd hl
  refine Quiet.setLink (Link.Keeps.netStep hl) (fun hj => hj.netStep hl) ?_ s.ctl ?_ ?_
  · rw [hsnd]
    exact fun _ p hp => .inl hp
  · rw [hsnd]
    exact SndConn.Frees.refl _ _
  · rw [hsnd]
    exact fun h => h

theorem rcvStep_snd (hl : rcvStep l a=some l') : l'.snd=l.snd ∧ l'.queued=l.queued := by
  cases a with
  | receive j k | read j | markInactive j | putRxBuffer j =>
    obtain ⟨r,-,rfl⟩ := map_eq_some_iff.mp hl
    exact ⟨rfl,rfl⟩
  | _ => exact absurd hl (by simp [Sys.rcvStep])

theorem rcvStep_inv (hc : s.CallOk) (h : ConnsOk depth caps i s)
    (ht : (rcvStep (s.links j) a).map (s.setLink j)=some t) :
    t.CallOk ∧ ConnsOk depth caps i t := by
  obtain ⟨l,hl,rfl⟩ := map_eq_some_iff.mp ht
  obtain ⟨hsnd,hqd⟩ := rcvStep_snd hl
  have hall : ∀ k, ((s.setLink j l).links k).snd=(s.links k).snd := by
    intro k
    by_cases hk : k=j
    · simp [hk,hsnd]
    · simp [hk]
  constructor
  · unfold CallOk at hc ⊢
    simp only [hall]
    exact hc
  · apply h.setLink
    · rw [hsnd]
      exact h.finished j
    · exact Nat.le_of_eq (by rw [hqd])
    · exact fun _ _ hj => hj.rcvStep hl

variable {broadcast : Option (List (Fin n))}

theorem startChunk_inv (hopen : ∀ k, (s.links k).snd.eos=false) (h : ConnsOk depth caps i s)
    (hactive : (s.links j).snd.stillActive)
    (hdone : ∀ u : Sys n Γ, (∀ k, (u.links k).snd.eos=false) → CallOk { u with call := done })
    (ht : s.startChunk cfg j chunk late broadcast done=some t) :
    t.CallOk ∧ ConnsOk depth caps i t := by
  rw [startChunk] at ht
  split at ht
  case h_1 => cases ht
  case h_2 payload hcur =>
    split_ifs at ht with hfits
    · cases ht
      refine ⟨hdone _ fun k => ?_,h.setCurBuff j _ s.ctl _⟩
      by_cases hk : k=j
      · simp [hk,hopen j]
      · simp [hk,hopen k]
    · cases ht
      refine ⟨fun k => ?_,h.flushBuffer payload hactive (h.notEnded (hopen j)) _⟩
      exact (flushBuffer_flags cfg s j k payload).1.trans (hopen k)

variable {rest : List (Fin n)}

theorem flushEos_inv
    (hcall : s.call=.flush (j::rest) active) (hc : s.CallOk) (h : ConnsOk depth caps i s)
    (hactive : (s.links j).snd.stillActive) :
    let u := s.setLink j { s.links j with snd := { (s.links j).snd with eos := true } }
    let v : Sys n Γ := { u.flushBuffer cfg j payload with call := .flush rest (active+1) }
    v.CallOk ∧ ConnsOk depth caps i v := by
  intro u v
  rw [CallOk,hcall] at hc
  obtain ⟨hnd,hopen,-⟩ := hc
  obtain ⟨hnot,hnd⟩ := nodup_cons.mp hnd
  constructor
  · refine ⟨hnd,fun k hk => ?_,fun hzero => absurd hzero (by omega)⟩
    have hkj : k≠j := fun heq => hnot (heq ▸ hk)
    have hflag : (u.links k).snd.eos=false := by
      simpa [u,hkj] using hopen k (mem_cons_of_mem _ hk)
    exact (flushBuffer_flags cfg u j k payload).1.trans hflag
  · have hu : ConnsOk depth caps i u := by
      apply h.setLink
      · exact h.finished j
      · exact Nat.le_refl _
      · exact fun _ _ hl => { hl with snd := { hl.snd with eos := fun _ _ _ => rfl } }
    have hlink : (u.links j).queued=(s.links j).queued := by simp [u]
    apply hu.flushBuffer
    · simpa [u] using hactive
    · rw [hlink]
      exact h.notEnded (hopen j mem_cons_self)

theorem leaveConn_inv (hdone : active=0 → ∀ k, k∉j::rest → (s.links k).snd.stillActive=false)
    (h : ConnsOk depth caps i s) :
    (s.leaveConn j rest active).CallOk ∧ ConnsOk depth caps i (s.leaveConn j rest active) := by
  rw [leaveConn]
  split_ifs with hdrn
  · simp only [drained,Bool.and_eq_true,List.isEmpty_iff] at hdrn
    constructor
    · intro hzero k hk
      by_cases hkj : k=j
      · simp [hkj]
      · simpa [hkj] using hdone hzero k (by simp [hkj,hk])
    · apply h.setLink
      · exact fun _ => hdrn
      · exact Nat.le_refl _
      · exact fun _ _ hl => { hl with snd := { hl.snd with } }
  · exact ⟨fun hzero => absurd hzero (by omega),h.withCall _⟩

section

variable (hc : s.CallOk) (h : ConnsOk depth caps i s)
include hc h

/-- One step of sending the end of stream. -/
theorem eosStep_inv (ht : s.eosStep cfg late=some t) : t.CallOk ∧ ConnsOk depth caps i t := by
  rw [eosStep] at ht
  split at ht
  case h_1 chunk j rest hcall =>
    rw [CallOk,hcall] at hc
    split_ifs at ht with hactive
    · refine startChunk_inv hc h hactive ?_ ht
      exact fun _ hopen => hopen
    · cases ht
      exact ⟨hc,h.withCall _⟩
  case h_2 hcall =>
    rw [CallOk,hcall] at hc
    cases ht
    refine ⟨⟨nodup_finRange n,fun j _ => hc j,fun _ j hj => ?_⟩,h.withCall _⟩
    exact absurd (mem_finRange j) hj
  case h_3 j rest active hcall =>
    dsimp only at ht
    split_ifs at ht with hactive
    · obtain ⟨payload,-,rfl⟩ := map_eq_some_iff.mp ht
      exact flushEos_inv hcall hc h hactive
    · cases ht
      rw [CallOk,hcall] at hc
      obtain ⟨hnd,hopen,hzero⟩ := hc
      refine ⟨⟨(nodup_cons.mp hnd).2,
        fun k hk => hopen k (mem_cons_of_mem _ hk),fun hz k hk => ?_⟩,h.withCall _⟩
      by_cases hkj : k=j
      · rw [hkj]
        simpa using hactive
      · exact hzero hz k (by simp [hkj,hk])
  case h_4 active hcall =>
    rw [CallOk,hcall] at hc
    cases ht
    refine ⟨?_,h.withCall _⟩
    split_ifs with hpos
    · exact fun _ j hj => absurd (mem_finRange j) hj
    · exact fun j => hc.2.2 (by omega) j (by simp)
  case h_5 active hcall =>
    rw [CallOk,hcall] at hc
    cases ht
    refine ⟨?_,h.withCall _⟩
    split_ifs with hpos
    · exact fun _ j hj => absurd (mem_finRange j) hj
    · exact fun j => hc (by omega) j (by simp)
  case h_6 j rest retry active hcall =>
    rw [CallOk,hcall] at hc
    split_ifs at ht with hinac hdrn
    · cases ht
      refine ⟨fun hz k hk => ?_,h.withCall _⟩
      by_cases hkj : k=j
      · rw [hkj]
        exact hinac
      · exact hc hz k (by simp [hkj,hk])
    · cases ht
      exact leaveConn_inv hc h
  case h_7 => cases ht

theorem wait_inv (ht : s.wait cfg arrived expired due=some t) :
    t.CallOk ∧ ConnsOk depth caps i t := by
  rw [wait] at ht
  split at ht
  case h_1 j chunk retry late stops broadcast hcall =>
    obtain ⟨-,⟨u,stops'⟩,hu,rfl⟩ := of_guard_map ht
    obtain ⟨hqt,-⟩ := turn_quiet hu
    have huc := hc.quiet hqt
    rw [CallOk,hqt.call,hcall] at huc
    exact ⟨huc,(h.quiet hqt).withCall _⟩
  case h_2 j rest retry active hcall =>
    obtain ⟨-,⟨u,stops'⟩,hu,rfl⟩ := of_guard_map ht
    obtain ⟨hqt,-⟩ := turn_quiet hu
    have huc := hc.quiet hqt
    rw [CallOk,hqt.call,hcall] at huc
    split_ifs
    · exact leaveConn_inv huc (h.quiet hqt)
    · exact ⟨huc,(h.quiet hqt).withCall _⟩
  case h_3 => cases ht

theorem getBuffer_inv (ht : s.getBuffer cfg=some t) : t.CallOk ∧ ConnsOk depth caps i t := by
  rw [getBuffer] at ht
  split at ht
  case h_1 j chunk retry broadcast hcall =>
    obtain ⟨ctl,-,rfl⟩ := map_eq_some_iff.mp ht
    rw [CallOk,hcall] at hc
    refine ⟨?_,h.setCurBuff j (some chunk) ctl _⟩
    have hopen : ∀ k, (update s.links j { s.links j with
        snd := { (s.links j).snd with curBuff := some chunk } } k).snd.eos=false := by
      intro k
      by_cases hk : k=j
      · simp [hk,hc j]
      · simp [hk,hc k]
    cases broadcast with
    | none | some rest => exact hopen
  case h_2 => cases ht

/-- Every step keeps the calls and the connections in order. -/
theorem step_inv (ht : s.step cfg a=some t) : t.CallOk ∧ ConnsOk depth caps i t := by
  cases a with
  | loseData j k | duplicateData j k | loseAck j k | duplicateAck j k =>
    have hqt : Quiet depth caps s t := netStep_quiet ht
    exact ⟨hc.quiet hqt,h.quiet hqt⟩
  | receive j k | read j | markInactive j | putRxBuffer j => exact rcvStep_inv hc h ht
  | sendChunk j chunk late =>
    rw [step] at ht
    split at ht
    case h_1 hcall =>
      rw [CallOk,hcall] at hc
      obtain ⟨hactive,ht⟩ := ite_none_right_eq_some.mp ht
      refine startChunk_inv hc h hactive ?_ ht
      exact fun _ hopen => hopen
    case h_2 => cases ht
  | wait arrived expired due => exact wait_inv hc h ht
  | getBuffer => exact getBuffer_inv hc h ht
  | sendEos chunk =>
    rw [step] at ht
    split at ht
    case h_1 hcall =>
      rw [CallOk,hcall] at hc
      cases ht
      exact ⟨hc,h.withCall _⟩
    case h_2 => cases ht
  | eosStep late => exact eosStep_inv hc h ht

end

/-- The rest of a step of the process: packets are queued at the end of a stream, and no packet is
acknowledged. -/
structure Grows (s t : Sys n Γ) : Prop where
  queued : ∀ i, (s.links i).queued <+: (t.links i).queued
  unack : ∀ i, (s.links i).snd.unackQueue⊆(t.links i).snd.unackQueue

namespace Grows

theorem refl (s : Sys n Γ) : Grows s s := ⟨fun _ => prefix_rfl,fun _ => List.Subset.refl _⟩

theorem trans (h : Grows s t) (h' : Grows t u) : Grows s u :=
  ⟨fun i => (h.queued i).trans (h'.queued i),fun i => List.Subset.trans (h.unack i) (h'.unack i)⟩

theorem withCall (h : Grows s t) (call : Call n) : Grows s { t with call := call } :=
  ⟨h.queued,h.unack⟩

theorem setLink (hqd : (s.links j).queued <+: l.queued)
    (hunack : (s.links j).snd.unackQueue⊆l.snd.unackQueue) (ctl : Control Γ) (call : Call n) :
    Grows s { s.setLink j l with ctl := ctl, call := call } where
  queued i := by
    by_cases hij : i=j
    · rw [hij]
      simpa using hqd
    · simp [hij]
  unack i := by
    by_cases hij : i=j
    · rw [hij]
      simpa using hunack
    · simp [hij]

theorem setSnd (j : Fin n) (c : SndConn) (hc : (s.links j).snd.unackQueue=c.unackQueue)
    (ctl : Control Γ) (call : Call n) :
    Grows s { s.setLink j { s.links j with snd := c } with ctl := ctl, call := call } := by
  apply setLink
  · exact prefix_rfl
  · rw [hc]
    exact List.Subset.refl _

theorem flushBuffer (j : Fin n) (payload : List UInt8) (call : Call n) :
    Grows s { s.flushBuffer cfg j payload with call := call } := by
  rw [flushBuffer_eq]
  apply setLink
  · exact prefix_append _ _
  · exact Tx.sendBuffers_unack cfg ((s.tx j).queueBuffer payload).1

theorem startChunk (ht : s.startChunk cfg j chunk late broadcast done=some t) : Grows s t := by
  rw [Sys.startChunk] at ht
  split at ht
  case h_1 => cases ht
  case h_2 payload hcur =>
    split_ifs at ht
    · cases ht
      apply setSnd
      rfl
    · cases ht
      exact flushBuffer j payload _

theorem leaveConn (j : Fin n) (rest : List (Fin n)) (active : Nat) :
    Grows s (s.leaveConn j rest active) := by
  rw [Sys.leaveConn]
  split_ifs
  · exact setSnd j { (s.links j).snd with state := .eosSent, stillActive := false } rfl s.ctl _
  · exact (refl s).withCall _

theorem eosStep (ht : s.eosStep cfg late=some t) : Grows s t := by
  rw [Sys.eosStep] at ht
  split at ht
  case h_1 =>
    split_ifs at ht
    · exact startChunk ht
    · cases ht
      exact (refl s).withCall _
  case h_2 | h_4 | h_5 =>
    cases ht
    exact (refl s).withCall _
  case h_3 j rest active hcall =>
    dsimp only at ht
    split_ifs at ht
    · obtain ⟨payload,-,rfl⟩ := map_eq_some_iff.mp ht
      exact (setSnd j { (s.links j).snd with eos := true } rfl s.ctl s.call).trans
        (flushBuffer j payload _)
    · cases ht
      exact (refl s).withCall _
  case h_6 j rest retry active hcall =>
    split_ifs at ht
    · cases ht
      exact (refl s).withCall _
    · cases ht
      exact leaveConn j rest active
  case h_7 => cases ht

end Grows

theorem wait_grows
    (ht : s.wait cfg arrived expired due=some t) : ∃ u, Quiet depth caps s u ∧ Grows u t := by
  rw [Sys.wait] at ht
  split at ht
  case h_1 =>
    obtain ⟨-,⟨u,stops⟩,hu,rfl⟩ := of_guard_map ht
    exact ⟨u,(turn_quiet hu).1,(Grows.refl u).withCall _⟩
  case h_2 j rest retry active hcall =>
    obtain ⟨-,⟨u,stops⟩,hu,rfl⟩ := of_guard_map ht
    refine ⟨u,(turn_quiet hu).1,?_⟩
    split_ifs
    · exact Grows.leaveConn j rest active
    · exact (Grows.refl u).withCall _
  case h_3 => cases ht

/-- A step of a receiver leaves the sending ends alone; any other first handles acknowledgements and
then sends. -/
theorem step_grows (ht : s.step cfg a=some t) : (∃ u, Quiet depth caps s u ∧ Grows u t) ∨
      ∀ i, (t.links i).snd=(s.links i).snd ∧ (t.links i).queued=(s.links i).queued := by
  cases a with
  | loseData j k | duplicateData j k | loseAck j k | duplicateAck j k =>
    exact .inl ⟨t,netStep_quiet ht,Grows.refl t⟩
  | receive j k | read j | markInactive j | putRxBuffer j =>
    obtain ⟨l,hl,rfl⟩ := map_eq_some_iff.mp ht
    obtain ⟨hsnd,hqd⟩ := rcvStep_snd hl
    refine .inr fun i => ?_
    by_cases hij : i=j
    · rw [hij]
      simpa using ⟨hsnd,hqd⟩
    · simp [hij]
  | sendChunk j chunk late =>
    rw [step] at ht
    split at ht
    case h_1 =>
      obtain ⟨-,ht⟩ := ite_none_right_eq_some.mp ht
      exact .inl ⟨s,Quiet.refl s,Grows.startChunk ht⟩
    case h_2 => cases ht
  | wait arrived expired due => exact .inl (wait_grows ht)
  | getBuffer =>
    have ht' : s.getBuffer cfg=some t := ht
    rw [getBuffer] at ht'
    split at ht'
    case h_1 j chunk retry broadcast hcall =>
      obtain ⟨ctl,-,rfl⟩ := map_eq_some_iff.mp ht'
      exact .inl ⟨s,Quiet.refl s,
        Grows.setSnd j { (s.links j).snd with curBuff := some chunk } rfl ctl _⟩
    case h_2 => cases ht'
  | sendEos chunk =>
    rw [step] at ht
    split at ht
    case h_1 =>
      cases ht
      exact .inl ⟨s,Quiet.refl s,(Grows.refl s).withCall _⟩
    case h_2 => cases ht
  | eosStep late => exact .inl ⟨s,Quiet.refl s,Grows.eosStep ht⟩

theorem step_queued (ht : s.step cfg a=some t) (i : Fin n) :
    (s.links i).queued <+: (t.links i).queued := by
  have hcases : (∃ u, Quiet 0 (fun _ => 0) s u ∧ Grows u t) ∨ _ := step_grows ht
  rcases hcases with ⟨u,hqt,hgrows⟩ | hsame
  · have := hgrows.queued i
    rwa [(hqt.keeps i).queued] at this
  · simp [(hsame i).2]

variable {acts : List (Action n)}

theorem run_queued (h : run (step cfg) s acts=some t) (i : Fin n) :
    (s.links i).queued.length≤(t.links i).queued.length := by
  induction acts generalizing s with
  | nil =>
    cases h
    exact Nat.le_refl _
  | cons a acts ih =>
    obtain ⟨u,hu,hrest⟩ := (run_cons_iff s t a acts).mp h
    exact Nat.le_trans (step_queued hu i).length_le (ih hrest)

theorem stored_of_acked (ht : s.step cfg a=some t)
    (hlink : LinkInv depth (caps i) (s.links i)) {p : Packet}
    (hp : p∈(s.links i).snd.unackQueue) (hnot : p∉(t.links i).snd.unackQueue) :
    p∈(s.links i).stored := by
  rcases step_grows ht with ⟨u,hqt,hgrows⟩ | hsame
  · exact (hqt.acked i hlink p hp).resolve_left fun hu => hnot (hgrows.unack i hu)
  · rw [(hsame i).1] at hnot
    exact absurd hp hnot

theorem start_inv (cfg : Config Γ) (depths : Fin n → Nat) (hdepths : ∀ j, 0<depths j)
    (window : Γ) (lastSeq times : Nat) (i : Fin n) :
    (start cfg depths window lastSeq times).CallOk ∧
      ConnsOk cfg.queueDepth depths i (start cfg depths window lastSeq times) := by
  refine ⟨fun _ => rfl,fun _ _ => ⟨rfl,rfl⟩,fun _ => ?_⟩
  constructor
  case stream | snd => constructor <;> simp [start]
  case rcv =>
    refine { toRcvCore := ?_, gap := fun _ => rfl }
    constructor
    case positive => exact hdepths i
    all_goals simp [start]
  case sent | data | acks => simp [start]

theorem run_link (hdepths : ∀ j, 0<depths j)
    (h : run (step cfg) (start cfg depths window lastSeq times) acts=some s) (i : Fin n) :
    s.CallOk ∧ ConnsOk cfg.queueDepth depths i s := by
  have hstart := start_inv cfg depths hdepths window lastSeq times i
  exact run_invariant (P := fun s => s.CallOk ∧ ConnsOk cfg.queueDepth depths i s)
    (fun u a v hu hv => step_inv hu.1 hu.2 hv) hstart h

/-- The executor of the receiver gets the packets queued by the sender, in their order and without
repeats, a packet is taken for acknowledged only once the receiver has stored it, and all of them are
stored when `SendEosUDPIFC` has returned. -/
theorem delivers_stream (cfg : Config Γ) (depths : Fin n → Nat) (hdepths : ∀ j, 0<depths j)
    (window : Γ) (lastSeq times : Nat) (acts : List (Action n)) (s : Sys n Γ)
    (h : run (step cfg) (start cfg depths window lastSeq times) acts=some s) (i : Fin n)
    (hshort : (s.links i).queued.length<2^32-1) :
    (s.links i).delivered <+: (s.links i).queued ∧ (s.links i).delivered.Nodup ∧
    (∀ before a after u v, acts=before ++ a::after →
      run (step cfg) (start cfg depths window lastSeq times) before=some u →
      u.step cfg a=some v → ∀ p∈(u.links i).snd.unackQueue, p∉(v.links i).snd.unackQueue →
        p∈(u.links i).stored) ∧
    (s.call=.closed → ∀ p∈(s.links i).queued, p∈(s.links i).stored) := by
  obtain ⟨hcall,hcon⟩ := run_link hdepths h i
  have hlink := hcon.link (by omega)
  have hdel := hlink.delivered_first
  refine ⟨hdel.1,hdel.2,?acked,?closed⟩
  case acked =>
    intro before a after u v hacts hu hv p hp hnot
    rw [hacts] at h
    obtain ⟨u',hu',hrest⟩ := (run_append_iff _ _ _ _).mp h
    obtain rfl : u'=u := Option.some.inj (hu'.symm.trans hu)
    have hle := run_queued hrest i
    have hu := (run_link hdepths hu i).2.link (by omega)
    exact stored_of_acked hv hu hp hnot
  case closed =>
    intro hcl
    rw [CallOk,hcl] at hcall
    have hemp := hcon.finished i (hcall i)
    exact hlink.stored_of_drained hemp.1 hemp.2

def smallConfig : Config Unit where
  fcMethod := .capacity
  queueDepth := 3
  sndQueueDepth := 1
  maxPacketSize := 65
  segindex := 0
  congestion :=
    { sent := fun _ _ => ()
      resent := fun _ _ => ()
      acked := fun _ _ => ()
      disorder := id
      expired := id
      blocks := fun _ _ => false }

def shortSession : List (Action 1) :=
  [.sendChunk 0 [7] false,.sendEos [8],.eosStep false,.duplicateData 0 0,.receive 0 0,
    .wait [(0, 0)] [] false,.getBuffer,.eosStep false,.eosStep false,.eosStep false,
    .receive 0 0,.receive 0 0,.read 0,.wait [(0, 1)] [] false,.eosStep false,.eosStep false]

theorem delivers_stream_shortSession :
    ∃ s, run (step smallConfig) (start smallConfig (fun _ : Fin 1 => 3) () 0 0) shortSession=some s ∧
      (s.links 0).queued.length=2 ∧ (s.links 0).delivered.length=1 ∧ s.call=.closed ∧
      (s.links 0).delivered <+: (s.links 0).queued ∧
      ∀ p∈(s.links 0).queued, p∈(s.links 0).stored := by
  refine exists_run_of (fun s => (s.links 0).queued.length=2 ∧ (s.links 0).delivered.length=1 ∧
    s.call=.closed) (by decide +kernel) ?_
  rintro s hs ⟨hqd,hdel,hcl⟩
  have hmain := delivers_stream smallConfig (fun _ => 3) (by decide) () 0 0 shortSession s hs 0
    (by rw [hqd]; decide)
  exact ⟨hqd,hdel,hcl,hmain.1,hmain.2.2.2 hcl⟩

end Sys

end WarehousePG.Interconnect
