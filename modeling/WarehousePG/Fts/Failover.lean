import Mathlib.Data.List.TakeWhile
import WarehousePG.Fts.Replication

namespace WarehousePG.Fts

open Framework Cluster PairIds List Prober
open Option (ite_none_right_eq_some bind_eq_some_iff map_eq_some_iff some)

variable {f : FtsSegmentInfo} {k : Nat} {p' : Primary} {w : Option WalSndState}

/-- Commits wait for the mirror, or will before the next one is acknowledged, and the mirror has every
commit acknowledged so far. -/
structure Safe (p : Primary) (flushed : Nat) : Prop where
  names : p.standbyNames
  defined : p.configured → p.standbysDefined
  kept : ∀ n∈p.acked, n≤flushed

structure Reported (p : Primary) (flushed : Nat) : Prop where
  synced : p.syncedLsn≤flushed
  flush : ∀ w, p.walsnd=some w → w.flush≤flushed

namespace Safe

variable {p : Primary} {flushed n : Nat}

section

variable (h : Safe p flushed)
include h

theorem mono (hle : flushed≤n) : Safe p n :=
  { h with kept := fun k hk => le_trans (h.kept k hk) hle }

theorem writeCommit : Safe p.writeCommit flushed := ⟨h.names,h.defined,h.kept⟩

theorem syncRepWaitForLSN (hr : Reported p flushed) (hc : p.configured)
    (lsn : Nat) : Safe (p.syncRepWaitForLSN lsn) flushed := by
  rw [Primary.syncRepWaitForLSN]
  split_ifs with hack
  · refine ⟨h.names,h.defined,fun k hk => ?_⟩
    rcases mem_append.mp hk with hold | hnew
    · exact h.kept k hold
    · obtain rfl := mem_singleton.mp hnew
      have hle : k≤p.syncedLsn := hack.resolve_left (by simp [h.defined hc])
      exact le_trans hle hr.synced
  · exact ⟨h.names,h.defined,h.kept⟩

theorem syncRepCancelWait (lsn : Nat) :
    Safe (p.syncRepCancelWait lsn) flushed := ⟨h.names,h.defined,h.kept⟩

theorem syncRepReleaseWaiters (hr : Reported p flushed) : Safe p.syncRepReleaseWaiters flushed := by
  rw [Primary.syncRepReleaseWaiters]
  cases hw : p.walsnd with
  | none => exact h
  | some w =>
    dsimp only
    split_ifs
    · refine ⟨h.names,h.defined,fun k hk => ?_⟩
      rcases mem_append.mp hk with hold | hnew
      · exact h.kept k hold
      · have hle := mem_takeWhile_imp hnew
        exact le_trans (of_decide_eq_true hle) (hr.flush w hw)
    · exact h

theorem syncRepUpdateSyncStandbysDefined : Safe p.syncRepUpdateSyncStandbysDefined flushed := by
  rw [Primary.syncRepUpdateSyncStandbysDefined]
  simp only [h.names,if_true]
  split_ifs with hdef
  · exact ⟨rfl,fun _ => hdef.symm,h.kept⟩
  · exact ⟨rfl,fun _ => rfl,h.kept⟩

theorem crash : Safe p.crash flushed :=
  ⟨h.names,fun hc => absurd hc (by simp [Primary.crash]),h.kept⟩

theorem handleFtsWalRepProbe (retryNeeded : Bool) :
    Safe (p.handleFtsWalRepProbe retryNeeded).1 flushed := by
  simp only [Primary.handleFtsWalRepProbe,Primary.setSyncStandbysDefined]
  split_ifs
  · exact h
  · exact ⟨rfl,h.defined,h.kept⟩
  · exact h

theorem walsenderStep (hstep : walsenderStep p w=some p') : Safe p' flushed := by
  have hfr : p'={ p with walsnd := p'.walsnd } := by
    cases w with
    | none => obtain rfl := some.inj hstep; rfl
    | some state =>
      cases state with
      | startup => obtain rfl := some.inj hstep; rfl
      | catchup => obtain ⟨w,-,rfl⟩ := map_eq_some_iff.mp hstep; rfl
      | streaming =>
        obtain ⟨w,-,hw⟩ := bind_eq_some_iff.mp hstep
        obtain ⟨-,rfl⟩ := of_guard hw
        rfl
  rw [hfr]
  exact ⟨h.names,h.defined,h.kept⟩

end

end Safe

namespace Reported

variable {p : Primary} {flushed n : Nat}

section

variable (h : Reported p flushed)
include h

theorem mono (hle : flushed≤n) : Reported p n :=
  ⟨le_trans h.synced hle,fun w hw => le_trans (h.flush w hw) hle⟩

theorem of_eq (hsyn : p'.syncedLsn=p.syncedLsn)
    (hwal : p'.walsnd=p.walsnd) : Reported p' flushed := by
  refine ⟨?_,?_⟩
  · rw [hsyn]
    exact h.synced
  · rw [hwal]
    exact h.flush

theorem syncRepWaitForLSN (lsn : Nat) : Reported (p.syncRepWaitForLSN lsn) flushed := by
  rw [Primary.syncRepWaitForLSN]
  split_ifs <;> exact h.of_eq rfl rfl

theorem syncRepReleaseWaiters : Reported p.syncRepReleaseWaiters flushed := by
  rw [Primary.syncRepReleaseWaiters]
  cases hw : p.walsnd with
  | none => exact h
  | some w =>
    dsimp only
    split_ifs
    · exact ⟨h.flush w hw,fun v hv => h.flush v (hw.trans hv)⟩
    · exact h

theorem syncRepUpdateSyncStandbysDefined : Reported p.syncRepUpdateSyncStandbysDefined flushed := by
  simp only [Primary.syncRepUpdateSyncStandbysDefined]
  split_ifs <;> exact h.of_eq rfl rfl

theorem handleFtsMessage (retryNeeded : Bool) (state : FtsMessageState) :
    Reported (p.handleFtsMessage retryNeeded state).1 flushed := by
  cases state with
  | probeSegment =>
    simp only [Primary.handleFtsMessage,Primary.handleFtsWalRepProbe,Primary.setSyncStandbysDefined]
    split_ifs <;> exact h.of_eq rfl rfl
  | syncrepOffSegment =>
    simp only [Primary.handleFtsMessage,Primary.handleFtsWalRepSyncRepOff,
      Primary.unsetSyncStandbysDefined]
    split_ifs <;> exact h.of_eq rfl rfl
  | _ => exact h

theorem walsenderStep (hstep : walsenderStep p w=some p') : Reported p' flushed := by
  cases w with
  | none =>
    obtain rfl := some.inj hstep
    exact ⟨h.synced,fun w hw => absurd hw (by simp)⟩
  | some state =>
    cases state with
    | startup =>
      obtain rfl := some.inj hstep
      refine ⟨h.synced,fun w hw => ?_⟩
      obtain rfl := some.inj hw
      exact Nat.zero_le _
    | catchup =>
      obtain ⟨w,hw,rfl⟩ := map_eq_some_iff.mp hstep
      refine ⟨h.synced,fun v hv => ?_⟩
      obtain rfl := some.inj hv
      exact h.flush w hw
    | streaming =>
      obtain ⟨w,hw,hgo⟩ := bind_eq_some_iff.mp hstep
      obtain ⟨-,rfl⟩ := of_guard hgo
      refine ⟨h.synced,fun v hv => ?_⟩
      obtain rfl := some.inj hv
      exact h.flush w hw

end

end Reported

/-- While FTS takes the pair to be in sync, or is about to, commits are safe. -/
structure ClusterInv (ids : PairIds) (s : Cluster) : Prop where
  prober : ProberInv s.prober
  content : ∀ r∈s.prober.catalog, r.segindex=ids.content
  readContent : ∀ r∈s.prober.cdbs, r.segindex=ids.content
  honest : ∀ x∈s.replies, x.2.isInSync → x.2.isMirrorAlive
  requestEpoch : ∀ x∈s.requests, x.1 ≤ s.epoch
  replyEpoch : ∀ x∈s.replies, x.1 ≤ s.epoch
  addressed : ∀ f∈s.prober.pairs, f.conn.isSome →
    ∀ x∈s.requests, x.1=s.epoch → x.2.dbid=f.primary.dbid
  reported : Reported s.primary s.flushed
  marked : (∃ r∈s.prober.catalog, r.inSync) → Safe s.primary s.flushed
  answered : ∀ f∈s.prober.pairs, f.AwaitsProbe → f.conn.isSome →
    ∀ x∈s.replies, x.1=s.epoch → x.2.isInSync → Safe s.primary s.flushed
  recorded : ∀ f∈s.prober.pairs, f.state=.probeSuccess → f.result.isInSync →
    Safe s.primary s.flushed
  exchanged : (∃ r∈s.prober.catalog, r.dbid=ids.mirrorDbid ∧ r.role=.primary) →
    Safe s.primary s.flushed

namespace ClusterInv

variable {ids : PairIds} {s : Cluster} {cfg : Settings}

section

variable (h : ClusterInv ids s)
include h

theorem pair_unique (hf : f∈s.prober.pairs) (hg : g∈s.prober.pairs) : f=g := by
  apply inj_on_of_nodup_map h.prober.distinct hf hg
  have hfseg := h.readContent f.primary (h.prober.recorded f hf).1
  have hgseg := h.readContent g.primary (h.prober.recorded g hg).1
  exact hfseg.trans hgseg.symm

theorem isConnected_iff (hf : f∈s.prober.pairs) : s.prober.isConnected=f.conn.isSome := by
  rw [Bool.eq_iff_iff,isConnected,any_eq_true]
  constructor
  · rintro ⟨g,hg,hconn⟩
    rw [h.pair_unique hf hg]
    exact hconn
  · exact fun hconn => ⟨f,hf,hconn⟩

/-- The catalog marks a mirror in sync, or promotes it, only when it is safe. -/
theorem catalog_step {p : Prober} (hstep : s.prober.step cfg a=some p) :
    (∀ r∈p.catalog, r.segindex=ids.content) ∧
    ((∃ r∈p.catalog, r.inSync) → Safe s.primary s.flushed) ∧
    ((∃ r∈p.catalog, r.dbid=ids.mirrorDbid ∧ r.role=.primary) → Safe s.primary s.flushed) := by
  by_cases hsame : p.catalog=s.prober.catalog
  · rw [hsame]
    exact ⟨h.content,h.marked,h.exchanged⟩
  obtain ⟨k,f,hf,hcat⟩ := catalog_changes hstep hsame
  have hmem : f∈s.prober.pairs := mem_iff_getElem?.mpr ⟨k,hf⟩
  have hok := h.prober.states f hmem
  obtain ⟨hwrit,-⟩ := processResponse_ok h.prober.wellFormed hok
  rw [hcat]
  refine ⟨fun r hr => ?_,?_,?_⟩
  · obtain ⟨q,hq,-,hseg⟩ := hwrit.origin hr
    rw [← hseg]
    exact h.content q hq
  · rintro ⟨r,hr,hsync⟩
    obtain hold | hnew := processResponse_inSync hok hr hsync
    · exact h.marked ⟨r,hold,hsync⟩
    · exact h.recorded f hmem hnew.1 hnew.2
  · rintro ⟨r',hr',hdbid,hrole⟩
    obtain ⟨r,hr,hid,-⟩ := hwrit.origin hr'
    by_cases hold : r.role=.primary
    · exact h.exchanged ⟨r,hr,hid.trans hdbid,hold⟩
    · -- The roles are exchanged in this transaction, so the pair was marked in sync.
      obtain ⟨hrows,hsync,-⟩ := hwrit.roles h.prober.wellFormed hr hr' hid.symm
        (by rw [hrole]; exact Ne.symm hold)
      exact h.marked ⟨_,hrows.primaryMem,hsync⟩

theorem pairs_step {p : Prober} (hres : s.responds env)
    (hstep : s.prober.step cfg (.advance (fun _ => env) now)=some p)
    (hf' : f'∈p.pairs) : (f'.state=.probeSuccess → f'.result.isInSync → Safe s.primary s.flushed) ∧
    (f'.conn.isSome → ((p.isConnected && !s.prober.isConnected)=true ∧ s.prober.phase=.connect) ∨
      (s.prober.isConnected ∧ ∃ f∈s.prober.pairs, f.conn.isSome ∧ f'.primary=f.primary ∧
        (f'.AwaitsProbe → f.AwaitsProbe))) := by
  obtain ⟨f,hf,hobs⟩ := step_observes hstep f' hf'
  constructor
  · intro hsuc hsync
    obtain hold | ⟨hawt,hconn,result,hresp,hin⟩ := hobs.records hsuc hsync
    · exact h.recorded f hf hold.1 hold.2
    · rw [responds,hresp] at hres
      exact h.answered f hf hawt hconn _ (of_decide_eq_true hres) rfl hin
  · intro hconn'
    cases hconn : f.conn.isSome with
    | true =>
      right
      rw [h.isConnected_iff hf]
      exact ⟨hconn,f,hf,hconn,hobs.primary hconn',fun hawt => hobs.awaits hawt hconn' hconn⟩
    | false =>
      left
      have hopen : p.isConnected := any_eq_true.mpr ⟨f',hf',hconn'⟩
      rw [h.isConnected_iff hf,hconn,hopen]
      exact ⟨rfl,(hobs.opens hconn').resolve_left (by simp [hconn])⟩

theorem proberStep (hhon : a.Honest) (hpairs : ∀ p, s.prober.step cfg a=some p → ∀ f'∈p.pairs,
      (f'.state=.probeSuccess → f'.result.isInSync → Safe s.primary s.flushed) ∧ (f'.conn.isSome →
        ((p.isConnected && !s.prober.isConnected)=true ∧ s.prober.phase=.connect) ∨
        (s.prober.isConnected ∧ ∃ f∈s.prober.pairs, f.conn.isSome ∧ f'.primary=f.primary ∧
          (f'.AwaitsProbe → f.AwaitsProbe))))
    (hstep : s.proberStep cfg a=some t) : ClusterInv ids t := by
  obtain ⟨p,hp,rfl⟩ := map_eq_some_iff.mp hstep
  obtain ⟨hcon,hmar,hexc⟩ := h.catalog_step hp
  have hepoch : s.epoch≤(if p.isConnected && !s.prober.isConnected then s.epoch+1 else s.epoch) := by
    split_ifs <;> omega
  refine {
    prober := h.prober.step hhon hp
    content := hcon
    readContent := fun r hr => ?readContent
    honest := h.honest
    requestEpoch := fun x hx => ?requestEpoch
    replyEpoch := fun x hx => le_trans (h.replyEpoch x hx) hepoch
    addressed := fun f' hf' hconn' x hx hnow => ?addressed
    reported := h.reported
    marked := hmar
    answered := fun f' hf' hawt hconn' x hx hnow hsync => ?answered
    recorded := fun f' hf' => (hpairs p hp f' hf').1
    exchanged := hexc }
  case readContent =>
    rcases step_cdbs hp with heq | heq
    · exact h.readContent r (heq ▸ hr)
    · exact h.content r (heq ▸ hr)
  case requestEpoch =>
    rcases mem_append.mp hx with hold | hnew
    · exact le_trans (h.requestEpoch x hold) hepoch
    · split_ifs at hnew
      · obtain ⟨msg,-,rfl⟩ := mem_map.mp hnew
        exact hepoch
      · cases hnew
  case addressed =>
    dsimp only at hnow
    rcases (hpairs p hp f' hf').2 hconn' with ⟨hopn,hph⟩ | ⟨hcnn,f,hf,hconn,hprim,-⟩
    · -- A new connection has no request yet.
      rw [if_pos hopn] at hnow
      rw [hph] at hx
      have := h.requestEpoch x (by simpa using hx)
      omega
    · rw [if_neg (by simp [hcnn])] at hnow
      rw [hprim]
      rcases mem_append.mp hx with hold | hnew
      · exact h.addressed f hf hconn x hold hnow
      · split_ifs at hnew with hph
        · obtain ⟨msg,hmsg,rfl⟩ := mem_map.mp hnew
          obtain ⟨g,hg,hdbid⟩ := step_messages hp hph msg hmsg
          rw [h.pair_unique hf hg]
          exact hdbid
        · cases hnew
  case answered =>
    dsimp only at hnow
    rcases (hpairs p hp f' hf').2 hconn' with ⟨hopn,-⟩ | ⟨hcnn,f,hf,hconn,-,hback⟩
    · rw [if_pos hopn] at hnow
      have := h.replyEpoch x hx
      omega
    · rw [if_neg (by simp [hcnn])] at hnow
      exact h.answered f hf (hback hawt) hconn x hx hnow hsync

theorem segments {flushed : Nat} {promoted : Bool}
    (hrep : Reported p flushed) (hsafe : Safe s.primary s.flushed → Safe p flushed) :
    ClusterInv ids { s with primary := p, flushed := flushed, promoted := promoted } :=
  { h with
    reported := hrep
    marked := fun hm => hsafe (h.marked hm)
    answered := fun f hf ha hc x hx he hs => hsafe (h.answered f hf ha hc x hx he hs)
    recorded := fun f hf hp hs => hsafe (h.recorded f hf hp hs)
    exchanged := fun he => hsafe (h.exchanged he) }

theorem reply
    (hreq : s.requests[k]?=some (conn, msg)) (hhon : result.isInSync → result.isMirrorAlive)
    (hans : ∀ f∈s.prober.pairs, f.AwaitsProbe → result.isInSync → Safe s.primary s.flushed) :
    ClusterInv ids { s with
      requests := s.requests.eraseIdx k, replies := s.replies ++ [(conn, result)] } := by
  have hmem : (conn, msg)∈s.requests := mem_iff_getElem?.mpr ⟨k,hreq⟩
  have hreply : ∀ x∈s.replies ++ [(conn, result)], x∈s.replies ∨ x=(conn, result) := by simp
  refine { h with
    honest := fun x hx => ?_
    requestEpoch := fun x hx => h.requestEpoch x (mem_of_mem_eraseIdx hx)
    replyEpoch := fun x hx => ?_
    addressed := fun f hf hc x hx => h.addressed f hf hc x (mem_of_mem_eraseIdx hx)
    answered := fun f hf ha hc x hx hnow hsync => ?_ }
  · rcases hreply x hx with hold | rfl
    · exact h.honest x hold
    · exact hhon
  · rcases hreply x hx with hold | rfl
    · exact h.replyEpoch x hold
    · exact h.requestEpoch _ hmem
  · rcases hreply x hx with hold | rfl
    · exact h.answered f hf ha hc x hold hnow hsync
    · exact hans f hf ha hsync

section

variable (hf : f∈s.prober.pairs) (hst : f.state=.syncrepOffSegment)
  (hprim : f.primary.dbid=ids.primaryDbid)
include hf hst hprim

theorem syncrepOff_unmarked : (∀ r∈s.prober.catalog, r.inSync=false) ∧
    ∀ r∈s.prober.catalog, r.dbid=ids.mirrorDbid → r.role≠.primary := by
  have hok := h.prober.states f hf
  rw [StateOk,hst] at hok
  obtain ⟨p,m,hrows,hpid,-,-,-,hmode⟩ := hok
  have honly : ∀ r∈s.prober.catalog, r=p ∨ r=m := by
    intro r hr
    apply hrows.only r hr
    rw [h.content r hr,h.content p hrows.primaryMem]
  constructor
  · intro r hr
    rcases honly r hr with rfl | rfl
    · rw [hrows.mode]
      exact hmode
    · exact hmode
  · intro r hr hdbid hrole
    rcases honly r hr with rfl | rfl
    · exact ids.distinct (hprim.symm.trans (hpid.symm.trans hdbid))
    · rw [hrows.mirrorRole] at hrole
      cases hrole

theorem unmarked (hrep : Reported p s.flushed) : ClusterInv ids { s with primary := p } := by
  obtain ⟨hmode,hroles⟩ := h.syncrepOff_unmarked hf hst hprim
  have hot : ∀ g∈s.prober.pairs, g.state=.syncrepOffSegment :=
    fun g hg => by rw [h.pair_unique hg hf,hst]
  refine { h with
    reported := hrep
    marked := ?_
    answered := fun g hg hawt => ?_
    recorded := fun g hg hsuc => ?_
    exchanged := ?_ }
  · rintro ⟨r,hr,hsync⟩
    exact absurd hsync (by simp [hmode r hr])
  · rw [FtsSegmentInfo.AwaitsProbe,hot g hg] at hawt
    exact absurd hawt (by simp)
  · rw [hot g hg] at hsuc
    cases hsuc
  · rintro ⟨r,hr,hdbid,hrole⟩
    exact absurd hrole (hroles r hr hdbid)

end

end

end ClusterInv

theorem Primary.getMirrorStatus_honest (p : Primary) (retryNeeded : Bool) :
    (p.getMirrorStatus retryNeeded).1.isInSync → (p.getMirrorStatus retryNeeded).1.isMirrorAlive := by
  simp only [getMirrorStatus,Bool.and_eq_true]
  exact And.left

theorem Primary.handleFtsWalRepProbe_result (p : Primary) (retryNeeded : Bool) :
    ((p.handleFtsWalRepProbe retryNeeded).2.isInSync →
      (p.handleFtsWalRepProbe retryNeeded).2.isMirrorAlive) ∧
    ((p.handleFtsWalRepProbe retryNeeded).2.isInSync → p.streaming) := by
  have hsta : (p.getMirrorStatus retryNeeded).1.isInSync →
      (p.getMirrorStatus retryNeeded).1.isMirrorAlive ∧ p.streaming := by
    simp [getMirrorStatus]
  simp only [handleFtsWalRepProbe]
  split_ifs
  · exact ⟨fun h => (hsta h).1,fun h => (hsta h).2⟩
  · exact ⟨fun h => (hsta h).1,fun h => (hsta h).2⟩

/-- A probe is answered in sync only when commits already wait, no reload is due, and the mirror has
every commit acknowledged so far; SYNCREP_OFF is handled only while FTS waits for its answer. -/
def Cluster.SettledRequest (ids : PairIds) (s : Cluster) (x : Nat × FtsMessage) : Prop :=
  x.2.dbid=ids.primaryDbid →
    (x.2.state=.probeSegment → s.primary.streaming →
      s.primary.standbysDefined ∧ s.primary.standbyNames ∧ ∀ n∈s.primary.acked, n ≤ s.flushed) ∧
    (x.2.state=.syncrepOffSegment →
      x.1=s.epoch ∧ ∃ f∈s.prober.pairs, f.conn.isSome ∧ f.state=.syncrepOffSegment)

instance (ids : PairIds) (s : Cluster) : DecidablePred (s.SettledRequest ids) :=
  fun _ => inferInstanceAs (Decidable (_ → _))

/-- Requests are handled as above, and no commit comes to its wait before the checkpointer has read
the configuration. -/
def Cluster.Settled (ids : PairIds) (s : Cluster) : Event → Prop
  | .handle k _ => ∀ x∈s.requests[k]?, s.SettledRequest ids x
  | .waitForLSN _ => s.primary.configured
  | _ => True

instance (ids : PairIds) (s : Cluster) (e : Event) : Decidable (s.Settled ids e) :=
  match e with
  | .handle k _ => inferInstanceAs (Decidable (∀ x∈s.requests[k]?, s.SettledRequest ids x))
  | .waitForLSN _ => inferInstanceAs (Decidable (s.primary.configured=true))
  | .ftsStart | .ftsAbort | .fts _ _ | .writeCommit | .cancelWait _ | .walsender _
  | .walsenderSend _ _ | .mirrorFlush _ | .mirrorReply | .releaseWaiters | .checkpointer | .crash
  | .restart | .promote => instDecidableTrue

namespace ClusterInv

variable {ids : PairIds} {s : Cluster} {cfg : Settings}

/-- A request is answered from the state of the primary at that time. -/
theorem handleRequest (h : ClusterInv ids s) {retryNeeded : Bool}
    (hsettled : s.Settled ids (.handle k retryNeeded))
    (hstep : s.handleRequest ids k retryNeeded=some t) : ClusterInv ids t := by
  obtain ⟨⟨conn,msg⟩,hreq,hgo⟩ := bind_eq_some_iff.mp hstep
  dsimp only at hgo
  split_ifs at hgo with hdbid hrunning
  · obtain rfl := some.inj hgo
    obtain ⟨hprobe,hoff⟩ := hsettled (conn, msg) hreq hdbid
    have hrep := h.reported.handleFtsMessage retryNeeded msg.state
    cases hst : msg.state <;> rw [hst] at hrep
    case probeSegment =>
      have hrst := s.primary.handleFtsWalRepProbe_result retryNeeded
      have hansw := h.reply hreq hrst.1 fun f hf _ hsync => by
        obtain ⟨hdef,hnames,hkept⟩ := hprobe hst (hrst.2 hsync)
        exact ⟨hnames,fun _ => hdef,hkept⟩
      exact hansw.segments hrep fun hsafe => hsafe.handleFtsWalRepProbe retryNeeded
    case syncrepOffSegment =>
      obtain ⟨hnow,f,hf,hconn,hwaits⟩ := hoff hst
      have hprim := h.addressed f hf hconn _ (mem_iff_getElem?.mpr ⟨k,hreq⟩) hnow
      have hhon := s.primary.unsetSyncStandbysDefined.getMirrorStatus_honest retryNeeded
      have hansw := h.reply hreq hhon fun g hg hawt => by
        rw [FtsSegmentInfo.AwaitsProbe,h.pair_unique hg hf,hwaits] at hawt
        exact absurd hawt (by simp)
      exact hansw.unmarked hf hwaits (hprim.symm.trans hdbid) hrep
    all_goals
      exact h.reply hreq (fun hsync => absurd hsync (by simp [Primary.handleFtsMessage]))
        fun _ _ _ hsync => absurd hsync (by simp [Primary.handleFtsMessage])
  · obtain rfl := some.inj hgo
    have hnot : (s.handleAtMirror retryNeeded).isInSync=false := by
      rw [handleAtMirror]
      split_ifs <;> rfl
    exact h.reply hreq (fun hsync => absurd hsync (by simp [hnot]))
      fun _ _ _ hsync => absurd hsync (by simp [hnot])

/-- Every event of the pair keeps the invariant. -/
theorem step (h : ClusterInv ids s) (hsettled : s.Settled ids e)
    (hstep : s.step cfg ids e=some t) : ClusterInv ids t := by
  cases e with
  | ftsStart =>
    refine h.proberStep (a := .start) trivial (fun p hp f' hf' => ?_) hstep
    have hnew : f'.conn=none ∧ f'.state=.probeSegment := by
      cases hph : s.prober.phase <;> simp only [Prober.step,hph,reduceCtorEq] at hp
      obtain rfl := some.inj hp
      obtain ⟨-,hinit⟩ := mem_ftsWalRepInitProbeContext h.prober.wellFormed hf'
      rw [hinit]
      exact ⟨rfl,rfl⟩
    exact ⟨fun hs => absurd hs (by simp [hnew.2]),fun hc => absurd hc (by simp [hnew.1])⟩
  | ftsAbort =>
    refine h.proberStep (a := .abort) trivial (fun p hp f' hf' => ?_) hstep
    obtain rfl := some.inj hp
    cases hf'
  | fts env now =>
    obtain ⟨hres,hgo⟩ := ite_none_right_eq_some.mp hstep
    have hhon : (Action.advance (fun _ => env) now).Honest := by
      intro _ result hresp
      rw [responds,hresp] at hres
      exact h.honest _ (of_decide_eq_true hres)
    exact h.proberStep hhon (fun p hp f' hf' => h.pairs_step hres hp hf') hgo
  | handle k retryNeeded => exact h.handleRequest hsettled hstep
  | writeCommit =>
    obtain ⟨-,rfl⟩ := of_guard hstep
    exact h.segments (h.reported.of_eq rfl rfl) Safe.writeCommit
  | waitForLSN lsn =>
    obtain ⟨-,rfl⟩ := of_guard hstep
    exact h.segments (h.reported.syncRepWaitForLSN lsn)
      fun hsafe => hsafe.syncRepWaitForLSN h.reported hsettled lsn
  | cancelWait lsn =>
    obtain rfl := some.inj hstep
    exact h.segments (h.reported.of_eq rfl rfl) fun hsafe => hsafe.syncRepCancelWait lsn
  | walsender w =>
    obtain ⟨-,p,hp,rfl⟩ := of_guard_map hstep
    exact h.segments (h.reported.walsenderStep hp) fun hsafe => hsafe.walsenderStep hp
  | walsenderSend n withinRange =>
    obtain ⟨w,hw,hgo⟩ := bind_eq_some_iff.mp hstep
    obtain ⟨-,rfl⟩ := of_guard hgo
    refine h.segments ⟨h.reported.synced,fun v hv => ?_⟩ fun hsafe => ⟨hsafe.1,hsafe.2,hsafe.3⟩
    obtain rfl := some.inj hv
    exact h.reported.flush w hw
  | mirrorFlush n =>
    obtain ⟨hle,rfl⟩ := of_guard hstep
    exact h.segments (h.reported.mono hle.2.1) fun hsafe => hsafe.mono hle.2.1
  | mirrorReply =>
    obtain ⟨w,hw,rfl⟩ := map_eq_some_iff.mp hstep
    refine h.segments ⟨h.reported.synced,fun v hv => ?_⟩ fun hsafe => ⟨hsafe.1,hsafe.2,hsafe.3⟩
    obtain rfl := some.inj hv
    exact le_refl _
  | releaseWaiters =>
    obtain rfl := some.inj hstep
    exact h.segments h.reported.syncRepReleaseWaiters
      fun hsafe => hsafe.syncRepReleaseWaiters h.reported
  | checkpointer =>
    obtain ⟨-,rfl⟩ := of_guard hstep
    exact h.segments h.reported.syncRepUpdateSyncStandbysDefined Safe.syncRepUpdateSyncStandbysDefined
  | crash =>
    obtain rfl := some.inj hstep
    exact h.segments ⟨Nat.zero_le _,fun w hw => absurd hw (by simp [Primary.crash])⟩ Safe.crash
  | restart =>
    obtain rfl := some.inj hstep
    exact h.segments (h.reported.of_eq rfl rfl) fun hsafe => ⟨hsafe.1,hsafe.2,hsafe.3⟩
  | promote =>
    obtain rfl := some.inj hstep
    exact h.segments h.reported id

attribute [local simp] init mirrorRow

theorem init (ids : PairIds) : ClusterInv ids (Cluster.init ids) := by
  have hrows : ∀ r∈(Cluster.init ids).prober.catalog, r.segindex=ids.content ∧ r.inSync=false ∧
      (r.dbid=ids.mirrorDbid → r.role=.mirror) := by
    simp [primaryRow,ids.distinct]
  have hpair : PairRows (Cluster.init ids).prober.catalog ids.primaryRow ids.mirrorRow := by
    refine ⟨⟨rfl,rfl,rfl,rfl,rfl,fun h => absurd h (by simp)⟩,?_,?_,?_⟩ <;>
      simp
  have hwf : WellFormed (Cluster.init ids).prober.catalog := by
    refine ⟨by simp [primaryRow,ids.distinct],?_⟩
    rintro content ⟨r,hr,rfl,-⟩
    exact ⟨_,_,hpair,(hrows r hr).1.symm⟩
  have hemp : ∀ {α : Type} {P : α → Prop}, ∀ x∈([] : List α), P x := by simp
  exact {
    prober := ⟨hwf,nodup_nil,hemp,hemp,fun _ => rfl,hemp⟩
    content := fun r hr => (hrows r hr).1
    readContent := hemp
    honest := hemp
    requestEpoch := hemp
    replyEpoch := hemp
    addressed := hemp
    reported := ⟨le_refl _,fun w hw => absurd hw (by simp)⟩
    marked := fun ⟨r,hr,hsync⟩ => absurd hsync (by simp [(hrows r hr).2.1])
    answered := hemp
    recorded := hemp
    exchanged := fun ⟨r,hr,hdbid,hrole⟩ => absurd hrole (by simp [(hrows r hr).2.2 hdbid]) }

end ClusterInv

/-- Failover loses no acknowledged commit, as long as every answer to FTS and every commit comes when
the setting it relies on is in force: whenever the catalog shows the mirror as the primary, the mirror
has made every commit durable that the old primary has acknowledged. -/
theorem failover_keeps_commits (cfg : Settings) (ids : PairIds) (events : List Event) (s : Cluster)
    (hsettled : EveryStep (step cfg ids) (Cluster.Settled ids) (init ids) events)
    (hrun : run (step cfg ids) (init ids) events=some s) (r : SegmentConfig)
    (hr : r∈s.prober.catalog) (hdbid : r.dbid=ids.mirrorDbid) (hrole : r.role=.primary) :
    ∀ n∈s.primary.acked, n ≤ s.flushed := by
  have hinv : ClusterInv ids s :=
    run_invariant_of_everyStep (fun s e t hs he hstep => hs.step he hstep) (ClusterInv.init ids)
      hsettled hrun
  exact (hinv.exchanged ⟨r,hr,hdbid,hrole⟩).kept

def samplePair : PairIds := ⟨2,3,0,by decide⟩

def failoverSettings : Settings := { probeTimeout := 20, probeRetries := 0 }

def proberCalls (n : Nat) (env : PairEnv) : List Event := replicate n (.fts env 0)

/-- A cycle in which the probe gets the answer `result`; it is handled before the socket is polled for
reading. -/
def answeredCycle (result : FtsResult) : List Event :=
  [.ftsStart] ++ proberCalls 10 { revents := { pollOut := true } } ++ [.handle 0 false] ++
    proberCalls 4 {} ++ proberCalls 8 { revents := { pollIn := true }, response := .tuple result }

def failedCycle : List Event := [.ftsStart] ++ proberCalls 6 { connectStarts := false }

/-- The waiting is on before the mirror streams, and a commit waits until the mirror has it. -/
def orderlyFailover : List Event :=
  [.checkpointer,.writeCommit,.waitForLSN 1,.walsender (some .startup),.walsender (some .catchup),
    .walsenderSend 1 true,.mirrorFlush 1,.mirrorReply] ++
    answeredCycle { isMirrorAlive := true, isSyncRepEnabled := true } ++
    [.checkpointer,.walsender (some .streaming)] ++
    answeredCycle { isMirrorAlive := true, isInSync := true, isSyncRepEnabled := true } ++
    [.writeCommit,.waitForLSN 2,.walsenderSend 2 true,.mirrorFlush 2,.mirrorReply,
      .releaseWaiters,.crash] ++ failedCycle

theorem failover_keeps_commits_orderly :
    ∃ s, run (step failoverSettings samplePair) (init samplePair) orderlyFailover
        =some s ∧ s.primary.acked=[1,2] ∧ ∀ n∈s.primary.acked, n ≤ s.flushed := by
  refine exists_run_of (fun s => s.prober.catalog=
    [{ firstRow with role := .mirror, alive := false, inSync := false },
      { secondRow with role := .primary, inSync := false }] ∧ s.primary.acked=[1,2])
    (by decide +kernel) ?_
  rintro s hrun ⟨hcat,hacked⟩
  refine ⟨hacked,?_⟩
  exact failover_keeps_commits failoverSettings samplePair orderlyFailover s (by decide +kernel)
    hrun { secondRow with role := .primary, inSync := false } (by rw [hcat]; decide) rfl rfl

/-- The first probe finds the mirror streaming and turns the waiting on, and a commit passes before the
checkpointer applies it. -/
def earlyAnswer : List Event :=
  [.checkpointer,.walsender (some .startup),.walsender (some .catchup),.walsender (some .streaming)] ++
    answeredCycle { isMirrorAlive := true, isInSync := true, isSyncRepEnabled := true } ++
    [.writeCommit,.waitForLSN 1,.crash] ++ failedCycle

theorem failover_loses_commit :
    ∃ s, run (step failoverSettings samplePair) (init samplePair) earlyAnswer=some s ∧
      (∃ r∈s.prober.catalog, r.dbid=samplePair.mirrorDbid ∧ r.role=.primary) ∧
      ∃ n∈s.primary.acked, s.flushed<n := by
  exact exists_run (by decide +kernel)

end WarehousePG.Fts
