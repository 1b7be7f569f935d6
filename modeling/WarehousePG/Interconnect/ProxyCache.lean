import Mathlib.Data.List.Basic

namespace WarehousePG.Interconnect

/-- The types of packets; of the messages a client handles only BYE and DATA_ACK. -/
inductive ICProxyMessageType where
  | data | peerHello | peerHelloAck | peerQuit | hello | helloAck | bye | dataAck
  deriving DecidableEq

structure ICProxyPkt where
  type : ICProxyMessageType
  sessionId : Int
  commandId : Nat
  body : List UInt8 := []
  deriving DecidableEq

/-- The part of the key that packets are compared with. -/
structure ICProxyKey where
  sessionId : Int
  commandId : Nat

/-- A client with the bits of its `state` that the handling of packets reads. `handled` lists the
packets that were written to the backend or taken as messages, in order. -/
structure ICProxyClient where
  key : ICProxyKey
  isPlaceholder : Bool := false
  p2cShutting : Bool := false
  paused : Bool := false
  unconsumed : Int := 0
  sending : Int := 0
  unackSendPkt : Int := 0
  pkts : List ICProxyPkt := []
  handled : List ICProxyPkt := []

namespace ICProxyPkt

variable (pkt : ICProxyPkt) (key : ICProxyKey)

def isLive : Bool := pkt.sessionId=key.sessionId ∧ pkt.commandId=key.commandId

def isOutOfDate : Bool :=
  pkt.sessionId<key.sessionId ∨ pkt.sessionId=key.sessionId ∧ pkt.commandId<key.commandId

def isInTheFuture : Bool :=
  key.sessionId<pkt.sessionId ∨ pkt.sessionId=key.sessionId ∧ key.commandId<pkt.commandId

def shuts : Bool := pkt.isLive key ∧ pkt.type=.bye

variable {pkt key}

theorem isInTheFuture_iff :
    pkt.isInTheFuture key=true ↔ ¬pkt.isLive key=true ∧ ¬pkt.isOutOfDate key=true := by
  simp only [isInTheFuture,isLive,isOutOfDate,decide_eq_true_eq]
  omega

end ICProxyPkt

open ICProxyPkt List

namespace ICProxyClient

def unackPacketResume : Int := 30

def ackInterval : Int := 10

variable (client : ICProxyClient) (pkt : ICProxyPkt)

def maybeResume : ICProxyClient :=
  if client.unackSendPkt≤unackPacketResume ∧ client.paused then { client with paused := false }
  else client

def shutdownP2c : ICProxyClient := { client with p2cShutting := true }

/-- A message of another type is an error. -/
def onP2cMessage : Option ICProxyClient :=
  match pkt.type with
  | .bye => some client.maybeResume.shutdownP2c
  | .dataAck => some { client with unackSendPkt := client.unackSendPkt-ackInterval }.maybeResume
  | _ => none

def cacheP2cPkt : ICProxyClient := { client with pkts := client.pkts ++ [pkt] }

def onP2cData : Option ICProxyClient :=
  if client.isPlaceholder then some (client.cacheP2cPkt pkt)
  else if ¬pkt.isLive client.key then
    if pkt.isOutOfDate client.key then some client else some (client.cacheP2cPkt pkt)
  else if pkt.type=.data then
    if client.p2cShutting then some (client.cacheP2cPkt pkt)
    else some { client with
      unconsumed := client.unconsumed+1
      sending := client.sending+1
      handled := client.handled ++ [pkt] }
  else { client with handled := client.handled ++ [pkt] }.onP2cMessage pkt

/-- At most `n` rounds of the loop over the cached packets: nothing when the loop has not ended by
then, or when a packet raised an error. -/
def consumePkts : Nat → ICProxyClient → Option ICProxyClient
  | n, client =>
    match client.pkts with
    | [] => some client
    | pkt::pkts =>
      if client.p2cShutting then some client
      else match n with
        | 0 => none
        | n+1 => (onP2cData { client with pkts } pkt).bind (consumePkts n)

def handleP2cCache (n : Nat) : Option ICProxyClient :=
  if client.isPlaceholder then some client else client.consumePkts n

end ICProxyClient

open ICProxyClient

/-- The packets up to the one that starts the shutdown. -/
def reached (key : ICProxyKey) : List ICProxyPkt → List ICProxyPkt
  | [] => []
  | pkt::pkts => if pkt.shuts key then [pkt] else pkt::reached key pkts

/-- The packets behind the one that starts the shutdown. -/
def behindShutdown (key : ICProxyKey) : List ICProxyPkt → List ICProxyPkt
  | [] => []
  | pkt::pkts => if pkt.shuts key then pkts else behindShutdown key pkts

/-- What the handling of the cache is for: the live packets are handled up to the shutdown, the
future ones and those behind the shutdown stay. A client that is shutting down keeps all. -/
structure CacheHandled (client client' : ICProxyClient) (met rest : List ICProxyPkt) : Prop where
  handled : client'.handled=client.handled ++ met.filter (·.isLive client.key)
  pkts : client'.pkts=met.filter (·.isInTheFuture client.key) ++ rest

def ICProxyClient.met (client : ICProxyClient) : List ICProxyPkt :=
  if client.p2cShutting then [] else reached client.key client.pkts

def ICProxyClient.rest (client : ICProxyClient) : List ICProxyPkt :=
  if client.p2cShutting then client.pkts else behindShutdown client.key client.pkts

variable {client client' : ICProxyClient} {pkt : ICProxyPkt} {pkts : List ICProxyPkt}

/-- A packet that does not start the shutdown is handled if it is live, dropped if it is out of date,
and put behind the others if it is in the future. -/
theorem onP2cData_goes_on (hplace : client.isPlaceholder=false) (hopen : client.p2cShutting=false)
    (hshut : pkt.shuts client.key=false)
    (hknown : pkt.isLive client.key=true → pkt.type=.data ∨ pkt.type=.bye ∨ pkt.type=.dataAck) :
    ∃ client', client.onP2cData pkt=some client' ∧ client'.key=client.key ∧
      client'.isPlaceholder=false ∧ client'.p2cShutting=false ∧
      client'.handled=client.handled ++ [pkt].filter (·.isLive client.key) ∧
      client'.pkts=client.pkts ++ [pkt].filter (·.isInTheFuture client.key) := by
  have hfut := @isInTheFuture_iff pkt client.key
  cases hlive : pkt.isLive client.key with
  | false =>
    cases hold : pkt.isOutOfDate client.key with
    | true =>
      refine ⟨client,by simp [onP2cData,hplace,hlive,hold],rfl,hplace,hopen,?_⟩
      simp [hfut,hlive,hold]
    | false =>
      refine ⟨client.cacheP2cPkt pkt,by simp [onP2cData,hplace,hlive,hold],rfl,hplace,hopen,?_⟩
      simp [cacheP2cPkt,hfut,hlive,hold]
  | true =>
    have hbye : pkt.type≠.bye := by simpa [shuts,hlive] using hshut
    rcases hknown hlive with htype | htype | htype
    · refine ⟨{ client with
          unconsumed := client.unconsumed+1
          sending := client.sending+1
          handled := client.handled ++ [pkt] },?_,rfl,hplace,hopen,?_⟩
      · simp [onP2cData,hplace,hlive,htype,hopen]
      · simp [hfut,hlive]
    · exact absurd htype hbye
    · refine ⟨_,by simp [onP2cData,hplace,hlive,htype,onP2cMessage]; rfl,?_⟩
      unfold maybeResume
      split <;> simp [hfut,hlive,hopen]

theorem onP2cData_shuts (hplace : client.isPlaceholder=false) (hshut : pkt.shuts client.key=true) :
    ∃ client', client.onP2cData pkt=some client' ∧
      client'.p2cShutting=true ∧ client'.handled=client.handled ++ [pkt] ∧
      client'.pkts=client.pkts := by
  obtain ⟨hlive,htype⟩ : pkt.isLive client.key=true ∧ pkt.type=.bye := by
    simpa [shuts] using hshut
  refine ⟨_,by simp [onP2cData,hplace,hlive,htype,onP2cMessage]; rfl,rfl,?_⟩
  unfold shutdownP2c maybeResume
  split <;> exact ⟨rfl,rfl⟩

/-- Where the loop ends, the future packets it met are behind all others. -/
theorem consumePkts_ends {later : List ICProxyPkt} (hplace : client.isPlaceholder=false)
    (hopen : client.p2cShutting=false) (hpkts : client.pkts=pkts ++ later)
    (hknown : ∀ pkt∈reached client.key pkts, pkt.isLive client.key=true →
      pkt.type=.data ∨ pkt.type=.bye ∨ pkt.type=.dataAck)
    (hend : (∃ pkt∈pkts, pkt.shuts client.key=true) ∨
      later=[] ∧ (reached client.key pkts).filter (·.isInTheFuture client.key)=[]) :
    ∃ client', client.consumePkts pkts.length=some client' ∧
      client'.handled=client.handled ++ (reached client.key pkts).filter (·.isLive client.key) ∧
      client'.pkts=behindShutdown client.key pkts ++ later ++
        (reached client.key pkts).filter (·.isInTheFuture client.key) := by
  induction pkts generalizing client later with
  | nil =>
    obtain rfl : later=[] := by simpa [reached] using hend
    refine ⟨client,by rw [consumePkts,hpkts]; rfl,?_⟩
    simp [reached,behindShutdown,hpkts]
  | cons pkt pkts ih =>
    have hround : client.consumePkts (pkt::pkts).length=
        (onP2cData { client with pkts := pkts ++ later } pkt).bind (consumePkts pkts.length) := by
      rw [consumePkts,hpkts]
      simp [hopen]
    rw [hround]
    cases hshut : pkt.shuts client.key with
    | true =>
      obtain ⟨next,hnext,hstop,hhan,hcac⟩ :=
        @onP2cData_shuts { client with pkts := pkts ++ later } pkt hplace hshut
      have hlive : pkt.isLive client.key=true := by
        simp only [shuts,decide_eq_true_eq] at hshut
        exact hshut.1
      have hnow : ¬pkt.isInTheFuture client.key=true := fun h => (isInTheFuture_iff.mp h).1 hlive
      refine ⟨next,?_,?_⟩
      · rw [hnext,Option.bind_some,consumePkts]
        split
        · rfl
        · rw [if_pos hstop]
      · simp [reached,behindShutdown,hshut,hlive,hnow,hhan,hcac]
    | false =>
      have hreac : reached client.key (pkt::pkts)=pkt::reached client.key pkts := by
        simp [reached,hshut]
      rw [hreac] at hknown hend ⊢
      obtain ⟨next,hnext,hkey,hplace',hopen',hhan,hcac⟩ := @onP2cData_goes_on
        { client with pkts := pkts ++ later } pkt hplace hopen hshut (hknown pkt (by simp))
      have hrest : (∃ pkt∈pkts, pkt.shuts next.key=true) ∨
          later ++ [pkt].filter (·.isInTheFuture client.key)=[] ∧
            (reached next.key pkts).filter (·.isInTheFuture next.key)=[] := by
        rw [hkey]
        rcases hend with ⟨bye,hbye,hb⟩ | ⟨hlater,hnone⟩
        · rcases mem_cons.mp hbye with rfl | hbye
          · exact absurd (hshut.symm.trans hb) (by simp)
          · exact .inl ⟨bye,hbye,hb⟩
        · rw [filter_cons] at hnone
          split at hnone
          · cases hnone
          next hnow => exact .inr ⟨by simp [hlater,hnow],hnone⟩
      obtain ⟨last,hlast,hend',hkept⟩ := ih hplace' hopen' (by rw [hcac,append_assoc])
        (by rw [hkey]; exact fun p hp => hknown p (by simp [hp])) hrest
      refine ⟨last,by rw [hnext,Option.bind_some,hlast],?_,?_⟩
      · rw [hend',hhan,hkey,append_assoc,← filter_append]
        rfl
      · rw [hkept,hkey]
        simp [behindShutdown,hshut,← filter_append]

/-- More fuel does not change a result. -/
theorem consumePkts_succ (h : client.consumePkts n=some client') :
    client.consumePkts (n+1)=some client' := by
  induction n generalizing client with
  | zero =>
    unfold consumePkts at h ⊢
    split at h
    · exact h
    · split at h
      next hstop => rwa [if_pos hstop]
      · cases h
  | succ n ih =>
    rw [consumePkts] at h ⊢
    split at h
    · exact h
    · split at h
      next hstop => rwa [if_pos hstop]
      next hopen =>
        rw [if_neg hopen]
        obtain ⟨next,hnext,h⟩ := Option.bind_eq_some_iff.mp h
        exact Option.bind_eq_some_iff.mpr ⟨next,hnext,ih h⟩

theorem consumePkts_mono (h : client.consumePkts n=some client') (hle : n≤k) :
    client.consumePkts k=some client' := by
  induction hle with
  | refl => exact h
  | step _ ih => exact consumePkts_succ ih

/-- Without a packet that starts the shutdown, a future packet is in the cache after each round. -/
theorem consumePkts_none (hplace : client.isPlaceholder=false) (hopen : client.p2cShutting=false)
    (hno : ∀ pkt∈client.pkts, pkt.shuts client.key=false)
    (hknown : ∀ pkt∈client.pkts, pkt.isLive client.key=true →
      pkt.type=.data ∨ pkt.type=.bye ∨ pkt.type=.dataAck)
    (hfut : ∃ pkt∈client.pkts, pkt.isInTheFuture client.key=true) (n : Nat) :
    client.consumePkts n=none := by
  induction n generalizing client with
  | zero =>
    obtain ⟨pkt,hpkt,-⟩ := hfut
    rw [consumePkts]
    split
    next hnil => rw [hnil] at hpkt; cases hpkt
    next => simp [hopen]
  | succ n ih =>
    rw [consumePkts]
    split
    next hnil =>
      obtain ⟨pkt,hpkt,-⟩ := hfut
      rw [hnil] at hpkt
      cases hpkt
    next pkt pkts hpkts =>
      rw [hpkts] at hno hknown hfut
      obtain ⟨next,hnext,hkey,hplace',hopen',-,hcac⟩ := @onP2cData_goes_on { client with pkts } pkt
        hplace hopen (hno pkt mem_cons_self) (hknown pkt mem_cons_self)
      rw [if_neg (by simp [hopen]),hnext]
      show next.consumePkts n=none
      have hsub : ∀ p∈next.pkts, p∈pkt::pkts := by
        intro p hp
        rw [hcac] at hp
        rcases mem_append.mp hp with hp | hp
        · exact mem_cons_of_mem _ hp
        · rw [mem_singleton.mp (mem_of_mem_filter hp)]
          exact mem_cons_self
      refine ih hplace' hopen' (fun p hp => ?_) (fun p hp => ?_) ?_
      · rw [hkey]
        exact hno p (hsub p hp)
      · rw [hkey]
        exact hknown p (hsub p hp)
      · obtain ⟨later,hlater,hl⟩ := hfut
        refine ⟨later,?_,by rwa [hkey]⟩
        rw [hcac]
        rcases mem_cons.mp hlater with rfl | hlater
        · exact mem_append_right _ (mem_filter.mpr ⟨mem_cons_self,hl⟩)
        · exact mem_append_left _ hlater

theorem reached_eq {key : ICProxyKey} (h : ∀ pkt∈pkts, pkt.shuts key=false) :
    reached key pkts=pkts := by
  induction pkts with
  | nil => rfl
  | cons pkt pkts ih =>
    obtain ⟨hpkt,hpkts⟩ := forall_mem_cons.mp h
    simp [reached,hpkt,ih hpkts]

/-- The handling returns with what it is for exactly where no future packet is met before the
shutdown, or where there is a shutdown and putting them behind the packets that follow it changes
nothing. -/
theorem handleP2cCache_returns (client : ICProxyClient) (hplace : client.isPlaceholder=false)
    (hknown : ∀ pkt∈client.met, pkt.isLive client.key=true →
      pkt.type=.data ∨ pkt.type=.bye ∨ pkt.type=.dataAck) :
    (∃ n client', client.handleP2cCache n=some client' ∧
      CacheHandled client client' client.met client.rest) ↔
    client.met.filter (·.isInTheFuture client.key)=[] ∨
      (∃ pkt∈client.pkts, pkt.shuts client.key=true) ∧
        client.met.filter (·.isInTheFuture client.key) ++ client.rest=
          client.rest ++ client.met.filter (·.isInTheFuture client.key) := by
  have hcac : ∀ n, client.handleP2cCache n=client.consumePkts n := by
    simp [handleP2cCache,hplace]
  cases hopen : client.p2cShutting with
  | true =>
    refine iff_of_true ⟨0,client,?_,by simp [met,hopen],by simp [met,rest,hopen]⟩
      (.inl (by simp [met,hopen]))
    rw [hcac,consumePkts]
    split
    · rfl
    · rw [if_pos hopen]
  | false =>
    have hmet : client.met=reached client.key client.pkts := by simp [met,hopen]
    have hrest : client.rest=behindShutdown client.key client.pkts := by simp [rest,hopen]
    rw [hmet] at hknown ⊢
    rw [hrest]
    have hends := fun hend => consumePkts_ends hplace hopen (append_nil client.pkts).symm hknown hend
    constructor
    · rintro ⟨n,client',hrun,hhan⟩
      by_cases hbye : ∃ pkt∈client.pkts, pkt.shuts client.key=true
      · obtain ⟨last,hlast,-,hpkts⟩ := hends (.inl hbye)
        refine .inr ⟨hbye,?_⟩
        rw [hcac] at hrun
        have hone := (consumePkts_mono hrun (Nat.le_max_left n client.pkts.length)).symm.trans
          (consumePkts_mono hlast (Nat.le_max_right n client.pkts.length))
        rw [← hhan.pkts,Option.some.inj hone,hpkts,append_nil]
      · have hno : ∀ pkt∈client.pkts, pkt.shuts client.key=false :=
          fun pkt hpkt => Bool.eq_false_iff.mpr fun hb => hbye ⟨pkt,hpkt,hb⟩
        rw [reached_eq hno] at hknown ⊢
        refine .inl (filter_eq_nil_iff.mpr fun pkt hpkt hfut => ?_)
        have hnone := consumePkts_none hplace hopen hno hknown ⟨pkt,hpkt,hfut⟩ n
        rw [← hcac,hrun] at hnone
        cases hnone
    · intro hend
      obtain ⟨client',hrun,hhan,hpkts⟩ := hends (hend.symm.imp (·.1) fun hnone => ⟨rfl,hnone⟩)
      refine ⟨_,client',(hcac _).trans hrun,hhan,?_⟩
      rw [hpkts,append_nil]
      rcases hend with hnone | ⟨-,hsame⟩
      · rw [hnone,append_nil,nil_append]
      · exact hsame.symm

def clientWith (pkts : List ICProxyPkt) : ICProxyClient := { key := ⟨7,1⟩, pkts }

def mixedPkts : List ICProxyPkt := [⟨.data,8,1,[3]⟩,⟨.data,6,1,[2]⟩,⟨.data,7,1,[1]⟩,⟨.bye,7,1,[]⟩]

theorem handleP2cCache_returns_future_kept :
    ∃ n client', (clientWith mixedPkts).handleP2cCache n=some client' ∧
      CacheHandled (clientWith mixedPkts) client' mixedPkts [] :=
  (handleP2cCache_returns _ rfl (by decide)).mpr (by decide)

/-- A future packet is put back behind the others and met again: alone it keeps the loop running for
ever, and before the shutdown it changes places with the packets behind it. -/
theorem handleP2cCache_fails :
    (∀ n, (clientWith [⟨.data,8,1,[]⟩]).handleP2cCache n=none) ∧ ∃ client',
      (clientWith [⟨.data,8,1,[]⟩,⟨.bye,7,1,[]⟩,⟨.data,7,1,[]⟩]).handleP2cCache 2=some client' ∧
        client'.pkts=[⟨.data,7,1,[]⟩,⟨.data,8,1,[]⟩] := by
  refine ⟨fun n => ?_,_,rfl,rfl⟩
  -- one round leads back to the same client
  induction n with
  | zero => rfl
  | succ n ih => exact ih

end WarehousePG.Interconnect
